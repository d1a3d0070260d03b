import Mathlib.Data.List.Basic
import Mathlib.Data.List.Induction
import Mathlib.Data.List.Nodup

/-! Ordered multimaps as association lists: a key stands where it was first inserted,
with all its values in the order of their insertion. -/
namespace Multimap
variable {κ ν : Type} [DecidableEq κ]

def insert (key : κ) (value : ν) : List (κ × List ν) → List (κ × List ν)
  | [] => [(key,[value])]
  | (first,values) :: rest =>
    if first = key then (first,values ++ [value]) :: rest
    else (first,values) :: insert key value rest

/-- The keys of a list of insertions, each where it first occurs. -/
def keys (pairs : List (κ × ν)) : List κ := (pairs.map (·.1)).eraseDups

/-- The values a list of insertions gives one key. -/
def valuesOf (pairs : List (κ × ν)) (key : κ) : List ν :=
  (pairs.filter fun pair => pair.1 = key).map (·.2)

/-- What a list of insertions amounts to, said at once. -/
def grouped (pairs : List (κ × ν)) : List (κ × List ν) :=
  (keys pairs).map fun key => (key,valuesOf pairs key)

theorem mem_keys {pairs : List (κ × ν)} {key : κ} : key ∈ keys pairs ↔ key ∈ pairs.map (·.1) := List.mem_eraseDups

theorem keys_append (pairs : List (κ × ν)) (key : κ) (value : ν) :
    keys (pairs ++ [(key,value)]) = if key ∈ keys pairs then keys pairs else keys pairs ++ [key] := by
  rw [keys,List.map_append,List.eraseDups_append]
  by_cases known : key ∈ pairs.map (·.1)
  · rw [if_pos (mem_keys.mpr known)]
    simp [List.removeAll,known,keys]
  · rw [if_neg (mt mem_keys.mp known)]
    simp [List.removeAll,known,keys,List.eraseDups_cons]

theorem keys_nodup (pairs : List (κ × ν)) : (keys pairs).Nodup := by
  induction pairs using List.reverseRecOn with
  | nil => exact List.nodup_nil
  | append_singleton pairs pair ih =>
    rw [keys_append]
    split
    · exact ih
    next fresh => exact List.nodup_append.mpr ⟨ih,by simp,by
        rintro other member key added rfl
        exact fresh (List.mem_singleton.mp added ▸ member)⟩

theorem valuesOf_append (pairs : List (κ × ν)) (key : κ) (value : ν) (other : κ) :
    valuesOf (pairs ++ [(key,value)]) other =
      valuesOf pairs other ++ if key = other then [value] else [] := by
  by_cases same : key = other <;> simp [valuesOf,same]

theorem valuesOf_fresh {pairs : List (κ × ν)} {key : κ} (fresh : key ∉ pairs.map (·.1)) :
    valuesOf pairs key = [] := by
  simp only [valuesOf,List.map_eq_nil_iff,List.filter_eq_nil_iff,decide_eq_true_eq]
  rintro pair member rfl
  exact fresh (List.mem_map_of_mem member)

theorem insert_fresh {key : κ} (value : ν) {entries : List (κ × List ν)} (fresh : key ∉ entries.map (·.1)) :
    insert key value entries = entries ++ [(key,[value])] := by
  induction entries with
  | nil => rfl
  | cons entry rest ih =>
    simp only [List.map_cons,List.mem_cons,not_or] at fresh
    rw [insert,if_neg (Ne.symm fresh.1),ih fresh.2,List.cons_append]

theorem insert_known {key : κ} (value : ν) {keys : List κ} (values : κ → List ν) (distinct : keys.Nodup)
    (known : key ∈ keys) :
    insert key value (keys.map fun other => (other,values other)) =
      keys.map fun other => (other,values other ++ if key = other then [value] else []) := by
  induction keys with
  | nil => contradiction
  | cons first rest ih =>
    rw [List.nodup_cons] at distinct
    by_cases same : first = key
    · subst same
      -- the key stands nowhere else, so the rest is as it was
      have unchanged : rest.map (fun other => (other,values other ++ if first = other then [value] else [])) =
          rest.map fun other => (other,values other) := by
        apply List.map_congr_left
        intro other member
        have apart : first ≠ other := fun same => distinct.1 (same ▸ member)
        simp [apart]
      rw [List.map_cons,List.map_cons,unchanged]
      simp [insert]
    · have later := ih distinct.2 ((List.mem_cons.mp known).resolve_left (Ne.symm same))
      simp only [List.map_cons,insert,if_neg same,later,if_neg (Ne.symm same),List.append_nil]

theorem insert_grouped (pairs : List (κ × ν)) (key : κ) (value : ν) :
    insert key value (grouped pairs) = grouped (pairs ++ [(key,value)]) := by
  simp only [grouped,keys_append,valuesOf_append]
  split
  next known => exact insert_known value _ (keys_nodup _) known
  next fresh =>
    have absent : key ∉ ((keys pairs).map fun other => (other,valuesOf pairs other)).map (·.1) := by
      simpa [List.map_map,Function.comp_def] using fresh
    rw [insert_fresh value absent,List.map_append]
    congr 1
    · apply List.map_congr_left
      intro other member
      have apart : key ≠ other := fun same => fresh (same ▸ member)
      simp [apart]
    · simp [valuesOf_fresh (mt mem_keys.mpr fresh)]

theorem foldl_insert (pairs : List (κ × ν)) :
    pairs.foldl (fun entries pair => insert pair.1 pair.2 entries) [] = grouped pairs := by
  induction pairs using List.reverseRecOn with
  | nil => rfl
  | append_singleton pairs pair ih => rw [List.foldl_append,ih,List.foldl_cons,List.foldl_nil,insert_grouped]

theorem valuesOf_nil {pairs : List (κ × ν)} {key : κ} : valuesOf pairs key = [] ↔ key ∉ keys pairs := by
  rw [mem_keys]
  refine ⟨?_,valuesOf_fresh⟩
  intro empty known
  obtain ⟨pair,member,same⟩ := List.mem_map.mp known
  have value : pair.2 ∈ valuesOf pairs key := List.mem_map_of_mem (List.mem_filter.mpr ⟨member,by simpa using same⟩)
  simp [empty] at value

theorem find?_grouped [BEq κ] [LawfulBEq κ] (pairs : List (κ × ν)) (key : κ) :
    ((grouped pairs).find? fun entry => entry.1 == key).map (·.2) =
      if valuesOf pairs key = [] then none else some (valuesOf pairs key) := by
  rw [grouped,List.find?_map]
  cases found : (keys pairs).find? ((fun entry : κ × List ν => entry.1 == key) ∘ fun key => (key,valuesOf pairs key)) with
  | none =>
    have absent : key ∉ keys pairs := by
      intro member
      simpa using List.find?_eq_none.mp found key member
    simp [valuesOf_nil.mpr absent]
  | some other =>
    have same : other = key := by simpa using List.find?_some found
    have known : valuesOf pairs key ≠ [] := fun empty => valuesOf_nil.mp empty (same ▸ List.mem_of_find?_eq_some found)
    simp [same,known]

end Multimap
