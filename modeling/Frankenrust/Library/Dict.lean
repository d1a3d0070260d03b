import Mathlib.Data.List.Nodup

/-! Dictionaries as lists of entries, in the order in which their keys were first set. -/
namespace Dict
variable {κ ν : Type} [DecidableEq κ]

def get (key : κ) : List (κ × ν) → Option ν
  | [] => none
  | entry :: rest => if entry.1 = key then some entry.2 else get key rest

/-- A key that is there keeps its place. -/
def set (key : κ) (value : ν) : List (κ × ν) → List (κ × ν)
  | [] => [(key,value)]
  | entry :: rest => if entry.1 = key then (key,value) :: rest else entry :: set key value rest

def setAll (entries dict : List (κ × ν)) : List (κ × ν) := entries.foldl (fun dict entry => set entry.1 entry.2 dict) dict

/-- The value of the last entry for a key. -/
def latest (key : κ) (entries : List (κ × ν)) : Option ν := get key entries.reverse

/-- `setdefault`: a key that is there keeps its value. -/
def setDefault (key : κ) (value : ν) (dict : List (κ × ν)) : List (κ × ν) :=
  if get key dict = none then set key value dict else dict

def setDefaults (entries dict : List (κ × ν)) : List (κ × ν) :=
  entries.foldl (fun dict entry => setDefault entry.1 entry.2 dict) dict

def erase (key : κ) (dict : List (κ × ν)) : List (κ × ν) := dict.filter fun entry => entry.1 ≠ key

/-- Each key once. -/
def Keyed (dict : List (κ × ν)) : Prop := (dict.map (·.1)).Nodup

variable {key other : κ} {value : ν} {dict : List (κ × ν)}

theorem get_set : get other (set key value dict) = if other = key then some value else get other dict := by
  induction dict with
  | nil => simp [set,get,eq_comm]
  | cons entry rest ih =>
    rw [set]
    split
    next same =>
      by_cases wanted : other = key
      · simp [get,wanted]
      · simp [get,wanted,same,Ne.symm wanted]
    next apart =>
      rw [get,ih,get]
      by_cases wanted : other = key
      · simp [wanted,apart]
      · simp [wanted]

theorem get_erase : get other (erase key dict) = if other = key then none else get other dict := by
  induction dict with
  | nil => simp [erase,get]
  | cons entry rest ih =>
    rw [erase,List.filter_cons]
    split
    next kept =>
      rw [get,show rest.filter _ = erase key rest from rfl,ih,get]
      by_cases wanted : other = key
      · simp [wanted,of_decide_eq_true kept]
      · simp [wanted]
    next dropped =>
      rw [show rest.filter _ = erase key rest from rfl,ih,get]
      by_cases wanted : other = key
      · simp [wanted]
      · have apart : entry.1 ≠ other := fun same => dropped (decide_eq_true (same ▸ wanted))
        simp [wanted,apart]

theorem set_set {first : ν} : set key value (set key first dict) = set key value dict := by
  induction dict with
  | nil => simp [set]
  | cons entry rest ih =>
    by_cases same : entry.1 = key
    · simp [set,same]
    · simp [set,same,ih]

/-- A key that is there keeps its place whatever else is set. -/
theorem set_comm {given : ν} (apart : other ≠ key) (there : key ∈ dict.map (·.1)) :
    set key value (set other given dict) = set other given (set key value dict) := by
  induction dict with
  | nil => cases there
  | cons entry rest ih =>
    by_cases here : entry.1 = key
    · simp [set,here,Ne.symm apart]
    · have later : key ∈ rest.map (·.1) := by simpa [Ne.symm here] using there
      by_cases same : entry.1 = other
      · simp [set,same,apart]
      · simp [set,here,same,ih later]

theorem get_append (front back : List (κ × ν)) : get key (front ++ back) = (get key front).or (get key back) := by
  induction front with
  | nil => rfl
  | cons entry front ih =>
    rw [List.cons_append,get,get,ih]
    split <;> rfl

theorem latest_cons (entry : κ × ν) (entries : List (κ × ν)) : latest key (entry :: entries) =
    (latest key entries).or (if entry.1 = key then some entry.2 else none) := by
  rw [latest,List.reverse_cons,get_append]
  rfl

theorem setAll_cons (entry : κ × ν) (entries dict : List (κ × ν)) :
    setAll (entry :: entries) dict = setAll entries (set entry.1 entry.2 dict) := rfl

theorem get_setAll (entries dict : List (κ × ν)) : get key (setAll entries dict) = (latest key entries).or (get key dict) := by
  induction entries generalizing dict with
  | nil => rfl
  | cons entry entries ih =>
    rw [setAll_cons,ih,latest_cons,get_set,Option.or_assoc]
    congr 1
    by_cases same : key = entry.1
    · simp [same]
    · simp [same,Ne.symm same]

theorem get_fromEntries (entries : List (κ × ν)) : get key (setAll entries []) = latest key entries := by
  rw [get_setAll,get,Option.or_none]

theorem get_eq_none : get key dict = none ↔ key ∉ dict.map (·.1) := by
  induction dict with
  | nil => simp [get]
  | cons entry rest ih =>
    rw [get,List.map_cons,List.mem_cons]
    by_cases same : entry.1 = key
    · simp [same]
    · simp [same,ih,Ne.symm same]

theorem latest_eq_none {entries : List (κ × ν)} : latest key entries = none ↔ key ∉ entries.map (·.1) := by
  rw [latest,get_eq_none,List.map_reverse,List.mem_reverse]

theorem get_mem (found : get key dict = some value) : (key,value) ∈ dict := by
  induction dict with
  | nil => cases found
  | cons entry rest ih =>
    rw [get] at found
    split at found
    next same =>
      cases found
      exact same ▸ List.mem_cons_self
    next => exact List.mem_cons_of_mem _ (ih found)

theorem latest_mem {entries : List (κ × ν)} (found : latest key entries = some value) : (key,value) ∈ entries :=
  List.mem_reverse.mp (get_mem found)

theorem get_map {μ : Type} (f : κ → ν → μ) : get key (dict.map fun entry => (entry.1,f entry.1 entry.2)) = (get key dict).map (f key) := by
  induction dict with
  | nil => rfl
  | cons entry rest ih =>
    rw [List.map_cons,get,get,ih]
    by_cases same : entry.1 = key
    · simp [same]
    · simp [same]

theorem get_setDefault :
    get other (setDefault key value dict) = (get other dict).or (if key = other then some value else none) := by
  rw [setDefault]
  split
  next missing =>
    rw [get_set]
    by_cases wanted : other = key
    · simp [wanted,missing]
    · simp [wanted,Ne.symm wanted]
  next there =>
    by_cases wanted : key = other
    · obtain ⟨old,found⟩ := Option.ne_none_iff_exists'.mp (wanted ▸ there)
      simp [found]
    · simp [wanted]

theorem get_setDefaults (entries : List (κ × ν)) : get key (setDefaults entries dict) = (get key dict).or (get key entries) := by
  induction entries generalizing dict with
  | nil => exact (Option.or_none).symm
  | cons entry entries ih =>
    have first : setDefaults (entry :: entries) dict = setDefaults entries (setDefault entry.1 entry.2 dict) := rfl
    rw [first,ih,get_setDefault,Option.or_assoc,get]
    by_cases same : entry.1 = key
    · simp [same]
    · simp [same]

theorem mem_keys_set : key ∈ (set key value dict).map (·.1) :=
  List.mem_map.mpr ⟨_,get_mem (get_set.trans (if_pos rfl)),rfl⟩

theorem keys_set : (set key value dict).map (·.1) = if key ∈ dict.map (·.1) then dict.map (·.1) else dict.map (·.1) ++ [key] := by
  induction dict with
  | nil => rfl
  | cons entry rest ih =>
    rw [set]
    by_cases same : entry.1 = key
    · simp [same]
    · rw [if_neg same,List.map_cons,ih,List.map_cons]
      by_cases later : key ∈ rest.map (·.1)
      · rw [if_pos later,if_pos (List.mem_cons_of_mem _ later)]
      · rw [if_neg later,if_neg (by simpa [Ne.symm same] using later)]
        rfl

namespace Keyed
variable (keyed : Keyed dict)
include keyed

theorem set : Keyed (Dict.set key value dict) := by
  rw [Keyed,keys_set]
  split
  next => exact keyed
  next fresh => exact List.nodup_append.mpr ⟨keyed,List.nodup_singleton _,fun old there new only same =>
    fresh ((List.mem_singleton.mp only ▸ same) ▸ there)⟩

theorem setDefault : Keyed (Dict.setDefault key value dict) := by
  rw [Dict.setDefault]
  split
  · exact keyed.set
  · exact keyed

theorem setAll (entries : List (κ × ν)) : Keyed (Dict.setAll entries dict) := by
  induction entries generalizing dict with
  | nil => exact keyed
  | cons entry entries ih => exact ih keyed.set

theorem setDefaults (entries : List (κ × ν)) : Keyed (Dict.setDefaults entries dict) := by
  induction entries generalizing dict with
  | nil => exact keyed
  | cons entry entries ih => exact ih keyed.setDefault

theorem mem_iff {entry : κ × ν} : entry ∈ dict ↔ get entry.1 dict = some entry.2 := by
  refine ⟨fun member => ?_,get_mem⟩
  induction dict with
  | nil => cases member
  | cons first rest ih =>
    have nodup := List.nodup_cons.mp keyed
    rcases List.mem_cons.mp member with rfl | later
    · exact if_pos rfl
    · have apart : first.1 ≠ entry.1 := fun same => nodup.1 (List.mem_map.mpr ⟨entry,later,same.symm⟩)
      rw [get,if_neg apart]
      exact ih nodup.2 later

/-- An entry that is set where a dictionary is laid over another could as well be set last. -/
theorem setAll_set {base : List (κ × ν)} : Dict.setAll (Dict.set key value dict) base = Dict.set key value (Dict.setAll dict base) := by
  have absorbed {entries : List (κ × ν)} (fresh : key ∉ entries.map (·.1)) {base : List (κ × ν)} (there : key ∈ base.map (·.1)) :
      Dict.setAll entries (Dict.set key value base) = Dict.set key value (Dict.setAll entries base) := by
    induction entries generalizing base with
    | nil => rfl
    | cons entry entries ih =>
      obtain ⟨apart,fresh⟩ := not_or.mp (fun same => fresh (List.mem_cons.mpr same))
      have still : key ∈ (Dict.set entry.1 entry.2 base).map (·.1) := by
        rw [keys_set]
        split
        · exact there
        · exact List.mem_append_left _ there
      rw [setAll_cons,setAll_cons,← set_comm (Ne.symm apart) there,ih fresh still]
  induction dict generalizing base with
  | nil => rfl
  | cons entry rest ih =>
    obtain ⟨fresh,keyed⟩ := List.nodup_cons.mp keyed
    rw [Dict.set]
    split
    next same =>
      subst same
      rw [setAll_cons,setAll_cons,← absorbed fresh mem_keys_set,set_set]
    next => rw [setAll_cons,setAll_cons,ih keyed]

/-- No entry is overwritten by a later one. -/
theorem latest_eq : latest key dict = get key dict := by
  have backwards : Keyed dict.reverse := by
    rw [Keyed,List.map_reverse]
    exact List.nodup_reverse.mpr keyed
  refine Option.ext fun value => ?_
  have forth : (key,value) ∈ dict.reverse ↔ get key dict.reverse = some value := backwards.mem_iff
  have back : (key,value) ∈ dict ↔ get key dict = some value := keyed.mem_iff
  rw [List.mem_reverse] at forth
  exact forth.symm.trans back

end Keyed

end Dict
