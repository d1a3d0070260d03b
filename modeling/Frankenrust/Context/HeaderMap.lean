import Frankenrust.Cgi.CommonHeaders
import Frankenrust.Library.Multimap

/-! The header map over its whole life: after any insertions and clearings it groups what was
inserted since the last clearing, by canonical name. -/
namespace Frankenrust.Context

theorem insertEntry_eq (canon value : Bytes) (entries : List (Bytes × List Bytes)) :
    insertEntry canon value entries = Multimap.insert canon value entries := by
  induction entries with
  | nil => rfl
  | cons entry rest ih =>
    obtain ⟨name,values⟩ := entry
    simp only [insertEntry,Multimap.insert,ih]

inductive HeaderOperation
  | insert (name value : Bytes)
  | clear

def HeaderOperation.apply (headers : Headers) : HeaderOperation → Headers
  | .insert name value => headers.insert name value
  | .clear => headers.clear

def Headers.after (operations : List HeaderOperation) : Headers := operations.foldl HeaderOperation.apply Headers.empty

/-- What was inserted since the last clearing. -/
def sinceClear (operations : List HeaderOperation) : List (Bytes × Bytes) :=
  operations.foldl (fun since operation =>
    match operation with
    | .insert name value => since ++ [(name,value)]
    | .clear => []) []

/-- The values inserted since then under a name of the same canonical form. -/
def valuesUnder (operations : List HeaderOperation) (name : Bytes) : List Bytes :=
  ((sinceClear operations).filter fun entry => canonicalHeaderName entry.1 = canonicalHeaderName name).map (·.2)

def canonicalEntry (entry : Bytes × Bytes) : Bytes × Bytes := (canonicalHeaderName entry.1,entry.2)

theorem after_entries (operations : List HeaderOperation) :
    (Headers.after operations).entries = Multimap.grouped ((sinceClear operations).map canonicalEntry) := by
  induction operations using List.reverseRecOn with
  | nil => rfl
  | append_singleton operations operation ih =>
    cases operation with
    | clear =>
      simp only [Headers.after,sinceClear,List.foldl_append,List.foldl_cons,List.foldl_nil]
      rfl
    | insert name value =>
      simp only [Headers.after,sinceClear,List.foldl_append,List.foldl_cons,List.foldl_nil] at ih ⊢
      rw [List.map_append,HeaderOperation.apply,Headers.insert,insertEntry_eq,ih]
      exact Multimap.insert_grouped _ _ _

theorem valuesOf_canonical (operations : List HeaderOperation) (name : Bytes) :
    Multimap.valuesOf ((sinceClear operations).map canonicalEntry) (canonicalHeaderName name) = valuesUnder operations name := by
  simp only [Multimap.valuesOf,valuesUnder,List.filter_map,List.map_map,Function.comp_def,canonicalEntry]
  rfl

theorem after_getAll (operations : List HeaderOperation) (name : Bytes) :
    (Headers.after operations).getAll name =
      if valuesUnder operations name = [] then none else some (valuesUnder operations name) := by
  rw [Headers.getAll,after_entries,Multimap.find?_grouped,valuesOf_canonical]

theorem after_stored (operations : List HeaderOperation) : Stored (Headers.after operations) := by
  induction operations using List.reverseRecOn with
  | nil => exact stored_empty
  | append_singleton operations operation ih =>
    simp only [Headers.after,List.foldl_append,List.foldl_cons,List.foldl_nil] at ih ⊢
    cases operation with
    | insert name value => exact stored_insert ih name value
    | clear => exact stored_empty

theorem after_filled {operations : List HeaderOperation} {entry : Bytes × List Bytes}
    (member : entry ∈ (Headers.after operations).entries) : entry.2 ≠ [] := by
  rw [after_entries] at member
  obtain ⟨name,known,rfl⟩ := List.mem_map.mp member
  exact fun empty => Multimap.valuesOf_nil.mp empty known

/-- Names of tokens are told apart up to ASCII case. -/
theorem canonical_iff {first second : Bytes} (token : isToken first = true) :
    canonicalHeaderName first = canonicalHeaderName second ↔ lowercase first = lowercase second := by
  constructor
  · intro same
    rw [← lowercase_canonical first,same,lowercase_canonical]
  · exact canonical_of_lowercase (token_fields token)

/-- The map is a canonical ordered multimap after every sequence of operations, and the two
canonical forms are one. -/
theorem headers_canonical (operations : List HeaderOperation) :
    (names (Headers.after operations).entries).Nodup ∧
      (∀ entry ∈ (Headers.after operations).entries, canonicalHeaderName entry.1 = entry.1 ∧ entry.2 ≠ []) ∧
      (∀ name, (Headers.after operations).getAll name =
        if valuesUnder operations name = [] then none else some (valuesUnder operations name)) ∧
      (∀ name, (Headers.after operations).getFirst name = (valuesUnder operations name).head?) ∧
      (∀ name, canonicalHeaderName (canonicalHeaderName name) = canonicalHeaderName name ∧
        canonicalHeaderName name = Cgi.canonicalMimeHeaderName name) ∧
      ∀ first second, isToken first = true → isToken second = true →
        (canonicalHeaderName first = canonicalHeaderName second ↔ lowercase first = lowercase second) := by
  have stored := after_stored operations
  refine ⟨stored.distinct,?_,after_getAll operations,?_,?_,fun first second token _ => canonical_iff token⟩
  · intro entry member
    exact ⟨stored.canonical entry.1 (List.mem_map_of_mem member),after_filled member⟩
  · intro name
    rw [Headers.getFirst,after_getAll]
    split
    next empty => simp [empty]
    next => rfl
  · exact fun name => ⟨canonical_canonical name,(Cgi.canonicalMime_eq name).symm⟩

end Frankenrust.Context
