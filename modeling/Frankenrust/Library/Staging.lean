import Mathlib.Logic.Basic

/-! A working directory with an index, as git has them: what staging everything takes in, what
setting the index back to a tree does to the files, and what is cleaned away. Which files are
ignored may depend on all of the directory; an entry may be a repository of its own, which is
staged as a link and never deleted with the index. -/
structure Staging (Path Entry : Type) where
  ignored : (Path → Option Entry) → Path → Bool
  repo : Entry → Bool

structure WorkingCopy (Path Entry : Type) where
  work : Path → Option Entry
  index : Path → Option Entry

namespace Staging
variable {Path Entry : Type} (staging : Staging Path Entry)

/-- The index after `add -A`: tracked paths as they are, and untracked ones that are not ignored. -/
def staged (copy : WorkingCopy Path Entry) (path : Path) : Option Entry :=
  if (copy.index path).isSome ∨ staging.ignored copy.work path = false then copy.work path else none

def add (copy : WorkingCopy Path Entry) : WorkingCopy Path Entry := { copy with index := staging.staged copy }

/-- `read-tree --reset -u`: the index becomes the tree, and the files of both follow. -/
def reset (tree : Path → Option Entry) (copy : WorkingCopy Path Entry) : WorkingCopy Path Entry where
  work path :=
    match tree path with
    | some entry => if staging.repo entry then copy.work path else some entry
    | none => if (copy.index path).all staging.repo then copy.work path else none
  index := tree

/-- `clean -ffd`: what is neither tracked nor ignored is deleted. -/
def clean (copy : WorkingCopy Path Entry) : WorkingCopy Path Entry where
  work path := if copy.index path = none ∧ staging.ignored copy.work path = false then none else copy.work path
  index := copy.index

/-- The three steps by which a snapshot is restored. -/
def restored (tree : Path → Option Entry) (copy : WorkingCopy Path Entry) : WorkingCopy Path Entry :=
  staging.clean (staging.reset tree (staging.add copy))

variable {staging} {copy : WorkingCopy Path Entry} {tree : Path → Option Entry} {path : Path}

theorem staged_untracked (untracked : copy.index path = none) (visible : staging.ignored copy.work path = false) :
    staging.staged copy path = copy.work path := by simp [staged,untracked,visible]

/-- Staging again takes in nothing more. -/
@[simp] theorem staged_add : staging.staged (staging.add copy) = staging.staged copy := by
  funext path
  by_cases taken : (copy.index path).isSome ∨ staging.ignored copy.work path = false
  · cases found : copy.work path <;> simp [staged,add,found]
  · simp [staged,add,not_or.mp taken]

/-- What escapes the restoring of the tree: a link of the tree that was moved, or a file outside of it that was ignored
after the reset and no more after the cleaning. -/
def Leaks (staging : Staging Path Entry) (tree : Path → Option Entry) (copy : WorkingCopy Path Entry) (path : Path) : Prop :=
  let reset := staging.reset tree (staging.add copy)
  match tree path with
  | some entry => staging.repo entry = true ∧ copy.work path ≠ some entry
  | none => (reset.work path).isSome = true ∧ staging.ignored reset.work path = true ∧
      staging.ignored (staging.clean reset).work path = false

/-- What is left untracked after the cleaning is staged only where it was ignored before. -/
theorem staged_clean (untracked : copy.index path = none) : staging.staged (staging.clean copy) path = none ↔
    ¬((copy.work path).isSome = true ∧ staging.ignored copy.work path = true ∧
      staging.ignored (staging.clean copy).work path = false) := by
  have index : (staging.clean copy).index path = none := untracked
  rw [staged,index]
  cases visible : staging.ignored (staging.clean copy).work path with
  | true => simp
  | false =>
    cases hidden : staging.ignored copy.work path with
    | true => simp [clean,untracked,hidden]
    | false => simp [clean,untracked,hidden]

theorem staged_restored_at : staging.staged (staging.restored tree copy) path = tree path ↔
    ¬staging.Leaks tree copy path := by
  cases within : tree path with
  | some entry =>
    simp only [restored,staged,clean,reset,Leaks,within]
    cases link : staging.repo entry <;> simp [add]
  | none =>
    rw [Leaks,within]
    exact staged_clean within

/-- The restored tree is what is staged next, but for what leaks. -/
theorem staged_restored : staging.staged (staging.restored tree copy) = tree ↔ ∀ path, ¬staging.Leaks tree copy path := by
  rw [funext_iff]
  exact forall_congr' fun path => staged_restored_at

section Rules
variable {rule : Path → Prop}

/-- What is ignored is said by the files of rules alone. -/
def Governed (staging : Staging Path Entry) (rule : Path → Prop) : Prop :=
  ∀ first second : Path → Option Entry, (∀ path, rule path → first path = second path) →
    staging.ignored first = staging.ignored second

/-- Where no file of rules hides from staging and no link of the tree was moved, nothing leaks. -/
theorem not_leaks (governed : staging.Governed rule)
    (plain : ∀ path entry, rule path → copy.work path = some entry → staging.repo entry = false)
    (shown : ∀ path, rule path → staging.staged copy path = copy.work path)
    (links : ∀ path entry, tree path = some entry → staging.repo entry = true → copy.work path = some entry) :
    ¬staging.Leaks tree copy path := by
  have unchanged : ∀ path, rule path →
      (staging.clean (staging.reset tree (staging.add copy))).work path = (staging.reset tree (staging.add copy)).work path := by
    intro path rules
    cases within : tree path with
    | some entry => simp [clean,reset,within]
    | none =>
      have gone : (staging.reset tree (staging.add copy)).work path = none := by
        simp only [reset,within,add,shown path rules]
        cases found : copy.work path with
        | none => simp
        | some entry => simp [plain path entry rules found]
      simp [clean,gone]
  have same := governed _ _ unchanged
  rw [Leaks]
  cases within : tree path with
  | some entry =>
    rintro ⟨link,moved⟩
    exact moved (links path entry within link)
  | none =>
    rintro ⟨_,hidden,visible⟩
    rw [same,hidden] at visible
    contradiction

end Rules
end Staging
