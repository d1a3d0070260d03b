import Frankenrust.Library.Machine
import Mathlib.Logic.Function.Basic

/-! Threads that take turns on a shared part: a turn of one thread changes the shared part and
what is its own, and an invariant may speak about the events so far and about each thread's
place in the shared part. -/

structure Threads (I S L : Type) where
  shared : S
  locals : I → L

namespace Threads
variable {I A S L E : Type} [DecidableEq I] {turn : I → A → S → L → Option (S × L)} {event : I → A → S → L → Option E}

def step (turn : I → A → S → L → Option (S × L)) (action : I × A) (threads : Threads I S L) : Option (Threads I S L) :=
  (turn action.1 action.2 threads.shared (threads.locals action.1)).map fun after =>
    ⟨after.1,Function.update threads.locals action.1 after.2⟩

def observe (event : I → A → S → L → Option E) (action : I × A) (threads : Threads I S L) : Option E :=
  event action.1 action.2 threads.shared (threads.locals action.1)

theorem step_some {action : I × A} {threads next : Threads I S L} : step turn action threads = some next ↔
    ∃ shared own, turn action.1 action.2 threads.shared (threads.locals action.1) = some (shared,own) ∧
      next = ⟨shared,Function.update threads.locals action.1 own⟩ := by
  rw [step,Option.map_eq_some_iff]
  constructor
  · rintro ⟨⟨shared,own⟩,turned,rfl⟩
    exact ⟨shared,own,turned,rfl⟩
  · rintro ⟨shared,own,turned,rfl⟩
    exact ⟨⟨shared,own⟩,turned,rfl⟩

/-- What is known of the shared part after some events, and of each thread's place in it. -/
structure Holds (Known : List E → S → Prop) (Fits : S → I → L → Prop) (past : List E) (threads : Threads I S L) : Prop where
  known : Known past threads.shared
  fits : ∀ i, Fits threads.shared i (threads.locals i)

variable {Known : List E → S → Prop} {Fits : S → I → L → Prop}

section Ghost
variable {G : Type} {KnownTo : G → List E → S → Prop} {FitsTo : G → S → I → L → Prop}

/-- What is known may be told with the help of something that no thread has: a turn then keeps
the invariant where it keeps what is known, the place of its own thread and the places of all others. -/
theorem holds_ghost
    (turns : ∀ ghost past i action shared own shared' own', turn i action shared own = some (shared',own') →
      KnownTo ghost past shared → FitsTo ghost shared i own → ∃ ghost',
        KnownTo ghost' (past ++ (event i action shared own).toList) shared' ∧ FitsTo ghost' shared' i own' ∧
          ∀ j other, j ≠ i → FitsTo ghost shared j other → FitsTo ghost' shared' j other)
    (past : List E) (action : I × A) (threads next : Threads I S L) (stepped : step turn action threads = some next)
    (holds : ∃ ghost, Holds (KnownTo ghost) (FitsTo ghost) past threads) :
    ∃ ghost, Holds (KnownTo ghost) (FitsTo ghost) (past ++ (observe event action threads).toList) next := by
  obtain ⟨shared,own,turned,rfl⟩ := step_some.mp stepped
  obtain ⟨ghost,holds⟩ := holds
  obtain ⟨ghost',known,fits,others⟩ := turns _ _ _ _ _ _ _ _ turned holds.known (holds.fits action.1)
  refine ⟨ghost',known,?_⟩
  intro j
  by_cases same : j = action.1
  · subst same
    simpa using fits
  · simpa [same] using others j _ same (holds.fits j)

end Ghost

/-- A turn keeps the invariant where it keeps what is known, the place of its own thread and
the places of all others. -/
theorem holds_step
    (turns : ∀ past i action shared own shared' own', turn i action shared own = some (shared',own') → Known past shared →
      Fits shared i own → Known (past ++ (event i action shared own).toList) shared' ∧ Fits shared' i own' ∧
        ∀ j other, j ≠ i → Fits shared j other → Fits shared' j other)
    (past : List E) (action : I × A) (threads next : Threads I S L) (stepped : step turn action threads = some next)
    (holds : Holds Known Fits past threads) :
    Holds Known Fits (past ++ (observe event action threads).toList) next := by
  have kept : ∃ _ : Unit, Holds Known Fits (past ++ (observe event action threads).toList) next :=
    holds_ghost (fun ghost past i action shared own shared' own' turned known fits =>
      ⟨ghost,turns past i action shared own shared' own' turned known fits⟩) past action threads next stepped ⟨(),holds⟩
  exact kept.choose_spec

end Threads
