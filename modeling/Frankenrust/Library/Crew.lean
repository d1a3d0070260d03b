import Frankenrust.Library.Runs
import Mathlib.Logic.Function.Basic
import Mathlib.Logic.Relation

/-! Programs that run side by side over one state and take their calls in any order. Each is
proved alone, against others that may change the state between any two of its calls; what is
proved so holds of every interleaving. -/
namespace Program
variable {C S : Type} {R : C → Type}

/-- The same contract where others may act after every call. -/
def Contract.among (contract : Contract C R S) (others : S → S → Prop) : Contract C R S where
  guard := contract.guard
  after command state answer later :=
    ∃ middle, contract.after command state answer middle ∧ Relation.ReflTransGen others middle later

end Program

/-- The state and what is left to do of each program. -/
structure Crew (I : Type) (C : Type) (R : C → Type) (α S : Type) where
  shared : S
  running : I → Program C R α

namespace Crew
open Program Relation
variable {I C S α : Type} {R : C → Type}

def put [DecidableEq I] (crew : Crew I C R α S) (i : I) (shared : S) (program : Program C R α) : Crew I C R α S :=
  ⟨shared,Function.update crew.running i program⟩

/-- A member takes its next call, or it is through and starts anew. -/
inductive Steps [DecidableEq I] (contract : I → Contract C R S) (starts : I → Program C R α → Prop) :
    Crew I C R α S → Crew I C R α S → Prop
  | call {crew : Crew I C R α S} {i : I} {command : C} {next : Option (R command) → Program C R α}
      {answer : Option (R command)} {later : S} (pending : crew.running i = .call command next)
      (answered : (contract i).after command crew.shared answer later) :
      Steps contract starts crew (crew.put i later (next answer))
  | start {crew : Crew I C R α S} {i : I} {outcome : Option α} {program : Program C R α}
      (through : crew.running i = .done outcome) (begins : starts i program) :
      Steps contract starts crew (crew.put i crew.shared program)

variable {contract : I → Contract C R S} {starts : I → Program C R α → Prop} {others : I → S → S → Prop}
  {post : I → Option α → S → Prop} {Inv : S → Prop} {crew next : Crew I C R α S}

/-- The state is sound, and every member is safe in it and in all that the others may make of it. -/
structure Safe (contract : I → Contract C R S) (others : I → S → S → Prop) (post : I → Option α → S → Prop)
    (Inv : S → Prop) (crew : Crew I C R α S) : Prop where
  sound : Inv crew.shared
  each : ∀ i later, ReflTransGen (others i) crew.shared later →
    (crew.running i).wp ((contract i).among (others i)) (post i) later

/-- The call that a member is about to take meets its guard. -/
theorem Safe.guarded (safe : Safe contract others post Inv crew) {i : I} {command : C}
    {rest : Option (R command) → Program C R α} (pending : crew.running i = .call command rest) :
    (contract i).guard command crew.shared := by
  have here := safe.each i crew.shared .refl
  rw [pending] at here
  exact here.1

theorem Safe.finished (safe : Safe contract others post Inv crew) {i : I} {outcome : Option α}
    (through : crew.running i = .done outcome) : post i outcome crew.shared := by
  have here := safe.each i crew.shared .refl
  rwa [through] at here

section
variable [DecidableEq I]
  (kept : ∀ i command state answer later, (contract i).guard command state → Inv state →
    (contract i).after command state answer later → Inv later)
  (allowed : ∀ i j command state answer later, j ≠ i → (contract i).guard command state → Inv state →
    (contract i).after command state answer later → others j state later)
  (stable : ∀ i state later, Inv state → others i state later → Inv later)
  (begins : ∀ i outcome program state, starts i program → Inv state → post i outcome state →
    program.wp ((contract i).among (others i)) (post i) state)
include kept allowed stable begins

/-- What each call may do to the others is what the others are proved against. -/
theorem safe_step (stepped : Steps contract starts crew next) (safe : Safe contract others post Inv crew) :
    Safe contract others post Inv next := by
  cases stepped with
  | @call i command rest answer later pending answered =>
    have permitted := safe.guarded pending
    refine ⟨kept i command _ answer later permitted safe.sound answered,?_⟩
    intro j last reached
    by_cases same : j = i
    · subst same
      have here := safe.each j crew.shared .refl
      rw [pending] at here
      simpa [put] using here.2 answer last ⟨later,answered,reached⟩
    · have moved := allowed i j command _ answer later same permitted safe.sound answered
      simpa [put,same] using safe.each j last (.head moved reached)
  | @start i outcome program through starting =>
    refine ⟨safe.sound,?_⟩
    intro j last reached
    by_cases same : j = i
    · subst same
      have sound : Inv last := by
        induction reached with
        | refl => exact safe.sound
        | tail _ moved ih => exact stable j _ _ ih moved
      have ended := safe.each j last reached
      rw [through] at ended
      simpa [put] using begins j outcome program last starting sound ended
    · simpa [put,same] using safe.each j last reached

theorem safe_run (ran : ReflTransGen (Steps contract starts) crew next) (safe : Safe contract others post Inv crew) :
    Safe contract others post Inv next := by
  induction ran with
  | refl => exact safe
  | tail _ stepped ih => exact safe_step kept allowed stable begins stepped ih

end

/-- One member runs to its end while the others rest. -/
theorem alone [DecidableEq I] {i : I} {program : Program C R α} {events : List (Event C R)} {outcome : Option α} {state last : S}
    (ran : Runs (contract i) program state events outcome last) :
    ReflTransGen (Steps contract starts) (crew.put i state program) (crew.put i last (.done outcome)) := by
  induction ran generalizing crew with
  | done outcome state => exact .refl
  | @call command rest state middle last answer events outcome answered _ ih =>
    have pending : (crew.put i state (.call command rest)).running i = .call command rest := by simp [put]
    have stepped : Steps contract starts _ _ := .call pending answered
    have again : (crew.put i state (.call command rest)).put i middle (rest answer) = crew.put i middle (rest answer) := by simp [put]
    rw [again] at stepped
    exact .head stepped ih

end Crew
