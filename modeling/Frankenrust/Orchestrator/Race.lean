import Frankenrust.Library.Machine
import Frankenrust.Orchestrator.Gh
import Mathlib.Logic.Function.Basic

/-! Loop processes that claim one issue at a time of their own: every call of `gh` is one
step, which reads or edits the labels at one instant, or fails. -/
namespace Frankenrust.Orchestrator

/-- How one call of `gh` ends; an edit may have been applied before an exception. -/
inductive Outcome
  | succeeds
  | fails
  | raises (applied : Bool)
  deriving DecidableEq

namespace Outcome

def edited : Outcome → Option Bool
  | .succeeds => some true
  | .fails => some false
  | .raises _ => none

def applies : Outcome → Bool
  | .succeeds => true
  | .fails => false
  | .raises applied => applied

def read {α : Type} (found : α) : Outcome → Option (Option α)
  | .succeeds => some (some found)
  | .fails => some none
  | .raises _ => none

end Outcome

structure Race (ι : Type) where
  labels : List Label
  callers : ι → Work Bool

namespace Race
variable {ι : Type} [DecidableEq ι]

structure Action (ι : Type) where
  caller : ι
  outcome : Outcome

/-- The answer to a call on the one issue, and its labels afterwards. -/
def respond (outcome : Outcome) (labels : List Label) : (command : Command) → Option (Answer command) × List Label
  | .edit _ add remove => (outcome.edited,if outcome.applies then editLabels add remove labels else labels)
  | .viewLabels _ => (outcome.read labels,labels)
  | _ => (none,labels)

def step (action : Action ι) (race : Race ι) : Option (Race ι) :=
  match race.callers action.caller with
  | .done _ => none
  | .call command next =>
    let (answer,labels) := respond action.outcome race.labels command
    some ⟨labels,Function.update race.callers action.caller (next answer)⟩

/-- Every caller is about to claim the issue. -/
def start (number : Nat) (labels : List Label) : Race ι := ⟨labels,fun _ => Gh.claim number⟩

def Returned (race : Race ι) (i : ι) (claimed : Option Bool) : Prop := race.callers i = .done claimed

/-- What is left of `claim` once its edit has succeeded. -/
def readBack (number : Nat) : Work Bool := do
  let labels ← call (.viewLabels number)
  pure (labels.any (·.contains .claimed))

def Spotless (past : List (Action ι)) (i : ι) : Prop :=
  ∀ action ∈ past, action.caller = i → action.outcome = .succeeds

/-- Where a caller is: its calls have all succeeded, or one has not and it does not claim. -/
def Stands (number : Nat) (past : List (Action ι)) (race : Race ι) (i : ι) : Prop :=
  Spotless past i ∧ (race.callers i = Gh.claim number ∨
    race.callers i = readBack number ∧ .claimed ∈ race.labels ∨ race.Returned i (some true)) ∨
  ¬Spotless past i ∧ (race.Returned i (some false) ∨ race.Returned i none)

def Consistent (number : Nat) (past : List (Action ι)) (race : Race ι) : Prop := ∀ i, Stands number past race i

omit [DecidableEq ι] in
theorem spotless_snoc {past : List (Action ι)} {action : Action ι} {i : ι} :
    Spotless (past ++ [action]) i ↔ Spotless past i ∧ (action.caller = i → action.outcome = .succeeds) := by
  simp [Spotless,or_imp,forall_and]

omit [DecidableEq ι] in
theorem stands_other {number : Nat} {past : List (Action ι)} {action : Action ι} {race next : Race ι} {i : ι}
    (other : action.caller ≠ i) (same : next.callers i = race.callers i)
    (kept : Label.claimed ∈ race.labels → Label.claimed ∈ next.labels) (stands : Stands number past race i) :
    Stands number (past ++ [action]) next i := by
  have spotless : Spotless (past ++ [action]) i ↔ Spotless past i := by simp [spotless_snoc,other]
  simp only [Stands,Returned,spotless,same] at stands ⊢
  rcases stands with ⟨clean,beginning | ⟨reading,claimed⟩ | won⟩ | lost
  · exact .inl ⟨clean,.inl beginning⟩
  · exact .inl ⟨clean,.inr (.inl ⟨reading,kept claimed⟩)⟩
  · exact .inl ⟨clean,.inr (.inr won)⟩
  · exact .inr lost

theorem claimed_kept {labels : List Label} (outcome : Outcome) (claimed : Label.claimed ∈ labels) :
    Label.claimed ∈ if outcome.applies then editLabels [.claimed] [.ready] labels else labels := by
  split
  · exact mem_editLabels.mpr ⟨.inl claimed,by decide⟩
  · exact claimed

/-- The first step of `claim`: its edit. -/
theorem stands_edit {number : Nat} {past : List (Action ι)} {outcome : Outcome} {race : Race ι} {i : ι}
    {next : Option Bool → Work Bool} (begun : Gh.claim number = .call (.edit number [.claimed] [.ready]) next)
    (clean : Spotless past i) :
    Stands number (past ++ [⟨i,outcome⟩])
      ⟨if outcome.applies then editLabels [.claimed] [.ready] race.labels else race.labels,
        Function.update race.callers i (next outcome.edited)⟩ i := by
  cases begun
  have spotless : Spotless (past ++ [⟨i,outcome⟩]) i ↔ outcome = .succeeds := by simp [spotless_snoc,clean]
  simp only [Stands,Returned,spotless,Function.update_self]
  cases outcome with
  | succeeds =>
    have claimed : Label.claimed ∈ editLabels [.claimed] [.ready] race.labels :=
      mem_editLabels.mpr ⟨.inr (by decide),by decide⟩
    exact .inl ⟨rfl,.inr (.inl ⟨rfl,claimed⟩)⟩
  | fails => exact .inr ⟨nofun,.inl rfl⟩
  | raises applied => exact .inr ⟨nofun,.inr rfl⟩

/-- The second step: what is read back. -/
theorem stands_read {number : Nat} {past : List (Action ι)} {outcome : Outcome} {race : Race ι} {i : ι}
    {next : Option (Option (List Label)) → Work Bool} (begun : readBack number = .call (.viewLabels number) next)
    (clean : Spotless past i) (claimed : Label.claimed ∈ race.labels) :
    Stands number (past ++ [⟨i,outcome⟩])
      ⟨race.labels,Function.update race.callers i (next (outcome.read race.labels))⟩ i := by
  cases begun
  have spotless : Spotless (past ++ [⟨i,outcome⟩]) i ↔ outcome = .succeeds := by simp [spotless_snoc,clean]
  simp only [Stands,Returned,spotless,Function.update_self]
  cases outcome with
  | succeeds =>
    have found : (some race.labels).any (·.contains .claimed) = true := by simpa using claimed
    exact .inl ⟨rfl,.inr (.inr (congrArg (fun won => Program.done (some won)) found))⟩
  | fails => exact .inr ⟨nofun,.inl rfl⟩
  | raises applied => exact .inr ⟨nofun,.inr rfl⟩

theorem stands_step {number : Nat} {past : List (Action ι)} {action : Action ι} {race next : Race ι}
    (stepped : step action race = some next) (stands : Consistent number past race) :
    Consistent number (past ++ [action]) next := by
  obtain ⟨mover,outcome⟩ := action
  simp only [step] at stepped
  intro i
  have others {answer : Work Bool} {labels : List Label} (other : mover ≠ i)
      (kept : Label.claimed ∈ race.labels → Label.claimed ∈ labels) :
      Stands number (past ++ [⟨mover,outcome⟩]) ⟨labels,Function.update race.callers mover answer⟩ i :=
    stands_other other (Function.update_of_ne other.symm ..) kept (stands i)
  rcases stands mover with ⟨clean,beginning | ⟨reading,claimed⟩ | won⟩ | ⟨_,lost | lost⟩
  · rw [beginning] at stepped
    cases stepped
    by_cases other : mover = i
    · subst other
      exact stands_edit rfl clean
    · exact others other (claimed_kept outcome)
  · rw [reading] at stepped
    cases stepped
    by_cases other : mover = i
    · subst other
      exact stands_read rfl clean claimed
    · exact others other id
  · rw [won] at stepped
    contradiction
  · rw [lost] at stepped
    contradiction
  · rw [lost] at stepped
    contradiction

theorem claim_spotless {number : Nat} {labels : List Label} {actions : List (Action ι)} {race : Race ι} {i : ι}
    {claimed : Option Bool} (ran : Machine.run step actions (start number labels) = some race)
    (returned : race.Returned i claimed) : claimed = some true ↔ Spotless actions i := by
  have begun : Consistent number [] (start number labels : Race ι) := fun _ => .inl ⟨nofun,.inl rfl⟩
  have stands : Consistent number ([] ++ Machine.trace step (fun action _ => some action) actions _) race :=
    Machine.run_history (fun _ _ _ _ => stands_step) ran begun
  rw [List.nil_append,Machine.trace_actions ran] at stands
  rw [Returned] at returned
  rcases stands i with ⟨clean,beginning | ⟨reading,_⟩ | won⟩ | ⟨spoilt,lost | lost⟩
  · rw [beginning] at returned
    contradiction
  · rw [reading] at returned
    contradiction
  · cases won.symm.trans returned
    simp [clean]
  · cases lost.symm.trans returned
    simp [spoilt]
  · cases lost.symm.trans returned
    simp [spoilt]

/-- Of two callers that have both returned, at most one claims the issue exactly where some
call of theirs does not succeed: each reads back the label that the other one's edit leaves. -/
theorem claims_exclusive {number : Nat} {labels : List Label} {actions : List (Action (Fin 2))} {race : Race (Fin 2)}
    {first second : Option Bool} (ran : Machine.run step actions (start number labels) = some race)
    (firstReturned : race.Returned 0 first) (secondReturned : race.Returned 1 second) :
    ¬(first = some true ∧ second = some true) ↔ ∃ action ∈ actions, action.outcome ≠ .succeeds := by
  rw [claim_spotless ran firstReturned,claim_spotless ran secondReturned]
  constructor
  · intro spoilt
    by_contra clean
    push Not at clean
    exact spoilt ⟨fun action member _ => clean action member,fun action member _ => clean action member⟩
  · rintro ⟨⟨caller,outcome⟩,member,failed⟩ ⟨clean,alsoClean⟩
    match caller with
    | 0 => exact failed (clean _ member rfl)
    | 1 => exact failed (alsoClean _ member rfl)

/-- Two processes edit, then both read. -/
theorem both_claim : ∃ race : Race (Fin 2),
    Machine.run step [⟨0,.succeeds⟩,⟨1,.succeeds⟩,⟨0,.succeeds⟩,⟨1,.succeeds⟩] (start 7 [.ready]) = some race ∧
      race.Returned 0 (some true) ∧ race.Returned 1 (some true) :=
  ⟨_,rfl,rfl,rfl⟩

/-- One of the two edits is refused. -/
theorem claims_exclusive_refused :
    ∃ race : Race (Fin 2), Machine.run step [⟨0,.succeeds⟩,⟨1,.fails⟩,⟨0,.succeeds⟩] (start 7 [.ready]) = some race ∧
      ¬(some true = some true ∧ some false = some true) := by
  have ran : ∃ race : Race (Fin 2),
      Machine.run step [⟨0,.succeeds⟩,⟨1,.fails⟩,⟨0,.succeeds⟩] (start 7 [.ready]) = some race ∧
      race.Returned 0 (some true) ∧ race.Returned 1 (some false) := ⟨_,rfl,rfl,rfl⟩
  obtain ⟨race,ran,won,lost⟩ := ran
  exact ⟨race,ran,(claims_exclusive ran won lost).mpr ⟨⟨1,.fails⟩,by simp,nofun⟩⟩

end Race
end Frankenrust.Orchestrator
