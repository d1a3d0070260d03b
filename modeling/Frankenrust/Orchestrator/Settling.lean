import Frankenrust.Orchestrator.Calls
import Frankenrust.Orchestrator.Queue
import Frankenrust.Orchestrator.Worktree

/-! What `work` leaves of its claim, with the commands of git that make and retire the worktree
run one by one: it returns, and the issue has left `fr:claimed`, unless such a command cannot be
started or the count of the preserved commits cannot be read. -/
namespace Frankenrust.Orchestrator

/-- Closed, or no longer claimed. -/
def Issue.Settled (issue : Issue) : Prop := issue.state = .closed ∨ .claimed ∉ issue.labels

/-- Open, and of the states only claimed. -/
def Issue.Stranded (issue : Issue) : Prop :=
  issue.state = .opened ∧ .claimed ∈ issue.labels ∧ ∀ label ∈ issue.labels, label.isState = true → label = .claimed

theorem Issue.Settled.not_stranded {issue : Issue} (settled : issue.Settled) : ¬issue.Stranded := by
  rintro ⟨opened,claimed,_⟩
  rcases settled with closed | away
  · rw [opened] at closed
    contradiction
  · exact away claimed

namespace Worktree

def carry : (command : Command) → Deeds (Answer command)
  | .makeWorktree => makeWorktree
  | .retireWorktree => retireWorktree
  | command => queue command

/-- `work` with its worktree made and retired in place. -/
def work (config : Config) (issue : Issue) : Deeds Unit := (Loop.work config issue).expand carry

/-- Label edits, comments, closing and the journal succeed. Agents, gates and the merge may do
anything to the issue; what else is called leaves its labels and state alone. -/
def reacts (deed : Deed) (now : Issue) (answer : Option deed.Answer) (later : Issue) : Prop :=
  match deed with
  | .queue (.edit number add remove) =>
    answer = some true ∧ later = if number = now.number then now.relabel add remove else now
  | .queue (.comment _) | .queue (.record _) => answer = some () ∧ later = now
  | .queue (.close number) => answer = some () ∧ later = if number = now.number then now.shut else now
  | .queue (.editBody _ _) => later.number = now.number ∧ later.labels = now.labels ∧ later.state = now.state
  | .queue (.invoke _) | .queue .gate | .queue .mergeWorktree => later.number = now.number
  | .git .pathExists => answer ≠ none ∧ later = now
  | .git .rmtree => answer = some () ∧ later = now
  | _ => later = now

def surroundings : Program.Contract Deed Deed.Answer Issue where
  guard _ _ := True
  after := reacts

/-- The command of git was started, and a count that it printed can be read. -/
def started : Program.Event Deed Deed.Answer → Bool
  | ⟨.git .revList,some (_,printed)⟩ => (commits printed).isSome
  | ⟨.git _,answer⟩ => answer.isSome
  | ⟨.queue _,_⟩ => true

abbrev watched : Program.Contract Deed Deed.Answer (Issue × Bool) :=
  surroundings.noting fun calm event => calm && started event

/-- What is called between the two ends of `work`. -/
def Inside (command : Command) : Prop := command ≠ .makeWorktree ∧ command ≠ .retireWorktree

/-- The same surroundings one level up, where the worktree is made and retired by single calls. -/
def settles : Program.Contract Command Answer (Issue × Bool) where
  guard _ _ := True
  after command now answer later :=
    (Inside command → reacts (.queue command) now.1 answer later.1 ∧ later.2 = now.2) ∧
      (¬Inside command → later = (now.1,now.2 && answer.isSome))

section Ends
variable {now : Issue} {calm : Bool}

/-- The issue is left alone, and an exception is one that was noted. -/
def Faults {α : Type} (now : Issue) (calm : Bool) (outcome : Option α) (later : Issue × Bool) : Prop :=
  later = (now,calm && outcome.isSome)

theorem wp_git {α : Type} {command : Git} {rest : command.Answer → Deeds α}
    (ordinary : ∀ value, started ⟨.git command,some value⟩ = true)
    (raises : started ⟨.git command,none⟩ = false)
    (leaves : ∀ answer later, reacts (.git command) now answer later → later = now)
    (each : ∀ value, (rest value).wp watched (Faults now calm) (now,calm)) :
    ((git command).bind rest).wp watched (Faults now calm) (now,calm) := by
  rw [Program.wp_bind]
  refine Program.wp_noting.mpr ⟨trivial,?_⟩
  intro answer later did
  cases leaves answer later did
  match answer with
  | none =>
    change (_,_) = _
    simp [raises]
  | some value =>
    have known := each value
    simp only [ordinary value,Bool.and_true]
    exact known

theorem faults_returned {α : Type} (value : α) : Faults now calm (some value) (now,calm) := by simp [Faults]

theorem faults_record {event : String} :
    (queue (.record event)).wp watched (Faults now calm) (now,calm) := by
  refine Program.wp_noting.mpr ⟨trivial,?_⟩
  rintro answer later ⟨rfl,rfl⟩
  simp [Faults,started]

theorem faults_removeWorktree : removeWorktree.wp watched (Faults now calm) (now,calm) := by
  apply wp_git (fun _ => rfl) rfl fun _ _ => id
  intro _
  refine Program.wp_noting.mpr ⟨trivial,?_⟩
  rintro answer later ⟨rfl,rfl⟩
  simp [Faults,started]

theorem faults_then {α β : Type} {program : Deeds α} {rest : α → Deeds β}
    (held : program.wp watched (Faults now calm) (now,calm))
    (each : ∀ value, (rest value).wp watched (Faults now calm) (now,calm)) :
    (program.bind rest).wp watched (Faults now calm) (now,calm) := by
  rw [Program.wp_bind]
  apply Program.wp_mono _ held
  rintro (_ | value) later same
  · exact same
  · have known := each value
    have still : later = (now,calm) := by simpa [Faults] using same
    rw [still]
    exact known

/-- The test whether the directory is there does not raise. -/
theorem faults_pathExists {α : Type} {rest : Bool → Deeds α}
    (each : ∀ there, (rest there).wp watched (Faults now calm) (now,calm)) :
    ((git .pathExists).bind rest).wp watched (Faults now calm) (now,calm) := by
  apply wp_git (fun _ => rfl) rfl _ each
  exact fun _ _ did => did.2

theorem faults_preserveBranch : preserveBranch.wp watched (Faults now calm) (now,calm) := by
  apply wp_git (fun _ => rfl) rfl fun _ _ => id
  rintro ⟨rc,_⟩
  change Program.wp _ _ (if rc ≠ 0 then pure () else _) _
  split
  · exact faults_returned ()
  apply wp_git (fun _ => rfl) rfl fun _ _ => id
  rintro ⟨rc,_⟩
  change Program.wp _ _ (if rc = 0 then pure () else _) _
  split
  · exact faults_returned ()
  apply wp_git (fun _ => rfl) rfl fun _ _ => id
  rintro ⟨rc,_⟩
  change Program.wp _ _ (if rc ≠ 0 then _ else _) _
  split
  · exact faults_record
  -- The count is the one answer whose text can raise.
  rw [Program.bind_eq,Program.wp_bind]
  refine Program.wp_noting.mpr ⟨trivial,?_⟩
  rintro counted later rfl
  cases counted with
  | none =>
    change (_,_) = _
    simp [started]
  | some result =>
    obtain ⟨_,printed⟩ := result
    simp only [Program.andThen]
    cases read : commits printed with
    | none =>
      change (_,_) = _
      simp [started,read]
    | some n =>
      simp only [started,read,Option.isSome_some,Bool.and_true]
      exact faults_record

theorem faults_makeWorktree : makeWorktree.wp watched (Faults now calm) (now,calm) := by
  have cleared : clearWorktree.wp watched (Faults now calm) (now,calm) := by
    apply faults_pathExists
    intro there
    split
    · exact faults_removeWorktree
    · exact faults_returned ()
  apply faults_then cleared
  intro _
  apply faults_then faults_preserveBranch
  intro _
  apply wp_git (fun _ => rfl) rfl fun _ _ => id
  intro _
  apply wp_git (fun _ => rfl) rfl fun _ _ => id
  intro result
  exact faults_returned _

theorem faults_retireWorktree : retireWorktree.wp watched (Faults now calm) (now,calm) := by
  apply faults_pathExists
  intro there
  split
  · apply wp_git (fun _ => rfl) rfl fun _ _ => id
    intro _
    apply wp_git (fun _ => rfl) rfl fun _ _ => id
    intro _
    exact faults_removeWorktree
  · exact faults_returned ()

end Ends

/-- Every call is carried out as the level above has it. -/
theorem carry_settles (command : Command) (state : Issue × Bool) : (carry command).wp watched
    (fun answer later => settles.after command state answer later) state := by
  obtain ⟨now,calm⟩ := state
  have end_ {answer : Option (Answer command)} {later : Issue × Bool} (outside : ¬Inside command)
      (faults : Faults now calm answer later) : settles.after command (now,calm) answer later :=
    ⟨fun inside => absurd inside outside,fun _ => faults⟩
  cases command
  case makeWorktree =>
    apply Program.wp_mono _ faults_makeWorktree
    exact fun _ _ => end_ (by simp [Inside])
  case retireWorktree =>
    apply Program.wp_mono _ faults_retireWorktree
    exact fun _ _ => end_ (by simp [Inside])
  all_goals
    refine Program.wp_noting.mpr ⟨trivial,?_⟩
    intro answer later did
    exact ⟨fun _ => ⟨did,by simp [started]⟩,fun outside => absurd ⟨nofun,nofun⟩ outside⟩

section Stages
open Loop
variable {config : Config} {issue : Issue} {number : Nat} {state : Issue × Bool}

theorem inside_inner (command : Command) (inner : command.inner = true) : Inside command := by
  constructor
  · rintro rfl
    contradiction
  · rintro rfl
    contradiction

/-- The issue is told by its number, and nothing has been raised at the ends. -/
def Kept (number : Nat) (state : Issue × Bool) : Prop := state.1.number = number ∧ state.2 = true

theorem reacts_number {command : Command} {now later : Issue} {answer : Option (Answer command)}
    (did : reacts (.queue command) now answer later) : later.number = now.number := by
  cases command
  case edit =>
    rw [did.2]
    split
    · rfl
    · rfl
  case close =>
    rw [did.2]
    split
    · rfl
    · rfl
  case comment | record => rw [did.2]
  case editBody => exact did.1
  case invoke | gate | mergeWorktree => exact did
  all_goals exact congrArg _ did

theorem wp_kept {α : Type} {program : Work α} (used : program.uses Inside) (kept : Kept number state) :
    program.wp settles (fun _ => Kept number) state := by
  apply Program.wp_of_uses used _ kept
  rintro command now inside ⟨same,calm⟩
  refine ⟨trivial,?_⟩
  intro answer later did
  obtain ⟨reacted,noted⟩ := did.1 inside
  exact ⟨(reacts_number reacted).trans same,noted.trans calm⟩

theorem wp_then {α β : Type} {program : Work α} {rest : α → Work β} {first : Option α → Issue × Bool → Prop}
    {post : Option β → Issue × Bool → Prop} (held : program.wp settles first state)
    (raised : ∀ later, first none later → post none later)
    (later : ∀ value later, first (some value) later → (rest value).wp settles post later) :
    (program.bind rest).wp settles post state := by
  rw [Program.wp_bind]
  apply Program.wp_mono _ held
  intro outcome after reached
  cases outcome with
  | none => exact raised after reached
  | some value => exact later value after reached

/-- After a part that is sure to return. -/
theorem wp_after {α β : Type} {program : Work α} {rest : α → Work β} {value : α} {reached : Issue × Bool → Prop}
    {post : Option β → Issue × Bool → Prop}
    (held : program.wp settles (fun outcome later => outcome = some value ∧ reached later) state)
    (later : ∀ later, reached later → (rest value).wp settles post later) :
    (program.bind rest).wp settles post state := by
  apply wp_then held
  · rintro later ⟨returned,_⟩
    contradiction
  · rintro _ after ⟨⟨⟩,here⟩
    exact later after here

/-- The outcome is this one only with the issue settled. -/
def Settles {α : Type} (number : Nat) (settling : α → Prop) (outcome : Option α) (state : Issue × Bool) : Prop :=
  Kept number state ∧ ∀ value ∈ outcome, settling value → state.1.Settled

theorem settles_raised {α : Type} {settling : α → Prop} (kept : Kept number state) : Settles number settling none state :=
  ⟨kept,nofun⟩

theorem settles_unless {α : Type} {settling : α → Prop} {value : α} (kept : Kept number state) (other : ¬settling value) :
    Settles number settling (some value) state := by
  refine ⟨kept,?_⟩
  rintro _ ⟨⟩ settled
  exact absurd settled other

theorem wp_before {α β : Type} {program : Work α} {rest : α → Work β} {settling : β → Prop} (used : program.uses Inside)
    (kept : Kept number state)
    (later : ∀ value later, Kept number later → (rest value).wp settles (Settles number settling) later) :
    (program.bind rest).wp settles (Settles number settling) state := by
  apply wp_then (wp_kept used kept)
  · exact fun _ => settles_raised
  · exact later

/-- The journal, comments and cleanups leave the issue alone, and the first two succeed. -/
theorem wp_record {event : String} : (call (.record event)).wp settles (fun outcome later =>
    outcome = some () ∧ later = state) state := by
  refine ⟨trivial,?_⟩
  rintro answer later did
  obtain ⟨⟨returned,same⟩,noted⟩ := did.1 ⟨nofun,nofun⟩
  exact ⟨returned,Prod.ext same noted⟩

theorem wp_comment : (call (.comment number)).wp settles (fun outcome later => outcome = some () ∧ later = state) state := by
  refine ⟨trivial,?_⟩
  rintro answer later did
  obtain ⟨⟨returned,same⟩,noted⟩ := did.1 ⟨nofun,nofun⟩
  exact ⟨returned,Prod.ext same noted⟩

theorem wp_restore {tree : Text} : (call (.restoreWorktree tree)).wp settles (fun _ later => later = state) state := by
  refine ⟨trivial,?_⟩
  rintro answer later did
  obtain ⟨same,noted⟩ := did.1 ⟨nofun,nofun⟩
  exact Prod.ext same noted

/-- What ends a stage: an edit that takes `fr:claimed` away, or closing. -/
theorem wp_edit {add remove : List Label} (kept : Kept number state) (removed : .claimed ∈ remove) :
    (call (.edit number add remove)).wp settles (fun outcome later =>
      outcome = some true ∧ Kept number later ∧ later.1.Settled) state := by
  refine ⟨trivial,?_⟩
  rintro answer later did
  obtain ⟨⟨returned,same⟩,noted⟩ := did.1 ⟨nofun,nofun⟩
  rw [if_pos kept.1.symm] at same
  refine ⟨returned,⟨?_,noted.trans kept.2⟩,.inr ?_⟩
  · rw [same]
    exact kept.1
  · rw [same]
    exact fun claimed => (mem_editLabels.mp claimed).2 removed

theorem wp_close (kept : Kept number state) : (Gh.close number).wp settles (fun outcome later =>
    outcome = some () ∧ Kept number later ∧ later.1.Settled) state := by
  apply wp_after wp_comment
  rintro _ rfl
  refine ⟨trivial,?_⟩
  rintro answer later did
  obtain ⟨⟨returned,same⟩,noted⟩ := did.1 ⟨nofun,nofun⟩
  rw [if_pos kept.1.symm] at same
  refine ⟨returned,⟨?_,noted.trans kept.2⟩,.inl ?_⟩
  · rw [same]
    exact kept.1
  · rw [same]
    rfl

/-- `block` and `question`: a comment, and the label in place of `fr:claimed`. -/
theorem wp_marked {label : Label} (kept : Kept number state) : ((Gh.comment number).bind fun _ =>
    (call (.edit number [label] [.claimed])).bind fun _ => (pure () : Work Unit)).wp settles (fun outcome later =>
      outcome = some () ∧ Kept number later ∧ later.1.Settled) state := by
  apply wp_after wp_comment
  rintro _ rfl
  apply wp_after (wp_edit kept (by simp))
  exact fun _ ended => ⟨rfl,ended⟩

/-- After such an end there is still the journal. -/
theorem wp_ended {α : Type} {program : Work Unit} {event : String} {value : α} {settling : α → Prop}
    (ends : program.wp settles (fun outcome later => outcome = some () ∧ Kept number later ∧ later.1.Settled) state) :
    (program.bind fun _ => (call (.record event)).bind fun _ => (pure value : Work α)).wp settles
      (Settles number settling) state := by
  apply wp_after ends
  rintro ended ⟨kept,settled⟩
  apply wp_after wp_record
  rintro _ rfl
  exact ⟨kept,fun _ _ _ => settled⟩

theorem wp_park (kept : Kept issue.number state) :
    (park issue).wp settles (Settles issue.number (· = false)) state := by
  apply wp_before (Calls.uses_call inside_inner rfl) kept
  intro _ later kept
  apply wp_after (wp_marked kept)
  rintro later ⟨kept,settled⟩
  exact ⟨kept,fun _ _ _ => settled⟩

theorem wp_requeue {revision : Nat} (kept : Kept number state) :
    (Gh.requeue number revision).wp settles (Settles number (· = true)) state := by
  apply wp_before (Calls.uses_restamp inside_inner fun _ => ⟨nofun,nofun⟩) kept
  intro stamped later kept
  cases stamped with
  | false => exact settles_unless kept nofun
  | true =>
    apply Program.wp_mono _ (wp_edit kept (by simp))
    rintro _ later ⟨_,kept,settled⟩
    exact ⟨kept,fun _ _ _ => settled⟩

/-- Where the resolver does not let the issue be built it has settled it. -/
theorem wp_resolveQuestion (kept : Kept issue.number state) :
    (resolveQuestion config issue).wp settles (Settles issue.number (· = false)) state := by
  unfold resolveQuestion
  split
  · exact settles_raised kept
  apply wp_before (Calls.uses_guarded inside_inner) kept
  intro reply later kept
  split
  · apply wp_before (Calls.uses_call inside_inner rfl) kept
    intro _ later kept
    apply wp_before (Calls.uses_call inside_inner rfl) kept
    exact fun _ _ kept => settles_unless kept nofun
  · exact wp_ended (wp_close kept)
  · apply wp_then (wp_requeue kept)
    · exact fun _ raised => settles_raised raised.1
    rintro requeued later ⟨kept,settled⟩
    cases requeued with
    | false =>
      apply wp_before (Calls.uses_call inside_inner rfl) kept
      exact fun _ _ kept => wp_park kept
    | true =>
      have settled := settled true rfl rfl
      apply wp_ended
      apply Program.wp_mono _ wp_comment
      rintro _ _ ⟨returned,rfl⟩
      exact ⟨returned,kept,settled⟩
  · exact wp_park kept

theorem wp_critique (kept : Kept issue.number state) :
    (critique config issue).wp settles (Settles issue.number (· = false)) state := by
  apply wp_before (Calls.uses_guarded inside_inner) kept
  intro reply later kept
  split
  · apply wp_before (Calls.uses_call inside_inner rfl) kept
    intro _ later kept
    apply wp_before (Calls.uses_call inside_inner rfl) kept
    exact fun _ _ kept => wp_resolveQuestion kept
  · exact settles_unless kept nofun

theorem wp_merge (kept : Kept issue.number state) :
    (merge issue).wp settles (Settles issue.number (· = true)) state := by
  have merges : (call .mergeWorktree).uses Inside := Program.uses_invoke.mpr ⟨nofun,nofun⟩
  apply wp_before merges kept
  intro merged later kept
  split
  · exact wp_ended (wp_close kept)
  · exact settles_unless kept nofun

theorem wp_failed {event : String} (kept : Kept number state) :
    ((call (.record event)).bind fun _ => (pure false : Work Bool)).wp settles (Settles number (· = true)) state := by
  apply wp_before (Calls.uses_call inside_inner rfl) kept
  exact fun _ _ kept => settles_unless kept nofun

theorem wp_fix {attempt : Nat} (kept : Kept issue.number state) :
    (fix config issue attempt).wp settles (Settles issue.number (· = true)) state := by
  apply wp_before (Calls.uses_call inside_inner rfl) kept
  intro _ later kept
  apply wp_before (Calls.uses_guarded inside_inner) kept
  intro _ later kept
  apply wp_before (Calls.uses_call inside_inner rfl) kept
  rintro ⟨rc,_⟩ later kept
  dsimp only
  split
  · exact settles_unless kept nofun
  apply wp_before (Calls.uses_reviewStage inside_inner) kept
  rintro ⟨blocking,_,_⟩ later kept
  dsimp only
  split
  · exact wp_failed kept
  apply wp_before (Calls.uses_call inside_inner rfl) kept
  intro diff later kept
  split
  · exact wp_failed kept
  · exact wp_merge kept

theorem wp_attempt {attempt : Nat} (kept : Kept issue.number state) :
    (Loop.attempt config issue attempt).wp settles (Settles issue.number (· = true)) state := by
  apply wp_before (Calls.uses_guarded inside_inner) kept
  intro _ later kept
  apply wp_before (Calls.uses_call inside_inner rfl) kept
  rintro ⟨rc,_⟩ later kept
  dsimp only
  split
  · exact wp_failed kept
  apply wp_before (Calls.uses_call inside_inner rfl) kept
  intro diff later kept
  split
  · exact wp_failed kept
  apply wp_before (Calls.uses_reviewStage inside_inner) kept
  rintro ⟨blocking,_,_⟩ later kept
  dsimp only
  split
  · exact wp_fix kept
  · exact wp_merge kept

theorem wp_attempts {first left : Nat} (kept : Kept issue.number state) :
    (attempts config issue first left).wp settles (Settles issue.number fun _ => True) state := by
  induction left generalizing first state with
  | zero =>
    apply wp_before (Calls.uses_call inside_inner rfl) kept
    intro _ later kept
    apply Program.wp_mono _ (wp_marked kept)
    rintro _ later ⟨_,kept,settled⟩
    exact ⟨kept,fun _ _ _ => settled⟩
  | succ left ih =>
    apply wp_then (wp_attempt kept)
    · exact fun _ raised => settles_raised raised.1
    rintro merged later ⟨kept,settled⟩
    cases merged with
    | false => exact ih kept
    | true => exact ⟨kept,fun _ _ _ => settled true rfl rfl⟩

theorem wp_workStages (kept : Kept issue.number state) :
    (workStages config issue).wp settles (Settles issue.number fun _ => True) state := by
  apply wp_before (Calls.uses_call inside_inner rfl) kept
  intro snapshot later kept
  have restored : ((critique config issue).ensure (call (.restoreWorktree snapshot))).wp settles
      (Settles issue.number (· = false)) later := by
    rw [Program.wp_ensure]
    apply Program.wp_mono _ (wp_critique kept)
    rintro outcome ended settled
    apply wp_then wp_restore
    · rintro _ rfl
      exact settles_raised settled.1
    · rintro _ _ rfl
      exact settled
  apply wp_then restored
  · exact fun _ raised => settles_raised raised.1
  rintro build later ⟨kept,settled⟩
  cases build with
  | false => exact ⟨kept,fun _ _ _ => settled false rfl rfl⟩
  | true => exact wp_attempts kept

theorem wp_crashed (kept : Kept issue.number state) : (crashed issue).wp settles (fun outcome later =>
    outcome = some () ∧ Kept issue.number later ∧ later.1.Settled) state := by
  apply wp_after wp_record
  rintro _ rfl
  exact wp_marked kept

/-- `work` returns and has settled the issue just where nothing was raised at its ends. -/
theorem wp_work (kept : Kept issue.number state) : (Loop.work config issue).wp settles (fun outcome later =>
    (outcome = some () ∧ ¬later.1.Stranded) ↔ later.2 = true) state := by
  have outside : ¬Inside .makeWorktree ∧ ¬Inside .retireWorktree := by simp [Inside]
  have guarded {later : Issue × Bool} (kept : Kept issue.number later) :
      ((workStages config issue).handle (crashed issue)).wp settles (fun outcome later =>
        outcome = some () ∧ Kept issue.number later ∧ later.1.Settled) later := by
    rw [Program.wp_handle]
    apply Program.wp_mono _ (wp_workStages kept)
    rintro (_ | _) later ⟨kept,settled⟩
    · exact wp_crashed kept
    · exact ⟨rfl,kept,settled () rfl trivial⟩
  rw [Loop.work,Program.bind_eq,Program.wp_bind]
  refine ⟨trivial,?_⟩
  rintro made later did
  have same := did.2 outside.1
  cases made with
  | none => simp [Program.andThen,same]
  | some made =>
    have kept : Kept issue.number later := by simpa [Kept,same] using kept
    change Program.wp _ _ (if made = true then _ else _) _
    split
    · rw [Program.wp_ensure]
      apply Program.wp_mono _ (guarded kept)
      rintro _ ended ⟨rfl,kept,settled⟩
      rw [Program.wp_bind]
      refine ⟨trivial,?_⟩
      rintro retired last did
      have same := did.2 outside.2
      cases retired with
      | none => simp [Program.andThen,same]
      | some _ =>
        have free := settled.not_stranded
        simp [Program.andThen,same,free,kept.2]
    · apply Program.wp_mono _ (wp_marked kept)
      rintro _ ended ⟨rfl,kept,settled⟩
      simp [settled.not_stranded,kept.2]

end Stages

theorem foldl_started (events : List (Program.Event Deed Deed.Answer)) (calm : Bool) :
    events.foldl (fun calm event => calm && started event) calm = (calm && events.all started) := by
  induction events generalizing calm with
  | nil => simp
  | cons event events ih => rw [List.foldl_cons,ih,List.all_cons,Bool.and_assoc]

/-- Whatever its subprocesses do and print, `work` returns with the claim settled just where
every command of git that makes or retires the worktree can be started and the count of the
preserved commits can be read. -/
theorem work_settles {config : Config} {issue remote last : Issue} {events : List (Program.Event Deed Deed.Answer)}
    {outcome : Option Unit} (same : remote.number = issue.number)
    (ran : Program.Runs surroundings (work config issue) remote events outcome last) :
    (outcome = some () ∧ ¬last.Stranded) ↔ ∀ event ∈ events, started event = true := by
  have kept : Kept issue.number (remote,true) := ⟨same,rfl⟩
  have safe : (work config issue).wp watched (fun outcome later => (outcome = some () ∧ ¬later.1.Stranded) ↔ later.2 = true)
      (remote,true) := Program.wp_expand (fun command state _ => carry_settles command state) (wp_work kept)
  have settled := Program.runs_noting safe ran
  rw [settled,foldl_started]
  simp

/-- A worktree that git does not add blocks the issue. -/
theorem work_settles_blocked : ∃ last : Issue,
    Program.Runs surroundings (work Config.usual ⟨7,[],[.claimed],.opened⟩) ⟨7,[],[.claimed],.opened⟩
      [⟨.git .pathExists,some false⟩,⟨.git .revParse,some (1,[])⟩,⟨.git .branchDelete,some (1,[])⟩,
        ⟨.git .worktreeAdd,some (128,[])⟩,⟨.queue (.comment 7),some ()⟩,⟨.queue (.edit 7 [.blocked] [.claimed]),some true⟩]
      (some ()) last ∧ ¬last.Stranded := by
  have ran : ∃ last : Issue,
      Program.Runs surroundings (work Config.usual ⟨7,[],[.claimed],.opened⟩) ⟨7,[],[.claimed],.opened⟩
        [⟨.git .pathExists,some false⟩,⟨.git .revParse,some (1,[])⟩,⟨.git .branchDelete,some (1,[])⟩,
          ⟨.git .worktreeAdd,some (128,[])⟩,⟨.queue (.comment 7),some ()⟩,⟨.queue (.edit 7 [.blocked] [.claimed]),some true⟩]
        (some ()) last :=
    ⟨_,.call ⟨nofun,rfl⟩ (.call rfl (.call rfl (.call rfl (.call ⟨rfl,rfl⟩ (.call ⟨rfl,rfl⟩ (.done _ _))))))⟩
  obtain ⟨last,ran⟩ := ran
  exact ⟨last,ran,((work_settles rfl ran).mpr (by decide)).2⟩

/-- A command of git that cannot be started ends `work` with the claim still held, and so does
a count that cannot be read. -/
theorem work_strands :
    (∃ (events : List (Program.Event Deed Deed.Answer)) (last : Issue),
      Program.Runs surroundings (work Config.usual ⟨7,[],[.claimed],.opened⟩) ⟨7,[],[.claimed],.opened⟩ events none last ∧
        last.Stranded) ∧
    ∃ (events : List (Program.Event Deed Deed.Answer)) (last : Issue),
      Program.Runs surroundings (work Config.usual ⟨7,[],[.claimed],.opened⟩) ⟨7,[],[.claimed],.opened⟩ events none last ∧
        (∀ event ∈ events, event.answer.isSome = true) ∧ last.Stranded := by
  have claimed : (⟨7,[],[.claimed],.opened⟩ : Issue).Stranded := by simp [Issue.Stranded]
  constructor
  · exact ⟨[⟨.git .pathExists,some false⟩,⟨.git .revParse,none⟩],_,.call ⟨nofun,rfl⟩ (.call rfl (.done _ _)),claimed⟩
  · exact ⟨[⟨.git .pathExists,some false⟩,⟨.git .revParse,some (0,[])⟩,⟨.git .isAncestor,some (1,[])⟩,
      ⟨.git .tag,some (0,[])⟩,⟨.git .revList,some (128,"fatal".toList)⟩],_,
      .call ⟨nofun,rfl⟩ (.call rfl (.call rfl (.call rfl (.call rfl (.done _ _))))),by simp,claimed⟩

end Worktree
end Frankenrust.Orchestrator
