import Frankenrust.Orchestrator.Life
import Frankenrust.Orchestrator.Tokens

/-! No state of the queue is absorbing, as long as no work parks its issue in `fr:questioned`:
every other state is one that a lane lists and has an operation for. -/
namespace Frankenrust.Orchestrator

/-- The states that a lane lists issues in. -/
def Label.listed : Label → Bool
  | .ready | .claimed | .blocked => true
  | _ => false

theorem Label.listed_state {label : Label} (listed : label.listed = true) : label.isState = true := by
  cases label <;> first | contradiction | rfl

/-- An edit after which an issue is listed that was so before. -/
def Lively (add remove : List Label) : Prop :=
  (∀ label ∈ remove, label.listed = false) ∨ ∃ label ∈ add, label ∉ remove ∧ label.listed = true

def Listed (labels : List Label) : Prop := ∃ label ∈ labels, label.listed = true

theorem listed_editLabels {add remove labels : List Label} (lively : Lively add remove) (listed : Listed labels) :
    Listed (editLabels add remove labels) := by
  rcases lively with still | ⟨label,added,kept,active⟩
  · obtain ⟨label,member,active⟩ := listed
    refine ⟨label,mem_editLabels.mpr ⟨.inl member,?_⟩,active⟩
    intro removed
    rw [still label removed] at active
    contradiction
  · exact ⟨label,mem_editLabels.mpr ⟨.inr added,kept⟩,active⟩

def Command.lively : Command → Prop
  | .edit _ add remove => Lively add remove
  | _ => True

def RunLane.Lively : RunLane → Prop
  | .stopped | .polling => True
  | .starting running => running.uses Command.lively
  | .claiming running => running.uses Command.lively

namespace Repository
variable {repository : Repository} {number wanted : Nat} {change : Issue → Issue}

/-- The issue is in a state that some lane lists, unless it is closed. -/
def Live (repository : Repository) (number : Nat) : Prop := repository.Known number ∧ repository.Shows number Listed

theorem live_modify (closing : Closing change) (kept : ∀ issue, Listed issue.labels → Listed (change issue).labels)
    (live : repository.Live wanted) : (repository.modify number change).Live wanted :=
  ⟨known_modify.mpr live.1,shows_modify closing (fun _ => kept) (fun _ _ => id) live.2⟩

theorem live_calm (calm : Calm change) (live : repository.Live wanted) : (repository.modify number change).Live wanted := by
  apply live_modify calm.1 _ live
  rintro issue ⟨label,member,listed⟩
  exact ⟨label,(calm.2 issue label (Label.listed_state listed)).mpr member,listed⟩

theorem live_enqueue (live : repository.Live wanted) : (repository.modify number Issue.enqueue).Live wanted := by
  apply live_modify closing_enqueue _ live
  rintro issue ⟨label,member,listed⟩
  rw [enqueue_queued ⟨label,member,Label.listed_state listed⟩]
  exact ⟨label,member,listed⟩

theorem live_file {issue : Issue} {newest : ∀ older ∈ repository.issues, older.number < issue.number}
    (live : repository.Live wanted) : (repository.file issue newest).Live wanted :=
  ⟨known_file live.1,shows_file (known_older live.1 newest) live.2⟩

theorem live_respond {reaction : Queue.Reaction} {command : Command} (lively : command.lively)
    (live : repository.Live wanted) : (Queue.respond reaction repository command).2.Live wanted := by
  cases command with
  | edit number add remove =>
    simp only [Queue.respond]
    split
    · exact live_modify closing_relabel (fun _ => listed_editLabels lively) live
    · exact live
  | editBody number body =>
    simp only [Queue.respond]
    split
    · exact live_calm calm_rewrite live
    · exact live
  | close number =>
    simp only [Queue.respond]
    split
    · exact live_calm calm_shut live
    · exact live
  | _ => exact live

end Repository

namespace Life
open Loop
variable {config : Config} {issue : Issue}

/-- What the lanes list for an operation; a worker is handed its issue. -/
def listing (config : Config) : Operation → Work Unit
  | .claim => do
    let _ ← Gh.claimable config.isWord
  | .work => pure ()
  | .recover => do
    let _ ← Gh.blockedNeedingRecovery config.isWord
  | .release => reclaim

/-- An operation for which a lane lists the open issues with a label of this one, and whose run
can change the issue's states. -/
def Leaves (config : Config) (operation : Operation) (issue : Issue) : Prop :=
  (listing config operation).reaches (.issueList (some (found operation)) .opened) ∧
    ∃ reactions : List Reaction, ∃ life, Machine.run (step config) (.start operation :: reactions.map .call)
        ⟨⟨issue,0,0⟩,.done none⟩ = some life ∧
      ∃ label, label.isState = true ∧ ¬(label ∈ life.account.issue.labels ↔ label ∈ issue.labels)

def smoothly (text : Text) : Reaction := ⟨.succeeds,smooth true text,none⟩

theorem run_start (operation : Operation) {rest : List Action} (opened : issue.state = .opened)
    (listed : found operation ∈ issue.labels) :
    Machine.run (step config) (.start operation :: rest) ⟨⟨issue,0,0⟩,.done none⟩ =
      Machine.run (step config) rest ⟨⟨issue,0,0⟩,program config issue operation⟩ := by
  simp [Machine.run,step,opened,listed]

theorem leaves_ready (opened : issue.state = .opened) (ready : .ready ∈ issue.labels) : Leaves config .claim issue := by
  refine ⟨.inr ⟨some (some []),.inl rfl⟩,[smoothly []],?_⟩
  rw [run_start .claim opened ready]
  refine ⟨_,rfl,.ready,rfl,?_⟩
  simp [smoothly,Account.relabel,mem_editLabels,Outcome.applies,ready]

theorem leaves_claimed (opened : issue.state = .opened) (claimed : .claimed ∈ issue.labels) :
    Leaves config .release issue := by
  refine ⟨.inl rfl,[smoothly []],?_⟩
  rw [run_start .release opened claimed]
  refine ⟨_,rfl,.claimed,rfl,?_⟩
  simp [smoothly,Account.relabel,mem_editLabels,Outcome.applies,claimed]

theorem recovery_requeue : recovery "RECOVERY: REQUEUE".toList = .requeue := by decide +kernel

/-- What `recover` does of an issue whose budget is not spent. -/
def recovering (issue : Issue) (recoveries : Nat) : Work Unit :=
  ((call .makeWorktree).bind fun made =>
    if made then ((rescue issue recoveries).handle do
      call (.record "recover_failed")
      pure false).ensure (call .retireWorktree)
    else do
      call (.record "recover_failed")
      pure false).bind fun _ => pure ()

theorem recover_begins {recoveries : Nat} (read : issue.recoveries = some recoveries)
    (unspent : recoveries < config.maxRecoveries) : program config issue .recover = recovering issue recoveries := by
  simp only [program,recover,read,if_neg unspent.not_ge]
  rfl

theorem run_recovering (config : Config) (issue : Issue) (recoveries : Nat) {text : Text} (decides : recovery text = .requeue) :
    ∃ life, Machine.run (step config) (List.map Action.call (List.replicate 7 (smoothly text)))
      ⟨⟨issue,0,0⟩,recovering issue recoveries⟩ = some life ∧
        life.account.issue.labels = editLabels [.ready] [.blocked,.claimed] issue.labels := by
  have begins : Machine.run (step config) (List.map Action.call (List.replicate 7 (smoothly text)))
      ⟨⟨issue,0,0⟩,recovering issue recoveries⟩ =
        Machine.run (step config) (List.map Action.call (List.replicate 3 (smoothly text))) ⟨⟨issue,0,0⟩,
          (((carryOut issue recoveries (recovery text)).handle do
            call (.record "recover_failed")
            pure false).ensure (call .retireWorktree)).bind fun _ => pure ()⟩ := rfl
  rw [begins,decides]
  exact ⟨_,rfl,rfl⟩

theorem leaves_blocked {recoveries : Nat} (opened : issue.state = .opened) (blocked : .blocked ∈ issue.labels)
    (read : issue.recoveries = some recoveries) (unspent : recoveries < config.maxRecoveries) :
    Leaves config .recover issue := by
  refine ⟨.inr ⟨some (some []),.inr ⟨some (some []),.inl rfl⟩⟩,List.replicate 7 (smoothly "RECOVERY: REQUEUE".toList),?_⟩
  rw [run_start .recover opened blocked,recover_begins read unspent]
  obtain ⟨life,ran,labels⟩ := run_recovering config issue recoveries recovery_requeue
  refine ⟨life,ran,.blocked,rfl,?_⟩
  simp [labels,mem_editLabels,blocked]
/-- Nothing is started on an issue that no operation finds. -/
theorem not_leaves {operation : Operation} (unlisted : found operation ∉ issue.labels) : ¬Leaves config operation issue := by
  rintro ⟨_,reactions,life,ran,_⟩
  obtain ⟨next,stepped,_⟩ := Machine.run_cons.mp ran
  simp [step,unlisted] at stepped

end Life

namespace Queue
open Loop
variable {config : Config} {issue : Issue}

/-- A resolver that decides, and a call of its requeue that does not fail. -/
def Decides (config : Config) : (command : Command) → Option (Answer command) → Prop
  | .invoke (.resolver rounds), answer => ∀ reply ∈ answer, resolution config rounds reply.text ≠ .none
  | .viewBody _, answer => answer ≠ some none
  | .editBody _ _, answer => answer ≠ some false
  | .edit _ add _, answer => add = [.ready] → answer ≠ some false
  | _, _ => True

instance : (command : Command) → (answer : Option (Answer command)) → Decidable (Decides config command answer)
  | .invoke (.resolver rounds), answer =>
    inferInstanceAs (Decidable (∀ reply ∈ answer, resolution config rounds reply.text ≠ .none))
  | .viewBody _, answer => inferInstanceAs (Decidable (answer ≠ some none))
  | .editBody _ _, answer => inferInstanceAs (Decidable (answer ≠ some false))
  | .edit _ add _, answer => inferInstanceAs (Decidable (add = [.ready] → answer ≠ some false))
  | .invoke .critic, _ | .invoke (.implementer _), _ | .invoke (.fixer _), _ | .invoke (.reviewer _), _ => .isTrue trivial
  | .invoke (.unblocker _), _ | .issueList _ _, _ | .viewLabels _, _ | .comment _, _ | .close _, _ => .isTrue trivial
  | .record _, _ | .overWallclock, _ | .noAgentUsable, _ | .makeWorktree, _ | .retireWorktree, _ => .isTrue trivial
  | .snapshotWorktree, _ | .restoreWorktree _, _ | .worktreeDiff, _ | .writePatch _, _ => .isTrue trivial
  | .guardEnter, _ | .guardExit, _ | .gate, _ | .mergeWorktree, _ => .isTrue trivial

/-- Every edit keeps the issue listed, where the work is decisive. -/
def decisive (config : Config) : Program.Contract Command Answer Unit where
  guard command _ := command.lively
  after command _ answer _ := Decides config command answer

theorem lively_inner (command : Command) (inner : command.inner = true) : command.lively := by
  cases command
  case edit => contradiction
  all_goals exact trivial

theorem wp_lively {α : Type} {program : Work α} (used : program.uses Command.lively) :
    program.wp (decisive config) (fun _ _ => True) () := by
  apply Program.wp_of_uses used _ trivial
  exact fun _ _ lively _ => ⟨lively,fun _ _ _ => trivial⟩

theorem wp_decisive {α β : Type} {program : Work α} {rest : α → Work β} {first : Option α → Unit → Prop}
    (held : program.wp (decisive config) first ())
    (later : ∀ value, first (some value) () → (rest value).wp (decisive config) (fun _ _ => True) ()) :
    (program.bind rest).wp (decisive config) (fun _ _ => True) () := by
  rw [Program.wp_bind]
  apply Program.wp_mono _ held
  intro outcome _ reached
  cases outcome with
  | none => exact trivial
  | some value => exact later value reached

theorem decisive_ensured {α : Type} {program : Work α} {cleanup : Work Unit}
    (held : program.wp (decisive config) (fun _ _ => True) ()) (calm : cleanup.uses Command.lively) :
    (program.ensure cleanup).wp (decisive config) (fun _ _ => True) () := by
  rw [Program.wp_ensure]
  apply Program.wp_mono _ held
  exact fun _ _ _ => wp_lively (Program.uses_bind calm fun _ => trivial)

theorem decisive_handled {α : Type} {program handler : Work α}
    (held : program.wp (decisive config) (fun _ _ => True) ()) (calm : handler.uses Command.lively) :
    (program.handle handler).wp (decisive config) (fun _ _ => True) () := by
  rw [Program.wp_handle]
  apply Program.wp_mono _ held
  intro outcome _ _
  cases outcome with
  | none => exact wp_lively calm
  | some _ => exact trivial

theorem wp_resolver {rounds : Nat} : (guarded (.resolver rounds)).wp (decisive config)
    (fun outcome _ => ∀ reply ∈ outcome, resolution config rounds reply.text ≠ .none) () := by
  refine ⟨trivial,?_⟩
  intro entered _ _
  cases entered with
  | none => exact nofun
  | some _ =>
    refine ⟨trivial,?_⟩
    intro answer _ decides
    refine ⟨trivial,?_⟩
    intro left _ _
    cases left with
    | none => exact nofun
    | some _ => exact decides

/-- A requeue that is carried out returns `True`, or raises. -/
theorem wp_requeued {number revision : Nat} :
    (Gh.requeue number revision).wp (decisive config) (fun outcome _ => outcome ≠ some false) () := by
  refine ⟨trivial,?_⟩
  intro read _ viewed
  match read with
  | none => exact nofun
  | some none => exact absurd rfl viewed
  | some (some body) =>
    refine ⟨trivial,?_⟩
    intro stamped _ edited
    match stamped with
    | none => exact nofun
    | some false => exact absurd rfl edited
    | some true =>
      have moves : Lively [.ready] [.claimed,.questioned] := .inr ⟨.ready,by simp,by simp,rfl⟩
      exact ⟨moves,fun _ _ returned => returned rfl⟩

theorem decisive_resolveQuestion :
    (resolveQuestion config issue).wp (decisive config) (fun _ _ => True) () := by
  unfold resolveQuestion
  split
  · exact trivial
  rename_i rounds _
  apply wp_decisive wp_resolver
  intro reply decides
  split
  · apply wp_lively
    apply Program.uses_bind (Calls.uses_call lively_inner rfl)
    intro _
    exact Program.uses_bind (Calls.uses_call lively_inner rfl) fun _ => trivial
  · apply wp_lively
    apply Program.uses_bind (Calls.uses_close lively_inner)
    intro _
    exact Program.uses_bind (Calls.uses_call lively_inner rfl) fun _ => trivial
  · apply wp_decisive wp_requeued
    intro requeued returned
    cases requeued with
    | false => exact absurd rfl returned
    | true =>
      apply wp_lively
      apply Program.uses_bind (Calls.uses_call lively_inner rfl)
      intro _
      exact Program.uses_bind (Calls.uses_call lively_inner rfl) fun _ => trivial
  · rename_i undecided
    exact absurd undecided (decides reply rfl)

theorem decisive_work : (Loop.work config issue).wp (decisive config) (fun _ _ => True) () := by
  have blocks : Command.lively (.edit issue.number [.blocked] [.claimed]) := .inr ⟨.blocked,by simp,by simp,rfl⟩
  have critique : (critique config issue).wp (decisive config) (fun _ _ => True) () := by
    apply wp_decisive (wp_lively (Calls.uses_guarded lively_inner))
    intro reply _
    split
    · apply wp_decisive (wp_lively (Calls.uses_call lively_inner rfl))
      intro _ _
      apply wp_decisive (wp_lively (Calls.uses_call lively_inner rfl))
      intro _ _
      exact decisive_resolveQuestion
    · exact trivial
  have stages : (workStages config issue).wp (decisive config) (fun _ _ => True) () := by
    apply wp_decisive (wp_lively (Calls.uses_call lively_inner rfl))
    intro snapshot _
    apply wp_decisive (decisive_ensured critique (Calls.uses_call lively_inner rfl))
    intro build _
    split
    · exact wp_lively (Calls.uses_attempts lively_inner trivial blocks)
    · exact trivial
  have makes : (call .makeWorktree).uses Command.lively := Program.uses_invoke.mpr trivial
  apply wp_decisive (wp_lively makes)
  intro made _
  split
  · apply decisive_ensured _ (Program.uses_invoke.mpr trivial)
    exact decisive_handled stages (Calls.uses_crashed lively_inner blocks)
  · exact wp_lively (Calls.uses_block lively_inner blocks)

/-- Every resolver of a work decides, and no call of a requeue fails. -/
def Decisive (config : Config) : Action → Queue → Prop
  | .work index reaction, queue => ∀ worker ∈ queue.inflight[index]?, ∀ command ∈ worker.running.pending,
      Decides config command (respond reaction queue.repository command).1
  | _, _ => True

instance : (action : Action) → (queue : Queue) → Decidable (Decisive config action queue)
  | .work index reaction, queue => inferInstanceAs (Decidable (∀ worker ∈ queue.inflight[index]?,
      ∀ command ∈ worker.running.pending, Decides config command (respond reaction queue.repository command).1))
  | .file _, _ | .enqueue _, _ | .touch _ _, _ | .start, _ | .poll, _ | .runCall _, _ | .settle, _ => .isTrue trivial
  | .leave, _ | .kill, _ | .reap _, _ | .pass, _ | .unblockCall _, _ | .killUnblock, _ => .isTrue trivial

/-- Whatever runs keeps issues listed. -/
structure Attends (config : Config) (queue : Queue) : Prop where
  workers : ∀ worker ∈ queue.inflight, worker.running.wp (decisive config) (fun _ _ => True) ()
  runLane : queue.runLane.Lively
  unblockLane : queue.unblockLane.uses Command.lively

theorem lively_waits (number : Nat) : Command.lively (.edit number [.waiting] []) := .inl (by simp)

theorem lively_resumes (number : Nat) : Command.lively (.edit number [] [.waiting]) := .inl (by decide)

theorem lively_claims (number : Nat) : Command.lively (.edit number [.claimed] [.ready]) :=
  .inr ⟨.claimed,by simp,by simp,rfl⟩

theorem lively_releases (number : Nat) : Command.lively (.edit number [.ready] [.claimed]) :=
  .inr ⟨.ready,by simp,by simp,rfl⟩

theorem lively_unblocks (number : Nat) : Command.lively (.edit number [.ready] [.blocked,.claimed]) :=
  .inr ⟨.ready,by simp,by simp,rfl⟩

def Keeps (config : Config) (queue next : Queue) : Prop :=
  Attends config next ∧ ∀ number, queue.repository.Live number → next.repository.Live number

section Steps
variable {queue next : Queue}

theorem runCall_keeps {reaction : Reaction} (stepped : queue.runCall reaction = some next)
    (attends : Attends config queue) : Keeps config queue next := by
  obtain ⟨repository,lane,inflight,unblockLane⟩ := queue
  match lane with
  | .stopped | .polling | .starting (.done _) | .claiming (.done _) => contradiction
  | .starting (.call command rest) | .claiming (.call command rest) =>
    cases stepped
    obtain ⟨lively,later⟩ := attends.runLane
    exact ⟨⟨attends.workers,later _,attends.unblockLane⟩,fun _ => Repository.live_respond lively⟩

theorem settle_keeps (stepped : queue.settle config = some next) (attends : Attends config queue) :
    Keeps config queue next := by
  obtain ⟨repository,lane,inflight,unblockLane⟩ := queue
  match lane with
  | .stopped | .polling | .starting (.call _ _) | .claiming (.call _ _) => contradiction
  | .starting (.done none) | .starting (.done (some _)) | .claiming (.done none) =>
    cases stepped
    exact ⟨⟨attends.workers,trivial,attends.unblockLane⟩,fun _ => id⟩
  | .claiming (.done (some batch)) =>
    cases stepped
    refine ⟨⟨?_,trivial,attends.unblockLane⟩,fun _ => id⟩
    intro worker member
    rcases List.mem_append.mp member with member | member
    · exact attends.workers worker member
    · obtain ⟨issue,_,rfl⟩ := List.mem_map.mp member
      exact decisive_work

theorem work_keeps {index : Nat} {reaction : Reaction} (stepped : queue.work index reaction = some next)
    (decides : Decisive config (.work index reaction) queue) (attends : Attends config queue) :
    Keeps config queue next := by
  obtain ⟨repository,lane,inflight,unblockLane⟩ := queue
  unfold Queue.work at stepped
  split at stepped
  · rename_i issue command rest edited found
    cases stepped
    obtain ⟨lively,later⟩ := attends.workers _ (List.mem_of_getElem? found)
    refine ⟨⟨?_,attends.runLane,attends.unblockLane⟩,fun _ => Repository.live_respond lively⟩
    intro worker member
    rcases List.mem_or_eq_of_mem_set member with member | rfl
    · exact attends.workers worker member
    · exact later _ () (decides _ found command rfl)
  · contradiction

theorem unblockCall_keeps {reaction : Reaction} (stepped : queue.unblockCall reaction = some next)
    (attends : Attends config queue) : Keeps config queue next := by
  obtain ⟨repository,lane,inflight,unblockLane⟩ := queue
  cases unblockLane with
  | done outcome => contradiction
  | call command rest =>
    cases stepped
    obtain ⟨lively,later⟩ := attends.unblockLane
    exact ⟨⟨attends.workers,attends.runLane,later _⟩,fun _ => Repository.live_respond lively⟩

theorem reap_keeps {index : Nat} (stepped : queue.reap index = some next) (attends : Attends config queue) :
    Keeps config queue next := by
  obtain ⟨repository,lane,inflight,unblockLane⟩ := queue
  have reaped : Keeps config ⟨repository,lane,inflight,unblockLane⟩ ⟨repository,lane,inflight.eraseIdx index,unblockLane⟩ :=
    ⟨⟨fun worker member => attends.workers worker (List.mem_of_mem_eraseIdx member),attends.runLane,attends.unblockLane⟩,
      fun _ => id⟩
  unfold Queue.reap at stepped
  split at stepped
  · cases stepped
    exact reaped
  · cases stepped
    exact reaped
  · contradiction

end Steps

theorem step_keeps {queue next : Queue} {action : Action} (stepped : step config action queue = some next)
    (decisive : Decisive config action queue) (attends : Attends config queue) : Keeps config queue next := by
  have passing (repository : Repository) : Attends config { queue with repository } :=
    ⟨attends.workers,attends.runLane,attends.unblockLane⟩
  cases action with
  | file issue =>
    simp only [step,Queue.file] at stepped
    split at stepped
    · rename_i newest
      split at stepped
      · cases stepped
        have filed (number : Nat) (live : queue.repository.Live number) :
            (queue.repository.file issue newest).Live number := Repository.live_file live
        exact ⟨passing _,filed⟩
      · contradiction
    · contradiction
  | enqueue number =>
    cases stepped
    exact ⟨passing _,fun _ => Repository.live_enqueue⟩
  | touch number touch =>
    simp only [step] at stepped
    split at stepped
    · rename_i stateless
      cases stepped
      exact ⟨passing _,fun _ => Repository.live_calm (Repository.calm_touch stateless)⟩
    · contradiction
  | runCall reaction => exact runCall_keeps stepped attends
  | settle => exact settle_keeps stepped attends
  | work index reaction => exact work_keeps stepped decisive attends
  | reap index => exact reap_keeps stepped attends
  | unblockCall reaction => exact unblockCall_keeps stepped attends
  | start =>
    obtain ⟨repository,lane,inflight,unblockLane⟩ := queue
    match lane,inflight with
    | .stopped,[] =>
      cases stepped
      exact ⟨⟨nofun,Calls.uses_reclaim lively_inner (fun _ _ => trivial) lively_releases,attends.unblockLane⟩,fun _ => id⟩
    | .stopped,_ :: _ | .starting _,_ | .polling,_ | .claiming _,_ => contradiction
  | poll =>
    obtain ⟨repository,lane,inflight,unblockLane⟩ := queue
    cases lane with
    | polling =>
      cases stepped
      have claims : (claimBatch config (inflight.map (·.issue.number)) (config.maxParallel - inflight.length)).uses
          Command.lively :=
        Calls.uses_claimBatch lively_inner (fun _ _ => trivial) lively_waits lively_resumes lively_claims
      exact ⟨⟨attends.workers,claims,attends.unblockLane⟩,fun _ => id⟩
    | _ => contradiction
  | leave =>
    obtain ⟨repository,lane,inflight,unblockLane⟩ := queue
    cases lane with
    | polling =>
      cases stepped
      exact ⟨⟨attends.workers,trivial,attends.unblockLane⟩,fun _ => id⟩
    | _ => contradiction
  | kill =>
    cases stepped
    exact ⟨⟨nofun,trivial,attends.unblockLane⟩,fun _ => id⟩
  | pass =>
    obtain ⟨repository,lane,inflight,unblockLane⟩ := queue
    cases unblockLane with
    | call _ _ => contradiction
    | done outcome =>
      cases stepped
      have passes : (unblockPass config).uses Command.lively :=
        Calls.uses_unblockPass lively_inner (fun _ _ => trivial) trivial trivial lively_waits lively_resumes (fun _ _ => trivial)
          lively_unblocks
      exact ⟨⟨attends.workers,attends.runLane,passes⟩,fun _ => id⟩
  | killUnblock =>
    cases stepped
    exact ⟨⟨attends.workers,attends.runLane,trivial⟩,fun _ => id⟩

def Attended (config : Config) (number : Nat) (queue : Queue) : Prop :=
  Attends config queue ∧ queue.repository.Live number

/-- Whatever state an open issue is in, unless its budget is spent, some operation that a lane
carries out on issues of that state can move it to another. -/
theorem no_absorbing_state {actions more : List Action} {earlier queue : Queue} {recoveries : Nat}
    (ran : Machine.run (step config) actions empty = some earlier)
    (later : Machine.run (step config) more earlier = some queue)
    (met : Machine.Along (step config) (Decisive config) (actions ++ more) empty)
    (entered : ∃ old ∈ earlier.repository.issues, old.number = issue.number ∧ .ready ∈ old.labels)
    (member : issue ∈ queue.repository.issues) (opened : issue.state = .opened)
    (read : issue.recoveries = some recoveries) (unspent : recoveries < config.maxRecoveries) :
    ∃ operation, Life.Leaves config operation issue := by
  obtain ⟨before,after⟩ := Machine.along_append ran met
  have start : Attends config empty := ⟨nofun,trivial,trivial⟩
  have attends : Attends config earlier := by
    refine Machine.run_along (fun _ _ _ stepped decisive attends => ?_) ran before start
    exact (step_keeps stepped decisive attends).1
  obtain ⟨old,inside,same,ready⟩ := entered
  have live : earlier.repository.Live issue.number := by
    refine ⟨⟨old,inside,same⟩,?_⟩
    intro found also equal _
    cases Repository.number_unique inside also (same.trans equal.symm)
    exact ⟨.ready,ready,rfl⟩
  have attended : Attended config issue.number earlier := ⟨attends,live⟩
  have kept : Attended config issue.number queue := by
    refine Machine.run_along (fun _ _ _ stepped decisive held => ?_) later after attended
    have keeps := step_keeps stepped decisive held.1
    exact ⟨keeps.1,keeps.2 _ held.2⟩
  obtain ⟨label,carried,listed⟩ := kept.2.2 issue member rfl opened
  match label,listed with
  | .ready,_ => exact ⟨.claim,Life.leaves_ready opened carried⟩
  | .claimed,_ => exact ⟨.release,Life.leaves_claimed opened carried⟩
  | .blocked,_ => exact ⟨.recover,Life.leaves_blocked opened carried read unspent⟩

theorem no_absorbing_state_requeued : ∃ earlier queue issue, Machine.run (step .usual) filing empty = some earlier ∧
    Machine.run (step .usual) (claiming ++ requeuing) earlier = some queue ∧ issue ∈ queue.repository.issues ∧
      ∃ operation, Life.Leaves .usual operation issue := by
  have filed : (Machine.run (step .usual) filing empty).map (·.repository.issues) = some [⟨7,[],[.ready],.opened⟩] := by
    decide +kernel
  obtain ⟨earlier,ran,entered⟩ := Option.map_eq_some_iff.mp filed
  have requeued : ((Machine.run (step .usual) filing empty).bind (Machine.run (step .usual) (claiming ++ requeuing))).map
      (·.repository.issues) = some [⟨7,"\n\nRevisions: 1\n".toList,[.ready],.opened⟩] := by decide +kernel
  rw [ran,Option.bind_some] at requeued
  obtain ⟨queue,later,issues⟩ := Option.map_eq_some_iff.mp requeued
  have member : ⟨7,"\n\nRevisions: 1\n".toList,[.ready],.opened⟩ ∈ queue.repository.issues := by simp [issues]
  have found : ∃ old ∈ earlier.repository.issues, old.number = 7 ∧ .ready ∈ old.labels :=
    ⟨⟨7,[],[.ready],.opened⟩,by simp [entered],rfl,by simp⟩
  have read : Issue.recoveries ⟨7,"\n\nRevisions: 1\n".toList,[.ready],.opened⟩ = some 0 := by decide +kernel
  exact ⟨earlier,queue,_,ran,later,member,
    no_absorbing_state ran later (by decide +kernel) found member rfl read (by decide)⟩

/-- The critic objects, and the resolver says nothing that it could be taken at. -/
def parking : List Action :=
  List.replicate 7 (.work 0 (fine "VERDICT: REVISE")) ++ List.replicate 6 (.work 0 (fine ""))

theorem questioned_absorbing : ∃ queue issue,
    Machine.run (step .usual) (filing ++ claiming ++ parking) empty = some queue ∧ issue ∈ queue.repository.issues ∧
      issue.state = .opened ∧ issue.recoveries = some 0 ∧ ∀ operation, ¬Life.Leaves .usual operation issue := by
  have parked : (Machine.run (step .usual) (filing ++ claiming ++ parking) empty).map (·.repository.issues) =
      some [⟨7,[],[.questioned],.opened⟩] := by decide +kernel
  obtain ⟨queue,ran,issues⟩ := Option.map_eq_some_iff.mp parked
  refine ⟨queue,⟨7,[],[.questioned],.opened⟩,ran,by simp [issues],rfl,by decide +kernel,?_⟩
  intro operation
  apply Life.not_leaves
  cases operation <;> decide

end Queue
end Frankenrust.Orchestrator
