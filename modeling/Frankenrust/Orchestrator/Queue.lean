import Frankenrust.Library.Machine
import Frankenrust.Orchestrator.Loop
import Frankenrust.Orchestrator.Race

/-! The queue as its two lanes work on it: the run lane with the workers of its pool, and the
unblock lane, a process of its own. One action is one call of one of them, which sees or
changes the repository at one instant, or a change that somebody else makes. -/
namespace Frankenrust.Orchestrator

/-- The labels that are states of an issue. -/
def Label.isState : Label → Bool
  | .ready | .claimed | .blocked | .questioned => true
  | _ => false

/-- One worker of the pool and whether an edit of its issue's state has taken effect. -/
structure Worker where
  issue : Issue
  running : Work Unit
  edited : Bool

/-- `cmd_run`: the start-up reclaim, the head of its loop and the claiming part of a poll. -/
inductive RunLane
  | stopped
  | starting (running : Work Unit)
  | polling
  | claiming (running : Work (List Issue))

structure Queue where
  repository : Repository
  runLane : RunLane
  inflight : List Worker
  unblockLane : Work Unit

namespace Issue

def relabel (add remove : List Label) (issue : Issue) : Issue :=
  { issue with labels := editLabels add remove issue.labels }

def rewrite (body : Text) (issue : Issue) : Issue := { issue with body }

def shut (issue : Issue) : Issue := { issue with state := .closed }

/-- An issue enters the queue, unless it is in it. -/
def enqueue (issue : Issue) : Issue :=
  if issue.labels.any Label.isState then issue else { issue with labels := .ready :: issue.labels }

end Issue

namespace Repository

def file (repository : Repository) (issue : Issue)
    (newest : ∀ older ∈ repository.issues, older.number < issue.number) : Repository :=
  ⟨issue :: repository.issues,List.pairwise_cons.mpr ⟨newest,repository.newestFirst⟩⟩

end Repository

namespace Queue

/-- How the surroundings answer the next call. -/
structure Reaction where
  outcome : Outcome
  answer : (command : Command) → Option (Answer command)

/-- What somebody else changes on an issue: its body, labels that are no states, or its state
to closed. -/
structure Touch where
  body : Text
  add : List Label
  remove : List Label
  closes : Bool

inductive Action
  | file (issue : Issue)
  | enqueue (number : Nat)
  | touch (number : Nat) (touch : Touch)
  | start
  | poll
  | runCall (reaction : Reaction)
  | settle
  | leave
  | kill
  | work (index : Nat) (reaction : Reaction)
  | reap (index : Nat)
  | pass
  | unblockCall (reaction : Reaction)
  | killUnblock

def Touch.apply (touch : Touch) (issue : Issue) : Issue :=
  let changed := (issue.relabel touch.add touch.remove).rewrite touch.body
  if touch.closes then changed.shut else changed

def respond (reaction : Reaction) (repository : Repository) :
    (command : Command) → Option (Answer command) × Repository
  | .issueList label state => (reaction.outcome.read (repository.list label state),repository)
  | .viewLabels number =>
    ((reaction.outcome.read (repository.find number)).map fun found => found.join.map (·.labels),repository)
  | .viewBody number =>
    ((reaction.outcome.read (repository.find number)).map fun found => found.join.map (·.body),repository)
  | .edit number add remove =>
    (reaction.outcome.edited,
      if reaction.outcome.applies then repository.modify number (Issue.relabel add remove) else repository)
  | .editBody number body =>
    (reaction.outcome.edited,
      if reaction.outcome.applies then repository.modify number (Issue.rewrite body) else repository)
  | .close number =>
    (reaction.answer (.close number),if reaction.outcome.applies then repository.modify number Issue.shut else repository)
  | command => (reaction.answer command,repository)

/-- An edit of the labels that are states takes effect. -/
def moves (reaction : Reaction) : Command → Bool
  | .edit _ add remove => reaction.outcome.applies && (add ++ remove).any Label.isState
  | _ => false

def submit (config : Config) (issue : Issue) : Worker := ⟨issue,Loop.work config issue,false⟩

def busy (queue : Queue) : List Nat := queue.inflight.map (·.issue.number)

/-- One call of the run lane, in either of its programs. -/
def runCall (reaction : Reaction) (queue : Queue) : Option Queue :=
  match queue.runLane with
  | .starting (.call command next) =>
    let (answer,repository) := respond reaction queue.repository command
    some { queue with repository,runLane := .starting (next answer) }
  | .claiming (.call command next) =>
    let (answer,repository) := respond reaction queue.repository command
    some { queue with repository,runLane := .claiming (next answer) }
  | _ => none

/-- The end of a program of the run lane; an exception ends the lane, and its pool is awaited. -/
def settle (config : Config) (queue : Queue) : Option Queue :=
  match queue.runLane with
  | .starting (.done none) | .claiming (.done none) => some { queue with runLane := .stopped }
  | .starting (.done (some _)) => some { queue with runLane := .polling }
  | .claiming (.done (some batch)) =>
    some { queue with runLane := .polling,inflight := queue.inflight ++ batch.map (submit config) }
  | _ => none

def work (index : Nat) (reaction : Reaction) (queue : Queue) : Option Queue :=
  match queue.inflight[index]? with
  | some ⟨issue,.call command next,edited⟩ =>
    let (answer,repository) := respond reaction queue.repository command
    some { queue with repository,inflight := queue.inflight.set index ⟨issue,next answer,edited || moves reaction command⟩ }
  | _ => none

/-- A future that is done leaves the pool, at the head of the loop or after it. -/
def reap (index : Nat) (queue : Queue) : Option Queue :=
  match queue.runLane,queue.inflight[index]? with
  | .polling,some ⟨_,.done _,_⟩ | .stopped,some ⟨_,.done _,_⟩ =>
    some { queue with inflight := queue.inflight.eraseIdx index }
  | _,_ => none

def unblockCall (reaction : Reaction) (queue : Queue) : Option Queue :=
  match queue.unblockLane with
  | .done _ => none
  | .call command next =>
    let (answer,repository) := respond reaction queue.repository command
    some { queue with repository,unblockLane := next answer }

/-- A new issue is in the queue with `fr:ready` or not in it. -/
def file (issue : Issue) (queue : Queue) : Option Queue :=
  if newest : ∀ older ∈ queue.repository.issues, older.number < issue.number then
    if ∀ label ∈ issue.labels, label.isState → label = .ready then
      some { queue with repository := queue.repository.file issue newest }
    else none
  else none

def step (config : Config) (action : Action) (queue : Queue) : Option Queue :=
  match action with
  | .file issue => queue.file issue
  | .enqueue number => some { queue with repository := queue.repository.modify number Issue.enqueue }
  | .touch number touch =>
    if ∀ label ∈ touch.add ++ touch.remove, label.isState = false then
      some { queue with repository := queue.repository.modify number touch.apply }
    else none
  | .start =>
    match queue.runLane,queue.inflight with
    | .stopped,[] => some { queue with runLane := .starting Loop.reclaim }
    | _,_ => none
  | .poll =>
    match queue.runLane with
    | .polling => some { queue with
        runLane := .claiming (Loop.claimBatch config queue.busy (config.maxParallel - queue.inflight.length)) }
    | _ => none
  | .runCall reaction => queue.runCall reaction
  | .settle => queue.settle config
  | .leave =>
    match queue.runLane with
    | .polling => some { queue with runLane := .stopped }
    | _ => none
  | .kill => some { queue with runLane := .stopped,inflight := [] }
  | .work index reaction => queue.work index reaction
  | .reap index => queue.reap index
  | .pass =>
    match queue.unblockLane with
    | .done _ => some { queue with unblockLane := Loop.unblockPass config }
    | _ => none
  | .unblockCall reaction => queue.unblockCall reaction
  | .killUnblock => some { queue with unblockLane := .done none }

/-- No issue has been filed and no lane runs. -/
def empty : Queue := ⟨.empty,.stopped,[],.done none⟩

/-- Calls that succeed, with agents that say the text. -/
def fine (text : String) : Reaction := ⟨.succeeds,smooth true text.toList⟩

def filing : List Action := [.file ⟨7,[],[.ready],.opened⟩]

/-- The run lane starts, finds the issue and claims it. -/
def claiming : List Action :=
  [.start,.runCall (fine ""),.settle,.poll] ++ List.replicate 7 (.runCall (fine "")) ++ [.settle]

/-- The critic objects, the resolver rewrites and the issue is requeued. -/
def requeuing : List Action :=
  List.replicate 7 (.work 0 (fine "VERDICT: REVISE")) ++ List.replicate 6 (.work 0 (fine "RESOLUTION: REWRITE"))

end Queue
end Frankenrust.Orchestrator
