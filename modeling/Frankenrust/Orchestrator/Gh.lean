import Frankenrust.Library.Program
import Frankenrust.Orchestrator.Issue

/-! The calls that the orchestrator makes and the queue operations of `gh.py`. A call may
raise; what is written to the journal, to a comment or to a prompt is left out, since nothing
reads it back. -/
namespace Frankenrust.Orchestrator

/-- The stage that an agent is run for. -/
inductive Stage
  | critic
  | resolver (rounds : Nat)
  | implementer (attempt : Nat)
  | fixer (attempt : Nat)
  | reviewer (index : Nat)
  | unblocker (recoveries : Nat)
  deriving DecidableEq

inductive Command
  | issueList (label : Option Label) (state : IssueState)
  | viewLabels (number : Nat)
  | viewBody (number : Nat)
  | edit (number : Nat) (add remove : List Label)
  | editBody (number : Nat) (body : Text)
  | comment (number : Nat)
  | close (number : Nat)
  | record (event : String)
  | overWallclock
  | noAgentUsable
  | makeWorktree
  | retireWorktree
  | snapshotWorktree
  | restoreWorktree (tree : Text)
  | worktreeDiff
  | writePatch (diff : Text)
  | guardEnter
  | guardExit
  | invoke (stage : Stage)
  | gate
  | mergeWorktree
  deriving DecidableEq

/-- The agent that ran, its exit code and its output. -/
structure Reply where
  agent : Option Text
  rc : Int
  text : Text
  deriving DecidableEq

/-- What a call returns; `none` and `false` are calls of `gh` and of git that fail. -/
abbrev Answer : Command → Type
  | .issueList _ _ => Option (List Issue)
  | .viewLabels _ => Option (List Label)
  | .viewBody _ => Option Text
  | .edit _ _ _ | .editBody _ _ | .makeWorktree | .mergeWorktree => Bool
  | .overWallclock | .noAgentUsable => Bool
  | .snapshotWorktree | .worktreeDiff => Text
  | .invoke _ => Reply
  | .gate => Int × Text
  | .comment _ | .close _ | .record _ | .retireWorktree | .restoreWorktree _ | .writePatch _ => Unit
  | .guardEnter | .guardExit => Unit

abbrev Work := Program Command Answer

abbrev call (command : Command) : Work (Answer command) := Program.invoke command

namespace Gh

def fetch (label : Option Label) (state : IssueState) : Work (List Issue) := do
  let found ← call (.issueList label state)
  pure (found.getD [])

def closedNumbers : Work (List Nat) := do
  let closed ← fetch none .closed
  pure (closed.map (·.number))

/-- `all(d in done for d in i.deps)`; `deps` may raise. -/
def unblocked (isWord : Char → Bool) (done : List Nat) (issue : Issue) : Option Bool :=
  (issue.deps isWord).map fun deps => deps.all done.contains

/-- How many of the issues wait for each issue. -/
def countDependants (isWord : Char → Bool) (issues : List Issue) : Option (Nat → Nat) :=
  (issues.mapM (Issue.deps isWord)).map fun deps number => deps.flatten.count number

/-- Ready issues whose dependencies are all closed, most valuable first. -/
def claimable (isWord : Char → Bool) : Work (List Issue) := do
  let done ← closedNumbers
  let fetched ← fetch (some .ready) .opened
  match fetched.mapM (unblocked isWord done) with
  | none => Program.raise
  | some eligible => do
    let ready := ((fetched.zip eligible).filter (·.2)).map (·.1)
    let waiting ← fetch none .opened
    match countDependants isWord waiting with
    | none => Program.raise
    | some dependants => pure (ready.insertionSort fun first second =>
        first.rankKey dependants ≤ second.rankKey dependants)

def waits (isWord : Char → Bool) (done : List Nat) (issue : Issue) : Option Bool :=
  (unblocked isWord done issue).map not

/-- One issue of `sync_waiting`, which mirrors the dependency filter onto the labels. -/
def syncIssue (isWord : Char → Bool) (done : List Nat) (issue : Issue) : Work Unit :=
  match waits isWord done issue with
  | none => Program.raise
  | some waiting =>
    if waiting ∧ .waiting ∉ issue.labels then do
      let _ ← call (.edit issue.number [.waiting] [])
    else if .waiting ∈ issue.labels ∧ ¬waiting then do
      let _ ← call (.edit issue.number [] [.waiting])
    else pure ()

def syncIssues (isWord : Char → Bool) (done : List Nat) : List Issue → Work Unit
  | [] => pure ()
  | issue :: issues => do
    syncIssue isWord done issue
    syncIssues isWord done issues

def syncWaiting (isWord : Char → Bool) : Work Unit := do
  let done ← closedNumbers
  let ready ← fetch (some .ready) .opened
  syncIssues isWord done ready

def dependants (isWord : Char → Bool) : Work (Nat → List Nat) := do
  let issues ← fetch none .opened
  match issues.mapM fun issue => (issue.deps isWord).map fun deps => (issue.number,deps) with
  | none => Program.raise
  | some edges => pure fun number => (edges.filter fun edge => edge.2.contains number).map (·.1)

/-- Every blocked issue and the open issues that wait for it, worst first. -/
def blockedNeedingRecovery (isWord : Char → Bool) : Work (List (Issue × List Nat)) := do
  let waitingOn ← dependants isWord
  let done ← closedNumbers
  let blocked ← fetch (some .blocked) .opened
  let gated := blocked.map fun issue =>
    (issue,((waitingOn issue.number).filter fun number => ¬done.contains number).insertionSort (· ≤ ·))
  pure (gated.insertionSort fun first second => toLex (-(first.2.length : ℤ),first.1.number) ≤
    toLex (-(second.2.length : ℤ),second.1.number))

def comment (number : Nat) : Work Unit := call (.comment number)

/-- `requeue` and `unblock` up to their last edit: the body is read back and stamped. -/
def restamp (number : Nat) (key line : Text) : Work Bool := do
  let read ← call (.viewBody number)
  match read with
  | none => pure false
  | some body => call (.editBody number (stamp key line body))

def unblock (number recovery : Nat) : Work Bool := do
  let stamped ← restamp number Issue.recoveriesKey ("Recoveries: ".toList ++ decimalText recovery)
  if stamped then call (.edit number [.ready] [.blocked,.claimed]) else pure false

/-- `False` where someone else got there first, which the labels read back are to tell. -/
def claim (number : Nat) : Work Bool := do
  let edited ← call (.edit number [.claimed] [.ready])
  if edited then do
    let labels ← call (.viewLabels number)
    pure (labels.any (·.contains .claimed))
  else pure false

def release (number : Nat) : Work Unit := do
  let _ ← call (.edit number [.ready] [.claimed])

def block (number : Nat) : Work Unit := do
  comment number
  let _ ← call (.edit number [.blocked] [.claimed])

def question (number : Nat) : Work Unit := do
  comment number
  let _ ← call (.edit number [.questioned] [.claimed])

def requeue (number revision : Nat) : Work Bool := do
  let stamped ← restamp number Issue.revisionsKey ("Revisions: ".toList ++ decimalText revision)
  if stamped then call (.edit number [.ready] [.claimed,.questioned]) else pure false

def close (number : Nat) : Work Unit := do
  comment number
  call (.close number)

end Gh
end Frankenrust.Orchestrator
