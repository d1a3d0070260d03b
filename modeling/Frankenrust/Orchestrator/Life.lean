import Frankenrust.Library.Machine
import Frankenrust.Orchestrator.Calls
import Frankenrust.Orchestrator.Counter
import Frankenrust.Orchestrator.Race

/-! The life of one issue: the operations that the two lanes carry out on it, one after the
other, each with the issue as it was fetched. Every agent may rewrite the whole body while it
runs, every call may fail or raise, and a lane may be killed at any point. -/
namespace Frankenrust.Orchestrator

/-- How the surroundings answer the next call, and the body that an agent writes, if it does. -/
structure Reaction where
  outcome : Outcome
  answer : (command : Command) → Option (Answer command)
  written : Option Text

inductive Operation
  | claim
  | work
  | recover
  | release

/-- The issue, and how often `requeue` and `unblock` have returned it to the queue. -/
structure Account where
  issue : Issue
  requeues : Nat
  unblocks : Nat

structure Life where
  account : Account
  running : Work Unit

namespace Account

/-- An edit of the labels that is applied. -/
def relabel (add remove : List Label) (account : Account) : Account where
  issue := { account.issue with labels := editLabels add remove account.issue.labels }
  requeues := account.requeues + if .ready ∈ add ∧ .questioned ∈ remove then 1 else 0
  unblocks := account.unblocks + if .ready ∈ add ∧ .blocked ∈ remove then 1 else 0

def rewrite (body : Text) (account : Account) : Account :=
  { account with issue := { account.issue with body } }

/-- The body of the issue once an agent has run. -/
def left (reaction : Reaction) (account : Account) : Text := reaction.written.getD account.issue.body

def shut (account : Account) : Account := { account with issue := { account.issue with state := .closed } }

def respond (reaction : Reaction) (account : Account) : (command : Command) → Option (Answer command) × Account
  | .edit _ add remove =>
    (reaction.outcome.edited,if reaction.outcome.applies then account.relabel add remove else account)
  | .editBody _ body => (reaction.outcome.edited,if reaction.outcome.applies then account.rewrite body else account)
  | .viewBody _ => (reaction.outcome.read account.issue.body,account)
  | .viewLabels _ => (reaction.outcome.read account.issue.labels,account)
  | .close number => (reaction.answer (.close number),if reaction.outcome.applies then account.shut else account)
  | .invoke stage => (reaction.answer (.invoke stage),account.rewrite (account.left reaction))
  | command => (reaction.answer command,account)

end Account

namespace Life

/-- The label under which a lane finds the issue for an operation. -/
def found : Operation → Label
  | .claim => .ready
  | .work | .release => .claimed
  | .recover => .blocked

def program (config : Config) (issue : Issue) : Operation → Work Unit
  | .claim => do
    let _ ← Gh.claim issue.number
  | .work => Loop.work config issue
  | .recover => do
    let _ ← Loop.recover config issue
  | .release => Gh.release issue.number

inductive Action
  | start (operation : Operation)
  | call (reaction : Reaction)
  | kill

def step (config : Config) (action : Action) (life : Life) : Option Life :=
  match action,life.running with
  | .start operation,.done _ =>
    if life.account.issue.state = .opened ∧ found operation ∈ life.account.issue.labels then
      some { life with running := program config life.account.issue operation }
    else none
  | .call reaction,.call command next =>
    let (answer,account) := life.account.respond reaction command
    some ⟨account,next answer⟩
  | .kill,_ => some { life with running := .done none }
  | _,_ => none

def filed (number : Nat) (body : Text) : Life := ⟨⟨⟨number,body,[.ready],.opened⟩,0,0⟩,.done none⟩

/-- The new body counts no lower than the old one; a count that `int` refuses is never low. -/
def NotLowered (key old new : Text) : Prop := ∀ n ∈ counter key new, ∃ lower ∈ counter key old, lower ≤ n

instance {key old new : Text} : Decidable (NotLowered key old new) :=
  inferInstanceAs (Decidable (∀ n ∈ counter key new, ∃ lower ∈ counter key old, lower ≤ n))

/-- An agent that runs lowers neither counter of the issue. -/
def Keeps (account : Account) (reaction : Reaction) : Command → Prop
  | .invoke _ => NotLowered Issue.revisionsKey account.issue.body (account.left reaction) ∧
      NotLowered Issue.recoveriesKey account.issue.body (account.left reaction)
  | _ => True

def Meets : Action → Life → Prop
  | .call reaction, life => ∀ command ∈ life.running.pending, Keeps life.account reaction command
  | _, _ => True

instance {account : Account} {reaction : Reaction} : (command : Command) → Decidable (Keeps account reaction command)
  | .invoke _ => inferInstanceAs (Decidable (NotLowered .. ∧ NotLowered ..))
  | .issueList _ _ | .viewLabels _ | .viewBody _ | .edit _ _ _ | .editBody _ _ | .comment _ | .close _ | .record _ => .isTrue trivial
  | .overWallclock | .noAgentUsable | .makeWorktree | .retireWorktree | .snapshotWorktree | .restoreWorktree _ => .isTrue trivial
  | .worktreeDiff | .writePatch _ | .guardEnter | .guardExit | .gate | .mergeWorktree => .isTrue trivial

instance : (action : Action) → (life : Life) → Decidable (Meets action life)
  | .call reaction, life => inferInstanceAs (Decidable (∀ command ∈ life.running.pending, Keeps life.account reaction command))
  | .start _, _ | .kill, _ => .isTrue trivial

end Life
end Frankenrust.Orchestrator
