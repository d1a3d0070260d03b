import Frankenrust.Context.Slots
import Frankenrust.Thread.Handler

/-! The script callbacks of a PHP thread, as one thread runs them. What other parties
decide is given round by round: the state which the loop reads, how its wait for a
request ends and which handler a transition installs. -/
namespace Frankenrust.Thread
open Context

variable {σ : Type}

/-- A script path C may borrow: not empty, with a NUL behind it. -/
structure ScriptPath where
  bytes : Bytes
  terminated : ∃ path, path ≠ [] ∧ bytes = path ++ [nul]

def ScriptPath.new (bytes : Bytes) : Option ScriptPath :=
  if named : bytes ≠ [] then some ⟨bytes ++ [nul],bytes,named,rfl⟩ else none

inductive WaitOutcome
  | drained
  | delivered (work : Option RequestContext)

structure Round where
  state : State
  outcome : WaitOutcome
  installed : Option ThreadHandler

/-- A return to C: by which handler, with which path, and the request dequeued on it. -/
structure Returned where
  handler : ThreadHandler
  path : Option ScriptPath
  dequeued : Option RequestContext

/-- `before_script_execution` of the handler in place; `none` while it still loops. -/
def beforeScriptExecution : ThreadHandler → List Round → Slot σ → Option (Returned × Slot σ)
  | _, [], _ => none
  | handler, round :: rounds, slot =>
    match handler.arm round.state with
    | .transition =>
      match round.installed with
      | some next => beforeScriptExecution next rounds slot
      | none => some (⟨handler,none,none⟩,slot)
    | .waitForRequest =>
      match round.outcome with
      | .delivered (some ctx) =>
        some (⟨handler,ScriptPath.new ctx.scriptFilename,some ctx⟩,slot.set ctx)
      | _ => beforeScriptExecution handler rounds slot
    | .stop => some (⟨handler,none,none⟩,slot)
    | _ => beforeScriptExecution handler rounds slot

def afterScriptExecution : ThreadHandler → Slot σ → Slot σ
  | .regularThread, slot => slot.close.clear
  | .inactiveThread, slot => slot

end Frankenrust.Thread
