import Frankenrust.Thread.Drain
import Frankenrust.Thread.Handler

/-! One slot of the registry and the steps of the PHP pthread on it: the C loop of
`php_thread` with the handlers' callbacks. Every step is one critical section, one read
or one blocking receive of the source. -/
namespace Frankenrust.Thread

/-- Who waits on a slot's state: its own pthread, or the controller that holds `SCALING`. -/
inductive Waiter
  | pthread
  | controller
  deriving DecidableEq

/-- One handler object; two objects of one kind are told apart. -/
structure Handler where
  kind : ThreadHandler
  id : Nat
  deriving DecidableEq

inductive HandlerCallback
  | before
  | after (healthy : Bool)
  deriving DecidableEq

/-- Where the pthread is. -/
inductive Pc
  | absent
  -- about to clone the handler out of its slot for a callback
  | fetching (callback : HandlerCallback)
  | entering (callback : HandlerCallback) (handler : Handler)
  | looping (handler : Handler)
  -- the loop has read a state and chosen this arm
  | armed (handler : Handler) (arm : Arm)
  | settling (handler : Handler) (states : List State)
  | waiting (handler : Handler) (states : List State)
  | progressed
  | handover
  -- past the wait for `TransitionComplete`, about to clone the new handler
  | receiving
  | selecting (handler : Handler) (channel : Nat)
  | executing (handler : Handler)
  -- an unhealthy pthread has freed its memory and is about to start its successor
  | restarting
  -- C was given NULL
  | returning
  | shutting (read : State)
  deriving DecidableEq

structure PhpThread where
  state : ThreadState Waiter
  handler : Option Handler
  drain : DrainChannel
  pc : Pc
  /-- a pthread was launched and has not published its end -/
  unpublished : Bool
  deriving DecidableEq

def PhpThread.new : PhpThread := ⟨ThreadState.new,none,DrainChannel.new,.absent,false⟩

/-- How a step goes where the code does not decide it. -/
inductive Move
  | proceed
  | deliver (named : Bool)
  | disconnect
  | bailout
  | crash
  deriving DecidableEq

namespace PhpThread

def publish (thread : PhpThread) (next : State) (pc : Pc) : PhpThread :=
  { thread with state := thread.state.set next, pc }

def goto (thread : PhpThread) (pc : Pc) : PhpThread := { thread with pc }

def waitFor (thread : PhpThread) (states : List State) (returned blocked : Pc) : PhpThread :=
  { thread with
    state := (thread.state.subscribe .pthread states).2
    pc := if (thread.state.subscribe .pthread states).1 then returned else blocked }

def woken (thread : PhpThread) (pc : Pc) : Option PhpThread :=
  if thread.state.Waits .pthread then none else some (thread.goto pc)

def afterwards : HandlerCallback → Pc
  | .after false => .restarting
  | _ => .fetching .before

/-- The next operation of the code; `none` where the pthread is blocked or gone. -/
def proceed (thread : PhpThread) : Option PhpThread :=
  match thread.pc with
  | .absent => none
  | .fetching callback =>
    match thread.handler, callback with
    | some handler, callback => some (thread.goto (.entering callback handler))
    | none, .before => some (thread.goto .returning)
    | none, callback => some (thread.goto (afterwards callback))
  | .entering callback handler =>
    match callback with
    | .before => some (thread.goto (.looping handler))
    | callback => some (thread.goto (afterwards callback))
  | .looping handler => some (thread.goto (.armed handler (handler.kind.arm thread.state.currentState)))
  | .armed handler arm =>
    match arm with
    | .transition => some (thread.publish .transitionInProgress .progressed)
    | .republish next => some (thread.publish next (.looping handler))
    | .settle next states => some (thread.publish next (.settling handler states))
    | .await states => some (thread.goto (.settling handler states))
    | .waitForRequest => some (thread.goto (.selecting handler thread.drain.receiver))
    | .stop => some (thread.goto .returning)
  | .settling handler states => some (thread.waitFor states (.looping handler) (.waiting handler states))
  | .waiting handler _ => thread.woken (.looping handler)
  | .progressed => some (thread.waitFor [.transitionComplete] .receiving .handover)
  | .handover => thread.woken .receiving
  | .receiving =>
    match thread.handler with
    | some handler => some (thread.goto (.entering .before handler))
    | none => some (thread.goto .returning)
  | .selecting handler channel =>
    if channel ∈ thread.drain.disconnected then some (thread.goto (.looping handler)) else none
  | .executing _ => some (thread.goto (.fetching (.after true)))
  | .restarting => some (thread.goto (.fetching .before))
  | .returning => some (thread.goto (.shutting thread.state.currentState))
  | .shutting read =>
    some { thread.publish (shutdownState read) .absent with
      unpublished := thread.unpublished && shutdownState read != .done }

/-- Besides, a request may arrive at the select, or one of its request channels be found
disconnected; a script may bail out; and the successor of an unhealthy pthread may fail
to start. -/
def step (move : Move) (thread : PhpThread) : Option PhpThread :=
  match move with
  | .proceed => thread.proceed
  | .deliver named =>
    match thread.pc with
    | .selecting handler _ => some (thread.goto (if named then .executing handler else .returning))
    | _ => none
  | .disconnect =>
    match thread.pc with
    | .selecting handler _ => some (thread.goto (.looping handler))
    | _ => none
  | .bailout =>
    match thread.pc with
    | .executing _ => some (thread.goto (.fetching (.after false)))
    | _ => none
  | .crash =>
    match thread.pc with
    | .restarting => some (thread.goto .absent)
    | _ => none

end PhpThread
end Frankenrust.Thread
