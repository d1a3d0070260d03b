import Frankenrust.Library.Machine
import Frankenrust.Thread.State
import Mathlib.Logic.Function.Basic

/-! Any number of threads that share one `ThreadState`. A call is split at its critical
sections; a subscription is known by its token, which no other subscription has. -/
namespace Frankenrust.Thread
open ThreadState

/-- Where a thread is in its call, if it is in one. -/
inductive Call
  | idle
  | waiting (token : Nat) (states : List State)
  | timing (token : Nat) (states : List State)
  -- the time is over; the entry is still to be removed
  | expired (token : Nat)
  | requesting (wanted : State)
  -- the state was unstable; `wait_for` is still to be called
  | unsettled (wanted : State)
  | parked (token : Nat) (wanted : State)
  deriving DecidableEq

namespace Call

/-- The token and the states with which the thread's `wait_for` has subscribed. -/
def waits : Call → Option (Nat × List State)
  | .waiting token states | .timing token states => some (token,states)
  | .parked token _ => some (token,safeStates)
  | .idle | .expired _ | .requesting _ | .unsettled _ => none

def token : Call → Option Nat
  | .waiting token _ | .timing token _ | .expired token | .parked token _ => some token
  | .idle | .requesting _ | .unsettled _ => none

end Call

structure Sharing (ι : Type) where
  state : ThreadState Nat
  fresh : Nat
  calls : ι → Call

namespace Sharing
variable {ι : Type} [DecidableEq ι]

def init : Sharing ι := ⟨ThreadState.new,0,fun _ => .idle⟩

inductive Action (ι : Type)
  | set (i : ι) (next : State)
  | compareAndSwap (i : ι) (compareTo swapTo : State)
  | waitFor (i : ι) (states : List State)
  | waitForStateWithTimeout (i : ι) (states : List State)
  | requestSafeStateChange (i : ι) (wanted : State)
  | proceed (i : ι)
  | timeout (i : ι)

inductive Event (ι : Type)
  | entered (state : State)
  | subscribed (token : Nat) (states : List State)
  | granted (i : ι) (wanted : State)
  | refused (i : ι)
  deriving DecidableEq

/-- The state that is entered; a grant enters the state which was requested. -/
def Event.enters : Event ι → Option State
  | .entered state | .granted _ state => some state
  | .subscribed _ _ | .refused _ => none

def goto (sharing : Sharing ι) (i : ι) (call : Call) : Sharing ι :=
  { sharing with calls := Function.update sharing.calls i call }

/-- `subscribe`: the call returns at once, or its entry is registered under a new token. -/
def subscribe (sharing : Sharing ι) (i : ι) (states : List State) (returned : Call) (blocked : Nat → Call) :
    Sharing ι :=
  let (now,state) := sharing.state.subscribe sharing.fresh states
  if now then sharing.goto i returned
  else { sharing.goto i (blocked sharing.fresh) with state, fresh := sharing.fresh + 1 }

def proceed (sharing : Sharing ι) (i : ι) : Option (Sharing ι) :=
  match sharing.calls i with
  | .idle => none
  | .waiting token _ | .timing token _ =>
    if sharing.state.Waits token then none else some (sharing.goto i .idle)
  | .expired token => some { sharing.goto i .idle with state := sharing.state.unsubscribe token }
  | .requesting wanted =>
    let (attempt,state) := sharing.state.requestSafeStateChange wanted
    match attempt with
    | .refused | .granted => some { sharing.goto i .idle with state }
    | .unstable => some (sharing.goto i (.unsettled wanted))
  | .unsettled wanted => some (sharing.subscribe i safeStates (.requesting wanted) (.parked · wanted))
  | .parked token wanted =>
    if sharing.state.Waits token then none else some (sharing.goto i (.requesting wanted))

/-- A thread begins a call when it is in none. -/
def step (action : Action ι) (sharing : Sharing ι) : Option (Sharing ι) :=
  match action with
  | .set i next =>
    if sharing.calls i = .idle then some { sharing with state := sharing.state.set next } else none
  | .compareAndSwap i compareTo swapTo =>
    if sharing.calls i = .idle then
      some { sharing with state := (sharing.state.compareAndSwap compareTo swapTo).2 }
    else none
  | .waitFor i states =>
    if sharing.calls i = .idle then some (sharing.subscribe i states .idle (.waiting · states)) else none
  | .waitForStateWithTimeout i states =>
    if sharing.calls i = .idle then some (sharing.subscribe i states .idle (.timing · states)) else none
  | .requestSafeStateChange i wanted =>
    if sharing.calls i = .idle then some (sharing.goto i (.requesting wanted)) else none
  | .proceed i => sharing.proceed i
  | .timeout i =>
    match sharing.calls i with
    | .timing token _ => some (sharing.goto i (.expired token))
    | _ => none

def subscription (sharing : Sharing ι) (states : List State) : Option (Event ι) :=
  if (sharing.state.subscribe sharing.fresh states).1 then none else some (.subscribed sharing.fresh states)

def event (action : Action ι) (sharing : Sharing ι) : Option (Event ι) :=
  match action with
  | .set _ next => some (.entered next)
  | .compareAndSwap _ compareTo swapTo =>
    if (sharing.state.compareAndSwap compareTo swapTo).1 then some (.entered swapTo) else none
  | .waitFor _ states | .waitForStateWithTimeout _ states => sharing.subscription states
  | .requestSafeStateChange _ _ | .timeout _ => none
  | .proceed i =>
    match sharing.calls i with
    | .requesting wanted =>
      match (sharing.state.requestSafeStateChange wanted).1 with
      | .refused => some (.refused i)
      | .granted => some (.granted i wanted)
      | .unstable => none
    | .unsettled _ => sharing.subscription safeStates
    | _ => none

end Sharing
end Frankenrust.Thread
