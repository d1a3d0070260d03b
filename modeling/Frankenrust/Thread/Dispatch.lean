import Frankenrust.Thread.Handshake

/-! Dispatch of requests to regular threads, `handle_request_with_regular_php_threads`, over
the lifecycle of the threads. A regular thread's own channel is named by its handler
object; the zero-capacity channels are a rendezvous, so that a send succeeds only with a
thread that is in its select. -/
namespace Frankenrust.Thread
variable {n m : Nat}

/-- A registry entry: the thread and the sender of the handler's own channel. -/
structure RegularThreadEntry (n : Nat) where
  thread : Fin n
  sender : Nat
  deriving DecidableEq

/-- Where a caller is; its request is in its hands until it has been sent. -/
inductive Caller (n m : Nat)
  | loading (work : Fin m)
  | locking (work : Fin m)
  -- scanning the registry under its read lock, with these entries left
  | scanning (work : Fin m) (entries : List (RegularThreadEntry n))
  | queueing (work : Fin m)
  -- blocked in the send on the shared channel
  | sending (work : Fin m)
  | leaving (delivered : Bool)
  | reporting
  | returned (diagnosed : Bool)
  deriving DecidableEq

namespace Caller

def reads : Caller n m → Bool
  | .scanning _ _ => true
  | _ => false

/-- Between the increment of `QUEUED_REGULAR_THREADS` and the decrement. -/
def queues : Caller n m → Bool
  | .sending _ | .leaving _ => true
  | _ => false

def holds : Caller n m → Option (Fin m)
  | .loading work | .locking work | .scanning work _ | .queueing work | .sending work => some work
  | .leaving _ | .reporting | .returned _ => none

def delivered : Caller n m → Bool
  | .leaving delivered => delivered
  | .returned diagnosed => !diagnosed
  | _ => false

end Caller

/-- How a caller's step goes: by itself, by a `try_send` that some thread takes or none
does, by a rendezvous on the shared channel, or by that channel having no receiver. -/
inductive Offer (n : Nat)
  | proceed
  | taken (i : Fin n) (named : Bool)
  | full
  | met (i : Fin n) (named : Bool)
  | disconnected
  deriving DecidableEq

structure Dispatch (n m : Nat) where
  system : System n
  registry : List (RegularThreadEntry n)
  queued : Int
  callers : Fin m → Caller n m

namespace Dispatch

def init : Dispatch n m := ⟨System.init,[],0,.loading⟩

/-- Threads come to be registered and leave the registry at any time, in any order. -/
inductive Action (n m : Nat)
  | lifecycle (action : System.Action n)
  | attach (entry : RegularThreadEntry n)
  | detach (thread : Fin n)
  | caller (c : Fin m) (offer : Offer n)
  deriving DecidableEq

def Writable (dispatch : Dispatch n m) : Prop := ∀ c, (dispatch.callers c).reads = false

instance (dispatch : Dispatch n m) : Decidable dispatch.Writable :=
  inferInstanceAs (Decidable (∀ c, (dispatch.callers c).reads = false))

def goto (dispatch : Dispatch n m) (c : Fin m) (caller : Caller n m) : Dispatch n m :=
  { dispatch with callers := Function.update dispatch.callers c caller }

/-- The thread is in its select, which receives from the handler's own channel. -/
def receives (thread : PhpThread) (sender : Nat) : Bool :=
  match thread.pc with
  | .selecting handler _ => handler.id = sender
  | _ => false

def deliver (dispatch : Dispatch n m) (i : Fin n) (named : Bool) (c : Fin m) (caller : Caller n m) :
    Option (Dispatch n m) :=
  (System.step (.pthread i (.deliver named)) dispatch.system).map fun system =>
    { dispatch.goto c caller with system }

def callerStep (dispatch : Dispatch n m) (c : Fin m) (offer : Offer n) : Option (Dispatch n m) :=
  match dispatch.callers c, offer with
  | .loading work, .proceed =>
    some (dispatch.goto c (if dispatch.queued = 0 then .locking work else .queueing work))
  | .locking work, .proceed => some (dispatch.goto c (.scanning work dispatch.registry))
  | .scanning work [], .proceed => some (dispatch.goto c (.queueing work))
  | .scanning _ (entry :: _), .taken i named =>
    if receives (dispatch.system.threads i) entry.sender then dispatch.deliver i named c (.returned false) else none
  | .scanning work (entry :: entries), .full =>
    if ∀ i, receives (dispatch.system.threads i) entry.sender = false then
      some (dispatch.goto c (.scanning work entries))
    else none
  | .queueing work, .proceed => some { dispatch.goto c (.sending work) with queued := dispatch.queued + 1 }
  | .sending _, .met i named => dispatch.deliver i named c (.leaving true)
  | .sending _, .disconnected => some (dispatch.goto c (.leaving false))
  | .leaving delivered, .proceed =>
    some { dispatch.goto c (if delivered then .returned false else .reporting) with queued := dispatch.queued - 1 }
  | .reporting, .proceed => some (dispatch.goto c (.returned true))
  | _, _ => none

def external : System.Action n → Bool
  | .pthread _ (.deliver _) => false
  | _ => true

def step (action : Action n m) (dispatch : Dispatch n m) : Option (Dispatch n m) :=
  match action with
  | .lifecycle action =>
    if external action then (System.step action dispatch.system).map fun system => { dispatch with system } else none
  | .attach entry =>
    if dispatch.Writable then some { dispatch with registry := dispatch.registry ++ [entry] } else none
  | .detach thread =>
    if dispatch.Writable then
      some { dispatch with registry := dispatch.registry.filter fun entry => entry.thread ≠ thread }
    else none
  | .caller c offer => dispatch.callerStep c offer

end Dispatch
end Frankenrust.Thread
