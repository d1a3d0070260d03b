import Frankenrust.Bytes

/-! Thread lifecycle states and their state machine, `state.rs`. Every operation is one
critical section of the inner mutex; a blocked caller is an entry among the subscribers,
named by the party that waits, and it may go on once its entry has been removed. -/
namespace Frankenrust.Thread

inductive State
  | reserved
  | booting
  | bootRequested
  | shuttingDown
  | done
  | inactive
  | ready
  | transitionRequested
  | transitionInProgress
  | transitionComplete
  | rebooting
  | forceRebooting
  | rebootReady
  | yieldingForReboot
  deriving DecidableEq

structure Subscriber (ω : Type) where
  waiter : ω
  states : List State
  deriving DecidableEq

structure ThreadState (ω : Type) where
  currentState : State
  subscribers : List (Subscriber ω)
  deriving DecidableEq

namespace ThreadState
variable {ω : Type}

def new : ThreadState ω := ⟨.reserved,[]⟩

/-- Publishing a state notifies and removes every subscriber interested in it. -/
def set (threadState : ThreadState ω) (next : State) : ThreadState ω :=
  ⟨next,threadState.subscribers.filter fun subscriber => !subscriber.states.contains next⟩

def compareAndSwap (threadState : ThreadState ω) (compareTo swapTo : State) : Bool × ThreadState ω :=
  if threadState.currentState ≠ compareTo then (false,threadState) else (true,threadState.set swapTo)

/-- The first half of `wait_for`: `true` where the call returns at once. -/
def subscribe (threadState : ThreadState ω) (waiter : ω) (states : List State) : Bool × ThreadState ω :=
  if states.contains threadState.currentState then (true,threadState)
  else (false,{ threadState with subscribers := threadState.subscribers ++ [⟨waiter,states⟩] })

/-- A timed-out waiter takes back its own entry. -/
def unsubscribe [DecidableEq ω] (threadState : ThreadState ω) (waiter : ω) : ThreadState ω :=
  { threadState with subscribers := threadState.subscribers.filter fun subscriber => subscriber.waiter ≠ waiter }

inductive Attempt
  | refused
  | granted
  | unstable
  deriving DecidableEq

/-- One round of `request_safe_state_change`; an unstable state is waited out. -/
def requestSafeStateChange (threadState : ThreadState ω) (next : State) : Attempt × ThreadState ω :=
  match threadState.currentState with
  | .reserved | .shuttingDown | .done => (.refused,threadState)
  | .ready | .inactive => (.granted,threadState.set next)
  | _ => (.unstable,threadState)

def safeStates : List State := [.ready,.inactive,.reserved]

/-- The waiter is registered, so its wait has not returned. -/
def Waits (threadState : ThreadState ω) (waiter : ω) : Prop :=
  ∃ subscriber ∈ threadState.subscribers, subscriber.waiter = waiter

instance [DecidableEq ω] (threadState : ThreadState ω) (waiter : ω) : Decidable (threadState.Waits waiter) :=
  inferInstanceAs (Decidable (∃ subscriber ∈ threadState.subscribers, subscriber.waiter = waiter))

@[simp] theorem set_currentState (threadState : ThreadState ω) (next : State) :
    (threadState.set next).currentState = next := rfl

theorem mem_set {threadState : ThreadState ω} {next : State} {subscriber : Subscriber ω} :
    subscriber ∈ (threadState.set next).subscribers ↔
      subscriber ∈ threadState.subscribers ∧ next ∉ subscriber.states := by
  simp [set]

end ThreadState
end Frankenrust.Thread
