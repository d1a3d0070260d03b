import Frankenrust.Thread.State

/-! What a handler's `before_script_execution` does with the state it has read: the arms
of the two `match` statements in `thread_inactive.rs` and `thread_regular.rs`. -/
namespace Frankenrust.Thread

/-- An arm. After `republish`, `settle` and `await` the loop reads the state again. -/
inductive Arm
  | transition
  | republish (next : State)
  | settle (next : State) (states : List State)
  | await (states : List State)
  | waitForRequest
  | stop
  deriving DecidableEq

inductive ThreadHandler
  | inactiveThread
  | regularThread
  deriving DecidableEq

def inactiveThreadArm : State → Arm
  | .transitionRequested => .transition
  | .booting | .transitionComplete | .inactive =>
    .settle .inactive [.transitionRequested,.shuttingDown,.rebooting,.forceRebooting]
  | .rebooting | .forceRebooting | .shuttingDown => .stop
  | .rebootReady => .republish .inactive
  | .reserved | .bootRequested | .done | .ready | .transitionInProgress | .yieldingForReboot =>
    .await [.booting,.transitionRequested,.transitionComplete,.inactive,.shuttingDown,.rebooting,
      .forceRebooting,.rebootReady]

def regularThreadArm : State → Arm
  | .transitionRequested => .transition
  | .transitionComplete => .republish .ready
  | .ready => .waitForRequest
  | .rebooting | .forceRebooting => .stop
  | .rebootReady => .republish .ready
  | .shuttingDown => .stop
  | .reserved | .booting | .bootRequested | .done | .inactive | .transitionInProgress
  | .yieldingForReboot =>
    .await [.transitionRequested,.transitionComplete,.ready,.rebooting,.forceRebooting,.rebootReady,
      .shuttingDown]

def ThreadHandler.arm : ThreadHandler → State → Arm
  | .inactiveThread => inactiveThreadArm
  | .regularThread => regularThreadArm

/-- `on_thread_shutdown`: the state published for the one it read. -/
def shutdownState : State → State
  | .rebooting => .rebootReady
  | .forceRebooting => .yieldingForReboot
  | _ => .done

end Frankenrust.Thread
