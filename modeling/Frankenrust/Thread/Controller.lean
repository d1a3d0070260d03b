import Frankenrust.Thread.Pthread
import Mathlib.Data.Fin.Basic
import Mathlib.Data.List.FinRange
import Mathlib.Logic.Function.Basic

/-! The lifecycle controllers of `thread.rs`: `boot`, `set_handler_locked`,
`shutdown_locked` and `drain_generation`, as the programs of whoever holds `SCALING`. A
holder may run several of them in a row, as initialization and a claim do. -/
namespace Frankenrust.Thread

abbrev Ticket (n : Nat) := Fin n × ClosedDrainGeneration

/-- What a granted `request_safe_state_change` is for. -/
inductive Goal (n : Nat)
  | assign (handler : Handler)
  | retire
  | sweep (threads : List (Fin n)) (pending : List (Ticket n))
  deriving DecidableEq

def Goal.state {n : Nat} : Goal n → State
  | .assign _ => .transitionRequested
  | .retire | .sweep _ _ => .shuttingDown

inductive Controller (n : Nat)
  | held
  | bootSwap (i : Fin n)
  | bootSwapRequested (i : Fin n)
  | bootReplace (i : Fin n)
  | bootClose (i : Fin n)
  | bootReopen (i : Fin n) (closed : ClosedDrainGeneration)
  | bootLaunch (i : Fin n)
  | bootFailed (i : Fin n)
  | bootWait (i : Fin n)
  | bootBlocked (i : Fin n)
  | requesting (goal : Goal n) (i : Fin n)
  | requestWait (goal : Goal n) (i : Fin n)
  | requestBlocked (goal : Goal n) (i : Fin n)
  | refused (goal : Goal n) (i : Fin n)
  | closing (goal : Goal n) (i : Fin n)
  | progressWait (i : Fin n) (handler : Handler) (closed : ClosedDrainGeneration)
  | progressBlocked (i : Fin n) (handler : Handler) (closed : ClosedDrainGeneration)
  | replacing (i : Fin n) (handler : Handler) (closed : ClosedDrainGeneration)
  | reopening (i : Fin n) (closed : ClosedDrainGeneration)
  | completing (i : Fin n)
  | graceWait (i : Fin n) (closed : ClosedDrainGeneration)
  | graceBlocked (i : Fin n) (closed : ClosedDrainGeneration)
  | killing (i : Fin n) (closed : ClosedDrainGeneration)
  | doneWait (i : Fin n) (closed : ClosedDrainGeneration)
  | doneBlocked (i : Fin n) (closed : ClosedDrainGeneration)
  | finishReopen (i : Fin n) (closed : ClosedDrainGeneration)
  | finishReserve (i : Fin n)
  | sweepStart
  | sweepNext (threads : List (Fin n)) (pending : List (Ticket n))
  | sweepGrace (left pending : List (Ticket n))
  | sweepGraceWait (i : Fin n) (left pending : List (Ticket n))
  | sweepGraceBlocked (i : Fin n) (left pending : List (Ticket n))
  | sweepKill (left pending : List (Ticket n))
  | sweepDone (confirmed left : List (Ticket n))
  | sweepDoneWait (ticket : Ticket n) (confirmed left : List (Ticket n))
  | sweepDoneBlocked (ticket : Ticket n) (confirmed left : List (Ticket n))
  | sweepFinish (pending : List (Ticket n))
  | sweepReserve (i : Fin n) (pending : List (Ticket n))
  | sweepPublish
  | sweepMainWait
  deriving DecidableEq

/-- What the holder of `SCALING` turns to next. -/
inductive Command (n : Nat)
  | claim (i : Fin n)
  | boot (i : Fin n)
  | setHandler (i : Fin n) (handler : Handler)
  | shutdown (i : Fin n)
  | drain
  | release
  deriving DecidableEq

/-- How a controller's step goes where the code does not decide it. -/
inductive Choice (n : Nat)
  | proceed
  | start (command : Command n)
  | launchFails
  | timeout
  deriving DecidableEq

/-- `inactive` names the handler object which a boot installs. -/
structure System (n : Nat) where
  threads : Fin n → PhpThread
  main : State
  scaling : Option (Controller n)
  inactive : Nat

namespace System
variable {n : Nat}

def init : System n := ⟨fun _ => PhpThread.new,.ready,none,0⟩

def goto (system : System n) (controller : Controller n) : System n :=
  { system with scaling := some controller }

def put (system : System n) (i : Fin n) (thread : PhpThread) (controller : Controller n) : System n :=
  { system with threads := Function.update system.threads i thread, scaling := some controller }

def publish (system : System n) (i : Fin n) (next : State) (controller : Controller n) : System n :=
  let thread := system.threads i
  system.put i { thread with state := thread.state.set next } controller

def swap (system : System n) (i : Fin n) (compareTo swapTo : State) (yes no : Controller n) : System n :=
  let thread := system.threads i
  let (swapped,state) := thread.state.compareAndSwap compareTo swapTo
  system.put i { thread with state } (if swapped then yes else no)

def waitFor (system : System n) (i : Fin n) (states : List State) (returned blocked : Controller n) :
    System n :=
  let thread := system.threads i
  let (now,state) := thread.state.subscribe .controller states
  system.put i { thread with state } (if now then returned else blocked)

def woken (system : System n) (i : Fin n) (controller : Controller n) : Option (System n) :=
  if (system.threads i).state.Waits .controller then none else some (system.goto controller)

theorem woken_goto {system next : System n} {i : Fin n} {controller : Controller n}
    (woke : system.woken i controller = some next) :
    ¬(system.threads i).state.Waits .controller ∧ next = system.goto controller := by
  unfold woken at woke
  split at woke
  · contradiction
  next gone =>
    cases woke
    exact ⟨gone,rfl⟩

def timedOut (system : System n) (i : Fin n) (controller : Controller n) : System n :=
  let thread := system.threads i
  system.put i { thread with state := thread.state.unsubscribe .controller } controller

def request (system : System n) (goal : Goal n) (i : Fin n) : System n :=
  let thread := system.threads i
  let (attempt,state) := thread.state.requestSafeStateChange goal.state
  system.put i { thread with state }
    (match attempt with
    | .refused => .refused goal i
    | .granted => .closing goal i
    | .unstable => .requestWait goal i)

def afterClose (goal : Goal n) (i : Fin n) : Option ClosedDrainGeneration → Controller n
  | none =>
    match goal with
    | .assign _ | .retire => .held
    | .sweep threads pending => .sweepNext threads pending
  | some closed =>
    match goal with
    | .assign handler => .progressWait i handler closed
    | .retire => .graceWait i closed
    | .sweep threads pending => .sweepNext threads (pending ++ [(i,closed)])

def close (system : System n) (i : Fin n) (next : Option ClosedDrainGeneration → Controller n) : System n :=
  let thread := system.threads i
  let (closed,drain) := thread.drain.close
  system.put i { thread with drain } (next closed)

def reopen (system : System n) (i : Fin n) (closed : ClosedDrainGeneration) (controller : Controller n) :
    System n :=
  let thread := system.threads i
  system.put i { thread with drain := thread.drain.reopen closed } controller

def install (system : System n) (i : Fin n) (handler : Handler) (controller : Controller n) : System n :=
  let thread := system.threads i
  system.put i { thread with handler := some handler } controller

def isDone (system : System n) (i : Fin n) : Bool := (system.threads i).state.currentState == .done

/-- A boot, a claim and a drain need the registry, which lives while the main thread is ready. -/
def start (system : System n) : Command n → Option (System n)
  | .claim i =>
    if system.main = .ready then some (system.swap i .reserved .bootRequested (.bootSwap i) .held) else none
  | .boot i => if system.main = .ready then some (system.goto (.bootSwap i)) else none
  | .setHandler i handler => some (system.goto (.requesting (.assign handler) i))
  | .shutdown i => some (system.goto (.requesting .retire i))
  | .drain => if system.main = .ready then some (system.goto .sweepStart) else none
  | .release => some { system with scaling := none }

def controllerStep (system : System n) (controller : Controller n) (choice : Choice n) : Option (System n) :=
  match controller, choice with
  | .held, .start command => system.start command
  | .bootSwap i, .proceed => some (system.swap i .reserved .booting (.bootReplace i) (.bootSwapRequested i))
  | .bootSwapRequested i, .proceed => some (system.swap i .bootRequested .booting (.bootReplace i) .held)
  | .bootReplace i, .proceed =>
    some { system.install i ⟨.inactiveThread,system.inactive⟩ (.bootClose i) with inactive := system.inactive + 1 }
  | .bootClose i, .proceed =>
    some (system.close i fun
      | some closed => .bootReopen i closed
      | none => .bootLaunch i)
  | .bootReopen i closed, .proceed => some (system.reopen i closed (.bootLaunch i))
  | .bootLaunch i, .proceed =>
    let thread := system.threads i
    some (system.put i { thread with pc := .fetching .before, unpublished := true } (.bootWait i))
  | .bootLaunch i, .launchFails => some (system.goto (.bootFailed i))
  | .bootFailed i, .proceed => some (system.publish i .reserved .held)
  | .bootWait i, .proceed => some (system.waitFor i [.inactive] .held (.bootBlocked i))
  | .bootBlocked i, .proceed => system.woken i .held
  | .requesting goal i, .proceed => some (system.request goal i)
  | .requestWait goal i, .proceed =>
    some (system.waitFor i ThreadState.safeStates (.requesting goal i) (.requestBlocked goal i))
  | .requestBlocked goal i, .proceed => system.woken i (.requesting goal i)
  | .refused goal i, .proceed =>
    match goal with
    | .assign _ => some (system.goto .held)
    | .retire => some (system.swap i .done .reserved .held .held)
    | .sweep threads pending =>
      some (system.swap i .done .reserved (.sweepNext threads pending) (.sweepNext threads pending))
  | .closing goal i, .proceed => some (system.close i (afterClose goal i))
  | .progressWait i handler closed, .proceed =>
    some (system.waitFor i [.transitionInProgress] (.replacing i handler closed) (.progressBlocked i handler closed))
  | .progressBlocked i handler closed, .proceed => system.woken i (.replacing i handler closed)
  | .replacing i handler closed, .proceed => some (system.install i handler (.reopening i closed))
  | .reopening i closed, .proceed => some (system.reopen i closed (.completing i))
  | .completing i, .proceed => some (system.publish i .transitionComplete .held)
  | .graceWait i closed, .proceed =>
    some (system.waitFor i [.done] (.finishReopen i closed) (.graceBlocked i closed))
  | .graceBlocked i closed, .proceed => system.woken i (.finishReopen i closed)
  | .graceBlocked i closed, .timeout => some (system.timedOut i (.killing i closed))
  | .killing i closed, .proceed => some (system.goto (.doneWait i closed))
  | .doneWait i closed, .proceed =>
    some (system.waitFor i [.done] (.finishReopen i closed) (.doneBlocked i closed))
  | .doneBlocked i closed, .proceed => system.woken i (.finishReopen i closed)
  | .finishReopen i closed, .proceed => some (system.reopen i closed (.finishReserve i))
  | .finishReserve i, .proceed => some (system.publish i .reserved .held)
  | .sweepStart, .proceed =>
    some { system.goto (.sweepNext (List.finRange n) []) with main := .shuttingDown }
  | .sweepNext threads pending, .proceed =>
    match threads with
    | [] => some (system.goto (.sweepGrace pending pending))
    | i :: threads => some (system.goto (.requesting (.sweep threads pending) i))
  | .sweepGrace left pending, .proceed =>
    match left with
    | [] => some (system.goto (.sweepKill pending pending))
    | ticket :: left =>
      if system.isDone ticket.1 then some (system.goto (.sweepGrace left pending))
      else some (system.goto (.sweepGraceWait ticket.1 left pending))
  | .sweepGraceWait i left pending, .proceed =>
    some (system.waitFor i [.done] (.sweepGrace left pending) (.sweepGraceBlocked i left pending))
  | .sweepGraceBlocked i left pending, .proceed => system.woken i (.sweepGrace left pending)
  | .sweepGraceBlocked i left pending, .timeout => some (system.timedOut i (.sweepGrace left pending))
  | .sweepKill left pending, .proceed =>
    match left with
    | [] => some (system.goto (.sweepDone [] pending))
    | _ :: left => some (system.goto (.sweepKill left pending))
  | .sweepDone confirmed left, .proceed =>
    match left with
    | [] => some (system.goto (.sweepFinish confirmed))
    | ticket :: left =>
      if system.isDone ticket.1 then some (system.goto (.sweepDone (confirmed ++ [ticket]) left))
      else some (system.goto (.sweepDoneWait ticket confirmed left))
  | .sweepDoneWait ticket confirmed left, .proceed =>
    some (system.waitFor ticket.1 [.done] (.sweepDone (confirmed ++ [ticket]) left)
      (.sweepDoneBlocked ticket confirmed left))
  | .sweepDoneBlocked ticket confirmed left, .proceed =>
    system.woken ticket.1 (.sweepDone (confirmed ++ [ticket]) left)
  | .sweepFinish pending, .proceed =>
    match pending with
    | [] => some (system.goto .sweepPublish)
    | ticket :: pending => some (system.reopen ticket.1 ticket.2 (.sweepReserve ticket.1 pending))
  | .sweepReserve i pending, .proceed => some (system.publish i .reserved (.sweepFinish pending))
  | .sweepPublish, .proceed => some { system.goto .sweepMainWait with main := .done }
  | .sweepMainWait, .proceed => if system.main = .reserved then some (system.goto .held) else none
  | _, _ => none

/-- Who moves: the next caller that takes `SCALING`, its holder, a PHP pthread, or the
main pthread after its teardown. -/
inductive Action (n : Nat)
  | acquire
  | controller (choice : Choice n)
  | pthread (i : Fin n) (move : Move)
  | mainReserved
  deriving DecidableEq

def step (action : Action n) (system : System n) : Option (System n) :=
  match action with
  | .acquire =>
    match system.scaling with
    | none => some (system.goto .held)
    | some _ => none
  | .controller choice => system.scaling.bind fun controller => system.controllerStep controller choice
  | .pthread i move =>
    ((system.threads i).step move).map fun thread =>
      { system with threads := Function.update system.threads i thread }
  | .mainReserved => if system.main = .done then some { system with main := .reserved } else none

end System
end Frankenrust.Thread
