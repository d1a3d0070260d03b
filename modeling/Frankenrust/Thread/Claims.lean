import Frankenrust.Thread.Frame
import Mathlib.Algebra.Group.Nat.Defs

/-! The callers of the lifecycle functions of `thread.rs`, any number of them, around one
`SCALING` lock: the search for an inactive slot, the claim it hands out, and the public
functions that take the same lock. Only the caller that holds the lock has left `idle`. -/
namespace Frankenrust.Thread
variable {n : Nat}

inductive Operation (n : Nat)
  | initPhpThreads (numThreads : Nat)
  | getInactivePhpThread
  | setHandler (i : Fin n) (handler : Handler)
  | shutdown (i : Fin n)
  | drainPhpThreads
  deriving DecidableEq

inductive Claimant (n : Nat)
  | idle
  -- the two loops of `get_inactive_php_thread`, with the slots still to be looked at
  | scanning (left : List (Fin n))
  | reserving (left : List (Fin n))
  | booting (i : Fin n)
  -- the caller owns an `InactivePhpThreadClaim`
  | claimed (i : Fin n)
  | assigning (i : Fin n) (handler : Handler)
  | assigned (i : Fin n) (assigned : Bool)
  -- `init_php_threads` is about to create the main thread
  | creating (numThreads : Nat)
  -- in another function, between its commands or inside one; `answer` is what an initialization will return
  | locked (answer : Option Bool) (commands : List (Command n))
  | commanding (answer : Option Bool) (command : Command n) (commands : List (Command n))
  deriving DecidableEq

namespace Claimant

/-- The slot whose claim the caller owns, until the assignment that uses it up is over. -/
def claim : Claimant n → Option (Fin n)
  | .claimed i | .assigning i _ => some i
  | _ => none

end Claimant

/-- Whether the function that returns from this point has succeeded. -/
def Controller.succeeds : Controller n → Bool
  | .bootWait _ | .bootBlocked _ | .completing _ => true
  | _ => false

/-- `installed` says that the registry holds a main thread and its slots. -/
structure Pool (ι : Type) (n : Nat) where
  system : System n
  installed : Bool
  callers : ι → Claimant n

namespace Pool
variable {ι : Type} [DecidableEq ι]

def init : Pool ι n := ⟨System.init,false,fun _ => .idle⟩

def phpThreads (pool : Pool ι n) : List (Fin n) := if pool.installed then List.finRange n else []

def cIntMax : Nat := 2 ^ 31 - 1

/-- What `init_php_threads` accepts, with the number of slots it is asked for. -/
def accepts (numThreads maxThreads : Nat) : Bool :=
  maxThreads ≠ 0 && maxThreads ≤ cIntMax && numThreads ≤ cIntMax

def turn (pool : Pool ι n) (c : ι) (caller : Claimant n) (system : System n) : Pool ι n :=
  { pool with system, callers := Function.update pool.callers c caller }

def goto (pool : Pool ι n) (c : ι) (caller : Claimant n) : Pool ι n := pool.turn c caller pool.system

/-- The guard goes with the call that ends. -/
def release (pool : Pool ι n) (c : ι) : Pool ι n := pool.turn c .idle { pool.system with scaling := none }

/-- The first steps of a call, up to its first command. An initialization finds new slots. -/
def enter (pool : Pool ι n) (c : ι) : Operation n → Pool ι n
  | .initPhpThreads numThreads =>
    if accepts numThreads n && !pool.installed then
      { pool.turn c (.creating numThreads) (System.init.goto .held) with installed := true }
    else pool.turn c (.locked (some false) []) (pool.system.goto .held)
  | .getInactivePhpThread => pool.turn c (.scanning pool.phpThreads) (pool.system.goto .held)
  | .setHandler i handler => pool.turn c (.locked none [.setHandler i handler]) (pool.system.goto .held)
  | .shutdown i => pool.turn c (.locked none [.shutdown i]) (pool.system.goto .held)
  | .drainPhpThreads =>
    pool.turn c (.locked none (if pool.installed then [.drain] else [])) (pool.system.goto .held)

/-- One step of the command under way; `returned` follows its last one. -/
def drive (pool : Pool ι n) (c : ι) (choice : Choice n) (during : Claimant n) (returned : Bool → Claimant n) :
    Option (Pool ι n) := do
  let controller ← pool.system.scaling
  let system ← pool.system.controllerStep controller choice
  return pool.turn c (if system.scaling = some .held then returned controller.succeeds else during) system

/-- The rest of a function after a command: an initialization drains what it has booted
when a boot fails. -/
def resume (answer : Option Bool) (commands : List (Command n)) (command : Command n) (succeeded : Bool) : Claimant n :=
  match command with
  | .boot _ => if succeeded then .locked answer commands else .locked (some false) [.drain]
  | _ => .locked answer commands

/-- A drain ends by clearing the registry. -/
def cleared (command : Command n) (pool : Pool ι n) : Pool ι n :=
  if command = .drain ∧ pool.system.scaling = some .held then { pool with installed := false } else pool

/-- The next operation of the caller; `none` where it is blocked or its owner decides. -/
def proceed (pool : Pool ι n) (c : ι) (choice : Choice n) : Option (Pool ι n) :=
  match pool.callers c with
  | .idle | .claimed _ => none
  | .scanning [] => some (pool.goto c (.reserving pool.phpThreads))
  | .scanning (i :: left) =>
    some (pool.goto c (if (pool.system.threads i).state.currentState = .inactive then .claimed i else .scanning left))
  | .reserving [] => some (pool.release c)
  | .reserving (i :: left) => do
    let system ← pool.system.start (.claim i)
    return pool.turn c (if system.scaling = some (.bootSwap i) then .booting i else .reserving left) system
  -- a boot that fails ends the search
  | .booting i => pool.drive c choice (.booting i) fun booted => if booted then .claimed i else .reserving []
  | .assigning i handler => pool.drive c choice (.assigning i handler) (.assigned i)
  | .assigned _ _ => some (pool.release c)
  | .creating numThreads =>
    match choice with
    | .launchFails => some { pool.goto c (.locked (some false) []) with installed := false }
    | _ => some (pool.goto c (.locked (some true) (((List.finRange n).take numThreads).map .boot)))
  | .locked _ [] => some (pool.release c)
  | .locked answer (command :: commands) => do
    let system ← pool.system.start command
    return pool.turn c (.commanding answer command commands) system
  | .commanding answer command commands =>
    (pool.drive c choice (.commanding answer command commands) (resume answer commands command)).map (cleared command)

inductive Action (ι : Type) (n : Nat)
  | lock (c : ι) (operation : Operation n)
  | proceed (c : ι) (choice : Choice n)
  | assignHandler (c : ι) (handler : Handler)
  | drop (c : ι)
  | pthread (i : Fin n) (move : Move)
  | mainReserved

def step (action : Action ι n) (pool : Pool ι n) : Option (Pool ι n) :=
  match action with
  | .lock c operation =>
    if pool.callers c = .idle ∧ pool.system.scaling = none then some (pool.enter c operation) else none
  | .proceed c choice => pool.proceed c choice
  | .assignHandler c handler =>
    match pool.callers c with
    | .claimed i => (pool.system.start (.setHandler i handler)).map fun system => pool.turn c (.assigning i handler) system
    | _ => none
  | .drop c =>
    match pool.callers c with
    | .claimed _ => some (pool.release c)
    | _ => none
  | .pthread i move => (pool.system.step (.pthread i move)).map fun system => { pool with system }
  | .mainReserved => (pool.system.step .mainReserved).map fun system => { pool with system }

/-- What a step does to claims and handlers. -/
inductive Event (ι : Type) (n : Nat)
  | handedOut (c : ι) (i : Fin n)
  | exhausted (c : ι)
  | dropped (c : ι) (i : Fin n)
  | installed (i : Fin n) (handler : Handler)
  | assigned (c : ι) (i : Fin n) (assigned : Bool)
  | initialized (c : ι) (initialized : Bool)
  deriving DecidableEq

/-- The handler that the command under way installs in its next step. -/
def installs (pool : Pool ι n) : Option (Event ι n) :=
  pool.system.scaling.bind fun controller =>
    (controller.installs pool.system.inactive).map fun install => .installed install.1 install.2

/-- The event of a step of the caller, from where it stood and where it stands. -/
def heard (pool : Pool ι n) (c : ι) : Claimant n → Claimant n → Option (Event ι n)
  | .scanning _, .claimed i | .booting _, .claimed i => some (.handedOut c i)
  | .reserving [], _ => some (.exhausted c)
  | .assigned i assigned, _ => some (.assigned c i assigned)
  | .locked (some answer) [], _ => some (.initialized c answer)
  | .booting _, _ | .assigning _ _, _ | .commanding _ _ _, _ => pool.installs
  | _, _ => none

def event (action : Action ι n) (pool : Pool ι n) : Option (Event ι n) :=
  match action with
  | .proceed c choice => (pool.proceed c choice).bind fun next => pool.heard c (pool.callers c) (next.callers c)
  | .drop c => (pool.callers c).claim.map fun i => .dropped c i
  | _ => none

end Pool
end Frankenrust.Thread
