import Frankenrust.Library.Threads
import Mathlib.Data.Finset.Basic
import Mathlib.Logic.Relation

/-! The table of all slots, `ContextSlots`, under any number of threads: the lock of the table,
the mutex of each slot and the thread's own flag, each taken and given back in a step of its own.
The table never looks into a context, so their type is open; a poisoned lock is taken like any
other. -/
namespace Frankenrust.Context

inductive Entry (α : Type)
  | set (ctx : α)
  | clear
  | withContext
  | withContextMut

/-- Where a thread is in an entry point. -/
inductive Stage
  | entered
  | guarded
  | reading
  | missing
  | growing
  | waiting (slot : Nat)
  -- the closure runs, or the destructor of the context that is replaced
  | locked (slot : Nat)
  | leaving (slot : Nat)
  | unlocked
  deriving DecidableEq

structure Seat (α : Type) where
  entry : Entry α
  index : Nat
  stage : Stage

/-- What a thread is in, the innermost first: entry points, `catch_unwind`, and destructors
that run while the thread unwinds. -/
inductive Frame (α : Type)
  | call (seat : Seat α)
  | catching
  | dropping

/-- The frame is past its `SingleSlotGuard::acquire`. -/
def Frame.seat {α : Type} : Frame α → Option (Seat α)
  | .call seat => if seat.stage = .entered then none else some seat
  | .catching | .dropping => none

/-- A thread; `holding` is its `HOLDING_SLOT_LOCK`. -/
structure Local (α : Type) where
  frames : List (Frame α)
  holding : Bool
  panicking : Bool

structure Cell (ι α : Type) where
  owner : Option ι
  ctx : Option α

/-- The table gives the cell that an index denotes; a cell once allocated keeps its address. -/
structure ContextSlots (ι α : Type) where
  slots : List Nat
  fresh : Nat
  cells : Nat → Cell ι α
  readers : Finset ι
  writer : Option ι

variable {ι α : Type}

/-- What is written when the entry point is left. -/
def Entry.puts : Entry α → Option (Option α)
  | .set ctx => some (some ctx)
  | .clear => some none
  | .withContext | .withContextMut => none

namespace Local

def idle : Local α := ⟨[],false,false⟩

def inside (thread : Local α) : List (Seat α) := thread.frames.filterMap Frame.seat

/-- The innermost frame, where it is an entry point. -/
def top (thread : Local α) : Option (Seat α) :=
  match thread.frames with
  | .call seat :: _ => some seat
  | _ => none

/-- Code outside the table runs: the caller's, that of a closure or of a destructor. -/
def foreign (thread : Local α) : Bool := thread.top.all fun seat => seat.stage matches .locked _

/-- The closure's argument, as its entry point, its index and its slot. -/
def reach (thread : Local α) : Option (Entry α × Nat × Nat) :=
  match thread.inside.head? with
  | some ⟨entry,index,.locked slot⟩ => if entry.puts.isNone ∧ thread.foreign ∧ ¬thread.panicking then some (entry,index,slot) else none
  | _ => none

def push (thread : Local α) (frame : Frame α) : Local α := { thread with frames := frame :: thread.frames }

end Local

namespace ContextSlots

def new : ContextSlots ι α := ⟨[],0,fun _ => ⟨none,none⟩,∅,none⟩

def modify (slots : ContextSlots ι α) (slot : Nat) (change : Cell ι α → Cell ι α) : ContextSlots ι α :=
  { slots with cells := Function.update slots.cells slot (change (slots.cells slot)) }

def own (slots : ContextSlots ι α) (slot : Nat) (owner : Option ι) : ContextSlots ι α :=
  slots.modify slot fun cell => { cell with owner }

def change (slots : ContextSlots ι α) (slot : Nat) (f : Option α → Option α) : ContextSlots ι α :=
  slots.modify slot fun cell => { cell with ctx := f cell.ctx }

/-- `slots.push(Arc::new(Mutex::new(None)))`. -/
def push (slots : ContextSlots ι α) : ContextSlots ι α :=
  { slots with
    slots := slots.slots ++ [slots.fresh]
    fresh := slots.fresh + 1
    cells := Function.update slots.cells slots.fresh ⟨none,none⟩ }

variable [DecidableEq ι]

/-- The next step of an entry point; none where the thread waits for a lock. -/
def proceed (slots : ContextSlots ι α) (i : ι) (thread : Local α) (seat : Seat α) (below : List (Frame α)) :
    Option (ContextSlots ι α × Local α) :=
  let returned : Local α := { thread with frames := below }
  let goto (stage : Stage) : Local α := { thread with frames := .call { seat with stage } :: below }
  match seat.stage with
  | .entered =>
    if thread.panicking then some (slots,returned)
    else if thread.holding then some (slots,{ thread with panicking := true })
    else some (slots,{ goto .guarded with holding := true })
  | .guarded =>
    if slots.writer = none then some ({ slots with readers := insert i slots.readers },goto .reading) else none
  | .reading =>
    some ({ slots with readers := slots.readers.erase i },goto ((slots.slots[seat.index]?).elim .missing .waiting))
  | .missing =>
    if slots.writer = none ∧ slots.readers = ∅ then some ({ slots with writer := some i },goto .growing) else none
  | .growing =>
    if thread.panicking then some ({ slots with writer := none },goto .unlocked)
    else match slots.slots[seat.index]? with
      | none => some (slots.push,thread)
      | some slot => some ({ slots with writer := none },goto (.waiting slot))
  | .waiting slot => if (slots.cells slot).owner = none then some (slots.own slot (some i),goto (.locked slot)) else none
  | .locked slot => some (slots.change slot seat.entry.puts.getD,goto (.leaving slot))
  | .leaving slot => some (slots.own slot none,goto .unlocked)
  | .unlocked => some (slots,{ returned with holding := false })

end ContextSlots

abbrev Table (ι α : Type) := Threads ι (ContextSlots ι α) (Local α)

namespace Table

/-- What a thread may do; what a closure or a destructor does is open. -/
inductive Action (α : Type)
  | enter (entry : Entry α) (index : Nat)
  | catchUnwind
  | destruct
  | look
  | change (f : α → α)
  | panic
  | proceed

variable [DecidableEq ι]

/-- One step of a thread. A panic that leaves a destructor aborts the process, after which
there is no step. -/
def turn (i : ι) (action : Action α) (slots : ContextSlots ι α) (thread : Local α) : Option (ContextSlots ι α × Local α) :=
  match action with
  | .enter entry index =>
    if thread.foreign ∧ ¬thread.panicking then some (slots,thread.push (.call ⟨entry,index,.entered⟩)) else none
  | .catchUnwind => if thread.foreign ∧ ¬thread.panicking then some (slots,thread.push .catching) else none
  | .destruct =>
    -- what was handed to an entry point that panics goes too
    if thread.panicking ∧ (thread.foreign ∨ thread.top.any (·.stage = .entered)) then
      some (slots,{ thread.push .dropping with panicking := false })
    else none
  | .look => thread.reach.map fun _ => (slots,thread)
  | .change f =>
    match thread.reach with
    | some (.withContextMut,_,slot) => some (slots.change slot (Option.map f),thread)
    | _ => none
  | .panic =>
    -- the table may not hold as many slots
    if ¬thread.panicking ∧ (thread.foreign ∨ thread.top.any (·.stage = .growing)) then
      some (slots,{ thread with panicking := true })
    else none
  | .proceed =>
    match thread.frames with
    | [] => none
    | .call seat :: below => slots.proceed i thread seat below
    | .catching :: below => some (slots,{ thread with frames := below, panicking := false })
    | .dropping :: below => if thread.panicking then none else some (slots,{ thread with frames := below, panicking := true })

inductive Event (ι α : Type)
  | put (index : Nat) (ctx : Option α)
  | changed (index : Nat) (f : α → α)
  | saw (i : ι) (index : Nat) (ctx : Option α)

def event (i : ι) (action : Action α) (slots : ContextSlots ι α) (thread : Local α) : Option (Event ι α) :=
  match action with
  | .look => thread.reach.map fun reached => .saw i reached.2.1 (slots.cells reached.2.2).ctx
  | .change f => thread.reach.map fun reached => .changed reached.2.1 f
  | .proceed =>
    match thread.top with
    | some ⟨entry,index,.locked _⟩ => entry.puts.map (.put index)
    | _ => none
  | .enter _ _ | .catchUnwind | .destruct | .panic => none

/-- What is at an index after an event. -/
def Event.apply (index : Nat) (ctx : Option α) : Event ι α → Option α
  | .put other next => if other = index then next else ctx
  | .changed other f => if other = index then ctx.map f else ctx
  | .saw _ _ _ => ctx

/-- The last set or clear of an index with the changes since. -/
def latest (index : Nat) (events : List (Event ι α)) : Option α := events.foldl (Event.apply index) none

abbrev step : ι × Action α → Table ι α → Option (Table ι α) := Threads.step turn

def start : Table ι α := ⟨.new,fun _ => .idle⟩

end Table
end Frankenrust.Context
