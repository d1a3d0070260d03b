import Frankenrust.Library.Release
import Frankenrust.Library.Threads
import Mathlib.Data.Finset.Basic

/-! The kill slots that C hands over: `store_force_kill_slot`, `clear_force_kill_slot` and
`send_kill_signal` on any threads, each call in steps of its own around the `RwLock` of its
`PhpThread`. A slot is told by its number, in the order in which C hands them in. -/
namespace Frankenrust.Thread.ForceKill

/-- `RwLock<Option<StoredForceKillSlot>>`. -/
structure Cell (ι : Type) where
  readers : Finset ι
  writer : Option ι
  slot : Option Nat

/-- The `PhpThread` at each index, and the lock of each. -/
structure Registry (ι ο : Type) where
  threads : Nat → Option ο
  cells : ο → Cell ι
  handed : Nat

inductive Caller (ο : Type)
  | idle
  -- `go_frankenphp_store_force_kill_slot`
  | supplied (threadIndex slot : Nat)
  | refusing (slot : Nat)
  | storing (thread : ο) (slot : Nat)
  | taking (thread : ο) (slot : Nat)
  | replacing (thread : ο) (previous slot : Nat)
  | putting (thread : ο) (slot : Nat)
  -- `go_frankenphp_clear_force_kill_slot`
  | clearing (threadIndex : Nat)
  | emptying (thread : ο)
  | removing (thread : ο)
  | discarding (thread : ο) (previous : Nat)
  | written (thread : ο)
  -- `send_kill_signal`
  | signalling (thread : ο)
  | looking (thread : ο)
  | killing (thread : ο) (slot : Nat)
  | seen (thread : ο)
  deriving DecidableEq

inductive Action (ο : Type)
  | store (threadIndex : Nat)
  | clear (threadIndex : Nat)
  | sendKillSignal (thread : ο)
  -- `init_php_threads` or a drain puts another registry in place
  | install (threads : Nat → Option ο)
  | proceed

inductive Event
  | handed (slot : Nat)
  | refused (slot : Nat)
  | replaced (slot : Nat)
  | cleared (slot : Nat)
  -- `frankenphp_release_thread_for_kill`
  | released (slot : Nat)
  -- `frankenphp_force_kill_thread`, as it is entered and as it is left
  | kills (slot : Nat)
  | killed (slot : Nat)
  deriving DecidableEq

variable {ι ο : Type} [DecidableEq ι] [DecidableEq ο]

namespace Cell

def read (cell : Cell ι) (i : ι) : Option (Cell ι) :=
  if cell.writer = none then some { cell with readers := insert i cell.readers } else none

def unread (cell : Cell ι) (i : ι) : Cell ι := { cell with readers := cell.readers.erase i }

def write (cell : Cell ι) (i : ι) : Option (Cell ι) :=
  if cell.writer = none ∧ cell.readers = ∅ then some { cell with writer := some i } else none

def unwrite (cell : Cell ι) : Cell ι := { cell with writer := none }

end Cell

namespace Registry

def new : Registry ι ο := ⟨fun _ => none,fun _ => ⟨∅,none,none⟩,0⟩

def update (registry : Registry ι ο) (thread : ο) (cell : Cell ι) : Registry ι ο :=
  { registry with cells := Function.update registry.cells thread cell }

def put (registry : Registry ι ο) (thread : ο) (slot : Option Nat) : Registry ι ο :=
  registry.update thread { registry.cells thread with slot }

variable {registry : Registry ι ο} {thread other : ο} {slot : Option Nat} {cell : Cell ι}

omit [DecidableEq ι]

@[simp] theorem handed_put : (registry.put thread slot).handed = registry.handed := rfl
@[simp] theorem handed_update : (registry.update thread cell).handed = registry.handed := rfl

theorem cells_update : (registry.update thread cell).cells other = if other = thread then cell else registry.cells other :=
  Function.update_apply ..

@[simp] theorem slot_put : ((registry.put thread slot).cells other).slot =
    if other = thread then slot else (registry.cells other).slot := by
  rw [put,cells_update]
  split <;> rfl

@[simp] theorem writer_put : ((registry.put thread slot).cells other).writer = (registry.cells other).writer := by
  rw [put,cells_update]
  split
  next same => rw [same]
  next => rfl

@[simp] theorem readers_put : ((registry.put thread slot).cells other).readers = (registry.cells other).readers := by
  rw [put,cells_update]
  split
  next same => rw [same]
  next => rfl

end Registry

/-- One step of a call; a caller waits where it cannot have the lock. -/
def proceed (i : ι) (registry : Registry ι ο) : Caller ο → Option (Registry ι ο × Caller ο)
  | .idle => none
  | .supplied threadIndex slot =>
    match registry.threads threadIndex with
    | none => some (registry,.refusing slot)
    | some thread => some (registry,.storing thread slot)
  | .refusing _ => some (registry,.idle)
  | .storing thread slot => ((registry.cells thread).write i).map fun cell => (registry.update thread cell,.taking thread slot)
  | .taking thread slot =>
    match (registry.cells thread).slot with
    | some previous => some (registry.put thread none,.replacing thread previous slot)
    | none => some (registry,.putting thread slot)
  | .replacing thread _ slot => some (registry,.putting thread slot)
  | .putting thread slot => some (registry.put thread (some slot),.written thread)
  | .clearing threadIndex =>
    match registry.threads threadIndex with
    | none => some (registry,.idle)
    | some thread => some (registry,.emptying thread)
  | .emptying thread => ((registry.cells thread).write i).map fun cell => (registry.update thread cell,.removing thread)
  | .removing thread =>
    match (registry.cells thread).slot with
    | some previous => some (registry.put thread none,.discarding thread previous)
    | none => some (registry,.written thread)
  | .discarding thread _ => some (registry,.written thread)
  | .written thread => some (registry.update thread (registry.cells thread).unwrite,.idle)
  | .signalling thread => ((registry.cells thread).read i).map fun cell => (registry.update thread cell,.looking thread)
  | .looking thread =>
    match (registry.cells thread).slot with
    | some slot => some (registry,.killing thread slot)
    | none => some (registry,.seen thread)
  | .killing thread _ => some (registry,.seen thread)
  | .seen thread => some (registry.update thread ((registry.cells thread).unread i),.idle)

def turn (i : ι) (action : Action ο) (registry : Registry ι ο) (caller : Caller ο) : Option (Registry ι ο × Caller ο) :=
  match action,caller with
  | .store threadIndex,.idle => some ({ registry with handed := registry.handed + 1 },.supplied threadIndex registry.handed)
  | .clear threadIndex,.idle => some (registry,.clearing threadIndex)
  | .sendKillSignal thread,.idle => some (registry,.signalling thread)
  | .install threads,.idle => some ({ registry with threads },.idle)
  | .proceed,caller => proceed i registry caller
  | _,_ => none

def event (_ : ι) (action : Action ο) (registry : Registry ι ο) (caller : Caller ο) : Option Event :=
  match action,caller with
  | .store _,.idle => some (.handed registry.handed)
  | .proceed,.supplied threadIndex slot => if registry.threads threadIndex = none then some (.refused slot) else none
  | .proceed,.refusing slot => some (.released slot)
  | .proceed,.taking thread _ => (registry.cells thread).slot.map .replaced
  | .proceed,.replacing _ previous _ => some (.released previous)
  | .proceed,.removing thread => (registry.cells thread).slot.map .cleared
  | .proceed,.discarding _ previous => some (.released previous)
  | .proceed,.looking thread => (registry.cells thread).slot.map .kills
  | .proceed,.killing _ slot => some (.killed slot)
  | _,_ => none

/-- What an event is for a slot. -/
def Event.step (slot : Nat) : Event → Option Release.Step
  | .handed other => if other = slot then some .acquire else none
  | .refused other | .replaced other | .cleared other => if other = slot then some .retire else none
  | .released other => if other = slot then some .release else none
  | .kills other | .killed other => if other = slot then some .use else none

def steps (slot : Nat) (past : List Event) : List Release.Step := past.filterMap (Event.step slot)

namespace Caller

/-- The slot that a call has from C and has not stored yet. -/
def carries : Caller ο → Option Nat
  | .supplied _ slot | .storing _ slot | .taking _ slot | .replacing _ _ slot | .putting _ slot => some slot
  | _ => none

/-- The slot that a call releases next. -/
def releases : Caller ο → Option Nat
  | .refusing slot | .replacing _ slot _ | .discarding _ slot => some slot
  | _ => none

/-- Whose write lock the call holds. -/
def writes : Caller ο → Option ο
  | .taking thread _ | .replacing thread _ _ | .putting thread _ | .removing thread | .discarding thread _ | .written thread =>
    some thread
  | _ => none

def reads : Caller ο → Option ο
  | .looking thread | .killing thread _ | .seen thread => some thread
  | _ => none

/-- Whose slot the call has found empty, or emptied. -/
def emptied : Caller ο → Option ο
  | .replacing thread _ _ | .putting thread _ => some thread
  | _ => none

end Caller

inductive Place (ι ο : Type)
  | unborn
  | carried (i : ι)
  | stored (thread : ο)
  | retired (i : ι)
  | gone
  deriving DecidableEq

def Place.stage : Place ι ο → Release.Stage
  | .unborn => .unborn
  | .carried _ | .stored _ => .live
  | .retired _ => .retired
  | .gone => .released

structure Known (place : Nat → Place ι ο) (past : List Event) (registry : Registry ι ο) : Prop where
  told : ∀ slot, Release.Told (steps slot past) (place slot).stage
  born : ∀ slot, place slot = .unborn ↔ registry.handed ≤ slot
  stored : ∀ thread slot, place slot = .stored thread ↔ (registry.cells thread).slot = some slot
  exclusive : ∀ thread i, (registry.cells thread).writer = some i → (registry.cells thread).readers = ∅

structure Fits (place : Nat → Place ι ο) (registry : Registry ι ο) (i : ι) (caller : Caller ο) : Prop where
  carries : ∀ slot, place slot = .carried i ↔ caller.carries = some slot
  releases : ∀ slot, place slot = .retired i ↔ caller.releases = some slot
  writes : ∀ thread, (registry.cells thread).writer = some i ↔ caller.writes = some thread
  reads : ∀ thread, i ∈ (registry.cells thread).readers ↔ caller.reads = some thread
  emptied : ∀ thread, caller.emptied = some thread → (registry.cells thread).slot = none
  -- the slot stays where the killer has found it
  aimed : ∀ thread slot, caller = .killing thread slot → (registry.cells thread).slot = some slot

section Turns
variable {ι ο : Type} {place : Nat → Place ι ο} {past : List Event}

theorem told_event {slot : Nat} {step : Release.Step} {event : Event} {goes : Place ι ο}
    (told : ∀ slot, Release.Told (steps slot past) (place slot).stage)
    (about : ∀ other, event.step other = if slot = other then some step else none)
    (advanced : Release.advance step (place slot).stage = some goes.stage) (other : Nat) :
    Release.Told (steps other (past ++ [event])) (Function.update place slot goes other).stage := by
  have split : steps other (past ++ [event]) = steps other past ++ (event.step other).toList := by
    rw [steps,steps,List.filterMap_append]
    cases found : event.step other <;> simp [found]
  rw [split,about]
  by_cases same : slot = other
  · subst same
    simpa using Release.told_snoc (told slot) advanced
  · simpa [same,Function.update_of_ne (Ne.symm same)] using told other

variable {registry after : Registry ι ο} {i : ι} {caller next : Caller ο} {thread : ο} {slot : Nat} {event : Event}

/-- What a turn leaves behind: what is known, its own caller's part and those of the others. -/
def Kept (place : Nat → Place ι ο) (past : List Event) (registry after : Registry ι ο) (i : ι) (next : Caller ο) : Prop :=
  ∃ place', Known place' past after ∧ Fits place' after i next ∧
    ∀ j other, j ≠ i → Fits place registry j other → Fits place' after j other

theorem store_kept (known : Known place past registry) (fits : Fits place registry i .idle) (threadIndex : Nat) :
    Kept place (past ++ [.handed registry.handed]) registry { registry with handed := registry.handed + 1 } i
      (.supplied threadIndex registry.handed) := by
  have unborn := (known.born registry.handed).mpr (Nat.le_refl _)
  refine ⟨Function.update place registry.handed (.carried i),⟨?_,?_,?_,known.exclusive⟩,
    ⟨?_,?_,fits.writes,fits.reads,nofun,nofun⟩,?_⟩
  · exact told_event known.told (fun _ => rfl) (by rw [unborn]; rfl)
  · grind [Function.update_apply,Known]
  · grind [Function.update_apply,Known]
  · grind [Function.update_apply,Fits,Caller.carries]
  · grind [Function.update_apply,Fits,Caller.releases]
  · rintro j other apart ⟨carries,releases,writes,reads,emptied,aimed⟩
    refine ⟨?_,?_,writes,reads,emptied,aimed⟩
    · grind [Function.update_apply]
    · grind [Function.update_apply]

/-- The caller goes on with the same slots and locks. -/
theorem quiet_kept (known : Known place past registry) (fits : Fits place registry i caller)
    (cells : after.cells = registry.cells) (handed : after.handed = registry.handed)
    (views : next.carries = caller.carries ∧ next.releases = caller.releases ∧ next.writes = caller.writes ∧ next.reads = caller.reads)
    (emptied : ∀ thread, next.emptied = some thread → (registry.cells thread).slot = none)
    (aimed : ∀ thread slot, next = .killing thread slot → (registry.cells thread).slot = some slot) :
    Kept place past registry after i next := by
  obtain ⟨carries,releases,writes,reads⟩ := views
  refine ⟨place,⟨known.told,?_,?_,?_⟩,⟨?_,?_,?_,?_,?_,?_⟩,?_⟩
  · simpa [handed] using known.born
  · simpa [cells] using known.stored
  · simpa [cells] using known.exclusive
  · simpa [carries] using fits.carries
  · simpa [releases] using fits.releases
  · simpa [cells,writes] using fits.writes
  · simpa [cells,reads] using fits.reads
  · simpa [cells] using emptied
  · simpa [cells] using aimed
  · rintro j other _ ⟨carries,releases,writes,reads,emptied,aimed⟩
    exact ⟨carries,releases,by simpa [cells] using writes,by simpa [cells] using reads,by simpa [cells] using emptied,
      by simpa [cells] using aimed⟩

theorem refuse_kept (known : Known place past registry) {threadIndex : Nat}
    (fits : Fits place registry i (.supplied threadIndex slot)) :
    Kept place (past ++ [.refused slot]) registry registry i (.refusing slot) := by
  have carried := (fits.carries slot).mpr rfl
  refine ⟨Function.update place slot (.retired i),⟨?_,?_,?_,known.exclusive⟩,
    ⟨?_,?_,fits.writes,fits.reads,nofun,nofun⟩,?_⟩
  · exact told_event known.told (fun _ => rfl) (by rw [carried]; rfl)
  · grind [Function.update_apply,Known]
  · grind [Function.update_apply,Known]
  · grind [Function.update_apply,Fits,Caller.carries]
  · grind [Function.update_apply,Fits,Caller.releases]
  · rintro j other apart ⟨carries,releases,writes,reads,emptied,aimed⟩
    refine ⟨?_,?_,writes,reads,emptied,aimed⟩
    · grind [Function.update_apply]
    · grind [Function.update_apply]

theorem release_kept (known : Known place past registry) (fits : Fits place registry i caller)
    (retired : caller.releases = some slot) (done : next.releases = none)
    (views : next.carries = caller.carries ∧ next.writes = caller.writes ∧ next.reads = caller.reads)
    (emptied : ∀ thread, next.emptied = some thread → caller.emptied = some thread)
    (aimed : ∀ thread slot, next ≠ .killing thread slot) :
    Kept place (past ++ [.released slot]) registry registry i next := by
  have leaves := (fits.releases slot).mpr retired
  obtain ⟨carries,writes,reads⟩ := views
  refine ⟨Function.update place slot .gone,⟨?_,?_,?_,known.exclusive⟩,⟨?_,?_,?_,?_,?_,?_⟩,?_⟩
  · exact told_event known.told (fun _ => rfl) (by rw [leaves]; rfl)
  · grind [Function.update_apply,Known]
  · grind [Function.update_apply,Known]
  · grind [Function.update_apply,Fits]
  · grind [Function.update_apply,Fits]
  · simpa [writes] using fits.writes
  · simpa [reads] using fits.reads
  · exact fun thread found => fits.emptied thread (emptied thread found)
  · exact fun thread slot found => absurd found (aimed thread slot)
  · rintro j other apart ⟨carries,releases,writes,reads,emptied,aimed⟩
    refine ⟨?_,?_,writes,reads,emptied,aimed⟩
    · grind [Function.update_apply]
    · grind [Function.update_apply]

theorem use_kept (kept : Kept place past registry registry i next) (held : (registry.cells thread).slot = some slot)
    (about : ∀ other, event.step other = if slot = other then some .use else none) :
    Kept place (past ++ [event]) registry registry i next := by
  obtain ⟨place',known,fits,others⟩ := kept
  have stored := (known.stored thread slot).mpr held
  have told : ∀ other, Release.Told (steps other (past ++ [event])) (Function.update place' slot (.stored thread) other).stage :=
    told_event known.told about (by rw [stored]; rfl)
  rw [← stored,Function.update_eq_self] at told
  exact ⟨place',⟨told,known.born,known.stored,known.exclusive⟩,fits,others⟩

variable [DecidableEq ο]

/-- What is stored is taken away under the write lock of its thread. -/
theorem take_kept (known : Known place past registry) (fits : Fits place registry i caller)
    (held : (registry.cells thread).slot = some slot) (about : ∀ other, event.step other = if slot = other then some .retire else none)
    (writes : caller.writes = some thread) (releases : caller.releases = none)
    (views : next.carries = caller.carries ∧ next.writes = caller.writes ∧ next.reads = caller.reads)
    (retires : next.releases = some slot) (emptied : ∀ other, next.emptied = some other → other = thread)
    (aimed : ∀ thread slot, next ≠ .killing thread slot) :
    Kept place (past ++ [event]) registry (registry.put thread none) i next := by
  have stored := (known.stored thread slot).mpr held
  have mine := (fits.writes thread).mpr writes
  obtain ⟨carries,locks,reads⟩ := views
  refine ⟨Function.update place slot (.retired i),⟨?_,?_,?_,?_⟩,⟨?_,?_,?_,?_,?_,?_⟩,?_⟩
  · exact told_event known.told about (by rw [stored]; rfl)
  · grind [Function.update_apply,Known,Registry.handed_put]
  · grind [Function.update_apply,Known,Registry.slot_put]
  · simpa using known.exclusive
  · grind [Function.update_apply,Fits]
  · grind [Function.update_apply,Fits]
  · simpa [locks] using fits.writes
  · simpa [reads] using fits.reads
  · grind [Registry.slot_put]
  · exact fun other slot aimed' => absurd aimed' (aimed other slot)
  · rintro j other apart ⟨carries,releases,writes,reads,emptied,aimed⟩
    -- the write lock keeps killers off
    have alone : ∀ slot, other ≠ .killing thread slot := by
      rintro slot rfl
      have none := known.exclusive thread i mine
      have inside := (reads thread).mpr rfl
      simp [none] at inside
    refine ⟨?_,?_,by simpa using writes,by simpa using reads,?_,?_⟩
    · grind [Function.update_apply]
    · grind [Function.update_apply]
    · grind [Registry.slot_put]
    · grind [Registry.slot_put]

theorem put_kept (known : Known place past registry) (fits : Fits place registry i (.putting thread slot)) :
    Kept place past registry (registry.put thread (some slot)) i (.written thread) := by
  have carried := (fits.carries slot).mpr rfl
  have free := fits.emptied thread rfl
  have mine := (fits.writes thread).mpr rfl
  refine ⟨Function.update place slot (.stored thread),⟨?_,?_,?_,?_⟩,⟨?_,?_,?_,?_,nofun,nofun⟩,?_⟩
  · intro other
    have told := known.told other
    by_cases same : other = slot
    · subst same
      rw [carried] at told
      rwa [Function.update_self]
    · simpa [same] using told
  · grind [Function.update_apply,Known,Registry.handed_put]
  · grind [Function.update_apply,Known,Registry.slot_put]
  · simpa using known.exclusive
  · grind [Function.update_apply,Fits,Caller.carries]
  · grind [Function.update_apply,Fits,Caller.releases]
  · simpa [Caller.writes] using fits.writes
  · simpa [Caller.reads] using fits.reads
  · rintro j other apart ⟨carries,releases,writes,reads,emptied,aimed⟩
    have alone : other.emptied ≠ some thread := by
      intro also
      have locked : other.writes = some thread := by cases other <;> simp_all [Caller.emptied,Caller.writes]
      have theirs := (writes thread).mpr locked
      exact apart (Option.some.inj (theirs.symm.trans mine))
    refine ⟨?_,?_,by simpa using writes,by simpa using reads,?_,?_⟩
    · grind [Function.update_apply]
    · grind [Function.update_apply]
    · grind [Registry.slot_put]
    · grind [Registry.slot_put]

/-- The caller takes or drops a guard: its slot stays, and so do the guards of the others. -/
theorem guard_kept {cell : Cell ι} (known : Known place past registry) (fits : Fits place registry i caller)
    (slots : cell.slot = (registry.cells thread).slot)
    (others : ∀ j, j ≠ i → (cell.writer = some j ↔ (registry.cells thread).writer = some j) ∧
      (j ∈ cell.readers ↔ j ∈ (registry.cells thread).readers))
    (exclusive : ∀ j, cell.writer = some j → cell.readers = ∅)
    (views : next.carries = caller.carries ∧ next.releases = caller.releases)
    (writes : (cell.writer = some i ↔ next.writes = some thread) ∧
      ∀ other, other ≠ thread → (next.writes = some other ↔ caller.writes = some other))
    (reads : (i ∈ cell.readers ↔ next.reads = some thread) ∧
      ∀ other, other ≠ thread → (next.reads = some other ↔ caller.reads = some other))
    (emptied : next.emptied = none) (aimed : ∀ thread slot, next ≠ .killing thread slot) :
    Kept place past registry (registry.update thread cell) i next := by
  have stays : ∀ other, ((registry.update thread cell).cells other).slot = (registry.cells other).slot := by
    intro other
    rw [Registry.cells_update]
    split
    next same => rw [same,slots]
    next => rfl
  refine ⟨place,⟨known.told,known.born,?_,?_⟩,⟨?_,?_,?_,?_,?_,?_⟩,?_⟩
  · simpa [stays] using known.stored
  · intro other
    rw [Registry.cells_update]
    split
    · exact exclusive
    · exact known.exclusive other
  · simpa [views.1] using fits.carries
  · simpa [views.2] using fits.releases
  · intro other
    rw [Registry.cells_update]
    split
    next same => exact same ▸ writes.1
    next apart => exact (fits.writes other).trans (writes.2 other apart).symm
  · intro other
    rw [Registry.cells_update]
    split
    next same => exact same ▸ reads.1
    next apart => exact (fits.reads other).trans (reads.2 other apart).symm
  · simp [emptied]
  · exact fun thread slot found => absurd found (aimed thread slot)
  · rintro j other apart ⟨carries,releases,writes,reads,emptied,aimed⟩
    obtain ⟨writer,reader⟩ := others j apart
    refine ⟨carries,releases,?_,?_,by simpa [stays] using emptied,by simpa [stays] using aimed⟩
    · intro other
      rw [Registry.cells_update]
      split
      next same => exact writer.trans (same ▸ writes other)
      next => exact writes other
    · intro other
      rw [Registry.cells_update]
      split
      next same => exact reader.trans (same ▸ reads other)
      next => exact reads other

theorem unwrite_kept (known : Known place past registry) (fits : Fits place registry i (.written thread)) :
    Kept place past registry (registry.update thread (registry.cells thread).unwrite) i .idle := by
  have mine := (fits.writes thread).mpr rfl
  refine guard_kept known fits rfl ?_ nofun ⟨rfl,rfl⟩ ⟨by simp [Cell.unwrite,Caller.writes],?_⟩ ⟨fits.reads thread,by simp [Caller.reads]⟩
    rfl nofun
  · intro j apart
    simp [Cell.unwrite,mine,Ne.symm apart]
  · intro other apart
    simp [Caller.writes,Ne.symm apart]

variable [DecidableEq ι]

theorem write_kept {cell : Cell ι} (known : Known place past registry) (fits : Fits place registry i caller)
    (locked : (registry.cells thread).write i = some cell)
    (views : next.carries = caller.carries ∧ next.releases = caller.releases ∧ next.reads = caller.reads)
    (writes : caller.writes = none ∧ next.writes = some thread) (emptied : next.emptied = none)
    (aimed : ∀ thread slot, next ≠ .killing thread slot) : Kept place past registry (registry.update thread cell) i next := by
  rw [Cell.write,Option.ite_none_right_eq_some] at locked
  obtain ⟨⟨free,none⟩,taken⟩ := locked
  cases taken
  obtain ⟨carries,releases,reads⟩ := views
  refine guard_kept known fits rfl ?_ (fun _ _ => none) ⟨carries,releases⟩ ⟨by simp [writes.2],?_⟩ ⟨?_,by simp [reads]⟩ emptied aimed
  · intro j apart
    simp [free,Ne.symm apart]
  · intro other apart
    simp [writes,Ne.symm apart]
  · rw [reads]
    exact fits.reads thread

theorem read_kept {cell : Cell ι} (known : Known place past registry) (fits : Fits place registry i (.signalling thread))
    (locked : (registry.cells thread).read i = some cell) :
    Kept place past registry (registry.update thread cell) i (.looking thread) := by
  rw [Cell.read,Option.ite_none_right_eq_some] at locked
  obtain ⟨free,taken⟩ := locked
  cases taken
  refine guard_kept known fits rfl ?_ ?_ ⟨rfl,rfl⟩ ⟨by simp [free,Caller.writes],by simp [Caller.writes]⟩
    ⟨by simp [Caller.reads],?_⟩ rfl nofun
  · intro j apart
    simp [apart]
  · simp [free]
  · intro other apart
    simp [Caller.reads,Ne.symm apart]

theorem unread_kept (known : Known place past registry) (fits : Fits place registry i (.seen thread)) :
    Kept place past registry (registry.update thread ((registry.cells thread).unread i)) i .idle := by
  refine guard_kept known fits rfl ?_ ?_ ⟨rfl,rfl⟩ ⟨fits.writes thread,by simp [Caller.writes]⟩
    ⟨by simp [Cell.unread,Caller.reads],?_⟩ rfl nofun
  · intro j apart
    simp [Cell.unread,apart]
  · intro j held
    have none := known.exclusive thread j held
    simp [Cell.unread,none]
  · intro other apart
    simp [Caller.reads,Ne.symm apart]

omit [DecidableEq ι] [DecidableEq ο]

theorem kept_silent {happened : Option Event} (silent : happened = none) (kept : Kept place past registry after i next) :
    Kept place (past ++ happened.toList) registry after i next := by
  simpa [silent] using kept

theorem kept_event {happened : Option Event} (happens : happened = some event)
    (kept : Kept place (past ++ [event]) registry after i next) : Kept place (past ++ happened.toList) registry after i next := by
  simpa [happens] using kept

end Turns

section Calls
variable {ι ο : Type} [DecidableEq ι] [DecidableEq ο] {place : Nat → Place ι ο} {past : List Event}
  {registry after : Registry ι ο} {i : ι} {caller next : Caller ο}

theorem proceed_kept (known : Known place past registry) (fits : Fits place registry i caller)
    (proceeds : proceed i registry caller = some (after,next)) :
    Kept place (past ++ (event i .proceed registry caller).toList) registry after i next := by
  cases caller with
  | idle => contradiction
  | supplied threadIndex slot =>
    cases found : registry.threads threadIndex with
    | none =>
      simp only [proceed,found,Option.some.injEq,Prod.mk.injEq] at proceeds
      obtain ⟨rfl,rfl⟩ := proceeds
      exact kept_event (by simp [event,found]) (refuse_kept known fits)
    | some thread =>
      simp only [proceed,found,Option.some.injEq,Prod.mk.injEq] at proceeds
      obtain ⟨rfl,rfl⟩ := proceeds
      exact kept_silent (by simp [event,found]) (quiet_kept known fits rfl rfl ⟨rfl,rfl,rfl,rfl⟩ nofun nofun)
  | refusing slot =>
    cases proceeds
    exact release_kept known fits rfl rfl ⟨rfl,rfl,rfl⟩ nofun nofun
  | storing thread slot =>
    obtain ⟨cell,locked,taken⟩ := Option.map_eq_some_iff.mp proceeds
    cases taken
    exact kept_silent rfl (write_kept known fits locked ⟨rfl,rfl,rfl⟩ ⟨rfl,rfl⟩ rfl nofun)
  | taking thread slot =>
    cases held : (registry.cells thread).slot with
    | none =>
      simp only [proceed,held,Option.some.injEq,Prod.mk.injEq] at proceeds
      obtain ⟨rfl,rfl⟩ := proceeds
      have empty : ∀ other, (Caller.putting thread slot).emptied = some other → (registry.cells other).slot = none := by
        rintro _ ⟨⟩
        exact held
      exact kept_silent (by simp [event,held]) (quiet_kept known fits rfl rfl ⟨rfl,rfl,rfl,rfl⟩ empty nofun)
    | some previous =>
      simp only [proceed,held,Option.some.injEq,Prod.mk.injEq] at proceeds
      obtain ⟨rfl,rfl⟩ := proceeds
      have emptied : ∀ other, (Caller.replacing thread previous slot).emptied = some other → other = thread := by
        rintro _ ⟨⟩
        rfl
      have happens : event i .proceed registry (.taking thread slot) = some (.replaced previous) := by simp [event,held]
      exact kept_event happens (take_kept known fits held (fun _ => rfl) rfl rfl ⟨rfl,rfl,rfl⟩ rfl emptied nofun)
  | replacing thread previous slot =>
    cases proceeds
    exact release_kept known fits rfl rfl ⟨rfl,rfl,rfl⟩ (fun _ => id) nofun
  | putting thread slot =>
    cases proceeds
    exact kept_silent rfl (put_kept known fits)
  | clearing threadIndex =>
    cases found : registry.threads threadIndex with
    | none =>
      simp only [proceed,found,Option.some.injEq,Prod.mk.injEq] at proceeds
      obtain ⟨rfl,rfl⟩ := proceeds
      exact kept_silent rfl (quiet_kept known fits rfl rfl ⟨rfl,rfl,rfl,rfl⟩ nofun nofun)
    | some thread =>
      simp only [proceed,found,Option.some.injEq,Prod.mk.injEq] at proceeds
      obtain ⟨rfl,rfl⟩ := proceeds
      exact kept_silent rfl (quiet_kept known fits rfl rfl ⟨rfl,rfl,rfl,rfl⟩ nofun nofun)
  | emptying thread =>
    obtain ⟨cell,locked,taken⟩ := Option.map_eq_some_iff.mp proceeds
    cases taken
    exact kept_silent rfl (write_kept known fits locked ⟨rfl,rfl,rfl⟩ ⟨rfl,rfl⟩ rfl nofun)
  | removing thread =>
    cases held : (registry.cells thread).slot with
    | none =>
      simp only [proceed,held,Option.some.injEq,Prod.mk.injEq] at proceeds
      obtain ⟨rfl,rfl⟩ := proceeds
      exact kept_silent (by simp [event,held]) (quiet_kept known fits rfl rfl ⟨rfl,rfl,rfl,rfl⟩ nofun nofun)
    | some previous =>
      simp only [proceed,held,Option.some.injEq,Prod.mk.injEq] at proceeds
      obtain ⟨rfl,rfl⟩ := proceeds
      have happens : event i .proceed registry (.removing thread) = some (.cleared previous) := by simp [event,held]
      exact kept_event happens (take_kept known fits held (fun _ => rfl) rfl rfl ⟨rfl,rfl,rfl⟩ rfl nofun nofun)
  | discarding thread previous =>
    cases proceeds
    exact release_kept known fits rfl rfl ⟨rfl,rfl,rfl⟩ nofun nofun
  | written thread =>
    cases proceeds
    exact kept_silent rfl (unwrite_kept known fits)
  | signalling thread =>
    obtain ⟨cell,locked,taken⟩ := Option.map_eq_some_iff.mp proceeds
    cases taken
    exact kept_silent rfl (read_kept known fits locked)
  | looking thread =>
    cases held : (registry.cells thread).slot with
    | none =>
      simp only [proceed,held,Option.some.injEq,Prod.mk.injEq] at proceeds
      obtain ⟨rfl,rfl⟩ := proceeds
      exact kept_silent (by simp [event,held]) (quiet_kept known fits rfl rfl ⟨rfl,rfl,rfl,rfl⟩ nofun nofun)
    | some slot =>
      simp only [proceed,held,Option.some.injEq,Prod.mk.injEq] at proceeds
      obtain ⟨rfl,rfl⟩ := proceeds
      have aimed : ∀ other found, Caller.killing thread slot = .killing other found → (registry.cells other).slot = some found := by
        rintro _ _ ⟨⟩
        exact held
      have happens : event i .proceed registry (.looking thread) = some (.kills slot) := by simp [event,held]
      exact kept_event happens
        (use_kept (quiet_kept known fits rfl rfl ⟨rfl,rfl,rfl,rfl⟩ nofun aimed) held fun _ => rfl)
  | killing thread slot =>
    cases proceeds
    exact use_kept (quiet_kept known fits rfl rfl ⟨rfl,rfl,rfl,rfl⟩ nofun nofun) (fits.aimed thread slot rfl) fun _ => rfl
  | seen thread =>
    cases proceeds
    exact kept_silent rfl (unread_kept known fits)

theorem turn_kept {action : Action ο} (known : Known place past registry) (fits : Fits place registry i caller)
    (turned : turn i action registry caller = some (after,next)) :
    Kept place (past ++ (event i action registry caller).toList) registry after i next := by
  cases action with
  | proceed =>
    have proceeds : proceed i registry caller = some (after,next) := by cases caller <;> exact turned
    exact proceed_kept known fits proceeds
  | store threadIndex =>
    cases caller <;> cases turned
    exact store_kept known fits threadIndex
  | clear threadIndex =>
    cases caller <;> cases turned
    exact kept_silent rfl (quiet_kept known fits rfl rfl ⟨rfl,rfl,rfl,rfl⟩ nofun nofun)
  | sendKillSignal thread =>
    cases caller <;> cases turned
    exact kept_silent rfl (quiet_kept known fits rfl rfl ⟨rfl,rfl,rfl,rfl⟩ nofun nofun)
  | install threads =>
    cases caller <;> cases turned
    exact kept_silent rfl (quiet_kept known fits rfl rfl ⟨rfl,rfl,rfl,rfl⟩ nofun nofun)

/-- No place is lost and none is forgotten, in every run. -/
theorem run_kept {actions : List (ι × Action ο)} {last : Threads ι (Registry ι ο) (Caller ο)}
    (ran : Machine.run (Threads.step turn) actions ⟨Registry.new,fun _ => .idle⟩ = some last) :
    ∃ place, Threads.Holds (Known place) (Fits place)
      (Machine.trace (Threads.step turn) (Threads.observe event) actions ⟨Registry.new,fun _ => .idle⟩) last := by
  have start : Threads.Holds (Known fun _ => .unborn) (Fits fun _ => .unborn) [] (⟨Registry.new,fun _ => .idle⟩ : Threads ι _ (Caller ο)) := by
    refine ⟨⟨fun _ => Release.told_nil,?_,?_,?_⟩,fun i => ⟨?_,?_,?_,?_,nofun,nofun⟩⟩
    · simp [Registry.new]
    · simp [Registry.new]
    · simp [Registry.new]
    · simp [Caller.carries]
    · simp [Caller.releases]
    · simp [Registry.new,Caller.writes]
    · simp [Registry.new,Caller.reads]
  have kept : ∀ past action (state next : Threads ι (Registry ι ο) (Caller ο)), Threads.step turn action state = some next →
      (∃ place, Threads.Holds (Known place) (Fits place) past state) →
      ∃ place, Threads.Holds (Known place) (Fits place) (past ++ (Threads.observe event action state).toList) next :=
    Threads.holds_ghost fun _ _ _ _ _ _ _ _ turned known fits => turn_kept known fits turned
  simpa using Machine.run_history kept ran ⟨_,start⟩

/-- A slot that C hands in is released once, when it has been replaced, cleared or refused, and
not before; nothing is done with it later. Until then it is stored or on its way. -/
theorem forceKill_released_once {actions : List (ι × Action ο)} {last : Threads ι (Registry ι ο) (Caller ο)}
    (ran : Machine.run (Threads.step turn) actions ⟨Registry.new,fun _ => .idle⟩ = some last) (slot : Nat) :
    let done := steps slot (Machine.trace (Threads.step turn) (Threads.observe event) actions ⟨Registry.new,fun _ => .idle⟩)
    done.count .release ≤ done.count .retire ∧ done.count .retire ≤ 1 ∧
      ((∀ i, (last.locals i).releases ≠ some slot) → done.count .release = done.count .retire) ∧
      (∀ i, (last.locals i).releases = some slot → (Threads.step turn (i,.proceed) last).isSome ∧
        Threads.observe event (i,.proceed) last = some (.released slot)) ∧
      (∀ before after, done = before ++ .release :: after → .retire ∈ before ∧ after = []) ∧
      (done.count .acquire = 1 → done.count .retire = 1 ∨ (∃ i, (last.locals i).carries = some slot) ∨
        ∃ thread, (last.shared.cells thread).slot = some slot) := by
  intro done
  obtain ⟨place,known,fits⟩ := run_kept ran
  have told : Release.Told done (place slot).stage := known.told slot
  have retired := Release.told_retire told
  have released := Release.told_release told
  refine ⟨?_,?_,?_,?_,?_,?_⟩
  · rw [retired,released]
    grind
  · rw [retired]
    split <;> omega
  · intro idle
    have elsewhere : (place slot).stage ≠ .retired := by
      intro stage
      cases found : place slot with
      | retired i => exact idle i (((fits i).releases slot).mp found)
      | _ => simp [found,Place.stage] at stage
    simp [retired,released,elsewhere]
  · intro i releasing
    cases caller : last.locals i with
    | refusing _ | replacing _ _ _ | discarding _ _ =>
      rw [caller] at releasing
      cases releasing
      exact ⟨by simp [Threads.step,turn,proceed,caller],by simp [Threads.observe,event,caller]⟩
    | _ => simp [caller,Caller.releases] at releasing
  · intro before after same
    exact Release.told_last (same ▸ told)
  · intro acquired
    rw [Release.told_acquire told] at acquired
    rw [retired]
    cases found : place slot with
    | unborn => simp [found,Place.stage] at acquired
    | carried i => exact .inr (.inl ⟨i,((fits i).carries slot).mp found⟩)
    | stored thread => exact .inr (.inr ⟨thread,(known.stored thread slot).mp found⟩)
    | retired _ | gone => simp [Place.stage]

end Calls

/-- A slot that is killed, replaced by the next one, and the next one cleared. -/
def restart : List (Bool × Action Unit) := Machine.rounds
  [(1,false,.install fun threadIndex => if threadIndex = 0 then some () else none),(1,false,.store 0),(5,false,.proceed),
    (1,true,.sendKillSignal ()),(4,true,.proceed),(1,false,.store 0),(6,false,.proceed),(1,true,.clear 0),(5,true,.proceed)]

theorem forceKill_restart : ∃ last, Machine.run (Threads.step turn) restart ⟨Registry.new,fun _ => .idle⟩ = some last ∧
    let done := steps 0 (Machine.trace (Threads.step turn) (Threads.observe event) restart ⟨Registry.new,fun _ => .idle⟩)
    done = [.acquire,.use,.use,.retire,.release] ∧ done.count .release ≤ done.count .retire := by
  have ran : (Machine.run (Threads.step turn) restart ⟨Registry.new,fun _ => .idle⟩).isSome = true := by decide +kernel
  obtain ⟨last,ran⟩ := Option.isSome_iff_exists.mp ran
  exact ⟨last,ran,by decide +kernel,(forceKill_released_once ran 0).1⟩

end Frankenrust.Thread.ForceKill
