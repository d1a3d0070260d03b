import Frankenrust.Context.Table
import Frankenrust.Library.Tenure

/-! The locks of the slot table: what a thread holds is what its one entry point is at, so no
thread waits for a slot while it holds one, and what is at an index is what was last put there. -/
namespace Frankenrust.Context

/-- The mutex that is held at this stage. -/
def Stage.owned : Stage → Option Nat
  | .locked slot | .leaving slot => some slot
  | _ => none

def Stage.slot : Stage → Option Nat
  | .waiting slot | .locked slot | .leaving slot => some slot
  | _ => none

namespace Table
variable {ι α : Type}

/-- A thread holds just the locks of the entry point that it is in. -/
structure Seated (slots : ContextSlots ι α) (i : ι) (seat : Option (Seat α)) : Prop where
  owns : ∀ slot, (slots.cells slot).owner = some i ↔ ∃ place ∈ seat, place.stage.owned = some slot
  reads : i ∈ slots.readers ↔ ∃ place ∈ seat, place.stage = .reading
  grows : slots.writer = some i ↔ ∃ place ∈ seat, place.stage = .growing
  denotes : ∀ place ∈ seat, ∀ slot ∈ place.stage.slot, slots.slots[place.index]? = some slot

/-- It is in one entry point at most, and its flag says whether it is. -/
def Fits (slots : ContextSlots ι α) (i : ι) (thread : Local α) : Prop :=
  ∃ seat : Option (Seat α), thread.inside = seat.toList ∧ thread.holding = seat.isSome ∧ Seated slots i seat

structure Known (past : List (Event ι α)) (slots : ContextSlots ι α) : Prop where
  distinct : slots.slots.Nodup
  below : ∀ slot ∈ slots.slots, slot < slots.fresh
  unused : ∀ slot, slots.fresh ≤ slot → slots.cells slot = ⟨none,none⟩
  contents : ∀ index, latest index past = (slots.slots[index]?).bind fun slot => (slots.cells slot).ctx
  faithful : ∀ before i index ctx after, past = before ++ .saw i index ctx :: after → ctx = latest index before

/-- What happens to the table leaves the locks of a thread alone. -/
structure Spares (slots slots' : ContextSlots ι α) (i : ι) : Prop where
  owns : ∀ slot, (slots'.cells slot).owner = some i ↔ (slots.cells slot).owner = some i
  reads : i ∈ slots'.readers ↔ i ∈ slots.readers
  grows : slots'.writer = some i ↔ slots.writer = some i

/-- What a turn keeps: no index is left to another slot, and the other threads keep their locks. -/
structure Turned (past : List (Event ι α)) (slots slots' : ContextSlots ι α) (i : ι) (thread : Local α) : Prop where
  known : Known past slots'
  fits : Fits slots' i thread
  keeps : slots.slots <+: slots'.slots
  spares : ∀ j, j ≠ i → Spares slots slots' j

section Locks
variable {slots slots' : ContextSlots ι α} {i j : ι} {slot : Nat} {past : List (Event ι α)}

theorem denotes_prefix {first later : List Nat} {index : Nat} (kept : first <+: later) (denotes : first[index]? = some slot) :
    later[index]? = some slot := by
  obtain ⟨more,rfl⟩ := kept
  obtain ⟨bound,_⟩ := List.getElem?_eq_some_iff.mp denotes
  rw [List.getElem?_append_left bound]
  exact denotes

theorem Seated.spared {seat : Option (Seat α)} (seated : Seated slots i seat) (spares : Spares slots slots' i)
    (keeps : slots.slots <+: slots'.slots) : Seated slots' i seat where
  owns slot := (spares.owns slot).trans (seated.owns slot)
  reads := spares.reads.trans seated.reads
  grows := spares.grows.trans seated.grows
  denotes place member slot there := denotes_prefix keeps (seated.denotes place member slot there)

theorem Fits.spared {thread : Local α} (fits : Fits slots i thread) (spares : Spares slots slots' i)
    (keeps : slots.slots <+: slots'.slots) : Fits slots' i thread := by
  obtain ⟨seat,inside,holding,seated⟩ := fits
  exact ⟨seat,inside,holding,seated.spared spares keeps⟩

theorem spares_refl : Spares slots slots i := ⟨fun _ => Iff.rfl,Iff.rfl,Iff.rfl⟩

theorem spares_read [DecidableEq ι] (other : j ≠ i) : Spares slots { slots with readers := insert i slots.readers } j :=
  ⟨fun _ => Iff.rfl,by simp [other],Iff.rfl⟩

theorem spares_unread [DecidableEq ι] (other : j ≠ i) : Spares slots { slots with readers := slots.readers.erase i } j :=
  ⟨fun _ => Iff.rfl,by simp [other],Iff.rfl⟩

theorem spares_write (other : j ≠ i) (free : slots.writer = none) : Spares slots { slots with writer := some i } j :=
  ⟨fun _ => Iff.rfl,Iff.rfl,by simp [free,other.symm]⟩

theorem spares_unwrite (other : j ≠ i) (held : slots.writer = some i) : Spares slots { slots with writer := none } j :=
  ⟨fun _ => Iff.rfl,Iff.rfl,by simp [held,other.symm]⟩

@[simp] theorem readers_own {owner : Option ι} : (slots.own slot owner).readers = slots.readers := rfl
@[simp] theorem writer_own {owner : Option ι} : (slots.own slot owner).writer = slots.writer := rfl
@[simp] theorem slots_own {owner : Option ι} : (slots.own slot owner).slots = slots.slots := rfl
@[simp] theorem readers_change {f : Option α → Option α} : (slots.change slot f).readers = slots.readers := rfl
@[simp] theorem writer_change {f : Option α → Option α} : (slots.change slot f).writer = slots.writer := rfl
@[simp] theorem slots_change {f : Option α → Option α} : (slots.change slot f).slots = slots.slots := rfl

theorem cells_modify {change : Cell ι α → Cell ι α} {other : Nat} : (slots.modify slot change).cells other =
    if other = slot then change (slots.cells slot) else slots.cells other := Function.update_apply ..

theorem owner_own {owner : Option ι} {other : Nat} : ((slots.own slot owner).cells other).owner =
    if other = slot then owner else (slots.cells other).owner := by
  rw [ContextSlots.own,cells_modify]
  split
  · rfl
  · rfl

theorem ctx_own {owner : Option ι} {other : Nat} : ((slots.own slot owner).cells other).ctx = (slots.cells other).ctx := by
  rw [ContextSlots.own,cells_modify]
  split
  · rename_i same
    rw [same]
  · rfl

theorem owner_change {f : Option α → Option α} {other : Nat} : ((slots.change slot f).cells other).owner =
    (slots.cells other).owner := by
  rw [ContextSlots.change,cells_modify]
  split
  · rename_i same
    rw [same]
  · rfl

theorem ctx_change {f : Option α → Option α} {other : Nat} : ((slots.change slot f).cells other).ctx =
    if other = slot then f (slots.cells slot).ctx else (slots.cells other).ctx := by
  rw [ContextSlots.change,cells_modify]
  split
  · rfl
  · rfl

theorem spares_own {owner : Option ι} (before : (slots.cells slot).owner ≠ some j) (after : owner ≠ some j) :
    Spares slots (slots.own slot owner) j := by
  refine ⟨?_,Iff.rfl,Iff.rfl⟩
  intro other
  rw [owner_own]
  split
  · rename_i same
    simp [same,before,after]
  · exact Iff.rfl

theorem spares_change {f : Option α → Option α} : Spares slots (slots.change slot f) j := by
  refine ⟨?_,Iff.rfl,Iff.rfl⟩
  intro other
  rw [owner_change]

theorem cells_push (known : Known past slots) : slots.push.cells = slots.cells := by
  rw [ContextSlots.push,← known.unused slots.fresh le_rfl,Function.update_eq_self]

theorem spares_push (known : Known past slots) : Spares slots slots.push j := by
  refine ⟨?_,Iff.rfl,Iff.rfl⟩
  intro other
  rw [cells_push known]

end Locks

section Contents
variable {slots slots' : ContextSlots ι α} {slot index : Nat} {past : List (Event ι α)}

theorem latest_snoc {event : Event ι α} : latest index (past ++ [event]) = event.apply index (latest index past) := by
  simp [latest,List.foldl_append]

/-- Nothing has been seen but what was there, if that is so of the last event. -/
theorem faithful_snoc {event : Event ι α}
    (faithful : ∀ before i index ctx after, past = before ++ .saw i index ctx :: after → ctx = latest index before)
    (last : ∀ i index ctx, event = .saw i index ctx → ctx = latest index past) :
    ∀ before i index ctx after, past ++ [event] = before ++ .saw i index ctx :: after → ctx = latest index before := by
  intro before i index ctx after same
  rcases Tenure.split_snoc same with ⟨_,rfl,seen⟩ | ⟨middle,_,earlier⟩
  · exact last i index ctx seen
  · exact faithful before i index ctx middle earlier

theorem Known.same (known : Known past slots) (table : slots'.slots = slots.slots) (fresh : slots'.fresh = slots.fresh)
    (unused : ∀ slot, slots.fresh ≤ slot → slots'.cells slot = slots.cells slot)
    (ctx : ∀ slot, (slots'.cells slot).ctx = (slots.cells slot).ctx) : Known past slots' where
  distinct := table ▸ known.distinct
  below := by
    rw [table,fresh]
    exact known.below
  unused slot above := by
    rw [fresh] at above
    rw [unused slot above,known.unused slot above]
  contents index := by
    rw [known.contents,table]
    simp only [ctx]
  faithful := known.faithful

theorem Known.bound (known : Known past slots) (denotes : slots.slots[index]? = some slot) : slot < slots.fresh :=
  known.below slot (List.mem_of_getElem? denotes)

theorem known_own {owner : Option ι} (known : Known past slots) (denotes : slots.slots[index]? = some slot) :
    Known past (slots.own slot owner) := by
  have unused (other : Nat) (above : slots.fresh ≤ other) : (slots.own slot owner).cells other = slots.cells other := by
    have different : other ≠ slot := fun same => Nat.not_le_of_lt (known.bound denotes) (same ▸ above)
    exact cells_modify.trans (if_neg different)
  exact known.same rfl rfl unused fun _ => ctx_own

theorem known_push (known : Known past slots) : Known past slots.push where
  distinct := by
    refine known.distinct.append (List.nodup_singleton _) ?_
    simpa using fun member => Nat.lt_irrefl _ (known.below _ member)
  below slot member := by
    rcases List.mem_append.mp member with old | new
    · exact Nat.lt_succ_of_lt (known.below slot old)
    · rw [List.mem_singleton.mp new]
      exact Nat.lt_succ_self _
  unused slot above := by
    rw [cells_push known]
    exact known.unused slot (Nat.le_of_succ_le above)
  contents index := by
    rw [known.contents,cells_push known]
    change _ = (slots.slots ++ [slots.fresh])[index]?.bind _
    rcases Nat.lt_trichotomy index slots.slots.length with inside | rfl | outside
    · rw [List.getElem?_append_left inside]
    · simp [known.unused slots.fresh le_rfl]
    · rw [List.getElem?_eq_none (Nat.le_of_lt outside),List.getElem?_eq_none (by simpa using Nat.succ_le_of_lt outside)]
  faithful := known.faithful

/-- A slot is changed, and the event says how. -/
theorem known_change {f : Option α → Option α} {event : Event ι α} (known : Known past slots)
    (denotes : slots.slots[index]? = some slot)
    (changes : ∀ other ctx, event.apply other ctx = if index = other then f ctx else ctx)
    (unseen : ∀ i index ctx, event ≠ .saw i index ctx) : Known (past ++ [event]) (slots.change slot f) where
  distinct := known.distinct
  below := known.below
  unused other above := by
    have different : other ≠ slot := fun same => Nat.not_le_of_lt (known.bound denotes) (same ▸ above)
    exact (cells_modify.trans (if_neg different)).trans (known.unused other above)
  contents other := by
    change _ = slots.slots[other]?.bind _
    rw [latest_snoc,changes,known.contents]
    split
    · rename_i same
      cases same
      simp [denotes,ctx_change]
    · rename_i different
      cases there : slots.slots[other]? with
      | none => rfl
      | some found =>
        have bound := (List.getElem?_eq_some_iff.mp denotes).1
        have apart : found ≠ slot := by
          rintro rfl
          exact different ((List.getElem?_inj bound known.distinct).mp (denotes.trans there.symm))
        simp [ctx_change,apart]
  faithful := faithful_snoc known.faithful fun i index ctx same => absurd same (unseen i index ctx)

theorem known_saw {i : ι} (known : Known past slots) (denotes : slots.slots[index]? = some slot) :
    Known (past ++ [.saw i index (slots.cells slot).ctx]) slots where
  distinct := known.distinct
  below := known.below
  unused := known.unused
  contents other := by
    rw [latest_snoc]
    exact known.contents other
  faithful := by
    apply faithful_snoc known.faithful
    rintro _ _ _ ⟨⟩
    rw [known.contents,denotes]
    rfl

end Contents

section Turns
variable {slots slots' : ContextSlots ι α} {i : ι} {thread thread' : Local α} {seat : Seat α} {below : List (Frame α)}
  {past : List (Event ι α)}

/-- The frames that count are those past the guard. -/
theorem inside_push {frame : Frame α} : (thread.push frame).inside = frame.seat.toList ++ thread.inside := by
  cases count : frame.seat with
  | none => simp [Local.push,Local.inside,count]
  | some _ => simp [Local.push,Local.inside,count]

theorem inside_call (frames : thread.frames = .call seat :: below) (past : seat.stage ≠ .entered) :
    thread.inside = seat :: below.filterMap Frame.seat := by simp [Local.inside,frames,Frame.seat,past]

theorem fits_like (fits : Fits slots i thread) (inside : thread'.inside = thread.inside)
    (holding : thread'.holding = thread.holding) : Fits slots i thread' := by
  obtain ⟨seat,seats,held,seated⟩ := fits
  exact ⟨seat,inside.trans seats,holding.trans held,seated⟩

/-- An innermost frame past the guard is the one entry point that the thread is in. -/
theorem fits_top (fits : Fits slots i thread) (frames : thread.frames = .call seat :: below)
    (past : seat.stage ≠ .entered) :
    below.filterMap Frame.seat = [] ∧ thread.holding = true ∧ Seated slots i (some seat) := by
  obtain ⟨only,inside,holding,seated⟩ := fits
  rw [inside_call frames past] at inside
  match only with
  | some _ =>
    obtain ⟨rfl,alone⟩ := List.cons.inj inside
    exact ⟨alone,holding,seated⟩

theorem fits_seat {entry : Entry α} {index : Nat} {stage : Stage} (frames : thread.frames = .call ⟨entry,index,stage⟩ :: below)
    (holding : thread.holding = true) (alone : below.filterMap Frame.seat = []) (past : stage ≠ .entered)
    (seated : Seated slots i (some ⟨entry,index,stage⟩)) : Fits slots i thread := by
  refine ⟨some ⟨entry,index,stage⟩,?_,holding,seated⟩
  rw [inside_call frames past,alone]
  rfl

/-- At these stages no lock is held. -/
theorem seated_quiet (quiet : seat.stage = .guarded ∨ seat.stage = .missing ∨ seat.stage = .unlocked) :
    Seated slots i (some seat) ↔ Seated slots i none := by
  obtain ⟨entry,index,stage⟩ := seat
  rcases quiet with rfl | rfl | rfl
  all_goals
    constructor
    · rintro ⟨owns,reads,grows,_⟩
      exact ⟨by simpa [Stage.owned] using owns,by simpa using reads,by simpa using grows,nofun⟩
    · rintro ⟨owns,reads,grows,_⟩
      exact ⟨by simpa [Stage.owned] using owns,by simpa using reads,by simpa using grows,by simp [Stage.slot]⟩

variable {entry : Entry α} {index slot : Nat}

theorem seated_read [DecidableEq ι] (seated : Seated slots i none) :
    Seated { slots with readers := insert i slots.readers } i (some ⟨entry,index,.reading⟩) where
  owns other := by simpa [Stage.owned] using seated.owns other
  reads := by simp
  grows := by simpa using seated.grows
  denotes := by simp [Stage.slot]

theorem seated_unread [DecidableEq ι] (seated : Seated slots i (some ⟨entry,index,.reading⟩)) :
    Seated { slots with readers := slots.readers.erase i } i none where
  owns other := by simpa [Stage.owned] using seated.owns other
  reads := by simp
  grows := by simpa using seated.grows
  denotes := nofun

theorem seated_write (seated : Seated slots i none) :
    Seated { slots with writer := some i } i (some ⟨entry,index,.growing⟩) where
  owns other := by simpa [Stage.owned] using seated.owns other
  reads := by simpa using seated.reads
  grows := by simp
  denotes := by simp [Stage.slot]

theorem seated_unwrite (seated : Seated slots i (some ⟨entry,index,.growing⟩)) :
    Seated { slots with writer := none } i none where
  owns other := by simpa [Stage.owned] using seated.owns other
  reads := by simpa using seated.reads
  grows := by simp
  denotes := nofun

theorem seated_waiting (seated : Seated slots i none) (denotes : slots.slots[index]? = some slot) :
    Seated slots i (some ⟨entry,index,.waiting slot⟩) where
  owns other := by simpa [Stage.owned] using seated.owns other
  reads := by simpa using seated.reads
  grows := by simpa using seated.grows
  denotes := by simpa [Stage.slot] using denotes

theorem seated_lock (seated : Seated slots i (some ⟨entry,index,.waiting slot⟩)) :
    Seated (slots.own slot (some i)) i (some ⟨entry,index,.locked slot⟩) where
  owns other := by
    have others := seated.owns other
    rw [owner_own]
    by_cases same : other = slot
    · simp [Stage.owned,same]
    · simpa [Stage.owned,same,Ne.symm same] using others
  reads := by simpa using seated.reads
  grows := by simpa using seated.grows
  denotes := by simpa [Stage.slot] using seated.denotes

theorem seated_leave {f : Option α → Option α} (seated : Seated slots i (some ⟨entry,index,.locked slot⟩)) :
    Seated (slots.change slot f) i (some ⟨entry,index,.leaving slot⟩) where
  owns other := by
    rw [owner_change]
    simpa [Stage.owned] using seated.owns other
  reads := by simpa using seated.reads
  grows := by simpa using seated.grows
  denotes := by simpa [Stage.slot] using seated.denotes

theorem seated_unlock (seated : Seated slots i (some ⟨entry,index,.leaving slot⟩)) :
    Seated (slots.own slot none) i none where
  owns other := by
    have others := seated.owns other
    rw [owner_own]
    by_cases same : other = slot
    · simp [same]
    · simpa [Stage.owned,same,Ne.symm same] using others
  reads := by simpa using seated.reads
  grows := by simpa using seated.grows
  denotes := nofun

/-- A turn in which the table stays as it is. -/
theorem turned_like (known : Known past slots) (fits : Fits slots i thread) : Turned past slots slots i thread :=
  ⟨known,fits,List.prefix_rfl,fun _ _ => spares_refl⟩

theorem event_proceed (frames : thread.frames = .call seat :: below) (unlocked : ∀ slot, seat.stage ≠ .locked slot) :
    event i .proceed slots thread = none := by
  obtain ⟨entry,index,stage⟩ := seat
  cases stage
  case locked slot => exact absurd rfl (unlocked slot)
  all_goals simp [event,Local.top,frames]

theorem turned_enter [DecidableEq ι] (known : Known past slots) (fits : Fits slots i thread)
    (frames : thread.frames = .call ⟨entry,index,.entered⟩ :: below)
    (went : slots.proceed i thread ⟨entry,index,.entered⟩ below = some (slots',thread')) : Turned past slots slots' i thread' := by
  have inside : thread.inside = below.filterMap Frame.seat := by simp [Local.inside,frames,Frame.seat]
  unfold ContextSlots.proceed at went
  dsimp only at went
  split at went
  · cases went
    exact turned_like known (fits_like fits inside.symm rfl)
  split at went
  · cases went
    exact turned_like known (fits_like fits rfl rfl)
  · rename_i free
    cases went
    obtain ⟨seat,seats,held,seated⟩ := fits
    obtain rfl : seat = none := by simpa [free] using held.symm
    exact turned_like known (fits_seat rfl rfl (inside.symm.trans seats) nofun ((seated_quiet (.inl rfl)).mpr seated))

/-- The fast path of `slot`. -/
theorem turned_lookup [DecidableEq ι] (known : Known past slots) (seated : Seated slots i (some ⟨entry,index,.reading⟩))
    (alone : below.filterMap Frame.seat = []) (holding : thread.holding = true)
    (went : slots.proceed i thread ⟨entry,index,.reading⟩ below = some (slots',thread')) : Turned past slots slots' i thread' := by
  have free := seated_unread seated
  cases went
  refine ⟨known.same rfl rfl (fun _ _ => rfl) fun _ => rfl,?_,List.prefix_rfl,fun _ => spares_unread⟩
  cases there : slots.slots[index]? with
  | none => exact fits_seat rfl holding alone nofun ((seated_quiet (.inr (.inl rfl))).mpr free)
  | some slot => exact fits_seat rfl holding alone nofun (seated_waiting free there)

/-- Its growth path, up to the clone or a panic. -/
theorem turned_grow [DecidableEq ι] (known : Known past slots) (fits : Fits slots i thread)
    (seated : Seated slots i (some ⟨entry,index,.growing⟩)) (alone : below.filterMap Frame.seat = [])
    (holding : thread.holding = true) (went : slots.proceed i thread ⟨entry,index,.growing⟩ below = some (slots',thread')) :
    Turned past slots slots' i thread' := by
  have held := seated.grows.mpr ⟨_,rfl,rfl⟩
  have free := seated_unwrite seated
  have released : Known past { slots with writer := none } := known.same rfl rfl (fun _ _ => rfl) fun _ => rfl
  unfold ContextSlots.proceed at went
  dsimp only at went
  split at went
  · cases went
    refine ⟨released,?_,List.prefix_rfl,fun _ other => spares_unwrite other held⟩
    exact fits_seat rfl holding alone nofun ((seated_quiet (.inr (.inr rfl))).mpr free)
  split at went
  · cases went
    exact ⟨known_push known,fits.spared (spares_push known) (List.prefix_append _ _),List.prefix_append _ _,
      fun _ _ => spares_push known⟩
  · rename_i there
    cases went
    refine ⟨released,?_,List.prefix_rfl,fun _ other => spares_unwrite other held⟩
    exact fits_seat rfl holding alone nofun (seated_waiting free there)

/-- What `set` and `clear` write, and that the others write nothing. -/
theorem known_leave [DecidableEq ι] (known : Known past slots) (frames : thread.frames = .call ⟨entry,index,.locked slot⟩ :: below)
    (denotes : slots.slots[index]? = some slot) :
    Known (past ++ (event i .proceed slots thread).toList) (slots.change slot entry.puts.getD) := by
  cases puts : entry.puts with
  | none =>
    have silent : event i .proceed slots thread = none := by simp [event,Local.top,frames,puts]
    have same : slots.change slot (none : Option (Option α)).getD = slots := by
      simp [ContextSlots.change,ContextSlots.modify]
    rw [silent,same,Option.toList_none,List.append_nil]
    exact known
  | some ctx =>
    have put : event i .proceed slots thread = some (.put index ctx) := by simp [event,Local.top,frames,puts]
    rw [put]
    exact known_change known denotes (fun _ _ => rfl) nofun

theorem turned_proceed [DecidableEq ι] (known : Known past slots) (fits : Fits slots i thread)
    (frames : thread.frames = .call seat :: below) (went : slots.proceed i thread seat below = some (slots',thread')) :
    Turned (past ++ (event i .proceed slots thread).toList) slots slots' i thread' := by
  obtain ⟨entry,index,stage⟩ := seat
  cases stage
  case entered =>
    rw [event_proceed frames nofun,Option.toList_none,List.append_nil]
    exact turned_enter known fits frames went
  all_goals obtain ⟨alone,holding,seated⟩ := fits_top fits frames nofun
  case locked slot =>
    have denotes := seated.denotes _ rfl slot rfl
    cases went
    exact ⟨known_leave known frames denotes,fits_seat rfl holding alone nofun (seated_leave seated),List.prefix_rfl,
      fun _ _ => spares_change⟩
  all_goals rw [event_proceed frames nofun,Option.toList_none,List.append_nil]
  case guarded =>
    unfold ContextSlots.proceed at went
    dsimp only at went
    split at went
    · cases went
      have free := (seated_quiet (.inl rfl)).mp seated
      refine ⟨known.same rfl rfl (fun _ _ => rfl) fun _ => rfl,?_,List.prefix_rfl,fun _ => spares_read⟩
      exact fits_seat rfl holding alone nofun (seated_read free)
    · contradiction
  case reading => exact turned_lookup known seated alone holding went
  case missing =>
    unfold ContextSlots.proceed at went
    dsimp only at went
    split at went
    · rename_i free
      cases went
      have seated := (seated_quiet (.inr (.inl rfl))).mp seated
      refine ⟨known.same rfl rfl (fun _ _ => rfl) fun _ => rfl,?_,List.prefix_rfl,fun _ other => spares_write other free.1⟩
      exact fits_seat rfl holding alone nofun (seated_write seated)
    · contradiction
  case growing => exact turned_grow known fits seated alone holding went
  case waiting slot =>
    have denotes := seated.denotes _ rfl slot rfl
    unfold ContextSlots.proceed at went
    dsimp only at went
    split at went
    · rename_i free
      cases went
      refine ⟨known_own known denotes,?_,List.prefix_rfl,fun j other => spares_own (by simp [free]) (by simpa using other.symm)⟩
      exact fits_seat rfl holding alone nofun (seated_lock seated)
    · contradiction
  case leaving slot =>
    have denotes := seated.denotes _ rfl slot rfl
    have held := (seated.owns slot).mpr ⟨_,rfl,rfl⟩
    cases went
    refine ⟨known_own known denotes,?_,List.prefix_rfl,fun j other => spares_own (by simpa [held] using other.symm) nofun⟩
    exact fits_seat rfl holding alone nofun ((seated_quiet (.inr (.inr rfl))).mpr (seated_unlock seated))
  case unlocked =>
    cases went
    exact turned_like known ⟨none,alone,rfl,(seated_quiet (.inr (.inr rfl))).mp seated⟩

/-- A closure's argument is what its index denotes. -/
theorem reach_denotes (fits : Fits slots i thread) (reached : thread.reach = some (entry,index,slot)) :
    slots.slots[index]? = some slot := by
  obtain ⟨seat,inside,_,seated⟩ := fits
  unfold Local.reach at reached
  rw [inside] at reached
  match seat with
  | some ⟨_,_,.locked _⟩ =>
    simp only [Option.toList_some,List.head?_cons] at reached
    split at reached
    · cases reached
      exact seated.denotes _ rfl _ rfl
    · contradiction

theorem turned_turn [DecidableEq ι] {action : Action α} (known : Known past slots) (fits : Fits slots i thread)
    (went : turn i action slots thread = some (slots',thread')) :
    Turned (past ++ (event i action slots thread).toList) slots slots' i thread' := by
  cases action
  case look =>
    obtain ⟨⟨entry,index,slot⟩,reached,same⟩ := Option.map_eq_some_iff.mp went
    cases same
    have saw : event i .look slots thread = some (.saw i index (slots.cells slot).ctx) := by simp [event,reached]
    rw [saw]
    exact turned_like (known_saw known (reach_denotes fits reached)) fits
  case change f =>
    simp only [turn] at went
    split at went
    · rename_i index slot reached
      cases went
      have changed : event i (.change f) slots thread = some (.changed index f) := by simp [event,reached]
      rw [changed]
      exact ⟨known_change known (reach_denotes fits reached) (fun _ _ => rfl) nofun,fits.spared spares_change List.prefix_rfl,
        List.prefix_rfl,fun _ _ => spares_change⟩
    · contradiction
  case proceed =>
    simp only [turn] at went
    split at went
    · contradiction
    · rename_i frames
      exact turned_proceed known fits frames went
    · rename_i frames
      cases went
      have silent : event i .proceed slots thread = none := by simp [event,Local.top,frames]
      rw [silent,Option.toList_none,List.append_nil]
      exact turned_like known (fits_like fits (congrArg (List.filterMap Frame.seat) frames).symm rfl)
    · rename_i frames
      split at went
      · contradiction
      cases went
      have silent : event i .proceed slots thread = none := by simp [event,Local.top,frames]
      rw [silent,Option.toList_none,List.append_nil]
      exact turned_like known (fits_like fits (congrArg (List.filterMap Frame.seat) frames).symm rfl)
  case panic =>
    simp only [turn] at went
    split at went
    · cases went
      rw [event,Option.toList_none,List.append_nil]
      exact turned_like known (fits_like fits rfl rfl)
    · contradiction
  all_goals
    -- a frame that is not past a guard
    simp only [turn] at went
    split at went
    · cases went
      rw [event,Option.toList_none,List.append_nil]
      exact turned_like known (fits_like fits inside_push rfl)
    · contradiction

end Turns

section Waiting
variable {state : Table ι α} {i j : ι}

/-- Where the thread is in the entry point that it runs itself. -/
def stageOf (state : Table ι α) (i : ι) : Option Stage := (state.locals i).top.map Seat.stage

/-- The thread cannot go on before the other one has: at a slot that the other one holds, at the
table that the other one reads or grows, and for a reader also at a writer that waits. -/
inductive Blocks (state : Table ι α) (i j : ι) : Prop
  | reader (waits : stageOf state i = some .guarded)
      (holds : state.shared.writer = some j ∨ stageOf state j = some .missing)
  | writer (waits : stageOf state i = some .missing) (holds : state.shared.writer = some j ∨ j ∈ state.shared.readers)
  | slot {slot : Nat} (waits : stageOf state i = some (.waiting slot)) (holds : (state.shared.cells slot).owner = some j)

/-- Who waits for whom goes down. -/
def waitRank : Option Stage → Nat
  | some .guarded => 2
  | some .missing | some (.waiting _) => 1
  | _ => 0

theorem stage_seat {slots : ContextSlots ι α} {thread : Local α} (fits : Fits slots i thread) {stage : Stage}
    (top : thread.top.map Seat.stage = some stage) (past : stage ≠ .entered) :
    ∃ seat, seat.stage = stage ∧ Seated slots i (some seat) := by
  obtain ⟨seat,same,rfl⟩ := Option.map_eq_some_iff.mp top
  unfold Local.top at same
  split at same
  · rename_i frames
    cases same
    exact ⟨seat,rfl,(fits_top fits frames past).2.2⟩
  · contradiction

/-- Who holds a lock waits for none. -/
theorem holder_rank (fits : Fits state.shared j (state.locals j)) (holds : state.shared.writer = some j ∨
    j ∈ state.shared.readers ∨ ∃ slot, (state.shared.cells slot).owner = some j) : waitRank (stageOf state j) = 0 := by
  cases top : stageOf state j with
  | none => rfl
  | some stage =>
    by_cases past : stage = .entered
    · rw [past]
      rfl
    obtain ⟨seat,rfl,seated⟩ := stage_seat fits top past
    rcases holds with writes | reads | ⟨slot,owns⟩
    · obtain ⟨_,⟨⟩,growing⟩ := seated.grows.mp writes
      rw [growing]
      rfl
    · obtain ⟨_,⟨⟩,reading⟩ := seated.reads.mp reads
      rw [reading]
      rfl
    · obtain ⟨_,⟨⟩,owned⟩ := (seated.owns slot).mp owns
      match here : seat.stage with
      | .locked _ | .leaving _ => rfl
      | .entered | .guarded | .reading | .missing | .growing | .waiting _ | .unlocked =>
        rw [here] at owned
        contradiction

theorem blocks_rank (fits : ∀ k, Fits state.shared k (state.locals k)) (blocks : Blocks state i j) :
    waitRank (stageOf state j) < waitRank (stageOf state i) := by
  cases blocks with
  | reader waits holds =>
    rw [waits]
    rcases holds with writes | missing
    · rw [holder_rank (fits j) (.inl writes)]
      decide
    · rw [missing]
      decide
  | writer waits holds =>
    rw [waits,holder_rank (fits j) (holds.imp_right .inl)]
    decide
  | slot waits holds =>
    rw [waits,holder_rank (fits j) (.inr (.inr ⟨_,holds⟩))]
    exact Nat.one_pos

/-- Where the wait goes down there is no cycle. -/
theorem no_cycle (fits : ∀ k, Fits state.shared k (state.locals k)) : ¬Relation.TransGen (Blocks state) i i := by
  intro cycle
  let descends (first second : ι) : Prop := waitRank (stageOf state second) < waitRank (stageOf state first)
  have : IsTrans ι descends := ⟨fun _ _ _ first second => second.trans first⟩
  have lower : Relation.TransGen (Blocks state) ≤ descends := Relation.transGen_minimal fun _ _ => blocks_rank fits
  exact Nat.lt_irrefl _ (lower i i cycle)

theorem waits_unowned (fits : Fits state.shared i (state.locals i)) {slot other : Nat}
    (waits : stageOf state i = some (.waiting slot)) : (state.shared.cells other).owner ≠ some i := by
  intro owns
  have low := holder_rank fits (.inr (.inr ⟨other,owns⟩))
  rw [waits] at low
  contradiction

end Waiting

section Reentry
variable {state next : Table ι α} {i : ι} {seat : Seat α} {above below : List (Frame α)} {thread : Local α}

theorem fits_length {slots : ContextSlots ι α} (fits : Fits slots i thread) :
    thread.inside.length = if thread.holding then 1 else 0 := by
  obtain ⟨seat,inside,holding,_⟩ := fits
  rw [inside,holding]
  cases seat with
  | none => rfl
  | some _ => rfl

/-- Inside an entry point no other gets past its guard. -/
theorem nested_entered {slots : ContextSlots ι α} (fits : Fits slots i thread)
    (frames : thread.frames = above ++ .call seat :: below) (nested : below.filterMap Frame.seat ≠ []) :
    seat.stage = .entered := by
  by_contra past
  have count := fits_length fits
  have two : 2 ≤ thread.inside.length := by
    have inner := List.length_pos_iff.mpr nested
    simp only [Local.inside,frames,List.filterMap_append,List.filterMap_cons,Frame.seat,past,if_false,List.length_append,
      List.length_cons]
    omega
  split at count
  · omega
  · omega

theorem top_entered {slots : ContextSlots ι α} (fits : Fits slots i thread) (frames : thread.frames = .call seat :: below)
    (nested : below.filterMap Frame.seat ≠ []) : seat.stage = .entered := by
  have whole : thread.frames = [] ++ .call seat :: below := frames
  exact nested_entered fits whole nested

theorem nested_proceeds [DecidableEq ι] (fits : Fits state.shared i (state.locals i))
    (frames : (state.locals i).frames = .call seat :: below) (nested : below.filterMap Frame.seat ≠ []) :
    (step (i,.proceed) state).isSome = true := by
  have entered := top_entered fits frames nested
  simp only [step,Threads.step,turn,frames,ContextSlots.proceed,entered,Option.isSome_map]
  split
  · rfl
  split
  · rfl
  · rfl

/-- The only step of a nested call raises, and nothing is done to the table. -/
theorem nested_panics [DecidableEq ι] {action : Action α} (fits : Fits state.shared i (state.locals i))
    (frames : (state.locals i).frames = .call seat :: below) (nested : below.filterMap Frame.seat ≠ [])
    (stepped : step (i,action) state = some next) :
    next.shared = state.shared ∧ ((state.locals i).panicking = false → (next.locals i).panicking = true) := by
  have entered := top_entered fits frames nested
  have holding : (state.locals i).holding = true := by
    have count := fits_length fits
    have inside : (state.locals i).inside = below.filterMap Frame.seat := by simp [Local.inside,frames,Frame.seat,entered]
    by_contra free
    rw [if_neg free,inside] at count
    exact nested (List.eq_nil_of_length_eq_zero count)
  obtain ⟨shared,own,turned,rfl⟩ := Threads.step_some.mp stepped
  have top : (state.locals i).top = some seat := by simp [Local.top,frames]
  have closed : (state.locals i).foreign = false := by simp [Local.foreign,top,entered]
  have unreached : (state.locals i).reach = none := by
    unfold Local.reach
    split
    · simp [closed]
    · rfl
  cases action
  case proceed =>
    simp only [turn,frames,ContextSlots.proceed,entered,holding,if_true] at turned
    split at turned
    · rename_i panicking
      cases turned
      simp [panicking]
    · cases turned
      simp
  case destruct =>
    simp only [turn] at turned
    split at turned
    · rename_i unwinds
      cases turned
      simp [unwinds.1]
    · contradiction
  all_goals simp [turn,closed,unreached,top,entered] at turned

end Reentry

theorem holds_start : Threads.Holds Known Fits [] (start : Table ι α) where
  known :=
    { distinct := List.nodup_nil
      below := by simp [start,ContextSlots.new]
      unused := fun _ _ => rfl
      contents := fun _ => rfl
      faithful := by simp }
  fits i := ⟨none,rfl,rfl,by simp [start,ContextSlots.new],by simp [start,ContextSlots.new],by simp [start,ContextSlots.new],nofun⟩

variable [DecidableEq ι]

theorem holds_turn (past : List (Event ι α)) (action : ι × Action α) (state next : Table ι α)
    (stepped : step action state = some next) (holds : Threads.Holds Known Fits past state) :
    Threads.Holds Known Fits (past ++ (Threads.observe event action state).toList) next := by
  apply Threads.holds_step _ past action state next stepped holds
  intro past i action shared own shared' own' went known fits
  have turned := turned_turn known fits went
  exact ⟨turned.known,turned.fits,fun j _ other fits => fits.spared (turned.spares j other) turned.keeps⟩

/-- After some run the table begins with these slots. -/
def Later (slots : List Nat) (state : Table ι α) : Prop :=
  (∃ past, Threads.Holds Known Fits past state) ∧ slots <+: state.shared.slots

theorem later_step {slots : List Nat} (action : ι × Action α) (state next : Table ι α) (stepped : step action state = some next)
    (later : Later slots state) : Later slots next := by
  obtain ⟨⟨past,holds⟩,kept⟩ := later
  refine ⟨⟨_,holds_turn past action state next stepped holds⟩,?_⟩
  obtain ⟨shared,own,went,rfl⟩ := Threads.step_some.mp stepped
  exact kept.trans (turned_turn holds.known (holds.fits action.1) went).keeps

theorem slots_kept {past : List (Event ι α)} {more : List (ι × Action α)} {state last : Table ι α}
    (holds : Threads.Holds Known Fits past state) (ran : Machine.run step more state = some last) :
    state.shared.slots <+: last.shared.slots := by
  have later : Later state.shared.slots last := Machine.run_invariant later_step ran ⟨⟨past,holds⟩,List.prefix_rfl⟩
  exact later.2

/-- Whatever threads do with the table and in their closures: who waits for a slot holds none and
there is no cycle of waiting; the flag of a thread says that it is in one entry point; a nested
call raises and does nothing to the table; an index keeps its slot; and what is seen at an index
is what was last put there with the changes since. -/
theorem slots_discipline {actions : List (ι × Action α)} {state : Table ι α}
    (ran : Machine.run step actions start = some state) :
    (∀ i slot other, stageOf state i = some (.waiting slot) → (state.shared.cells other).owner ≠ some i) ∧
    (∀ i, ¬Relation.TransGen (Blocks state) i i) ∧
    (∀ i, (state.locals i).inside.length = if (state.locals i).holding then 1 else 0) ∧
    (∀ i above seat below, (state.locals i).frames = above ++ .call seat :: below → below.filterMap Frame.seat ≠ [] →
      seat.stage = .entered) ∧
    (∀ i seat below, (state.locals i).frames = .call seat :: below → below.filterMap Frame.seat ≠ [] →
      (step (i,.proceed) state).isSome = true ∧ ∀ action next, step (i,action) state = some next →
        next.shared = state.shared ∧ ((state.locals i).panicking = false → (next.locals i).panicking = true)) ∧
    state.shared.slots.Nodup ∧
    (∀ more last, Machine.run step more state = some last → state.shared.slots <+: last.shared.slots) ∧
    ∀ before i index ctx after,
      Machine.trace step (Threads.observe event) actions start = before ++ .saw i index ctx :: after → ctx = latest index before := by
  have holds : Threads.Holds Known Fits (Machine.trace step (Threads.observe event) actions start) state :=
    Machine.run_history holds_turn ran holds_start
  refine ⟨?_,?_,?_,?_,?_,holds.known.distinct,?_,holds.known.faithful⟩
  · exact fun i slot other waits => waits_unowned (holds.fits i) waits
  · exact fun _ => no_cycle holds.fits
  · exact fun i => fits_length (holds.fits i)
  · exact fun i above seat below frames nested => nested_entered (holds.fits i) frames nested
  · intro i seat below frames nested
    exact ⟨nested_proceeds (holds.fits i) frames nested,fun _ _ => nested_panics (holds.fits i) frames nested⟩
  · exact fun more last => slots_kept holds

/-- A panic in a closure, raised by a nested `clear` and caught outside. -/
theorem slots_discipline_caught : ∃ state : Table Nat Nat, Machine.run step (Machine.rounds
    [(1,0,.enter (.set 7) 1),(11,0,.proceed),(1,0,.catchUnwind),(1,0,.enter .withContextMut 1),(4,0,.proceed),
      (1,0,.change (· + 1)),(1,0,.enter .clear 1),(6,0,.proceed),(1,1,.enter .withContext 1),(4,1,.proceed),(1,1,.look)])
    start = some state ∧ (state.locals 0).inside.length = 0 ∧ state.shared.slots.Nodup := by
  have ran : (Machine.run step (Machine.rounds
      [(1,0,.enter (.set 7) 1),(11,0,.proceed),(1,0,.catchUnwind),(1,0,.enter .withContextMut 1),(4,0,.proceed),
        (1,0,.change (· + 1)),(1,0,.enter .clear 1),(6,0,.proceed),(1,1,.enter .withContext 1),(4,1,.proceed),(1,1,.look)])
      (start : Table Nat Nat)).map (fun state => (state.locals 0).holding) = some false := by decide +kernel
  obtain ⟨state,ran,free⟩ := Option.map_eq_some_iff.mp ran
  have kept := slots_discipline ran
  refine ⟨state,ran,?_,kept.2.2.2.2.2.1⟩
  rw [kept.2.2.1,free]
  rfl

end Table
end Frankenrust.Context
