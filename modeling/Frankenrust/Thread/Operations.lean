import Frankenrust.Thread.Stage
import Frankenrust.Thread.Controller

/-! What each operation of a controller does to the stage of the slot it works on. -/
namespace Frankenrust.Thread
variable {stage target : Stage} {thread : PhpThread} {asked : Option State}

/-- A state in which a slot has a pthread, or is about to get one. -/
def Manned (state : State) : Prop := state ≠ .reserved ∧ state ≠ .bootRequested ∧ state ≠ .done

theorem asks_request {state : State} (asks : Asks asked) (granted : asked = some state) :
    state = .transitionRequested ∨ state = .shuttingDown := by
  rcases asks with none | request | request
  · simp [none] at granted
  · exact .inl (Option.some.inj (granted.symm.trans request))
  · exact .inr (Option.some.inj (granted.symm.trans request))

theorem settled_manned {own state : State} (asks : Asks asked) (settled : Settled asked own state)
    (manned : Manned own) : Manned state := by
  rcases settled with rfl | granted
  · exact manned
  · rcases asks_request asks granted with rfl | rfl
    · exact ⟨nofun,nofun,nofun⟩
    · exact ⟨nofun,nofun,nofun⟩

theorem armed_manned {kind : ThreadHandler} {state : State} {arm : Arm} (asks : Asks asked)
    (fits : ArmFits asked kind state arm) : Manned state := by
  cases arm with
  | waitForRequest => exact settled_manned asks fits.2 ⟨nofun,nofun,nofun⟩
  | _ => grind [ArmFits,Manned]

theorem fits_manned (asks : Asks asked) (fits : PcFits asked thread) (there : ¬ Still thread) :
    Manned thread.state.currentState := by
  obtain ⟨⟨state,subscribers⟩,installed,drain,pc,unpublished⟩ := thread
  have settled {own : State} := @settled_manned asked own state asks
  have request := @asks_request asked state asks
  cases pc with
  | absent => grind [PcFits,Manned,Still]
  | fetching callback | entering callback handler => cases callback <;> grind [PcFits,Manned]
  | armed handler arm => exact armed_manned asks fits.2
  | _ => grind [PcFits,Manned]

theorem fits_still (fits : Fits stage thread)
    (parked : thread.state.currentState ∈ [State.reserved,.bootRequested,.done]) : Still thread := by
  by_contra there
  obtain ⟨reserved,requested,done⟩ := fits_manned stage.asks fits.pc there
  simp [reserved,requested,done] at parked

theorem fits_progress (asks : Asks asked) (fits : PcFits asked thread)
    (progress : thread.state.currentState = .transitionInProgress) :
    asked = some .transitionRequested ∧
      (thread.pc = .progressed ∨ thread.pc = .handover ∧ thread.state.Waits .pthread) ∧
      thread.handler.isSome := by
  obtain ⟨⟨state,subscribers⟩,installed,drain,pc,unpublished⟩ := thread
  subst progress
  have request := @asks_request asked .transitionInProgress asks
  cases pc with
  | fetching callback | entering callback handler => cases callback <;> grind [PcFits,Settled]
  | armed handler arm => cases arm <;> grind [PcFits,ArmFits,Settled]
  | _ => grind [PcFits,Settled]

theorem still_fits (still : Still thread)
    (parked : thread.state.currentState ∈ [State.reserved,.done,.booting,.bootRequested]) :
    PcFits asked thread := by
  obtain ⟨state,installed,drain,pc,unpublished⟩ := thread
  obtain ⟨rfl,rfl⟩ := still
  exact parked

theorem granted_fits {request : State} (asks : Asks (some request)) (fits : PcFits none thread)
    (stable : thread.state.currentState = .ready ∨ thread.state.currentState = .inactive) :
    PcFits (some request) { thread with state := thread.state.set request } := by
  obtain ⟨⟨state,subscribers⟩,installed,drain,pc,unpublished⟩ := thread
  have other := asks_request asks rfl
  cases pc with
  | fetching callback | entering callback handler =>
    cases callback <;> grind [PcFits,Settled,ThreadState.set]
  | armed handler arm => cases arm <;> grind [PcFits,ArmFits,Settled,ThreadState.set]
  | shutting read => cases read <;> grind [PcFits,Settled,ThreadState.set,shutdownState]
  | _ => grind [PcFits,Settled,ThreadState.set]

theorem completed_fits (fits : PcFits (some .transitionRequested) thread)
    (progress : thread.state.currentState = .transitionInProgress) :
    PcFits none { thread with state := thread.state.set .transitionComplete } := by
  obtain ⟨_,position,some⟩ := fits_progress (.inr (.inl rfl)) fits progress
  obtain ⟨⟨state,subscribers⟩,installed,drain,pc,unpublished⟩ := thread
  rcases position with rfl | ⟨rfl,_⟩
  · exact ⟨some,.inr rfl⟩
  · exact ⟨some,.inr rfl⟩

theorem installed_fits {handler : Handler} (asks : Asks asked) (fits : PcFits asked thread)
    (progress : thread.state.currentState = .transitionInProgress) :
    PcFits asked { thread with handler := some handler } := by
  obtain ⟨same,position,_⟩ := fits_progress asks fits progress
  obtain ⟨⟨state,subscribers⟩,installed,drain,pc,unpublished⟩ := thread
  rcases position with rfl | ⟨rfl,waits⟩
  · exact ⟨rfl,.inl ⟨same,progress⟩⟩
  · exact ⟨rfl,.inl ⟨same,progress,waits⟩⟩

theorem rewaited_fits {state : ThreadState Waiter} (fits : PcFits asked thread)
    (same : state.currentState = thread.state.currentState)
    (kept : thread.state.Waits .pthread → state.Waits .pthread) : PcFits asked { thread with state } := by
  obtain ⟨current,subscribers⟩ := state
  obtain ⟨⟨found,_⟩,installed,drain,pc,unpublished⟩ := thread
  subst same
  cases pc with
  | waiting handler states => exact ⟨fits.1,fits.2.1,fun inactive => kept (fits.2.2 inactive)⟩
  | handover =>
    obtain ⟨some,⟨request,progress,waits⟩ | complete⟩ := fits
    · exact ⟨some,.inl ⟨request,progress,kept waits⟩⟩
    · exact ⟨some,.inr complete⟩
  | fetching callback | entering callback handler => cases callback <;> exact fits
  | _ => exact fits

theorem fits_rewait {state : ThreadState Waiter} (fits : Fits stage thread)
    (same : state.currentState = thread.state.currentState)
    (kept : thread.state.Waits .pthread → state.Waits .pthread) : Fits stage { thread with state } :=
  { fits with
    pc := rewaited_fits fits.pc same kept
    allowed := same ▸ fits.allowed
    launch := fits.launch }

theorem waits_subscribed {state : ThreadState Waiter} {waiter other : Waiter} {states : List State}
    (waits : state.Waits waiter) : (state.subscribe other states).2.Waits waiter := by
  obtain ⟨subscriber,member,same⟩ := waits
  unfold ThreadState.subscribe
  split
  · exact ⟨subscriber,member,same⟩
  · exact ⟨subscriber,List.mem_append_left _ member,same⟩

theorem fits_subscribe (fits : Fits stage thread) (states : List State) :
    Fits stage { thread with state := (thread.state.subscribe .controller states).2 } :=
  fits_rewait fits (subscribe_state _ _ _) waits_subscribed

theorem fits_unsubscribe (fits : Fits stage thread) :
    Fits stage { thread with state := thread.state.unsubscribe .controller } := by
  refine fits_rewait fits rfl fun ⟨subscriber,member,same⟩ => ⟨subscriber,?_,same⟩
  simp [ThreadState.unsubscribe,member,same]

theorem fits_park {next : State} (fits : Fits stage thread) (still : Still thread)
    (parked : next ∈ [State.reserved,.done,.booting,.bootRequested]) (allowed : next ∈ target.allowed)
    (ticket : target.ticket = stage.ticket)
    (launch : target.launch.Allows { thread with state := thread.state.set next }) :
    Fits target { thread with state := thread.state.set next } :=
  { fits with
    pc := still_fits still parked
    allowed := allowed
    ticket := ticket ▸ fits.ticket
    launch := launch }

theorem fits_narrow (fits : Fits stage thread) (asked : target.asked = stage.asked)
    (allowed : thread.state.currentState ∈ target.allowed) (ticket : target.ticket = stage.ticket)
    (running : target.launch = .running) : Fits target thread :=
  { fits with
    pc := asked ▸ fits.pc
    allowed := allowed
    ticket := ticket ▸ fits.ticket
    launch := running ▸ allows_any thread }

def Stage.holding (stage : Stage) (ticket : Option ClosedDrainGeneration) : Stage := { stage with ticket }

theorem fits_close (stage : Stage) (fits : Fits (stage.holding none) thread) :
    ∃ closed, thread.drain.close.1 = some closed ∧
      Fits (stage.holding (some closed)) { thread with drain := thread.drain.close.2 } := by
  obtain ⟨sender,holds⟩ := Option.isSome_iff_exists.mp fits.ticket
  refine ⟨_,DrainChannel.close_open holds,fits.pc,fits.live,fits.allowed,DrainChannel.sound_close fits.sound,?_,?_,
    fits.launch⟩
  · simp [Stage.holding,Holds,DrainChannel.close,holds]
  · intro handler channel selecting
    rcases fits.fetched handler channel selecting with rfl | older
    · exact .inl (by simp [DrainChannel.close,holds,DrainChannel.receiver])
    · exact .inr (by simp [DrainChannel.close,holds,older])

theorem fits_reopen (stage : Stage) {closed : ClosedDrainGeneration}
    (fits : Fits (stage.holding (some closed)) thread) :
    Fits (stage.holding none) { thread with drain := thread.drain.reopen closed } := by
  obtain ⟨gone,same⟩ := fits.ticket
  refine ⟨fits.pc,fits.live,fits.allowed,DrainChannel.sound_reopen fits.sound closed,?_,?_,fits.launch⟩
  · simp [Stage.holding,Holds,DrainChannel.reopen,DrainChannel.replace,gone,same]
  · intro handler channel selecting
    have lost := fits.sound.lost gone
    refine .inr ?_
    rcases fits.fetched handler channel selecting with rfl | older
    · simpa [DrainChannel.reopen,DrainChannel.replace,gone,same] using lost
    · simpa [DrainChannel.reopen,DrainChannel.replace,gone,same] using older

theorem fits_request {request : State} (fits : Fits .free thread) (granted : Stage)
    (asks : granted.asked = some request) (ticket : granted.ticket = none) (running : granted.launch = .running)
    (allowed : request ∈ granted.allowed) :
    Fits (match (thread.state.requestSafeStateChange request).1 with
      | .refused => .refused
      | .granted => granted
      | .unstable => .free) { thread with state := (thread.state.requestSafeStateChange request).2 } := by
  have grant (stable : thread.state.currentState = .ready ∨ thread.state.currentState = .inactive) :
      Fits granted { thread with state := thread.state.set request } :=
    ⟨asks ▸ granted_fits (asks ▸ granted.asks) fits.pc stable,fits.live,allowed,fits.sound,ticket ▸ fits.ticket,
      fits.fetched,running ▸ allows_any _⟩
  have possible := fits.allowed
  cases now : thread.state.currentState with
  | reserved | done =>
    simp only [ThreadState.requestSafeStateChange,now]
    exact fits_narrow fits rfl (now ▸ by decide) rfl rfl
  | shuttingDown => simp [now,Stage.free] at possible
  | ready =>
    simp only [ThreadState.requestSafeStateChange,now]
    exact grant (.inl now)
  | inactive =>
    simp only [ThreadState.requestSafeStateChange,now]
    exact grant (.inr now)
  | _ => simpa only [ThreadState.requestSafeStateChange,now] using fits

theorem fits_equip {handler : Handler} (fits : Fits .bare thread) (kind : handler.kind = .inactiveThread) :
    Fits (.fitted none) { thread with handler := some handler } := by
  have still := fits.launch.1 (by decide)
  have booting := List.mem_singleton.mp fits.allowed
  exact ⟨still_fits still (by simp [booting]),fits.live,fits.allowed,fits.sound,fits.ticket,
    fits.fetched,fun _ => still,fun _ => ⟨handler,rfl,kind⟩⟩

theorem fits_launch (fits : Fits (.fitted none) thread) :
    Fits .launched { thread with pc := .fetching .before, unpublished := true } := by
  obtain ⟨handler,runs⟩ := fits.launch.2 rfl
  have booting := List.mem_singleton.mp fits.allowed
  exact ⟨⟨handler,.inl ⟨runs,booting⟩⟩,fun _ => rfl,booting ▸ by decide,fits.sound,fits.ticket,nofun,allows_any _⟩

theorem fits_install {handler : Handler} {ticket : Option ClosedDrainGeneration}
    (fits : Fits (.moved ticket) thread) : Fits (.moved ticket) { thread with handler := some handler } :=
  ⟨installed_fits (Stage.moved ticket).asks fits.pc (List.mem_singleton.mp fits.allowed),fits.live,fits.allowed,
    fits.sound,fits.ticket,fits.fetched,allows_any _⟩

theorem fits_complete (fits : Fits (.moved none) thread) :
    Fits .free { thread with state := thread.state.set .transitionComplete } :=
  ⟨completed_fits fits.pc (List.mem_singleton.mp fits.allowed),fits.live,by simp [Stage.free],fits.sound,fits.ticket,fits.fetched,
    allows_any _⟩

theorem fits_reserve (fits : Fits (.stopped none) thread) :
    Fits .reserved { thread with state := thread.state.set .reserved } := by
  have done := List.mem_singleton.mp fits.allowed
  exact fits_park fits (fits_still fits (by simp [done])) (by decide) (by decide) rfl (allows_any _)

theorem free_of_refused (fits : Fits .refused thread) : Fits .free thread :=
  fits_narrow fits rfl ((by decide : ∀ state ∈ Stage.refused.allowed,state ∈ Stage.free.allowed) _ fits.allowed) rfl rfl

theorem free_of_reserved (fits : Fits .reserved thread) : Fits .free thread :=
  fits_narrow fits rfl (List.mem_singleton.mp fits.allowed ▸ by decide) rfl rfl

end Frankenrust.Thread
