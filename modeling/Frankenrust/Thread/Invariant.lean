import Frankenrust.Thread.Controller

/-! What a slot may look like while a controller is at a given point of its program. A
stage says which change was granted, which states are possible and whether the drain
generation is closed; the pthread's position has to fit the state it would find. -/
namespace Frankenrust.Thread

/-- The pthread has published `own`, and a granted request may have replaced it since. -/
def Settled (asked : Option State) (own state : State) : Prop := state = own ∨ asked = some state

def ArmFits (asked : Option State) (kind : ThreadHandler) (state : State) : Arm → Prop
  | .transition => asked = some .transitionRequested ∧ state = .transitionRequested
  | .stop => asked = some .shuttingDown ∧ state = .shuttingDown
  | .settle next states => kind = .inactiveThread ∧ next = .inactive ∧ .inactive ∉ states ∧
      (state = .booting ∨ state = .transitionComplete)
  | .republish next => kind = .regularThread ∧ next = .ready ∧ state = .transitionComplete
  | .waitForRequest => kind = .regularThread ∧ Settled asked .ready state
  | .await _ => False

def Runs (installed : Option Handler) (handler : Handler) (kind : ThreadHandler) : Prop :=
  installed = some handler ∧ handler.kind = kind

def PcFits (asked : Option State) (thread : PhpThread) : Prop :=
  let state := thread.state.currentState
  match thread.pc with
  | .absent =>
    if thread.unpublished then Settled asked .ready state
    else state ∈ [State.reserved,.done,.booting,.bootRequested]
  | .fetching .before => ∃ handler, Runs thread.handler handler .inactiveThread ∧ state = .booting ∨
      Runs thread.handler handler .regularThread ∧ Settled asked .ready state
  | .fetching (.after _) => ∃ handler, Runs thread.handler handler .regularThread ∧ Settled asked .ready state
  | .entering .before handler =>
      Runs thread.handler handler .inactiveThread ∧ (state = .booting ∨ state = .transitionComplete) ∨
      Runs thread.handler handler .regularThread ∧ (state = .transitionComplete ∨ Settled asked .ready state)
  | .entering (.after _) handler => Runs thread.handler handler .regularThread ∧ Settled asked .ready state
  | .looping handler =>
      Runs thread.handler handler .inactiveThread ∧
        (state = .booting ∨ state = .transitionComplete ∨ asked = some state) ∨
      Runs thread.handler handler .regularThread ∧ (state = .transitionComplete ∨ Settled asked .ready state)
  | .armed handler arm => thread.handler = some handler ∧ ArmFits asked handler.kind state arm
  | .settling handler states => Runs thread.handler handler .inactiveThread ∧ Settled asked .inactive state ∧
      .inactive ∉ states
  | .waiting handler _ => Runs thread.handler handler .inactiveThread ∧ Settled asked .inactive state ∧
      (state = .inactive → thread.state.Waits .pthread)
  | .progressed => thread.handler.isSome ∧
      (asked = some .transitionRequested ∧ state = .transitionInProgress ∨ state = .transitionComplete)
  | .handover => thread.handler.isSome ∧
      (asked = some .transitionRequested ∧ state = .transitionInProgress ∧ thread.state.Waits .pthread ∨
        state = .transitionComplete)
  | .receiving => state = .transitionComplete ∧ thread.handler.isSome
  | .selecting handler _ => Runs thread.handler handler .regularThread ∧ Settled asked .ready state
  | .executing handler => Runs thread.handler handler .regularThread ∧ Settled asked .ready state
  | .restarting => ∃ handler, Runs thread.handler handler .regularThread ∧ Settled asked .ready state
  | .returning => Settled asked .ready state
  | .shutting read => Settled asked .ready state ∧ shutdownState read = .done

def Asks (asked : Option State) : Prop :=
  asked = none ∨ asked = some .transitionRequested ∨ asked = some .shuttingDown

theorem waits_subscribe {threadState : ThreadState Waiter} {waiter : Waiter} {states : List State}
    (other : threadState.currentState ∉ states) : (threadState.subscribe waiter states).2.Waits waiter := by
  simp [ThreadState.subscribe,other,ThreadState.Waits]

theorem subscribe_state (threadState : ThreadState Waiter) (waiter : Waiter) (states : List State) :
    (threadState.subscribe waiter states).2.currentState = threadState.currentState := by
  unfold ThreadState.subscribe
  split <;> rfl

theorem subscribe_returned {threadState : ThreadState Waiter} {waiter : Waiter} {states : List State} :
    (threadState.subscribe waiter states).1 = true ↔ threadState.currentState ∈ states := by
  unfold ThreadState.subscribe
  split <;> simp_all

theorem subscribe_blocked {threadState : ThreadState Waiter} {waiter : Waiter} {states : List State}
    (blocked : (threadState.subscribe waiter states).1 = false) : threadState.currentState ∉ states := by
  intro inside
  simp [subscribe_returned.mpr inside] at blocked

/-- A wait returns at once in a wanted state; else it leaves an entry behind. -/
theorem waitFor_some {thread next : PhpThread} {states : List State} {returned blocked : Pc}
    (waited : some (thread.waitFor states returned blocked) = some next) :
    thread.state.currentState ∈ states ∧
      next = { thread with state := (thread.state.subscribe .pthread states).2, pc := returned } ∨
    thread.state.currentState ∉ states ∧ (thread.state.subscribe .pthread states).2.Waits .pthread ∧
      next = { thread with state := (thread.state.subscribe .pthread states).2, pc := blocked } := by
  cases waited
  unfold PhpThread.waitFor
  cases now : (thread.state.subscribe .pthread states).1 with
  | true => exact .inl ⟨subscribe_returned.mp now,rfl⟩
  | false =>
    have outside := subscribe_blocked now
    exact .inr ⟨outside,waits_subscribe outside,rfl⟩

theorem woken_some {thread next : PhpThread} {pc : Pc} (woke : thread.woken pc = some next) :
    ¬thread.state.Waits .pthread ∧ next = thread.goto pc := by
  unfold PhpThread.woken at woke
  split at woke
  · contradiction
  next woken =>
    cases woke
    exact ⟨woken,rfl⟩

theorem looping_arm {asked : Option State} {kind : ThreadHandler} {state : State} (asks : Asks asked)
    (fits : kind = .inactiveThread ∧ (state = .booting ∨ state = .transitionComplete ∨ asked = some state) ∨
      kind = .regularThread ∧ (state = .transitionComplete ∨ Settled asked .ready state)) :
    ArmFits asked kind state (kind.arm state) := by
  have granted (request : asked = some state) : ArmFits asked kind state (kind.arm state) := by
    rcases asks with none | same | same
    · simp [none] at request
    · cases same.symm.trans request
      cases kind <;> exact ⟨same,rfl⟩
    · cases same.symm.trans request
      cases kind <;> exact ⟨same,rfl⟩
  rcases fits with ⟨rfl,rfl | rfl | request⟩ | ⟨rfl,rfl | rfl | request⟩
  · exact ⟨rfl,rfl,by decide,.inl rfl⟩
  · exact ⟨rfl,rfl,by decide,.inr rfl⟩
  · exact granted request
  · exact ⟨rfl,rfl,rfl⟩
  · exact ⟨rfl,.inl rfl⟩
  · exact granted request

/-- A pthread that is there has not published its end. -/
def Live (thread : PhpThread) : Prop := thread.pc ≠ .absent → thread.unpublished = true

theorem settled_shutdown {asked : Option State} {state : State} (asks : Asks asked)
    (settled : Settled asked .ready state) : shutdownState state = .done := by
  rcases settled with rfl | granted
  · rfl
  · rcases asks with none | request | request
    · simp [none] at granted
    · cases request.symm.trans granted
      rfl
    · cases request.symm.trans granted
      rfl

theorem proceed_fits {asked : Option State} {thread next : PhpThread} (asks : Asks asked)
    (fits : PcFits asked thread) (stepped : thread.proceed = some next) : PcFits asked next := by
  obtain ⟨state,installed,drain,pc,unpublished⟩ := thread
  cases pc with
  | absent => contradiction
  | fetching callback =>
    cases callback with
    | before =>
      obtain ⟨handler,⟨⟨same,kind⟩,booting⟩ | ⟨⟨same,kind⟩,settled⟩⟩ := fits
      · cases same
        cases stepped
        exact .inl ⟨⟨rfl,kind⟩,.inl booting⟩
      · cases same
        cases stepped
        exact .inr ⟨⟨rfl,kind⟩,.inr settled⟩
    | after healthy =>
      obtain ⟨handler,⟨same,kind⟩,settled⟩ := fits
      cases same
      cases stepped
      exact ⟨⟨rfl,kind⟩,settled⟩
  | entering callback handler =>
    cases callback with
    | before =>
      cases stepped
      rcases fits with ⟨runs,booting | complete⟩ | ⟨runs,states⟩
      · exact .inl ⟨runs,.inl booting⟩
      · exact .inl ⟨runs,.inr (.inl complete)⟩
      · exact .inr ⟨runs,states⟩
    | after healthy =>
      cases stepped
      cases healthy with
      | true => exact ⟨handler,.inr fits⟩
      | false => exact ⟨handler,fits⟩
  | looping handler =>
    cases stepped
    rcases fits with ⟨runs,states⟩ | ⟨runs,states⟩
    · exact ⟨runs.1,looping_arm asks (.inl ⟨runs.2,states⟩)⟩
    · exact ⟨runs.1,looping_arm asks (.inr ⟨runs.2,states⟩)⟩
  | armed handler arm =>
    obtain ⟨same,armed⟩ := fits
    cases arm with
    | transition =>
      cases stepped
      exact ⟨Option.isSome_iff_exists.mpr ⟨handler,same⟩,.inl ⟨armed.1,rfl⟩⟩
    | republish published =>
      cases stepped
      obtain ⟨kind,ready,_⟩ := armed
      exact .inr ⟨⟨same,kind⟩,.inr (.inl ready)⟩
    | settle published states =>
      cases stepped
      obtain ⟨kind,inactive,other,_⟩ := armed
      exact ⟨⟨same,kind⟩,.inl inactive,other⟩
    | await states => contradiction
    | waitForRequest =>
      cases stepped
      exact ⟨⟨same,armed.1⟩,armed.2⟩
    | stop =>
      cases stepped
      exact .inr (armed.2 ▸ armed.1)
  | settling handler states =>
    obtain ⟨runs,settled,other⟩ := fits
    have kept := subscribe_state state .pthread states
    rcases waitFor_some stepped with ⟨inside,rfl⟩ | ⟨_,waits,rfl⟩
    · rcases settled with inactive | granted
      · exact absurd (inactive ▸ inside) other
      · exact .inl ⟨runs,.inr (.inr (kept.symm ▸ granted))⟩
    · exact ⟨runs,kept.symm ▸ settled,fun _ => waits⟩
  | waiting handler states =>
    obtain ⟨runs,settled,waits⟩ := fits
    obtain ⟨woken,rfl⟩ := woken_some stepped
    rcases settled with inactive | granted
    · exact absurd (waits inactive) woken
    · exact .inl ⟨runs,.inr (.inr granted)⟩
  | progressed =>
    obtain ⟨some,states⟩ := fits
    have kept := subscribe_state state .pthread [.transitionComplete]
    rcases waitFor_some stepped with ⟨complete,rfl⟩ | ⟨_,waits,rfl⟩
    · exact ⟨kept.trans (List.mem_singleton.mp complete),some⟩
    · refine ⟨some,?_⟩
      rcases states with ⟨asked,progress⟩ | complete
      · exact .inl ⟨asked,kept.trans progress,waits⟩
      · exact .inr (kept.trans complete)
  | handover =>
    obtain ⟨some,states⟩ := fits
    obtain ⟨woken,rfl⟩ := woken_some stepped
    rcases states with ⟨_,_,waits⟩ | complete
    · exact absurd waits woken
    · exact ⟨complete,some⟩
  | receiving =>
    obtain ⟨complete,some⟩ := fits
    cases installed with
    | none => contradiction
    | some handler =>
      cases stepped
      cases kind : handler.kind with
      | inactiveThread => exact .inl ⟨⟨rfl,kind⟩,.inr complete⟩
      | regularThread => exact .inr ⟨⟨rfl,kind⟩,.inl complete⟩
  | selecting handler channel =>
    simp only [PhpThread.proceed] at stepped
    split at stepped
    · cases stepped
      exact .inr ⟨fits.1,.inr fits.2⟩
    · contradiction
  | executing handler =>
    cases stepped
    exact ⟨handler,fits⟩
  | restarting =>
    cases stepped
    obtain ⟨handler,fits⟩ := fits
    exact ⟨handler,.inr fits⟩
  | returning =>
    cases stepped
    exact ⟨fits,settled_shutdown asks fits⟩
  | shutting read =>
    cases stepped
    obtain ⟨_,done⟩ := fits
    simp [PcFits,PhpThread.publish,done]

theorem step_fits {asked : Option State} {thread next : PhpThread} {move : Move} (asks : Asks asked)
    (live : Live thread) (fits : PcFits asked thread) (stepped : thread.step move = some next) :
    PcFits asked next := by
  obtain ⟨state,installed,drain,pc,unpublished⟩ := thread
  cases move with
  | proceed => exact proceed_fits asks fits stepped
  | deliver named =>
    cases pc <;> try contradiction
    cases stepped
    cases named with
    | true => exact fits
    | false => exact fits.2
  | disconnect =>
    cases pc <;> try contradiction
    cases stepped
    exact .inr ⟨fits.1,.inr fits.2⟩
  | bailout =>
    cases pc <;> try contradiction
    cases stepped
    exact ⟨_,fits⟩
  | crash =>
    cases pc <;> try contradiction
    cases stepped
    obtain ⟨handler,fits⟩ := fits
    have still : unpublished = true := live (by simp)
    simpa [PcFits,PhpThread.goto,still] using fits.2

end Frankenrust.Thread
