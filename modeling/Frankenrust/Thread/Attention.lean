import Frankenrust.Thread.Exclusion

/-! Who listens on a slot's state, and that an inactive pthread answers a transition: every
entry is its waiter's present one, and the handlers' loops list the request among the
states they wait for. -/
namespace Frankenrust.Thread
variable {n : Nat}

namespace Pc

/-- The states of the entry which the pthread waits on. -/
def listens : Pc → Option (List State)
  | .waiting _ states => some states
  | .handover => some [.transitionComplete]
  | _ => none

/-- The states a handler's loop is going to wait for. -/
def lists : Pc → Option (List State)
  | .armed _ (.settle _ states) | .armed _ (.await states) | .settling _ states | .waiting _ states => some states
  | _ => none

end Pc

/-- The entries of a slot: none lists the current state, and each belongs to a wait that is
going on; `blocked` is what the controller waits for here. -/
structure Attends (blocked : Option State) (thread : PhpThread) : Prop where
  fresh : ∀ subscriber ∈ thread.state.subscribers, thread.state.currentState ∉ subscriber.states
  own : ∀ subscriber ∈ thread.state.subscribers, subscriber.waiter = .pthread →
    thread.pc.listens = some subscriber.states
  controller : ∀ subscriber ∈ thread.state.subscribers, subscriber.waiter = .controller →
    ∃ state, blocked = some state ∧ subscriber.states = [state]
  heeds : ∀ states, thread.pc.lists = some states → .transitionRequested ∈ states

section
variable {blocked : Option State} {thread next : PhpThread} {pc : Pc}

theorem attends_new : Attends none PhpThread.new := ⟨nofun,nofun,nofun,nofun⟩

theorem attends_congr {other : PhpThread} (attends : Attends blocked thread) (state : other.state = thread.state)
    (pc : other.pc = thread.pc) : Attends blocked other := by
  obtain ⟨fresh,own,controller,heeds⟩ := attends
  exact ⟨by rwa [state],by rwa [state,pc],by rwa [state],by rwa [pc]⟩

theorem attends_set (attends : Attends blocked thread) (published : State) :
    Attends blocked { thread with state := thread.state.set published } :=
  ⟨fun _ member => (ThreadState.mem_set.mp member).2,
    fun subscriber member => attends.own subscriber (ThreadState.mem_set.mp member).1,
    fun subscriber member => attends.controller subscriber (ThreadState.mem_set.mp member).1,attends.heeds⟩

theorem attends_unblocked (attends : Attends blocked thread) (gone : ¬thread.state.Waits .controller) :
    Attends none thread :=
  ⟨attends.fresh,attends.own,fun subscriber member waits => absurd ⟨subscriber,member,waits⟩ gone,attends.heeds⟩

theorem subscribe_now {state : ThreadState Waiter} {waiter : Waiter} {states : List State}
    (now : state.currentState ∈ states) : (state.subscribe waiter states).2 = state := by
  simp [ThreadState.subscribe,now]

theorem mem_subscribe {state : ThreadState Waiter} {waiter : Waiter} {states : List State} {subscriber : Subscriber Waiter}
    (later : state.currentState ∉ states) :
    subscriber ∈ (state.subscribe waiter states).2.subscribers ↔ subscriber ∈ state.subscribers ∨ subscriber = ⟨waiter,states⟩ := by
  simp [ThreadState.subscribe,later]

theorem attends_blocked {state : State} (attends : Attends none thread) (later : thread.state.currentState ≠ state) :
    Attends (some state) { thread with state := (thread.state.subscribe .controller [state]).2 } := by
  have outside : thread.state.currentState ∉ [state] := List.mem_singleton.not.mpr later
  refine ⟨?_,?_,?_,attends.heeds⟩
  · intro subscriber member
    rw [subscribe_state]
    rcases (mem_subscribe outside).mp member with old | rfl
    · exact attends.fresh subscriber old
    · exact outside
  · intro subscriber member waits
    rcases (mem_subscribe outside).mp member with old | rfl
    · exact attends.own subscriber old waits
    · cases waits
  · intro subscriber member waits
    rcases (mem_subscribe outside).mp member with old | rfl
    · obtain ⟨_,none,_⟩ := attends.controller subscriber old waits
      cases none
    · exact ⟨state,rfl,rfl⟩

theorem attends_silent (attends : Attends blocked thread) (awake : thread.pc.listens = none) :
    ∀ subscriber ∈ thread.state.subscribers, subscriber.waiter ≠ .pthread := by
  intro subscriber member waits
  rw [attends.own subscriber member waits] at awake
  contradiction

theorem attends_goto (attends : Attends blocked thread)
    (silent : ∀ subscriber ∈ thread.state.subscribers, subscriber.waiter ≠ .pthread)
    (heeds : ∀ states, pc.lists = some states → .transitionRequested ∈ states) : Attends blocked (thread.goto pc) :=
  ⟨attends.fresh,fun subscriber member waits => absurd waits (silent subscriber member),attends.controller,heeds⟩

theorem attends_publish (attends : Attends blocked thread) {published : State}
    (silent : ∀ subscriber ∈ thread.state.subscribers, subscriber.waiter ≠ .pthread)
    (heeds : ∀ states, pc.lists = some states → .transitionRequested ∈ states) :
    Attends blocked (thread.publish published pc) :=
  ⟨fun _ member => (ThreadState.mem_set.mp member).2,
    fun subscriber member waits => absurd waits (silent subscriber (ThreadState.mem_set.mp member).1),
    fun subscriber member => attends.controller subscriber (ThreadState.mem_set.mp member).1,heeds⟩

theorem attends_waitFor (attends : Attends blocked thread) {states : List State} {returned : Pc}
    (silent : ∀ subscriber ∈ thread.state.subscribers, subscriber.waiter ≠ .pthread)
    (listens : pc.listens = some states) (returns : returned.lists = none)
    (heeds : ∀ states, pc.lists = some states → .transitionRequested ∈ states) :
    Attends blocked (thread.waitFor states returned pc) := by
  by_cases now : thread.state.currentState ∈ states
  · have same : thread.waitFor states returned pc = thread.goto returned := by
      simp [PhpThread.waitFor,subscribe_now now,subscribe_returned.mpr now,PhpThread.goto]
    rw [same]
    exact attends_goto attends silent (by simp [returns])
  · have blocks : (thread.state.subscribe .pthread states).1 = false :=
      Bool.eq_false_iff.mpr (mt subscribe_returned.mp now)
    have same : thread.waitFor states returned pc =
        { thread with state := (thread.state.subscribe .pthread states).2, pc } := by
      simp [PhpThread.waitFor,blocks]
    rw [same]
    refine ⟨?_,?_,?_,heeds⟩
    · intro subscriber member
      rw [subscribe_state]
      rcases (mem_subscribe now).mp member with old | rfl
      · exact attends.fresh subscriber old
      · exact now
    · intro subscriber member waits
      rcases (mem_subscribe now).mp member with old | rfl
      · exact absurd waits (silent subscriber old)
      · exact listens
    · intro subscriber member waits
      rcases (mem_subscribe now).mp member with old | rfl
      · exact attends.controller subscriber old waits
      · cases waits

theorem arm_heeds {kind : ThreadHandler} {state : State} {handler : Handler} {states : List State}
    (lists : (Pc.armed handler (kind.arm state)).lists = some states) : .transitionRequested ∈ states := by
  cases kind <;> cases state <;> cases lists <;> decide

theorem attends_woken (attends : Attends blocked thread) {pc : Pc} (woke : thread.woken pc = some next)
    (quiet : pc.lists = none) : Attends blocked next := by
  obtain ⟨gone,rfl⟩ := woken_some woke
  exact attends_goto attends (fun subscriber member waits => gone ⟨subscriber,member,waits⟩) (by simp [quiet])

theorem attends_proceed (attends : Attends blocked thread) (stepped : thread.proceed = some next) :
    Attends blocked next := by
  obtain ⟨state,installed,drain,pc,unpublished⟩ := thread
  cases pc with
  | absent => contradiction
  | waiting handler states | handover => exact attends_woken attends stepped rfl
  | settling handler states =>
    cases stepped
    exact attends_waitFor attends (attends_silent attends rfl) rfl rfl attends.heeds
  | progressed =>
    cases stepped
    exact attends_waitFor attends (attends_silent attends rfl) rfl rfl (by rintro _ ⟨⟩)
  | looping handler =>
    cases stepped
    exact attends_goto attends (attends_silent attends rfl) fun _ => arm_heeds
  | armed handler arm =>
    have silent := attends_silent attends rfl
    cases arm with
    | transition | republish =>
      cases stepped
      exact attends_publish attends silent (by rintro _ ⟨⟩)
    | settle published states =>
      cases stepped
      exact attends_publish attends silent attends.heeds
    | await states =>
      cases stepped
      exact attends_goto attends silent attends.heeds
    | waitForRequest | stop =>
      cases stepped
      exact attends_goto attends silent (by rintro _ ⟨⟩)
  | fetching callback =>
    have silent := attends_silent attends rfl
    cases installed with
    | some handler =>
      cases stepped
      exact attends_goto attends silent (by rintro _ ⟨⟩)
    | none =>
      cases callback with
      | before =>
        cases stepped
        exact attends_goto attends silent (by rintro _ ⟨⟩)
      | after healthy =>
        cases healthy <;> cases stepped <;> exact attends_goto attends silent (by rintro _ ⟨⟩)
  | entering callback handler =>
    have silent := attends_silent attends rfl
    cases callback with
    | before =>
      cases stepped
      exact attends_goto attends silent (by rintro _ ⟨⟩)
    | after healthy =>
      cases healthy <;> cases stepped <;> exact attends_goto attends silent (by rintro _ ⟨⟩)
  | receiving =>
    cases installed <;> cases stepped <;> exact attends_goto attends (attends_silent attends rfl) (by rintro _ ⟨⟩)
  | selecting handler channel =>
    simp only [PhpThread.proceed] at stepped
    split at stepped
    · cases stepped
      exact attends_goto attends (attends_silent attends rfl) (by rintro _ ⟨⟩)
    · contradiction
  | executing | restarting | returning =>
    cases stepped
    exact attends_goto attends (attends_silent attends rfl) (by rintro _ ⟨⟩)
  | shutting read =>
    cases stepped
    have silent := attends_silent attends rfl
    exact ⟨fun _ member => (ThreadState.mem_set.mp member).2,
      fun subscriber member waits => absurd waits (silent subscriber (ThreadState.mem_set.mp member).1),
      fun subscriber member => attends.controller subscriber (ThreadState.mem_set.mp member).1,by rintro _ ⟨⟩⟩

theorem attends_step {move : Move} (attends : Attends blocked thread) (stepped : thread.step move = some next) :
    Attends blocked next := by
  obtain ⟨state,installed,drain,pc,unpublished⟩ := thread
  cases move with
  | proceed => exact attends_proceed attends stepped
  | deliver named =>
    cases pc <;> try contradiction
    cases named <;> cases stepped <;> exact attends_goto attends (attends_silent attends rfl) nofun
  | disconnect | bailout | crash =>
    cases pc <;> try contradiction
    cases stepped
    exact attends_goto attends (attends_silent attends rfl) nofun

/-- An inactive slot's pthread on its way to answer a requested transition. -/
inductive Answers (thread : PhpThread) : Prop
  | parked {handler : Handler} {states : List State}
    (state : thread.state.currentState = .inactive ∨ thread.state.currentState = .transitionRequested)
    (pc : thread.pc = .settling handler states ∨ thread.pc = .waiting handler states)
  | looping {handler : Handler} (state : thread.state.currentState = .transitionRequested)
    (pc : thread.pc = .looping handler)
  | armed {handler : Handler} (state : thread.state.currentState = .transitionRequested)
    (pc : thread.pc = .armed handler .transition)
  | answered (state : thread.state.currentState = .transitionInProgress)

/-- How many steps of the pthread the answer is away. -/
def patience (thread : PhpThread) : Nat :=
  match thread.pc with
  | .settling _ _ | .waiting _ _ => 3
  | .looping _ => 2
  | .armed _ _ => 1
  | _ => 0

theorem requested_woken (attends : Attends blocked thread) {handler : Handler} {states : List State}
    (requested : thread.state.currentState = .transitionRequested) (pc : thread.pc = .waiting handler states) :
    ¬thread.state.Waits .pthread := by
  rintro ⟨subscriber,member,waits⟩
  have listens := attends.own subscriber member waits
  rw [pc] at listens
  cases listens
  have heeded := attends.heeds subscriber.states (by rw [pc]; rfl)
  exact attends.fresh subscriber member (requested ▸ heeded)

/-- Once the transition is requested, the pthread can always take its next step towards it. -/
theorem answers_proceed (attends : Attends blocked thread) (answers : Answers thread)
    (requested : thread.state.currentState = .transitionRequested) :
    ∃ next, thread.proceed = some next ∧ Answers next ∧ patience next < patience thread := by
  obtain ⟨state,installed,drain,pc,unpublished⟩ := thread
  cases answers with
  | parked known parked =>
    rcases parked with rfl | rfl
    · have heeded : state.currentState ∈ _ := requested.symm ▸ attends.heeds _ rfl
      refine ⟨_,rfl,?_⟩
      simp only [PhpThread.waitFor,subscribe_returned.mpr heeded,subscribe_now heeded,if_true]
      exact ⟨.looping requested rfl,by simp [patience]⟩
    · have gone := requested_woken attends requested rfl
      refine ⟨_,if_neg gone,.looping requested rfl,by simp [patience,PhpThread.goto]⟩
  | @looping handler _ parked =>
    cases parked
    have arm : handler.kind.arm state.currentState = .transition := by
      rw [show state.currentState = .transitionRequested from requested]
      cases handler.kind <;> rfl
    refine ⟨_,rfl,?_,by simp [patience,PhpThread.goto]⟩
    rw [arm]
    exact .armed requested rfl
  | armed _ parked =>
    cases parked
    exact ⟨_,rfl,.answered rfl,by simp [patience,PhpThread.publish]⟩
  | answered answered => cases requested.symm.trans answered

theorem answers_step {stage : Stage} {move : Move} (fits : Fits stage thread) (attends : Attends blocked thread)
    (answers : Answers thread) (stepped : thread.step move = some next) : Answers next := by
  by_cases requested : thread.state.currentState = .transitionRequested
  · have proceeds : move = .proceed := by
      obtain ⟨state,installed,drain,pc,unpublished⟩ := thread
      cases answers with
      | parked _ parked => rcases parked with rfl | rfl <;> cases move <;> first | rfl | contradiction
      | looping _ parked | armed _ parked => cases parked; cases move <;> first | rfl | contradiction
      | answered answered => cases requested.symm.trans answered
    subst proceeds
    obtain ⟨after,went,answers,_⟩ := answers_proceed attends answers requested
    cases went.symm.trans stepped
    exact answers
  · cases answers with
    | parked known parked =>
      -- nothing is requested yet, so the pthread goes on waiting
      have inactive := known.resolve_right requested
      have kept := inactive_kept fits inactive stepped
      have fitsPc := fits.pc
      obtain ⟨state,installed,drain,pc,unpublished⟩ := thread
      rcases parked with rfl | rfl
      · cases move <;> try contradiction
        rcases waitFor_some stepped with ⟨inside,_⟩ | ⟨_,_,rfl⟩
        · exact absurd (inactive ▸ inside) fitsPc.2.2
        · exact .parked (.inl kept) (.inr rfl)
      · cases move <;> try contradiction
        obtain ⟨gone,_⟩ := woken_some stepped
        exact absurd (fitsPc.2.2 inactive) gone
    | looping state | armed state => exact absurd state requested
    | answered answered =>
      rcases PhpThread.step_published stage.asks fits.pc stepped with same | published
      · exact .answered (same.trans answered)
      · rw [answered] at published
        contradiction

end

/-- The state which the controller waits for on this slot. -/
def blockedOn (scaling : Option (Controller n)) (i : Fin n) : Option State :=
  scaling.bind fun controller => controller.awaits.bind fun await => if await.1 = i then some await.2 else none

def Attended (system : System n) : Prop := ∀ i, Attends (blockedOn system.scaling i) (system.threads i)

namespace System
variable {system next : System n} {controller : Controller n} {choice : Choice n} {i : Fin n}

theorem attended_init : Attended (init : System n) := fun _ => attends_new

theorem blockedOn_quiet {scaling : Option (Controller n)} (quiet : scaling.bind Controller.awaits = none) (i : Fin n) :
    blockedOn scaling i = none := by
  cases scaling with
  | none => rfl
  | some controller =>
    have none : controller.awaits = none := quiet
    simp [blockedOn,none]

theorem attended_goto (attended : Attended system) (before : system.scaling.bind Controller.awaits = none)
    {scaling : Option (Controller n)} (after : scaling.bind Controller.awaits = none) :
    Attended { system with scaling } := by
  intro j
  have attends := attended j
  rw [blockedOn_quiet before] at attends
  rwa [blockedOn_quiet after]

/-- A step on one slot, from a point that waits for no other and to such a point. -/
theorem attended_put {thread : PhpThread} {after : Controller n} (attended : Attended system)
    (holder : system.scaling = some controller) (before : ∀ await, controller.awaits = some await → await.1 = i)
    (later : ∀ await, after.awaits = some await → await.1 = i) (here : Attends (blockedOn (some after) i) thread) :
    Attended (system.put i thread after) := by
  intro j
  by_cases same : j = i
  · subst same
    rw [put_self]
    exact here
  · have elsewhere (controller : Controller n) (only : ∀ await, controller.awaits = some await → await.1 = i) :
        blockedOn (some controller) j = none := by
      cases waits : controller.awaits with
      | none => simp [blockedOn,waits]
      | some await =>
        have other : await.1 ≠ j := fun there => same (there ▸ only await waits)
        simp [blockedOn,waits,other]
    have attends := attended j
    rw [holder,elsewhere controller before] at attends
    have kept : (system.put i thread after).threads j = system.threads j := Function.update_of_ne same ..
    rw [put_scaling,elsewhere after later,kept]
    exact attends

end System
end Frankenrust.Thread
