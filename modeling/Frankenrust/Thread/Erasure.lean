import Frankenrust.Library.Machine
import Frankenrust.Thread.Stage

/-! A handler's loop against the requests of a controller, from any state the loop accepts:
whether what it publishes of its own can overwrite a request it has not read. -/
namespace Frankenrust.Thread

def requests : List State := [.transitionRequested,.shuttingDown,.rebooting,.forceRebooting]

/-- A pthread and the granted request which its handler has not observed. -/
structure Loop where
  thread : PhpThread
  pending : Option State

namespace Loop

def enter (handler : Handler) (state : ThreadState Waiter) (drain : DrainChannel) : Loop :=
  ⟨⟨state,some handler,drain,.looping handler,true⟩,none⟩

inductive Action
  | pthread (move : Move)
  | request (asked : State)

def observes (loop : Loop) : Bool :=
  match loop.thread.pc with
  | .looping _ => loop.pending = some loop.thread.state.currentState
  | _ => false

def step (action : Action) (loop : Loop) : Option Loop :=
  match action with
  | .pthread move =>
    (loop.thread.step move).map fun thread => ⟨thread,if loop.observes then none else loop.pending⟩
  | .request asked =>
    if asked ∈ requests then
      let (attempt,state) := loop.thread.state.requestSafeStateChange asked
      some ⟨{ loop.thread with state },if attempt = .granted then some asked else loop.pending⟩
    else none

/-- The next step overwrites an unobserved request with `Inactive` or `Ready`. -/
def Erases (loop : Loop) : Prop :=
  loop.pending.isSome ∧ (PhpThread.publishes loop.thread.pc = some .inactive ∨
    PhpThread.publishes loop.thread.pc = some .ready)

/-- The pthread is there and cannot go on by itself. -/
def Parked (loop : Loop) : Prop := loop.thread.pc ≠ .absent ∧ loop.thread.proceed = none

def Kept (loop : Loop) : Prop :=
  ¬ loop.Erases ∧ ∀ asked, loop.pending = some asked → loop.Parked → loop.thread.state.currentState = asked

def heads : ThreadHandler → List State
  | .inactiveThread => .booting :: .transitionComplete :: requests
  | .regularThread => .ready :: .transitionComplete :: .rebootReady :: requests

def Rests (loop : Loop) (own : State) : Prop :=
  loop.thread.state.currentState = own ∨ loop.pending = some loop.thread.state.currentState

def ArmSafe (loop : Loop) (kind : ThreadHandler) : Arm → Prop
  | .transition => loop.pending = none ∧ loop.thread.state.currentState = .transitionRequested
  | .stop => loop.pending = none ∧
      loop.thread.state.currentState ∈ [State.shuttingDown,.rebooting,.forceRebooting]
  | .republish next => loop.pending = none ∧ kind = .regularThread ∧ next = .ready ∧
      loop.thread.state.currentState ∈ [State.transitionComplete,.rebootReady]
  | .settle next states => loop.pending = none ∧ kind = .inactiveThread ∧ next = .inactive ∧ states = requests ∧
      loop.thread.state.currentState ∈ [State.booting,.transitionComplete]
  | .waitForRequest => kind = .regularThread ∧ loop.Rests .ready
  | .await _ => False

def Safe (handler : Handler) (loop : Loop) : Prop :=
  match loop.thread.pc with
  | .looping called => called = handler ∧ loop.thread.state.currentState ∈ heads handler.kind
  | .armed called arm => called = handler ∧ loop.ArmSafe handler.kind arm
  | .settling called states => called = handler ∧ handler.kind = .inactiveThread ∧ states = requests ∧ loop.Rests .inactive
  | .waiting called _ => called = handler ∧ handler.kind = .inactiveThread ∧ loop.Rests .inactive ∧
      (loop.thread.state.currentState = .inactive → loop.thread.state.Waits .pthread)
  | .progressed => loop.thread.state.currentState = .transitionInProgress
  | .handover => loop.thread.state.currentState = .transitionInProgress ∧ loop.thread.state.Waits .pthread
  | .receiving => False
  | .fetching _ | .restarting => handler.kind = .regularThread ∧ loop.Rests .ready
  | .entering _ called | .selecting called _ | .executing called =>
    called = handler ∧ handler.kind = .regularThread ∧ loop.Rests .ready
  | .absent | .returning | .shutting _ => True

/-- A pending request is the state, as long as the pthread is there. -/
structure Sound (handler : Handler) (loop : Loop) : Prop where
  installed : loop.thread.handler = some handler
  asked : ∀ asked, loop.pending = some asked → asked ∈ requests ∧
    (loop.thread.pc ≠ .absent → loop.thread.state.currentState = asked)
  safe : Safe handler loop

theorem sound_kept {handler : Handler} {loop : Loop} (sound : Sound handler loop) : Kept loop := by
  refine ⟨fun erases => ?_,fun asked pending parked => (sound.asked asked pending).2 parked.1⟩
  obtain ⟨⟨state,installed,drain,pc,unpublished⟩,request⟩ := loop
  obtain ⟨pending,publishes⟩ := erases
  cases pc with
  | armed called arm =>
    have safe := sound.safe.2
    cases arm with
    | republish next | settle next states =>
      cases safe.1
      contradiction
    | transition | stop | waitForRequest | await => simp [PhpThread.publishes] at publishes
  | shutting read => cases read <;> simp [PhpThread.publishes,shutdownState] at publishes
  | _ => simp [PhpThread.publishes] at publishes

theorem heads_safe {kind : ThreadHandler} {loop : Loop} (found : loop.thread.state.currentState ∈ heads kind)
    (observed : loop.pending = none) : loop.ArmSafe kind (kind.arm loop.thread.state.currentState) := by
  cases kind with
  | inactiveThread =>
    simp only [heads,requests,List.mem_cons,List.not_mem_nil,or_false] at found
    rcases found with same | same | same | same | same | same <;> rw [same] <;>
      simp [ThreadHandler.arm,inactiveThreadArm,ArmSafe,observed,same,requests]
  | regularThread =>
    simp only [heads,requests,List.mem_cons,List.not_mem_nil,or_false] at found
    rcases found with same | same | same | same | same | same | same <;> rw [same] <;>
      simp [ThreadHandler.arm,regularThreadArm,ArmSafe,observed,same,Rests]

theorem requests_heads {kind : ThreadHandler} {state : State} (asked : state ∈ requests) : state ∈ heads kind := by
  cases kind <;> simp [heads,asked]

theorem rests_head {kind : ThreadHandler} {loop : Loop} (regular : kind = .regularThread)
    (asked : ∀ asked, loop.pending = some asked → asked ∈ requests) (rests : loop.Rests .ready) :
    loop.thread.state.currentState ∈ heads kind := by
  rcases rests with ready | pending
  · rw [ready,regular]
    decide
  · exact requests_heads (asked _ pending)

theorem publishes_pending {handler : Handler} {loop : Loop} (sound : Sound handler loop) {published : State}
    (publishing : PhpThread.publishes loop.thread.pc = some published) :
    loop.pending = none ∨ ∃ read, loop.thread.pc = .shutting read := by
  obtain ⟨⟨state,installed,drain,pc,unpublished⟩,pending⟩ := loop
  cases pc with
  | shutting read => exact .inr ⟨read,rfl⟩
  | armed called arm =>
    have safe := sound.safe.2
    cases arm with
    | transition | republish next | settle next states => exact .inl safe.1
    | stop | waitForRequest | await => contradiction
  | _ => contradiction

theorem observed_head {handler : Handler} {loop : Loop} (sound : Sound handler loop) {called : Handler}
    (head : loop.thread.pc = .looping called) : (if loop.observes then none else loop.pending) = none := by
  cases pending : loop.pending with
  | none => simp
  | some asked =>
    have same := (sound.asked asked pending).2 (by simp [head])
    simp [observes,head,pending,same]

theorem asked_proceed {handler : Handler} {loop : Loop} {thread : PhpThread} (sound : Sound handler loop)
    (stepped : loop.thread.proceed = some thread) {asked : State} (pending : loop.pending = some asked) :
    thread.pc ≠ .absent → thread.state.currentState = asked := by
  intro there
  have here : loop.thread.pc ≠ .absent := fun absent => by simp [PhpThread.proceed,absent] at stepped
  have now := (sound.asked asked pending).2 here
  rcases (PhpThread.proceed_advance stepped).state with same | ⟨states,same⟩ | ⟨published,publishing,_⟩
  · rw [same,now]
  · rw [same,subscribe_state,now]
  · rcases publishes_pending sound publishing with none | ⟨read,shutting⟩
    · simp [none] at pending
    · simp only [PhpThread.proceed,shutting,Option.some.injEq] at stepped
      exact absurd (stepped ▸ rfl) there

theorem safe_proceed {handler : Handler} {loop : Loop} {thread : PhpThread} (sound : Sound handler loop)
    (stepped : loop.thread.proceed = some thread) :
    Safe handler ⟨thread,if loop.observes then none else loop.pending⟩ := by
  have installed := sound.installed
  have safe := sound.safe
  have asked := sound.asked
  obtain ⟨⟨state,found,drain,pc,unpublished⟩,pending⟩ := loop
  cases installed
  cases pc with
  | absent => contradiction
  | looping called =>
    cases stepped
    obtain ⟨rfl,head⟩ := safe
    have observed := observed_head sound rfl
    rw [observed]
    exact ⟨rfl,heads_safe head rfl⟩
  | armed called arm =>
    obtain ⟨rfl,safe⟩ := safe
    cases arm with
    | transition =>
      cases stepped
      rfl
    | republish next =>
      cases stepped
      obtain ⟨none,kind,rfl,_⟩ := safe
      exact ⟨rfl,by simp [kind,heads,PhpThread.publish]⟩
    | settle next states =>
      cases stepped
      obtain ⟨none,kind,rfl,rfl,_⟩ := safe
      exact ⟨rfl,kind,rfl,.inl rfl⟩
    | await states => contradiction
    | waitForRequest =>
      cases stepped
      exact ⟨rfl,safe⟩
    | stop =>
      cases stepped
      trivial
  | settling called states =>
    obtain ⟨rfl,kind,rfl,rests⟩ := safe
    have kept := subscribe_state state .pthread requests
    rcases waitFor_some stepped with ⟨inside,rfl⟩ | ⟨_,waits,rfl⟩
    · exact ⟨rfl,requests_heads (kept.symm ▸ inside)⟩
    · exact ⟨rfl,kind,by simpa [Rests,observes,kept] using rests,fun _ => waits⟩
  | waiting called states =>
    obtain ⟨rfl,kind,rests,waits⟩ := safe
    obtain ⟨woken,rfl⟩ := woken_some stepped
    rcases rests with inactive | request
    · exact absurd (waits inactive) woken
    · exact ⟨rfl,requests_heads (asked _ request).1⟩
  | progressed =>
    have kept := subscribe_state state .pthread [.transitionComplete]
    rcases waitFor_some stepped with ⟨complete,_⟩ | ⟨_,waits,rfl⟩
    · cases safe.symm.trans (List.mem_singleton.mp complete)
    · exact ⟨kept.trans safe,waits⟩
  | handover =>
    obtain ⟨woken,_⟩ := woken_some stepped
    exact absurd safe.2 woken
  | receiving => contradiction
  | fetching callback =>
    cases stepped
    exact ⟨rfl,safe⟩
  | entering callback called =>
    obtain ⟨rfl,kind,rests⟩ := safe
    cases callback with
    | before =>
      cases stepped
      exact ⟨rfl,rests_head kind (fun _ pending => (asked _ pending).1) rests⟩
    | after healthy =>
      cases stepped
      cases healthy <;> exact ⟨kind,rests⟩
  | selecting called channel =>
    obtain ⟨rfl,kind,rests⟩ := safe
    simp only [PhpThread.proceed] at stepped
    split at stepped
    · cases stepped
      exact ⟨rfl,rests_head kind (fun _ pending => (asked _ pending).1) rests⟩
    · contradiction
  | executing called =>
    cases stepped
    exact safe.2
  | restarting =>
    cases stepped
    exact safe
  | returning | shutting read =>
    cases stepped
    trivial

theorem sound_pthread {handler : Handler} {loop : Loop} {move : Move} {thread : PhpThread} (sound : Sound handler loop)
    (stepped : loop.thread.step move = some thread) :
    Sound handler ⟨thread,if loop.observes then none else loop.pending⟩ := by
  have advance := PhpThread.step_advance stepped
  have safe := sound.safe
  cases move with
  | proceed =>
    refine ⟨advance.handler.trans sound.installed,fun asked pending => ?_,safe_proceed sound stepped⟩
    split at pending
    · contradiction
    · exact ⟨(sound.asked asked pending).1,asked_proceed sound stepped pending⟩
  | deliver named =>
    obtain ⟨⟨state,found,drain,pc,unpublished⟩,pending⟩ := loop
    cases pc <;> try contradiction
    cases stepped
    refine ⟨sound.installed,fun asked same => ⟨(sound.asked asked same).1,fun _ => (sound.asked asked same).2 nofun⟩,?_⟩
    cases named with
    | true => exact safe
    | false => trivial
  | disconnect =>
    obtain ⟨⟨state,found,drain,pc,unpublished⟩,pending⟩ := loop
    cases pc <;> try contradiction
    cases stepped
    refine ⟨sound.installed,fun asked same => ⟨(sound.asked asked same).1,fun _ => (sound.asked asked same).2 nofun⟩,?_⟩
    exact ⟨safe.1,rests_head safe.2.1 (fun _ same => (sound.asked _ same).1) safe.2.2⟩
  | bailout =>
    obtain ⟨⟨state,found,drain,pc,unpublished⟩,pending⟩ := loop
    cases pc <;> try contradiction
    cases stepped
    refine ⟨sound.installed,fun asked same => ⟨(sound.asked asked same).1,fun _ => (sound.asked asked same).2 nofun⟩,?_⟩
    exact safe.2
  | crash =>
    obtain ⟨⟨state,found,drain,pc,unpublished⟩,pending⟩ := loop
    cases pc <;> try contradiction
    cases stepped
    exact ⟨sound.installed,fun asked same => ⟨(sound.asked asked same).1,fun there => absurd rfl there⟩,trivial⟩

theorem sound_request {handler : Handler} {loop : Loop} {asked : State} (sound : Sound handler loop)
    (request : asked ∈ requests)
    (stable : loop.thread.state.currentState = .ready ∨ loop.thread.state.currentState = .inactive) :
    Sound handler ⟨{ loop.thread with state := loop.thread.state.set asked },some asked⟩ := by
  have safe := sound.safe
  refine ⟨sound.installed,fun _ same => Option.some.inj same ▸ ⟨request,fun _ => rfl⟩,?_⟩
  obtain ⟨⟨state,found,drain,pc,unpublished⟩,pending⟩ := loop
  have other : asked ≠ .inactive := by
    rintro rfl
    contradiction
  cases pc with
  | absent | returning | shutting read => trivial
  | looping called => exact ⟨safe.1,requests_heads request⟩
  | armed called arm =>
    obtain ⟨rfl,safe⟩ := safe
    refine ⟨rfl,?_⟩
    cases arm with
    | waitForRequest => exact ⟨safe.1,.inr rfl⟩
    | await => contradiction
    | transition => rcases stable with same | same <;> cases same.symm.trans safe.2
    | stop => rcases stable with same | same <;> exact absurd (same ▸ safe.2) (by decide)
    | republish next => rcases stable with same | same <;> exact absurd (same ▸ safe.2.2.2) (by decide)
    | settle next states => rcases stable with same | same <;> exact absurd (same ▸ safe.2.2.2.2) (by decide)
  | settling called states => exact ⟨safe.1,safe.2.1,safe.2.2.1,.inr rfl⟩
  | waiting called states => exact ⟨safe.1,safe.2.1,.inr rfl,fun same => absurd same other⟩
  | progressed => rcases stable with same | same <;> cases same.symm.trans safe
  | handover => rcases stable with same | same <;> cases same.symm.trans safe.1
  | receiving => contradiction
  | fetching callback | restarting => exact ⟨safe.1,.inr rfl⟩
  | entering callback called | selecting called channel | executing called => exact ⟨safe.1,safe.2.1,.inr rfl⟩

theorem request_outcome (state : ThreadState Waiter) (asked : State) :
    (state.currentState = .ready ∨ state.currentState = .inactive) ∧
      state.requestSafeStateChange asked = (.granted,state.set asked) ∨
    (state.requestSafeStateChange asked).1 ≠ .granted ∧ (state.requestSafeStateChange asked).2 = state := by
  cases same : state.currentState <;> simp [ThreadState.requestSafeStateChange,same]

theorem sound_step {handler : Handler} {action : Action} {loop next : Loop} (stepped : step action loop = some next)
    (sound : Sound handler loop) : Sound handler next := by
  cases action with
  | pthread move =>
    obtain ⟨thread,took,rfl⟩ := Option.map_eq_some_iff.mp stepped
    exact sound_pthread sound took
  | request asked =>
    simp only [step] at stepped
    split at stepped
    next request =>
      cases stepped
      rcases request_outcome loop.thread.state asked with ⟨stable,outcome⟩ | ⟨denied,same⟩
      · simpa [outcome] using sound_request sound request stable
      · simpa [denied,same] using sound
    · contradiction

theorem accepted_head {kind : ThreadHandler} {state : State} (accepts : ∀ states, kind.arm state ≠ .await states)
    (safe : kind = .regularThread ∨ state ≠ .inactive ∧ state ≠ .rebootReady) : state ∈ heads kind := by
  cases kind <;> cases state <;>
    simp_all [ThreadHandler.arm,inactiveThreadArm,regularThreadArm,heads,requests]

/-- From every state that its loop accepts, whatever requests come at whatever moments, a
handler keeps them all, but for an inactive thread that is called in `Inactive` or in
`RebootReady`: it sets `Inactive` anew after it has read it. -/
theorem requests_kept {handler : Handler} {state : ThreadState Waiter} {drain : DrainChannel}
    (accepts : ∀ states, handler.kind.arm state.currentState ≠ .await states) :
    (∀ actions last, Machine.run step actions (enter handler state drain) = some last → Kept last) ↔
      handler.kind = .regularThread ∨ state.currentState ≠ .inactive ∧ state.currentState ≠ .rebootReady := by
  constructor
  · intro kept
    obtain ⟨kind,id⟩ := handler
    obtain ⟨current,subscribers⟩ := state
    cases kind with
    | regularThread => exact .inl rfl
    | inactiveThread =>
      -- the request comes between the read of the state and the set
      refine .inr ⟨?_,?_⟩
      · rintro rfl
        exact (kept [.pthread .proceed,.request .transitionRequested] _ rfl).1 ⟨rfl,.inl rfl⟩
      · rintro rfl
        exact (kept [.pthread .proceed,.pthread .proceed,.pthread .proceed,.request .transitionRequested] _ rfl).1
          ⟨rfl,.inl rfl⟩
  · intro safe actions last ran
    have first : Sound handler (enter handler state drain) := ⟨rfl,nofun,rfl,accepted_head accepts safe⟩
    exact sound_kept (Machine.run_invariant (fun _ _ _ => sound_step) ran first)

theorem requests_kept_booting : ∃ last,
    Machine.run step [.pthread .proceed,.pthread .proceed,.request .transitionRequested]
      (enter ⟨.inactiveThread,0⟩ ⟨.booting,[]⟩ .new) = some last ∧ last.pending = some .transitionRequested ∧
      Kept last := by
  have ran : ∃ last, Machine.run step [.pthread .proceed,.pthread .proceed,.request .transitionRequested]
      (enter ⟨.inactiveThread,0⟩ ⟨.booting,[]⟩ .new) = some last ∧ last.pending = some .transitionRequested :=
    ⟨_,rfl,rfl⟩
  obtain ⟨last,ran,pending⟩ := ran
  refine ⟨last,ran,pending,(requests_kept ?_).mpr (.inr ⟨?_,?_⟩) _ last ran⟩
  · simp [ThreadHandler.arm,inactiveThreadArm]
  · decide
  · decide

/-- An inactive thread called in `Inactive` reads the state, a transition is granted, and
the thread overwrites it and parks. -/
theorem request_erased : ∃ actions last,
    Machine.run step actions (enter ⟨.inactiveThread,0⟩ ⟨.inactive,[]⟩ .new) = some last ∧
    last.pending = some .transitionRequested ∧ last.Parked ∧ last.thread.state.currentState = .inactive :=
  ⟨[.pthread .proceed,.request .transitionRequested,.pthread .proceed,.pthread .proceed],_,rfl,rfl,⟨nofun,rfl⟩,rfl⟩

end Loop
end Frankenrust.Thread
