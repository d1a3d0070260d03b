import Frankenrust.Thread.Attention
import Frankenrust.Thread.Handout

/-! What a boot and an assignment do on their way: they touch their own slot only, keep its
entries in order, and the swap gives the slot its new handler. -/
namespace Frankenrust.Thread
variable {n : Nat}

namespace System
variable {system next : System n} {controller : Controller n} {choice : Choice n} {i : Fin n}

/-- A step on slot `i` alone. -/
structure Local (i : Fin n) (system next : System n) : Prop where
  others : ∀ j, j ≠ i → next.threads j = system.threads j
  main : next.main = system.main
  attended : Attended next

theorem local_put {thread : PhpThread} {after : Controller n} (attended : Attended system)
    (holder : system.scaling = some controller) (before : ∀ await, controller.awaits = some await → await.1 = i)
    (later : ∀ await, after.awaits = some await → await.1 = i) (here : Attends (blockedOn (some after) i) thread) :
    Local i system (system.put i thread after) :=
  ⟨fun _ other => Function.update_of_ne other ..,rfl,attended_put attended holder before later here⟩

theorem attends_awake (attended : Attended system) (holder : system.scaling = some controller)
    (awake : controller.awaits = none) (i : Fin n) : Attends none (system.threads i) := by
  have attends := attended i
  have quiet : (some controller).bind Controller.awaits = none := awake
  rwa [holder,blockedOn_quiet quiet] at attends

/-- A point that waits for nothing, and a change of the slot that leaves its entries in order. -/
theorem local_touch {thread : PhpThread} {after : Controller n} (attended : Attended system)
    (holder : system.scaling = some controller) (awake : controller.awaits = none) (leaves : after.awaits = none)
    (here : Attends none thread) : Local i system (system.put i thread after) := by
  have quiet : (some after).bind Controller.awaits = none := leaves
  refine local_put attended holder (by simp [awake]) (by simp [leaves]) ?_
  rwa [blockedOn_quiet quiet]

theorem local_swap {compareTo swapTo : State} {yes no : Controller n} (attended : Attended system)
    (holder : system.scaling = some controller) (awake : controller.awaits = none) (quiet : yes.awaits = none ∧ no.awaits = none) :
    Local i system (system.swap i compareTo swapTo yes no) := by
  have attends := attends_awake attended holder awake i
  by_cases same : (system.threads i).state.currentState = compareTo
  · simp only [swap,ThreadState.compareAndSwap,same,ne_eq,not_true_eq_false,if_false,if_true]
    exact local_touch attended holder awake quiet.1 (attends_set attends swapTo)
  · simp only [swap,ThreadState.compareAndSwap,same,ne_eq,not_false_eq_true,if_true,Bool.false_eq_true,if_false]
    exact local_touch attended holder awake quiet.2 (attends_congr attends rfl rfl)

theorem local_wait {state : State} {returned blocked : Controller n} (attended : Attended system)
    (holder : system.scaling = some controller) (awake : controller.awaits = none) (returns : returned.awaits = none)
    (blocks : blocked.awaits = some (i,state)) : Local i system (system.waitFor i [state] returned blocked) := by
  have attends := attends_awake attended holder awake i
  rcases waitFor_put system i [state] returned blocked with ⟨now,same⟩ | ⟨later,same⟩
  · rw [same,subscribe_now now]
    exact local_touch attended holder awake returns (attends_congr attends rfl rfl)
  · rw [same]
    have waits : blockedOn (some blocked) i = some state := by simp [blockedOn,blocks]
    refine local_put attended holder (by simp [awake]) (by simp [blocks]) ?_
    rw [waits]
    exact attends_blocked attends (List.mem_singleton.not.mp later)

/-- A blocked controller that has been woken has no entry left. -/
theorem local_woken {state : State} {returned : Controller n} (attended : Attended system)
    (holder : system.scaling = some controller) (blocks : controller.awaits = some (i,state))
    (returns : returned.awaits = none) (woke : system.woken i returned = some next) : Local i system next := by
  obtain ⟨gone,rfl⟩ := woken_goto woke
  refine ⟨fun _ _ => rfl,rfl,fun j => ?_⟩
  have attends := attended j
  have quiet : (system.goto returned).scaling.bind Controller.awaits = none := returns
  rw [blockedOn_quiet quiet]
  by_cases same : j = i
  · subst same
    exact attends_unblocked attends gone
  · have elsewhere : blockedOn system.scaling j = none := by simp [holder,blockedOn,blocks,Ne.symm same]
    rwa [elsewhere] at attends

theorem boots_local (lifecycle : Lifecycle system) (attended : Attended system) (holder : system.scaling = some controller)
    (boots : controller.boots i) (stepped : system.controllerStep controller choice = some next) :
    Local i system next := by
  cases controller <;> cases choice <;> try contradiction
  all_goals cases boots
  case bootSwap.proceed.refl | bootSwapRequested.proceed.refl =>
    cases stepped
    exact local_swap attended holder rfl ⟨rfl,rfl⟩
  case bootWait.proceed.refl =>
    cases stepped
    exact local_wait attended holder rfl rfl rfl
  case bootBlocked.proceed.refl => exact local_woken attended holder rfl rfl stepped
  all_goals have attends := attends_awake attended holder rfl i
  case bootFailed.proceed.refl =>
    cases stepped
    exact local_touch attended holder rfl rfl (attends_set attends .reserved)
  case bootReplace.proceed.refl =>
    cases stepped
    have installed : Local i system (system.install i ⟨.inactiveThread,system.inactive⟩ (.bootClose i)) :=
      local_touch attended holder rfl rfl (attends_congr attends rfl rfl)
    exact ⟨installed.others,installed.main,installed.attended⟩
  case bootClose.proceed.refl =>
    cases stepped
    refine local_touch attended holder rfl ?_ (attends_congr attends rfl rfl)
    split <;> rfl
  case bootReopen.proceed.refl =>
    cases stepped
    exact local_touch attended holder rfl rfl (attends_congr attends rfl rfl)
  case bootLaunch.launchFails.refl =>
    cases stepped
    exact ⟨fun _ _ => rfl,rfl,attended_goto attended (by rw [holder]; rfl) rfl⟩
  case bootLaunch.proceed.refl =>
    cases stepped
    -- the slot had no pthread, so none of its entries is one's
    have absent : (system.threads i).pc = .absent := by
      simp only [Lifecycle,holder] at lifecycle
      exact ((Marks.holds_head lifecycle.1).launch.1 (by simp [Stage.fitted])).1
    have silent := attends_silent attends (by rw [absent]; rfl)
    have launched : Attends none ((system.threads i).goto (.fetching .before)) := attends_goto attends silent (by rintro _ ⟨⟩)
    exact local_touch attended holder rfl rfl (attends_congr launched rfl rfl)

theorem assigns_local {handler : Handler} (lifecycle : Lifecycle system) (attended : Attended system)
    (holder : system.scaling = some controller) (assigns : controller.assigns i handler)
    (inactive : ∀ goal j, controller = .requesting goal j → (system.threads i).state.currentState = .inactive)
    (stepped : system.controllerStep controller choice = some next) : Local i system next := by
  cases controller <;> cases choice <;> try contradiction
  case requesting.proceed goal j =>
    cases stepped
    obtain ⟨rfl,rfl⟩ := assigns
    have attends := attends_awake attended holder rfl j
    have granted := inactive _ _ rfl
    simp only [request,ThreadState.requestSafeStateChange,granted]
    exact local_touch attended holder rfl rfl (attends_set attends _)
  case closing.proceed goal j =>
    cases stepped
    obtain ⟨rfl,rfl⟩ := assigns
    obtain ⟨sender,held⟩ := Option.isSome_iff_exists.mp (closing_open lifecycle holder)
    simp only [close,DrainChannel.close_open held,afterClose]
    exact local_touch attended holder rfl rfl (attends_congr (attends_awake attended holder rfl j) rfl rfl)
  case progressWait.proceed j installed closed =>
    cases stepped
    obtain ⟨rfl,rfl⟩ := assigns
    exact local_wait attended holder rfl rfl rfl
  case progressBlocked.proceed =>
    obtain ⟨rfl,rfl⟩ := assigns
    exact local_woken attended holder rfl rfl stepped
  case replacing.proceed j installed closed =>
    cases stepped
    obtain ⟨rfl,rfl⟩ := assigns
    exact local_touch attended holder rfl rfl (attends_congr (attends_awake attended holder rfl j) rfl rfl)
  case reopening.proceed j closed =>
    cases stepped
    cases assigns
    exact local_touch attended holder rfl rfl (attends_congr (attends_awake attended holder rfl _) rfl rfl)
  case completing.proceed j =>
    cases stepped
    cases assigns
    exact local_touch attended holder rfl rfl (attends_set (attends_awake attended holder rfl _) _)

theorem answers_congr {thread other : PhpThread} (answers : Answers thread)
    (state : other.state.currentState = thread.state.currentState) (pc : other.pc = thread.pc) : Answers other := by
  cases answers with
  | parked known parked => exact .parked (by rwa [state]) (by rwa [pc])
  | looping requested looping => exact .looping (by rwa [state]) (pc.trans looping)
  | armed requested armed => exact .armed (by rwa [state]) (pc.trans armed)
  | answered answered => exact .answered (by rwa [state])

/-- Where the swap of a slot stands: until the installation its pthread answers, and from
then on the handler is the new one. -/
def Swaps (thread : PhpThread) (controller : Controller n) : Prop :=
  if controller.replaced = true ∨ controller = .held then Regular thread else Answers thread

theorem swaps_step {stage : Stage} {blocked : Option State} {thread after : PhpThread} {move : Move} (fits : Fits stage thread)
    (attends : Attends blocked thread) (swaps : Swaps thread controller) (took : thread.step move = some after) :
    Swaps after controller := by
  unfold Swaps at swaps ⊢
  split
  next late =>
    rw [if_pos late] at swaps
    intro handler same
    exact swaps handler ((PhpThread.step_advance took).handler ▸ same)
  next early =>
    rw [if_neg early] at swaps
    exact answers_step fits attends swaps took

theorem assigns_swaps {handler : Handler} {after : Controller n} (lifecycle : Lifecycle system)
    (holder : system.scaling = some controller) (assigns : controller.assigns i handler)
    (regular : handler.kind = .regularThread) (swaps : Swaps (system.threads i) controller)
    (inactive : ∀ goal j, controller = .requesting goal j → (system.threads i).state.currentState = .inactive)
    (stepped : system.controllerStep controller choice = some next) (went : next.scaling = some after) :
    Swaps (next.threads i) after := by
  cases controller <;> cases choice <;> try contradiction
  case requesting.proceed goal j =>
    cases stepped
    obtain ⟨rfl,rfl⟩ := assigns
    have granted := inactive _ _ rfl
    simp only [request,ThreadState.requestSafeStateChange,granted] at went ⊢
    cases went
    rw [put_self]
    cases (swaps : Answers (system.threads j)) with
    | parked _ parked => exact Answers.parked (.inr rfl) parked
    | looping requested | armed requested | answered requested => cases granted.symm.trans requested
  case closing.proceed goal j =>
    cases stepped
    obtain ⟨rfl,rfl⟩ := assigns
    obtain ⟨sender,held⟩ := Option.isSome_iff_exists.mp (closing_open lifecycle holder)
    simp only [close,DrainChannel.close_open held,afterClose] at went ⊢
    cases went
    rw [put_self]
    exact answers_congr swaps rfl rfl
  case progressWait.proceed j installed closed =>
    cases stepped
    obtain ⟨rfl,rfl⟩ := assigns
    have kept : Answers { system.threads j with state := ((system.threads j).state.subscribe .controller [.transitionInProgress]).2 } :=
      answers_congr swaps (subscribe_state ..) rfl
    rcases waitFor_put system j [.transitionInProgress] (.replacing j installed closed)
      (.progressBlocked j installed closed) with ⟨_,same⟩ | ⟨_,same⟩
    all_goals
      rw [same] at went ⊢
      cases went
      rw [put_self]
      exact kept
  case progressBlocked.proceed =>
    obtain ⟨_,rfl⟩ := woken_goto stepped
    cases went
    exact swaps
  case replacing.proceed j installed closed =>
    cases stepped
    obtain ⟨rfl,rfl⟩ := assigns
    cases went
    rw [install,put_self]
    intro found same
    cases same
    exact regular
  case reopening.proceed j closed =>
    cases stepped
    cases assigns
    cases went
    rw [reopen,put_self]
    exact swaps
  case completing.proceed j =>
    cases stepped
    cases assigns
    cases went
    rw [publish,put_self]
    exact swaps

end System
end Frankenrust.Thread
