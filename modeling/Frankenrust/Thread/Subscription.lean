import Frankenrust.Thread.Sharing
import Mathlib.Data.List.Nodup

/-! No wake-up of a shared `ThreadState` is lost: a registered entry never lists the current
state, and an entry goes only when one of its states is entered or its own waiter gives up. -/
namespace Frankenrust.Thread
open ThreadState

theorem unsubscribe_mem {threadState : ThreadState Nat} {token : Nat} {subscriber : Subscriber Nat} :
    subscriber ∈ (threadState.unsubscribe token).subscribers ↔
      subscriber ∈ threadState.subscribers ∧ subscriber.waiter ≠ token := by
  simp [unsubscribe]

theorem waits_token {call : Call} {token : Nat} {states : List State} (waits : call.waits = some (token,states)) :
    call.token = some token := by
  cases call <;> simp_all [Call.waits,Call.token]

namespace Sharing
variable {ι : Type} [DecidableEq ι] {sharing next : Sharing ι} {i : ι}

/-- What a critical section can do: enter a state, move a call on, register an entry or
take back the entry of a waiter whose time is over. -/
inductive Change (sharing : Sharing ι) (i : ι) : Option (Event ι) → Sharing ι → Prop
  | published {event : Event ι} {state : State} {call : Call} (enters : event.enters = some state)
      (before : (sharing.calls i).token = none) (after : call.token = none) :
      Change sharing i (some event) { sharing.goto i call with state := sharing.state.set state }
  | moved {event : Option (Event ι)} {call : Call} (quiet : event.bind Event.enters = none) (waits : call.waits = none)
      (token : call.token = none ∨ call.token = (sharing.calls i).token)
      (left : ∀ token, (sharing.calls i).token = some token → call.token = some token ∨ ¬sharing.state.Waits token) :
      Change sharing i event (sharing.goto i call)
  | subscribed {states : List State} {call : Call} (before : (sharing.calls i).token = none)
      (waits : call.waits = some (sharing.fresh,states)) (other : sharing.state.currentState ∉ states) :
      Change sharing i (some (.subscribed sharing.fresh states))
        { sharing.goto i call with
          state := ⟨sharing.state.currentState,sharing.state.subscribers ++ [⟨sharing.fresh,states⟩]⟩
          fresh := sharing.fresh + 1 }
  | removed {token : Nat} (expired : sharing.calls i = .expired token) :
      Change sharing i none { sharing.goto i .idle with state := sharing.state.unsubscribe token }

theorem goto_same : sharing.goto i (sharing.calls i) = sharing := by
  simp [goto]

theorem change_set {event : Event ι} {state : State} (idle : sharing.calls i = .idle)
    (enters : event.enters = some state) :
    Change sharing i (some event) { sharing with state := sharing.state.set state } := by
  have token : (sharing.calls i).token = none := by simp [idle,Call.token]
  have change : Change sharing i (some event)
      { sharing.goto i (sharing.calls i) with state := sharing.state.set state } :=
    Change.published enters token token
  rwa [goto_same] at change

theorem change_subscribe {states : List State} {returned : Call} {blocked : Nat → Call}
    (before : (sharing.calls i).token = none) (quiet : returned.token = none ∧ returned.waits = none)
    (waits : ∀ token, (blocked token).waits = some (token,states)) :
    Change sharing i (sharing.subscription states) (sharing.subscribe i states returned blocked) := by
  by_cases now : sharing.state.currentState ∈ states
  · simp only [subscribe,subscription,ThreadState.subscribe,List.contains_eq_mem,now,decide_true,if_true]
    apply Change.moved rfl quiet.2 (.inl quiet.1)
    intro token held
    simp [before] at held
  · simp only [subscribe,subscription,ThreadState.subscribe,List.contains_eq_mem,now,decide_false,Bool.false_eq_true,
      if_false]
    exact Change.subscribed before (waits _) now

theorem change_returned {token : Nat} {call : Call} (held : (sharing.calls i).token = some token)
    (gone : ¬sharing.state.Waits token) (quiet : call.token = none ∧ call.waits = none) :
    Change sharing i none (sharing.goto i call) := by
  apply Change.moved rfl quiet.2 (.inl quiet.1)
  intro other same
  cases held.symm.trans same
  exact .inr gone

theorem change_request {wanted : State} (requesting : sharing.calls i = .requesting wanted)
    (stepped : sharing.proceed i = some next) : Change sharing i (event (.proceed i) sharing) next := by
  have token : (sharing.calls i).token = none := by simp [requesting,Call.token]
  have unheld (call : Call) (quiet : call.token = none ∧ call.waits = none) {event : Option (Event ι)}
      (silent : event.bind Event.enters = none) : Change sharing i event (sharing.goto i call) := by
    apply Change.moved silent quiet.2 (.inl quiet.1)
    intro other same
    simp [token] at same
  simp only [proceed,requesting] at stepped
  simp only [event,requesting]
  cases now : sharing.state.currentState <;> simp only [requestSafeStateChange,now,Option.some.injEq] at stepped ⊢ <;>
    subst stepped
  case ready | inactive => exact Change.published rfl token rfl
  all_goals exact unheld _ ⟨rfl,rfl⟩ rfl

theorem change_proceed (stepped : sharing.proceed i = some next) :
    Change sharing i (event (.proceed i) sharing) next := by
  cases now : sharing.calls i with
  | idle => simp [proceed,now] at stepped
  | waiting token states | timing token states =>
    simp only [proceed,now] at stepped
    split at stepped
    · contradiction
    next gone =>
      cases stepped
      simpa [event,now] using change_returned (by simp [now,Call.token]) gone ⟨rfl,rfl⟩
  | expired token =>
    simp only [proceed,now,Option.some.injEq] at stepped
    subst stepped
    simpa [event,now] using Change.removed now
  | requesting wanted => exact change_request now stepped
  | unsettled wanted =>
    simp only [proceed,now,Option.some.injEq] at stepped
    subst stepped
    simp only [event,now]
    exact change_subscribe (by simp [now,Call.token]) ⟨rfl,rfl⟩ fun _ => rfl
  | parked token wanted =>
    simp only [proceed,now] at stepped
    split at stepped
    · contradiction
    next gone =>
      cases stepped
      simpa [event,now] using change_returned (by simp [now,Call.token]) gone ⟨rfl,rfl⟩

theorem step_change {action : Action ι} (stepped : step action sharing = some next) :
    ∃ i, Change sharing i (event action sharing) next := by
  cases action with
  | set i state =>
    simp only [step] at stepped
    split at stepped
    next idle =>
      cases stepped
      exact ⟨i,change_set idle rfl⟩
    · contradiction
  | compareAndSwap i compareTo swapTo =>
    simp only [step] at stepped
    split at stepped
    next idle =>
      cases stepped
      refine ⟨i,?_⟩
      by_cases same : sharing.state.currentState = compareTo
      · simpa [event,compareAndSwap,same] using change_set idle rfl
      · have change : Change sharing i none (sharing.goto i (sharing.calls i)) := by
          apply Change.moved rfl (by simp [idle,Call.waits]) (.inr rfl)
          intro token held
          exact .inl held
        rw [goto_same] at change
        simpa [event,compareAndSwap,same] using change
    · contradiction
  | waitFor i states | waitForStateWithTimeout i states =>
    simp only [step] at stepped
    split at stepped
    next idle =>
      cases stepped
      exact ⟨i,change_subscribe (by simp [idle,Call.token]) ⟨rfl,rfl⟩ fun _ => rfl⟩
    · contradiction
  | requestSafeStateChange i wanted =>
    simp only [step] at stepped
    split at stepped
    next idle =>
      cases stepped
      refine ⟨i,Change.moved rfl rfl (.inl rfl) ?_⟩
      intro token held
      simp [idle,Call.token] at held
    · contradiction
  | proceed i => exact ⟨i,change_proceed stepped⟩
  | timeout i =>
    simp only [step] at stepped
    split at stepped
    next token states timing =>
      cases stepped
      refine ⟨i,Change.moved rfl rfl (.inr (by simp [timing,Call.token])) ?_⟩
      intro other held
      rw [timing] at held
      exact .inl held
    · contradiction

/-- What holds of the entries and of the calls that wait, given the events so far. -/
structure Told (events : List (Event ι)) (sharing : Sharing ι) : Prop where
  silent : ∀ subscriber ∈ sharing.state.subscribers, sharing.state.currentState ∉ subscriber.states
  single : (sharing.state.subscribers.map (·.waiter)).Nodup
  held : ∀ subscriber ∈ sharing.state.subscribers, ∃ i, (sharing.calls i).token = some subscriber.waiter ∧
    ∀ token states, (sharing.calls i).waits = some (token,states) → states = subscriber.states
  own : ∀ i j token, (sharing.calls i).token = some token → (sharing.calls j).token = some token → i = j
  old : ∀ i token, (sharing.calls i).token = some token → token < sharing.fresh
  kept : ∀ i token states, (sharing.calls i).waits = some (token,states) →
    ∃ front back, events = front ++ .subscribed token states :: back ∧
      (sharing.state.Waits token ∨ ∃ event ∈ back, ∃ state ∈ states, event.enters = some state)

omit [DecidableEq ι] in
theorem told_init : Told [] (init : Sharing ι) := by
  refine ⟨?_,List.nodup_nil,?_,?_,?_,?_⟩
  · intro subscriber member
    contradiction
  · intro subscriber member
    contradiction
  · intro i j token held
    contradiction
  · intro i token held
    contradiction
  · intro i token states waits
    contradiction

omit [DecidableEq ι] in
theorem kept_later (event : Option (Event ι)) (after : ThreadState Nat) {token : Nat} {states : List State}
    {events : List (Event ι)} {before : ThreadState Nat}
    (kept : ∃ front back, events = front ++ .subscribed token states :: back ∧
      (before.Waits token ∨ ∃ event ∈ back, ∃ state ∈ states, event.enters = some state))
    (still : before.Waits token → after.Waits token ∨ ∃ state ∈ states, event.bind Event.enters = some state) :
    ∃ front back, events ++ event.toList = front ++ .subscribed token states :: back ∧
      (after.Waits token ∨ ∃ event ∈ back, ∃ state ∈ states, event.enters = some state) := by
  obtain ⟨front,back,split,kept⟩ := kept
  refine ⟨front,back ++ event.toList,by simp [split],?_⟩
  rcases kept with waits | ⟨earlier,member,entered⟩
  · rcases still waits with still | ⟨state,wanted,enters⟩
    · exact .inl still
    · obtain ⟨event,rfl,enters⟩ := Option.bind_eq_some_iff.mp enters
      exact .inr ⟨event,by simp,state,wanted,enters⟩
  · exact .inr ⟨earlier,List.mem_append_left _ member,entered⟩

/-- The calls other than the one that moves are the same, and so are their tokens. -/
theorem goto_other {call : Call} {j : ι} (other : j ≠ i) : (sharing.goto i call).calls j = sharing.calls j :=
  Function.update_of_ne other ..

theorem goto_self {call : Call} : (sharing.goto i call).calls i = call := Function.update_self ..

theorem token_goto {call : Call} {j : ι} {token : Nat} (inside : ((sharing.goto i call).calls j).token = some token) :
    j = i ∧ call.token = some token ∨ j ≠ i ∧ (sharing.calls j).token = some token := by
  by_cases same : j = i
  · subst same
    rw [goto_self] at inside
    exact .inl ⟨rfl,inside⟩
  · rw [goto_other same] at inside
    exact .inr ⟨same,inside⟩

theorem waits_goto {call : Call} {j : ι} {wait : Nat × List State}
    (inside : ((sharing.goto i call).calls j).waits = some wait) :
    j = i ∧ call.waits = some wait ∨ j ≠ i ∧ (sharing.calls j).waits = some wait := by
  by_cases same : j = i
  · subst same
    rw [goto_self] at inside
    exact .inl ⟨rfl,inside⟩
  · rw [goto_other same] at inside
    exact .inr ⟨same,inside⟩

theorem told_published {events : List (Event ι)} {event : Event ι} {state : State} {call : Call}
    (told : Told events sharing) (enters : event.enters = some state) (before : (sharing.calls i).token = none)
    (after : call.token = none) :
    Told (events ++ [event]) { sharing.goto i call with state := sharing.state.set state } := by
  refine ⟨?_,told.single.sublist (List.filter_sublist.map _),?_,?_,?_,?_⟩
  · intro subscriber member
    exact (mem_set.mp member).2
  · intro subscriber member
    obtain ⟨j,held,states⟩ := told.held subscriber (mem_set.mp member).1
    have other : j ≠ i := by
      rintro rfl
      simp [before] at held
    refine ⟨j,?_,?_⟩
    · exact (congrArg Call.token (goto_other other)).trans held
    · intro token waited waits
      exact states token waited ((congrArg Call.waits (goto_other other)).symm.trans waits)
  · intro j k token first second
    rcases token_goto first with ⟨_,held⟩ | ⟨_,first⟩
    · simp [after] at held
    rcases token_goto second with ⟨_,held⟩ | ⟨_,second⟩
    · simp [after] at held
    · exact told.own j k token first second
  · intro j token held
    rcases token_goto held with ⟨_,held⟩ | ⟨_,held⟩
    · simp [after] at held
    · exact told.old j token held
  · intro j token states waits
    rcases waits_goto waits with ⟨_,waits⟩ | ⟨_,waits⟩
    · simp [waits_token waits] at after
    apply kept_later (some event) _ (told.kept j token states waits)
    rintro ⟨subscriber,member,rfl⟩
    by_cases wanted : state ∈ states
    · exact .inr ⟨state,wanted,enters⟩
    · obtain ⟨k,held,same⟩ := told.held subscriber member
      obtain rfl := told.own k j _ held (waits_token waits)
      have listed := same _ _ waits
      exact .inl ⟨subscriber,mem_set.mpr ⟨member,listed ▸ wanted⟩,rfl⟩

theorem told_moved {events : List (Event ι)} {event : Option (Event ι)} {call : Call} (told : Told events sharing)
    (waits : call.waits = none) (token : call.token = none ∨ call.token = (sharing.calls i).token)
    (left : ∀ token, (sharing.calls i).token = some token → call.token = some token ∨ ¬sharing.state.Waits token) :
    Told (events ++ event.toList) (sharing.goto i call) := by
  have earlier {j : ι} {found : Nat} (held : ((sharing.goto i call).calls j).token = some found) :
      (sharing.calls j).token = some found := by
    rcases token_goto held with ⟨mine,inside⟩ | ⟨_,inside⟩
    · rcases token with none | same
      · simp [none] at inside
      · exact mine ▸ same.symm.trans inside
    · exact inside
  refine ⟨told.silent,told.single,?_,?_,?_,?_⟩
  · intro subscriber member
    obtain ⟨j,held,states⟩ := told.held subscriber member
    by_cases same : j = i
    · subst same
      rcases left _ held with still | gone
      · refine ⟨j,(congrArg Call.token goto_self).trans still,?_⟩
        intro found waited inside
        rw [goto_self,waits] at inside
        contradiction
      · exact absurd ⟨subscriber,member,rfl⟩ gone
    · refine ⟨j,(congrArg Call.token (goto_other same)).trans held,?_⟩
      intro found waited inside
      exact states found waited ((congrArg Call.waits (goto_other same)).symm.trans inside)
  · intro j k found first second
    exact told.own j k found (earlier first) (earlier second)
  · intro j found held
    exact told.old j found (earlier held)
  · intro j found states inside
    rcases waits_goto inside with ⟨_,inside⟩ | ⟨_,inside⟩
    · simp [waits] at inside
    · exact kept_later _ _ (told.kept j found states inside) .inl

theorem told_subscribed {events : List (Event ι)} {states : List State} {call : Call} (told : Told events sharing)
    (before : (sharing.calls i).token = none) (waits : call.waits = some (sharing.fresh,states)) (other : sharing.state.currentState ∉ states) :
    Told (events ++ [.subscribed sharing.fresh states]) { sharing.goto i call with
      state := ⟨sharing.state.currentState,sharing.state.subscribers ++ [⟨sharing.fresh,states⟩]⟩
      fresh := sharing.fresh + 1 } := by
  have new := waits_token waits
  have unused {j : ι} : (sharing.calls j).token ≠ some sharing.fresh := by
    intro held
    exact absurd (told.old j _ held) (Nat.lt_irrefl _)
  refine ⟨?_,?_,?_,?_,?_,?_⟩
  · intro subscriber member
    rcases List.mem_append.mp member with older | newest
    · exact told.silent subscriber older
    · rw [List.mem_singleton.mp newest]
      exact other
  · rw [List.map_append,List.nodup_append]
    refine ⟨told.single,List.pairwise_singleton _ _,?_⟩
    rintro token member _ newest rfl
    obtain ⟨subscriber,older,rfl⟩ := List.mem_map.mp member
    obtain ⟨j,held,_⟩ := told.held subscriber older
    rw [List.mem_singleton.mp newest] at held
    exact unused held
  · intro subscriber member
    rcases List.mem_append.mp member with older | newest
    · obtain ⟨j,held,listed⟩ := told.held subscriber older
      have same : j ≠ i := by
        rintro rfl
        simp [before] at held
      refine ⟨j,(congrArg Call.token (goto_other same)).trans held,?_⟩
      intro found waited inside
      exact listed found waited ((congrArg Call.waits (goto_other same)).symm.trans inside)
    · rw [List.mem_singleton.mp newest]
      refine ⟨i,(congrArg Call.token goto_self).trans new,?_⟩
      intro found waited inside
      cases waits.symm.trans ((congrArg Call.waits goto_self).symm.trans inside)
      rfl
  · intro j k token first second
    rcases token_goto first with ⟨one,mine⟩ | ⟨_,mine⟩
    · rcases token_goto second with ⟨two,_⟩ | ⟨_,other⟩
      · exact one.trans two.symm
      · cases new.symm.trans mine
        exact absurd other unused
    · rcases token_goto second with ⟨_,other⟩ | ⟨_,other⟩
      · cases new.symm.trans other
        exact absurd mine unused
      · exact told.own j k token mine other
  · intro j token held
    rcases token_goto held with ⟨_,held⟩ | ⟨_,held⟩
    · cases new.symm.trans held
      exact Nat.lt_succ_self _
    · exact Nat.lt_succ_of_lt (told.old j token held)
  · intro j token found inside
    rcases waits_goto inside with ⟨_,inside⟩ | ⟨_,inside⟩
    · cases waits.symm.trans inside
      exact ⟨events,[],rfl,.inl ⟨⟨sharing.fresh,states⟩,by simp,rfl⟩⟩
    · apply kept_later (some _) _ (told.kept j token found inside)
      rintro ⟨subscriber,member,same⟩
      exact .inl ⟨subscriber,List.mem_append_left _ member,same⟩

theorem told_removed {events : List (Event ι)} {token : Nat} (told : Told events sharing)
    (expired : sharing.calls i = .expired token) :
    Told events { sharing.goto i .idle with state := sharing.state.unsubscribe token } := by
  have mine : (sharing.calls i).token = some token := by simp [expired,Call.token]
  refine ⟨?_,told.single.sublist (List.filter_sublist.map _),?_,?_,?_,?_⟩
  · intro subscriber member
    exact told.silent subscriber (unsubscribe_mem.mp member).1
  · intro subscriber member
    obtain ⟨older,different⟩ := unsubscribe_mem.mp member
    obtain ⟨j,held,states⟩ := told.held subscriber older
    have other : j ≠ i := by
      rintro rfl
      exact different (Option.some.inj (held.symm.trans mine))
    refine ⟨j,(congrArg Call.token (goto_other other)).trans held,?_⟩
    intro found waited inside
    exact states found waited ((congrArg Call.waits (goto_other other)).symm.trans inside)
  · intro j k found first second
    rcases token_goto first with ⟨_,none⟩ | ⟨_,first⟩
    · contradiction
    rcases token_goto second with ⟨_,none⟩ | ⟨_,second⟩
    · contradiction
    · exact told.own j k found first second
  · intro j found held
    rcases token_goto held with ⟨_,none⟩ | ⟨_,held⟩
    · contradiction
    · exact told.old j found held
  · intro j found states inside
    rcases waits_goto inside with ⟨_,none⟩ | ⟨other,inside⟩
    · contradiction
    have kept := kept_later none (sharing.state.unsubscribe token)
      (told.kept j found states inside) ?_
    · rwa [Option.toList_none,List.append_nil] at kept
    rintro ⟨subscriber,member,rfl⟩
    have different : subscriber.waiter ≠ token := by
      intro same
      exact other (told.own j i token (same ▸ waits_token inside) mine)
    exact .inl ⟨subscriber,unsubscribe_mem.mpr ⟨member,different⟩,rfl⟩

theorem told_step {events : List (Event ι)} {action : Action ι} (stepped : step action sharing = some next)
    (told : Told events sharing) : Told (events ++ (event action sharing).toList) next := by
  obtain ⟨i,change⟩ := step_change stepped
  generalize event action sharing = happened at change ⊢
  cases change with
  | published enters before after => exact told_published told enters before after
  | moved _ waits token left => exact told_moved told waits token left
  | subscribed before waits other => exact told_subscribed told before waits other
  | removed expired =>
    rw [Option.toList_none,List.append_nil]
    exact told_removed told expired

theorem entered_set {action : Action ι} {state : State} (stepped : step action sharing = some next)
    (entered : (event action sharing).bind Event.enters = some state) :
    next.state = sharing.state.set state := by
  obtain ⟨i,change⟩ := step_change stepped
  obtain ⟨happened,same,enters⟩ := Option.bind_eq_some_iff.mp entered
  rw [same] at change
  generalize recorded : some happened = found at change
  cases change with
  | published other =>
    cases recorded
    cases enters.symm.trans other
    rfl
  | moved quiet =>
    subst recorded
    simp [enters] at quiet
  | subscribed =>
    cases recorded
    contradiction
  | removed => contradiction

omit [DecidableEq ι] in
theorem notified {events : List (Event ι)} (told : Told events sharing) {state : State} {subscriber : Subscriber Nat}
    (member : subscriber ∈ sharing.state.subscribers) :
    (sharing.state.set state).Waits subscriber.waiter ↔ state ∉ subscriber.states := by
  constructor
  · rintro ⟨found,kept,same⟩ wanted
    obtain ⟨inside,other⟩ := mem_set.mp kept
    obtain rfl := List.inj_on_of_nodup_map told.single inside member same
    exact other wanted
  · intro other
    exact ⟨subscriber,mem_set.mpr ⟨member,other⟩,rfl⟩

theorem returned_entered {events : List (Event ι)} (told : Told events sharing) {token : Nat} {states : List State}
    (waits : (sharing.calls i).waits = some (token,states)) (stepped : step (.proceed i) sharing = some next) :
    ∃ front back event state, events = front ++ .subscribed token states :: back ∧
      event ∈ back ∧ state ∈ states ∧ event.enters = some state := by
  have gone : ¬sharing.state.Waits token := by
    simp only [step,proceed] at stepped
    cases now : sharing.calls i <;> simp only [now,Call.waits,reduceCtorEq,Option.some.injEq,Prod.mk.injEq] at waits stepped
    all_goals
      rw [waits.1] at stepped
      split at stepped
      · contradiction
      next gone => exact gone
  obtain ⟨front,back,split,still | ⟨event,member,state,wanted,enters⟩⟩ := told.kept i token states waits
  · exact absurd still gone
  · exact ⟨front,back,event,state,split,member,wanted,enters⟩

theorem returns_at_once {states : List State} (stepped : step (.waitFor i states) sharing = some next ∨
      step (.waitForStateWithTimeout i states) sharing = some next) :
    next.calls i = .idle ↔ sharing.state.currentState ∈ states := by
  have outcome {blocked : Nat → Call} (other : ∀ token, blocked token ≠ .idle) :
      (sharing.subscribe i states .idle blocked).calls i = .idle ↔ sharing.state.currentState ∈ states := by
    by_cases now : sharing.state.currentState ∈ states <;> simp [subscribe,ThreadState.subscribe,now,goto,other]
  rcases stepped with stepped | stepped
  all_goals
    simp only [step] at stepped
    split at stepped
    · cases stepped
      exact outcome nofun
    · contradiction

theorem expired_removed {events : List (Event ι)} (told : Told events sharing) {token : Nat}
    (expired : sharing.calls i = .expired token) (stepped : step (.proceed i) sharing = some next) :
    next.calls i = .idle ∧ ¬next.state.Waits token ∧ ∀ subscriber ∈ sharing.state.subscribers,
      ∀ j, j ≠ i → (sharing.calls j).token = some subscriber.waiter → subscriber ∈ next.state.subscribers := by
  simp only [step,proceed,expired,Option.some.injEq] at stepped
  subst stepped
  refine ⟨goto_self,?_,?_⟩
  · rintro ⟨subscriber,member,same⟩
    exact (unsubscribe_mem.mp member).2 same
  · intro subscriber member j other held
    refine unsubscribe_mem.mpr ⟨member,?_⟩
    intro same
    exact other (told.own j i token (same ▸ held) (by simp [expired,Call.token]))

omit [DecidableEq ι] in
theorem parked_unstable {events : List (Event ι)} (told : Told events sharing) {token : Nat} {wanted : State}
    (parked : sharing.calls i = .parked token wanted) (waits : sharing.state.Waits token) :
    sharing.state.currentState ∉ safeStates := by
  obtain ⟨subscriber,member,rfl⟩ := waits
  obtain ⟨j,held,listed⟩ := told.held subscriber member
  obtain rfl := told.own j i _ held (by simp [parked,Call.token])
  rw [listed subscriber.waiter safeStates (by simp [parked,Call.waits])]
  exact told.silent subscriber member

theorem request_answered {wanted : State} (requesting : sharing.calls i = .requesting wanted)
    (stepped : step (.proceed i) sharing = some next) :
    event (.proceed i) sharing = some (.granted i wanted) ∧ next.calls i = .idle ∧
        (sharing.state.currentState = .ready ∨ sharing.state.currentState = .inactive) ∧
        next.state.currentState = wanted ∨
      event (.proceed i) sharing = some (.refused i) ∧ next.calls i = .idle ∧ next.state = sharing.state ∨
      event (.proceed i) sharing = none ∧ next.calls i = .unsettled wanted ∧ next.state = sharing.state := by
  simp only [step,proceed,requesting] at stepped
  simp only [event,requesting]
  cases now : sharing.state.currentState <;> simp only [requestSafeStateChange,now,Option.some.injEq] at stepped ⊢ <;>
    subst stepped
  case ready | inactive => exact .inl ⟨trivial,goto_self,by simp,rfl⟩
  case reserved | shuttingDown | done => exact .inr (.inl ⟨trivial,goto_self,rfl⟩)
  all_goals exact .inr (.inr ⟨trivial,goto_self,rfl⟩)

/-- In every state of every run of any number of threads: no entry lists the current state;
a wait returns at once in one of its states, else only after one of them has been entered;
whoever enters a state notifies exactly the entries that list it; every entry belongs to a
call, and a waiter whose time is over takes back its own entry and no other; and no request
is parked in a stable state, but is granted in one step from `Ready` or `Inactive`, or
refused without a change. -/
theorem wakeups_kept {actions : List (Action ι)} (ran : Machine.run step actions init = some sharing) :
    (∀ subscriber ∈ sharing.state.subscribers, sharing.state.currentState ∉ subscriber.states) ∧
    (∀ i states next, step (.waitFor i states) sharing = some next ∨
      step (.waitForStateWithTimeout i states) sharing = some next →
      (next.calls i = .idle ↔ sharing.state.currentState ∈ states)) ∧
    (∀ i token states next, (sharing.calls i).waits = some (token,states) → step (.proceed i) sharing = some next →
      ∃ front back entry state, Machine.trace step event actions init = front ++ .subscribed token states :: back ∧
        entry ∈ back ∧ state ∈ states ∧ entry.enters = some state) ∧
    (∀ action next state, step action sharing = some next → (event action sharing).bind Event.enters = some state →
      next.state.currentState = state ∧ ∀ subscriber ∈ sharing.state.subscribers,
        (next.state.Waits subscriber.waiter ↔ state ∉ subscriber.states)) ∧
    (∀ subscriber ∈ sharing.state.subscribers, ∃ i, (sharing.calls i).token = some subscriber.waiter) ∧
    (∀ i token next, sharing.calls i = .expired token → step (.proceed i) sharing = some next →
      next.calls i = .idle ∧ ¬next.state.Waits token ∧ ∀ subscriber ∈ sharing.state.subscribers,
        ∀ j, j ≠ i → (sharing.calls j).token = some subscriber.waiter → subscriber ∈ next.state.subscribers) ∧
    (∀ i token wanted, sharing.calls i = .parked token wanted → sharing.state.Waits token →
      sharing.state.currentState ∉ safeStates) ∧
    (∀ i wanted next, sharing.calls i = .requesting wanted → step (.proceed i) sharing = some next →
      event (.proceed i) sharing = some (.granted i wanted) ∧ next.calls i = .idle ∧
          (sharing.state.currentState = .ready ∨ sharing.state.currentState = .inactive) ∧
          next.state.currentState = wanted ∨
        event (.proceed i) sharing = some (.refused i) ∧ next.calls i = .idle ∧ next.state = sharing.state ∨
        event (.proceed i) sharing = none ∧ next.calls i = .unsettled wanted ∧ next.state = sharing.state) := by
  have told := Machine.run_history (fun _ _ _ _ => told_step) ran told_init
  rw [List.nil_append] at told
  refine ⟨told.silent,?_,?_,?_,?_,?_,?_,?_⟩
  · intro i states next stepped
    exact returns_at_once stepped
  · intro i token states next waits stepped
    exact returned_entered told waits stepped
  · intro action next state stepped entered
    rw [entered_set stepped entered]
    exact ⟨rfl,fun subscriber member => notified told member⟩
  · intro subscriber member
    obtain ⟨i,held,_⟩ := told.held subscriber member
    exact ⟨i,held⟩
  · intro i token next expired stepped
    exact expired_removed told expired stepped
  · intro i token wanted parked waits
    exact parked_unstable told parked waits
  · intro i wanted next requesting stepped
    exact request_answered requesting stepped

/-- Two waiters for the same state, of which one gives up before it is entered. -/
theorem wakeups_kept_timeout : ∃ sharing : Sharing (Fin 2),
    Machine.run step [.waitForStateWithTimeout 0 [.ready],.waitForStateWithTimeout 1 [.ready],.timeout 0,.proceed 0]
      init = some sharing ∧ sharing.state.Waits 1 ∧
    ∀ subscriber ∈ sharing.state.subscribers, sharing.state.currentState ∉ subscriber.states := by
  have ran : ∃ sharing : Sharing (Fin 2),
      Machine.run step [.waitForStateWithTimeout 0 [.ready],.waitForStateWithTimeout 1 [.ready],.timeout 0,.proceed 0]
        init = some sharing ∧ sharing.state.Waits 1 := ⟨_,rfl,by decide⟩
  obtain ⟨sharing,ran,waits⟩ := ran
  exact ⟨sharing,ran,waits,(wakeups_kept ran).1⟩

end Sharing
end Frankenrust.Thread
