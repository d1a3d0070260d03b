import Frankenrust.Library.Tally
import Frankenrust.Thread.Dispatch

/-! Every request reaches one thread: what a step of a caller can do, and from it what the
deliveries of a run amount to. -/
namespace Frankenrust.Thread
variable {n m : Nat}

structure Delivery (n m : Nat) where
  work : Fin m
  thread : Fin n
  deriving DecidableEq

namespace Dispatch
variable {dispatch next : Dispatch n m} {c : Fin m}

def delivery (action : Action n m) (dispatch : Dispatch n m) : Option (Delivery n m) :=
  match action with
  | .caller c (.taken i _) | .caller c (.met i _) => (dispatch.callers c).holds.map fun work => ⟨work,i⟩
  | _ => none

/-- How a caller moves on: it keeps its request, or hands it over once, and it is counted
while it queues. -/
structure Moves (dispatch next : Dispatch n m) (c : Fin m) (caller : Caller n m) (event : Option (Delivery n m)) :
    Prop where
  callers : next.callers = Function.update dispatch.callers c caller
  registry : next.registry = dispatch.registry
  queued : next.queued + (dispatch.callers c).queues.toNat = dispatch.queued + caller.queues.toNat
  holds : ∀ work, caller.holds = some work → (dispatch.callers c).holds = some work
  hands : event = none ∧ caller.delivered = (dispatch.callers c).delivered ∨
    ∃ work i, event = some ⟨work,i⟩ ∧ (dispatch.callers c).holds = some work ∧
      (dispatch.callers c).delivered = false ∧ caller.delivered = true
  scans : ∀ work entries, caller = .scanning work entries → entries = dispatch.registry ∨
    ∃ entry, dispatch.callers c = .scanning work (entry :: entries)
  lifecycle : dispatch.system.Lifecycle → next.system.Lifecycle

theorem moves_deliver {i : Fin n} {named : Bool} {caller : Caller n m} {work : Fin m}
    (taken : dispatch.deliver i named c caller = some next) (holding : (dispatch.callers c).holds = some work)
    (undelivered : (dispatch.callers c).delivered = false) (delivered : caller.delivered = true)
    (counted : caller.queues = (dispatch.callers c).queues) : Moves dispatch next c caller (some ⟨work,i⟩) := by
  obtain ⟨system,took,rfl⟩ := Option.map_eq_some_iff.mp taken
  have empty : caller.holds = none := by cases caller <;> first | rfl | contradiction
  refine ⟨rfl,rfl,by simp [goto,counted],fun work holds => ?_,.inr ⟨work,i,rfl,holding,undelivered,delivered⟩,?_,
    System.lifecycle_step took⟩
  · simp [empty] at holds
  · rintro _ _ rfl
    contradiction

theorem moves_goto {caller : Caller n m} {queued : Int} {event : Option (Delivery n m)} (silent : event = none)
    (counted : queued + (dispatch.callers c).queues.toNat = dispatch.queued + caller.queues.toNat)
    (holds : ∀ work, caller.holds = some work → (dispatch.callers c).holds = some work)
    (same : caller.delivered = (dispatch.callers c).delivered)
    (scans : ∀ work entries, caller = .scanning work entries → entries = dispatch.registry ∨
      ∃ entry, dispatch.callers c = .scanning work (entry :: entries)) :
    Moves dispatch { dispatch.goto c caller with queued } c caller event :=
  ⟨rfl,rfl,counted,holds,.inl ⟨silent,same⟩,scans,id⟩

theorem callerStep_moves {offer : Offer n} (stepped : dispatch.callerStep c offer = some next) :
    ∃ caller, Moves dispatch next c caller (delivery (.caller c offer) dispatch) := by
  cases now : dispatch.callers c <;> cases offer <;> simp only [callerStep,now,reduceCtorEq] at stepped
  case loading.proceed work =>
    cases stepped
    refine ⟨_,moves_goto rfl ?_ ?_ ?_ ?_⟩ <;> split <;> simp [now,Caller.queues,Caller.holds,Caller.delivered]
  case locking.proceed work =>
    cases stepped
    exact ⟨_,moves_goto rfl (by simp [now,Caller.queues]) (by simp [now,Caller.holds])
      (by simp [now,Caller.delivered]) (by simp)⟩
  case scanning.proceed work entries =>
    cases entries with
    | nil =>
      cases stepped
      exact ⟨_,moves_goto rfl (by simp [now,Caller.queues]) (by simp [now,Caller.holds])
        (by simp [now,Caller.delivered]) (by simp)⟩
    | cons => contradiction
  case scanning.taken work entries i named =>
    cases entries with
    | nil => contradiction
    | cons entry entries =>
      simp only at stepped
      split at stepped
      · have moves : Moves dispatch next c _ (some ⟨work,i⟩) := moves_deliver stepped (by simp [now,Caller.holds]) (by simp [now,Caller.delivered]) rfl
          (by simp [now,Caller.queues])
        exact ⟨_,by simpa [delivery,now,Caller.holds] using moves⟩
      · contradiction
  case scanning.full work entries =>
    cases entries with
    | nil => contradiction
    | cons entry entries =>
      simp only at stepped
      split at stepped
      · cases stepped
        exact ⟨_,moves_goto rfl (by simp [now,Caller.queues]) (by simp [now,Caller.holds])
          (by simp [now,Caller.delivered]) (by simp [now])⟩
      · contradiction
  case queueing.proceed work =>
    cases stepped
    exact ⟨_,moves_goto rfl (by simp [now,Caller.queues]) (by simp [now,Caller.holds])
      (by simp [now,Caller.delivered]) (by simp)⟩
  case sending.met work i named =>
    have moves : Moves dispatch next c _ (some ⟨work,i⟩) := moves_deliver stepped (by simp [now,Caller.holds]) (by simp [now,Caller.delivered]) rfl
      (by simp [now,Caller.queues])
    exact ⟨_,by simpa [delivery,now,Caller.holds] using moves⟩
  case sending.disconnected work =>
    cases stepped
    exact ⟨_,moves_goto rfl (by simp [now,Caller.queues]) (by simp [Caller.holds])
      (by simp [now,Caller.delivered]) (by simp)⟩
  case leaving.proceed delivered =>
    cases stepped
    refine ⟨_,moves_goto rfl ?_ ?_ ?_ ?_⟩ <;> cases delivered <;>
      simp [now,Caller.queues,Caller.holds,Caller.delivered]
  case reporting.proceed =>
    cases stepped
    exact ⟨_,moves_goto rfl (by simp [now,Caller.queues]) (by simp [Caller.holds])
      (by simp [now,Caller.delivered]) (by simp)⟩

/-- What the deliveries so far say about the callers, and what holds between them. -/
structure Told (events : List (Delivery n m)) (dispatch : Dispatch n m) : Prop where
  lifecycle : dispatch.system.Lifecycle
  own : ∀ c work, (dispatch.callers c).holds = some work → work = c
  count : ∀ c, events.countP (fun event => event.work = c) = (dispatch.callers c).delivered.toNat
  queued : dispatch.queued = Tally.tally Caller.queues dispatch.callers
  listed : ∀ c work entries, dispatch.callers c = .scanning work entries →
    ∃ front, dispatch.registry = front ++ entries

theorem told_init : Told [] (init : Dispatch n m) := by
  refine ⟨System.lifecycle_init,fun c work holds => ?_,fun c => rfl,?_,nofun⟩
  · simpa [init,Caller.holds,eq_comm] using holds
  · rw [Tally.tally_eq_zero fun _ => rfl]
    rfl

theorem told_registry {events : List (Delivery n m)} {registry : List (RegularThreadEntry n)}
    (told : Told events dispatch) (writable : dispatch.Writable) : Told events { dispatch with registry } :=
  { told with
    listed := fun c work entries scanning => by
      have free := writable c
      rw [show dispatch.callers c = .scanning work entries from scanning] at free
      contradiction }

theorem told_caller {events : List (Delivery n m)} {caller : Caller n m} {event : Option (Delivery n m)}
    (told : Told events dispatch) (moves : Moves dispatch next c caller event) : Told (events ++ event.toList) next := by
  refine ⟨moves.lifecycle told.lifecycle,fun d work holds => ?_,fun d => ?_,?_,fun d work entries scanning => ?_⟩
  · rw [moves.callers] at holds
    by_cases same : d = c
    · subst same
      rw [Function.update_self] at holds
      exact told.own d work (moves.holds work holds)
    · rw [Function.update_of_ne same] at holds
      exact told.own d work holds
  · rw [moves.callers,List.countP_append,told.count d]
    rcases moves.hands with ⟨silent,same⟩ | ⟨work,i,event,holding,before,after⟩
    · by_cases other : d = c
      · subst other
        simp [silent,same]
      · simp [silent,other]
    · obtain rfl := told.own c work holding
      by_cases other : d = work
      · subst other
        simp [event,before,after]
      · simp [event,other,Ne.symm other]
  · have update := Tally.tally_update Caller.queues dispatch.callers c caller
    have counted := moves.queued
    rw [moves.callers]
    have before := told.queued
    omega
  · rw [moves.callers] at scanning
    rw [moves.registry]
    by_cases same : d = c
    · subst same
      rw [Function.update_self] at scanning
      rcases moves.scans work entries scanning with rfl | ⟨entry,earlier⟩
      · exact ⟨[],rfl⟩
      · obtain ⟨front,split⟩ := told.listed d work _ earlier
        exact ⟨front ++ [entry],by simp [split]⟩
    · rw [Function.update_of_ne same] at scanning
      exact told.listed d work entries scanning

theorem told_step {events : List (Delivery n m)} {action : Action n m} (stepped : step action dispatch = some next)
    (told : Told events dispatch) : Told (events ++ (delivery action dispatch).toList) next := by
  cases action with
  | lifecycle action =>
    simp only [step] at stepped
    split at stepped
    · obtain ⟨system,took,rfl⟩ := Option.map_eq_some_iff.mp stepped
      simpa [delivery] using { told with lifecycle := System.lifecycle_step took told.lifecycle }
    · contradiction
  | attach entry | detach thread =>
    simp only [step] at stepped
    split at stepped
    next writable =>
      cases stepped
      simpa [delivery] using told_registry told writable
    · contradiction
  | caller c offer =>
    obtain ⟨caller,moves⟩ := callerStep_moves stepped
    exact told_caller told moves

theorem receives_selecting {thread : PhpThread} {sender : Nat} (receiving : receives thread sender = true) :
    ∃ handler channel, thread.pc = .selecting handler channel ∧ handler.id = sender := by
  unfold receives at receiving
  split at receiving
  next handler channel selecting => exact ⟨handler,channel,selecting,of_decide_eq_true receiving⟩
  · contradiction

theorem selecting_installed {asked : Option State} {thread : PhpThread} {handler : Handler} {channel : Nat}
    (fits : PcFits asked thread) (selecting : thread.pc = .selecting handler channel) :
    Runs thread.handler handler .regularThread := by
  obtain ⟨state,installed,drain,pc,unpublished⟩ := thread
  subst selecting
  exact fits.1

/-- A `try_send` is taken by the thread that is in its select on the entry's own channel,
and that thread has the handler installed to which the channel belongs. -/
theorem taken_installed {events : List (Delivery n m)} (told : Told events dispatch) {work : Fin m}
    {entry : RegularThreadEntry n} {entries : List (RegularThreadEntry n)}
    (scanning : dispatch.callers c = .scanning work (entry :: entries)) {i : Fin n} {named : Bool}
    (stepped : step (.caller c (.taken i named)) dispatch = some next) :
    entry ∈ dispatch.registry ∧ ∃ handler channel, (dispatch.system.threads i).pc = .selecting handler channel ∧
      handler.id = entry.sender ∧ handler.kind = .regularThread ∧ (dispatch.system.threads i).handler = some handler ∧
      (next.system.threads i).pc = if named then .executing handler else .returning := by
  obtain ⟨front,listed⟩ := told.listed c work _ scanning
  refine ⟨listed ▸ List.mem_append_right _ List.mem_cons_self,?_⟩
  simp only [step,callerStep,scanning] at stepped
  split at stepped
  next receiving =>
    obtain ⟨stage,fits⟩ := System.lifecycle_fits told.lifecycle i
    obtain ⟨system,took,rfl⟩ := Option.map_eq_some_iff.mp stepped
    obtain ⟨thread,delivered,rfl⟩ := Option.map_eq_some_iff.mp took
    obtain ⟨handler,channel,selecting,same⟩ := receives_selecting receiving
    obtain ⟨installed,kind⟩ := selecting_installed fits.pc selecting
    simp only [PhpThread.step,selecting,Option.some.injEq] at delivered
    exact ⟨handler,channel,selecting,same,kind,installed,by simp [← delivered,PhpThread.goto]⟩
  · contradiction

/-- In every run of any number of callers over any lifecycle of the threads and any history
of the registry: a request reaches at most one thread, and exactly one if its call returns
without the diagnostic; a directed send reaches the thread that waits on the entry's
channel with its handler installed, so a stale entry accepts nothing; and the counter is
the number of callers between its two changes. -/
theorem dispatch_once {actions : List (Action n m)} {last : Dispatch n m}
    (ran : Machine.run step actions init = some last) :
    (∀ c, (Machine.trace step delivery actions init).countP (fun event => event.work = c) ≤ 1) ∧
    (∀ c, last.callers c = .returned false →
      (Machine.trace step delivery actions init).countP (fun event => event.work = c) = 1) ∧
    (∀ c work entry entries i named next, last.callers c = .scanning work (entry :: entries) →
      step (.caller c (.taken i named)) last = some next →
      entry ∈ last.registry ∧ ∃ handler channel, (last.system.threads i).pc = .selecting handler channel ∧
        handler.id = entry.sender ∧ handler.kind = .regularThread ∧ (last.system.threads i).handler = some handler ∧
        (next.system.threads i).pc = if named then .executing handler else .returning) ∧
    last.queued = Tally.tally Caller.queues last.callers := by
  have told := Machine.run_history (fun _ _ _ _ => told_step) ran told_init
  rw [List.nil_append] at told
  refine ⟨fun c => ?_,fun c returned => ?_,fun c work entry entries i named next scanning stepped => ?_,
    told.queued⟩
  · rw [told.count c]
    cases (last.callers c).delivered <;> decide
  · rw [told.count c,returned]
    rfl
  · exact taken_installed told scanning stepped

/-- One thread and two callers: the first is served directly, the second through the queue. -/
def servedRun : List (Action 1 2) := System.readyRun.map .lifecycle ++ Machine.rounds [
  (1,.attach ⟨.last 0,1⟩),(2,.caller ⟨0,Nat.two_pos⟩ .proceed),(2,.caller (.last 1) .proceed),
  (1,.caller ⟨0,Nat.two_pos⟩ (.taken (.last 0) true)),(1,.caller (.last 1) .full),(2,.caller (.last 1) .proceed),
  (7,.lifecycle (.pthread (.last 0) .proceed)),(1,.caller (.last 1) (.met (.last 0) true)),
  (1,.caller (.last 1) .proceed)]

theorem dispatch_once_served : ∃ last : Dispatch 1 2, Machine.run step servedRun init = some last ∧
    last.queued = Tally.tally Caller.queues last.callers ∧
    ∀ c,(Machine.trace step delivery servedRun init).countP (fun event => event.work = c) = 1 := by
  have ran : ∃ last : Dispatch 1 2, Machine.run step servedRun init = some last ∧
      last.callers 0 = .returned false ∧ last.callers 1 = .returned false := ⟨_,rfl,rfl,rfl⟩
  obtain ⟨last,ran,first,second⟩ := ran
  obtain ⟨_,served,_,queued⟩ := dispatch_once ran
  refine ⟨last,ran,queued,fun c => served c ?_⟩
  match c with
  | 0 => exact first
  | 1 => exact second

end Dispatch
end Frankenrust.Thread
