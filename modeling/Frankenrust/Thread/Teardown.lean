import Frankenrust.Thread.Frame
import Frankenrust.Thread.Lifecycle

/-! Teardown: the main thread may free the engine only when no PHP pthread is left, since
every pthread that was launched has published its own end. -/
namespace Frankenrust.Thread
variable {n : Nat}

inductive Lifetime
  | launched
  | published
  deriving DecidableEq

namespace System
variable {system next : System n} {action : Action n} {i : Fin n}

/-- A launch of a pthread on slot `i`, or its publication of `Done` in the shutdown callback. -/
def lifetime (i : Fin n) (action : Action n) (system : System n) : Option Lifetime :=
  match action with
  | .controller choice =>
    if system.scaling.bind (fun controller => controller.launches choice) = some i then some .launched else none
  | .pthread j .proceed => if j = i ∧ PhpThread.ends (system.threads i).pc then some .published else none
  | _ => none

/-- Every launch has met its end, but for the pthread that is there. -/
structure Balanced (i : Fin n) (events : List Lifetime) (system : System n) : Prop where
  lifecycle : Lifecycle system
  count : events.count .launched = events.count .published + (system.threads i).unpublished.toNat

theorem balanced_silent {events : List Lifetime} (balanced : Balanced i events system) (lifecycle : Lifecycle next)
    (same : (next.threads i).unpublished = (system.threads i).unpublished) : Balanced i events next :=
  ⟨lifecycle,same ▸ balanced.count⟩

theorem launches_still {controller : Controller n} {choice : Choice n} (lifecycle : Lifecycle system)
    (holder : system.scaling = some controller) (launches : controller.launches choice = some i) :
    Still (system.threads i) := by
  simp only [Lifecycle,holder] at lifecycle
  cases controller <;> try contradiction
  cases choice <;> try contradiction
  cases launches
  exact (Marks.holds_head lifecycle.1).launch.1 (by decide)

theorem controller_launched {controller : Controller n} {choice : Choice n}
    (stepped : system.controllerStep controller choice = some next) (launches : controller.launches choice = some i) :
    (next.threads i).unpublished = true := by
  cases controller <;> try contradiction
  cases choice <;> try contradiction
  cases launches
  cases stepped
  simp [put]

theorem balanced_pthread {events : List Lifetime} {move : Move} {thread : PhpThread} (balanced : Balanced i events system)
    (took : (system.threads i).step move = some thread)
    (lifecycle : Lifecycle { system with threads := Function.update system.threads i thread }) :
    Balanced i (events ++ (lifetime i (.pthread i move) system).toList)
      { system with threads := Function.update system.threads i thread } := by
  obtain ⟨stage,fits⟩ := lifecycle_fits balanced.lifecycle i
  have advance := PhpThread.step_advance took
  have there : (system.threads i).pc ≠ .absent := fun absent => by simp [PhpThread.step_absent absent] at took
  cases ends : PhpThread.ends (system.threads i).pc with
  | false =>
    have silent : lifetime i (.pthread i move) system = none := by cases move <;> simp [lifetime,ends]
    rw [silent,Option.toList_none,List.append_nil]
    refine balanced_silent balanced lifecycle ?_
    simpa [ends] using advance.ended.1
  | true =>
    have alive := fits.live there
    have gone : thread.unpublished = false := by simpa [ends] using advance.ended.1
    have proceeds : move = .proceed := PhpThread.ends_proceeds ends took
    refine ⟨lifecycle,?_⟩
    have count := balanced.count
    rw [alive] at count
    simp [lifetime,proceeds,ends,gone,count]

theorem balanced_step {events : List Lifetime} (stepped : step action system = some next)
    (balanced : Balanced i events system) : Balanced i (events ++ (lifetime i action system).toList) next := by
  have lifecycle := lifecycle_step stepped balanced.lifecycle
  cases action with
  | acquire | mainReserved =>
    simp only [step] at stepped
    split at stepped
    · cases stepped
      simpa [lifetime] using balanced_silent balanced lifecycle rfl
    · contradiction
  | pthread j move =>
    obtain ⟨thread,took,rfl⟩ := Option.map_eq_some_iff.mp stepped
    by_cases same : j = i
    · subst same
      exact balanced_pthread balanced took lifecycle
    · have silent : lifetime i (.pthread j move) system = none := by cases move <;> simp [lifetime,same]
      have kept : Function.update system.threads j thread i = system.threads i := Function.update_of_ne (Ne.symm same) ..
      rw [silent,Option.toList_none,List.append_nil]
      exact balanced_silent balanced lifecycle (congrArg _ kept)
  | controller choice =>
    obtain ⟨controller,holder,went⟩ := Option.bind_eq_some_iff.mp stepped
    by_cases launches : controller.launches choice = some i
    · have still := launches_still balanced.lifecycle holder launches
      have count := balanced.count
      rw [still.2] at count
      have started := controller_launched went launches
      refine ⟨lifecycle,?_⟩
      simp [lifetime,holder,launches,started,count]
    · have silent : lifetime i (.controller choice) system = none := by simp [lifetime,holder,launches]
      rw [silent,Option.toList_none,List.append_nil]
      exact balanced_silent balanced lifecycle (controller_alive went i launches)

theorem step_main (stepped : step action system = some next) (before : system.main ≠ .done) (after : next.main = .done) :
    system.scaling = some .sweepPublish := by
  cases action with
  | acquire =>
    simp only [step] at stepped
    split at stepped
    · cases stepped
      exact absurd after before
    · contradiction
  | mainReserved =>
    simp only [step] at stepped
    split at stepped
    next done => exact absurd done before
    · contradiction
  | pthread j move =>
    obtain ⟨thread,took,rfl⟩ := Option.map_eq_some_iff.mp stepped
    exact absurd after before
  | controller choice =>
    obtain ⟨controller,holder,went⟩ := Option.bind_eq_some_iff.mp stepped
    rw [holder,controller_main went before after]

/-- In every run, when a drain publishes the main thread's `Done`, every PHP pthread that
was ever launched has published `Done` in its own shutdown callback, every slot is
reserved again without a pthread, and its drain is open. -/
theorem teardown_last {actions : List (Action n)} (ran : Machine.run step actions (init : System n) = some system)
    (stepped : step action system = some next) (before : system.main ≠ .done) (after : next.main = .done) (i : Fin n) :
    (Machine.trace step (lifetime i) actions init).count .launched =
      (Machine.trace step (lifetime i) actions init).count .published ∧
    (system.threads i).pc = .absent ∧ (system.threads i).state.currentState = .reserved ∧
    (system.threads i).drain.current.sender.isSome := by
  have first : Balanced i [] (init : System n) := ⟨lifecycle_init,rfl⟩
  have balanced := Machine.run_history (fun _ _ _ _ => balanced_step) ran first
  have lifecycle := balanced.lifecycle
  simp only [Lifecycle,step_main stepped before after] at lifecycle
  have fits : Fits .reserved (system.threads i) := lifecycle.1.others i (by simp [Marks.keys,Controller.marks])
  have reserved := List.mem_singleton.mp fits.allowed
  obtain ⟨absent,gone⟩ := fits_still fits (by simp [reserved])
  have count := balanced.count
  rw [List.nil_append,gone] at count
  exact ⟨count,absent,reserved,fits.ticket⟩

def drainedRun : List (Action 2) := Machine.rounds [
  (1,.acquire),(1,.controller (.start (.boot (.last 1)))),(5,.controller .proceed),(5,.pthread (.last 1) .proceed),
  (1,.controller .proceed),(1,.controller (.start .drain)),(10,.controller .proceed),(1,.controller .timeout),
  (5,.controller .proceed),(5,.pthread (.last 1) .proceed),(5,.controller .proceed)]

theorem teardown_last_killed : ∃ system, Machine.run step drainedRun (init : System 2) = some system ∧
    (system.threads 0).pc = .absent ∧ (system.threads 1).pc = .absent ∧
    (Machine.trace step (lifetime 1) drainedRun (init : System 2)).count .launched =
      (Machine.trace step (lifetime 1) drainedRun (init : System 2)).count .published := by
  have ran : ∃ system next : System 2, Machine.run step drainedRun init = some system ∧
      step (.controller .proceed) system = some next ∧ system.main = .shuttingDown ∧ next.main = .done :=
    ⟨_,_,rfl,rfl,rfl,rfl⟩
  obtain ⟨system,next,ran,stepped,before,after⟩ := ran
  have ends := teardown_last ran stepped (by simp [before]) after
  exact ⟨system,ran,(ends 0).2.1,(ends 1).2.1,(ends 1).1⟩

end System
end Frankenrust.Thread
