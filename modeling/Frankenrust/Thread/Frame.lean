import Frankenrust.Thread.Controller

/-! What a controller's step leaves alone: it launches pthreads and installs handlers only
at its own points for that, and the main thread's state moves only in a drain. -/
namespace Frankenrust.Thread
variable {n : Nat}

structure Frame (before after : PhpThread) : Prop where
  handler : after.handler = before.handler
  pc : after.pc = before.pc
  unpublished : after.unpublished = before.unpublished

/-- The handler which the next step of the controller installs in a slot. -/
def Controller.installs (inactive : Nat) : Controller n → Option (Fin n × Handler)
  | .bootReplace i => some (i,⟨.inactiveThread,inactive⟩)
  | .replacing i handler _ => some (i,handler)
  | _ => none

def Controller.launches : Controller n → Choice n → Option (Fin n)
  | .bootLaunch i, .proceed => some i
  | _, _ => none

namespace System
variable {system next : System n} {controller : Controller n} {choice : Choice n} {i j : Fin n}

theorem frame_put {thread : PhpThread} (frame : Frame (system.threads j) thread) :
    Frame (system.threads i) ((system.put j thread controller).threads i) := by
  by_cases same : i = j
  · subst same
    simpa [put] using frame
  · simp only [put,Function.update_of_ne same]
    exact ⟨rfl,rfl,rfl⟩

theorem frame_swap {compareTo swapTo : State} {yes no : Controller n} :
    Frame (system.threads i) ((system.swap j compareTo swapTo yes no).threads i) := frame_put ⟨rfl,rfl,rfl⟩

theorem woken_threads (woke : system.woken j controller = some next) :
    next.threads = system.threads ∧ next.main = system.main := by
  obtain ⟨_,rfl⟩ := woken_goto woke
  exact ⟨rfl,rfl⟩

theorem frame_woken (woke : system.woken j controller = some next) :
    Frame (system.threads i) (next.threads i) := by
  rw [(woken_threads woke).1]
  exact ⟨rfl,rfl,rfl⟩

theorem start_frame {command : Command n} (stepped : system.start command = some next) :
    (∀ i, Frame (system.threads i) (next.threads i)) ∧ next.main = system.main := by
  cases command with
  | claim j =>
    simp only [start] at stepped
    split at stepped
    · cases stepped
      exact ⟨fun _ => frame_swap,rfl⟩
    · contradiction
  | boot j | drain =>
    simp only [start] at stepped
    split at stepped
    · cases stepped
      exact ⟨fun _ => ⟨rfl,rfl,rfl⟩,rfl⟩
    · contradiction
  | setHandler j handler | shutdown j | release =>
    cases stepped
    exact ⟨fun _ => ⟨rfl,rfl,rfl⟩,rfl⟩

theorem controller_frame (stepped : system.controllerStep controller choice = some next) (i : Fin n)
    (elsewhere : ∀ handler, controller.installs system.inactive ≠ some (i,handler))
    (other : controller.launches choice ≠ some i) : Frame (system.threads i) (next.threads i) := by
  cases controller <;> cases choice <;> try contradiction
  case held.start command => exact (start_frame stepped).1 i
  case bootReplace.proceed j | replacing.proceed j _ _ =>
    cases stepped
    have different : i ≠ j := by
      rintro rfl
      exact elsewhere _ rfl
    simp only [install,put,Function.update_of_ne different]
    exact ⟨rfl,rfl,rfl⟩
  case bootLaunch.proceed j =>
    cases stepped
    have different : i ≠ j := fun same => other (same ▸ rfl)
    simp only [put,Function.update_of_ne different]
    exact ⟨rfl,rfl,rfl⟩
  case bootBlocked.proceed | requestBlocked.proceed | progressBlocked.proceed | graceBlocked.proceed
      | doneBlocked.proceed | sweepGraceBlocked.proceed | sweepDoneBlocked.proceed => exact frame_woken stepped
  case refused.proceed goal j =>
    cases goal with
    | assign =>
      cases stepped
      exact ⟨rfl,rfl,rfl⟩
    | retire | sweep =>
      cases stepped
      exact frame_swap
  case sweepNext.proceed left _ | sweepKill.proceed left _ =>
    cases left with
    | nil | cons =>
      cases stepped
      exact ⟨rfl,rfl,rfl⟩
  case sweepGrace.proceed left _ | sweepDone.proceed _ left =>
    cases left with
    | nil =>
      cases stepped
      exact ⟨rfl,rfl,rfl⟩
    | cons ticket left =>
      simp only [controllerStep] at stepped
      split at stepped <;> cases stepped <;> exact ⟨rfl,rfl,rfl⟩
  case sweepFinish.proceed pending =>
    cases pending with
    | nil =>
      cases stepped
      exact ⟨rfl,rfl,rfl⟩
    | cons ticket pending =>
      cases stepped
      exact frame_put ⟨rfl,rfl,rfl⟩
  case sweepMainWait.proceed =>
    simp only [controllerStep] at stepped
    split at stepped
    · cases stepped
      exact ⟨rfl,rfl,rfl⟩
    · contradiction
  case bootLaunch.launchFails | killing.proceed | sweepStart.proceed | sweepPublish.proceed =>
    cases stepped
    exact ⟨rfl,rfl,rfl⟩
  all_goals
    cases stepped
    exact frame_put ⟨rfl,rfl,rfl⟩

theorem controller_alive (stepped : system.controllerStep controller choice = some next) (i : Fin n)
    (other : controller.launches choice ≠ some i) :
    (next.threads i).unpublished = (system.threads i).unpublished := by
  by_cases installs : ∃ handler, controller.installs system.inactive = some (i,handler)
  · obtain ⟨handler,installs⟩ := installs
    cases controller <;> cases installs
    all_goals
      cases choice <;> cases stepped
      simp [install,put]
  · exact (controller_frame stepped i (not_exists.mp installs) other).unpublished

/-- Only the last step of a drain publishes the main thread's `Done`. -/
theorem controller_main (stepped : system.controllerStep controller choice = some next)
    (ends : system.main ≠ .done) (done : next.main = .done) : controller = .sweepPublish := by
  by_contra different
  have kept : next.main = system.main ∨ next.main = .shuttingDown := by
    cases controller <;> cases choice <;> try contradiction
    case held.start command => exact .inl (start_frame stepped).2
    case bootBlocked.proceed | requestBlocked.proceed | progressBlocked.proceed | graceBlocked.proceed
        | doneBlocked.proceed | sweepGraceBlocked.proceed | sweepDoneBlocked.proceed =>
      exact .inl (woken_threads stepped).2
    case refused.proceed goal j | closing.proceed goal j =>
      cases goal <;> cases stepped <;> exact .inl rfl
    case sweepNext.proceed left _ | sweepKill.proceed left _ | sweepFinish.proceed left =>
      cases left <;> cases stepped <;> exact .inl rfl
    case sweepGrace.proceed left _ | sweepDone.proceed _ left =>
      cases left with
      | nil =>
        cases stepped
        exact .inl rfl
      | cons ticket left =>
        simp only [controllerStep] at stepped
        split at stepped <;> cases stepped <;> exact .inl rfl
    case sweepMainWait.proceed =>
      simp only [controllerStep] at stepped
      split at stepped
      · cases stepped
        exact .inl rfl
      · contradiction
    case sweepStart.proceed =>
      cases stepped
      exact .inr rfl
    all_goals
      cases stepped
      exact .inl rfl
  rcases kept with same | shutting
  · exact ends (same.symm.trans done)
  · cases shutting.symm.trans done

end System
end Frankenrust.Thread
