import Frankenrust.Library.Tenure
import Frankenrust.Thread.Frame
import Frankenrust.Thread.Lifecycle

/-! The handshake of a handler swap: a handler is replaced only under a pthread that waits
for the replacement, and from then on only the new handler is called. -/
namespace Frankenrust.Thread
variable {n : Nat}

inductive Exchange
  | replaced (handler : Handler)
  | entered (callback : HandlerCallback) (handler : Handler)
  deriving DecidableEq

def installed (events : List Exchange) : Option Handler :=
  events.foldl (fun
    | _, .replaced handler => some handler
    | before, .entered _ _ => before) none

/-- A callback is entered on no other handler than the last one installed, and the first
one after an installation is `before_script_execution`. -/
def Orderly (events : List Exchange) : Prop :=
  ∀ front callback handler back, events = front ++ .entered callback handler :: back →
    installed front = some handler ∧ (∀ new, front.getLast? = some (.replaced new) → callback = .before)

@[simp] theorem installed_replaced (events : List Exchange) (handler : Handler) :
    installed (events ++ [.replaced handler]) = some handler := by
  simp [installed]

@[simp] theorem installed_entered (events : List Exchange) (callback : HandlerCallback) (handler : Handler) :
    installed (events ++ [.entered callback handler]) = installed events := by
  simp [installed]

theorem orderly_nil : Orderly [] := by
  intro front callback handler back same
  simp at same

theorem orderly_snoc {events : List Exchange} {event : Exchange} (orderly : Orderly events)
    (fits : ∀ callback handler, event = .entered callback handler → installed events = some handler ∧
      (∀ new, events.getLast? = some (.replaced new) → callback = .before)) : Orderly (events ++ [event]) := by
  intro front callback handler back same
  rcases Tenure.split_snoc same with ⟨_,rfl,entry⟩ | ⟨later,_,earlier⟩
  · exact fits callback handler entry
  · exact orderly front callback handler later earlier

namespace PhpThread

def Fresh : Pc → Prop
  | .absent | .fetching .before | .entering .before _ | .progressed | .handover | .receiving => True
  | _ => False

def enters : Pc → Option Exchange
  | .entering callback handler => some (.entered callback handler)
  | _ => none

theorem enters_some {pc : Pc} {event : Exchange} (entry : enters pc = some event) :
    ∃ callback handler, pc = .entering callback handler ∧ event = .entered callback handler := by
  cases pc <;> cases entry
  exact ⟨_,_,rfl,rfl⟩

theorem entering_installed {asked : Option State} {thread : PhpThread} {callback : HandlerCallback} {handler : Handler}
    (fits : PcFits asked thread) (entering : thread.pc = .entering callback handler) :
    thread.handler = some handler := by
  obtain ⟨state,installed,drain,pc,unpublished⟩ := thread
  subst entering
  cases callback with
  | before => exact fits.elim (fun inactive => inactive.1.1) (fun regular => regular.1.1)
  | after => exact fits.1.1

theorem fresh_step {asked : Option State} {thread next : PhpThread} {move : Move} (fits : PcFits asked thread)
    (fresh : Fresh thread.pc) (silent : enters thread.pc = none) (stepped : thread.step move = some next) :
    Fresh next.pc := by
  obtain ⟨state,installed,drain,pc,unpublished⟩ := thread
  cases move with
  | deliver | disconnect | bailout | crash => cases pc <;> contradiction
  | proceed =>
    cases pc <;> try contradiction
    case fetching callback =>
      cases callback with
      | after => contradiction
      | before =>
        obtain ⟨handler,⟨⟨rfl,_⟩,_⟩ | ⟨⟨rfl,_⟩,_⟩⟩ := fits
        · cases stepped
          trivial
        · cases stepped
          trivial
    case progressed =>
      rcases waitFor_some stepped with ⟨_,rfl⟩ | ⟨_,_,rfl⟩
      · trivial
      · trivial
    case handover =>
      obtain ⟨_,rfl⟩ := woken_some stepped
      trivial
    case receiving =>
      cases installed with
      | none => simp [PcFits] at fits
      | some handler =>
        cases stepped
        trivial

end PhpThread

namespace System
variable {system next : System n} {action : Action n}

def exchange (i : Fin n) (action : Action n) (system : System n) : Option Exchange :=
  match action with
  | .controller .proceed =>
    match system.scaling.bind (Controller.installs system.inactive) with
    | some (j,handler) => if j = i then some (.replaced handler) else none
    | none => none
  | .pthread j .proceed => if j = i then PhpThread.enters (system.threads i).pc else none
  | _ => none

/-- The slot has no pthread, or its pthread has published `TransitionInProgress` and not
yet seen `TransitionComplete`. -/
def Replaceable (thread : PhpThread) : Prop :=
  Still thread ∨ (thread.pc = .progressed ∨ thread.pc = .handover) ∧
    thread.state.currentState = .transitionInProgress

theorem installs_replaceable {i : Fin n} {controller : Controller n} {handler : Handler}
    (lifecycle : Lifecycle system) (holder : system.scaling = some controller)
    (installs : controller.installs system.inactive = some (i,handler)) : Replaceable (system.threads i) := by
  simp only [Lifecycle,holder] at lifecycle
  cases controller <;> cases installs
  case bootReplace =>
    exact .inl ((Marks.holds_head lifecycle.1).launch.1 (by decide))
  case replacing closed =>
    have fits := Marks.holds_head lifecycle.1
    have progress := List.mem_singleton.mp fits.allowed
    obtain ⟨_,position,_⟩ := fits_progress (Stage.moved (some closed)).asks fits.pc progress
    exact .inr ⟨position.imp id And.left,progress⟩

theorem replaceable_fresh {thread : PhpThread} (replaceable : Replaceable thread) : PhpThread.Fresh thread.pc := by
  rcases replaceable with ⟨absent,_⟩ | ⟨progressed | handover,_⟩
  · exact absent ▸ trivial
  · exact progressed ▸ trivial
  · exact handover ▸ trivial

theorem exchange_controller {i : Fin n} {choice : Choice n} (stepped : step (.controller choice) system = some next) :
    (∃ controller handler, system.scaling = some controller ∧ controller.installs system.inactive = some (i,handler) ∧
      exchange i (.controller choice) system = some (.replaced handler) ∧
      next.threads i = { system.threads i with handler := some handler }) ∨
    exchange i (.controller choice) system = none ∧ (next.threads i).handler = (system.threads i).handler ∧
      ((next.threads i).pc = (system.threads i).pc ∨ (next.threads i).pc = .fetching .before) := by
  obtain ⟨controller,holder,went⟩ := Option.bind_eq_some_iff.mp stepped
  by_cases installs : ∃ handler, controller.installs system.inactive = some (i,handler)
  · obtain ⟨handler,installs⟩ := installs
    refine .inl ⟨controller,handler,holder,installs,?_⟩
    cases controller <;> cases installs
    all_goals
      cases choice <;> cases went
      simp [exchange,holder,Controller.installs,install,put]
  · have elsewhere : ∀ handler, controller.installs system.inactive ≠ some (i,handler) := not_exists.mp installs
    refine .inr ⟨?_,?_⟩
    · cases choice <;> try rfl
      simp only [exchange,holder,Option.bind_some]
      split
      next j handler found =>
        have other : j ≠ i := by
          rintro rfl
          exact elsewhere handler found
        simp [other]
      · rfl
    · by_cases launches : controller.launches choice = some i
      · cases controller <;> try contradiction
        cases choice <;> try contradiction
        cases launches
        cases went
        simp [put]
      · have frame := controller_frame went i elsewhere launches
        exact ⟨frame.handler,.inl frame.pc⟩

/-- What the events of slot `i` so far say about the slot. -/
structure Told (i : Fin n) (events : List Exchange) (system : System n) : Prop where
  lifecycle : Lifecycle system
  orderly : Orderly events
  handler : (system.threads i).handler = installed events
  fresh : ∀ new, events.getLast? = some (.replaced new) → PhpThread.Fresh (system.threads i).pc

theorem told_silent {i : Fin n} {events : List Exchange} (told : Told i events system) (lifecycle : Lifecycle next)
    (handler : (next.threads i).handler = (system.threads i).handler)
    (fresh : PhpThread.Fresh (system.threads i).pc → PhpThread.Fresh (next.threads i).pc) : Told i events next :=
  ⟨lifecycle,told.orderly,handler.trans told.handler,fun new last => fresh (told.fresh new last)⟩

theorem told_pthread {i : Fin n} {events : List Exchange} {move : Move} {thread : PhpThread} (told : Told i events system)
    (took : (system.threads i).step move = some thread)
    (lifecycle : Lifecycle { system with threads := Function.update system.threads i thread }) :
    Told i (events ++ (exchange i (.pthread i move) system).toList)
      { system with threads := Function.update system.threads i thread } := by
  obtain ⟨stage,fits⟩ := lifecycle_fits told.lifecycle i
  have advance := PhpThread.step_advance took
  cases enters : PhpThread.enters (system.threads i).pc with
  | none =>
    have silent : exchange i (.pthread i move) system = none := by cases move <;> simp [exchange,enters]
    rw [silent,Option.toList_none,List.append_nil]
    refine told_silent told lifecycle ?_ fun fresh => ?_
    · simpa using advance.handler
    · simpa using PhpThread.fresh_step fits.pc fresh enters took
  | some event =>
    obtain ⟨callback,handler,entering,rfl⟩ := PhpThread.enters_some enters
    cases move with
    | deliver | disconnect | bailout | crash => simp [PhpThread.step,entering] at took
    | proceed =>
      have current : installed events = some handler := by
        rw [← told.handler]
        exact PhpThread.entering_installed fits.pc entering
      have event : exchange i (.pthread i .proceed) system = some (.entered callback handler) := by
        simp [exchange,enters]
      rw [event,Option.toList_some]
      refine ⟨lifecycle,orderly_snoc told.orderly ?_,?_,fun new last => by simp at last⟩
      · intro callback handler same
        cases same
        refine ⟨current,fun new last => ?_⟩
        have fresh := told.fresh new last
        rw [entering] at fresh
        cases callback with
        | before => rfl
        | after => contradiction
      · rw [installed_entered,← told.handler]
        simpa using advance.handler

theorem told_step {i : Fin n} {events : List Exchange} (stepped : step action system = some next)
    (told : Told i events system) : Told i (events ++ (exchange i action system).toList) next := by
  have lifecycle := lifecycle_step stepped told.lifecycle
  cases action with
  | acquire =>
    simp only [step] at stepped
    split at stepped
    · cases stepped
      simpa [exchange] using told_silent told lifecycle rfl id
    · contradiction
  | mainReserved =>
    simp only [step] at stepped
    split at stepped
    · cases stepped
      simpa [exchange] using told_silent told lifecycle rfl id
    · contradiction
  | pthread j move =>
    obtain ⟨thread,took,rfl⟩ := Option.map_eq_some_iff.mp stepped
    by_cases same : j = i
    · subst same
      exact told_pthread told took lifecycle
    · have silent : exchange i (.pthread j move) system = none := by cases move <;> simp [exchange,same]
      have kept : Function.update system.threads j thread i = system.threads i := Function.update_of_ne (Ne.symm same) ..
      rw [silent,Option.toList_none,List.append_nil]
      exact told_silent told lifecycle (congrArg _ kept) (fun fresh => by simpa only [kept] using fresh)
  | controller choice =>
    rcases exchange_controller stepped with ⟨controller,handler,holder,installs,event,replaced⟩ | ⟨event,same,moved⟩
    · have fresh := replaceable_fresh (installs_replaceable told.lifecycle holder installs)
      rw [event,Option.toList_some]
      refine ⟨lifecycle,orderly_snoc told.orderly (by simp),?_,fun _ _ => replaced ▸ fresh⟩
      rw [installed_replaced,replaced]
    · rw [event,Option.toList_none,List.append_nil]
      refine told_silent told lifecycle same fun fresh => ?_
      rcases moved with pc | launched
      · exact pc ▸ fresh
      · exact launched ▸ trivial

theorem exchange_pthread {i j : Fin n} {move : Move} (new : Handler) :
    exchange i (.pthread j move) system ≠ some (.replaced new) := by
  cases move with
  | deliver | disconnect | bailout | crash => nofun
  | proceed =>
    intro replaced
    simp only [exchange] at replaced
    split at replaced
    · obtain ⟨_,_,_,same⟩ := PhpThread.enters_some replaced
      cases same
    · contradiction

/-- In every run, for every slot: callbacks are entered only on the handler installed last,
beginning with its `before_script_execution`; and whatever is done next, a handler is only
installed without a pthread, or under one that waits for `TransitionComplete`. -/
theorem swap_handshake {actions : List (Action n)} (ran : Machine.run step actions (init : System n) = some system)
    (i : Fin n) :
    Orderly (Machine.trace step (exchange i) actions init) ∧
    (system.threads i).handler = installed (Machine.trace step (exchange i) actions init) ∧
    ∀ action next, step action system = some next →
      (next.threads i).handler = (system.threads i).handler ∧ (∀ new, exchange i action system ≠ some (.replaced new)) ∨
      ∃ new, exchange i action system = some (.replaced new) ∧ (next.threads i).handler = some new ∧
        Replaceable (system.threads i) := by
  have first : Told i [] (init : System n) := ⟨lifecycle_init,orderly_nil,rfl,fun _ last => by simp at last⟩
  have told := Machine.run_history (fun _ _ _ _ => told_step) ran first
  rw [List.nil_append] at told
  refine ⟨told.orderly,told.handler,fun action next stepped => ?_⟩
  cases action with
  | acquire | mainReserved =>
    simp only [step] at stepped
    split at stepped
    · cases stepped
      exact .inl ⟨rfl,by simp [exchange]⟩
    · contradiction
  | pthread j move =>
    obtain ⟨thread,took,rfl⟩ := Option.map_eq_some_iff.mp stepped
    refine .inl ⟨?_,exchange_pthread⟩
    by_cases same : i = j
    · subst same
      simpa using (PhpThread.step_advance took).handler
    · exact congrArg _ (Function.update_of_ne same ..)
  | controller choice =>
    rcases exchange_controller stepped with ⟨controller,handler,holder,installs,event,replaced⟩ | ⟨event,same,_⟩
    · exact .inr ⟨handler,event,replaced ▸ rfl,installs_replaceable told.lifecycle holder installs⟩
    · exact .inl ⟨same,fun new replaced => by simp [event] at replaced⟩

def swappedRun : List (Action 1) := readyRun ++ Machine.rounds [
  (1,.controller (.start (.setHandler (.last 0) ⟨.inactiveThread,2⟩))),(3,.controller .proceed),
  (4,.pthread (.last 0) .proceed),(4,.controller .proceed),(3,.pthread (.last 0) .proceed)]

theorem swap_handshake_twice : Machine.trace step (exchange 0) swappedRun init =
      [.replaced ⟨.inactiveThread,0⟩,.entered .before ⟨.inactiveThread,0⟩,.replaced ⟨.regularThread,1⟩,
        .entered .before ⟨.regularThread,1⟩,.replaced ⟨.inactiveThread,2⟩,.entered .before ⟨.inactiveThread,2⟩] ∧
    Orderly (Machine.trace step (exchange 0) swappedRun init) := by
  have ran : ∃ system, Machine.run step swappedRun (init : System 1) = some system := ⟨_,rfl⟩
  obtain ⟨system,ran⟩ := ran
  exact ⟨by decide +kernel,(swap_handshake ran 0).1⟩

end System
end Frankenrust.Thread
