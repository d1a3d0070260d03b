import Frankenrust.Library.Machine
import Frankenrust.Library.Marks
import Frankenrust.Thread.Operations

/-! What the holder of `SCALING` knows of all slots at each point of its program, and that
this knowledge survives every step of the holder and of the pthreads. -/
namespace Frankenrust.Thread
variable {n : Nat}

/-- The slots a drain has requested, and those it has seen at `Done`. -/
def stoppings (tickets : List (Ticket n)) : List (Fin n × Stage) :=
  tickets.map fun ticket => (ticket.1,.stopping (some ticket.2))

def stoppeds (tickets : List (Ticket n)) : List (Fin n × Stage) :=
  tickets.map fun ticket => (ticket.1,.stopped (some ticket.2))

namespace Goal

def marks : Goal n → List (Fin n × Stage)
  | .assign _ | .retire => []
  | .sweep threads pending => threads.map (fun i => (i,.free)) ++ stoppings pending

def rest : Goal n → Stage
  | .assign _ | .retire => .free
  | .sweep _ _ => .reserved

def granted : Goal n → Option ClosedDrainGeneration → Stage
  | .assign _ => .moving
  | .retire | .sweep _ _ => .stopping

end Goal

namespace Controller

def rest : Controller n → Stage
  | .requesting goal _ | .requestWait goal _ | .requestBlocked goal _ | .refused goal _ | .closing goal _ => goal.rest
  | .sweepNext _ _ | .sweepGrace _ _ | .sweepGraceWait _ _ _ | .sweepGraceBlocked _ _ _ | .sweepKill _ _
  | .sweepDone _ _ | .sweepDoneWait _ _ _ | .sweepDoneBlocked _ _ _ | .sweepFinish _ | .sweepReserve _ _
  | .sweepPublish | .sweepMainWait => .reserved
  | _ => .free

def marks : Controller n → List (Fin n × Stage)
  | .held | .sweepStart | .sweepPublish | .sweepMainWait => []
  | .bootSwap i | .bootSwapRequested i => [(i,.free)]
  | .bootReplace i => [(i,.bare)]
  | .bootClose i | .bootLaunch i | .bootFailed i => [(i,.fitted none)]
  | .bootReopen i closed => [(i,.fitted (some closed))]
  | .bootWait i | .bootBlocked i => [(i,.launched)]
  | .requesting goal i | .requestWait goal i | .requestBlocked goal i => (i,.free) :: goal.marks
  | .refused goal i => (i,.refused) :: goal.marks
  | .closing goal i => (i,goal.granted none) :: goal.marks
  | .progressWait i _ closed | .progressBlocked i _ closed => [(i,.moving (some closed))]
  | .replacing i _ closed | .reopening i closed => [(i,.moved (some closed))]
  | .completing i => [(i,.moved none)]
  | .graceWait i closed | .graceBlocked i closed | .killing i closed | .doneWait i closed | .doneBlocked i closed =>
    [(i,.stopping (some closed))]
  | .finishReopen i closed => [(i,.stopped (some closed))]
  | .finishReserve i => [(i,.stopped none)]
  | .sweepNext threads pending => (Goal.sweep threads pending).marks
  | .sweepGrace _ pending | .sweepGraceWait _ _ pending | .sweepGraceBlocked _ _ pending | .sweepKill _ pending =>
    stoppings pending
  | .sweepDone confirmed left => stoppeds confirmed ++ stoppings left
  | .sweepDoneWait ticket confirmed left | .sweepDoneBlocked ticket confirmed left =>
    stoppeds confirmed ++ stoppings (ticket :: left)
  | .sweepFinish pending => stoppeds pending
  | .sweepReserve i pending => (i,.stopped none) :: stoppeds pending

/-- The state whose publication a blocked holder relies on. -/
def awaits : Controller n → Option (Fin n × State)
  | .bootBlocked i => some (i,.inactive)
  | .progressBlocked i _ _ => some (i,.transitionInProgress)
  | .graceBlocked i _ | .doneBlocked i _ => some (i,.done)
  | .sweepDoneBlocked ticket _ _ => some (ticket.1,.done)
  | _ => none

/-- The slots are as the holder knows them. -/
def Knows (controller : Controller n) (threads : Fin n → PhpThread) : Prop :=
  Marks.Holds Fits controller.rest controller.marks threads

def Awaited (controller : Controller n) (threads : Fin n → PhpThread) : Prop :=
  ∀ i state, controller.awaits = some (i,state) →
    ⟨.controller,[state]⟩ ∈ (threads i).state.subscribers ∨ (threads i).state.currentState = state

end Controller

namespace System
variable {system next : System n}

def Lifecycle (system : System n) : Prop :=
  match system.scaling with
  | none => Marks.Holds Fits .free [] system.threads
  | some controller => controller.Knows system.threads ∧ controller.Awaited system.threads

theorem new_fits : Fits .free PhpThread.new :=
  ⟨still_fits ⟨rfl,rfl⟩ (by decide),nofun,by decide,DrainChannel.sound_new,rfl,nofun,allows_any _⟩

theorem lifecycle_init : Lifecycle (init : System n) :=
  ⟨List.nodup_nil,nofun,fun _ _ => new_fits⟩

theorem lifecycle_goto {controller : Controller n} (knows : controller.Knows system.threads)
    (quiet : controller.awaits = none) : Lifecycle (system.goto controller) :=
  ⟨knows,fun _ _ waits => by simp [quiet] at waits⟩

theorem lifecycle_put {controller : Controller n} {i : Fin n} {thread : PhpThread}
    (knows : controller.Knows (Function.update system.threads i thread)) (quiet : controller.awaits = none) :
    Lifecycle (system.put i thread controller) :=
  ⟨knows,fun _ _ waits => by simp [quiet] at waits⟩

theorem lifecycle_swap {i : Fin n} {compareTo swapTo : State} {yes no : Controller n}
    (swapped : (system.threads i).state.currentState = compareTo → yes.Knows (Function.update system.threads i
      { system.threads i with state := (system.threads i).state.set swapTo }))
    (kept : (system.threads i).state.currentState ≠ compareTo → no.Knows system.threads)
    (quiet : yes.awaits = none ∧ no.awaits = none) : Lifecycle (system.swap i compareTo swapTo yes no) := by
  by_cases same : (system.threads i).state.currentState = compareTo
  · simp only [swap,ThreadState.compareAndSwap,same,ne_eq,not_true_eq_false,if_false,if_true]
    exact lifecycle_put (swapped same) quiet.1
  · simp only [swap,ThreadState.compareAndSwap,same,ne_eq,not_false_eq_true,if_true,Bool.false_eq_true,if_false]
    refine lifecycle_put ?_ quiet.2
    rw [Function.update_eq_self]
    exact kept same

theorem knows_waited {controller : Controller n} {threads : Fin n → PhpThread} (knows : controller.Knows threads)
    (i : Fin n) (states : List State) : controller.Knows (Function.update threads i
      { threads i with state := ((threads i).state.subscribe .controller states).2 }) :=
  Marks.holds_touch knows fun _ fits => fits_subscribe fits states

theorem waitFor_put (system : System n) (i : Fin n) (states : List State) (returned blocked : Controller n) :
    let waited := { system.threads i with state := ((system.threads i).state.subscribe .controller states).2 }
    (system.threads i).state.currentState ∈ states ∧
      system.waitFor i states returned blocked = system.put i waited returned ∨
    (system.threads i).state.currentState ∉ states ∧
      system.waitFor i states returned blocked = system.put i waited blocked := by
  unfold waitFor
  cases now : ((system.threads i).state.subscribe .controller states).1 with
  | true => exact .inl ⟨subscribe_returned.mp now,by simp [now]⟩
  | false => exact .inr ⟨subscribe_blocked now,by simp [now]⟩

theorem lifecycle_pause {i : Fin n} {states : List State} {returned blocked : Controller n}
    (knows : returned.Knows system.threads ∧ blocked.Knows system.threads)
    (quiet : returned.awaits = none ∧ blocked.awaits = none) :
    Lifecycle (system.waitFor i states returned blocked) := by
  rcases waitFor_put system i states returned blocked with ⟨_,waited⟩ | ⟨_,waited⟩
  · rw [waited]
    exact lifecycle_put (knows_waited knows.1 i states) quiet.1
  · rw [waited]
    exact lifecycle_put (knows_waited knows.2 i states) quiet.2

theorem lifecycle_wait {i : Fin n} {state : State} {returned blocked : Controller n}
    (knows : blocked.Knows system.threads) (waits : blocked.awaits = some (i,state))
    (leads : ∀ threads, blocked.Knows threads → (threads i).state.currentState = state → returned.Knows threads)
    (quiet : returned.awaits = none) : Lifecycle (system.waitFor i [state] returned blocked) := by
  have touched := knows_waited knows i [state]
  rcases waitFor_put system i [state] returned blocked with ⟨found,waited⟩ | ⟨outside,waited⟩
  · rw [waited]
    apply lifecycle_put (leads _ touched ?_) quiet
    simpa [subscribe_state] using found
  · rw [waited]
    refine ⟨touched,?_⟩
    intro j other same
    left
    cases Option.some.inj (waits.symm.trans same)
    simp [put,ThreadState.subscribe,List.mem_singleton.not.mp outside]

theorem lifecycle_woken {i : Fin n} {state : State} {returned blocked : Controller n}
    (knows : blocked.Knows system.threads) (awaited : blocked.Awaited system.threads)
    (waits : blocked.awaits = some (i,state))
    (leads : ∀ threads, blocked.Knows threads → (threads i).state.currentState = state → returned.Knows threads)
    (quiet : returned.awaits = none) (woke : system.woken i returned = some next) : Lifecycle next := by
  obtain ⟨gone,rfl⟩ := woken_goto woke
  rcases awaited i state waits with entry | found
  · exact absurd ⟨_,entry,rfl⟩ gone
  · exact lifecycle_goto (leads _ knows found) quiet

theorem lifecycle_noticed {i : Fin n} {returned : Controller n} (woke : system.woken i returned = some next)
    (knows : returned.Knows system.threads) (quiet : returned.awaits = none) : Lifecycle next := by
  obtain ⟨_,rfl⟩ := woken_goto woke
  exact lifecycle_goto knows quiet

end System

namespace Controller
variable {threads : Fin n → PhpThread} {i : Fin n} {closed : ClosedDrainGeneration}

theorem knows_booted (knows : (bootBlocked i).Knows threads)
    (inactive : (threads i).state.currentState = .inactive) : held.Knows threads :=
  Marks.holds_unmark knows (fits_narrow (Marks.holds_head knows) rfl (by simp [inactive,rest,Stage.free]) rfl rfl)

theorem knows_moved {handler : Handler} (knows : (progressBlocked i handler closed).Knows threads)
    (progress : (threads i).state.currentState = .transitionInProgress) :
    (replacing i handler closed).Knows threads :=
  Marks.holds_remark knows (fits_narrow (Marks.holds_head knows) rfl (List.mem_singleton.mpr progress) rfl rfl)

theorem knows_stopped (knows : (doneBlocked i closed).Knows threads)
    (done : (threads i).state.currentState = .done) : (finishReopen i closed).Knows threads :=
  Marks.holds_remark knows (fits_narrow (Marks.holds_head knows) rfl (List.mem_singleton.mpr done) rfl rfl)

theorem knows_requested {threads_ : List (Fin n)} {pending : List (Ticket n)}
    (knows : Marks.Holds Fits .reserved ((i,.stopping (some closed)) :: (Goal.sweep threads_ pending).marks) threads) :
    (sweepNext threads_ (pending ++ [(i,closed)])).Knows threads := by
  have back := Marks.holds_perm (List.perm_append_singleton _ _).symm knows
  simpa [Knows,marks,rest,Goal.marks,stoppings,List.append_assoc] using back

theorem knows_confirmed {ticket : Ticket n} {confirmed left : List (Ticket n)}
    (knows : (sweepDoneBlocked ticket confirmed left).Knows threads)
    (done : (threads ticket.1).state.currentState = .done) :
    (sweepDone (confirmed ++ [ticket]) left).Knows threads := by
  have front := Marks.holds_perm List.perm_middle knows
  have stopped : Fits (.stopped (some ticket.2)) (threads ticket.1) :=
    fits_narrow (Marks.holds_head front) rfl (List.mem_singleton.mpr done) rfl rfl
  have back := Marks.holds_perm List.perm_middle.symm (Marks.holds_remark front stopped)
  simpa [Knows,marks,rest,stoppeds,stoppings,List.append_assoc] using back

end Controller

namespace System
variable {system next : System n} {i : Fin n}

theorem lifecycle_close {marks : List (Fin n × Stage)} {rest : Stage} (stage : Stage)
    {after : Option ClosedDrainGeneration → Controller n}
    (knows : Marks.Holds Fits rest ((i,stage.holding none) :: marks) system.threads)
    (leads : ∀ closed threads, Marks.Holds Fits rest ((i,stage.holding (some closed)) :: marks) threads →
      (after (some closed)).Knows threads) (quiet : ∀ closed, (after (some closed)).awaits = none) :
    Lifecycle (system.close i after) := by
  obtain ⟨closed,shut,fits⟩ := fits_close stage (Marks.holds_head knows)
  have put := Marks.holds_put knows fits
  simp only [close,shut]
  exact lifecycle_put (leads closed _ put) (quiet closed)

theorem lifecycle_reopen {controller : Controller n} {marks : List (Fin n × Stage)} {rest : Stage} (stage : Stage)
    {closed : ClosedDrainGeneration}
    (knows : Marks.Holds Fits rest ((i,stage.holding (some closed)) :: marks) system.threads)
    (leads : ∀ threads, Marks.Holds Fits rest ((i,stage.holding none) :: marks) threads → controller.Knows threads)
    (quiet : controller.awaits = none) : Lifecycle (system.reopen i closed controller) :=
  lifecycle_put (leads _ (Marks.holds_put knows (fits_reopen stage (Marks.holds_head knows)))) quiet

theorem lifecycle_request {goal : Goal n} (knows : (Controller.requesting goal i).Knows system.threads) :
    Lifecycle (system.request goal i) := by
  have asked : (goal.granted none).asked = some goal.state ∧ (goal.granted none).ticket = none ∧
      (goal.granted none).launch = .running ∧ goal.state ∈ (goal.granted none).allowed := by
    cases goal <;> exact ⟨rfl,rfl,rfl,List.mem_cons_self⟩
  obtain ⟨asked,ticket,running,allowed⟩ := asked
  have fits := fits_request (Marks.holds_head knows) (goal.granted none) asked ticket running allowed
  have put := Marks.holds_put knows fits
  cases attempt : ((system.threads i).state.requestSafeStateChange goal.state).1 with
  | refused | granted | unstable =>
    rw [attempt] at put
    simp only [request,attempt]
    exact lifecycle_put put rfl

theorem start_lifecycle {command : Command n} (knows : Controller.held.Knows system.threads)
    (stepped : system.start command = some next) : Lifecycle next := by
  have marked (i : Fin n) : (Controller.bootSwap i).Knows system.threads := Marks.holds_mark knows i
  cases command with
  | claim i =>
    simp only [start] at stepped
    split at stepped
    · cases stepped
      refine lifecycle_swap (fun same => ?_) (fun _ => knows) ⟨rfl,rfl⟩
      have fits := Marks.holds_head (marked i)
      exact Marks.holds_put (marked i) (fits_park fits (fits_still fits (by simp [same])) (by decide) (by decide) rfl
        (allows_any _))
    · contradiction
  | boot i =>
    simp only [start] at stepped
    split at stepped
    · cases stepped
      exact lifecycle_goto (marked i) rfl
    · contradiction
  | setHandler i handler | shutdown i =>
    cases stepped
    exact lifecycle_goto (marked i) rfl
  | drain =>
    simp only [start] at stepped
    split at stepped
    · cases stepped
      exact lifecycle_goto knows rfl
    · contradiction
  | release =>
    cases stepped
    exact knows

theorem swap_booting {compareTo : State} {no : Controller n} (knows : (Controller.bootSwap i).Knows system.threads)
    (parked : compareTo = .reserved ∨ compareTo = .bootRequested) (other : no.Knows system.threads)
    (quiet : no.awaits = none) : Lifecycle (system.swap i compareTo .booting (.bootReplace i) no) := by
  refine lifecycle_swap (fun same => ?_) (fun _ => other) ⟨rfl,quiet⟩
  have fits := Marks.holds_head knows
  have still : Still (system.threads i) := fits_still fits (by rcases parked with rfl | rfl <;> simp [same])
  exact Marks.holds_put knows (fits_park fits still (by decide) (by decide) rfl ⟨fun _ => still,nofun⟩)

theorem swap_reserved {goal : Goal n} {after : Controller n} (knows : (Controller.refused goal i).Knows system.threads)
    (leads : ∀ threads, Marks.Holds Fits goal.rest ((i,.reserved) :: goal.marks) threads → after.Knows threads)
    (quiet : after.awaits = none) : Lifecycle (system.swap i .done .reserved after after) := by
  have fits := Marks.holds_head knows
  refine lifecycle_swap (fun done => ?_) (fun other => ?_) ⟨quiet,quiet⟩
  · have still := fits_still fits (by simp [done])
    exact leads _ (Marks.holds_put knows (fits_park fits still (by decide) (by decide) rfl (allows_any _)))
  · have reserved : (system.threads i).state.currentState = .reserved := by
      simpa [Stage.refused,other] using fits.allowed
    exact leads _ (Marks.holds_remark knows (fits_narrow fits rfl (List.mem_singleton.mpr reserved) rfl rfl))

theorem controller_lifecycle {controller : Controller n} {choice : Choice n}
    (knows : controller.Knows system.threads) (awaited : controller.Awaited system.threads)
    (stepped : system.controllerStep controller choice = some next) : Lifecycle next := by
  cases controller <;> cases choice <;> try contradiction
  case held.start command => exact start_lifecycle knows stepped
  case bootSwap.proceed i =>
    cases stepped
    exact swap_booting knows (.inl rfl) knows rfl
  case bootSwapRequested.proceed i =>
    cases stepped
    exact swap_booting knows (.inr rfl) (Marks.holds_unmark knows (Marks.holds_head knows)) rfl
  case bootReplace.proceed i =>
    cases stepped
    exact lifecycle_put (Marks.holds_put knows (fits_equip (Marks.holds_head knows) rfl)) rfl
  case bootClose.proceed i =>
    cases stepped
    exact lifecycle_close (.fitted none) knows (fun _ _ knows => knows) fun _ => rfl
  case bootReopen.proceed i closed =>
    cases stepped
    exact lifecycle_reopen (.fitted none) knows (fun _ knows => knows) rfl
  case bootLaunch.proceed i =>
    cases stepped
    exact lifecycle_put (Marks.holds_put knows (fits_launch (Marks.holds_head knows))) rfl
  case bootLaunch.launchFails i =>
    cases stepped
    exact lifecycle_goto knows rfl
  case bootFailed.proceed i =>
    cases stepped
    have fits := Marks.holds_head knows
    refine lifecycle_put (Marks.holds_settle knows ?_) rfl
    exact fits_park fits (fits.launch.1 (by decide)) (by decide) List.mem_cons_self rfl (allows_any _)
  case bootWait.proceed i =>
    cases stepped
    exact lifecycle_wait knows rfl (fun _ => Controller.knows_booted) rfl
  case bootBlocked.proceed i =>
    exact lifecycle_woken knows awaited rfl (fun _ => Controller.knows_booted) rfl stepped
  case requesting.proceed goal i =>
    cases stepped
    exact lifecycle_request knows
  case requestWait.proceed goal i =>
    cases stepped
    exact lifecycle_pause ⟨knows,knows⟩ ⟨rfl,rfl⟩
  case requestBlocked.proceed goal i => exact lifecycle_noticed stepped knows rfl
  case refused.proceed goal i =>
    cases goal with
    | assign handler =>
      cases stepped
      exact lifecycle_goto (Marks.holds_unmark knows (free_of_refused (Marks.holds_head knows))) rfl
    | retire =>
      cases stepped
      exact swap_reserved knows (fun _ knows => Marks.holds_unmark knows (free_of_reserved (Marks.holds_head knows))) rfl
    | sweep threads pending =>
      cases stepped
      exact swap_reserved knows (fun _ knows => Marks.holds_unmark knows (Marks.holds_head knows)) rfl
  case closing.proceed goal i =>
    cases stepped
    cases goal with
    | assign handler => exact lifecycle_close (.moving none) knows (fun _ _ knows => knows) fun _ => rfl
    | retire => exact lifecycle_close (.stopping none) knows (fun _ _ knows => knows) fun _ => rfl
    | sweep threads pending =>
      exact lifecycle_close (.stopping none) knows (fun _ _ => Controller.knows_requested) fun _ => rfl
  case progressWait.proceed i handler closed =>
    cases stepped
    exact lifecycle_wait knows rfl (fun _ => Controller.knows_moved) rfl
  case progressBlocked.proceed i handler closed =>
    exact lifecycle_woken knows awaited rfl (fun _ => Controller.knows_moved) rfl stepped
  case replacing.proceed i handler closed =>
    cases stepped
    exact lifecycle_put (Marks.holds_put knows (fits_install (Marks.holds_head knows))) rfl
  case reopening.proceed i closed =>
    cases stepped
    exact lifecycle_reopen (.moved none) knows (fun _ knows => knows) rfl
  case completing.proceed i =>
    cases stepped
    exact lifecycle_put (Marks.holds_settle knows (fits_complete (Marks.holds_head knows))) rfl
  case graceWait.proceed i closed | doneWait.proceed i closed =>
    cases stepped
    exact lifecycle_wait knows rfl (fun _ => Controller.knows_stopped) rfl
  case graceBlocked.proceed i closed | doneBlocked.proceed i closed =>
    exact lifecycle_woken knows awaited rfl (fun _ => Controller.knows_stopped) rfl stepped
  case graceBlocked.timeout i closed =>
    cases stepped
    exact lifecycle_put (Marks.holds_put knows (fits_unsubscribe (Marks.holds_head knows))) rfl
  case killing.proceed i closed =>
    cases stepped
    exact lifecycle_goto knows rfl
  case finishReopen.proceed i closed =>
    cases stepped
    exact lifecycle_reopen (.stopped none) knows (fun _ knows => knows) rfl
  case finishReserve.proceed i =>
    cases stepped
    have fits := fits_reserve (Marks.holds_head knows)
    exact lifecycle_put (Marks.holds_settle knows (free_of_reserved fits)) rfl
  case sweepStart.proceed =>
    cases stepped
    have all : (Controller.sweepNext (List.finRange n) []).Knows system.threads := by
      simpa [Controller.Knows,Controller.marks,Controller.rest,Goal.marks,stoppings] using
        Marks.holds_all (List.nodup_finRange n) List.mem_finRange knows
    exact lifecycle_goto all rfl
  case sweepNext.proceed threads pending =>
    cases threads with
    | nil | cons i threads =>
      cases stepped
      exact lifecycle_goto knows rfl
  case sweepGrace.proceed left pending =>
    cases left with
    | nil =>
      cases stepped
      exact lifecycle_goto knows rfl
    | cons ticket left =>
      simp only [controllerStep] at stepped
      split at stepped
      · cases stepped
        exact lifecycle_goto knows rfl
      · cases stepped
        exact lifecycle_goto knows rfl
  case sweepGraceWait.proceed i left pending =>
    cases stepped
    exact lifecycle_pause ⟨knows,knows⟩ ⟨rfl,rfl⟩
  case sweepGraceBlocked.proceed i left pending => exact lifecycle_noticed stepped knows rfl
  case sweepGraceBlocked.timeout i left pending =>
    cases stepped
    exact lifecycle_put (Marks.holds_touch knows fun _ => fits_unsubscribe) rfl
  case sweepKill.proceed left pending =>
    cases left with
    | nil | cons ticket left =>
      cases stepped
      exact lifecycle_goto knows rfl
  case sweepDone.proceed confirmed left =>
    cases left with
    | nil =>
      cases stepped
      have all : (Controller.sweepFinish confirmed).Knows system.threads := by
        simpa [Controller.Knows,Controller.marks,Controller.rest,stoppings] using knows
      exact lifecycle_goto all rfl
    | cons ticket left =>
      simp only [controllerStep] at stepped
      split at stepped
      next done =>
        cases stepped
        exact lifecycle_goto (Controller.knows_confirmed knows (by simpa [isDone] using done)) rfl
      next =>
        cases stepped
        exact lifecycle_goto knows rfl
  case sweepDoneWait.proceed ticket confirmed left =>
    cases stepped
    exact lifecycle_wait knows rfl (fun _ => Controller.knows_confirmed) rfl
  case sweepDoneBlocked.proceed ticket confirmed left =>
    exact lifecycle_woken knows awaited rfl (fun _ => Controller.knows_confirmed) rfl stepped
  case sweepFinish.proceed pending =>
    cases pending with
    | nil =>
      cases stepped
      exact lifecycle_goto knows rfl
    | cons ticket pending =>
      cases stepped
      exact lifecycle_reopen (.stopped none) knows (fun _ knows => knows) rfl
  case sweepReserve.proceed i pending =>
    cases stepped
    exact lifecycle_put (Marks.holds_settle knows (fits_reserve (Marks.holds_head knows))) rfl
  case sweepPublish.proceed =>
    cases stepped
    exact lifecycle_goto knows rfl
  case sweepMainWait.proceed =>
    simp only [controllerStep] at stepped
    split at stepped
    · cases stepped
      exact lifecycle_goto (Marks.holds_rest knows fun _ => free_of_reserved) rfl
    · contradiction

theorem awaits_rests {controller : Controller n} {state : State} (waits : controller.awaits = some (i,state)) :
    publications state = [] := by
  cases controller <;> cases waits <;> rfl

/-- The pthread cannot take back what a blocked holder waits for, nor hide it. -/
theorem awaited_step {stage : Stage} {thread stepped : PhpThread} {move : Move} {state : State}
    (fits : Fits stage thread) (took : thread.step move = some stepped) (rests : publications state = [])
    (awaited : ⟨.controller,[state]⟩ ∈ thread.state.subscribers ∨ thread.state.currentState = state) :
    ⟨.controller,[state]⟩ ∈ stepped.state.subscribers ∨ stepped.state.currentState = state := by
  rcases (PhpThread.step_advance took).state with same | ⟨states,same⟩ | ⟨published,publishing,same⟩
  · exact same ▸ awaited
  · rw [same,subscribe_state]
    refine awaited.imp_left fun entry => ?_
    unfold ThreadState.subscribe
    split
    · exact entry
    · exact List.mem_append_left _ entry
  · rw [same]
    rcases awaited with entry | found
    · by_cases answer : published = state
      · exact .inr answer
      · exact .inl (ThreadState.mem_set.mpr ⟨entry,List.mem_singleton.not.mpr answer⟩)
    · have possible := PhpThread.fits_publishes stage.asks fits.pc publishing
      rw [found,rests] at possible
      contradiction

theorem lifecycle_fits (lifecycle : Lifecycle system) (i : Fin n) : ∃ stage, Fits stage (system.threads i) := by
  unfold Lifecycle at lifecycle
  split at lifecycle
  · obtain ⟨stage,_,fits⟩ := Marks.holds_some lifecycle i
    exact ⟨stage,fits⟩
  · obtain ⟨stage,_,fits⟩ := Marks.holds_some lifecycle.1 i
    exact ⟨stage,fits⟩

theorem pthread_lifecycle {thread : PhpThread} {move : Move} (lifecycle : Lifecycle system)
    (took : (system.threads i).step move = some thread) :
    Lifecycle { system with threads := Function.update system.threads i thread } := by
  have kept (stage : Stage) (fits : Fits stage (system.threads i)) : Fits stage thread := fits_step fits took
  obtain ⟨stage,fits⟩ := lifecycle_fits lifecycle i
  obtain ⟨threads,main,scaling,inactive⟩ := system
  cases scaling with
  | none => exact Marks.holds_touch lifecycle kept
  | some controller =>
    refine ⟨Marks.holds_touch lifecycle.1 kept,fun j state waits => ?_⟩
    have awaited := lifecycle.2 j state waits
    by_cases same : j = i
    · subst same
      simpa using awaited_step fits took (awaits_rests waits) awaited
    · simpa [Function.update_of_ne same] using awaited

theorem lifecycle_step {action : Action n} (stepped : step action system = some next) (lifecycle : Lifecycle system) :
    Lifecycle next := by
  cases action with
  | acquire =>
    simp only [step] at stepped
    split at stepped
    next free =>
      cases stepped
      simp only [Lifecycle,free] at lifecycle
      exact lifecycle_goto lifecycle rfl
    · contradiction
  | controller choice =>
    obtain ⟨controller,holds,went⟩ := Option.bind_eq_some_iff.mp stepped
    simp only [Lifecycle,holds] at lifecycle
    exact controller_lifecycle lifecycle.1 lifecycle.2 went
  | pthread i move =>
    obtain ⟨thread,took,rfl⟩ := Option.map_eq_some_iff.mp stepped
    exact pthread_lifecycle lifecycle took
  | mainReserved =>
    simp only [step] at stepped
    split at stepped
    · cases stepped
      exact lifecycle
    · contradiction

/-- What the holder of `SCALING` knows is so in every state of every run. -/
theorem reachable_lifecycle (reached : Machine.Reachable step (init : System n) system) : Lifecycle system :=
  Machine.reachable_invariant (fun _ _ _ => lifecycle_step) reached lifecycle_init

def readyRun : List (Action 1) := Machine.rounds [
  (1,.acquire),(1,.controller (.start (.boot (.last 0)))),(5,.controller .proceed),(5,.pthread (.last 0) .proceed),
  (1,.controller .proceed),(1,.controller (.start (.setHandler (.last 0) ⟨.regularThread,1⟩))),(3,.controller .proceed),
  (4,.pthread (.last 0) .proceed),(4,.controller .proceed),(7,.pthread (.last 0) .proceed)]

end System
end Frankenrust.Thread
