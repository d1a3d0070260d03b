import Frankenrust.Thread.Lifecycle

/-! A pthread parked in its select is woken by every transition and every shutdown: the
drain generation it has fetched is closed, whatever was closed and reopened before. -/
namespace Frankenrust.Thread
variable {n : Nat}

/-- A stage that allows a request to be found unanswered. -/
def Stage.Open (stage : Stage) : Prop :=
  stage.ticket = none ∧ (.transitionRequested ∈ stage.allowed ∨ .shuttingDown ∈ stage.allowed)

theorem stoppings_closed (tickets : List (Ticket n)) : ∀ mark ∈ stoppings tickets, ¬ mark.2.Open := by
  intro mark member
  obtain ⟨ticket,_,rfl⟩ := List.mem_map.mp member
  simp [Stage.Open,Stage.stopping]

theorem stoppeds_closed (tickets : List (Ticket n)) : ∀ mark ∈ stoppeds tickets, ¬ mark.2.Open := by
  intro mark member
  obtain ⟨ticket,_,rfl⟩ := List.mem_map.mp member
  simp [Stage.Open,Stage.stopped]

theorem free_closed : ¬ Stage.free.Open := by simp [Stage.Open,Stage.free]

theorem reserved_closed : ¬ Stage.reserved.Open := by simp [Stage.Open,Stage.reserved]

theorem goal_closed (goal : Goal n) : ∀ mark ∈ goal.marks, ¬ mark.2.Open := by
  cases goal with
  | assign | retire => nofun
  | sweep threads pending =>
    intro mark member
    rcases List.mem_append.mp member with untouched | requested
    · obtain ⟨i,_,rfl⟩ := List.mem_map.mp untouched
      exact free_closed
    · exact stoppings_closed pending mark requested

/-- Only between the grant of a request and the close is a request open. -/
theorem marks_closed {controller : Controller n} {mark : Fin n × Stage} (member : mark ∈ controller.marks)
    (opened : mark.2.Open) : ∃ goal, controller = .closing goal mark.1 := by
  have single {i : Fin n} {stage : Stage} (alone : mark ∈ [(i,stage)]) (shut : ¬ stage.Open) : False := by
    cases List.mem_singleton.mp alone
    exact shut opened
  cases controller with
  | closing goal i =>
    rcases List.mem_cons.mp member with rfl | later
    · exact ⟨goal,rfl⟩
    · exact absurd opened (goal_closed goal mark later)
  | requesting goal i | requestWait goal i | requestBlocked goal i | refused goal i =>
    rcases List.mem_cons.mp member with rfl | later
    · simp [Stage.Open,Stage.free,Stage.refused] at opened
    · exact absurd opened (goal_closed goal mark later)
  | held | sweepStart | sweepPublish | sweepMainWait => contradiction
  | sweepNext threads pending => exact absurd opened (goal_closed (.sweep threads pending) mark member)
  | sweepGrace _ pending | sweepGraceWait _ _ pending | sweepGraceBlocked _ _ pending | sweepKill _ pending =>
    exact absurd opened (stoppings_closed pending mark member)
  | sweepDone confirmed left | sweepDoneWait _ confirmed left | sweepDoneBlocked _ confirmed left =>
    rcases List.mem_append.mp member with seen | requested
    · exact absurd opened (stoppeds_closed confirmed mark seen)
    · exact absurd opened (stoppings_closed _ mark requested)
  | sweepFinish pending => exact absurd opened (stoppeds_closed pending mark member)
  | sweepReserve i pending =>
    rcases List.mem_cons.mp member with rfl | later
    · simp [Stage.Open,Stage.stopped] at opened
    · exact absurd opened (stoppeds_closed pending mark later)
  | _ => exact (single member (by simp [Stage.Open,Stage.free,Stage.bare,Stage.fitted,Stage.launched,Stage.moving,
      Stage.moved,Stage.stopping,Stage.stopped])).elim

theorem rest_closed (controller : Controller n) : ¬ controller.rest.Open := by
  cases controller with
  | requesting goal i | requestWait goal i | requestBlocked goal i | refused goal i | closing goal i =>
    cases goal with
    | assign | retire => exact free_closed
    | sweep => exact reserved_closed
  | _ => first | exact free_closed | exact reserved_closed

namespace System
variable {system : System n}

theorem requested_closed (lifecycle : Lifecycle system) {i : Fin n}
    (request : (system.threads i).state.currentState = .transitionRequested ∨
      (system.threads i).state.currentState = .shuttingDown)
    (performed : ∀ goal, system.scaling ≠ some (.closing goal i)) :
    ∃ stage closed, Fits stage (system.threads i) ∧ stage.ticket = some closed := by
  have shut {stage : Stage} (fits : Fits stage (system.threads i)) (closed : ¬ stage.Open) :
      ∃ stage closed, Fits stage (system.threads i) ∧ stage.ticket = some closed := by
    cases ticket : stage.ticket with
    | some held => exact ⟨stage,held,fits,ticket⟩
    | none =>
      refine absurd ⟨ticket,?_⟩ closed
      rcases request with same | same
      · exact .inl (same ▸ fits.allowed)
      · exact .inr (same ▸ fits.allowed)
  cases holder : system.scaling with
  | none =>
    simp only [Lifecycle,holder] at lifecycle
    obtain ⟨stage,known,fits⟩ := Marks.holds_some lifecycle i
    rcases known with rfl | member
    · exact shut fits free_closed
    · contradiction
  | some controller =>
    simp only [Lifecycle,holder] at lifecycle
    obtain ⟨stage,known,fits⟩ := Marks.holds_some lifecycle.1 i
    rcases known with rfl | member
    · exact shut fits (rest_closed controller)
    · refine shut fits fun opened => ?_
      obtain ⟨goal,rfl⟩ := marks_closed member opened
      exact performed goal holder

theorem closing_open (lifecycle : Lifecycle system) {goal : Goal n} {i : Fin n}
    (holder : system.scaling = some (.closing goal i)) :
    (system.threads i).drain.current.sender.isSome := by
  simp only [Lifecycle,holder] at lifecycle
  have fits := Marks.holds_head lifecycle.1
  have none : (goal.granted none).ticket = none := by cases goal <;> rfl
  have held := fits.ticket
  rwa [none] at held

/-- In every state of every run: a pthread in its select whose slot has an unanswered
request is woken by the drain once the controller has closed it; a receiver is
disconnected exactly when its generation was closed; and every drain is open whenever
`SCALING` is free and whenever a controller comes to close it. -/
theorem drain_wakes (reached : Machine.Reachable step (init : System n) system) (i : Fin n) :
    (∀ handler channel, (system.threads i).pc = .selecting handler channel →
      ((system.threads i).state.currentState = .transitionRequested ∨
        (system.threads i).state.currentState = .shuttingDown) →
      (∀ goal, system.scaling ≠ some (.closing goal i)) →
      channel ∈ (system.threads i).drain.disconnected ∧
        (system.threads i).step .proceed = some ((system.threads i).goto (.looping handler))) ∧
    (∀ channel, channel ∈ (system.threads i).drain.disconnected ↔ channel ∈ (system.threads i).drain.closed) ∧
    ((system.threads i).drain.current.sender.isSome →
      (system.threads i).drain.receiver ∉ (system.threads i).drain.disconnected) ∧
    (system.scaling = none → (system.threads i).drain.current.sender.isSome) ∧
    (∀ goal, system.scaling = some (.closing goal i) → (system.threads i).drain.close.1.isSome) := by
  have lifecycle := reachable_lifecycle reached
  obtain ⟨_,some⟩ := lifecycle_fits lifecycle i
  have sound := some.sound
  refine ⟨fun handler channel selecting request performed => ?_,fun channel => by rw [sound.exact],?_,?_,?_⟩
  · obtain ⟨stage,closed,fits,ticket⟩ := requested_closed lifecycle request performed
    have held := fits.ticket
    rw [ticket] at held
    have member : channel ∈ (system.threads i).drain.closed := by
      rcases fits.fetched handler channel selecting with rfl | older
      · exact sound.lost held.1
      · exact older
    rw [← sound.exact] at member
    exact ⟨member,by simp [PhpThread.step,PhpThread.proceed,selecting,member]⟩
  · intro holds
    obtain ⟨sender,holds⟩ := Option.isSome_iff_exists.mp holds
    obtain ⟨rfl,absent⟩ := sound.held sender holds
    rwa [sound.exact]
  · intro free
    simp only [Lifecycle,free] at lifecycle
    exact (lifecycle.others i (by simp [Marks.keys])).ticket
  · intro goal holder
    obtain ⟨sender,holds⟩ := Option.isSome_iff_exists.mp (closing_open lifecycle holder)
    simp [DrainChannel.close_open holds]

def parkedRun : List (Action 1) :=
  readyRun ++ Machine.rounds [(1,.controller (.start (.shutdown (.last 0)))),(2,.controller .proceed)]

theorem drain_wakes_parked : ∃ system, Machine.run step parkedRun (init : System 1) = some system ∧
    (system.threads 0).pc = .selecting ⟨.regularThread,1⟩ 2 ∧ 2 ∈ (system.threads 0).drain.disconnected := by
  have ran : ∃ system, Machine.run step parkedRun (init : System 1) = some system ∧
      (system.threads 0).pc = .selecting ⟨.regularThread,1⟩ 2 ∧
      (system.threads 0).state.currentState = .shuttingDown ∧
      system.scaling.any (· matches .graceWait _ _) := ⟨_,rfl,rfl,rfl,rfl⟩
  obtain ⟨system,ran,selecting,request,holder⟩ := ran
  refine ⟨system,ran,selecting,?_⟩
  refine ((drain_wakes ⟨parkedRun,ran⟩ 0).1 _ _ selecting (.inr request) fun goal closing => ?_).1
  simp [closing] at holder

end System
end Frankenrust.Thread
