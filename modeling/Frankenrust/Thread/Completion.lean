import Frankenrust.Thread.Conversion

/-! That the loop of `run` ends: wherever it stands, the server or the pthread it waits
for has a step that brings the last conversion closer. -/
namespace Frankenrust.Thread
variable {n : Nat}

theorem patience_bound (thread : PhpThread) : patience thread ≤ 3 := by
  unfold patience
  split <;> decide

namespace Controller

/-- How far a swap on an inactive slot is from its return. -/
def rank (thread : PhpThread) : Controller n → Nat
  | .requesting _ _ => 20
  | .closing _ _ => 19
  | .progressWait _ _ _ => 18
  | .progressBlocked _ _ _ => 10 + patience thread
  | .replacing _ _ _ => 5
  | .reopening _ _ => 4
  | .completing _ => 3
  | _ => 2

end Controller

namespace Claimant

def rank (system : System n) : Claimant n → Nat
  | .idle => 23 + n
  | .scanning left => 22 + left.length
  | .claimed _ => 21
  | .assigning i _ => (system.scaling.map (Controller.rank (system.threads i))).getD 0
  | _ => 1

end Claimant

namespace Startup
variable {pool : Pool Unit n} {converted : List (Fin n)}

def rank (startup : Startup n) : Nat :=
  match startup.phase with
  | .converting converted =>
    (n - converted.length) * (n + 30) + (startup.pool.callers ()).rank startup.pool.system
  | _ => 0

/-- A step of the call under way that leaves the loop where it is and its caller closer to the end. -/
def Descends (pool : Pool Unit n) (converted : List (Fin n)) : Prop :=
  ∃ action after, step action ⟨pool,.converting converted⟩ = some after ∧ rank after < rank ⟨pool,.converting converted⟩

theorem descends_turn {action : Pool.Action Unit n} {caller : Claimant n} {system : System n}
    (next : Startup.next ⟨pool,.converting converted⟩ .proceed = some action)
    (stepped : Pool.step action pool = some (pool.turn () caller system))
    (answered : Phase.answered (.converting converted) (Pool.event action pool) = .converting converted)
    (lower : caller.rank system < (pool.callers ()).rank pool.system) : Descends pool converted := by
  refine ⟨.server .proceed,⟨pool.turn () caller system,.converting converted⟩,?_,?_⟩
  · simp [step,next,stepped,answered]
  · have here : (pool.turn () caller system).system = system := rfl
    simp only [rank,Pool.turn_callers,here]
    omega

theorem rank_assigning {i : Fin n} {handler : Handler} {controller : Controller n} {system : System n}
    (holder : system.scaling = some controller) :
    (Claimant.assigning i handler).rank system = controller.rank (system.threads i) := by
  simp [Claimant.rank,holder]

theorem descends_driven {i : Fin n} {handler : Handler} {controller later : Controller n} {system : System n}
    (now : pool.callers () = .assigning i handler) (holder : pool.system.scaling = some controller)
    (took : pool.system.controllerStep controller .proceed = some system) (went : system.scaling = some later)
    (early : 1 < controller.rank (pool.system.threads i))
    (lower : later.rank (system.threads i) < controller.rank (pool.system.threads i)) : Descends pool converted := by
  have stepped : pool.proceed () .proceed = some (pool.turn ()
      (if system.scaling = some .held then .assigned i controller.succeeds else .assigning i handler) system) := by
    simp [Pool.proceed,now,Pool.drive,holder,took]
  have heard : Pool.event (.proceed () .proceed) pool = pool.installs := by
    rw [Pool.event_proceed stepped,now,Pool.turn_callers]
    split <;> rfl
  have next : Startup.next ⟨pool,.converting converted⟩ .proceed = some (.proceed () .proceed) := by
    simp [Startup.next,now]
  refine descends_turn next stepped ?_ ?_
  · rw [heard,quiet_installs]
  · rw [now,rank_assigning holder]
    split
    · exact early
    · rw [rank_assigning went]
      exact lower

/-- While the server is blocked, either it has been woken or the pthread has a step to take. -/
theorem blocked_descends {i : Fin n} {handler installed : Handler} {closed : ClosedDrainGeneration}
    (sound : Pool.Sound pool) (converting : Converting pool converted) (now : pool.callers () = .assigning i handler)
    (holder : pool.system.scaling = some (.progressBlocked i installed closed)) : Descends pool converted := by
  have attends := converting.installed.attended i
  have blocked : blockedOn pool.system.scaling i = some .transitionInProgress := by simp [blockedOn,holder,Controller.awaits]
  by_cases waits : (pool.system.threads i).state.Waits .controller
  · have converts := converting.converts
    rw [now] at converts
    have answers : Answers (pool.system.threads i) := converts.2.2 _ holder
    obtain ⟨subscriber,member,own⟩ := waits
    obtain ⟨state,awaited,states⟩ := attends.controller subscriber member own
    cases blocked.symm.trans awaited
    have early : (pool.system.threads i).state.currentState ≠ .transitionInProgress := by
      have fresh := attends.fresh subscriber member
      rwa [states,List.mem_singleton] at fresh
    have requested : (pool.system.threads i).state.currentState = .transitionRequested := by
      have lifecycle := sound.lifecycle
      simp only [System.Lifecycle,holder] at lifecycle
      have allowed := (Marks.holds_head lifecycle.1).allowed
      cases answers with
      | parked known =>
        rcases known with inactive | requested
        · simp [inactive,Stage.moving] at allowed
        · exact requested
      | looping requested | armed requested => exact requested
      | answered answered => exact absurd answered early
    obtain ⟨thread,moved,_,closer⟩ := answers_proceed attends answers requested
    have took : (pool.system.threads i).step .proceed = some thread := moved
    refine ⟨.pthread i .proceed,⟨{ pool with system := { pool.system with
        threads := Function.update pool.system.threads i thread } },.converting converted⟩,?_,?_⟩
    · simp [step,Pool.step,System.step,took]
    · simp only [rank,now,Claimant.rank,holder,Option.map_some,Option.getD_some,Controller.rank,Function.update_self]
      omega
  · have took : pool.system.controllerStep (.progressBlocked i installed closed) .proceed =
        some (pool.system.goto (.replacing i installed closed)) := if_neg waits
    refine descends_driven now holder took rfl ?_ ?_
    all_goals
      simp only [Controller.rank]
      omega

theorem assigning_descends {i : Fin n} {handler : Handler} (sound : Pool.Sound pool) (converting : Converting pool converted)
    (now : pool.callers () = .assigning i handler) : Descends pool converted := by
  obtain ⟨controller,holder,assigns,inactive⟩ : Stands pool.system (.assigning i handler) := now ▸ sound.stands ()
  cases controller <;> try contradiction
  case requesting goal j =>
    obtain ⟨rfl,rfl⟩ := assigns
    have granted := inactive _ _ rfl
    have went : (pool.system.request (.assign handler) j).scaling = some (.closing (.assign handler) j) := by
      simp [System.request,ThreadState.requestSafeStateChange,granted,System.put]
    exact descends_driven now holder rfl went (by simp [Controller.rank]) (by simp [Controller.rank])
  case closing goal j =>
    obtain ⟨rfl,rfl⟩ := assigns
    obtain ⟨sender,held⟩ := Option.isSome_iff_exists.mp (System.closing_open sound.lifecycle holder)
    have went : (pool.system.close j (System.afterClose (.assign handler) j)).scaling =
        some (.progressWait j handler ⟨(pool.system.threads j).drain.current.generation⟩) := by
      simp [System.close,DrainChannel.close_open held,System.afterClose,System.put]
    exact descends_driven now holder rfl went (by simp [Controller.rank]) (by simp [Controller.rank])
  case progressWait j installed closed =>
    obtain ⟨rfl,rfl⟩ := assigns
    rcases System.waitFor_put pool.system j [.transitionInProgress] (.replacing j installed closed)
      (.progressBlocked j installed closed) with ⟨_,same⟩ | ⟨_,same⟩
    · exact descends_driven now holder (congrArg some same) rfl (by simp [Controller.rank]) (by simp [Controller.rank])
    · refine descends_driven now holder (congrArg some same) rfl (by simp [Controller.rank]) ?_
      rw [System.put_self]
      exact Nat.lt_of_le_of_lt (Nat.add_le_add_left (patience_bound _) 10) (by simp [Controller.rank])
  case progressBlocked j installed closed =>
    obtain ⟨rfl,rfl⟩ := assigns
    exact blocked_descends sound converting now holder
  case replacing j installed closed | reopening j closed | completing j =>
    exact descends_driven now holder rfl rfl (by simp [Controller.rank]) (by simp [Controller.rank])

/-- Short of the last conversion there is always a step that brings it closer. -/
theorem converting_descends (sound : Pool.Sound pool) (converting : Converting pool converted)
    (short : converted.length < n) : Descends pool converted := by
  have converts := converting.converts
  cases now : pool.callers () <;> rw [now] at converts
  case idle =>
    have free : pool.system.scaling = none := by
      rcases sound.free with free | ⟨_,active⟩
      · exact free
      · exact absurd now active
    have stepped : Pool.step (.lock () .getInactivePhpThread) pool =
        some (pool.turn () (.scanning pool.phpThreads) (pool.system.goto .held)) := if_pos ⟨now,free⟩
    have scanned : pool.phpThreads = List.finRange n := if_pos converting.installed.installed
    refine descends_turn (by simp [Startup.next,now,short]) stepped rfl ?_
    rw [now,scanned]
    simp [Claimant.rank]
  case scanning left =>
    cases left with
    | nil =>
      obtain ⟨_,member,_⟩ := converts
      contradiction
    | cons i left =>
      have stepped : pool.proceed () .proceed = some (pool.turn () (if (pool.system.threads i).state.currentState = .inactive
          then .claimed i else .scanning left) pool.system) := by
        simp [Pool.proceed,now,Pool.goto]
      have next : Startup.next ⟨pool,.converting converted⟩ .proceed = some (.proceed () .proceed) := by
        simp [Startup.next,now]
      refine descends_turn next stepped ?_ ?_
      · rw [Pool.event_proceed stepped,now,Pool.turn_callers]
        split <;> rfl
      · rw [now]
        split <;> simp only [Claimant.rank,List.length_cons] <;> omega
  case claimed i =>
    have stepped : Pool.step (.assignHandler () ⟨.regularThread,converted.length⟩) pool =
        some (pool.turn () (.assigning i ⟨.regularThread,converted.length⟩)
          (pool.system.goto (.requesting (.assign ⟨.regularThread,converted.length⟩) i))) := by
      simp [Pool.step,now,System.start]
    refine descends_turn (by simp [Startup.next,now]) stepped rfl ?_
    rw [now]
    simp [Claimant.rank,System.goto,Controller.rank]
  case assigning i handler => exact assigning_descends sound converting now
  case assigned i assigned =>
    obtain ⟨_,rfl⟩ : Stands pool.system (.assigned i assigned) := now ▸ sound.stands ()
    have stepped : pool.proceed () .proceed = some (pool.release ()) := by simp [Pool.proceed,now]
    have told : Pool.event (.proceed () .proceed) pool = some (.assigned () i true) := by
      rw [Pool.event_proceed stepped,now]
      rfl
    refine ⟨.server .proceed,⟨pool.release (),.converting (converted ++ [i])⟩,?_,?_⟩
    · have took : Pool.step (.proceed () .proceed) pool = some (pool.release ()) := stepped
      simp [step,Startup.next,now,took,told,Phase.answered]
    · obtain ⟨left,remaining⟩ : ∃ left, n - converted.length = left + 1 := ⟨n - converted.length - 1,by omega⟩
      have after : n - (converted ++ [i]).length = left := by
        rw [List.length_append,List.length_singleton]
        omega
      -- one conversion less outweighs the search that the next one begins with
      simp only [rank,now,Pool.release,Pool.turn_callers,Claimant.rank,remaining,after,Nat.succ_mul]
      omega
  all_goals contradiction

/-- Where the server is in its loop, with what is so there. -/
def Looping (startup : Startup n) : Prop := Proper startup ∧ ∃ converted, startup.phase = .converting converted

theorem answered_converting (event : Option (Pool.Event Unit n)) :
    Phase.answered (.converting converted) event = .panicked ∨ ∃ more, Phase.answered (.converting converted) event = .converting more := by
  cases event with
  | none => exact .inr ⟨_,rfl⟩
  | some event =>
    cases event with
    | exhausted => exact .inl rfl
    | assigned c i assigned =>
      cases assigned with
      | false => exact .inl rfl
      | true => exact .inr ⟨_,rfl⟩
    | handedOut | dropped | installed | initialized => exact .inr ⟨_,rfl⟩

theorem looping_step (action : Action n) (startup after : Startup n) (stepped : step action startup = some after)
    (looping : Looping startup) : Looping after := by
  obtain ⟨proper,converted,phase⟩ := looping
  have next := proper_step action startup after stepped proper
  refine ⟨next,?_⟩
  cases action with
  | server choice =>
    simp only [step,Option.bind_eq_bind,Option.pure_def,Option.bind_eq_some_iff,Option.some.injEq] at stepped
    obtain ⟨action,_,pool,_,rfl⟩ := stepped
    rw [phase] at next ⊢
    rcases answered_converting (Pool.event action startup.pool) with panicked | more
    · rw [panicked] at next
      exact next.2.elim
    · exact more
  | pthread i move | mainReserved =>
    obtain ⟨_,_,rfl⟩ := Option.map_eq_some_iff.mp stepped
    exact ⟨converted,phase⟩

theorem proper_run {actions : List (Action n)} {startup : Startup n} (ran : Machine.run step actions init = some startup) :
    Proper startup := Machine.run_invariant proper_step ran proper_init

/-- From anywhere in the loop it can be brought to its end. -/
theorem looping_completes {startup : Startup n} (looping : Looping startup) :
    ∃ actions last, Machine.run step actions startup = some last ∧ Proper last ∧
      ∃ converted, last.phase = .converting converted ∧ converted.length = n := by
  have descends (startup : Startup n) (looping : Looping startup)
      (short : ¬∃ converted, startup.phase = .converting converted ∧ converted.length = n) :
      ∃ action after, step action startup = some after ∧ rank after < rank startup := by
    obtain ⟨pool,_⟩ := startup
    obtain ⟨⟨sound,converting⟩,converted,rfl⟩ := looping
    have bound := distinct_length converting.distinct
    have fewer : converted.length ≠ n := fun all => short ⟨converted,rfl,all⟩
    exact converting_descends sound converting (by omega)
  obtain ⟨actions,last,ran,inside,goal⟩ := Machine.reaches_goal rank looping_step descends looping
  exact ⟨actions,last,ran,inside.1,goal⟩

end Startup

namespace Pool

/-- Whatever the callers do: a slot is in one claim at a time, and is handed out again only
after its claim was dropped or the inactive handler was put back. And a server that starts
alone converts each of its threads, whatever the pthreads do meanwhile. -/
theorem handout_exclusive :
    (∀ (ι : Type) [DecidableEq ι] (n : Nat) (actions : List (Action ι n)) (pool : Pool ι n),
      Machine.run step actions init = some pool →
        (∀ c d i, (pool.callers c).claim = some i → (pool.callers d).claim = some i → c = d) ∧
        ∀ c d i (before middle after : List (Event ι n)),
          Machine.trace step event actions init = before ++ .handedOut c i :: (middle ++ .handedOut d i :: after) →
            .dropped c i ∈ middle ∨ ∃ handler : Handler, handler.kind = .inactiveThread ∧ .installed i handler ∈ middle) ∧
    ∀ (n : Nat) (actions : List (Startup.Action n)) (startup : Startup n),
      Machine.run Startup.step actions Startup.init = some startup →
        startup.phase ≠ .panicked ∧ ∀ converted, startup.phase = .converting converted → converted.Nodup ∧
          ∃ more last all, Machine.run Startup.step more startup = some last ∧ last.phase = .converting all ∧
            all.Nodup ∧ all.length = n := by
  refine ⟨?_,?_⟩
  · intro ι _ n actions pool ran
    have told := told_run ran
    refine ⟨fun c d i => claims_apart told.sound,?_⟩
    intro c d i before middle after same
    obtain ⟨event,member,closed⟩ := told.orderly i _ _ _ _ _ same rfl rfl
    cases event with
    | dropped e j =>
      obtain ⟨rfl,rfl⟩ := closed
      exact .inl member
    | installed j handler =>
      obtain ⟨rfl,kind⟩ := closed
      exact .inr ⟨handler,kind,member⟩
    | handedOut | exhausted | assigned | initialized => contradiction
  · intro n actions startup ran
    have proper := Startup.proper_run ran
    refine ⟨?_,?_⟩
    · intro panicked
      have impossible := proper.2
      rw [panicked] at impossible
      exact impossible
    · intro converted phase
      have converting := proper.2
      rw [phase] at converting
      obtain ⟨more,last,ran,inside,all,phase,whole⟩ := Startup.looping_completes ⟨proper,converted,phase⟩
      have later := inside.2
      rw [phase] at later
      exact ⟨converting.distinct,more,last,all,ran,phase,later.distinct,whole⟩

/-- Two callers over one slot: the first drops its claim, then the second is handed the slot. -/
def twiceRun : List (Action (Fin 2) 1) := Machine.rounds [
  (1,.lock 0 (.initPhpThreads 1)),(7,.proceed 0 .proceed),(5,.pthread 0 .proceed),(2,.proceed 0 .proceed),
  (1,.lock 0 .getInactivePhpThread),(1,.proceed 0 .proceed),(1,.drop 0),(1,.lock 1 .getInactivePhpThread),
  (1,.proceed 1 .proceed)]

def convertingRun : List (Startup.Action 1) := Machine.rounds [
  (8,.server .proceed),(5,.pthread 0 .proceed),(8,.server .proceed),(4,.pthread 0 .proceed),(5,.server .proceed)]

theorem handout_exclusive_twice :
    (∃ pool, Machine.run step twiceRun init = some pool ∧ (pool.callers 1).claim = some 0 ∧
      (∀ c, (pool.callers c).claim = some 0 → c = 1) ∧
      (Event.dropped 0 0 ∈ [Event.dropped (0 : Fin 2) (0 : Fin 1)] ∨
        ∃ handler : Handler, handler.kind = .inactiveThread ∧ .installed 0 handler ∈ [Event.dropped (0 : Fin 2) (0 : Fin 1)])) ∧
    ∃ startup, Machine.run Startup.step convertingRun Startup.init = some startup ∧
      startup.phase = .converting [0] ∧ startup.phase ≠ .panicked := by
  obtain ⟨pool,ran,holds⟩ := Option.map_eq_some_iff.mp
    (by decide +kernel : (Machine.run step twiceRun init).map (fun pool => (pool.callers 1).claim) = some (some 0))
  obtain ⟨startup,converted,phase⟩ := Option.map_eq_some_iff.mp
    (by decide +kernel : (Machine.run Startup.step convertingRun Startup.init).map (fun startup => startup.phase) =
      some (.converting [0]))
  have history : Machine.trace step event twiceRun init = [.installed 0 ⟨.inactiveThread,0⟩,.initialized 0 true] ++
      .handedOut 0 0 :: ([.dropped 0 0] ++ .handedOut 1 0 :: []) := by decide +kernel
  obtain ⟨alone,orderly⟩ := handout_exclusive.1 _ _ _ _ ran
  exact ⟨⟨pool,ran,holds,fun c owns => alone c 1 0 owns holds,orderly _ _ _ _ _ _ history⟩,
    startup,converted,phase,(handout_exclusive.2 _ _ _ converted).1⟩

end Pool
end Frankenrust.Thread
