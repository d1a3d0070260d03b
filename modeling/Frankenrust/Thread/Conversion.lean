import Frankenrust.Thread.Startup
import Mathlib.Data.List.Perm.Subperm

/-! The loop of `run` over its threads: every search finds a slot that is not converted
yet, every assignment succeeds, and the loop can always be brought to its end. -/
namespace Frankenrust.Thread
variable {n : Nat}

/-- A regular slot is not inactive, so no search finds it. -/
theorem regular_active {stage : Stage} {thread : PhpThread} (fits : Fits stage thread) (regular : Regular thread) :
    thread.state.currentState ≠ .inactive := by
  intro inactive
  obtain ⟨handler,_,⟨same,kind⟩,_⟩ := inactive_parked fits inactive
  cases kind.symm.trans (regular handler same)

theorem exists_unconverted {converted : List (Fin n)} (short : converted.length < n) :
    ∃ i ∈ List.finRange n, i ∉ converted := by
  by_contra none
  have covered : List.finRange n ⊆ converted := by
    intro i member
    by_contra missing
    exact none ⟨i,member,missing⟩
  have long := ((List.nodup_finRange n).subperm covered).length_le
  rw [List.length_finRange] at long
  omega

theorem distinct_length {converted : List (Fin n)} (distinct : converted.Nodup) : converted.length ≤ n := by
  have bound := (distinct.subperm fun i _ => List.mem_finRange i).length_le
  rwa [List.length_finRange] at bound

namespace Startup
variable {pool after : Pool Unit n} {choice : Choice n} {converted : List (Fin n)}

theorem quiet_installs : Phase.answered (.converting converted) pool.installs = .converting converted := by
  cases installs : pool.installs with
  | none => rfl
  | some event =>
    simp only [Pool.installs,Option.bind_eq_some_iff,Option.map_eq_some_iff] at installs
    obtain ⟨_,_,_,_,rfl⟩ := installs
    rfl

/-- The loop's caller moves on and the slots stay as they are. -/
theorem converting_turn {caller : Claimant n} {system : System n} (converting : Converting pool converted)
    (installed : Installed (pool.turn () caller system)) (threads : system.threads = pool.system.threads)
    (engaged : ∀ i, (pool.callers ()).engaged = some i → caller.engaged = some i)
    (converts : Converts converted system caller) : Converting (pool.turn () caller system) converted := by
  have here : (pool.turn () caller system).callers () = caller := Pool.turn_callers ..
  refine ⟨installed,converting.distinct,?_,?_,by rw [here]; exact converts⟩
  · intro i member
    exact (congrArg (fun threads => Regular (threads i)) threads).mpr (converting.regular i member)
  · intro i missing idle
    rw [here] at idle
    have free : (pool.callers ()).engaged ≠ some i := fun busy => idle (engaged i busy)
    exact (congrFun threads i).symm ▸ converting.inactive i missing free

theorem lock_step (sound : Pool.Sound pool) (converting : Converting pool converted)
    (now : pool.callers () = .idle) (short : converted.length < n)
    (stepped : Pool.step (.lock () .getInactivePhpThread) pool = some after) :
    Proper ⟨after,Phase.answered (.converting converted) (Pool.event (.lock () .getInactivePhpThread) pool)⟩ := by
  have next := Pool.sound_step stepped sound
  simp only [Pool.step] at stepped
  split at stepped
  next free =>
    cases stepped
    have scanned : pool.phpThreads = List.finRange n := if_pos converting.installed.installed
    have unscaled : pool.system.scaling.bind Controller.awaits = none := by rw [free.2]; rfl
    refine ⟨next,converting_turn converting ?_ rfl (by simp [now,Claimant.engaged]) ?_⟩
    · exact installed_turn converting.installed rfl (System.attended_goto converting.installed.attended unscaled rfl)
    · rw [scanned]
      exact exists_unconverted short
  · contradiction

theorem scan_step {left : List (Fin n)} (sound : Pool.Sound pool) (converting : Converting pool converted)
    (now : pool.callers () = .scanning left) (stepped : pool.proceed () choice = some after) :
    Proper ⟨after,Phase.answered (.converting converted) (Pool.event (.proceed () choice) pool)⟩ := by
  have next := Pool.sound_proceed sound stepped
  rw [Pool.event_proceed stepped,now]
  have sight := converting.converts
  rw [now] at sight
  obtain ⟨sought,member,missing⟩ := sight
  simp only [Pool.proceed,now] at stepped
  cases left with
  | nil => contradiction
  | cons i left =>
    simp only [Option.some.injEq] at stepped
    subst stepped
    have free : (pool.callers ()).engaged = none := by simp [now,Claimant.engaged]
    have installed {caller : Claimant n} : Installed (pool.turn () caller pool.system) := installed_goto converting.installed
    by_cases inactive : (pool.system.threads i).state.currentState = .inactive
    · rw [if_pos inactive] at next ⊢
      have unconverted : i ∉ converted := by
        intro before
        obtain ⟨stage,fits⟩ := System.lifecycle_fits sound.lifecycle i
        exact regular_active fits (converting.regular i before) inactive
      rw [Pool.goto_callers]
      exact ⟨next,converting_turn converting installed rfl (by simp [free]) unconverted⟩
    · rw [if_neg inactive] at next ⊢
      have other : sought ≠ i := by
        rintro rfl
        exact inactive (converting.inactive sought missing (by simp [free]))
      have later : sought ∈ left := (List.mem_cons.mp member).resolve_left other
      rw [Pool.goto_callers]
      exact ⟨next,converting_turn converting installed rfl (by simp [free]) ⟨sought,later,missing⟩⟩

theorem claimed_step {i : Fin n} {handler : Handler} (sound : Pool.Sound pool) (converting : Converting pool converted)
    (now : pool.callers () = .claimed i) (regular : handler.kind = .regularThread)
    (stepped : Pool.step (.assignHandler () handler) pool = some after) :
    Proper ⟨after,Phase.answered (.converting converted) (Pool.event (.assignHandler () handler) pool)⟩ := by
  have next := Pool.sound_step stepped sound
  have missing := converting.converts
  rw [now] at missing
  simp only [Pool.step,now,System.start,Option.map_some,Option.some.injEq] at stepped
  subst stepped
  obtain ⟨held,inactive⟩ : Stands pool.system (.claimed i) := now ▸ sound.stands ()
  obtain ⟨stage,fits⟩ := System.lifecycle_fits sound.lifecycle i
  obtain ⟨parked,states,_,waits⟩ := inactive_parked fits inactive
  have installed : Installed (pool.turn () (.assigning i handler) (pool.system.goto (.requesting (.assign handler) i))) :=
    installed_started converting.installed held rfl
  refine ⟨next,converting_turn converting installed rfl ?_ ⟨missing,regular,?_⟩⟩
  · simp [now,Claimant.engaged]
  · intro controller holder
    cases holder
    exact Answers.parked (.inl inactive) waits

/-- The slot being converted moves towards its new handler; the others keep still. -/
theorem assign_step {i : Fin n} {handler : Handler} (sound : Pool.Sound pool) (converting : Converting pool converted)
    (now : pool.callers () = .assigning i handler) (stepped : pool.proceed () choice = some after) :
    Proper ⟨after,Phase.answered (.converting converted) (Pool.event (.proceed () choice) pool)⟩ := by
  have next := Pool.sound_proceed sound stepped
  have heard : Pool.event (.proceed () choice) pool = pool.installs := by
    rw [Pool.event_proceed stepped,now]
    cases after.callers () <;> rfl
  rw [heard,quiet_installs]
  have converts := converting.converts
  rw [now] at converts
  obtain ⟨missing,regular,swaps⟩ := converts
  obtain ⟨controller,holds,assigns,inactive⟩ : Stands pool.system (.assigning i handler) := now ▸ sound.stands ()
  simp only [Pool.proceed,now] at stepped
  obtain ⟨_,system,holder,took,rfl⟩ := Pool.drive_some stepped
  cases holds.symm.trans holder
  have stays := System.assigns_local sound.lifecycle converting.installed.attended holder assigns inactive took
  have swapped (later : Controller n) (went : system.scaling = some later) : System.Swaps (system.threads i) later :=
    System.assigns_swaps sound.lifecycle holder assigns regular (swaps controller holder) inactive took went
  have goes : Converts converted system (if system.scaling = some .held then .assigned i controller.succeeds
      else .assigning i handler) := by
    split
    next returned =>
      have done := swapped .held returned
      exact ⟨missing,by simpa [System.Swaps] using done⟩
    next => exact ⟨missing,regular,swapped⟩
  refine ⟨next,installed_turn converting.installed stays.main stays.attended,converting.distinct,?_,?_,?_⟩
  · intro j member
    have other : j ≠ i := fun same => missing (same ▸ member)
    exact (congrArg Regular (stays.others j other)).mpr (converting.regular j member)
  · intro j outside idle
    have other : j ≠ i := by
      rintro rfl
      apply idle
      rw [Pool.turn_callers]
      split <;> rfl
    have free : (pool.callers ()).engaged ≠ some j := by simp [now,Claimant.engaged,Ne.symm other]
    exact (congrArg (·.state.currentState = .inactive) (stays.others j other)).mpr (converting.inactive j outside free)
  · rw [Pool.turn_callers]
    exact goes

theorem assigned_step {i : Fin n} {assigned : Bool} (sound : Pool.Sound pool) (converting : Converting pool converted)
    (now : pool.callers () = .assigned i assigned) (stepped : pool.proceed () choice = some after) :
    Proper ⟨after,Phase.answered (.converting converted) (Pool.event (.proceed () choice) pool)⟩ := by
  have next := Pool.sound_proceed sound stepped
  rw [Pool.event_proceed stepped,now]
  have converts := converting.converts
  rw [now] at converts
  obtain ⟨missing,regular⟩ := converts
  obtain ⟨held,rfl⟩ : Stands pool.system (.assigned i assigned) := now ▸ sound.stands ()
  simp only [Pool.proceed,now,Option.some.injEq] at stepped
  subst stepped
  refine ⟨next,installed_release converting.installed held,?_,?_,?_,?_⟩
  · exact List.nodup_append.mpr ⟨converting.distinct,List.nodup_singleton i,fun j member k last => by
      rintro rfl
      exact missing (List.mem_singleton.mp last ▸ member)⟩
  · intro j member
    rcases List.mem_append.mp member with before | last
    · exact converting.regular j before
    · exact List.mem_singleton.mp last ▸ regular
  · intro j outside _
    simp only [List.mem_append,List.mem_singleton,not_or] at outside
    have free : (pool.callers ()).engaged ≠ some j := by simp [now,Claimant.engaged,Ne.symm outside.2]
    exact converting.inactive j outside.1 free
  · rw [Pool.release,Pool.turn_callers]
    trivial

theorem starting_step (sound : Pool.Sound pool) (stepped : Pool.step (.lock () (.initPhpThreads n)) pool = some after) :
    Proper ⟨after,.initializing⟩ := by
  have next := Pool.sound_step stepped sound
  simp only [Pool.step] at stepped
  split at stepped
  · cases stepped
    refine ⟨next,?_⟩
    simp only [Pool.enter]
    split
    · refine .creating (by simp [Pool.turn]) ⟨rfl,rfl,?_⟩
      exact System.attended_goto System.attended_init rfl rfl
    · exact .failing ⟨[],.inl (Pool.turn_callers ..)⟩
  · contradiction

/-- A pthread answers for its own slot only. -/
theorem pthread_step {phase : Phase n} {i : Fin n} {move : Move} {thread : PhpThread} (proper : Proper ⟨pool,phase⟩)
    (took : (pool.system.threads i).step move = some thread) :
    Proper ⟨{ pool with system := { pool.system with threads := Function.update pool.system.threads i thread } },phase⟩ := by
  obtain ⟨sound,proper⟩ := proper
  have step : Pool.step (.pthread i move) pool = some { pool with
      system := { pool.system with threads := Function.update pool.system.threads i thread } } := by
    simp [Pool.step,System.step,took]
  have next := Pool.sound_step step sound
  obtain ⟨stage,fits⟩ := System.lifecycle_fits sound.lifecycle i
  have kept {P : Fin n → PhpThread → Prop} (here : P i (pool.system.threads i) → P i thread) (j : Fin n)
      (holds : P j (pool.system.threads j)) : P j (Function.update pool.system.threads i thread j) := by
    by_cases same : j = i
    · subst same
      simpa using here holds
    · rwa [Function.update_of_ne same]
  have inactive := kept (P := fun _ thread => thread.state.currentState = .inactive) fun before => inactive_kept fits before took
  have regular := kept (P := fun _ => Regular) fun before handler same => before handler
    ((PhpThread.step_advance took).handler ▸ same)
  have attends := kept (P := fun j => Attends (blockedOn pool.system.scaling j)) fun before => attends_step before took
  have installed (before : Installed pool) : Installed { pool with
      system := { pool.system with threads := Function.update pool.system.threads i thread } } :=
    ⟨before.installed,before.ready,fun j => attends j (before.attended j)⟩
  refine ⟨next,?_⟩
  cases phase with
  | starting | failed => trivial
  | panicked => exact proper
  | initializing =>
    cases proper with
    | failing failing => exact .failing failing
    | creating now before => exact .creating now (installed before)
    | locked order now booted before =>
      exact .locked order now (fun j member => inactive j (booted j member)) (installed before)
    | booting order now booted holder boots before =>
      exact .booting order now (fun j member => inactive j (booted j member)) holder boots (installed before)
  | converting converted =>
    obtain ⟨before,distinct,done,waiting,converts⟩ := proper
    refine ⟨installed before,distinct,fun j member => regular j (done j member),
      fun j outside free => inactive j (waiting j outside free),?_⟩
    change Converts converted _ (pool.callers ())
    cases now : pool.callers () <;> rw [now] at converts <;> try exact converts
    case assigned j _ => exact ⟨converts.1,regular j converts.2⟩
    case assigning j handler =>
      obtain ⟨missing,kind,swaps⟩ := converts
      refine ⟨missing,kind,fun controller holder => ?_⟩
      exact kept (P := fun _ thread => System.Swaps thread controller)
        (fun here => System.swaps_step fits (before.attended i) here took) j (swaps controller holder)

theorem converting_step {action : Pool.Action Unit n} (sound : Pool.Sound pool) (converting : Converting pool converted)
    (next : Startup.next ⟨pool,.converting converted⟩ choice = some action) (stepped : Pool.step action pool = some after) :
    Proper ⟨after,Phase.answered (.converting converted) (Pool.event action pool)⟩ := by
  have converts := converting.converts
  simp only [Startup.next] at next
  cases now : pool.callers () <;> rw [now] at converts <;> simp only [now] at next
  case idle =>
    split at next
    next short =>
      cases next
      exact lock_step sound converting now short stepped
    · contradiction
  case scanning left =>
    cases next
    exact scan_step sound converting now stepped
  case claimed i =>
    cases next
    exact claimed_step sound converting now rfl stepped
  case assigning i handler =>
    cases next
    exact assign_step sound converting now stepped
  case assigned i assigned =>
    cases next
    exact assigned_step sound converting now stepped
  all_goals contradiction

theorem main_stays {phase : Phase n} (proper : Proper ⟨pool,phase⟩) (stepped : Pool.step .mainReserved pool = some after) :
    Proper ⟨after,phase⟩ := by
  have next := Pool.sound_step stepped proper.1
  obtain ⟨system,took,rfl⟩ := Option.map_eq_some_iff.mp stepped
  simp only [System.step] at took
  split at took
  next done =>
    cases took
    have busy (installed : Installed pool) : False := by
      cases installed.ready.symm.trans done
    refine ⟨next,?_⟩
    cases phase with
    | starting | failed => trivial
    | panicked => exact proper.2
    | initializing =>
      cases proper.2 with
      | failing failing => exact .failing failing
      | creating _ installed | locked _ _ _ installed | booting _ _ _ _ _ installed => exact (busy installed).elim
    | converting converted => exact (busy proper.2.installed).elim
  · contradiction

theorem proper_step (action : Action n) (startup after : Startup n) (stepped : step action startup = some after)
    (proper : Proper startup) : Proper after := by
  obtain ⟨pool,phase⟩ := startup
  cases action with
  | server choice =>
    simp only [step,Option.bind_eq_bind,Option.pure_def,Option.bind_eq_some_iff,Option.some.injEq] at stepped
    obtain ⟨action,next,pool,took,rfl⟩ := stepped
    obtain ⟨sound,proper⟩ := proper
    cases phase with
    | starting =>
      cases next
      exact starting_step sound took
    | initializing =>
      cases next
      exact initializing_step sound proper took
    | converting converted => exact converting_step sound proper next took
    | failed | panicked => contradiction
  | pthread i move =>
    obtain ⟨_,took,rfl⟩ := Option.map_eq_some_iff.mp stepped
    obtain ⟨system,moved,rfl⟩ := Option.map_eq_some_iff.mp took
    obtain ⟨thread,advanced,rfl⟩ := Option.map_eq_some_iff.mp moved
    exact pthread_step proper advanced
  | mainReserved =>
    obtain ⟨_,took,rfl⟩ := Option.map_eq_some_iff.mp stepped
    exact main_stays proper took

end Startup
end Frankenrust.Thread
