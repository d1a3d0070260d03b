import Frankenrust.Library.Tenure
import Frankenrust.Thread.Claims
import Frankenrust.Thread.Wakeup

/-! Claims exclude each other, and an assignment on a claim is never refused: only the
holder of `SCALING` changes what it has found, and an inactive slot stays inactive until then. -/
namespace Frankenrust.Thread
variable {n : Nat}

/-- In an inactive slot the inactive handler is in place, and its pthread waits in it. -/
theorem inactive_parked {stage : Stage} {thread : PhpThread} (fits : Fits stage thread)
    (inactive : thread.state.currentState = .inactive) :
    ∃ handler states, Runs thread.handler handler .inactiveThread ∧
      (thread.pc = .settling handler states ∨ thread.pc = .waiting handler states) := by
  obtain ⟨⟨state,subscribers⟩,installed,drain,pc,unpublished⟩ := thread
  cases inactive
  have never {own : State} (other : own ≠ .inactive) : ¬Settled stage.asked own .inactive := by
    rintro (same | granted)
    · exact other same.symm
    · rcases stage.asks with none | asked | asked
      · simp [none] at granted
      · cases asked.symm.trans granted
      · cases asked.symm.trans granted
  have pcFits := fits.pc
  cases pc with
  | absent =>
    simp only [PcFits] at pcFits
    split at pcFits
    · exact (never (by decide) pcFits).elim
    · simp at pcFits
  | fetching callback =>
    cases callback with
    | before =>
      obtain ⟨handler,⟨_,booting⟩ | ⟨_,settled⟩⟩ := pcFits
      · cases booting
      · exact (never (by decide) settled).elim
    | after healthy =>
      obtain ⟨handler,_,settled⟩ := pcFits
      exact (never (by decide) settled).elim
  | entering callback handler =>
    cases callback with
    | before =>
      rcases pcFits with ⟨_,booting | complete⟩ | ⟨_,complete | settled⟩
      · cases booting
      · cases complete
      · cases complete
      · exact (never (by decide) settled).elim
    | after healthy => exact (never (by decide) pcFits.2).elim
  | looping handler =>
    have asked (granted : stage.asked = some .inactive) : False := never (by decide : State.ready ≠ .inactive) (.inr granted)
    rcases pcFits with ⟨_,booting | complete | granted⟩ | ⟨_,complete | settled⟩
    · cases booting
    · cases complete
    · exact (asked granted).elim
    · cases complete
    · exact (never (by decide) settled).elim
  | armed handler arm =>
    obtain ⟨same,armed⟩ := pcFits
    cases arm with
    | transition => cases armed.2
    | republish => cases armed.2.2
    | settle =>
      rcases armed.2.2.2 with booting | complete
      · cases booting
      · cases complete
    | await => exact armed.elim
    | waitForRequest => exact (never (by decide) armed.2).elim
    | stop => cases armed.2
  | settling handler states => exact ⟨handler,states,pcFits.1,.inl rfl⟩
  | waiting handler states => exact ⟨handler,states,pcFits.1,.inr rfl⟩
  | progressed =>
    rcases pcFits.2 with ⟨_,progress⟩ | complete
    · cases progress
    · cases complete
  | handover =>
    rcases pcFits.2 with ⟨_,progress,_⟩ | complete
    · cases progress
    · cases complete
  | receiving => cases pcFits.1
  | selecting handler channel | executing handler => exact (never (by decide) pcFits.2).elim
  | restarting =>
    obtain ⟨handler,_,settled⟩ := pcFits
    exact (never (by decide) settled).elim
  | returning => exact (never (by decide) pcFits).elim
  | shutting read => exact (never (by decide) pcFits.1).elim

theorem inactive_kept {stage : Stage} {thread next : PhpThread} {move : Move} (fits : Fits stage thread)
    (inactive : thread.state.currentState = .inactive) (stepped : thread.step move = some next) :
    next.state.currentState = .inactive := by
  rcases PhpThread.step_published stage.asks fits.pc stepped with same | published
  · rw [same,inactive]
  · rw [inactive] at published
    contradiction

namespace Controller

/-- The points of `boot` on a slot. -/
def boots (i : Fin n) : Controller n → Prop
  | .bootSwap j | .bootSwapRequested j | .bootReplace j | .bootClose j | .bootReopen j _ | .bootLaunch j
  | .bootFailed j | .bootWait j | .bootBlocked j => j = i
  | _ => False

/-- Those of `set_handler_locked` that an inactive slot leads through. -/
def assigns (i : Fin n) (handler : Handler) : Controller n → Prop
  | .requesting goal j | .closing goal j => goal = .assign handler ∧ j = i
  | .progressWait j installed _ | .progressBlocked j installed _ | .replacing j installed _ => j = i ∧ installed = handler
  | .reopening j _ | .completing j => j = i
  | _ => False

def replaced : Controller n → Bool
  | .reopening _ _ | .completing _ => true
  | _ => false

end Controller

namespace System
variable {system next : System n} {controller : Controller n} {choice : Choice n} {i : Fin n}

theorem put_scaling {thread : PhpThread} : (system.put i thread controller).scaling = some controller := rfl

theorem put_self {thread : PhpThread} : (system.put i thread controller).threads i = thread :=
  Function.update_self ..

theorem swap_scaling {compareTo swapTo : State} {yes no : Controller n} :
    (system.swap i compareTo swapTo yes no).scaling = some yes ∨ (system.swap i compareTo swapTo yes no).scaling = some no := by
  cases swapped : ((system.threads i).state.compareAndSwap compareTo swapTo).1 <;> simp [swap,put,swapped]

/-- `boot` stays within its points until it returns, and a success leaves the slot inactive. -/
theorem boots_step (awaited : controller.Awaited system.threads) (boots : controller.boots i)
    (stepped : system.controllerStep controller choice = some next) :
    (∃ after, next.scaling = some after ∧ after.boots i) ∨
      next.scaling = some .held ∧
        (controller.succeeds = true → (next.threads i).state.currentState = .inactive) := by
  cases controller <;> cases choice <;> try contradiction
  case bootSwap.proceed j =>
    cases stepped
    cases boots
    rcases swap_scaling with yes | no
    · exact .inl ⟨_,yes,rfl⟩
    · exact .inl ⟨_,no,rfl⟩
  case bootSwapRequested.proceed j =>
    cases stepped
    cases boots
    rcases swap_scaling with yes | no
    · exact .inl ⟨_,yes,rfl⟩
    · exact .inr ⟨no,nofun⟩
  case bootClose.proceed j =>
    cases stepped
    cases boots
    refine .inl ⟨_,rfl,?_⟩
    split <;> rfl
  case bootWait.proceed j =>
    cases stepped
    cases boots
    rcases waitFor_put system i [.inactive] .held (.bootBlocked i) with ⟨inactive,same⟩ | ⟨_,same⟩
    · refine .inr (same ▸ ⟨rfl,fun _ => ?_⟩)
      rw [put_self]
      exact (subscribe_state _ _ _).trans (List.mem_singleton.mp inactive)
    · exact .inl (same ▸ ⟨_,rfl,rfl⟩)
  case bootBlocked.proceed j =>
    cases boots
    obtain ⟨gone,rfl⟩ := woken_goto stepped
    refine .inr ⟨rfl,fun _ => ?_⟩
    rcases awaited i .inactive rfl with entry | inactive
    · exact absurd ⟨_,entry,rfl⟩ gone
    · exact inactive
  case bootFailed.proceed j =>
    cases stepped
    exact .inr ⟨rfl,nofun⟩
  case bootLaunch.launchFails j | bootReplace.proceed j | bootReopen.proceed j closed | bootLaunch.proceed j =>
    cases stepped
    exact .inl ⟨_,rfl,boots⟩

/-- `set_handler_locked` on an inactive slot stays within its points until it succeeds. -/
theorem assigns_step {handler : Handler} (lifecycle : Lifecycle system) (holder : system.scaling = some controller)
    (assigns : controller.assigns i handler)
    (inactive : ∀ goal j, controller = .requesting goal j → (system.threads i).state.currentState = .inactive)
    (stepped : system.controllerStep controller choice = some next) :
    (∃ after, next.scaling = some after ∧ after.assigns i handler ∧ (∀ goal j, after ≠ .requesting goal j) ∧
      (after.replaced = true → controller.replaced = true ∨ controller.installs system.inactive = some (i,handler))) ∨
      next.scaling = some .held ∧ controller.succeeds = true ∧ controller.replaced = true := by
  cases controller <;> cases choice <;> try contradiction
  case requesting.proceed goal j =>
    cases stepped
    obtain ⟨rfl,rfl⟩ := assigns
    have free := inactive _ _ rfl
    refine .inl ⟨.closing (.assign handler) j,?_,⟨rfl,rfl⟩,by simp,by rintro ⟨⟩⟩
    simp [request,ThreadState.requestSafeStateChange,free,put]
  case closing.proceed goal j =>
    cases stepped
    obtain ⟨rfl,rfl⟩ := assigns
    obtain ⟨sender,held⟩ := Option.isSome_iff_exists.mp (closing_open lifecycle holder)
    have closed : (system.close j (afterClose (.assign handler) j)).scaling =
        some (.progressWait j handler ⟨(system.threads j).drain.current.generation⟩) := by
      simp [close,DrainChannel.close_open held,afterClose,put]
    exact .inl ⟨_,closed,⟨rfl,rfl⟩,by simp,by rintro ⟨⟩⟩
  case progressWait.proceed j installed closed =>
    cases stepped
    obtain ⟨rfl,rfl⟩ := assigns
    rcases waitFor_put system j [.transitionInProgress] (.replacing j installed closed)
      (.progressBlocked j installed closed) with ⟨_,same⟩ | ⟨_,same⟩
    · exact .inl (same ▸ ⟨_,rfl,⟨rfl,rfl⟩,by simp,by rintro ⟨⟩⟩)
    · exact .inl (same ▸ ⟨_,rfl,⟨rfl,rfl⟩,by simp,by rintro ⟨⟩⟩)
  case progressBlocked.proceed j installed closed =>
    obtain ⟨_,rfl⟩ := woken_goto stepped
    exact .inl ⟨_,rfl,assigns,by simp,by rintro ⟨⟩⟩
  case replacing.proceed j installed closed =>
    cases stepped
    obtain ⟨rfl,rfl⟩ := assigns
    exact .inl ⟨_,rfl,rfl,by simp,fun _ => .inr rfl⟩
  case reopening.proceed j closed =>
    cases stepped
    exact .inl ⟨_,rfl,assigns,by simp,fun _ => .inl rfl⟩
  case completing.proceed j =>
    cases stepped
    exact .inr ⟨rfl,rfl,rfl⟩

theorem controller_holds (under : controller ≠ .held) (stepped : system.controllerStep controller choice = some next) :
    ∃ after, next.scaling = some after := by
  cases controller <;> cases choice <;> try contradiction
  case bootSwap.proceed j | bootSwapRequested.proceed j =>
    cases stepped
    exact swap_scaling.elim (fun yes => ⟨_,yes⟩) fun no => ⟨_,no⟩
  case bootBlocked.proceed | requestBlocked.proceed | progressBlocked.proceed | graceBlocked.proceed
      | doneBlocked.proceed | sweepGraceBlocked.proceed | sweepDoneBlocked.proceed =>
    obtain ⟨_,rfl⟩ := woken_goto stepped
    exact ⟨_,rfl⟩
  case refused.proceed goal j =>
    cases goal with
    | assign =>
      cases stepped
      exact ⟨_,rfl⟩
    | retire | sweep =>
      cases stepped
      exact swap_scaling.elim (fun yes => ⟨_,yes⟩) fun no => ⟨_,no⟩
  case sweepNext.proceed left _ | sweepKill.proceed left _ | sweepFinish.proceed left =>
    cases left <;> cases stepped <;> exact ⟨_,rfl⟩
  case sweepGrace.proceed left _ | sweepDone.proceed _ left =>
    cases left with
    | nil =>
      cases stepped
      exact ⟨_,rfl⟩
    | cons ticket left =>
      simp only [controllerStep] at stepped
      split at stepped <;> cases stepped <;> exact ⟨_,rfl⟩
  case sweepMainWait.proceed =>
    simp only [controllerStep] at stepped
    split at stepped
    · cases stepped
      exact ⟨_,rfl⟩
    · contradiction
  all_goals
    cases stepped
    exact ⟨_,rfl⟩

end System

/-- The commands that the public functions consist of. -/
def Command.within : Command n → Prop
  | .boot _ | .setHandler _ _ | .shutdown _ | .drain => True
  | .claim _ | .release => False

theorem start_within {system next : System n} {command : Command n} (within : command.within)
    (started : system.start command = some next) : ∃ controller, next.scaling = some controller ∧ controller ≠ .held := by
  cases command with
  | claim | release => contradiction
  | boot j | drain =>
    simp only [System.start] at started
    split at started
    · cases started
      exact ⟨_,rfl,by simp⟩
    · contradiction
  | setHandler j handler | shutdown j =>
    cases started
    exact ⟨_,rfl,by simp⟩

/-- What is so while a caller stands where it does. -/
def Stands (system : System n) : Claimant n → Prop
  | .idle => True
  | .scanning _ | .reserving _ | .creating _ => system.scaling = some .held
  | .booting i => ∃ controller, system.scaling = some controller ∧ controller.boots i
  | .claimed i => system.scaling = some .held ∧ (system.threads i).state.currentState = .inactive
  | .assigning i handler => ∃ controller, system.scaling = some controller ∧ controller.assigns i handler ∧
      ∀ goal j, controller = .requesting goal j → (system.threads i).state.currentState = .inactive
  | .assigned _ assigned => system.scaling = some .held ∧ assigned = true
  | .locked _ commands => system.scaling = some .held ∧ ∀ command ∈ commands, command.within
  | .commanding _ _ commands => (∃ controller, system.scaling = some controller ∧ controller ≠ .held) ∧
      ∀ command ∈ commands, command.within

theorem stands_holds {system : System n} {caller : Claimant n} (stands : Stands system caller) (active : caller ≠ .idle) :
    ∃ controller, system.scaling = some controller := by
  cases caller with
  | idle => contradiction
  | scanning | reserving | creating => exact ⟨_,stands⟩
  | claimed | assigned | locked => exact ⟨_,stands.1⟩
  | booting | assigning =>
    obtain ⟨controller,holder,_⟩ := stands
    exact ⟨controller,holder⟩
  | commanding =>
    obtain ⟨⟨controller,holder,_⟩,_⟩ := stands
    exact ⟨controller,holder⟩

namespace Pool
variable {ι : Type} {pool next : Pool ι n} {c d : ι} {i : Fin n}

/-- The lock has one holder, and it stands where the lock says. -/
structure Sound (pool : Pool ι n) : Prop where
  lifecycle : pool.system.Lifecycle
  alone : ∀ c d, pool.callers c ≠ .idle → pool.callers d ≠ .idle → c = d
  free : pool.system.scaling = none ∨ ∃ c, pool.callers c ≠ .idle
  stands : ∀ c, Stands pool.system (pool.callers c)

theorem sound_init : Sound (init : Pool ι n) :=
  ⟨System.lifecycle_init,fun _ _ active => absurd rfl active,.inl rfl,fun _ => trivial⟩

/-- Whoever is inside a function, or enters one while the lock is free, is alone in it. -/
theorem sound_alone (sound : Sound pool) (enters : pool.callers c ≠ .idle ∨ pool.system.scaling = none) (d : ι)
    (other : d ≠ c) : pool.callers d = .idle := by
  by_contra active
  rcases enters with inside | free
  · exact other (sound.alone d c active inside)
  · obtain ⟨controller,holder⟩ := stands_holds (sound.stands d) active
    simp [free] at holder

theorem sound_installed {installed : Bool} (sound : Sound pool) : Sound { pool with installed } :=
  ⟨sound.lifecycle,sound.alone,sound.free,sound.stands⟩

theorem driven_lifecycle {controller : Controller n} {choice : Choice n} {system : System n} (sound : Sound pool)
    (holder : pool.system.scaling = some controller)
    (stepped : pool.system.controllerStep controller choice = some system) : system.Lifecycle := by
  have took : System.step (.controller choice) pool.system = some system := by simp [System.step,holder,stepped]
  exact System.lifecycle_step took sound.lifecycle

theorem sound_cleared {command : Command n} (sound : Sound pool) : Sound (cleared command pool) := by
  unfold cleared
  split
  · exact sound_installed sound
  · exact sound

variable [DecidableEq ι]

theorem sound_turn {caller : Claimant n} {system : System n} (sound : Sound pool)
    (enters : pool.callers c ≠ .idle ∨ pool.system.scaling = none) (lifecycle : system.Lifecycle)
    (stands : Stands system caller) (free : system.scaling = none ∨ caller ≠ .idle) :
    Sound (pool.turn c caller system) := by
  have others := sound_alone sound enters
  have elsewhere : ∀ d, d ≠ c → (pool.turn c caller system).callers d = .idle := by
    intro d other
    exact (Function.update_of_ne other ..).trans (others d other)
  refine ⟨lifecycle,?_,free.imp_right fun active => ⟨c,by simpa [turn] using active⟩,?_⟩
  · intro d e active also
    have first : d = c := by_contra fun other => active (elsewhere d other)
    have second : e = c := by_contra fun other => also (elsewhere e other)
    exact first.trans second.symm
  · intro d
    by_cases same : d = c
    · subst same
      simpa [turn] using stands
    · rw [elsewhere d same]
      trivial

/-- A step between two commands leaves the system alone. -/
theorem sound_goto {caller : Claimant n} (sound : Sound pool) (inside : pool.callers c ≠ .idle)
    (stands : Stands pool.system caller) (active : caller ≠ .idle) : Sound (pool.goto c caller) :=
  sound_turn sound (.inl inside) sound.lifecycle stands (.inr active)

theorem held_lifecycle {system after : System n} {command : Command n} (lifecycle : system.Lifecycle)
    (held : system.scaling = some .held) (started : system.start command = some after) : after.Lifecycle := by
  have stepped : System.step (.controller (.start command)) system = some after := by
    simp only [System.step,held,Option.bind_some]
    exact started
  exact System.lifecycle_step stepped lifecycle

theorem sound_release (sound : Sound pool) (inside : pool.callers c ≠ .idle)
    (held : pool.system.scaling = some .held) : Sound (pool.release c) := by
  have released : pool.system.start .release = some { pool.system with scaling := none } := rfl
  exact sound_turn sound (.inl inside) (held_lifecycle sound.lifecycle held released) trivial (.inl rfl)

theorem drive_some {choice : Choice n} {during : Claimant n} {returned : Bool → Claimant n}
    (drove : pool.drive c choice during returned = some next) :
    ∃ controller system, pool.system.scaling = some controller ∧
      pool.system.controllerStep controller choice = some system ∧
      next = pool.turn c (if system.scaling = some .held then returned controller.succeeds else during) system := by
  simp only [drive,Option.bind_eq_bind,Option.pure_def,Option.bind_eq_some_iff,Option.some.injEq] at drove
  obtain ⟨controller,holder,system,stepped,same⟩ := drove
  exact ⟨controller,system,holder,stepped,same.symm⟩

theorem sound_boot {choice : Choice n} (sound : Sound pool) (booting : pool.callers c = .booting i)
    (drove : pool.drive c choice (.booting i) (fun booted => if booted then .claimed i else .reserving []) = some next) :
    Sound next := by
  have inside : pool.callers c ≠ .idle := by simp [booting]
  obtain ⟨controller,holds,boots⟩ : Stands pool.system (.booting i) := booting ▸ sound.stands c
  obtain ⟨_,system,holder,stepped,rfl⟩ := drive_some drove
  cases holds.symm.trans holder
  have awaited : controller.Awaited pool.system.threads := by
    have lifecycle := sound.lifecycle
    simp only [System.Lifecycle,holder] at lifecycle
    exact lifecycle.2
  refine sound_turn sound (.inl inside) (driven_lifecycle sound holder stepped) ?_ (.inr ?_)
  · rcases System.boots_step awaited boots stepped with ⟨after,went,still⟩ | ⟨returned,inactive⟩
    · have under : system.scaling ≠ some .held := by
        rintro same
        cases went.symm.trans same
        exact still
      rw [if_neg under]
      exact ⟨after,went,still⟩
    · rw [if_pos returned]
      cases succeeded : controller.succeeds with
      | true => exact ⟨returned,inactive succeeded⟩
      | false => exact returned
  · split
    · split <;> simp
    · simp

theorem sound_assign {choice : Choice n} {handler : Handler} (sound : Sound pool)
    (assigning : pool.callers c = .assigning i handler)
    (drove : pool.drive c choice (.assigning i handler) (.assigned i) = some next) : Sound next := by
  have inside : pool.callers c ≠ .idle := by simp [assigning]
  obtain ⟨controller,holds,assigns,inactive⟩ : Stands pool.system (.assigning i handler) := assigning ▸ sound.stands c
  obtain ⟨_,system,holder,stepped,rfl⟩ := drive_some drove
  cases holds.symm.trans holder
  refine sound_turn sound (.inl inside) (driven_lifecycle sound holder stepped) ?_ (.inr (by split <;> nofun))
  rcases System.assigns_step sound.lifecycle holder assigns inactive stepped with
    ⟨after,went,still,passed,_⟩ | ⟨returned,succeeded,_⟩
  · have under : system.scaling ≠ some .held := by
      rintro same
      cases went.symm.trans same
      exact still
    rw [if_neg under]
    exact ⟨after,went,still,fun goal j requesting => absurd requesting (passed goal j)⟩
  · rw [if_pos returned]
    exact ⟨returned,succeeded⟩

theorem resume_stands {answer : Option Bool} {command : Command n} {commands : List (Command n)} {system : System n}
    (within : ∀ command ∈ commands, command.within) (held : system.scaling = some .held) (succeeded : Bool) :
    Stands system (resume answer commands command succeeded) ∧ resume answer commands command succeeded ≠ .idle := by
  cases command with
  | boot j =>
    cases succeeded with
    | true => exact ⟨⟨held,within⟩,nofun⟩
    | false => exact ⟨⟨held,by simp [Command.within]⟩,nofun⟩
  | claim | setHandler | shutdown | drain | release => exact ⟨⟨held,within⟩,nofun⟩

theorem sound_command {choice : Choice n} {answer : Option Bool} {command : Command n} {commands : List (Command n)}
    (sound : Sound pool) (commanding : pool.callers c = .commanding answer command commands)
    (drove : pool.drive c choice (.commanding answer command commands) (resume answer commands command) = some next) :
    Sound next := by
  have inside : pool.callers c ≠ .idle := by simp [commanding]
  obtain ⟨⟨controller,holds,under⟩,within⟩ : Stands pool.system (.commanding answer command commands) :=
    commanding ▸ sound.stands c
  obtain ⟨_,system,holder,stepped,rfl⟩ := drive_some drove
  cases holds.symm.trans holder
  obtain ⟨after,went⟩ := System.controller_holds under stepped
  have lifecycle := driven_lifecycle sound holder stepped
  by_cases returned : system.scaling = some .held
  · obtain ⟨stands,active⟩ := resume_stands within returned controller.succeeds
    rw [if_pos returned]
    exact sound_turn sound (.inl inside) lifecycle stands (.inr active)
  · rw [if_neg returned]
    exact sound_turn sound (.inl inside) lifecycle
      ⟨⟨after,went,fun same => returned (went.trans (congrArg some same))⟩,within⟩ (.inr nofun)

theorem sound_proceed {choice : Choice n} (sound : Sound pool) (stepped : pool.proceed c choice = some next) :
    Sound next := by
  have stands := sound.stands c
  cases now : pool.callers c <;> simp only [proceed,now,reduceCtorEq] at stepped
  all_goals
    rw [now] at stands
    have inside : pool.callers c ≠ .idle := by simp [now]
  case scanning left =>
    cases left with
    | nil =>
      cases stepped
      exact sound_goto sound inside stands (by simp)
    | cons i left =>
      cases stepped
      split
      next inactive => exact sound_goto sound inside ⟨stands,inactive⟩ (by simp)
      next => exact sound_goto sound inside stands (by simp)
  case reserving left =>
    cases left with
    | nil =>
      cases stepped
      exact sound_release sound inside stands
    | cons i left =>
      simp only [Option.bind_eq_bind,Option.pure_def,Option.bind_eq_some_iff,Option.some.injEq] at stepped
      obtain ⟨system,started,rfl⟩ := stepped
      have lifecycle := held_lifecycle sound.lifecycle stands started
      have found : system.scaling = some (.bootSwap i) ∨ system.scaling = some .held := by
        simp only [System.start] at started
        split at started
        · cases started
          exact System.swap_scaling
        · contradiction
      rcases found with reserved | missed
      · rw [if_pos reserved]
        exact sound_turn sound (.inl inside) lifecycle ⟨_,reserved,rfl⟩ (.inr (by simp))
      · rw [if_neg (by simp [missed])]
        exact sound_turn sound (.inl inside) lifecycle missed (.inr (by simp))
  case booting i => exact sound_boot sound now stepped
  case assigning i handler => exact sound_assign sound now stepped
  case assigned i assigned =>
    cases stepped
    exact sound_release sound inside stands.1
  case creating numThreads =>
    split at stepped
    · cases stepped
      exact sound_installed (sound_goto sound inside ⟨stands,by simp⟩ (by simp))
    · cases stepped
      refine sound_goto sound inside ⟨stands,?_⟩ (by simp)
      intro command member
      obtain ⟨j,_,rfl⟩ := List.mem_map.mp member
      trivial
  case locked answer commands =>
    cases commands with
    | nil =>
      cases stepped
      exact sound_release sound inside stands.1
    | cons command commands =>
      simp only [Option.bind_eq_bind,Option.pure_def,Option.bind_eq_some_iff,Option.some.injEq] at stepped
      obtain ⟨system,started,rfl⟩ := stepped
      have lifecycle := held_lifecycle sound.lifecycle stands.1 started
      have under := start_within (stands.2 command (by simp)) started
      exact sound_turn sound (.inl inside) lifecycle
        ⟨under,fun other member => stands.2 other (List.mem_cons_of_mem _ member)⟩ (.inr (by simp))
  case commanding answer command commands =>
    obtain ⟨after,drove,rfl⟩ := Option.map_eq_some_iff.mp stepped
    exact sound_cleared (sound_command sound now drove)

theorem sound_enter {operation : Operation n} (sound : Sound pool) (free : pool.system.scaling = none) :
    Sound (pool.enter c operation) := by
  have acquired : (pool.system.goto .held).Lifecycle := by
    have took : System.step .acquire pool.system = some (pool.system.goto .held) := by simp [System.step,free]
    exact System.lifecycle_step took sound.lifecycle
  have entered {commands : List (Command n)} (answer : Option Bool) (within : ∀ command ∈ commands, command.within) :
      Sound (pool.turn c (.locked answer commands) (pool.system.goto .held)) :=
    sound_turn sound (.inr free) acquired ⟨rfl,within⟩ (.inr (by simp))
  cases operation with
  | initPhpThreads numThreads =>
    simp only [enter]
    split
    · have fresh : (System.init.goto (.held : Controller n)).Lifecycle :=
        System.lifecycle_goto System.lifecycle_init rfl
      exact sound_installed (sound_turn sound (.inr free) fresh rfl (.inr (by simp)))
    · exact entered _ (by simp)
  | getInactivePhpThread => exact sound_turn sound (.inr free) acquired rfl (.inr (by simp))
  | setHandler i handler => exact entered _ (by simp [Command.within])
  | shutdown i => exact entered _ (by simp [Command.within])
  | drainPhpThreads =>
    refine entered _ ?_
    split
    · simp [Command.within]
    · simp

/-- The slots move under a caller only where their pthreads do. -/
theorem stands_pthread {system : System n} {caller : Claimant n} {thread : PhpThread} {move : Move} (i : Fin n)
    (lifecycle : system.Lifecycle) (stands : Stands system caller) (took : (system.threads i).step move = some thread) :
    Stands { system with threads := Function.update system.threads i thread } caller := by
  have kept (j : Fin n) (inactive : (system.threads j).state.currentState = .inactive) :
      (Function.update system.threads i thread j).state.currentState = .inactive := by
    by_cases same : j = i
    · subst same
      obtain ⟨stage,fits⟩ := System.lifecycle_fits lifecycle j
      simpa using inactive_kept fits inactive took
    · rwa [Function.update_of_ne same]
  cases caller with
  | claimed j => exact ⟨stands.1,kept j stands.2⟩
  | assigning j handler =>
    obtain ⟨controller,holder,assigns,inactive⟩ := stands
    exact ⟨controller,holder,assigns,fun goal k requesting => kept j (inactive goal k requesting)⟩
  | _ => exact stands

theorem sound_step {action : Action ι n} (stepped : step action pool = some next) (sound : Sound pool) : Sound next := by
  cases action with
  | lock c operation =>
    simp only [step] at stepped
    split at stepped
    next free =>
      cases stepped
      exact sound_enter sound free.2
    · contradiction
  | proceed c choice => exact sound_proceed sound stepped
  | assignHandler c handler =>
    simp only [step] at stepped
    split at stepped
    next i now =>
      obtain ⟨system,started,rfl⟩ := Option.map_eq_some_iff.mp stepped
      obtain ⟨held,inactive⟩ : Stands pool.system (.claimed i) := now ▸ sound.stands c
      have lifecycle := held_lifecycle sound.lifecycle held started
      cases started
      exact sound_turn sound (.inl (by simp [now])) lifecycle ⟨_,rfl,⟨rfl,rfl⟩,fun _ _ _ => inactive⟩ (.inr nofun)
    · contradiction
  | drop c =>
    simp only [step] at stepped
    split at stepped
    next i now =>
      cases stepped
      have stands : Stands pool.system (.claimed i) := now ▸ sound.stands c
      exact sound_release sound (by simp [now]) stands.1
    · contradiction
  | pthread i move =>
    obtain ⟨system,took,rfl⟩ := Option.map_eq_some_iff.mp stepped
    have lifecycle := System.lifecycle_step took sound.lifecycle
    obtain ⟨thread,moved,rfl⟩ := Option.map_eq_some_iff.mp took
    exact ⟨lifecycle,sound.alone,sound.free,fun c => stands_pthread i sound.lifecycle (sound.stands c) moved⟩
  | mainReserved =>
    obtain ⟨system,took,rfl⟩ := Option.map_eq_some_iff.mp stepped
    have lifecycle := System.lifecycle_step took sound.lifecycle
    simp only [System.step] at took
    split at took
    · cases took
      refine ⟨lifecycle,sound.alone,sound.free,fun c => ?_⟩
      have stands := sound.stands c
      cases now : pool.callers c <;> rw [now] at stands <;> exact stands
    · contradiction

end Pool
end Frankenrust.Thread
