import Frankenrust.Thread.Exclusion

/-! The history of a slot's claims: it is handed out again only when the claim before was
dropped unused or the inactive handler has been put back. -/
namespace Frankenrust.Thread
variable {n : Nat}

def Regular (thread : PhpThread) : Prop :=
  ∀ handler, thread.handler = some handler → handler.kind = .regularThread

namespace System
variable {system next : System n} {controller : Controller n} {choice : Choice n} {i : Fin n}

theorem controller_installed {handler : Handler} (installs : controller.installs system.inactive = some (i,handler))
    (stepped : system.controllerStep controller choice = some next) : (next.threads i).handler = some handler := by
  cases controller <;> cases installs
  all_goals
    cases choice <;> cases stepped
    simp [install,put]

/-- A handler is replaced by an installation and by nothing else. -/
theorem controller_handler (stepped : system.controllerStep controller choice = some next)
    (elsewhere : ∀ handler, controller.installs system.inactive ≠ some (i,handler)) :
    (next.threads i).handler = (system.threads i).handler := by
  by_cases launched : controller.launches choice = some i
  · cases controller <;> cases choice <;> cases launched
    cases stepped
    simp [put]
  · exact (controller_frame stepped i elsewhere launched).handler

theorem regular_driven (stepped : system.controllerStep controller choice = some next)
    (kept : ∀ handler, controller.installs system.inactive = some (i,handler) → handler.kind ≠ .inactiveThread)
    (regular : Regular (system.threads i)) : Regular (next.threads i) := by
  by_cases installs : ∃ handler, controller.installs system.inactive = some (i,handler)
  · obtain ⟨handler,installs⟩ := installs
    intro found same
    cases same.symm.trans (controller_installed installs stepped)
    cases kind : handler.kind with
    | regularThread => rfl
    | inactiveThread => exact absurd kind (kept handler installs)
  · intro handler same
    exact regular handler (controller_handler stepped (not_exists.mp installs) ▸ same)

theorem regular_started {command : Command n} (started : system.start command = some next)
    (regular : Regular (system.threads i)) : Regular (next.threads i) := by
  intro handler same
  exact regular handler (((start_frame started).1 i).handler ▸ same)

end System

namespace Pool
variable {ι : Type} {pool next : Pool ι n} {c d : ι} {i j : Fin n} {events : List (Event ι n)}

def opens (i : Fin n) : Event ι n → Prop
  | .handedOut _ j => j = i
  | _ => False

/-- The claim is dropped unused, or the slot gets an inactive handler. -/
def closes : Event ι n → Event ι n → Prop
  | .handedOut c i, .dropped d j => d = c ∧ j = i
  | .handedOut _ i, .installed j handler => j = i ∧ handler.kind = .inactiveThread
  | _, _ => False

/-- The claim is out and its handler has not been installed yet. -/
def Pending (pool : Pool ι n) (c : ι) (i : Fin n) : Prop :=
  pool.callers c = .claimed i ∨ ∃ handler controller, pool.callers c = .assigning i handler ∧
    pool.system.scaling = some controller ∧ controller.replaced = false

structure Told (events : List (Event ι n)) (pool : Pool ι n) : Prop where
  sound : Sound pool
  orderly : ∀ i, Tenure.Orderly (opens i) closes events
  standing : ∀ c i, Tenure.Standing closes events (.handedOut c i) →
    Pending pool c i ∨ Regular (pool.system.threads i)

theorem told_init : Told [] (init : Pool ι n) :=
  ⟨sound_init,fun _ => Tenure.orderly_nil,fun _ _ standing => absurd standing Tenure.standing_nil⟩

theorem pending_claim (pending : Pending pool c i) : (pool.callers c).claim = some i := by
  rcases pending with claimed | ⟨handler,_,assigning,_⟩
  · simp [claimed,Claimant.claim]
  · simp [assigning,Claimant.claim]

theorem claim_active (owns : (pool.callers c).claim = some i) : pool.callers c ≠ .idle := by
  intro idle
  simp [idle,Claimant.claim] at owns

/-- Nothing is handed out, and what stood stands or has been answered. -/
theorem told_quiet {event : Option (Event ι n)} (told : Told events pool) (sound : Sound next)
    (silent : ∀ e ∈ event, ∀ i, ¬opens i e)
    (kept : ∀ c i, (∀ e ∈ event, ¬closes (.handedOut c i) e) → Pending pool c i ∨ Regular (pool.system.threads i) →
      Pending next c i ∨ Regular (next.system.threads i)) : Told (events ++ event.toList) next := by
  cases event with
  | none => exact ⟨sound,by simpa using told.orderly,fun c i standing => kept c i nofun
      (told.standing c i (by simpa using standing))⟩
  | some event =>
    refine ⟨sound,fun i => Tenure.orderly_snoc (told.orderly i) fun opened => absurd opened (silent event rfl i),?_⟩
    intro c i standing
    rcases Tenure.standing_snoc standing with rfl | ⟨before,unanswered⟩
    · exact absurd rfl (silent _ rfl i)
    · exact kept c i (fun e same => Option.some.inj same ▸ unanswered) (told.standing c i before)

/-- A caller that owns no claim is the only one inside, so no claim is pending. -/
theorem unclaimed_pending (sound : Sound pool) (inside : pool.callers c ≠ .idle) (none : (pool.callers c).claim = none)
    (d : ι) (i : Fin n) : ¬Pending pool d i := by
  intro pending
  have owns := pending_claim pending
  have same := sound.alone d c (claim_active owns) inside
  rw [same,none] at owns
  contradiction

theorem told_unclaimed {event : Option (Event ι n)} (told : Told events pool) (sound : Sound next)
    (inside : pool.callers c ≠ .idle) (none : (pool.callers c).claim = none) (silent : ∀ e ∈ event, ∀ i, ¬opens i e)
    (kept : ∀ d i, (∀ e ∈ event, ¬closes (.handedOut d i) e) → Regular (pool.system.threads i) →
      Regular (next.system.threads i)) : Told (events ++ event.toList) next :=
  told_quiet told sound silent fun d i unanswered before =>
    .inr (kept d i unanswered (before.resolve_left (unclaimed_pending told.sound inside none d i)))

/-- A slot is handed out while it is inactive, so no earlier claim on it still stands. -/
theorem told_opened (told : Told events pool) (sound : Sound next) (inside : pool.callers c ≠ .idle)
    (none : (pool.callers c).claim = none) (claimed : next.callers c = .claimed i)
    (handlers : ∀ j, (next.system.threads j).handler = (pool.system.threads j).handler) :
    Told (events ++ [.handedOut c i]) next := by
  have regular (j : Fin n) (before : Regular (pool.system.threads j)) : Regular (next.system.threads j) := by
    intro handler same
    exact before handler (handlers j ▸ same)
  have inactive : ¬Regular (next.system.threads i) := by
    intro regular
    obtain ⟨_,found⟩ : Stands next.system (.claimed i) := claimed ▸ sound.stands c
    obtain ⟨stage,fits⟩ := System.lifecycle_fits sound.lifecycle i
    obtain ⟨handler,_,⟨same,kind⟩,_⟩ := inactive_parked fits found
    cases kind.symm.trans (regular handler same)
  have unpending := unclaimed_pending told.sound inside none
  refine ⟨sound,fun j => Tenure.orderly_snoc (told.orderly j) ?_,?_⟩
  · intro opened first again standing
    cases opened
    cases first <;> try contradiction
    cases again
    exact inactive (regular _ ((told.standing _ _ standing).resolve_left (unpending _ _)))
  · intro d j standing
    rcases Tenure.standing_snoc standing with same | ⟨before,_⟩
    · cases same
      exact .inl (.inl claimed)
    · exact .inr (regular j ((told.standing d j before).resolve_left (unpending d j)))

theorem installs_eq {controller : Controller n} {handler : Handler} (holder : pool.system.scaling = some controller)
    (installs : controller.installs pool.system.inactive = some (i,handler)) :
    pool.installs = some (.installed i handler) := by
  simp [Pool.installs,holder,installs]

theorem installs_silent : ∀ e ∈ pool.installs, ∀ i, ¬opens i e := by
  intro e member i
  simp only [Pool.installs,Option.mem_def,Option.bind_eq_some_iff,Option.map_eq_some_iff] at member
  obtain ⟨_,_,_,_,rfl⟩ := member
  exact id

/-- A command installs what it says and leaves the other handlers alone. -/
theorem told_driven {controller : Controller n} {choice : Choice n} {system : System n} (told : Told events pool)
    (inside : pool.callers c ≠ .idle) (none : (pool.callers c).claim = none)
    (holder : pool.system.scaling = some controller)
    (stepped : pool.system.controllerStep controller choice = some system) (sound : Sound next)
    (went : next.system = system) : Told (events ++ pool.installs.toList) next := by
  subst went
  refine told_unclaimed told sound inside none installs_silent fun d j unanswered regular => ?_
  exact System.regular_driven stepped
    (fun handler installs kind => unanswered _ (installs_eq holder installs) ⟨rfl,kind⟩) regular

@[simp] theorem cleared_callers (command : Command n) (pool : Pool ι n) : (cleared command pool).callers = pool.callers := by
  unfold cleared
  split <;> rfl

@[simp] theorem cleared_system (command : Command n) (pool : Pool ι n) : (cleared command pool).system = pool.system := by
  unfold cleared
  split <;> rfl

theorem pending_pthread {system : System n} (scaling : system.scaling = pool.system.scaling)
    (pending : Pending pool c i) : Pending { pool with system } c i :=
  pending.imp_right fun ⟨handler,controller,assigning,holder,early⟩ =>
    ⟨handler,controller,assigning,scaling.trans holder,early⟩

theorem claims_apart (sound : Sound pool) (first : (pool.callers c).claim = some i)
    (second : (pool.callers d).claim = some i) : c = d :=
  sound.alone c d (claim_active first) (claim_active second)

variable [DecidableEq ι]

theorem event_proceed {choice : Choice n} (stepped : pool.proceed c choice = some next) :
    event (.proceed c choice) pool = pool.heard c (pool.callers c) (next.callers c) := by
  simp [event,stepped]

@[simp] theorem turn_callers (pool : Pool ι n) (c : ι) (caller : Claimant n) (system : System n) :
    (pool.turn c caller system).callers c = caller := Function.update_self ..

@[simp] theorem goto_callers (pool : Pool ι n) (c : ι) (caller : Claimant n) : (pool.goto c caller).callers c = caller :=
  Function.update_self ..

theorem told_boot {choice : Choice n} (told : Told events pool) (booting : pool.callers c = .booting i)
    (stepped : pool.proceed c choice = some next) : Told (events ++ (event (.proceed c choice) pool).toList) next := by
  have sound := sound_proceed told.sound stepped
  have inside : pool.callers c ≠ .idle := by simp [booting]
  have none : (pool.callers c).claim = none := by simp [booting,Claimant.claim]
  rw [event_proceed stepped]
  simp only [proceed,booting] at stepped
  obtain ⟨controller,system,holder,took,rfl⟩ := drive_some stepped
  have driven := told_driven told inside none holder took sound rfl
  by_cases handed : system.scaling = some .held ∧ controller.succeeds = true
  · rw [if_pos handed.1,if_pos handed.2] at sound ⊢
    have quiet : ∀ j handler, controller.installs pool.system.inactive ≠ some (j,handler) := by
      intro j handler installs
      cases controller <;> cases installs
      all_goals exact absurd handed.2 (by simp [Controller.succeeds])
    have handout : pool.heard c (pool.callers c) ((pool.turn c (.claimed i) system).callers c) = some (.handedOut c i) := by
      simp [booting,heard]
    rw [handout]
    exact told_opened told sound inside none (turn_callers ..) fun j => System.controller_handler took (quiet j)
  · have other : pool.heard c (pool.callers c) ((pool.turn c (if system.scaling = some .held then
        (if controller.succeeds = true then .claimed i else .reserving []) else .booting i) system).callers c) = pool.installs := by
      rw [turn_callers,booting]
      split
      next held =>
        rw [if_neg fun succeeded => handed ⟨held,succeeded⟩]
        rfl
      next => rfl
    rw [other]
    exact driven

/-- The claim is pending until its handler is installed, and an inactive one answers to it. -/
theorem told_assign {choice : Choice n} {handler : Handler} (told : Told events pool)
    (assigning : pool.callers c = .assigning i handler) (stepped : pool.proceed c choice = some next) :
    Told (events ++ (event (.proceed c choice) pool).toList) next := by
  have sound := sound_proceed told.sound stepped
  rw [event_proceed stepped]
  simp only [proceed,assigning] at stepped
  obtain ⟨controller,holds,assigns,inactive⟩ : Stands pool.system (.assigning i handler) := assigning ▸ told.sound.stands c
  obtain ⟨_,system,holder,took,rfl⟩ := drive_some stepped
  cases holds.symm.trans holder
  have heard : ∀ caller, pool.heard c (.assigning i handler) caller = pool.installs := by
    intro caller
    cases caller <;> rfl
  rw [assigning,heard]
  refine told_quiet told sound installs_silent fun d j unanswered before => ?_
  have regular (regular : Regular (pool.system.threads j)) : Regular (system.threads j) :=
    System.regular_driven took (fun handler installs kind => unanswered _ (installs_eq holder installs) ⟨rfl,kind⟩) regular
  rcases before with pending | before
  · -- the pending claim is the caller's own
    have owns := pending_claim pending
    have inside : pool.callers c ≠ .idle := by simp [assigning]
    cases told.sound.alone d c (claim_active owns) inside
    simp only [assigning,Claimant.claim,Option.some.injEq] at owns
    subst owns
    have early : controller.replaced = false := by
      rcases pending with claimed | ⟨_,_,_,other,early⟩
      · simp [assigning] at claimed
      · cases holder.symm.trans other
        exact early
    rcases System.assigns_step told.sound.lifecycle holder assigns inactive took with
      ⟨after,went,still,_,moved⟩ | ⟨_,_,late⟩
    · have under : system.scaling ≠ some .held := by
        rintro same
        cases went.symm.trans same
        exact still
      cases replaced : after.replaced with
      | false => exact .inl (.inr ⟨handler,after,by simp [under],went,replaced⟩)
      | true =>
        rcases moved replaced with late | installs
        · simp [early] at late
        · right
          intro found same
          cases same.symm.trans (System.controller_installed installs took)
          cases kind : handler.kind with
          | regularThread => rfl
          | inactiveThread => exact absurd ⟨rfl,kind⟩ (unanswered _ (installs_eq holder installs))
    · simp [early] at late
  · exact .inr (regular before)

theorem told_proceed {choice : Choice n} (told : Told events pool) (stepped : pool.proceed c choice = some next) :
    Told (events ++ (event (.proceed c choice) pool).toList) next := by
  have sound := sound_proceed told.sound stepped
  cases now : pool.callers c <;> try simp only [proceed,now,reduceCtorEq] at stepped
  case booting i => exact told_boot told now (by simpa only [proceed,now] using stepped)
  case assigning i handler => exact told_assign told now (by simpa only [proceed,now] using stepped)
  all_goals
    have inside : pool.callers c ≠ .idle := by simp [now]
    have none : (pool.callers c).claim = none := by simp [now,Claimant.claim]
    have went : pool.proceed c choice = some next := by simpa only [proceed,now] using stepped
    have unclaimed {event : Option (Event ι n)} (silent : ∀ e ∈ event, ∀ i, ¬opens i e) :=
      told_unclaimed told sound inside none silent
    rw [event_proceed went,now]
  case scanning left =>
    cases left with
    | nil =>
      cases stepped
      rw [goto_callers]
      exact unclaimed (by rintro _ ⟨⟩) fun _ _ _ regular => regular
    | cons i left =>
      cases stepped
      rw [goto_callers]
      by_cases inactive : (pool.system.threads i).state.currentState = .inactive
      · rw [if_pos inactive] at sound ⊢
        exact told_opened told sound inside none (goto_callers ..) fun _ => rfl
      · rw [if_neg inactive] at sound ⊢
        exact told_unclaimed told sound inside none (by rintro _ ⟨⟩) fun _ _ _ regular => regular
  case reserving left =>
    cases left with
    | nil =>
      cases stepped
      exact unclaimed (by simp [heard,opens]) fun _ _ _ regular => regular
    | cons i left =>
      simp only [Option.bind_eq_bind,Option.pure_def,Option.bind_eq_some_iff,Option.some.injEq] at stepped
      obtain ⟨system,started,rfl⟩ := stepped
      exact unclaimed (by rintro _ ⟨⟩) fun _ _ _ regular => System.regular_started started regular
  case assigned i assigned =>
    cases stepped
    exact unclaimed (by simp [heard,opens]) fun _ _ _ regular => regular
  case creating numThreads =>
    have silent : pool.heard c (.creating numThreads) (next.callers c) = Option.none := by
      cases next.callers c <;> rfl
    rw [silent]
    split at stepped <;> cases stepped <;> exact unclaimed (by rintro _ ⟨⟩) fun _ _ _ regular => regular
  case locked answer commands =>
    cases commands with
    | nil =>
      cases stepped
      cases answer with
      | none => exact unclaimed (by simp [heard]) fun _ _ _ regular => regular
      | some answer => exact unclaimed (by simp [heard,opens]) fun _ _ _ regular => regular
    | cons command commands =>
      simp only [Option.bind_eq_bind,Option.pure_def,Option.bind_eq_some_iff,Option.some.injEq] at stepped
      obtain ⟨system,started,rfl⟩ := stepped
      rw [turn_callers]
      cases answer <;> exact unclaimed (by rintro _ ⟨⟩) fun _ _ _ regular => System.regular_started started regular
  case commanding answer command commands =>
    have heard : pool.heard c (.commanding answer command commands) (next.callers c) = pool.installs := by
      cases next.callers c <;> rfl
    rw [heard]
    obtain ⟨after,drove,rfl⟩ := Option.map_eq_some_iff.mp stepped
    obtain ⟨controller,system,holder,took,rfl⟩ := drive_some drove
    exact told_driven told inside none holder took sound (cleared_system ..)

theorem told_step {action : Action ι n} (stepped : step action pool = some next) (told : Told events pool) :
    Told (events ++ (event action pool).toList) next := by
  have sound := sound_step stepped told.sound
  cases action with
  | proceed c choice => exact told_proceed told stepped
  | lock c operation =>
    simp only [step] at stepped
    split at stepped
    next free =>
      cases stepped
      refine told_quiet told sound (by rintro _ ⟨⟩) fun d i _ before => .inr ?_
      have unpending : ¬Pending pool d i := by
        intro pending
        have active := claim_active (pending_claim pending)
        obtain ⟨controller,holder⟩ := stands_holds (told.sound.stands d) active
        simp [free.2] at holder
      have regular := before.resolve_left unpending
      cases operation with
      | initPhpThreads numThreads =>
        simp only [enter]
        split
        · rintro handler ⟨⟩
        · exact regular
      | _ => exact regular
    · contradiction
  | assignHandler c handler =>
    simp only [step] at stepped
    split at stepped
    next i now =>
      obtain ⟨system,started,rfl⟩ := Option.map_eq_some_iff.mp stepped
      refine told_quiet told sound (by rintro _ ⟨⟩) fun d j _ before => ?_
      rcases before with pending | regular
      · have owns := pending_claim pending
        cases told.sound.alone d c (claim_active owns) (by simp [now])
        simp only [now,Claimant.claim,Option.some.injEq] at owns
        subst owns
        cases started
        exact .inl (.inr ⟨handler,_,turn_callers ..,rfl,rfl⟩)
      · exact .inr (System.regular_started started regular)
    · contradiction
  | drop c =>
    simp only [step] at stepped
    split at stepped
    next i now =>
      cases stepped
      have dropped : event (.drop c) pool = some (.dropped c i) := by simp [event,now,Claimant.claim]
      rw [dropped]
      refine told_quiet told sound (by simp [opens]) fun d j unanswered before => ?_
      rcases before with pending | regular
      · have owns := pending_claim pending
        cases told.sound.alone d c (claim_active owns) (by simp [now])
        simp only [now,Claimant.claim,Option.some.injEq] at owns
        exact absurd ⟨rfl,owns⟩ (unanswered _ rfl)
      · exact .inr regular
    · contradiction
  | pthread i move =>
    obtain ⟨system,took,rfl⟩ := Option.map_eq_some_iff.mp stepped
    obtain ⟨thread,moved,rfl⟩ := Option.map_eq_some_iff.mp took
    refine told_quiet told sound (by rintro _ ⟨⟩) fun d j _ before => ?_
    refine before.imp (pending_pthread rfl) fun regular handler same => regular handler ?_
    by_cases here : j = i
    · subst here
      simpa [(PhpThread.step_advance moved).handler] using same
    · simpa [Function.update_of_ne here] using same
  | mainReserved =>
    obtain ⟨system,took,rfl⟩ := Option.map_eq_some_iff.mp stepped
    simp only [System.step] at took
    split at took
    · cases took
      exact told_quiet told sound (by rintro _ ⟨⟩) fun d j _ before => before.imp_left (pending_pthread rfl)
    · contradiction

/-- In every run of any callers: a slot is in one claim at most, and it is handed out
again only after the claim before was dropped or answered by an inactive handler. -/
theorem told_run {actions : List (Action ι n)} (ran : Machine.run step actions init = some pool) :
    Told (Machine.trace step event actions init) pool := by
  have told := Machine.run_history (fun _ _ _ _ stepped told => told_step stepped told) ran told_init
  rwa [List.nil_append] at told

end Pool
end Frankenrust.Thread
