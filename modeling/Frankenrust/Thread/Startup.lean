import Frankenrust.Library.Machine
import Frankenrust.Thread.Course

/-! The start of the server, `run` in `server.rs`, while nobody else takes `SCALING`: it
initializes `n` threads and converts each of them to a regular one. -/
namespace Frankenrust.Thread
variable {n : Nat}

inductive Phase (n : Nat)
  | starting
  | initializing
  -- in the loop over the threads, with those converted so far
  | converting (converted : List (Fin n))
  -- `init_php_threads` has returned its error
  | failed
  -- one of the two `expect`s has fired
  | panicked
  deriving DecidableEq

structure Startup (n : Nat) where
  pool : Pool Unit n
  phase : Phase n

namespace Startup

def init : Startup n := ⟨Pool.init,.starting⟩

inductive Action (n : Nat)
  | server (choice : Choice n)
  | pthread (i : Fin n) (move : Move)
  | mainReserved

/-- The server's next call, or the next step of the one it is in. -/
def next (startup : Startup n) (choice : Choice n) : Option (Pool.Action Unit n) :=
  match startup.phase with
  | .starting => some (.lock () (.initPhpThreads n))
  | .initializing => some (.proceed () choice)
  | .converting converted =>
    match startup.pool.callers () with
    | .idle => if converted.length < n then some (.lock () .getInactivePhpThread) else none
    | .claimed _ => some (.assignHandler () ⟨.regularThread,converted.length⟩)
    | _ => some (.proceed () choice)
  | .failed | .panicked => none

/-- How the server goes on when a call has returned. -/
def Phase.answered : Phase n → Option (Pool.Event Unit n) → Phase n
  | .starting, _ => .initializing
  | .initializing, some (.initialized _ initialized) => if initialized then .converting [] else .failed
  | .converting _, some (.exhausted _) => .panicked
  | .converting converted, some (.assigned _ i assigned) => if assigned then .converting (converted ++ [i]) else .panicked
  | phase, _ => phase

def step (action : Action n) (startup : Startup n) : Option (Startup n) :=
  match action with
  | .server choice => do
    let action ← startup.next choice
    let pool ← Pool.step action startup.pool
    return ⟨pool,Phase.answered startup.phase (Pool.event action startup.pool)⟩
  | .pthread i move => (Pool.step (.pthread i move) startup.pool).map fun pool => { startup with pool }
  | .mainReserved => (Pool.step .mainReserved startup.pool).map fun pool => { startup with pool }

end Startup

namespace Claimant

/-- The slot that the caller is converting. -/
def engaged : Claimant n → Option (Fin n)
  | .claimed i | .assigning i _ | .assigned i _ => some i
  | _ => none

end Claimant

namespace Startup

/-- The slots that have been booted are inactive and stay so while the others are. -/
def Booted (slots : List (Fin n)) (system : System n) : Prop :=
  ∀ i ∈ slots, (system.threads i).state.currentState = .inactive

/-- What is so throughout the startup once the registry is installed. -/
structure Installed (pool : Pool Unit n) : Prop where
  installed : pool.installed = true
  ready : pool.system.main = .ready
  attended : Attended pool.system

/-- Where `init_php_threads` is; a failed one will say so. -/
inductive Initializing (pool : Pool Unit n) : Prop
  | failing (locked : ∃ commands, pool.callers () = .locked (some false) commands ∨
      ∃ command, pool.callers () = .commanding (some false) command commands)
  | creating (now : pool.callers () = .creating n) (installed : Installed pool)
  | locked {booted left : List (Fin n)} (order : List.finRange n = booted ++ left)
    (now : pool.callers () = .locked (some true) (left.map .boot)) (inactive : Booted booted pool.system)
    (installed : Installed pool)
  | booting {booted left : List (Fin n)} {i : Fin n} {controller : Controller n} (order : List.finRange n = booted ++ i :: left)
    (now : pool.callers () = .commanding (some true) (.boot i) (left.map .boot)) (inactive : Booted booted pool.system)
    (holder : pool.system.scaling = some controller) (boots : controller.boots i) (installed : Installed pool)

/-- Where the loop is: a slot that is not converted yet is in sight, and no converted one is taken. -/
def Converts (converted : List (Fin n)) (system : System n) : Claimant n → Prop
  | .idle => True
  | .scanning left => ∃ i ∈ left, i ∉ converted
  | .claimed i => i ∉ converted
  | .assigning i handler => i ∉ converted ∧ handler.kind = .regularThread ∧
      ∀ controller, system.scaling = some controller → System.Swaps (system.threads i) controller
  | .assigned i _ => i ∉ converted ∧ Regular (system.threads i)
  | _ => False

structure Converting (pool : Pool Unit n) (converted : List (Fin n)) : Prop where
  installed : Installed pool
  distinct : converted.Nodup
  regular : ∀ i ∈ converted, Regular (pool.system.threads i)
  inactive : ∀ i, i ∉ converted → (pool.callers ()).engaged ≠ some i → (pool.system.threads i).state.currentState = .inactive
  converts : Converts converted pool.system (pool.callers ())

def Proper (startup : Startup n) : Prop :=
  Pool.Sound startup.pool ∧
    match startup.phase with
    | .starting | .failed => True
    | .initializing => Initializing startup.pool
    | .converting converted => Converting startup.pool converted
    | .panicked => False

theorem proper_init : Proper (init : Startup n) := ⟨Pool.sound_init,trivial⟩

variable {pool after : Pool Unit n} {choice : Choice n} {converted : List (Fin n)}

theorem installed_turn {caller : Claimant n} {system : System n} (installed : Installed pool)
    (main : system.main = pool.system.main) (attended : Attended system) : Installed (pool.turn () caller system) :=
  ⟨installed.installed,main.trans installed.ready,attended⟩

theorem installed_goto {caller : Claimant n} (installed : Installed pool) : Installed (pool.goto () caller) :=
  ⟨installed.installed,installed.ready,installed.attended⟩

theorem installed_release (installed : Installed pool) (held : pool.system.scaling = some .held) :
    Installed (pool.release ()) :=
  installed_turn installed rfl (System.attended_goto installed.attended (by rw [held]; rfl) rfl)

/-- What a started command leaves: the slots as they are, at a point that waits for nothing. -/
theorem installed_started {caller : Claimant n} {controller : Controller n} (installed : Installed pool)
    (held : pool.system.scaling = some .held) (awake : controller.awaits = none) :
    Installed (pool.turn () caller (pool.system.goto controller)) :=
  installed_turn installed rfl (System.attended_goto installed.attended (by rw [held]; rfl) awake)

/-- An installation under way tells the server nothing. -/
theorem answered_installs : Phase.answered .initializing pool.installs = .initializing := by
  cases installs : pool.installs with
  | none => rfl
  | some event =>
    simp only [Pool.installs,Option.bind_eq_some_iff,Option.map_eq_some_iff] at installs
    obtain ⟨_,_,_,_,rfl⟩ := installs
    rfl

theorem failing_step (sound : Pool.Sound pool) (failing : ∃ commands, pool.callers () = .locked (some false) commands ∨
      ∃ command, pool.callers () = .commanding (some false) command commands)
    (stepped : pool.proceed () choice = some after) :
    Proper ⟨after,Phase.answered .initializing (Pool.event (.proceed () choice) pool)⟩ := by
  have next := Pool.sound_proceed sound stepped
  rw [Pool.event_proceed stepped]
  obtain ⟨commands,now | ⟨command,now⟩⟩ := failing
  · cases commands with
    | nil =>
      rw [now]
      exact ⟨next,trivial⟩
    | cons command commands =>
      simp only [Pool.proceed,now,Option.bind_eq_bind,Option.pure_def,Option.bind_eq_some_iff,Option.some.injEq] at stepped
      obtain ⟨system,_,rfl⟩ := stepped
      rw [now]
      exact ⟨next,.failing ⟨commands,.inr ⟨command,Pool.turn_callers ..⟩⟩⟩
  · have quiet : ∀ caller, Phase.answered .initializing (pool.heard () (.commanding (some false) command commands) caller) =
        .initializing := by
      intro caller
      have heard : pool.heard () (.commanding (some false) command commands) caller = pool.installs := by cases caller <;> rfl
      rw [heard,answered_installs]
    simp only [Pool.proceed,now,Option.map_eq_some_iff] at stepped
    obtain ⟨driven,drove,rfl⟩ := stepped
    obtain ⟨controller,system,_,_,rfl⟩ := Pool.drive_some drove
    rw [now,quiet]
    refine ⟨next,.failing ?_⟩
    rw [Pool.cleared_callers,Pool.turn_callers]
    split
    · cases command with
      | boot => cases controller.succeeds <;> exact ⟨_,.inl rfl⟩
      | claim | setHandler | shutdown | drain | release => exact ⟨_,.inl rfl⟩
    · exact ⟨_,.inr ⟨command,rfl⟩⟩

theorem booting_step {booted left : List (Fin n)} {i : Fin n} {controller : Controller n} (sound : Pool.Sound pool)
    (order : List.finRange n = booted ++ i :: left)
    (now : pool.callers () = .commanding (some true) (.boot i) (left.map .boot)) (inactive : Booted booted pool.system)
    (holder : pool.system.scaling = some controller) (boots : controller.boots i) (installed : Installed pool)
    (stepped : pool.proceed () choice = some after) : Initializing after := by
  simp only [Pool.proceed,now,Option.map_eq_some_iff] at stepped
  obtain ⟨driven,drove,rfl⟩ := stepped
  obtain ⟨_,system,holds,took,rfl⟩ := Pool.drive_some drove
  cases holder.symm.trans holds
  have lifecycle := sound.lifecycle
  have awaited : controller.Awaited pool.system.threads := by
    simp only [System.Lifecycle,holder] at lifecycle
    exact lifecycle.2
  have stays := System.boots_local lifecycle installed.attended holder boots took
  have others : Booted booted system := by
    intro j member
    have different : j ≠ i := by
      rintro rfl
      have distinct := order ▸ List.nodup_finRange n
      exact (List.nodup_append.mp distinct).2.2 j member j (by simp) rfl
    rw [stays.others j different]
    exact inactive j member
  have uncleared (pool : Pool Unit n) : Pool.cleared (.boot i) pool = pool := by simp [Pool.cleared]
  rw [uncleared]
  rcases System.boots_step awaited boots took with ⟨later,went,still⟩ | ⟨returned,booted_⟩
  · have under : system.scaling ≠ some .held := by
      rintro same
      cases went.symm.trans same
      exact still
    rw [if_neg under]
    exact .booting order (Pool.turn_callers ..) others went still (installed_turn installed stays.main stays.attended)
  · rw [if_pos returned]
    cases succeeded : controller.succeeds with
    | false => exact .failing ⟨[.drain],.inl (Pool.turn_callers ..)⟩
    | true =>
      refine .locked (by rw [order]; exact List.append_cons booted i left) (Pool.turn_callers ..) ?_
        (installed_turn installed stays.main stays.attended)
      intro j member
      rcases List.mem_append.mp member with before | last
      · exact others j before
      · rw [List.mem_singleton.mp last]
        exact booted_ succeeded

theorem initializing_step (sound : Pool.Sound pool) (initializing : Initializing pool)
    (stepped : pool.proceed () choice = some after) :
    Proper ⟨after,Phase.answered .initializing (Pool.event (.proceed () choice) pool)⟩ := by
  cases initializing with
  | failing failing => exact failing_step sound failing stepped
  | creating now installed =>
    have next := Pool.sound_proceed sound stepped
    have silent : Pool.event (.proceed () choice) pool = none := by
      rw [Pool.event_proceed stepped,now]
      cases after.callers () <;> rfl
    rw [silent]
    simp only [Pool.proceed,now] at stepped
    split at stepped
    · cases stepped
      exact ⟨next,.failing ⟨[],.inl (by simp [Pool.goto,Pool.turn])⟩⟩
    · cases stepped
      have whole : (List.finRange n).take n = List.finRange n := List.take_of_length_le (by simp)
      have order : List.finRange n = [] ++ List.finRange n := rfl
      refine ⟨next,.locked order ?_ (by simp [Booted]) (installed_goto installed)⟩
      rw [Pool.goto_callers,whole]
  | @locked booted left order now inactive installed =>
    have next := Pool.sound_proceed sound stepped
    have stands : Stands pool.system (pool.callers ()) := sound.stands ()
    rw [now] at stands
    cases left with
    | nil =>
      rw [Pool.event_proceed stepped,now]
      simp only [Pool.proceed,now,List.map_nil,Option.some.injEq] at stepped
      subst stepped
      refine ⟨next,installed_release installed stands.1,List.nodup_nil,by simp,fun i _ _ => ?_,?_⟩
      · exact inactive i (by simpa [order] using List.mem_finRange i)
      · rw [Pool.release,Pool.turn_callers]
        trivial
    | cons i left =>
      rw [Pool.event_proceed stepped,now]
      simp only [Pool.proceed,now,List.map_cons,Option.bind_eq_bind,Option.pure_def,Option.bind_eq_some_iff,
        Option.some.injEq] at stepped
      obtain ⟨system,started,rfl⟩ := stepped
      simp only [System.start,installed.ready,if_true,Option.some.injEq] at started
      subst started
      rw [Pool.turn_callers]
      exact ⟨next,.booting order (Pool.turn_callers ..) inactive rfl rfl (installed_started installed stands.1 rfl)⟩
  | booting order now inactive holder boots installed =>
    have next := Pool.sound_proceed sound stepped
    have later := booting_step sound order now inactive holder boots installed stepped
    have heard : Pool.event (.proceed () choice) pool = pool.installs := by
      rw [Pool.event_proceed stepped,now]
      cases after.callers () <;> rfl
    rw [heard,answered_installs]
    exact ⟨next,later⟩

end Startup
end Frankenrust.Thread
