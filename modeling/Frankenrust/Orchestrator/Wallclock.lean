import Frankenrust.Orchestrator.Pool
import Mathlib.Algebra.Order.Archimedean.Basic
import Mathlib.Data.NNRat.Defs
import Mathlib.Data.Rat.Floor

/-! The wall-clock budget of `cmd_run` and of the processes that it restarts into. The polling
loop runs against a clock; a restart hands on what `restart_into_new_code` computes, and the
successor counts it from its own start. -/
namespace Frankenrust.Orchestrator

/-- A run and the processes it has restarted into; `pool` is `none` while the successor loads.
`startups` and `dropped` only keep account: the seconds that successors took to load, and the
parts of a second that `int` dropped. -/
structure Succession where
  now : ℚ
  wallclockLimit : ℤ
  start : ℚ
  restarts : Nat
  pool : Option Pool
  startups : ℚ
  dropped : ℚ

namespace Succession

def first (wallclockLimit : ℤ) (now : ℚ) : Succession := ⟨now,wallclockLimit,now,0,some Pool.start,0,0⟩

/-- `int` of a number of seconds. -/
def int (seconds : ℚ) : ℤ := if 0 ≤ seconds then ⌊seconds⌋ else ⌈seconds⌉

def remaining (succession : Succession) : ℚ := succession.wallclockLimit - (succession.now - succession.start)

/-- The budget that `restart_into_new_code` puts into `FR_WALLCLOCK`. -/
def left (succession : Succession) : ℤ := max (int succession.remaining) 60

def overWallclock (succession : Succession) : Bool := decide (succession.wallclockLimit < succession.now - succession.start)

def elapsed (succession : Succession) (seconds : ℚ≥0) : Succession := { succession with now := succession.now + seconds }

inductive Action
  | elapse (seconds : ℚ≥0)
  | load
  | loop (action : Pool.Action)

def step (config : Config) (drainConfirmations : Nat) (action : Action) (succession : Succession) : Option Succession :=
  match action,succession.pool with
  | .elapse seconds,some _ => some (succession.elapsed seconds)
  | .elapse seconds,none => some { succession.elapsed seconds with startups := succession.startups + seconds }
  | .load,none => some { succession with start := succession.now, pool := some Pool.start }
  | .loop .restartIntoNewCode,some pool =>
    (Pool.step config drainConfirmations .restartIntoNewCode pool).map fun _ => { succession with
      wallclockLimit := succession.left
      restarts := succession.restarts + 1
      pool := none
      dropped := succession.dropped + Int.fract succession.remaining }
  | .loop (.overWallclock exceeded),some pool =>
    if exceeded = succession.overWallclock then
      (Pool.step config drainConfirmations (.overWallclock exceeded) pool).map fun next => { succession with pool := some next }
    else none
  | .loop action,some pool =>
    (Pool.step config drainConfirmations action pool).map fun next => { succession with pool := some next }
  | _,_ => none

/-- No budget that is handed on exceeds what remained of the original, and no successor claims
an issue after that. -/
def Within (deadline : ℚ) : Action → Succession → Prop
  | .loop .restartIntoNewCode, succession => succession.left ≤ deadline - succession.now
  | .loop (.claim true), succession => succession.restarts ≠ 0 → succession.now ≤ deadline
  | _, _ => True

/-- A restart comes while a minute is left, a successor has loaded before the parts of a second
that were dropped are used up, and it claims nothing once its own budget is spent. -/
def Timely : Action → Succession → Prop
  | .loop .restartIntoNewCode, succession => 60 ≤ succession.remaining
  | .load, succession => succession.startups ≤ succession.dropped
  | .loop (.claim true), succession => succession.restarts ≠ 0 → 0 ≤ succession.remaining
  | _, _ => True

instance {deadline : ℚ} : (action : Action) → (succession : Succession) → Decidable (Within deadline action succession)
  | .loop .restartIntoNewCode, succession => inferInstanceAs (Decidable (succession.left ≤ deadline - succession.now))
  | .loop (.claim true), succession => inferInstanceAs (Decidable (succession.restarts ≠ 0 → succession.now ≤ deadline))
  | .elapse _, _ | .load, _ | .loop (.finish _), _ | .loop .raise, _ | .loop (.overWallclock _), _ => .isTrue trivial
  | .loop (.noAgentUsable _), _ | .loop (.reap _), _ | .loop (.selfUpdatePending _), _ | .loop .syncWaiting, _ => .isTrue trivial
  | .loop (.claimable _), _ | .loop (.claim false), _ | .loop .diskUsage, _ | .loop .submit, _ | .loop (.fetch _), _ => .isTrue trivial
  | .loop .slept, _ => .isTrue trivial

instance : (action : Action) → (succession : Succession) → Decidable (Timely action succession)
  | .loop .restartIntoNewCode, succession => inferInstanceAs (Decidable (60 ≤ succession.remaining))
  | .load, succession => inferInstanceAs (Decidable (succession.startups ≤ succession.dropped))
  | .loop (.claim true), succession => inferInstanceAs (Decidable (succession.restarts ≠ 0 → 0 ≤ succession.remaining))
  | .elapse _, _ | .loop (.finish _), _ | .loop .raise, _ | .loop (.overWallclock _), _ => .isTrue trivial
  | .loop (.noAgentUsable _), _ | .loop (.reap _), _ | .loop (.selfUpdatePending _), _ | .loop .syncWaiting, _ => .isTrue trivial
  | .loop (.claimable _), _ | .loop (.claim false), _ | .loop .diskUsage, _ | .loop .submit, _ | .loop (.fetch _), _ => .isTrue trivial
  | .loop .slept, _ => .isTrue trivial

variable {config : Config} {drainConfirmations : Nat} {deadline : ℚ} {action : Action} {succession next : Succession}

theorem int_le_iff {seconds : ℚ} : ((max (int seconds) 60 : ℤ) : ℚ) ≤ seconds ↔ 60 ≤ seconds := by
  constructor
  · intro least
    have floor : (60 : ℚ) ≤ ((max (int seconds) 60 : ℤ) : ℚ) := by exact_mod_cast le_max_right _ _
    exact floor.trans least
  · intro minute
    have positive : 0 ≤ seconds := le_trans (by norm_num) minute
    rw [int,if_pos positive,max_eq_left (Int.le_floor.mpr (by exact_mod_cast minute))]
    exact Int.floor_le seconds

/-- Where a minute is left, only the part of a second is lost. -/
theorem left_fract (minute : 60 ≤ succession.remaining) :
    (succession.left : ℚ) = succession.remaining - Int.fract succession.remaining := by
  have positive : 0 ≤ succession.remaining := le_trans (by norm_num) minute
  rw [left,int,if_pos positive,max_eq_left (Int.le_floor.mpr (by exact_mod_cast minute)),Int.self_sub_fract]

/-- When the budget of the process that runs or loads is spent. -/
def ends (succession : Succession) : ℚ :=
  (if succession.pool.isSome then succession.start else succession.now) + succession.wallclockLimit

/-- The account of a run whose restarts all come in time. -/
structure Kept (deadline : ℚ) (succession : Succession) : Prop where
  account : succession.ends = deadline + succession.startups - succession.dropped
  covered : succession.pool.isSome = true → succession.startups ≤ succession.dropped

theorem kept_first (wallclockLimit : ℤ) (now : ℚ) : Kept (now + wallclockLimit) (first wallclockLimit now) :=
  ⟨by simp [ends,first],fun _ => le_rfl⟩

theorem kept_pool {pool after : Pool} (kept : Kept deadline succession) (running : succession.pool = some pool) :
    Kept deadline { succession with pool := some after } := by
  have covered := kept.covered (by simp [running])
  have account := kept.account
  simp only [ends,running,Option.isSome_some,if_true] at account
  exact ⟨account,fun _ => covered⟩

theorem kept_step (stepped : step config drainConfirmations action succession = some next) (timely : Timely action succession)
    (kept : Kept deadline succession) : Kept deadline next := by
  have account := kept.account
  unfold step at stepped
  split at stepped
  next running =>
    cases stepped
    simp only [ends,running] at account
    exact ⟨by simpa [ends,elapsed,running] using account,fun _ => kept.covered (by simp [running])⟩
  next loading =>
    cases stepped
    refine ⟨?_,by simp [elapsed,loading]⟩
    simp only [ends,elapsed,loading,Option.isSome_none,Bool.false_eq_true,if_false] at account ⊢
    linarith
  next loading =>
    cases stepped
    refine ⟨?_,fun _ => timely⟩
    simpa [ends,loading] using account
  next running =>
    obtain ⟨_,_,rfl⟩ := Option.map_eq_some_iff.mp stepped
    refine ⟨?_,nofun⟩
    have left := left_fract timely
    simp only [ends,running,Option.isSome_some,Option.isSome_none,Bool.false_eq_true,if_true,if_false,remaining] at account left ⊢
    linarith
  next running =>
    split at stepped
    · obtain ⟨_,_,rfl⟩ := Option.map_eq_some_iff.mp stepped
      exact kept_pool kept running
    · contradiction
  next running =>
    obtain ⟨_,_,rfl⟩ := Option.map_eq_some_iff.mp stepped
    exact kept_pool kept running
  next => contradiction

theorem running_of_loop {inner : Pool.Action} (stepped : step config drainConfirmations (.loop inner) succession = some next) :
    succession.pool.isSome = true := by
  cases pool : succession.pool with
  | some _ => rfl
  | none =>
    simp only [step,pool] at stepped
    cases inner
    all_goals contradiction

/-- A step in time is within the budget of the first process. -/
theorem within_step (stepped : step config drainConfirmations action succession = some next) (timely : Timely action succession)
    (kept : Kept deadline succession) : Within deadline action succession := by
  have started (running : succession.pool.isSome = true) : succession.now + succession.remaining ≤ deadline := by
    have account := kept.account
    have covered := kept.covered running
    simp only [ends,running,if_true] at account
    rw [remaining]
    linarith
  unfold Within
  split
  · have minute := int_le_iff.mpr timely
    have late := started (running_of_loop stepped)
    rw [left]
    linarith
  · intro later
    have spent : 0 ≤ succession.remaining := timely later
    have late := started (running_of_loop stepped)
    linarith
  · trivial

def restarting : List Action :=
  [.loop (.overWallclock false),.loop (.noAgentUsable false),.loop (.reap []),.loop (.selfUpdatePending true),
    .loop .restartIntoNewCode]

def claiming : List Action :=
  [.loop (.overWallclock false),.loop (.noAgentUsable false),.loop (.reap []),.loop (.selfUpdatePending false),
    .loop .syncWaiting,.loop (.claimable [⟨7,[],[.ready],.opened⟩]),.loop (.claim true)]

/-- Where every restart and every claim comes in time, no restart extends the run past the budget it was given. -/
theorem budget_handed_on {wallclockLimit : ℤ} {now : ℚ} {actions : List Action} {last : Succession}
    (ran : Machine.run (step config drainConfirmations) actions (first wallclockLimit now) = some last)
    (timely : Machine.Along (step config drainConfirmations) Timely actions (first wallclockLimit now)) :
    Machine.Along (step config drainConfirmations) (Within (now + wallclockLimit)) actions (first wallclockLimit now) := by
  refine Machine.along_kept ?_ ?_ ran timely (kept_first wallclockLimit now)
  · exact fun _ _ _ => kept_step
  · exact fun _ _ _ => within_step

theorem budget_handed_on_twice : ∃ last, Machine.run (step .usual 3)
    (.elapse (93/10) :: restarting ++ .elapse (1/2) :: .load :: claiming) (first 120 0) = some last ∧
    Machine.Along (step .usual 3) (Within (0 + (120 : ℤ))) (.elapse (93/10) :: restarting ++ .elapse (1/2) :: .load :: claiming)
      (first 120 0) := by
  obtain ⟨last,ran⟩ := Option.isSome_iff_exists.mp (show (Machine.run (step .usual 3)
    (.elapse (93/10) :: restarting ++ .elapse (1/2) :: .load :: claiming) (first 120 0)).isSome = true by decide +kernel)
  exact ⟨last,ran,budget_handed_on ran (by decide +kernel)⟩

/-- Thirty seconds are left, a minute is handed on, and the successor claims when the run is to have ended. -/
theorem budget_extended : ∃ last, Machine.run (step .usual 3)
    (.elapse 90 :: restarting ++ .elapse (1/2) :: .load :: .elapse 55 :: claiming) (first 120 0) = some last ∧
    ¬Machine.Along (step .usual 3) (Within (0 + (120 : ℤ)))
      (.elapse 90 :: restarting ++ .elapse (1/2) :: .load :: .elapse 55 :: claiming) (first 120 0) := by
  obtain ⟨last,ran⟩ := Option.isSome_iff_exists.mp (show (Machine.run (step .usual 3)
    (.elapse 90 :: restarting ++ .elapse (1/2) :: .load :: .elapse 55 :: claiming) (first 120 0)).isSome = true by decide +kernel)
  exact ⟨last,ran,by decide +kernel⟩

/-- The process after it has restarted and the successor has loaded, all at once. -/
def reloaded (succession : Succession) : Succession where
  now := succession.now
  wallclockLimit := succession.left
  start := succession.now
  restarts := succession.restarts + 1
  pool := some Pool.start
  startups := succession.startups
  dropped := succession.dropped + Int.fract succession.remaining

theorem restarting_runs (running : succession.pool = some Pool.start) (enough : 0 ≤ succession.remaining) :
    Machine.run (step config drainConfirmations) (restarting ++ [.load]) succession = some succession.reloaded := by
  have within : succession.overWallclock = false := by
    rw [overWallclock,decide_eq_false_iff_not]
    rw [remaining] at enough
    linarith
  obtain ⟨now,limit,start,restarts,pool,startups,dropped⟩ := succession
  cases running
  simp only [restarting,List.cons_append,List.nil_append,Machine.run,step,within,if_true]
  rfl

theorem reloaded_remaining (late : succession.remaining < 61) : succession.reloaded.remaining = 60 := by
  have minute : succession.left = 60 := by
    rw [left,max_eq_right]
    rw [int]
    split
    · have less : ⌊succession.remaining⌋ < 61 := Int.floor_lt.mpr (by exact_mod_cast late)
      omega
    next negative =>
      have less : ⌈succession.remaining⌉ ≤ 60 := Int.ceil_le.mpr (by push_cast; linarith)
      omega
  simp [remaining,reloaded,minute]

theorem elapsed_remaining (succession : Succession) (seconds : ℚ≥0) :
    (succession.elapsed seconds).remaining = succession.remaining - seconds := by
  simp only [remaining,elapsed]
  ring

theorem elapsed_runs {seconds : ℚ≥0} (running : succession.pool = some Pool.start) (enough : seconds ≤ succession.remaining) :
    Machine.run (step config drainConfirmations) (.elapse seconds :: (restarting ++ [.load])) succession =
      some (succession.elapsed seconds).reloaded := by
  have elapsed : step config drainConfirmations (.elapse seconds) succession = some (succession.elapsed seconds) := by
    simp [step,running]
  have positive : 0 ≤ (succession.elapsed seconds).remaining := by
    rw [elapsed_remaining]
    linarith
  rw [Machine.run,elapsed,Option.bind_some]
  exact restarting_runs running positive

/-- Any number of restarts, each of which comes ten seconds before the end and is given a minute more. -/
theorem restarts_chained (budget count : Nat) : ∃ actions last,
    Machine.run (step config drainConfirmations) actions (first budget 0) = some last ∧ last.pool = some Pool.start ∧
      last.remaining = 60 ∧ last.restarts = count + 1 ∧ last.now = budget + 50 * count := by
  induction count with
  | zero =>
    have all : ((budget : ℚ≥0) : ℚ) ≤ (first budget 0).remaining := by simp [first,remaining]
    refine ⟨_,_,elapsed_runs rfl all,rfl,reloaded_remaining ?_,rfl,?_⟩
    · rw [elapsed_remaining]
      simp [first,remaining]
    · simp [first,reloaded,elapsed]
  | succ count ih =>
    obtain ⟨actions,last,ran,running,minute,restarts,now⟩ := ih
    have fifty : ((50 : ℚ≥0) : ℚ) ≤ last.remaining := by
      rw [minute]
      norm_num
    refine ⟨actions ++ .elapse 50 :: (restarting ++ [.load]),(last.elapsed 50).reloaded,?_,rfl,reloaded_remaining ?_,?_,?_⟩
    · rw [Machine.run_append,ran]
      exact elapsed_runs running fifty
    · rw [elapsed_remaining,minute]
      norm_num
    · simp [reloaded,elapsed,restarts]
    · simp [reloaded,elapsed,now]
      ring

/-- Restarts can extend a run past every bound, whatever the budget that it was given. -/
theorem restarts_extend (budget : Nat) (bound : ℚ) : ∃ actions last,
    Machine.run (step config drainConfirmations) actions (first budget 0) = some last ∧ last.restarts ≠ 0 ∧
      bound < last.now ∧ last.overWallclock = false := by
  obtain ⟨count,beyond⟩ := exists_nat_gt bound
  obtain ⟨actions,last,ran,_,minute,restarts,now⟩ : ∃ actions last,
    Machine.run (step config drainConfirmations) actions (first budget 0) = some last ∧ last.pool = some Pool.start ∧
      last.remaining = 60 ∧ last.restarts = count + 1 ∧ last.now = budget + 50 * count := restarts_chained budget count
  refine ⟨actions,last,ran,by simp [restarts],?_,?_⟩
  · have paid : (0 : ℚ) ≤ budget + 49 * count := by positivity
    rw [now]
    linarith
  · rw [overWallclock,decide_eq_false_iff_not]
    rw [remaining] at minute
    linarith

end Succession
end Frankenrust.Orchestrator
