import Frankenrust.Library.Machine
import Frankenrust.Orchestrator.Loop

/-! The polling loop of `cmd_run` and the workers of its pool. Workers finish at any time;
what `claimable` returns is any list of issues with distinct numbers, so that it may hold
issues in flight which their workers have put back. -/
namespace Frankenrust.Orchestrator

/-- An entry of `inflight`; a future is told by the number of those submitted before it. -/
structure Job where
  future : Nat
  issue : Issue
  done : Bool

namespace Pool

/-- Where the loop stands: what it calls or waits for next. -/
inductive Position
  | head
  | agents
  | sweep
  | update
  | quiesce
  | restart
  | sync
  | list
  | claim (busy : List Nat) (budget : Nat) (batch candidates : List Issue)
  | disk (batch : List Issue)
  | submit (batch : List Issue)
  | await
  | remaining
  | sleep
  | stopped

end Pool

/-- `claimed` and `submitted` are the numbers for which `claim` returned `True` and `submit` a
future, in order; `empty` counts the polls that found nothing. -/
structure Pool where
  position : Pool.Position
  inflight : List Job
  empty : Nat
  claimed : List Nat
  submitted : List Nat

namespace Pool

def start : Pool := ⟨.head,[],0,[],[]⟩

/-- What the loop's calls return, and the two things that can happen besides: a worker
finishes, or a call raises. -/
inductive Action
  | finish (future : Nat)
  | raise
  | overWallclock (exceeded : Bool)
  | noAgentUsable (unusable : Bool)
  | reap (done : List Nat)
  | selfUpdatePending (pending : Bool)
  | restartIntoNewCode
  | syncWaiting
  | claimable (candidates : List Issue)
  | claim (claimed : Bool)
  | diskUsage
  | submit
  | fetch (remaining : Bool)
  | slept

def numbers (pool : Pool) : List Nat := pool.inflight.map (·.issue.number)

def budget (config : Config) (pool : Pool) : Nat := config.maxParallel - pool.inflight.length

/-- The next candidate to be claimed and those after it, unless the batch is full. -/
def candidate (busy : List Nat) (budget : Nat) (batch : List Issue) : List Issue → Option (Issue × List Issue)
  | [] => none
  | issue :: issues =>
    if budget ≤ batch.length then none
    else if issue.number ∈ busy then candidate busy budget batch issues
    else some (issue,issues)

/-- What follows the claims. -/
def afterClaims (pool : Pool) (batch : List Issue) : Pool :=
  if batch ≠ [] then { pool with position := .disk batch, empty := 0 }
  else { pool with position := if pool.inflight = [] then .remaining else .await }

/-- From one candidate to the next, or on. -/
def claimOn (pool : Pool) (busy : List Nat) (budget : Nat) (batch candidates : List Issue) : Pool :=
  match candidate busy budget batch candidates with
  | none => pool.afterClaims batch
  | some (issue,issues) => { pool with position := .claim busy budget batch (issue :: issues) }

/-- `reap`: futures that are done leave `inflight`. -/
def drop (pool : Pool) (done : List Nat) (position : Position) : Option Pool :=
  if ∀ job ∈ pool.inflight, job.future ∈ done → job.done = true then
    some { pool with position, inflight := pool.inflight.filter fun job => job.future ∉ done }
  else none

def step (config : Config) (drainConfirmations : Nat) (action : Action) (pool : Pool) : Option Pool :=
  match action,pool.position with
  | .finish future,_ => some { pool with
      inflight := pool.inflight.map fun job => if job.future = future then { job with done := true } else job }
  | .raise,.stopped => none
  | .raise,_ => some { pool with position := .stopped }
  | .overWallclock exceeded,.head => some { pool with position := if exceeded then .stopped else .agents }
  | .noAgentUsable unusable,.agents => some { pool with position := if unusable then .stopped else .sweep }
  | .reap done,.sweep => pool.drop done .update
  | .selfUpdatePending pending,.update =>
    some { pool with position := if pending then (if pool.inflight ≠ [] then .quiesce else .restart) else .sync }
  | .reap done,.quiesce => pool.drop done .head
  | .restartIntoNewCode,.restart => some { pool with position := .stopped }
  | .syncWaiting,.sync => some (if pool.budget config = 0 then pool.afterClaims [] else { pool with position := .list })
  | .claimable candidates,.list =>
    if (candidates.map (·.number)).Nodup then some (pool.claimOn pool.numbers (pool.budget config) [] candidates)
    else none
  | .claim claimed,.claim busy budget batch (issue :: issues) =>
    some (if claimed then
      { pool with claimed := pool.claimed ++ [issue.number] }.claimOn busy budget (batch ++ [issue]) issues
    else pool.claimOn busy budget batch issues)
  | .diskUsage,.disk batch => some { pool with position := .submit batch }
  | .submit,.submit (issue :: issues) => some { pool with
      position := if issues = [] then .head else .submit issues
      inflight := pool.inflight ++ [⟨pool.submitted.length,issue,false⟩]
      submitted := pool.submitted ++ [issue.number] }
  | .reap done,.await => pool.drop done .head
  | .fetch remaining,.remaining =>
    if remaining then some { pool with position := .sleep, empty := 0 }
    else some { pool with
      position := if drainConfirmations ≤ pool.empty + 1 then .stopped else .sleep, empty := pool.empty + 1 }
  | .slept,.sleep => some { pool with position := .head }
  | _,_ => none

/-- Claimed and not yet submitted. -/
def batch (pool : Pool) : List Issue :=
  match pool.position with
  | .claim _ _ batch _ | .disk batch | .submit batch => batch
  | _ => []

variable {config : Config} {pool next : Pool} {drainConfirmations : Nat}

/-- What the issues in flight and a batch for them add up to. -/
structure Fits (config : Config) (pool : Pool) (batch : List Issue) : Prop where
  submitted : pool.submitted ++ batch.map (·.number) = pool.claimed
  distinct : (pool.numbers ++ batch.map (·.number)).Nodup
  bounded : pool.inflight.length + batch.length ≤ config.maxParallel

/-- While it claims, the loop excludes what is in flight, and the candidates are not yet in the batch. -/
structure Claiming (config : Config) (pool : Pool) (busy : List Nat) (budget : Nat) (batch candidates : List Issue) : Prop where
  busy : busy = pool.numbers
  budget : budget = pool.budget config
  distinct : ((batch ++ candidates).map (·.number)).Nodup

structure Held (config : Config) (pool : Pool) : Prop where
  fits : Fits config pool pool.batch
  claiming : ∀ busy budget batch issue issues, pool.position = .claim busy budget batch (issue :: issues) →
    Claiming config pool busy budget batch (issue :: issues) ∧ issue.number ∉ busy ∧ batch.length < budget
  restart : pool.position = .restart → pool.inflight = []

/-- What holds while the loop runs. -/
def Sound (config : Config) (pool : Pool) : Prop := pool.position = .stopped ∨ Held config pool

theorem candidate_spec {busy : List Nat} {budget : Nat} {batch candidates issues : List Issue} {issue : Issue}
    (found : candidate busy budget batch candidates = some (issue,issues)) :
    (issue :: issues).Sublist candidates ∧ issue.number ∉ busy ∧ batch.length < budget := by
  induction candidates with
  | nil => contradiction
  | cons first rest ih =>
    simp only [candidate] at found
    split at found
    · contradiction
    next room =>
      split at found
      next =>
        obtain ⟨among,free,short⟩ := ih found
        exact ⟨among.cons first,free,short⟩
      next free =>
        cases found
        exact ⟨List.Sublist.refl _,free,Nat.lt_of_not_le room⟩

theorem Fits.elsewhere {batch : List Issue} {position : Position} {empty : Nat} (fits : Fits config pool batch) :
    Fits config { pool with position, empty } batch := ⟨fits.submitted,fits.distinct,fits.bounded⟩

/-- Positions without a batch, other than the one before the restart. -/
def Position.calm : Position → Bool
  | .claim _ _ _ _ | .disk _ | .submit _ | .restart => false
  | _ => true

theorem held_calm {position : Position} {empty : Nat} (fits : Fits config pool []) (calm : position.calm = true) :
    Held config { pool with position, empty } := by
  cases position
  case claim | disk | submit | restart => contradiction
  all_goals exact ⟨fits.elsewhere,nofun,nofun⟩

theorem held_start : Held config start := ⟨⟨rfl,List.nodup_nil,Nat.zero_le _⟩,nofun,nofun⟩

theorem held_afterClaims {batch : List Issue} (fits : Fits config pool batch) : Held config (pool.afterClaims batch) := by
  unfold afterClaims
  split
  · exact ⟨fits.elsewhere,nofun,nofun⟩
  next none =>
    rw [not_not] at none
    subst none
    split
    · exact held_calm fits rfl
    · exact held_calm fits rfl

theorem held_claimOn {busy : List Nat} {budget : Nat} {batch candidates : List Issue} (fits : Fits config pool batch)
    (claiming : Claiming config pool busy budget batch candidates) :
    Held config (pool.claimOn busy budget batch candidates) := by
  unfold claimOn
  split
  · exact held_afterClaims fits
  next issue issues found =>
    obtain ⟨among,free,short⟩ := candidate_spec found
    refine ⟨fits.elsewhere,?_,nofun⟩
    intro busy' budget' batch' issue' issues' same
    cases same
    have fewer := ((List.Sublist.refl batch).append among).map (·.number)
    exact ⟨⟨claiming.busy,claiming.budget,claiming.distinct.sublist fewer⟩,free,short⟩

/-- Futures that are done leave; what else is in flight stays as it was. -/
theorem held_drop {done : List Nat} {position : Position} (fits : Fits config pool [])
    (dropped : pool.drop done position = some next) (calm : position.calm = true) : Held config next := by
  unfold drop at dropped
  split at dropped
  · cases dropped
    have fewer : (pool.inflight.filter fun job => job.future ∉ done).Sublist pool.inflight := List.filter_sublist
    have left : Fits config { pool with inflight := pool.inflight.filter fun job => job.future ∉ done } [] := by
      refine ⟨fits.submitted,?_,?_⟩
      · exact fits.distinct.sublist ((fewer.map _).append (List.Sublist.refl _))
      · exact Nat.le_trans (Nat.add_le_add_right fewer.length_le _) fits.bounded
    exact held_calm left calm
  · contradiction

theorem held_finish {future : Nat} (held : Held config pool) : Held config { pool with
    inflight := pool.inflight.map fun job => if job.future = future then { job with done := true } else job } := by
  have same : (pool.inflight.map fun job => if job.future = future then { job with done := true } else job).map
      (·.issue.number) = pool.numbers := by
    rw [List.map_map]
    apply List.map_congr_left
    intro job _
    simp only [Function.comp_apply]
    split
    · rfl
    · rfl
  have size : (pool.inflight.map fun job => if job.future = future then { job with done := true } else job).length =
      pool.inflight.length := List.length_map ..
  refine ⟨⟨held.fits.submitted,?_,?_⟩,?_,?_⟩
  · change (List.map _ _ ++ _).Nodup
    rw [same]
    exact held.fits.distinct
  · change List.length _ + pool.batch.length ≤ _
    rw [size]
    exact held.fits.bounded
  · intro busy budget batch issue issues at_
    obtain ⟨claiming,free,short⟩ := held.claiming busy budget batch issue issues at_
    refine ⟨⟨claiming.busy.trans same.symm,?_,claiming.distinct⟩,free,short⟩
    rw [claiming.budget,Pool.budget,Pool.budget]
    simp only [List.length_map]
  · intro at_
    simp [held.restart at_]

/-- A claim that succeeds: the issue is neither in flight nor in the batch, and there is room. -/
theorem fits_claimed {busy : List Nat} {budget : Nat} {batch issues : List Issue} {issue : Issue}
    (fits : Fits config pool batch) (claiming : Claiming config pool busy budget batch (issue :: issues))
    (free : issue.number ∉ busy) (short : batch.length < budget) :
    Fits config { pool with claimed := pool.claimed ++ [issue.number] } (batch ++ [issue]) := by
  obtain ⟨rfl,rfl,distinct⟩ := claiming
  rw [List.map_append,List.map_cons,List.nodup_middle] at distinct
  obtain ⟨outside,_⟩ := List.nodup_cons.mp distinct
  have fresh : issue.number ∉ pool.numbers ++ batch.map (·.number) := by
    intro member
    rcases List.mem_append.mp member with running | waiting
    · exact free running
    · exact outside (List.mem_append_left _ waiting)
  refine ⟨?_,?_,?_⟩
  · change pool.submitted ++ (batch ++ [issue]).map (·.number) = pool.claimed ++ [issue.number]
    rw [List.map_append,← List.append_assoc,fits.submitted]
    rfl
  · change (pool.numbers ++ (batch ++ [issue]).map (·.number)).Nodup
    rw [List.map_append,← List.append_assoc,List.nodup_append_comm]
    exact List.nodup_cons.mpr ⟨fresh,fits.distinct⟩
  · change pool.inflight.length + (batch ++ [issue]).length ≤ _
    simp only [Pool.budget] at short
    simp only [List.length_append,List.length_singleton]
    omega

/-- A submission moves the head of the batch into the pool. -/
theorem fits_submitted {issues : List Issue} {issue : Issue} (fits : Fits config pool (issue :: issues)) :
    Fits config { pool with
      inflight := pool.inflight ++ [⟨pool.submitted.length,issue,false⟩],
      submitted := pool.submitted ++ [issue.number] } issues := by
  refine ⟨?_,?_,?_⟩
  · change pool.submitted ++ [issue.number] ++ issues.map (·.number) = pool.claimed
    rw [← fits.submitted]
    simp
  · have moved := fits.distinct
    rw [List.map_cons,← List.singleton_append,← List.append_assoc] at moved
    simpa [numbers] using moved
  · have bounded := fits.bounded
    simp only [List.length_append,List.length_cons,List.length_nil] at bounded ⊢
    omega

/-- What is so with the batch of a position. -/
theorem Held.batched {position : Position} {batch : List Issue} (held : Held config pool) (at_ : pool.position = position)
    (same : Pool.batch { pool with position } = batch) : Fits config pool batch := by
  subst at_
  exact same ▸ held.fits

theorem Held.quiet {position : Position} (held : Held config pool) (at_ : pool.position = position)
    (none : batch { pool with position } = []) : Fits config pool [] :=
  held.batched at_ none

theorem held_step (action : Action) (pool next : Pool) (stepped : step config drainConfirmations action pool = some next)
    (sound : Sound config pool) : Sound config next := by
  rcases sound with stopped | held
  · cases action
    case finish =>
      cases stepped
      exact .inl stopped
    all_goals simp [step,stopped] at stepped
  unfold step at stepped
  split at stepped
  next =>
    cases stepped
    exact .inr (held_finish held)
  next => contradiction
  next =>
    cases stepped
    exact .inl rfl
  next exceeded at_ =>
    cases stepped
    cases exceeded with
    | true => exact .inl rfl
    | false => exact .inr (held_calm (held.quiet at_ rfl) rfl)
  next unusable at_ =>
    cases stepped
    cases unusable with
    | true => exact .inl rfl
    | false => exact .inr (held_calm (held.quiet at_ rfl) rfl)
  next at_ => exact .inr (held_drop (held.quiet at_ rfl) stepped rfl)
  next pending at_ =>
    cases stepped
    have fits := held.quiet at_ rfl
    cases pending with
    | false => exact .inr (held_calm fits rfl)
    | true =>
      right
      by_cases none : pool.inflight = []
      · simp only [if_true,if_neg (not_not.mpr none)]
        exact ⟨fits.elsewhere,nofun,fun _ => none⟩
      · simp only [if_true,if_pos none]
        exact held_calm fits rfl
  next at_ => exact .inr (held_drop (held.quiet at_ rfl) stepped rfl)
  next =>
    cases stepped
    exact .inl rfl
  next at_ =>
    cases stepped
    have fits := held.quiet at_ rfl
    split
    · exact .inr (held_afterClaims fits)
    · exact .inr (held_calm fits rfl)
  next candidates at_ =>
    split at stepped
    next distinct =>
      cases stepped
      exact .inr (held_claimOn (held.quiet at_ rfl) ⟨rfl,rfl,distinct⟩)
    next => contradiction
  next claimed busy budget batch issue issues at_ =>
    cases stepped
    obtain ⟨claiming,free,short⟩ := held.claiming _ _ _ _ _ at_
    have fits : Fits config pool batch := held.batched at_ rfl
    cases claimed with
    | true =>
      right
      apply held_claimOn (fits_claimed fits claiming free short)
      refine ⟨claiming.busy,claiming.budget,?_⟩
      simpa using claiming.distinct
    | false =>
      right
      apply held_claimOn fits
      refine ⟨claiming.busy,claiming.budget,claiming.distinct.sublist ?_⟩
      exact ((List.Sublist.refl batch).append (List.sublist_cons_self ..)).map _
  next batch at_ =>
    cases stepped
    have fits : Fits config pool batch := held.batched at_ rfl
    exact .inr ⟨fits.elsewhere,nofun,nofun⟩
  next issue issues at_ =>
    cases stepped
    have fits : Fits config pool (issue :: issues) := held.batched at_ rfl
    by_cases last : issues = []
    · subst last
      exact .inr (held_calm (fits_submitted fits) rfl)
    · simp only [if_neg last]
      exact .inr ⟨(fits_submitted fits).elsewhere,nofun,nofun⟩
  next at_ => exact .inr (held_drop (held.quiet at_ rfl) stepped rfl)
  next remaining at_ =>
    have fits := held.quiet at_ rfl
    split at stepped
    · cases stepped
      exact .inr (held_calm fits rfl)
    · cases stepped
      by_cases drained : drainConfirmations ≤ pool.empty + 1
      · exact .inl (if_pos drained)
      · simp only [if_neg drained]
        exact .inr (held_calm fits rfl)
  next at_ =>
    cases stepped
    exact .inr (held_calm (held.quiet at_ rfl) rfl)
  next => contradiction

/-- At the head of the loop the pool is not overfull, no issue is in it twice and all that was
claimed has been submitted, and the new code is started only while nothing is in flight. -/
theorem pool_invariant {actions : List Action} {last : Pool}
    (ran : Machine.run (step config drainConfirmations) actions start = some last) :
    (last.position = .head → last.inflight.length ≤ config.maxParallel ∧ last.numbers.Nodup ∧
      ∀ number ∈ last.claimed, number ∈ last.submitted) ∧
    (last.position = .restart → last.inflight = []) := by
  have sound : Sound config last := Machine.run_invariant held_step ran (.inr held_start)
  constructor
  · intro head
    rcases sound with stopped | held
    · cases head.symm.trans stopped
    have fits := held.quiet head rfl
    refine ⟨fits.bounded,?_,?_⟩
    · simpa using fits.distinct
    · intro number claimed
      rw [← fits.submitted] at claimed
      simpa using claimed
  · intro restart
    rcases sound with stopped | held
    · cases restart.symm.trans stopped
    exact held.restart restart

/-- Two issues are claimed, and the one whose worker has put it back is not claimed again while
its future is registered. -/
theorem pool_invariant_requeued : ∃ last, Machine.run (step .usual 3) [.overWallclock false,.noAgentUsable false,.reap [],
      .selfUpdatePending false,.syncWaiting,.claimable [⟨7,[],[.ready],.opened⟩],.claim true,.diskUsage,.submit,
      .overWallclock false,.noAgentUsable false,.reap [],.selfUpdatePending false,.syncWaiting,
      .claimable [⟨7,[],[.ready],.opened⟩,⟨8,[],[.ready],.opened⟩],.claim true,.diskUsage,.submit,.finish 0] start = some last ∧
    last.position = .head ∧ last.numbers = [7,8] ∧ last.inflight.length ≤ Config.usual.maxParallel ∧ last.numbers.Nodup := by
  have ran : ∃ last, Machine.run (step .usual 3) [.overWallclock false,.noAgentUsable false,.reap [],
      .selfUpdatePending false,.syncWaiting,.claimable [⟨7,[],[.ready],.opened⟩],.claim true,.diskUsage,.submit,
      .overWallclock false,.noAgentUsable false,.reap [],.selfUpdatePending false,.syncWaiting,
      .claimable [⟨7,[],[.ready],.opened⟩,⟨8,[],[.ready],.opened⟩],.claim true,.diskUsage,.submit,.finish 0] start = some last ∧
    last.position = .head ∧ last.numbers = [7,8] := ⟨_,rfl,rfl,rfl⟩
  obtain ⟨last,ran,head,numbers⟩ := ran
  obtain ⟨bounded,distinct,_⟩ := (pool_invariant ran).1 head
  exact ⟨last,ran,head,numbers,bounded,distinct⟩

end Pool
end Frankenrust.Orchestrator
