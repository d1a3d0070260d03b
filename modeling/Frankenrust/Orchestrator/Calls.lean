import Frankenrust.Orchestrator.Loop

/-! Which calls the operations of the queue and the stages of an issue can make at all. A plain
call neither lists or edits issues nor merges, and an inner one does not make or retire a
worktree either; the others are named where a program makes them. -/
namespace Frankenrust.Orchestrator

def Command.plain : Command → Bool
  | .issueList _ _ | .edit _ _ _ | .editBody _ _ | .mergeWorktree => false
  | _ => true

def Command.inner : Command → Bool
  | .makeWorktree | .retireWorktree => false
  | command => command.plain

namespace Calls
open Loop
variable {allowed : Command → Prop} {config : Config} {issue : Issue}

section
variable (inner : ∀ command, command.inner = true → allowed command)
include inner

theorem uses_call {command : Command} (calm : command.inner = true) : (call command).uses allowed :=
  Program.uses_invoke.mpr (inner command calm)

theorem uses_guarded {stage : Stage} : (guarded stage).uses allowed := by
  simp only [guarded,Program.bind_eq,Program.uses_invoke_bind]
  refine ⟨inner _ rfl,?_⟩
  intro _
  exact Program.uses_ensure (uses_call inner rfl) (uses_call inner rfl)

theorem uses_one {reviews : Reviews} {index : Nat} : (one reviews index).uses allowed := by
  apply Program.uses_handle
  · apply Program.uses_handle
    · exact Program.uses_bind (uses_call inner rfl) fun _ => trivial
    · exact Program.uses_bind (uses_call inner rfl) fun _ => trivial
  · exact trivial

theorem uses_runEach {reviews : Reviews} {indices : List Nat} : (runEach reviews indices).uses allowed := by
  induction indices generalizing reviews with
  | nil => exact trivial
  | cons index indices ih => exact Program.uses_bind (uses_one inner) fun _ => ih

theorem uses_runRound {reviews : Reviews} {indices : List Nat} : (runRound reviews indices).uses allowed := by
  apply Program.uses_bind (uses_call inner rfl)
  intro _
  exact Program.uses_ensure (uses_runEach inner) (uses_call inner rfl)

theorem uses_score {reviews : Reviews} : (score reviews).uses allowed := by
  apply Program.uses_bind (uses_call inner rfl)
  intro _
  split
  · exact Program.uses_bind (uses_call inner rfl) fun _ => trivial
  · split
    · exact Program.uses_bind (uses_call inner rfl) fun _ => trivial
    · exact trivial

theorem uses_rounds : (rounds config).uses allowed := by
  apply Program.uses_bind (uses_runRound inner)
  intro reviews
  apply Program.uses_bind (uses_score inner)
  intro outcome
  dsimp only
  split
  · apply Program.uses_bind (uses_runRound inner)
    intro again
    exact Program.uses_bind (uses_score inner) fun _ => trivial
  · exact trivial

theorem uses_reviewStage : (reviewStage config).uses allowed := by
  apply Program.uses_bind (uses_call inner rfl)
  intro diff
  split
  · exact trivial
  · apply Program.uses_bind (uses_call inner rfl)
    intro _
    apply Program.uses_bind (uses_call inner rfl)
    intro _
    exact Program.uses_bind (Program.uses_ensure (uses_rounds inner) (uses_call inner rfl)) fun _ => trivial

theorem uses_close {number : Nat} : (Gh.close number).uses allowed :=
  Program.uses_bind (uses_call inner rfl) fun _ => uses_call inner rfl

theorem uses_merge (merges : allowed .mergeWorktree) : (merge issue).uses allowed := by
  apply Program.uses_bind (Program.uses_invoke.mpr merges)
  intro merged
  split
  · apply Program.uses_bind (uses_close inner)
    intro _
    exact Program.uses_bind (uses_call inner rfl) fun _ => trivial
  · exact trivial

theorem uses_fix {number : Nat} (merges : allowed .mergeWorktree) : (fix config issue number).uses allowed := by
  apply Program.uses_bind (uses_call inner rfl)
  intro _
  apply Program.uses_bind (uses_guarded inner)
  intro _
  apply Program.uses_bind (uses_call inner rfl)
  rintro ⟨rc,tail⟩
  dsimp only
  split
  · exact trivial
  apply Program.uses_bind (uses_reviewStage inner)
  rintro ⟨blocking,verdicts,agents⟩
  dsimp only
  split
  · exact Program.uses_bind (uses_call inner rfl) fun _ => trivial
  apply Program.uses_bind (uses_call inner rfl)
  intro diff
  split
  · exact Program.uses_bind (uses_call inner rfl) fun _ => trivial
  · exact uses_merge inner merges

theorem uses_attempt {number : Nat} (merges : allowed .mergeWorktree) :
    (attempt config issue number).uses allowed := by
  apply Program.uses_bind (uses_guarded inner)
  intro _
  apply Program.uses_bind (uses_call inner rfl)
  rintro ⟨rc,tail⟩
  dsimp only
  split
  · exact Program.uses_bind (uses_call inner rfl) fun _ => trivial
  apply Program.uses_bind (uses_call inner rfl)
  intro diff
  split
  · exact Program.uses_bind (uses_call inner rfl) fun _ => trivial
  apply Program.uses_bind (uses_reviewStage inner)
  rintro ⟨blocking,verdicts,agents⟩
  dsimp only
  split
  · exact uses_fix inner merges
  · exact uses_merge inner merges

theorem uses_block {number : Nat} (blocks : allowed (.edit number [.blocked] [.claimed])) :
    (Gh.block number).uses allowed := by
  apply Program.uses_bind (uses_call inner rfl)
  intro _
  exact Program.uses_bind (Program.uses_invoke.mpr blocks) fun _ => trivial

theorem uses_claim {number : Nat} (claims : allowed (.edit number [.claimed] [.ready])) :
    (Gh.claim number).uses allowed := by
  apply Program.uses_bind (Program.uses_invoke.mpr claims)
  intro edited
  split
  · exact Program.uses_bind (uses_call inner rfl) fun _ => trivial
  · exact trivial

theorem uses_question {number : Nat} (questions : allowed (.edit number [.questioned] [.claimed])) :
    (Gh.question number).uses allowed := by
  apply Program.uses_bind (uses_call inner rfl)
  intro _
  exact Program.uses_bind (Program.uses_invoke.mpr questions) fun _ => trivial

theorem uses_restamp {number : Nat} {key line : Text} (stamps : ∀ body, allowed (.editBody number body)) :
    (Gh.restamp number key line).uses allowed := by
  apply Program.uses_bind (uses_call inner rfl)
  intro read
  cases read with
  | none => exact trivial
  | some body => exact Program.uses_invoke.mpr (stamps _)

theorem uses_requeue {number revision : Nat} (stamps : ∀ body, allowed (.editBody number body))
    (requeues : allowed (.edit number [.ready] [.claimed,.questioned])) : (Gh.requeue number revision).uses allowed := by
  apply Program.uses_bind (uses_restamp inner stamps)
  intro stamped
  split
  · exact Program.uses_invoke.mpr requeues
  · exact trivial

theorem uses_park (questions : allowed (.edit issue.number [.questioned] [.claimed])) :
    (park issue).uses allowed := by
  apply Program.uses_bind (uses_call inner rfl)
  intro _
  exact Program.uses_bind (uses_question inner questions) fun _ => trivial

theorem uses_resolveQuestion (stamps : ∀ body, allowed (.editBody issue.number body))
    (requeues : allowed (.edit issue.number [.ready] [.claimed,.questioned]))
    (questions : allowed (.edit issue.number [.questioned] [.claimed])) :
    (resolveQuestion config issue).uses allowed := by
  unfold resolveQuestion
  split
  · exact trivial
  apply Program.uses_bind (uses_guarded inner)
  intro reply
  split
  · apply Program.uses_bind (uses_call inner rfl)
    intro _
    exact Program.uses_bind (uses_call inner rfl) fun _ => trivial
  · apply Program.uses_bind (uses_close inner)
    intro _
    exact Program.uses_bind (uses_call inner rfl) fun _ => trivial
  · apply Program.uses_bind (uses_requeue inner stamps requeues)
    intro requeued
    split
    · apply Program.uses_bind (uses_call inner rfl)
      intro _
      exact Program.uses_bind (uses_call inner rfl) fun _ => trivial
    · exact Program.uses_bind (uses_call inner rfl) fun _ => uses_park inner questions
  · exact uses_park inner questions

theorem uses_critique (stamps : ∀ body, allowed (.editBody issue.number body))
    (requeues : allowed (.edit issue.number [.ready] [.claimed,.questioned]))
    (questions : allowed (.edit issue.number [.questioned] [.claimed])) : (critique config issue).uses allowed := by
  apply Program.uses_bind (uses_guarded inner)
  intro reply
  split
  · apply Program.uses_bind (uses_call inner rfl)
    intro _
    apply Program.uses_bind (uses_call inner rfl)
    intro _
    exact uses_resolveQuestion inner stamps requeues questions
  · exact trivial

theorem uses_attempts {first left : Nat} (merges : allowed .mergeWorktree)
    (blocks : allowed (.edit issue.number [.blocked] [.claimed])) :
    (attempts config issue first left).uses allowed := by
  induction left generalizing first with
  | zero => exact Program.uses_bind (uses_call inner rfl) fun _ => uses_block inner blocks
  | succ left ih =>
    apply Program.uses_bind (uses_attempt inner merges)
    intro merged
    split
    · exact trivial
    · exact ih

theorem uses_crashed (blocks : allowed (.edit issue.number [.blocked] [.claimed])) :
    (crashed issue).uses allowed :=
  Program.uses_bind (uses_call inner rfl) fun _ => uses_block inner blocks

theorem uses_putBack {recoveries : Nat} (stamps : ∀ body, allowed (.editBody issue.number body))
    (unblocks : allowed (.edit issue.number [.ready] [.blocked,.claimed])) : (putBack issue recoveries).uses allowed := by
  have unblock : (Gh.unblock issue.number (recoveries + 1)).uses allowed := by
    apply Program.uses_bind (uses_restamp inner stamps)
    intro stamped
    split
    · exact Program.uses_invoke.mpr unblocks
    · exact trivial
  apply Program.uses_bind unblock
  intro unblocked
  split
  · apply Program.uses_bind (uses_call inner rfl)
    intro _
    exact Program.uses_bind (uses_call inner rfl) fun _ => trivial
  · exact Program.uses_bind (uses_call inner rfl) fun _ => trivial

theorem uses_rescue {recoveries : Nat} (stamps : ∀ body, allowed (.editBody issue.number body))
    (unblocks : allowed (.edit issue.number [.ready] [.blocked,.claimed])) : (rescue issue recoveries).uses allowed := by
  apply Program.uses_bind (uses_guarded inner)
  intro reply
  unfold carryOut
  split
  · apply Program.uses_bind (uses_close inner)
    intro _
    exact Program.uses_bind (uses_call inner rfl) fun _ => trivial
  · exact uses_putBack inner stamps unblocks
  · exact uses_putBack inner stamps unblocks
  · exact Program.uses_bind (uses_call inner rfl) fun _ => trivial

theorem uses_recover (makes : allowed .makeWorktree) (retires : allowed .retireWorktree)
    (stamps : ∀ body, allowed (.editBody issue.number body))
    (unblocks : allowed (.edit issue.number [.ready] [.blocked,.claimed])) : (recover config issue).uses allowed := by
  unfold recover
  split
  · exact trivial
  split
  · exact Program.uses_bind (uses_call inner rfl) fun _ => trivial
  apply Program.uses_bind (Program.uses_invoke.mpr makes)
  intro made
  split
  · apply Program.uses_ensure _ (Program.uses_invoke.mpr retires)
    apply Program.uses_handle (uses_rescue inner stamps unblocks)
    exact Program.uses_bind (uses_call inner rfl) fun _ => trivial
  · exact Program.uses_bind (uses_call inner rfl) fun _ => trivial

section
variable (lists : ∀ label state, allowed (.issueList label state))
include lists

omit inner in
theorem uses_fetch {label : Option Label} {state : IssueState} : (Gh.fetch label state).uses allowed :=
  Program.uses_bind (Program.uses_invoke.mpr (lists label state)) fun _ => trivial

omit inner in
theorem uses_closedNumbers : Gh.closedNumbers.uses allowed :=
  Program.uses_bind (uses_fetch lists) fun _ => trivial

omit inner in
theorem uses_syncWaiting {isWord : Char → Bool} (waits : ∀ number, allowed (.edit number [.waiting] []))
    (resumes : ∀ number, allowed (.edit number [] [.waiting])) : (Gh.syncWaiting isWord).uses allowed := by
  have one (done : List Nat) (issue : Issue) : (Gh.syncIssue isWord done issue).uses allowed := by
    unfold Gh.syncIssue
    split
    · exact trivial
    split
    · exact Program.uses_bind (Program.uses_invoke.mpr (waits _)) fun _ => trivial
    split
    · exact Program.uses_bind (Program.uses_invoke.mpr (resumes _)) fun _ => trivial
    · exact trivial
  apply Program.uses_bind (uses_closedNumbers lists)
  intro done
  apply Program.uses_bind (uses_fetch lists)
  intro issues
  induction issues with
  | nil => exact trivial
  | cons issue issues ih => exact Program.uses_bind (one done issue) fun _ => ih

omit inner in
theorem uses_claimable {isWord : Char → Bool} : (Gh.claimable isWord).uses allowed := by
  apply Program.uses_bind (uses_closedNumbers lists)
  intro done
  apply Program.uses_bind (uses_fetch lists)
  intro fetched
  split
  · exact trivial
  apply Program.uses_bind (uses_fetch lists)
  intro waiting
  split <;> exact trivial

omit inner in
theorem uses_blockedNeedingRecovery {isWord : Char → Bool} : (Gh.blockedNeedingRecovery isWord).uses allowed := by
  apply Program.uses_bind
  · apply Program.uses_bind (uses_fetch lists)
    intro issues
    split <;> exact trivial
  intro waitingOn
  apply Program.uses_bind (uses_closedNumbers lists)
  intro done
  exact Program.uses_bind (uses_fetch lists) fun _ => trivial

theorem uses_reclaim (releases : ∀ number, allowed (.edit number [.ready] [.claimed])) : reclaim.uses allowed := by
  apply Program.uses_bind (uses_fetch lists)
  intro issues
  induction issues with
  | nil => exact trivial
  | cons issue issues ih =>
    apply Program.uses_bind
    · exact Program.uses_bind (Program.uses_invoke.mpr (releases _)) fun _ => trivial
    intro _
    exact Program.uses_bind (uses_call inner rfl) fun _ => ih

omit lists in
theorem uses_claimEach {busy : List Nat} {budget : Nat} {issues : List Issue}
    (claims : ∀ number, allowed (.edit number [.claimed] [.ready])) : (claimEach busy budget issues).uses allowed := by
  induction issues generalizing budget with
  | nil => exact trivial
  | cons issue issues ih =>
    cases budget with
    | zero => exact trivial
    | succ budget =>
      unfold claimEach
      split
      · exact ih
      apply Program.uses_bind (uses_claim inner (claims _))
      intro claimed
      split
      · exact Program.uses_bind ih fun _ => trivial
      · exact ih

theorem uses_claimBatch {busy : List Nat} {budget : Nat} (waits : ∀ number, allowed (.edit number [.waiting] []))
    (resumes : ∀ number, allowed (.edit number [] [.waiting]))
    (claims : ∀ number, allowed (.edit number [.claimed] [.ready])) : (claimBatch config busy budget).uses allowed := by
  apply Program.uses_bind (uses_syncWaiting lists waits resumes)
  intro _
  split
  · exact trivial
  exact Program.uses_bind (uses_claimable lists) fun _ => uses_claimEach inner claims

theorem uses_unblockPass (makes : allowed .makeWorktree) (retires : allowed .retireWorktree)
    (waits : ∀ number, allowed (.edit number [.waiting] []))
    (resumes : ∀ number, allowed (.edit number [] [.waiting])) (stamps : ∀ number body, allowed (.editBody number body))
    (unblocks : ∀ number, allowed (.edit number [.ready] [.blocked,.claimed])) : (unblockPass config).uses allowed := by
  have each (issues : List Issue) : (recoverEach config issues).uses allowed := by
    induction issues with
    | nil => exact trivial
    | cons issue issues ih =>
      apply Program.uses_bind (uses_call inner rfl)
      intro exceeded
      split
      · exact trivial
      apply Program.uses_bind (uses_recover inner makes retires (stamps _) (unblocks _))
      intro recovered
      exact Program.uses_bind ih fun _ => trivial
  apply Program.uses_bind
  · apply Program.uses_bind (uses_call inner rfl)
    intro unusable
    split
    · exact trivial
    exact Program.uses_bind (uses_blockedNeedingRecovery lists) fun _ => each _
  intro _
  exact uses_syncWaiting lists waits resumes

end

end

end Calls
end Frankenrust.Orchestrator
