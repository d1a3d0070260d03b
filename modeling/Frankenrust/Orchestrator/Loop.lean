import Frankenrust.Orchestrator.Gh

/-! The stages of one issue and the steps of the two lanes, `loop.py`. -/
namespace Frankenrust.Orchestrator

/-- `MAX_PARALLEL`, `MAX_ATTEMPTS`, `MAX_REVISIONS`, `MAX_RECOVERIES` and the roster of
reviewers, whose keys are distinct; `isWord` is what `\w` matches. -/
structure Config where
  maxParallel : Nat
  maxAttempts : Nat
  maxRevisions : Nat
  maxRecoveries : Nat
  reviewerAgents : List Nat
  distinct : reviewerAgents.Nodup
  isWord : Char → Bool

/-- The limits where nothing in the environment sets them, with two reviewers. -/
def Config.usual : Config := ⟨3,3,2,2,[0,1],by decide,fun char => char.isAlphanum⟩

/-- Calls that succeed, with agents that say the text. -/
def smooth (made : Bool) (text : Text) : (command : Command) → Option (Answer command)
  | .issueList _ _ => some (some [])
  | .viewLabels _ => some (some [])
  | .viewBody _ => some (some [])
  | .edit _ _ _ | .editBody _ _ | .mergeWorktree => some true
  | .makeWorktree => some made
  | .overWallclock | .noAgentUsable => some false
  | .snapshotWorktree | .worktreeDiff => some []
  | .invoke _ => some ⟨none,0,text⟩
  | .gate => some (0,[])
  | .comment _ | .close _ | .record _ | .retireWorktree | .restoreWorktree _ | .writePatch _ => some ()
  | .guardEnter | .guardExit => some ()

namespace Loop

inductive Verdict
  | block
  | pass
  | silent
  deriving DecidableEq

def verdictOf (text : Text) : Verdict :=
  if contains "VERDICT: BLOCK".toList text then .block
  else if contains "VERDICT: PASS".toList text then .pass
  else .silent

def silentReview : Text :=
  "No reviewer produced a verdict. Every reviewer run failed, timed out, or ".toList ++
    "returned unreadable output, so this diff has not been reviewed by anything. ".toList ++
    "This is a harness failure rather than a finding against your work; the diff ".toList ++
    "is unchanged and the review will be retried.".toList

def finding (result : Nat × Text) : Text :=
  "## Reviewer ".toList ++ decimalText result.1 ++ "\n".toList ++ lastChars 8000 result.2

/-- What the reviewers said: the text that blocks, if any, and every verdict. -/
def reviewOutcome (results : List (Nat × Text)) : Option Text × List (Nat × Verdict) :=
  let ordered := results.insertionSort fun first second => first.1 ≤ second.1
  let verdicts := ordered.map fun result => (result.1,verdictOf result.2)
  let blocked := ordered.filter fun result => verdictOf result.2 = .block
  if blocked ≠ [] then (some ("\n\n".toList.intercalate (blocked.map finding)),verdicts)
  else if ¬∃ verdict ∈ verdicts, verdict.2 = .pass then (some silentReview,verdicts)
  else (none,verdicts)

/-- `if blocking:`. -/
def truthy (text : Option Text) : Bool := text.any (· ≠ [])

/-- An agent in the bracket that reverts its stray writes. -/
def guarded (stage : Stage) : Work Reply := do
  call .guardEnter
  (call (.invoke stage)).ensure (call .guardExit)

/-- The outputs of the reviewers and the agents that gave them. -/
structure Reviews where
  results : List (Nat × Text)
  agents : List (Nat × Option Text)

def Reviews.start (config : Config) : Reviews := ⟨config.reviewerAgents.map fun index => (index,[]),[]⟩

def Reviews.put (reviews : Reviews) (index : Nat) (reply : Reply) : Reviews where
  results := reviews.results.map fun result => if result.1 = index then (index,reply.text) else result
  agents := (index,reply.agent) :: reviews.agents.filter fun agent => agent.1 ≠ index

/-- One reviewer thread; what it raises ends the thread alone. -/
def one (reviews : Reviews) (index : Nat) : Work Reviews :=
  ((do
    let reply ← call (.invoke (.reviewer index))
    pure (reviews.put index reply)).handle do
      call (.record "agent_error")
      pure reviews).handle (pure reviews)

/-- The threads share nothing but their own entries, so they are run one by one. -/
def runEach (reviews : Reviews) : List Nat → Work Reviews
  | [] => pure reviews
  | index :: indices => do
    let reviews ← one reviews index
    runEach reviews indices

def runRound (reviews : Reviews) (indices : List Nat) : Work Reviews := do
  let snapshot ← call .snapshotWorktree
  (runEach reviews indices).ensure (call (.restoreWorktree snapshot))

def score (reviews : Reviews) : Work (Option Text × List (Nat × Verdict)) := do
  let outcome := reviewOutcome reviews.results
  call (.record "review_verdicts")
  if truthy outcome.1 ∧ ¬∃ verdict ∈ outcome.2, verdict.2 = .block then
    call (.record "review_silent")
  else if ¬truthy outcome.1 ∧ ∃ verdict ∈ outcome.2, verdict.2 = .silent then
    call (.record "review_incomplete")
  pure outcome

/-- A round of all reviewers and, where none blocked, one more for those that were silent. -/
def rounds (config : Config) : Work (Option Text × List (Nat × Verdict) × Reviews) := do
  let reviews ← runRound (Reviews.start config) config.reviewerAgents
  let outcome ← score reviews
  let silent := config.reviewerAgents.filter fun index => outcome.2.lookup index = some .silent
  if silent ≠ [] ∧ ¬∃ verdict ∈ outcome.2, verdict.2 = .block then do
    let again ← runRound reviews silent
    let outcome ← score again
    pure (outcome.1,outcome.2,again)
  else pure (outcome.1,outcome.2,reviews)

/-- The blocking text, the verdicts and the agents that gave them; nothing is reviewed where
the diff is empty. -/
def reviewStage (config : Config) : Work (Option Text × List (Nat × Verdict) × List (Nat × Option Text)) := do
  let diff ← call .worktreeDiff
  if strip diff = [] then pure (none,[],[])
  else do
    call (.writePatch (if diff.getLast? = some '\n' then diff else diff ++ "\n".toList))
    call .guardEnter
    let (blocking,verdicts,reviews) ← (rounds config).ensure (call .guardExit)
    pure (blocking,verdicts,reviews.agents)

/-- What the resolver decided, read in the order of the source. -/
inductive Resolution
  | proceed
  | close
  | rewrite
  | none
  deriving DecidableEq

def resolution (config : Config) (rounds : Nat) (out : Text) : Resolution :=
  if contains "RESOLUTION: PROCEED".toList out then .proceed
  else if contains "RESOLUTION: CLOSE".toList out then .close
  else if contains "RESOLUTION: REWRITE".toList out ∧ rounds < config.maxRevisions then .rewrite
  else .none

/-- No usable decision: the issue is parked. -/
def park (issue : Issue) : Work Bool := do
  call (.record "resolve_failed")
  Gh.question issue.number
  pure false

/-- `True` to implement anyway. -/
def resolveQuestion (config : Config) (issue : Issue) : Work Bool :=
  match issue.revisions with
  | none => Program.raise
  | some rounds => do
    let reply ← guarded (.resolver rounds)
    match resolution config rounds reply.text with
    | .proceed => do
      Gh.comment issue.number
      call (.record "resolved")
      pure true
    | .close => do
      Gh.close issue.number
      call (.record "resolved")
      pure false
    | .rewrite => do
      let requeued ← Gh.requeue issue.number (rounds + 1)
      if requeued then do
        Gh.comment issue.number
        call (.record "resolved")
        pure false
      else do
        call (.record "resolve_failed")
        park issue
    | .none => park issue

/-- `True` where the critic, or the resolver over its objection, lets the issue be built. -/
def critique (config : Config) (issue : Issue) : Work Bool := do
  let reply ← guarded .critic
  if contains "VERDICT: REVISE".toList reply.text then do
    call (.record "critic_revise")
    Gh.comment issue.number
    resolveQuestion config issue
  else pure true

def merge (issue : Issue) : Work Bool := do
  let merged ← call .mergeWorktree
  if merged then do
    Gh.close issue.number
    call (.record "merged")
    pure true
  else pure false

/-- The fix stage after a blocking review; `True` where the issue was merged. -/
def fix (config : Config) (issue : Issue) (attempt : Nat) : Work Bool := do
  call (.record "review_block")
  let _ ← guarded (.fixer attempt)
  let (rc,_) ← call .gate
  if rc ≠ 0 then pure false
  else do
    let (stillBlocking,_,_) ← reviewStage config
    if truthy stillBlocking then do
      call (.record "review_block")
      pure false
    else do
      let diff ← call .worktreeDiff
      if strip diff = [] then do
        call (.record "empty_diff")
        pure false
      else merge issue

/-- One round of the attempt loop; `True` where the issue was merged. -/
def attempt (config : Config) (issue : Issue) (attempt : Nat) : Work Bool := do
  let _ ← guarded (.implementer attempt)
  let (rc,_) ← call .gate
  if rc ≠ 0 then do
    call (.record "gate_fail")
    pure false
  else do
    let diff ← call .worktreeDiff
    if strip diff = [] then do
      call (.record "empty_diff")
      pure false
    else do
      let (blocking,_,_) ← reviewStage config
      if truthy blocking then fix config issue attempt else merge issue

/-- The attempts from `first` on, as many as are left. -/
def attempts (config : Config) (issue : Issue) (first : Nat) : Nat → Work Unit
  | 0 => do
    call (.record "blocked")
    Gh.block issue.number
  | left + 1 => do
    let merged ← attempt config issue first
    if merged then pure () else attempts config issue (first + 1) left

/-- `_work`. -/
def workStages (config : Config) (issue : Issue) : Work Unit := do
  let snapshot ← call .snapshotWorktree
  let build ← (critique config issue).ensure (call (.restoreWorktree snapshot))
  if build then attempts config issue 1 config.maxAttempts else pure ()

def crashed (issue : Issue) : Work Unit := do
  call (.record "work_crash")
  Gh.block issue.number

def work (config : Config) (issue : Issue) : Work Unit := do
  let made ← call .makeWorktree
  if made then ((workStages config issue).handle (crashed issue)).ensure (call .retireWorktree)
  else Gh.block issue.number

/-- What the unblocker decided. -/
inductive Recovery
  | close
  | split
  | requeue
  | none
  deriving DecidableEq

def recovery (out : Text) : Recovery :=
  if contains "RECOVERY: CLOSE".toList out then .close
  else if contains "RECOVERY: SPLIT".toList out then .split
  else if contains "RECOVERY: REQUEUE".toList out then .requeue
  else .none

/-- The decisions to split and to requeue alike put the issue back to the queue. -/
def putBack (issue : Issue) (recoveries : Nat) : Work Bool := do
  let unblocked ← Gh.unblock issue.number (recoveries + 1)
  if unblocked then do
    Gh.comment issue.number
    call (.record "recovered")
    pure true
  else do
    call (.record "recover_failed")
    pure false

/-- What follows the decision; `True` where the issue went back to the queue. -/
def carryOut (issue : Issue) (recoveries : Nat) : Recovery → Work Bool
  | .close => do
    Gh.close issue.number
    call (.record "recovered")
    pure false
  | .split | .requeue => putBack issue recoveries
  | .none => do
    call (.record "recover_failed")
    pure false

def rescue (issue : Issue) (recoveries : Nat) : Work Bool := do
  let reply ← guarded (.unblocker recoveries)
  carryOut issue recoveries (recovery reply.text)

/-- One issue of `recover_blocked`; `issue.recoveries` stands outside its `try`. -/
def recover (config : Config) (issue : Issue) : Work Bool :=
  match issue.recoveries with
  | none => Program.raise
  | some recoveries =>
    if config.maxRecoveries ≤ recoveries then do
      call (.record "recovery_exhausted")
      pure false
    else do
      let made ← call .makeWorktree
      if made then ((rescue issue recoveries).handle do
        call (.record "recover_failed")
        pure false).ensure (call .retireWorktree)
      else do
        call (.record "recover_failed")
        pure false

def recoverEach (config : Config) : List Issue → Work Nat
  | [] => pure 0
  | issue :: issues => do
    let exceeded ← call .overWallclock
    if exceeded then pure 0
    else do
      let recovered ← recover config issue
      let rest ← recoverEach config issues
      pure (rest + if recovered then 1 else 0)

/-- One walk over the blocked queue. -/
def recoverBlocked (config : Config) : Work Nat := do
  let none ← call .noAgentUsable
  if none then pure 0
  else do
    let blocked ← Gh.blockedNeedingRecovery config.isWord
    recoverEach config (blocked.map (·.1))

/-- A pass of the recovery lane. -/
def unblockPass (config : Config) : Work Unit := do
  let _ ← recoverBlocked config
  Gh.syncWaiting config.isWord

def releaseEach : List Issue → Work Unit
  | [] => pure ()
  | issue :: issues => do
    Gh.release issue.number
    call (.record "reclaimed")
    releaseEach issues

/-- The start of `cmd_run`: what is still claimed is residue. -/
def reclaim : Work Unit := do
  let claimed ← Gh.fetch (some .claimed) .opened
  releaseEach claimed

def claimEach (busy : List Nat) : Nat → List Issue → Work (List Issue)
  | _, [] => pure []
  | 0, _ :: _ => pure []
  | budget + 1, issue :: issues =>
    if issue.number ∈ busy then claimEach busy (budget + 1) issues
    else do
      let claimed ← Gh.claim issue.number
      if claimed then do
        let rest ← claimEach busy budget issues
        pure (issue :: rest)
      else claimEach busy (budget + 1) issues

/-- The claiming part of one poll of `cmd_run`, with the issues in flight and the budget. -/
def claimBatch (config : Config) (busy : List Nat) (budget : Nat) : Work (List Issue) := do
  Gh.syncWaiting config.isWord
  if budget = 0 then pure []
  else do
    let candidates ← Gh.claimable config.isWord
    claimEach busy budget candidates

end Loop
end Frankenrust.Orchestrator
