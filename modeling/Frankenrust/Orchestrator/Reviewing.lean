import Frankenrust.Orchestrator.Snapshot

/-! What `_work` merges, with its worktree kept by git: the tree that was staged when the gate
passed and that was shown to the reviewers, whatever critics and reviewers do to the files. -/
namespace Frankenrust.Orchestrator.Snapshot
open Loop

variable {Path Entry α β : Type} {objects : Objects Path Entry} {now : Bench Path Entry} {config : Config} {issue : Issue}

/-- The calls of the level above, with the three that git carries out as one step each. -/
def coarse (objects : Objects Path Entry) : Program.Contract Command Answer (Bench Path Entry) where
  guard command now := command = .mergeWorktree → now.Good → Shown objects now
  after command now answer later :=
    match command with
    | .snapshotWorktree => Snapshots objects now answer later
    | .restoreWorktree tree => Restores objects tree now answer later
    | .worktreeDiff => Diffs objects now answer later
    | command => does objects (.queue command) now answer later

theorem carry_meets (command : Command) (now : Bench Path Entry) (permitted : (coarse objects).guard command now) :
    (carry command).wp (tooling objects) (fun answer later => (coarse objects).after command now answer later) now := by
  cases command
  case snapshotWorktree => exact wp_snapshotWorktree
  case restoreWorktree => exact wp_restoreWorktree
  case worktreeDiff => exact wp_worktreeDiff
  case mergeWorktree => exact ⟨fun _ => permitted rfl,fun _ _ => id⟩
  all_goals exact ⟨nofun,fun _ _ => id⟩

/-- Calls that leave what is known of the gate and the diff. -/
def scratch : Command → Bool
  | .gate | .mergeWorktree | .invoke (.implementer _) | .invoke (.fixer _) => false
  | .snapshotWorktree | .restoreWorktree _ | .worktreeDiff => false
  | _ => true

/-- Calls that leave the worktree as well. -/
def idle : Command → Bool
  | .invoke _ => false
  | command => scratch command

theorem does_scratch {command : Command} {answer : Option (Answer command)} {later : Bench Path Entry}
    (within : scratch command = true) (did : (coarse objects).after command now answer later) : Since now later := by
  match command with
  | .record event =>
    cases did
    exact ⟨rfl,rfl,fun good => ⟨good.1,(Bool.or_eq_false_iff.mp good.2).1⟩⟩
  | .invoke .critic | .invoke (.resolver _) | .invoke (.reviewer _) | .invoke (.unblocker _) =>
    obtain ⟨calm,reported,gated,shown⟩ := did
    exact ⟨gated,shown,fun good => ⟨calm ▸ good.1,reported ▸ good.2⟩⟩
  | .issueList _ _ | .viewLabels _ | .viewBody _ | .edit _ _ _ | .editBody _ _ | .comment _ | .close _ | .overWallclock
  | .noAgentUsable | .makeWorktree | .retireWorktree | .writePatch _ | .guardEnter | .guardExit =>
    cases did
    exact ⟨rfl,rfl,id⟩

theorem does_idle {command : Command} {answer : Option (Answer command)} {later : Bench Path Entry}
    (within : idle command = true) (did : (coarse objects).after command now answer later) :
    later.toWorkingCopy = now.toWorkingCopy := by
  match command with
  | .record event => cases did; rfl
  | .issueList _ _ | .viewLabels _ | .viewBody _ | .edit _ _ _ | .editBody _ _ | .comment _ | .close _ | .overWallclock
  | .noAgentUsable | .makeWorktree | .retireWorktree | .writePatch _ | .guardEnter | .guardExit => cases did; rfl

/-- After the calls that return. -/
def Returned (held : Bench Path Entry → Prop) (outcome : Option α) (later : Bench Path Entry) : Prop :=
  outcome.isSome = true → held later

theorem wp_scratch {program : Work α} (inside : program.uses fun command => scratch command = true) :
    program.wp (coarse objects) (fun _ later => Since now later) now := by
  apply Program.wp_of_uses inside _ ⟨rfl,rfl,id⟩
  intro command middle within since
  refine ⟨?_,fun answer later did => since.trans (does_scratch within did)⟩
  rintro rfl
  contradiction

/-- Between a snapshot and its restoring nothing that is done to the files counts. -/
theorem wp_bracket {body : Work α} (inside : body.uses fun command => scratch command = true) :
    ((call .snapshotWorktree).bind fun tree => body.ensure (call (.restoreWorktree tree))).wp (coarse objects)
      (fun outcome later => Since now later ∧ (outcome.isSome = true → later.Good →
        objects.staged later.toWorkingCopy = objects.staged now.toWorkingCopy)) now := by
  rw [Program.wp_bind]
  refine ⟨nofun,?_⟩
  rintro (_ | tree) first ⟨since,taken⟩
  · exact ⟨since,nofun⟩
  change (body.ensure (call (.restoreWorktree tree))).wp (coarse objects) _ first
  rw [Program.wp_ensure]
  apply Program.wp_mono _ (wp_scratch inside)
  intro outcome second further
  rw [Program.wp_bind]
  refine ⟨nofun,?_⟩
  rintro answer last ⟨restored,verified⟩
  have whole := since.trans (further.trans restored)
  cases answer with
  | none => exact ⟨whole,nofun⟩
  | some =>
    refine ⟨whole,fun _ good => ?_⟩
    obtain ⟨_,named⟩ := taken tree rfl (further.good (restored.good good))
    have same := verified rfl good (named ▸ objects.named _)
    exact objects.distinct (same.trans named)

section Scratch

theorem scratch_call {command : Command} (within : scratch command = true) :
    (call command).uses fun command => scratch command = true := Program.uses_invoke.mpr within

theorem scratch_record {event : String} {value : α} :
    ((call (.record event)).bind fun _ => (pure value : Work α)).uses fun command => scratch command = true :=
  Program.uses_bind (scratch_call rfl) fun _ => trivial

theorem scratch_runEach {reviews : Reviews} {indices : List Nat} :
    (runEach reviews indices).uses fun command => scratch command = true := by
  induction indices generalizing reviews with
  | nil => exact trivial
  | cons index indices ih =>
    refine Program.uses_bind (Program.uses_handle (Program.uses_handle ?_ scratch_record) trivial) fun _ => ih
    exact Program.uses_bind (scratch_call rfl) fun _ => trivial

theorem scratch_guarded {stage : Stage} (within : scratch (.invoke stage) = true) :
    (guarded stage).uses fun command => scratch command = true :=
  Program.uses_bind (scratch_call rfl) fun _ => Program.uses_ensure (scratch_call within) (scratch_call rfl)

theorem scratch_edited {add remove : List Label} {number : Nat} :
    ((Gh.comment number).bind fun _ => (call (.edit number add remove)).bind fun _ => (pure () : Work Unit)).uses fun command =>
      scratch command = true :=
  Program.uses_bind (scratch_call rfl) fun _ => Program.uses_bind (scratch_call rfl) fun _ => trivial

theorem scratch_park : (park issue).uses fun command => scratch command = true :=
  Program.uses_bind (scratch_call rfl) fun _ => Program.uses_bind scratch_edited fun _ => trivial

theorem scratch_restamp {number : Nat} {key line : Text} :
    (Gh.restamp number key line).uses fun command => scratch command = true := by
  apply Program.uses_bind (scratch_call rfl)
  intro read
  cases read with
  | none => exact trivial
  | some body => exact scratch_call rfl

theorem scratch_requeue {number revision : Nat} : (Gh.requeue number revision).uses fun command => scratch command = true := by
  apply Program.uses_bind scratch_restamp
  intro stamped
  split
  next => exact scratch_call rfl
  next => exact trivial

theorem scratch_critique : (critique config issue).uses fun command => scratch command = true := by
  apply Program.uses_bind (scratch_guarded rfl)
  intro reply
  split
  next =>
    refine Program.uses_bind (scratch_call rfl) fun _ => Program.uses_bind (scratch_call rfl) fun _ => ?_
    rw [resolveQuestion]
    cases issue.revisions with
    | none => exact trivial
    | some rounds =>
      apply Program.uses_bind (scratch_guarded rfl)
      intro reply
      cases resolution config rounds reply.text with
      | proceed => exact Program.uses_bind (scratch_call rfl) fun _ => scratch_record
      | close =>
        exact Program.uses_bind (Program.uses_bind (scratch_call rfl) fun _ => scratch_call rfl) fun _ => scratch_record
      | rewrite =>
        apply Program.uses_bind scratch_requeue
        intro requeued
        split
        next => exact Program.uses_bind (scratch_call rfl) fun _ => scratch_record
        next => exact Program.uses_bind (scratch_call rfl) fun _ => scratch_park
      | none => exact scratch_park
  next => exact trivial

end Scratch

section Stages

/-- As long as nothing has failed unseen. -/
def Tests (objects : Objects Path Entry) (bench : Bench Path Entry) : Prop := bench.Good → Tested objects bench

def Shows (objects : Objects Path Entry) (bench : Bench Path Entry) : Prop := bench.Good → Shown objects bench

theorem Shows.tests (shows : Shows objects now) : Tests objects now := fun good => (shows good).1

theorem shows_kept {later : Bench Path Entry} (shows : Shows objects now) (since : Since now later)
    (same : later.Good → objects.staged later.toWorkingCopy = objects.staged now.toWorkingCopy) : Shows objects later := by
  intro good
  obtain ⟨gated,shown⟩ := shows (since.good good)
  refine ⟨?_,?_⟩
  · rw [Tested,since.gated,same good]
    exact gated
  · rw [since.shown,same good]
    exact shown

theorem wp_then {program : Work α} {rest : α → Work β} {held : α → Bench Path Entry → Prop}
    {post : β → Bench Path Entry → Prop}
    (first : program.wp (coarse objects) (fun outcome later => ∀ value ∈ outcome, held value later) now)
    (each : ∀ value later, held value later →
      (rest value).wp (coarse objects) (fun outcome later => ∀ value ∈ outcome, post value later) later) :
    (program.bind rest).wp (coarse objects) (fun outcome later => ∀ value ∈ outcome, post value later) now := by
  rw [Program.wp_bind]
  apply Program.wp_mono _ first
  rintro (_ | value) later here
  · exact nofun
  · exact each value later (here value rfl)

theorem wp_idle {command : Command} {rest : Answer command → Work β} {post : β → Bench Path Entry → Prop}
    (within : idle command = true) (shows : Shows objects now)
    (each : ∀ value later, Shows objects later →
      (rest value).wp (coarse objects) (fun outcome later => ∀ value ∈ outcome, post value later) later) :
    ((call command).bind rest).wp (coarse objects) (fun outcome later => ∀ value ∈ outcome, post value later) now := by
  rw [Program.wp_bind]
  refine ⟨by rintro rfl; contradiction,?_⟩
  have inside : scratch command = true := by
    cases command
    case invoke => contradiction
    all_goals exact within
  rintro (_ | value) later did
  · exact nofun
  · exact each value later (shows_kept shows (does_scratch inside did) fun _ => by rw [does_idle within did])

theorem wp_diff {rest : Text → Work β} {post : β → Bench Path Entry → Prop} (tests : Tests objects now)
    (each : ∀ diff later, Shows objects later →
      (rest diff).wp (coarse objects) (fun outcome later => ∀ value ∈ outcome, post value later) later) :
    ((call .worktreeDiff).bind rest).wp (coarse objects) (fun outcome later => ∀ value ∈ outcome, post value later) now := by
  rw [Program.wp_bind]
  refine ⟨nofun,?_⟩
  rintro (_ | diff) later ⟨gated,kept,taken⟩
  · exact nofun
  apply each diff later
  intro good
  obtain ⟨same,shown⟩ := taken rfl good
  refine ⟨?_,?_⟩
  · rw [Tested,gated,same]
    exact tests (kept good)
  · rw [same]
    exact shown

theorem wp_runRound {reviews : Reviews} {indices : List Nat} (shows : Shows objects now) :
    (runRound reviews indices).wp (coarse objects) (fun outcome later => ∀ reviews ∈ outcome, Shows objects later) now := by
  apply Program.wp_mono _ (wp_bracket scratch_runEach)
  rintro outcome later ⟨since,same⟩ value ⟨⟩
  exact shows_kept shows since (same rfl)

theorem wp_score {reviews : Reviews} (shows : Shows objects now) :
    (score reviews).wp (coarse objects) (fun outcome later => ∀ scored ∈ outcome, Shows objects later) now := by
  apply wp_idle rfl shows
  intro _ later shows
  have ends {scored : Option Text × List (Nat × Verdict)} {later : Bench Path Entry} (shows : Shows objects later) :
      ∀ value ∈ some scored, Shows objects later := fun _ _ => shows
  split
  · exact wp_idle rfl shows fun _ _ => ends
  · split
    · exact wp_idle rfl shows fun _ _ => ends
    · exact ends shows

theorem wp_rounds (shows : Shows objects now) :
    (rounds config).wp (coarse objects) (fun outcome later => ∀ value ∈ outcome, Shows objects later) now := by
  apply wp_then (wp_runRound shows)
  intro reviews later shows
  apply wp_then (wp_score shows)
  intro outcome later shows
  dsimp only
  split
  · apply wp_then (wp_runRound shows)
    intro again later shows
    apply wp_then (wp_score shows)
    exact fun _ _ shows _ _ => shows
  · exact fun _ _ => shows

theorem wp_reviewStage (tests : Tests objects now) :
    (reviewStage config).wp (coarse objects) (fun outcome later => ∀ value ∈ outcome, Shows objects later) now := by
  apply wp_diff tests
  intro diff later shows
  split
  · exact fun _ _ => shows
  apply wp_idle rfl shows
  intro _ later shows
  apply wp_idle rfl shows
  intro _ later shows
  have guarded : ((rounds config).ensure (call .guardExit)).wp (coarse objects)
      (fun outcome later => ∀ value ∈ outcome, Shows objects later) later := by
    rw [Program.wp_ensure]
    apply Program.wp_mono _ (wp_rounds shows)
    intro outcome later shows
    cases outcome with
    | none =>
      refine ⟨nofun,?_⟩
      rintro (_ | _) last did
      · exact nofun
      · exact nofun
    | some value =>
      exact wp_idle rfl (shows value rfl) fun _ _ shows _ _ => shows
  apply wp_then guarded
  exact fun _ _ shows _ _ => shows

/-- Calls that do not merge may leave anything. -/
theorem wp_free {program : Work α} (inside : program.uses (· ≠ .mergeWorktree)) :
    program.wp (coarse objects) (fun outcome _ => ∀ value ∈ outcome, True) now := by
  have free : program.wp (coarse objects) (fun _ _ => True) now :=
    Program.wp_of_uses inside (fun _ _ other _ => ⟨fun merges => absurd merges other,fun _ _ _ => trivial⟩) trivial
  exact Program.wp_mono (fun _ _ _ _ _ => trivial) free

theorem free_call {command : Command} (other : command ≠ .mergeWorktree) : (call command).uses (· ≠ .mergeWorktree) :=
  Program.uses_invoke.mpr other

theorem free_guarded {stage : Stage} : (guarded stage).uses (· ≠ .mergeWorktree) :=
  Program.uses_bind (free_call nofun) fun _ => Program.uses_ensure (free_call nofun) (free_call nofun)

theorem wp_gate {rest : Int × Text → Work β} {post : β → Bench Path Entry → Prop}
    (each : ∀ rc tail later, (rc = 0 → Tests objects later) →
      (rest (rc,tail)).wp (coarse objects) (fun outcome later => ∀ value ∈ outcome, post value later) later) :
    ((call .gate).bind rest).wp (coarse objects) (fun outcome later => ∀ value ∈ outcome, post value later) now := by
  rw [Program.wp_bind]
  refine ⟨nofun,?_⟩
  rintro (_ | ⟨rc,tail⟩) later ⟨_,_,_,gated⟩
  · exact nofun
  apply each rc tail later
  rintro rfl good
  simpa [Tested] using gated

abbrev Anything (_ : α) (_ : Bench Path Entry) : Prop := True

theorem wp_ends {program : Work α} (inside : program.uses (· ≠ .mergeWorktree)) :
    program.wp (coarse objects) (fun outcome later => ∀ value ∈ outcome, Anything value later) now := wp_free inside

theorem free_record {event : String} {value : α} :
    ((call (.record event)).bind fun _ => (pure value : Work α)).uses (· ≠ .mergeWorktree) :=
  Program.uses_bind (free_call nofun) fun _ => trivial

theorem wp_merge (shows : Shows objects now) :
    (merge issue).wp (coarse objects) (fun outcome later => ∀ value ∈ outcome, Anything value later) now := by
  rw [merge,Program.bind_eq,Program.wp_bind]
  refine ⟨fun _ good => shows good,?_⟩
  rintro (_ | merged) later _
  · exact nofun
  apply wp_ends
  cases merged with
  | true => exact Program.uses_bind (Program.uses_bind (free_call nofun) fun _ => free_call nofun) fun _ => free_record
  | false => exact trivial

theorem wp_fix {number : Nat} :
    (fix config issue number).wp (coarse objects) (fun outcome later => ∀ value ∈ outcome, Anything value later) now := by
  refine wp_then (wp_free (free_call ?_)) ?_
  · nofun
  intro _ later _
  apply wp_then (wp_free free_guarded)
  intro _ later _
  apply wp_gate
  intro rc tail later tests
  dsimp only
  split
  · exact fun _ _ => trivial
  next passed =>
    apply wp_then (wp_reviewStage (tests (not_not.mp passed)))
    rintro ⟨blocking,verdicts,agents⟩ later shows
    dsimp only
    split
    · exact wp_ends free_record
    apply wp_diff shows.tests
    intro diff later shows
    split
    · exact wp_ends free_record
    · exact wp_merge shows

theorem wp_attempt {number : Nat} :
    (attempt config issue number).wp (coarse objects) (fun outcome later => ∀ value ∈ outcome, Anything value later) now := by
  apply wp_then (wp_free free_guarded)
  intro _ later _
  apply wp_gate
  intro rc tail later tests
  dsimp only
  split
  · exact wp_ends free_record
  next passed =>
    apply wp_diff (tests (not_not.mp passed))
    intro diff later shows
    split
    · exact wp_ends free_record
    apply wp_then (wp_reviewStage shows.tests)
    rintro ⟨blocking,verdicts,agents⟩ later shows
    dsimp only
    split
    · exact wp_fix
    · exact wp_merge shows

theorem wp_attempts {first left : Nat} :
    (attempts config issue first left).wp (coarse objects) (fun outcome later => ∀ value ∈ outcome, Anything value later) now := by
  induction left generalizing first now with
  | zero =>
    apply wp_ends
    refine Program.uses_bind (free_call nofun) fun _ => Program.uses_bind (free_call nofun) fun _ => ?_
    exact Program.uses_bind (free_call nofun) fun _ => trivial
  | succ left ih =>
    apply wp_then wp_attempt
    intro merged later _
    split
    · exact fun _ _ => trivial
    · exact ih

/-- What the critic and the resolver write is gone before the first attempt. -/
theorem wp_critic : ((call .snapshotWorktree).bind fun tree =>
    (critique config issue).ensure (call (.restoreWorktree tree))).wp (coarse objects) (fun outcome later =>
      ∀ value ∈ outcome, later.Good → objects.staged later.toWorkingCopy = objects.staged now.toWorkingCopy) now := by
  apply Program.wp_mono _ (wp_bracket scratch_critique)
  rintro outcome later ⟨_,same⟩ value ⟨⟩
  exact same rfl

theorem wp_workStages : (Loop.workStages config issue).wp (coarse objects) (fun _ _ => True) now := by
  have whole : (Loop.workStages config issue).wp (coarse objects)
      (fun outcome later => ∀ value ∈ outcome, Anything value later) now := by
    simp only [Loop.workStages,Program.bind_eq]
    rw [← Program.bind_assoc]
    apply wp_then wp_critic
    intro build later _
    split
    · exact wp_attempts
    · exact fun _ _ => trivial
  exact Program.wp_mono (fun _ _ _ => trivial) whole

end Stages

/-- Whenever an attempt is about to be merged, what is staged is what was staged when the gate last passed, and what the
diff showed last: unless git could not be run, an `add -A` failed before the index was read, or the journal says that a
snapshot or its restoring failed. -/
theorem merge_tested {now last : Bench Path Entry} {next : Option Bool → Acts Unit}
    (arrives : Program.Arrives (tooling objects) (workStages config issue) now (.call (.queue .mergeWorktree) next) last)
    (calm : last.calm = true) (reported : last.reported = false) :
    last.gated = some (objects.staged last.toWorkingCopy) ∧ last.shown = some (objects.staged last.toWorkingCopy) := by
  have safe : (workStages config issue).wp (tooling objects) (fun _ _ => True) now :=
    Program.wp_expand carry_meets wp_workStages
  exact (Program.wp_arrives safe arrives).1 rfl ⟨calm,reported⟩

def untouched : Bench File Unit := ⟨⟨fun _ => none,fun _ => none⟩,false,false,false,none,none⟩

/-- Two reviewers let a new file pass. -/
theorem merge_tested_pass : ∃ (next : Option Bool → Acts Unit) (last : Bench File Unit),
    Program.Arrives (tooling nested) (workStages Config.usual ⟨7,[],[],.opened⟩) untouched (.call (.queue .mergeWorktree) next) last ∧
      last.gated = some (nested.staged last.toWorkingCopy) ∧ last.shown = some (nested.staged last.toWorkingCopy) := by
  have arrives := @Program.arrives_walk _ _ _ _ (tooling nested) obliged (obliging_does nestedTree_name) 33
    (workStages Config.usual ⟨7,[],[],.opened⟩) untouched
  have reached : (Program.walk obliged 33 (workStages Config.usual ⟨7,[],[],.opened⟩) untouched).1.pending =
      some (.queue .mergeWorktree) := by decide
  have good : (Program.walk obliged 33 (workStages Config.usual ⟨7,[],[],.opened⟩) untouched).2.calm = true ∧
      (Program.walk obliged 33 (workStages Config.usual ⟨7,[],[],.opened⟩) untouched).2.reported = false := by decide
  revert arrives reached good
  generalize Program.walk obliged 33 (workStages Config.usual ⟨7,[],[],.opened⟩) untouched = result
  obtain ⟨program,last⟩ := result
  intro arrives reached good
  cases program with
  | done outcome => contradiction
  | call command next =>
    cases reached
    exact ⟨next,last,arrives,merge_tested arrives good.1 good.2⟩

end Frankenrust.Orchestrator.Snapshot
