import Frankenrust.Library.Machine
import Frankenrust.Orchestrator.Calls
import Mathlib.Logic.Function.Basic

/-! Runs of `_work`, and what must have happened in the same attempt when it merges. The
agents, the gate, git and `gh` answer as they like and leave the worktree as they like; a
diff alone is a function of the worktree, which taking it leaves alone. -/
namespace Frankenrust.Orchestrator

structure Event where
  command : Command
  answer : Option (Answer command)

/-- `_work` at one of its calls, with the worktree it works on. -/
structure Session (W : Type) where
  program : Work Unit
  tree : W

/-- How the surroundings answer the next call, and the worktree that they leave. -/
structure Response (W : Type) where
  answer : (command : Command) → Option (Answer command)
  tree : W

namespace Session
variable {W : Type}

/-- What the next call returns or raises. -/
def reply (diff : W → Text) (response : Response W) (tree : W) : (command : Command) → Option (Answer command)
  | .worktreeDiff => (response.answer .worktreeDiff).map fun _ => diff tree
  | command => response.answer command

def leaves (response : Response W) (tree : W) : Command → W
  | .worktreeDiff => tree
  | _ => response.tree

def step (diff : W → Text) (response : Response W) (session : Session W) : Option (Session W) :=
  match session.program with
  | .done _ => none
  | .call command next => some ⟨next (reply diff response session.tree command),leaves response session.tree command⟩

def event (diff : W → Text) (response : Response W) (session : Session W) : Option Event :=
  match session.program with
  | .done _ => none
  | .call command _ => some ⟨command,reply diff response session.tree command⟩

end Session

/-- What is known since an implementer or a fixer last ran: the exit code of the last gate
run, the last diff after it and what each reviewer last said after it. -/
structure Ledger where
  gate : Option Int
  diff : Option Text
  replies : Nat → Text

namespace Ledger

def empty : Ledger := ⟨none,none,fun _ => []⟩

def note (ledger : Ledger) : Event → Ledger
  | ⟨.invoke (.implementer _),_⟩ | ⟨.invoke (.fixer _),_⟩ => empty
  | ⟨.gate,answer⟩ => ⟨answer.map (·.1),none,fun _ => []⟩
  | ⟨.worktreeDiff,answer⟩ => { ledger with diff := answer }
  | ⟨.invoke (.reviewer index),some reply⟩ =>
    { ledger with replies := Function.update ledger.replies index reply.text }
  | _ => ledger

/-- The verdicts hold a pass and no block. -/
def Reviewed (config : Config) (replies : Nat → Text) : Prop :=
  (∃ index ∈ config.reviewerAgents, Loop.verdictOf (replies index) = .pass) ∧
    ∀ index ∈ config.reviewerAgents, Loop.verdictOf (replies index) ≠ .block

/-- The last gate run returned 0, nothing was edited since, the worktree differs and the
reviewers let it pass. -/
def Cleared (config : Config) (ledger : Ledger) : Prop :=
  ledger.gate = some 0 ∧ (∃ text, ledger.diff = some text ∧ strip text ≠ []) ∧ Reviewed config ledger.replies

end Ledger

namespace Merge
open Loop
variable {W : Type} {diff : W → Text} {config : Config} {issue : Issue}

/-- Where a diff is taken the worktree stays, and the answer is its diff. -/
def Admits (diff : W → Text) (before after : W) : Event → Prop
  | ⟨.worktreeDiff,answer⟩ => after = before ∧ ∀ text ∈ answer, text = diff before
  | _ => True

def contract (diff : W → Text) (config : Config) : Program.Contract Command Answer (Ledger × W) where
  guard command state := command = .mergeWorktree → state.1.Cleared config
  after command state answer later :=
    later.1 = state.1.note ⟨command,answer⟩ ∧ Admits diff state.2 later.2 ⟨command,answer⟩

/-- Calls that leave the ledger as it is. -/
def Quiet (command : Command) : Prop :=
  command ≠ .mergeWorktree ∧ ∀ ledger answer, Ledger.note ledger ⟨command,answer⟩ = ledger

theorem quiet_record {event : String} : Quiet (.record event) := ⟨nofun,fun _ _ => rfl⟩
theorem quiet_guardEnter : Quiet .guardEnter := ⟨nofun,fun _ _ => rfl⟩
theorem quiet_guardExit : Quiet .guardExit := ⟨nofun,fun _ _ => rfl⟩
theorem quiet_snapshot : Quiet .snapshotWorktree := ⟨nofun,fun _ _ => rfl⟩
theorem quiet_restore {tree : Text} : Quiet (.restoreWorktree tree) := ⟨nofun,fun _ _ => rfl⟩
theorem quiet_patch {text : Text} : Quiet (.writePatch text) := ⟨nofun,fun _ _ => rfl⟩

/-- A postcondition that asks nothing of an exception. -/
def Returns {α : Type} (post : α → Ledger × W → Prop) : Option α → Ledger × W → Prop
  | none, _ => True
  | some value, state => post value state

theorem silentReview_ne_nil : silentReview ≠ [] := by
  apply List.append_ne_nil_of_left_ne_nil
  apply List.append_ne_nil_of_left_ne_nil
  apply List.append_ne_nil_of_left_ne_nil
  decide

theorem finding_ne_nil (result : Nat × Text) : finding result ≠ [] := by
  apply List.append_ne_nil_of_left_ne_nil
  apply List.append_ne_nil_of_left_ne_nil
  apply List.append_ne_nil_of_left_ne_nil
  decide

theorem intercalate_ne_nil {separator first : Text} {rest : List Text} (some : first ≠ []) :
    separator.intercalate (first :: rest) ≠ [] := by
  cases rest <;> simp [List.intercalate,List.intersperse,some]

/-- No blocking text means a pass and no block. -/
theorem outcome_reviewed {results : List (Nat × Text)} (quiet : truthy (reviewOutcome results).1 = false) :
    (∃ result ∈ results, verdictOf result.2 = .pass) ∧ ∀ result ∈ results, verdictOf result.2 ≠ .block := by
  have same {result : Nat × Text} :
      result ∈ results.insertionSort (fun first second => first.1 ≤ second.1) ↔ result ∈ results :=
    List.mem_insertionSort _
  simp only [reviewOutcome] at quiet
  split at quiet
  next blocked =>
    obtain ⟨first,rest,split⟩ := List.exists_cons_of_ne_nil blocked
    rw [split,List.map_cons] at quiet
    simp [truthy,intercalate_ne_nil (finding_ne_nil first)] at quiet
  next unblocked =>
    split at quiet
    · simp [truthy,silentReview_ne_nil] at quiet
    next passed =>
      obtain ⟨verdict,member,pass⟩ := not_not.mp passed
      obtain ⟨result,inside,rfl⟩ := List.mem_map.mp member
      refine ⟨⟨result,same.mp inside,pass⟩,?_⟩
      intro result member block
      have found := List.filter_eq_nil_iff.mp (not_not.mp unblocked) result (same.mpr member)
      simp [block] at found

theorem wp_quiet {α : Type} {command : Command} (quiet : Quiet command) {rest : Answer command → Work α}
    {post : α → Ledger × W → Prop} {ledger : Ledger} {tree : W}
    (later : ∀ value tree, (rest value).wp (contract diff config) (Returns post) (ledger,tree)) :
    ((call command).bind rest).wp (contract diff config) (Returns post) (ledger,tree) := by
  rw [Program.wp_bind,Program.wp_invoke]
  refine ⟨fun merges => absurd merges quiet.1,?_⟩
  rintro answer ⟨noted,left⟩ ⟨same,_⟩
  rw [quiet.2] at same
  subst same
  cases answer with
  | none => exact trivial
  | some value => exact later value left

theorem wp_then {α β : Type} {program : Work α} {rest : α → Work β} {first : α → Ledger × W → Prop}
    {post : β → Ledger × W → Prop} {state : Ledger × W}
    (held : program.wp (contract diff config) (Returns first) state)
    (later : ∀ value ledger tree, first value (ledger,tree) →
      (rest value).wp (contract diff config) (Returns post) (ledger,tree)) :
    (program.bind rest).wp (contract diff config) (Returns post) state := by
  rw [Program.wp_bind]
  apply Program.wp_mono _ held
  rintro outcome ⟨ledger,tree⟩ kept
  cases outcome with
  | none => exact trivial
  | some value => exact later value ledger tree kept

/-- A cleanup that leaves the ledger as it is. -/
theorem ensure_quiet {α : Type} {program : Work α} {cleanup : Work Unit} {post : α → Ledger × W → Prop}
    {state : Ledger × W}
    (quiet : ∀ ledger tree, cleanup.wp (contract diff config) (fun _ later => later.1 = ledger) (ledger,tree))
    (inner : program.wp (contract diff config) (Returns fun value later => ∀ tree, post value (later.1,tree)) state) :
    (program.ensure cleanup).wp (contract diff config) (Returns post) state := by
  rw [Program.wp_ensure]
  apply Program.wp_mono _ inner
  rintro outcome ⟨ledger,tree⟩ held
  rw [Program.wp_bind]
  apply Program.wp_mono _ (quiet ledger tree)
  rintro (_ | _) ⟨_,left⟩ rfl
  · exact trivial
  · cases outcome with
    | none => exact trivial
    | some value => exact held left

theorem call_quiet {command : Command} (quiet : Quiet command) (ledger : Ledger) (tree : W) :
    (call command).wp (contract diff config) (fun _ later => later.1 = ledger) (ledger,tree) := by
  refine ⟨fun merges => absurd merges quiet.1,?_⟩
  rintro answer later ⟨noted,_⟩
  exact noted.trans (quiet.2 ledger answer)

theorem wp_diff {α : Type} {rest : Text → Work α} {post : α → Ledger × W → Prop} {ledger : Ledger} {tree : W}
    (later : (rest (diff tree)).wp (contract diff config) (Returns post) ({ ledger with diff := some (diff tree) },tree)) :
    ((call .worktreeDiff).bind rest).wp (contract diff config) (Returns post) (ledger,tree) := by
  rw [Program.wp_bind,Program.wp_invoke]
  refine ⟨nofun,?_⟩
  rintro answer ⟨noted,left⟩ ⟨same,stays,taken⟩
  cases same
  cases stays
  cases answer with
  | none => exact trivial
  | some text =>
    cases taken text rfl
    exact later

theorem wp_gate {α : Type} {rest : Int × Text → Work α} {post : α → Ledger × W → Prop} {ledger : Ledger} {tree : W}
    (later : ∀ result left, (rest result).wp (contract diff config) (Returns post) (⟨some result.1,none,fun _ => []⟩,left)) :
    ((call .gate).bind rest).wp (contract diff config) (Returns post) (ledger,tree) := by
  rw [Program.wp_bind,Program.wp_invoke]
  refine ⟨nofun,?_⟩
  rintro answer ⟨noted,left⟩ ⟨rfl,_⟩
  cases answer with
  | none => exact trivial
  | some result => exact later result left

/-- An implementer or a fixer wipes the ledger. -/
theorem wp_edits {α : Type} {stage : Stage} {rest : Reply → Work α} {post : α → Ledger × W → Prop} {state : Ledger × W}
    (wipes : ∀ ledger answer, Ledger.note ledger ⟨.invoke stage,answer⟩ = Ledger.empty)
    (later : ∀ reply tree, (rest reply).wp (contract diff config) (Returns post) (Ledger.empty,tree)) :
    ((guarded stage).bind rest).wp (contract diff config) (Returns post) state := by
  obtain ⟨ledger,tree⟩ := state
  have entered : (guarded stage).wp (contract diff config)
      (Returns fun _ later => later.1 = Ledger.empty) (ledger,tree) := by
    simp only [guarded,Program.bind_eq]
    apply wp_quiet quiet_guardEnter
    intro _ tree
    apply ensure_quiet (call_quiet quiet_guardExit)
    refine ⟨by rintro ⟨⟩,?_⟩
    rintro (_ | reply) later ⟨noted,_⟩
    · exact trivial
    · intro tree
      exact noted.trans (wipes ledger _)
  apply wp_then entered
  rintro reply _ left rfl
  exact later reply left

/-- The reviews hold what each reviewer last said, and nothing else was noted. -/
structure Tracks (config : Config) (start : Ledger) (reviews : Reviews) (ledger : Ledger) : Prop where
  results : reviews.results = config.reviewerAgents.map fun index => (index,ledger.replies index)
  gate : ledger.gate = start.gate
  diff : ledger.diff = start.diff

theorem tracks_put {start ledger : Ledger} {reviews : Reviews} {index : Nat} {reply : Reply}
    (tracks : Tracks config start reviews ledger) :
    Tracks config start (reviews.put index reply)
      { ledger with replies := Function.update ledger.replies index reply.text } := by
  refine ⟨?_,tracks.gate,tracks.diff⟩
  simp only [Reviews.put,tracks.results,List.map_map]
  apply List.map_congr_left
  intro other _
  by_cases same : other = index
  · simp [same]
  · simp [same]

theorem one_tracks {start : Ledger} {reviews : Reviews} {index : Nat} {state : Ledger × W}
    (tracks : Tracks config start reviews state.1) :
    (one reviews index).wp (contract diff config)
      (Returns fun reviews later => Tracks config start reviews later.1) state := by
  simp only [one,Program.wp_handle,Program.bind_eq,Program.wp_bind]
  refine ⟨nofun,?_⟩
  rintro (_ | reply) later ⟨noted,_⟩
  · have kept : Tracks config start reviews later.1 := by rwa [noted]
    change ((call (.record "agent_error")).bind _).wp _ _ _
    rw [Program.wp_bind]
    apply Program.wp_mono _ (call_quiet quiet_record later.1 later.2)
    rintro (_ | _) after same
    · change Tracks config start reviews after.1
      rwa [same]
    · change Tracks config start reviews after.1
      rwa [same]
  · change Tracks config start (reviews.put index reply) later.1
    rw [noted]
    exact tracks_put tracks

theorem runEach_tracks {start ledger : Ledger} {reviews : Reviews} {indices : List Nat} {tree : W}
    (tracks : Tracks config start reviews ledger) :
    (runEach reviews indices).wp (contract diff config)
      (Returns fun reviews later => Tracks config start reviews later.1) (ledger,tree) := by
  induction indices generalizing reviews ledger tree with
  | nil => exact tracks
  | cons index indices ih =>
    apply wp_then (one_tracks tracks)
    intro reviews ledger tree kept
    exact ih kept

theorem runRound_tracks {start ledger : Ledger} {reviews : Reviews} {indices : List Nat} {tree : W}
    (tracks : Tracks config start reviews ledger) :
    (runRound reviews indices).wp (contract diff config)
      (Returns fun reviews later => Tracks config start reviews later.1) (ledger,tree) := by
  apply wp_quiet quiet_snapshot
  intro snapshot tree
  apply ensure_quiet (call_quiet quiet_restore)
  apply Program.wp_mono _ (runEach_tracks tracks)
  rintro (_ | reviews) later kept
  · exact trivial
  · intro _
    exact kept

/-- Scoring says what the reviewers said and notes nothing. -/
theorem score_outcome {reviews : Reviews} {ledger : Ledger} {tree : W} :
    (score reviews).wp (contract diff config)
      (Returns fun outcome later => outcome = reviewOutcome reviews.results ∧ later.1 = ledger) (ledger,tree) := by
  simp only [score,Program.bind_eq]
  apply wp_quiet quiet_record
  intro _ tree
  split
  · apply wp_quiet quiet_record
    intro _ tree
    exact ⟨rfl,rfl⟩
  · split
    · apply wp_quiet quiet_record
      intro _ tree
      exact ⟨rfl,rfl⟩
    · exact ⟨rfl,rfl⟩

theorem rounds_outcome {start ledger : Ledger} {tree : W}
    (tracks : Tracks config start (Reviews.start config) ledger) :
    (rounds config).wp (contract diff config) (Returns fun outcome later => ∃ reviews,
      Tracks config start reviews later.1 ∧ outcome.1 = (reviewOutcome reviews.results).1) (ledger,tree) := by
  simp only [rounds,Program.bind_eq]
  apply wp_then (runRound_tracks tracks)
  intro reviews ledger tree tracks
  apply wp_then score_outcome
  rintro _ _ tree ⟨rfl,rfl⟩
  split
  · apply wp_then (runRound_tracks tracks)
    intro again ledger tree tracks
    apply wp_then score_outcome
    rintro _ _ tree ⟨rfl,rfl⟩
    exact ⟨again,tracks,rfl⟩
  · exact ⟨reviews,tracks,rfl⟩

theorem tracks_start {ledger : Ledger} (fresh : ledger.replies = fun _ => []) :
    Tracks config ledger (Reviews.start config) ledger := by
  refine ⟨?_,rfl,rfl⟩
  simp [Reviews.start,fresh]

theorem tracks_reviewed {start ledger : Ledger} {reviews : Reviews} (tracks : Tracks config start reviews ledger)
    (quiet : truthy (reviewOutcome reviews.results).1 = false) : Ledger.Reviewed config ledger.replies := by
  obtain ⟨⟨result,member,pass⟩,unblocked⟩ := outcome_reviewed quiet
  rw [tracks.results] at member unblocked
  constructor
  · obtain ⟨index,inside,rfl⟩ := List.mem_map.mp member
    exact ⟨index,inside,pass⟩
  · intro index inside
    exact unblocked (index,ledger.replies index) (List.mem_map.mpr ⟨index,inside,rfl⟩)

/-- Unless it blocks, a review either had nothing to read or found a pass and no block. -/
theorem reviewStage_outcome {ledger : Ledger} {tree : W} (fresh : ledger.replies = fun _ => []) :
    (reviewStage config).wp (contract diff config) (Returns fun outcome later => later.1.gate = ledger.gate ∧
      (truthy outcome.1 = false → strip (diff tree) = [] ∧ later.2 = tree ∨
        later.1.diff = some (diff tree) ∧ Ledger.Reviewed config later.1.replies)) (ledger,tree) := by
  simp only [reviewStage,Program.bind_eq]
  apply wp_diff
  split
  next nothing =>
    refine ⟨rfl,?_⟩
    intro _
    exact .inl ⟨nothing,rfl⟩
  next something =>
    apply wp_quiet quiet_patch
    intro _ left
    apply wp_quiet quiet_guardEnter
    intro _ left
    generalize noted : { ledger with diff := some (diff tree) } = start
    have fresh : start.replies = fun _ => [] := by simpa [← noted] using fresh
    have reviewed : ((rounds config).ensure (call .guardExit)).wp (contract diff config)
        (Returns fun outcome later => ∃ reviews,
          Tracks config start reviews later.1 ∧ outcome.1 = (reviewOutcome reviews.results).1) (start,left) := by
      apply ensure_quiet (call_quiet quiet_guardExit)
      apply Program.wp_mono _ (rounds_outcome (tracks_start fresh))
      rintro (_ | outcome) later kept
      · exact trivial
      · intro tree
        exact kept
    apply wp_then reviewed
    rintro ⟨blocking,verdicts,reviews⟩ later left ⟨found,tracks,same⟩
    subst noted
    refine ⟨tracks.gate,?_⟩
    intro quiet
    exact .inr ⟨tracks.diff,tracks_reviewed tracks (same ▸ quiet)⟩

/-- Calls that a part of the program may make without asking the ledger. -/
def Harmless (command : Command) : Prop := command ≠ .mergeWorktree

theorem harmless_inner (command : Command) (inner : command.inner = true) : Harmless command := by
  rintro rfl
  contradiction

theorem wp_harmless {α : Type} {program : Work α} {state : Ledger × W} (used : program.uses Harmless) :
    program.wp (contract diff config) (Returns fun _ _ => True) state := by
  have kept : program.wp (contract diff config) (fun _ _ => True) state := by
    apply Program.wp_of_uses used _ trivial
    intro command state harmless _
    exact ⟨fun merges => absurd merges harmless,fun _ _ _ => trivial⟩
  apply Program.wp_mono _ kept
  rintro (_ | _) _ _
  · exact trivial
  · exact trivial

theorem merge_safe {ledger : Ledger} {tree : W} (cleared : ledger.Cleared config) :
    (merge issue).wp (contract diff config) (Returns fun _ _ => True) (ledger,tree) := by
  simp only [merge,Program.bind_eq,Program.wp_bind]
  refine ⟨fun _ => cleared,?_⟩
  rintro (_ | merged) later _
  · exact trivial
  have used : (if merged then (Gh.close issue.number).bind fun _ => (call (.record "merged")).bind fun _ => pure true
      else pure false : Work Bool).uses Harmless := by
    split
    · apply Program.uses_bind (Calls.uses_close harmless_inner)
      simp [Harmless]
    · exact trivial
  exact wp_harmless used

theorem fix_safe {attempt : Nat} {state : Ledger × W} :
    (fix config issue attempt).wp (contract diff config) (Returns fun _ _ => True) state := by
  obtain ⟨ledger,tree⟩ := state
  simp only [fix,Program.bind_eq]
  apply wp_quiet quiet_record
  intro _ tree
  apply wp_edits fun _ _ => rfl
  intro _ tree
  apply wp_gate
  rintro ⟨rc,tail⟩ tree
  split
  · exact trivial
  next passed =>
    apply wp_then (reviewStage_outcome rfl)
    rintro ⟨stillBlocking,verdicts,reviews⟩ later left ⟨gate,reviewed⟩
    split
    · apply wp_quiet quiet_record
      intro _ _
      exact trivial
    next quiet =>
      apply wp_diff
      split
      · apply wp_quiet quiet_record
        intro _ _
        exact trivial
      next differs =>
        apply merge_safe
        rcases reviewed (by simpa using quiet) with ⟨nothing,rfl⟩ | ⟨_,reviewed⟩
        · contradiction
        · refine ⟨gate.trans (congrArg some (not_not.mp passed)),⟨_,rfl,differs⟩,reviewed⟩

theorem attempt_safe {number : Nat} {state : Ledger × W} :
    (attempt config issue number).wp (contract diff config) (Returns fun _ _ => True) state := by
  simp only [attempt,Program.bind_eq]
  apply wp_edits fun _ _ => rfl
  intro _ tree
  apply wp_gate
  rintro ⟨rc,tail⟩ tree
  split
  · apply wp_quiet quiet_record
    intro _ _
    exact trivial
  next passed =>
    apply wp_diff
    split
    · apply wp_quiet quiet_record
      intro _ _
      exact trivial
    next differs =>
      apply wp_then (reviewStage_outcome rfl)
      rintro ⟨blocking,verdicts,reviews⟩ later left ⟨gate,reviewed⟩
      split
      · exact fix_safe
      next quiet =>
        apply merge_safe
        rcases reviewed (by simpa using quiet) with ⟨nothing,_⟩ | ⟨diff,reviewed⟩
        · contradiction
        · exact ⟨gate.trans (congrArg some (not_not.mp passed)),⟨_,diff,differs⟩,reviewed⟩

theorem attempts_safe {first left : Nat} {state : Ledger × W} :
    (attempts config issue first left).wp (contract diff config) (Returns fun _ _ => True) state := by
  induction left generalizing first state with
  | zero =>
    exact wp_harmless (Program.uses_bind (Calls.uses_call harmless_inner rfl) fun _ =>
      Calls.uses_block harmless_inner nofun)
  | succ left ih =>
    apply wp_then attempt_safe
    intro merged ledger tree _
    split
    · exact trivial
    · exact ih

theorem workStages_safe {state : Ledger × W} :
    (workStages config issue).wp (contract diff config) (Returns fun _ _ => True) state := by
  obtain ⟨ledger,tree⟩ := state
  apply wp_quiet quiet_snapshot
  intro snapshot tree
  have critic : (critique config issue).uses Harmless :=
    Calls.uses_critique harmless_inner (fun _ => nofun) nofun nofun
  apply wp_then (wp_harmless (Program.uses_ensure critic (Calls.uses_call harmless_inner rfl)))
  intro build ledger tree _
  split
  · exact attempts_safe
  · exact trivial

theorem reply_admits {response : Response W} {tree : W} (command : Command) :
    Admits diff tree (Session.leaves response tree command) ⟨command,Session.reply diff response tree command⟩ := by
  cases command
  case worktreeDiff =>
    refine ⟨rfl,?_⟩
    intro text taken
    obtain ⟨_,_,rfl⟩ := Option.map_eq_some_iff.mp taken
    rfl
  all_goals exact trivial

/-- What a session keeps: the rest of its program is safe from its ledger on. -/
def Safe (diff : W → Text) (config : Config) (past : List Event) (session : Session W) : Prop :=
  session.program.wp (contract diff config) (Returns fun _ _ => True) (past.foldl Ledger.note Ledger.empty,session.tree)

theorem safe_step {past : List Event} {response : Response W} {session next : Session W}
    (stepped : Session.step diff response session = some next) (safe : Safe diff config past session) :
    Safe diff config (past ++ (Session.event diff response session).toList) next := by
  obtain ⟨program,tree⟩ := session
  cases program with
  | done outcome => contradiction
  | call command rest =>
    cases stepped
    rw [Safe,Session.event,Option.toList_some,List.foldl_append,List.foldl_cons,List.foldl_nil]
    exact safe.2 _ _ ⟨rfl,reply_admits command⟩

/-- Whenever `_work` is about to merge, in any run and whatever all its calls answered, the
ledger of what it has done so far is cleared. -/
theorem merge_cleared {responses : List (Response W)} {tree : W} {session : Session W}
    (ran : Machine.run (Session.step diff) responses ⟨workStages config issue,tree⟩ = some session)
    (merges : session.program.pending = some .mergeWorktree) :
    ((Machine.trace (Session.step diff) (Session.event diff) responses ⟨workStages config issue,tree⟩).foldl
      Ledger.note Ledger.empty).Cleared config := by
  have start : Safe diff config [] ⟨workStages config issue,tree⟩ := workStages_safe
  have safe := Machine.run_history (fun _ _ _ _ => safe_step) ran start
  rw [List.nil_append,Safe] at safe
  cases found : session.program with
  | done outcome =>
    rw [found] at merges
    contradiction
  | call command next =>
    rw [found] at merges safe
    exact safe.1 (Option.some.inj merges)

/-- A gate that passes, a diff and one reviewer that says so. -/
def willing : (command : Command) → Option (Answer command)
  | .invoke _ => some ⟨none,0,"VERDICT: PASS".toList⟩
  | .gate => some (0,[])
  | .issueList _ _ | .viewLabels _ | .viewBody _ => none
  | .edit _ _ _ | .editBody _ _ | .makeWorktree | .mergeWorktree => some true
  | .overWallclock | .noAgentUsable => some false
  | .snapshotWorktree | .worktreeDiff => some []
  | .comment _ | .close _ | .record _ | .retireWorktree | .restoreWorktree _ | .writePatch _ => some ()
  | .guardEnter | .guardExit => some ()

def soleReviewer : Config := ⟨3,3,2,2,[1],by decide,fun _ => false⟩

def newIssue : Session Unit := ⟨workStages soleReviewer ⟨1,[],[],.opened⟩,()⟩

theorem merge_cleared_pass : ∃ session : Session Unit,
    Machine.run (Session.step fun _ => ['x']) (List.replicate 18 ⟨willing,()⟩) newIssue = some session ∧
    session.program.pending = some .mergeWorktree ∧
    ((Machine.trace (Session.step fun _ => ['x']) (Session.event fun _ => ['x']) (List.replicate 18 ⟨willing,()⟩)
      newIssue).foldl Ledger.note Ledger.empty).Cleared soleReviewer := by
  have reached : (Machine.run (Session.step fun _ => ['x']) (List.replicate 18 ⟨willing,()⟩) newIssue).bind
      (fun session => session.program.pending) = some .mergeWorktree := by
    decide +kernel
  obtain ⟨session,ran,merges⟩ := Option.bind_eq_some_iff.mp reached
  exact ⟨session,ran,merges,merge_cleared ran merges⟩

end Merge
end Frankenrust.Orchestrator
