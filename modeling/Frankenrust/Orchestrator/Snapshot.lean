import Frankenrust.Library.Runs
import Frankenrust.Library.Staging
import Frankenrust.Orchestrator.Loop

/-! `snapshot_worktree`, `restore_worktree` and `worktree_diff` of `loop.py` as the commands of git
that they run in the worktree of an issue, and what is staged there before and after them. -/
namespace Frankenrust.Orchestrator.Snapshot

/-- The commands of git that run in a worktree: `add -A`, `write-tree`, `read-tree --reset -u`, `clean -ffd`,
`merge-base main HEAD`, `diff --cached` and the same with `--name-status`. -/
inductive Tool
  | add
  | writeTree
  | readTree (tree : Text)
  | clean
  | mergeBase
  | diffCached (base : Text)
  | nameStatus (tree : Text)
  deriving DecidableEq

inductive Act
  | queue (command : Command)
  | git (tool : Tool)
  deriving DecidableEq

/-- The exit code and what was printed; an exception is a command that could not be started. -/
abbrev Act.Answer : Act → Type
  | .queue command => Orchestrator.Answer command
  | .git _ => Int × Text

abbrev Acts := Program Act Act.Answer

abbrev git (tool : Tool) : Acts (Int × Text) := Program.invoke (Act.git tool)

abbrev queue (command : Command) : Acts (Answer command) := Program.invoke (Act.queue command)

def worktreeDiff : Acts Text := do
  let _ ← git .add
  let (_,base) ← git .mergeBase
  let (_,diff) ← git (.diffCached (strip base))
  pure diff

def snapshotWorktree : Acts Text := do
  let _ ← git .add
  let (rc,tree) ← git .writeTree
  if rc ≠ 0 then do
    queue (.record "snapshot_failed")
    pure []
  else pure (strip tree)

def restoreWorktree (tree : Text) : Acts Unit :=
  if tree = [] then pure ()
  else do
    let _ ← git .add
    let (rc,_) ← git (.readTree tree)
    if rc ≠ 0 then queue (.record "restore_failed") else pure ()
    let _ ← git .clean
    let _ ← git .add
    let (rc,actual) ← git .writeTree
    if rc ≠ 0 ∨ strip actual ≠ tree then do
      let _ ← git (.nameStatus tree)
      queue (.record "restore_incomplete")
    else pure ()

def carry : (command : Command) → Acts (Answer command)
  | .snapshotWorktree => snapshotWorktree
  | .restoreWorktree tree => restoreWorktree tree
  | .worktreeDiff => worktreeDiff
  | command => queue command

/-- `_work` with the worktree kept by the commands of git. -/
def workStages (config : Config) (issue : Issue) : Acts Unit := (Loop.workStages config issue).expand carry

/-- What git makes of the files, with the names that it gives to trees: hexadecimal digests, which are taken to differ
where the trees do. -/
structure Objects (Path Entry : Type) extends Staging Path Entry where
  name : (Path → Option Entry) → Text
  distinct : Function.Injective name
  plain : ∀ tree, strip (name tree) = name tree
  named : ∀ tree, name tree ≠ []

/-- The worktree, and what is known since the gate last ran: that the last `add -A` succeeded; that every command was
started, and each look at the index came after such an `add`; that a snapshot or its restoring was reported as failed;
what was staged when the gate passed, and when the diff was last taken. -/
structure Bench (Path Entry : Type) extends WorkingCopy Path Entry where
  added : Bool
  calm : Bool
  reported : Bool
  gated : Option (Path → Option Entry)
  shown : Option (Path → Option Entry)

variable {Path Entry : Type}

namespace Bench

def reports (event : String) : Bool :=
  event = "snapshot_failed" ∨ event = "restore_failed" ∨ event = "restore_incomplete"

/-- Nothing has failed unseen. -/
def Good (bench : Bench Path Entry) : Prop := bench.calm = true ∧ bench.reported = false

end Bench

section Contract
variable (objects : Objects Path Entry)

/-- What a command does to the files and the index; one that fails may leave any. -/
def handles (tool : Tool) (now : WorkingCopy Path Entry) (answer : Option (Int × Text)) (later : WorkingCopy Path Entry) : Prop :=
  match tool with
  | .add => later.work = now.work ∧ ∀ printed, answer = some (0,printed) → later = objects.add now
  | .readTree name => ∀ printed, answer = some (0,printed) → ∀ tree, objects.name tree = name → later = objects.reset tree now
  | .clean => ∀ printed, answer = some (0,printed) → later = objects.clean now
  | .writeTree => later = now ∧ ∀ printed, answer = some (0,printed) → printed = objects.name now.index
  | .mergeBase | .diffCached _ | .nameStatus _ => later = now

def looks : Tool → Bool
  | .writeTree | .diffCached _ => true
  | _ => false

/-- Agents, gates and the merge leave any files and index; the other calls leave them alone. -/
def does (act : Act) (now : Bench Path Entry) (answer : Option act.Answer) (later : Bench Path Entry) : Prop :=
  match act with
  | .git tool => handles objects tool now.toWorkingCopy answer later.toWorkingCopy ∧
      later.added = (match tool with | .add => answer.any (·.1 = 0) | _ => now.added) ∧
      later.calm = (now.calm && answer.isSome && (!looks tool || now.added)) ∧ later.reported = now.reported ∧
      later.gated = now.gated ∧ later.shown = match tool with | .diffCached _ => some now.index | _ => now.shown
  | .queue (.record event) => later = { now with reported := now.reported || Bench.reports event }
  | .queue .gate => later.calm = true ∧ later.reported = false ∧ later.shown = none ∧
      later.gated = if answer.any (·.1 = 0) then some (objects.staged later.toWorkingCopy) else none
  | .queue (.invoke (.implementer _)) | .queue (.invoke (.fixer _)) =>
    later.calm = now.calm ∧ later.reported = now.reported ∧ later.gated = none ∧ later.shown = none
  | .queue (.invoke _) | .queue .mergeWorktree =>
    later.calm = now.calm ∧ later.reported = now.reported ∧ later.gated = now.gated ∧ later.shown = now.shown
  | .queue _ => later = now

/-- What merges is what was staged when the gate passed, and what was last shown as the diff. -/
def Tested (bench : Bench Path Entry) : Prop := bench.gated = some (objects.staged bench.toWorkingCopy)

def Shown (bench : Bench Path Entry) : Prop := Tested objects bench ∧ bench.shown = some (objects.staged bench.toWorkingCopy)

def tooling : Program.Contract Act Act.Answer (Bench Path Entry) where
  guard act now := act = .queue .mergeWorktree → now.Good → Shown objects now
  after := does objects

end Contract

section Specs
variable {objects : Objects Path Entry} {now : Bench Path Entry} {α : Type}

/-- The gate and the diff are as they were known before, and no failure is forgotten. -/
structure Since (now later : Bench Path Entry) : Prop where
  gated : later.gated = now.gated
  shown : later.shown = now.shown
  good : later.Good → now.Good

theorem Since.trans {middle later : Bench Path Entry} (first : Since now middle) (second : Since middle later) : Since now later :=
  ⟨second.gated.trans first.gated,second.shown.trans first.shown,first.good ∘ second.good⟩

/-- How each of the three leaves the worktree, as far as nothing has failed unseen. -/
def Snapshots (objects : Objects Path Entry) (now : Bench Path Entry) (answer : Option Text) (later : Bench Path Entry) : Prop :=
  Since now later ∧ ∀ tree ∈ answer, later.Good →
    objects.staged later.toWorkingCopy = objects.staged now.toWorkingCopy ∧
      tree = objects.name (objects.staged now.toWorkingCopy)

def Restores (objects : Objects Path Entry) (tree : Text) (now : Bench Path Entry) (answer : Option Unit)
    (later : Bench Path Entry) : Prop :=
  Since now later ∧ (answer.isSome = true → later.Good → tree ≠ [] → objects.name (objects.staged later.toWorkingCopy) = tree)

def Diffs (objects : Objects Path Entry) (now : Bench Path Entry) (answer : Option Text) (later : Bench Path Entry) : Prop :=
  later.gated = now.gated ∧ (later.Good → now.Good) ∧ (answer.isSome = true → later.Good →
    objects.staged later.toWorkingCopy = objects.staged now.toWorkingCopy ∧
      later.shown = some (objects.staged now.toWorkingCopy))

theorem wp_git {tool : Tool} {rest : Int × Text → Acts α} {post : Option α → Bench Path Entry → Prop}
    (raised : ∀ later, does objects (.git tool) now none later → post none later)
    (answered : ∀ rc printed later, does objects (.git tool) now (some (rc,printed)) later →
      (rest (rc,printed)).wp (tooling objects) post later) :
    ((git tool).bind rest).wp (tooling objects) post now := by
  rw [Program.wp_bind]
  refine ⟨nofun,?_⟩
  rintro (_ | ⟨rc,printed⟩) later did
  · exact raised later did
  · exact answered rc printed later did

/-- A command of git notes what it does; a look at the index relies on the `add` before it. -/
theorem does_git {tool : Tool} {answer : Option (Int × Text)} {later : Bench Path Entry}
    (did : does objects (.git tool) now answer later) : later.gated = now.gated ∧ (later.Good → now.Good) ∧
      (looks tool = true → later.Good → now.added = true) := by
  obtain ⟨_,_,calm,reported,gated,_⟩ := did
  refine ⟨gated,?_,?_⟩
  · rintro ⟨still,quiet⟩
    rw [calm,Bool.and_eq_true,Bool.and_eq_true] at still
    exact ⟨still.1.1,reported.symm.trans quiet⟩
  · rintro looking ⟨still,_⟩
    rw [calm,Bool.and_eq_true] at still
    simpa [looking] using still.2

theorem since_git {tool : Tool} {answer : Option (Int × Text)} {later : Bench Path Entry}
    (did : does objects (.git tool) now answer later) (keeps : ∀ base, tool ≠ .diffCached base) : Since now later := by
  obtain ⟨gated,good,_⟩ := does_git did
  refine ⟨gated,did.2.2.2.2.2.trans ?_,good⟩
  cases tool with
  | diffCached base => exact absurd rfl (keeps base)
  | add | writeTree | readTree _ | clean | mergeBase | nameStatus _ => rfl

/-- An `add` that the next look relies on has staged everything. -/
theorem does_add {answer : Option (Int × Text)} {later : Bench Path Entry} (did : does objects (.git .add) now answer later)
    (added : later.added = true) : later.toWorkingCopy = objects.add now.toWorkingCopy := by
  obtain ⟨⟨_,took⟩,noted,_⟩ := did
  rw [noted] at added
  match answer with
  | none => contradiction
  | some (rc,printed) => exact took printed (by simpa using added)

theorem wp_reports {event : String} {rest : Unit → Acts α} {post : Option α → Bench Path Entry → Prop}
    (reports : Bench.reports event = true) (raised : ∀ later, Since now later → ¬later.Good → post none later)
    (answered : ∀ later, Since now later → ¬later.Good → (rest ()).wp (tooling objects) post later) :
    ((queue (.record event)).bind rest).wp (tooling objects) post now := by
  have bad : ¬{ now with reported := now.reported || Bench.reports event }.Good := fun good => by simpa [reports] using good.2
  have since : Since now { now with reported := now.reported || Bench.reports event } := ⟨rfl,rfl,fun good => absurd good bad⟩
  rw [Program.wp_bind]
  refine ⟨nofun,?_⟩
  rintro (_ | _) later rfl
  · exact raised _ since bad
  · exact answered _ since bad

theorem wp_snapshotWorktree : snapshotWorktree.wp (tooling objects) (Snapshots objects now) now := by
  apply wp_git
  · exact fun first did => ⟨since_git did nofun,nofun⟩
  intro _ _ first did
  have since := since_git did nofun
  apply wp_git
  · exact fun second looked => ⟨since.trans (since_git looked nofun),nofun⟩
  intro rc printed second looked
  have since := since.trans (since_git looked nofun)
  change Program.wp _ _ (if rc ≠ 0 then _ else _) _
  split
  · apply wp_reports rfl
    · exact fun last further bad => ⟨since.trans further,nofun⟩
    · exact fun last further bad => ⟨since.trans further,fun _ _ good => absurd good bad⟩
  next succeeded =>
    refine ⟨since,?_⟩
    rintro tree ⟨⟩ good
    have took := does_add did ((does_git looked).2.2 rfl good)
    obtain ⟨⟨same,named⟩,_⟩ := looked
    have name := named printed (by rw [not_not.mp succeeded])
    rw [same,took,Staging.staged_add,name,took,objects.plain]
    exact ⟨rfl,rfl⟩

/-- The end of `restore_worktree`, which verifies what it did. -/
theorem wp_verify {tree : Text} : ((git .add).bind fun _ => (git .writeTree).bind fun (rc,actual) =>
    if rc ≠ 0 ∨ strip actual ≠ tree then (git (.nameStatus tree)).bind fun _ => queue (.record "restore_incomplete")
    else pure ()).wp (tooling objects) (Restores objects tree now) now := by
  apply wp_git
  · exact fun first did => ⟨since_git did nofun,nofun⟩
  intro _ _ first did
  have since := since_git did nofun
  apply wp_git
  · exact fun second looked => ⟨since.trans (since_git looked nofun),nofun⟩
  intro rc printed second looked
  have since := since.trans (since_git looked nofun)
  change Program.wp _ _ (if rc ≠ 0 ∨ _ then _ else _) _
  split
  · apply wp_git
    · exact fun third listed => ⟨since.trans (since_git listed nofun),nofun⟩
    intro _ _ third listed
    have since := since.trans (since_git listed nofun)
    refine ⟨nofun,?_⟩
    rintro answer last rfl
    exact ⟨since.trans ⟨rfl,rfl,fun good => by simpa [Bench.reports] using good.2⟩,fun _ good => by simpa [Bench.reports] using good.2⟩
  next verified =>
    obtain ⟨succeeded,same⟩ := not_or.mp verified
    refine ⟨since,?_⟩
    rintro _ good _
    have took := does_add did ((does_git looked).2.2 rfl good)
    obtain ⟨⟨still,named⟩,_⟩ := looked
    have name := named printed (by rw [not_not.mp succeeded])
    rw [still,took,Staging.staged_add,← not_not.mp same,name,took,objects.plain]
    rfl

theorem wp_restoreWorktree {tree : Text} : (restoreWorktree tree).wp (tooling objects) (Restores objects tree now) now := by
  rw [restoreWorktree]
  split
  next empty => exact ⟨⟨rfl,rfl,id⟩,fun _ _ named => absurd empty named⟩
  have after {middle : Bench Path Entry} (since : Since now middle) {program : Acts Unit}
      (held : program.wp (tooling objects) (Restores objects tree middle) middle) :
      program.wp (tooling objects) (Restores objects tree now) middle :=
    Program.wp_mono (fun _ _ restored => ⟨since.trans restored.1,restored.2⟩) held
  apply wp_git
  · exact fun first did => ⟨since_git did nofun,nofun⟩
  intro _ _ first did
  have since := since_git did nofun
  apply wp_git
  · exact fun second reset => ⟨since.trans (since_git reset nofun),nofun⟩
  intro rc _ second reset
  have since := since.trans (since_git reset nofun)
  have rest {now' : Bench Path Entry} (since : Since now now') : ((git .clean).bind fun _ => (git .add).bind fun _ => (git .writeTree).bind fun (rc,actual) =>
      if rc ≠ 0 ∨ strip actual ≠ tree then (git (.nameStatus tree)).bind fun _ => queue (.record "restore_incomplete")
      else pure ()).wp (tooling objects) (Restores objects tree now) now' := by
    apply wp_git
    · exact fun third cleaned => ⟨since.trans (since_git cleaned nofun),nofun⟩
    intro _ _ third cleaned
    exact after (since.trans (since_git cleaned nofun)) wp_verify
  change Program.wp _ _ (if rc ≠ 0 then _ else _) _
  split
  · apply wp_reports rfl
    · exact fun last further bad => ⟨since.trans further,nofun⟩
    · exact fun last further bad => rest (since.trans further)
  next => exact rest since

theorem wp_worktreeDiff : worktreeDiff.wp (tooling objects) (Diffs objects now) now := by
  apply wp_git
  · exact fun first did => ⟨(does_git did).1,(does_git did).2.1,nofun⟩
  intro _ _ first did
  have since := since_git did nofun
  apply wp_git
  · exact fun second based => ⟨(since.trans (since_git based nofun)).gated,(since.trans (since_git based nofun)).good,nofun⟩
  intro _ base second based
  have since := since.trans (since_git based nofun)
  apply wp_git
  · exact fun third taken => ⟨(does_git taken).1.trans since.gated,since.good ∘ (does_git taken).2.1,nofun⟩
  intro _ _ third taken
  refine ⟨(does_git taken).1.trans since.gated,since.good ∘ (does_git taken).2.1,?_⟩
  rintro _ good
  have added : first.added = true := based.2.1.symm.trans ((does_git taken).2.2 rfl good)
  have took := does_add did added
  obtain ⟨same,_,_,_,_,shown⟩ := taken
  rw [shown,same,based.1,took,Staging.staged_add]
  exact ⟨rfl,rfl⟩

end Specs

section Restoring
variable {objects : Objects Path Entry} {now last : Bench Path Entry} {α : Type} {outcome : Option α} {events : List (Program.Event Act Act.Answer)}

/-- A command of git that ran and exited with 0. -/
def Succeeded : Program.Event Act Act.Answer → Prop
  | ⟨.git _,answer⟩ => ∃ printed, answer = some (0,printed)
  | ⟨.queue _,_⟩ => True

def recorded (event : String) (events : List (Program.Event Act Act.Answer)) : Prop :=
  ∃ answer, ⟨.queue (.record event),answer⟩ ∈ events

theorem runs_git {tool : Tool} {rest : Int × Text → Acts α}
    (ran : Program.Runs (tooling objects) ((git tool).bind rest) now events outcome last)
    (succeeded : ∀ event ∈ events, Succeeded event) : ∃ printed later others,
      events = ⟨.git tool,some (0,printed)⟩ :: others ∧ does objects (.git tool) now (some (0,printed)) later ∧
        Program.Runs (tooling objects) (rest (0,printed)) later others outcome last := by
  cases ran with
  | call answered ran =>
    obtain ⟨printed,rfl⟩ := succeeded _ List.mem_cons_self
    exact ⟨printed,_,_,rfl,answered,ran⟩

theorem runs_restoreWorktree {tree : Path → Option Entry} {outcome : Option Unit}
    (ran : Program.Runs (tooling objects) (restoreWorktree (objects.name tree)) now events outcome last)
    (succeeded : ∀ event ∈ events, Succeeded event) : last.toWorkingCopy = objects.add (objects.restored tree now.toWorkingCopy) ∧
      (recorded "restore_incomplete" events ↔ objects.staged (objects.restored tree now.toWorkingCopy) ≠ tree) := by
  rw [restoreWorktree,if_neg (objects.named tree)] at ran
  obtain ⟨added,first,_,rfl,did,ran⟩ := runs_git ran succeeded
  have one : first.toWorkingCopy = objects.add now.toWorkingCopy := did.1.2 _ rfl
  obtain ⟨_,second,_,rfl,did,ran⟩ := runs_git ran fun event among => succeeded event (by simp [among])
  have two : second.toWorkingCopy = objects.reset tree first.toWorkingCopy := did.1 _ rfl tree rfl
  obtain ⟨_,third,_,rfl,did,ran⟩ := runs_git ran fun event among => succeeded event (by simp [among])
  have three : third.toWorkingCopy = objects.restored tree now.toWorkingCopy := by
    rw [Staging.restored,← one,← two]
    exact did.1 _ rfl
  obtain ⟨_,fourth,_,rfl,did,ran⟩ := runs_git ran fun event among => succeeded event (by simp [among])
  have four : fourth.toWorkingCopy = objects.add (objects.restored tree now.toWorkingCopy) := by
    rw [← three]
    exact did.1.2 _ rfl
  obtain ⟨printed,fifth,rest,rfl,did,ran⟩ := runs_git ran fun event among => succeeded event (by simp [among])
  have five : fifth.toWorkingCopy = objects.add (objects.restored tree now.toWorkingCopy) := did.1.1.trans four
  have name : strip printed = objects.name (objects.staged (objects.restored tree now.toWorkingCopy)) := by
    rw [did.1.2 printed rfl,four,objects.plain]
    rfl
  replace ran : Program.Runs (tooling objects) (if (0 : Int) ≠ 0 ∨ strip printed ≠ objects.name tree then
      (git (.nameStatus (objects.name tree))).bind fun _ => queue (.record "restore_incomplete") else pure ()) fifth rest outcome last := ran
  split at ran
  next different =>
    have other : objects.staged (objects.restored tree now.toWorkingCopy) ≠ tree := by
      intro same
      simp [name,same] at different
    obtain ⟨_,sixth,_,rfl,did,ran⟩ := runs_git ran fun event among => succeeded event (by simp [among])
    cases ran with
    | call answered ran =>
      cases answered
      cases ran
      exact ⟨did.1.trans five,iff_of_true ⟨outcome,by simp⟩ other⟩
  next same =>
    cases ran
    have whole : objects.staged (objects.restored tree now.toWorkingCopy) = tree := by
      apply objects.distinct
      simpa [name] using same
    exact ⟨five,iff_of_false (by simp [recorded]) (not_not.mpr whole)⟩

/-- Where the commands of git succeed, `restore_incomplete` is recorded exactly where something leaks into what is staged
next. Nothing does unless a file of ignore rules was itself hidden, or a repository within the snapshot was moved. -/
theorem restore_exact {tree : Path → Option Entry} {outcome : Option Unit}
    (ran : Program.Runs (tooling objects) (restoreWorktree (objects.name tree)) now events outcome last)
    (succeeded : ∀ event ∈ events, Succeeded event) :
    (recorded "restore_incomplete" events ↔ ∃ path, objects.Leaks tree now.toWorkingCopy path) ∧
      (objects.staged last.toWorkingCopy = tree ↔ ¬recorded "restore_incomplete" events) ∧
      ∀ rule : Path → Prop, objects.Governed rule →
        (∀ path, rule path → objects.staged now.toWorkingCopy path = now.work path ∧
          ∀ entry ∈ now.work path, objects.repo entry = false) →
        (∀ path entry, tree path = some entry → objects.repo entry = true → now.work path = some entry) →
        objects.staged last.toWorkingCopy = tree := by
  obtain ⟨left,reported⟩ := runs_restoreWorktree ran succeeded
  have staged : objects.staged last.toWorkingCopy = tree ↔ ∀ path, ¬objects.Leaks tree now.toWorkingCopy path := by
    rw [left,Staging.staged_add,Staging.staged_restored]
  have leaks : recorded "restore_incomplete" events ↔ ∃ path, objects.Leaks tree now.toWorkingCopy path := by
    rw [reported,ne_eq,Staging.staged_restored,not_forall_not]
  refine ⟨leaks,?_,?_⟩
  · rw [staged,leaks,not_exists]
  · intro rule governed open_ links
    rw [staged]
    intro path
    exact Staging.not_leaks governed (fun path entry rules found => (open_ path rules).2 entry found)
      (fun path rules => (open_ path rules).1) links

end Restoring

/-- Surroundings in which every command succeeds and every agent says that it passes; `trees` reads the names of trees, and
an implementer writes the files. -/
def obliging (objects : Objects Path Entry) (trees : Text → Path → Option Entry) (files : Path → Option Entry) :
    (act : Act) → Bench Path Entry → Option act.Answer × Bench Path Entry
  | .git .add, now => (some (0,[]),{ now with toWorkingCopy := objects.add now.toWorkingCopy,added := true })
  | .git .writeTree, now => (some (0,objects.name now.index),{ now with calm := now.calm && now.added })
  | .git (.readTree name), now => (some (0,[]),{ now with toWorkingCopy := objects.reset (trees name) now.toWorkingCopy })
  | .git .clean, now => (some (0,[]),{ now with toWorkingCopy := objects.clean now.toWorkingCopy })
  | .git .mergeBase, now | .git (.nameStatus _), now => (some (0,[]),now)
  | .git (.diffCached _), now => (some (0,['x']),{ now with calm := now.calm && now.added,shown := some now.index })
  | .queue (.invoke (.implementer _)), now | .queue (.invoke (.fixer _)), now =>
    (some ⟨none,0,[]⟩,{ now with work := files,gated := none,shown := none })
  | .queue .gate, now =>
    (some (0,[]),{ now with calm := true,reported := false,gated := some (objects.staged now.toWorkingCopy),shown := none })
  | .queue (.record event), now => (some (),{ now with reported := now.reported || Bench.reports event })
  | .queue command, now => (smooth true "VERDICT: PASS".toList command,now)

theorem obliging_does {objects : Objects Path Entry} {trees : Text → Path → Option Entry} {files : Path → Option Entry}
    (reads : ∀ tree, trees (objects.name tree) = tree) (act : Act) (now : Bench Path Entry) :
    does objects act now (obliging objects trees files act now).1 (obliging objects trees files act now).2 := by
  match act with
  | .git .add => exact ⟨⟨rfl,fun _ _ => rfl⟩,rfl,by simp [obliging,looks],rfl,rfl,rfl⟩
  | .git .writeTree => exact ⟨⟨rfl,by rintro _ ⟨⟩; rfl⟩,rfl,by simp [obliging,looks],rfl,rfl,rfl⟩
  | .git (.readTree name) =>
    refine ⟨?_,rfl,by simp [obliging,looks],rfl,rfl,rfl⟩
    rintro _ _ found rfl
    simp only [obliging,reads]
  | .git .clean => exact ⟨fun _ _ => rfl,rfl,by simp [obliging,looks],rfl,rfl,rfl⟩
  | .git .mergeBase | .git (.nameStatus _) => exact ⟨rfl,rfl,by simp [obliging,looks],rfl,rfl,rfl⟩
  | .git (.diffCached _) => exact ⟨rfl,rfl,by simp [obliging,looks],rfl,rfl,rfl⟩
  | .queue (.record event) => rfl
  | .queue .gate | .queue .mergeWorktree | .queue (.invoke (.implementer _)) | .queue (.invoke (.fixer _))
  | .queue (.invoke .critic) | .queue (.invoke (.resolver _)) | .queue (.invoke (.reviewer _))
  | .queue (.invoke (.unblocker _)) => exact ⟨rfl,rfl,rfl,rfl⟩
  | .queue (.issueList _ _) | .queue (.viewLabels _) | .queue (.viewBody _) | .queue (.edit _ _ _) | .queue (.editBody _ _)
  | .queue (.comment _) | .queue (.close _) | .queue .overWallclock | .queue .noAgentUsable | .queue .makeWorktree
  | .queue .retireWorktree | .queue (.writePatch _) | .queue .guardEnter | .queue .guardExit | .queue .snapshotWorktree
  | .queue (.restoreWorktree _) | .queue .worktreeDiff => rfl

/-- A build directory: its rules hide the other two files, and the inner ones its output. -/
inductive File
  | rules
  | innerRules
  | output
  deriving DecidableEq

def nested : Objects File Unit where
  ignored work
    | .rules => false
    | .innerRules => (work .rules).isSome
    | .output => (work .rules).isSome || (work .innerRules).isSome
  repo _ := false
  name tree := [.rules,.innerRules,.output].map fun file => if (tree file).isSome then '1' else '0'
  distinct first second same := by
    funext file
    simp only [List.map_cons,List.map_nil,List.cons.injEq,and_true] at same
    cases file <;> cases one : first _ <;> cases two : second _ <;> simp_all
  plain tree := by
    simp only [List.map_cons,List.map_nil]
    generalize (tree .rules).isSome = rules,(tree .innerRules).isSome = innerRules,(tree .output).isSome = output
    cases rules <;> cases innerRules <;> cases output <;> rfl
  named tree := by simp

def nestedTree (name : Text) : File → Option Unit
  | .rules => if name[0]? = some '1' then some () else none
  | .innerRules => if name[1]? = some '1' then some () else none
  | .output => if name[2]? = some '1' then some () else none

theorem nestedTree_name (tree : File → Option Unit) : nestedTree (nested.name tree) = tree := by
  funext file
  cases file <;> cases found : tree _ <;> simp [nestedTree,nested,found]

abbrev obliged (act : Act) (now : Bench File Unit) : Option act.Answer × Bench File Unit :=
  obliging nested nestedTree (fun _ => some ()) act now

def littered : Bench File Unit := ⟨⟨fun _ => some (),fun _ => none⟩,false,true,false,none,none⟩

/-- A directory whose output leaks: the rules that hid the inner ones are deleted with the index. -/
theorem restore_exact_leak :
    recorded "restore_incomplete" (Program.transcript obliged 7 (restoreWorktree (nested.name fun _ => none)) littered) ∧
      ∃ path, nested.Leaks (fun _ => none) littered.toWorkingCopy path := by
  have ran := @Program.runs_walk _ _ _ _ (tooling nested) obliged (obliging_does nestedTree_name) 7
    (restoreWorktree (nested.name fun _ => none)) littered (some ()) rfl
  have events : Program.transcript obliged 7 (restoreWorktree (nested.name fun _ => none)) littered =
    [⟨.git .add,some (0,[])⟩,⟨.git (.readTree "000".toList),some (0,[])⟩,⟨.git .clean,some (0,[])⟩,⟨.git .add,some (0,[])⟩,
      ⟨.git .writeTree,some (0,"001".toList)⟩,⟨.git (.nameStatus "000".toList),some (0,[])⟩,
      ⟨.queue (.record "restore_incomplete"),some ()⟩] := rfl
  have incomplete : recorded "restore_incomplete" (Program.transcript obliged 7 (restoreWorktree (nested.name fun _ => none)) littered) := by
    rw [events]
    exact ⟨some (),by simp⟩
  exact ⟨incomplete,(restore_exact ran (by rw [events]; simp [Succeeded])).1.mp incomplete⟩

end Frankenrust.Orchestrator.Snapshot
