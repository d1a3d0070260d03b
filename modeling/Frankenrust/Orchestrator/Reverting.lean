import Frankenrust.Library.Runs
import Frankenrust.Orchestrator.RootGuard

/-! The whole of `guard_root_writes`: what it takes back in the main checkout, and what the
journal says of it. The commands are those of git and of the journal; one that could not be
started is an exception. -/
namespace Frankenrust.Orchestrator.Reverting
open Program Status RootGuard

/-- `stage` is the body of the `with`, `capture` is `_root_fingerprints` and `status` is `_root_status`. -/
inductive Command
  | capture
  | status
  | catFile (path : Text)
  | diff (path : Text)
  | checkout (path : Text)
  | rootWrite (paths reverted notReverted : List Text) (revertedDiff : List (Text × Text))
  | revertFailed (paths : List Text)
  | acquire
  | release
  | stage
  deriving DecidableEq

abbrev Answer : Command → Type
  | .capture => Statuses
  | .status => Statuses × Statuses
  | .catFile _ => Int
  | .diff _ | .checkout _ => Int × Text
  | .rootWrite .. | .revertFailed _ | .acquire | .release | .stage => Unit

abbrev Steps := Program Command Answer

abbrev call (command : Command) : Steps (Answer command) := Program.invoke command

abbrev History := List (Program.Event Command Answer)

def strayed (before after : Statuses) : List Text :=
  ((after.filter fun entry => Dict.get entry.1 before ≠ some entry.2).map (·.1)).insertionSort (· ≤ ·)

/-- Over the captures of two checkouts these are the paths that the guard finds changed. -/
theorem strayed_changed {before after : Root} {first second : Statuses} (one : rootFingerprints before = some first)
    (two : rootFingerprints after = some second) : changed before after = strayed first second := by
  rw [changed,one,two]
  rfl

def classify : List Text → Steps (List Text × List Text)
  | [] => pure ([],[])
  | path :: rest => do
    let rc ← call (.catFile path)
    let (tracked,untracked) ← classify rest
    pure (if rc = 0 then (path :: tracked,untracked) else (tracked,path :: untracked))

def diffText (answer : Int × Text) : Text :=
  if answer.1 = 0 then answer.2 else "(diff failed: ".toList ++ answer.2.drop (answer.2.length - 200) ++ ")".toList

def diffs : List Text → Steps (List (Text × Text))
  | [] => pure []
  | path :: rest => do
    let answer ← call (.diff path)
    let others ← diffs rest
    pure ((path,diffText answer) :: others)

/-- `checkout_failed`. -/
def checkouts : List Text → Steps (List Text)
  | [] => pure []
  | path :: rest => do
    let out ← call (.checkout path)
    let failed ← checkouts rest
    pure (if out.1 ≠ 0 then path :: failed else failed)

def stuck (failed : List Text) (status : Statuses × Statuses) (path : Text) : Bool :=
  path ∈ failed ∨ Dict.get path status.1 ≠ none ∨ Dict.get path status.2 ≠ none

def verify (tracked failed : List Text) : Steps (List Text) :=
  ((call .status).bind fun status => pure (tracked.filter (stuck failed status))).handle (pure tracked)

/-- What is done under `_merge_lock`. -/
def revert (tracked : List Text) : Steps (List Text) := do
  let failed ← checkouts tracked
  verify tracked failed

def take : Steps (Option Statuses) := ((call .capture).bind fun fingerprints => pure (some fingerprints)).handle (pure none)

def takeBack (changed : List Text) : Steps Unit :=
  if changed = [] then pure ()
  else do
    let (tracked,untracked) ← classify changed
    let revertedDiff ← diffs tracked
    call (.rootWrite changed tracked untracked revertedDiff)
    call .acquire
    let failed ← (revert tracked).ensure (call .release)
    if failed = [] then pure () else call (.revertFailed failed)

def afterStage : Option Statuses → Steps Unit
  | none => pure ()
  | some before => take.bind fun after =>
    match after with
    | none => pure ()
    | some after => takeBack (strayed before after)

def guardRootWrites : Steps Unit := take.bind fun before => (call .stage).ensure (afterStage before)

/-- The lock is a plain one: taking it and giving it back raise nothing. -/
def may (command : Command) (answer : Option (Answer command)) : Prop :=
  match command with
  | .acquire | .release => answer ≠ none
  | _ => True

def lockHeld (history : History) : Bool :=
  history.foldl (fun held event => match event.command with | .acquire => true | .release => false | _ => held) false

/-- Before a path is taken back the journal has it, with the diff against the commit, and the lock is held. -/
def Journaled (path : Text) (history : History) : Prop :=
  lockHeld history = true ∧ ∃ front back before after tracked untracked revertedDiff answer,
    history = front ++ ⟨.rootWrite (strayed before after) tracked untracked revertedDiff,some ()⟩ :: back ∧
    ⟨.capture,some before⟩ ∈ front ∧ ⟨.capture,some after⟩ ∈ front ∧ path ∈ strayed before after ∧ path ∈ tracked ∧
    ⟨.catFile path,some (0 : Int)⟩ ∈ front ∧ ⟨.diff path,some answer⟩ ∈ front ∧ (path,diffText answer) ∈ revertedDiff

def permits (command : Command) (history : History) : Prop := ∀ path, command = .checkout path → Journaled path history

def tooling : Contract Command Answer History := .recording may permits

/-- The history goes on by calls of one kind. -/
def Onward (kind : Command → Prop) (past later : History) : Prop := ∃ more, later = past ++ more ∧ ∀ event ∈ more, kind event.command

/-- A command of the guard's own has raised, other than one that it can do without. -/
def Raised (history : History) : Prop :=
  ∃ event ∈ history, event.answer = none ∧ event.command ≠ .capture ∧ event.command ≠ .status ∧ event.command ≠ .stage

def free (command : Command) : Prop := command ≠ .acquire ∧ command ≠ .release

section Histories
variable {kind : Command → Prop} {past middle later : History}

theorem Onward.refl : Onward kind past past := ⟨[],by simp,by simp⟩

theorem Onward.snoc (event : Program.Event Command Answer) (is : kind event.command) : Onward kind past (past ++ [event]) :=
  ⟨[event],rfl,fun _ only => (List.mem_singleton.mp only) ▸ is⟩

theorem Onward.trans (first : Onward kind past middle) (second : Onward kind middle later) :
    Onward kind past later := by
  obtain ⟨more,rfl,these⟩ := first
  obtain ⟨rest,rfl,those⟩ := second
  refine ⟨more ++ rest,by simp,fun event member => ?_⟩
  rcases List.mem_append.mp member with member | member
  · exact these event member
  · exact those event member

theorem Onward.imp {other : Command → Prop} (onward : Onward kind past later) (implied : ∀ command, kind command → other command) :
    Onward other past later := by
  obtain ⟨more,same,these⟩ := onward
  exact ⟨more,same,fun event member => implied _ (these event member)⟩

theorem Onward.mem (onward : Onward kind past later) {event : Program.Event Command Answer} (member : event ∈ past) : event ∈ later := by
  obtain ⟨more,rfl,_⟩ := onward
  exact List.mem_append_left _ member

theorem Onward.old (onward : Onward kind past later) {event : Program.Event Command Answer} (member : event ∈ later)
    (other : ¬kind event.command) : event ∈ past := by
  obtain ⟨more,rfl,these⟩ := onward
  exact (List.mem_append.mp member).resolve_right fun new => other (these event new)

theorem lockHeld_snoc (event : Program.Event Command Answer) : lockHeld (past ++ [event]) =
    match event.command with | .acquire => true | .release => false | _ => lockHeld past := List.foldl_append

theorem Onward.lock (onward : Onward free past later) : lockHeld later = lockHeld past := by
  obtain ⟨more,rfl,these⟩ := onward
  induction more using List.reverseRecOn with
  | nil => rw [List.append_nil]
  | append_singleton more event ih =>
    have own := these event (by simp)
    rw [← List.append_assoc,lockHeld_snoc,ih fun other member => these other (by simp [member])]
    cases command : event.command <;> simp_all [free]

theorem Raised.mono (raised : Raised past) (kept : ∀ event ∈ past, event ∈ later) : Raised later := by
  obtain ⟨event,member,facts⟩ := raised
  exact ⟨event,kept event member,facts⟩

end Histories

section Specs
variable {past : History}

theorem wp_call {α : Type} {command : Command} {rest : Answer command → Steps α} {post : Option α → History → Prop}
    (permitted : permits command past) (raised : may command none → post none (past ++ [⟨command,none⟩]))
    (answered : ∀ value, (rest value).wp tooling post (past ++ [⟨command,some value⟩])) :
    ((call command).bind rest).wp tooling post past :=
  wp_recorded.mpr ⟨permitted,raised,fun value _ => answered value⟩

def catFiles (command : Command) : Prop := ∃ path, command = .catFile path

/-- Every path is looked up in the commit, and belongs to one list. -/
def Classified (paths : List Text) (later : History) (lists : List Text × List Text) : Prop :=
  (∀ path ∈ lists.1, path ∈ paths ∧ ⟨.catFile path,some (0 : Int)⟩ ∈ later) ∧
  (∀ path ∈ lists.2, ∃ rc : Int, rc ≠ 0 ∧ ⟨.catFile path,some rc⟩ ∈ later) ∧ ∀ path ∈ paths, path ∈ lists.1 ∨ path ∈ lists.2

theorem classify_spec (paths : List Text) : (classify paths).wp tooling (fun answer later =>
    Onward catFiles past later ∧ (answer = none → Raised later) ∧ ∀ lists ∈ answer, Classified paths later lists) past := by
  induction paths generalizing past with
  | nil => exact ⟨.refl,nofun,fun lists same => by cases same; exact ⟨nofun,nofun,nofun⟩⟩
  | cons path rest ih =>
    refine wp_call nofun (fun _ => ?_) fun rc => ?_
    · exact ⟨.snoc _ ⟨path,rfl⟩,fun _ => ⟨_,List.mem_append_right _ (List.mem_singleton_self _),rfl,nofun,nofun,nofun⟩,nofun⟩
    · rw [bind_eq,wp_bind]
      apply wp_mono _ ih
      rintro (_ | ⟨tracked,untracked⟩) later ⟨onward,raised,classified⟩
      · exact ⟨.trans (.snoc _ ⟨path,rfl⟩) onward,raised,nofun⟩
      · obtain ⟨own,others,all⟩ := classified _ rfl
        have here : ⟨.catFile path,some rc⟩ ∈ later := onward.mem (List.mem_append_right _ (List.mem_singleton_self _))
        refine ⟨.trans (.snoc _ ⟨path,rfl⟩) onward,nofun,fun lists same => ?_⟩
        cases same
        by_cases there : rc = 0
        · subst there
          rw [if_pos rfl]
          refine ⟨fun other member => ?_,others,fun other member => ?_⟩
          · rcases List.mem_cons.mp member with rfl | member
            · exact ⟨by simp,here⟩
            · exact ⟨List.mem_cons_of_mem _ (own other member).1,(own other member).2⟩
          · rcases List.mem_cons.mp member with rfl | member
            · exact .inl (by simp)
            · exact (all other member).imp (List.mem_cons_of_mem _) id
        · rw [if_neg there]
          refine ⟨fun other member => ?_,fun other member => ?_,fun other member => ?_⟩
          · exact ⟨List.mem_cons_of_mem _ (own other member).1,(own other member).2⟩
          · rcases List.mem_cons.mp member with rfl | member
            · exact ⟨rc,there,here⟩
            · exact others other member
          · rcases List.mem_cons.mp member with rfl | member
            · exact .inr (by simp)
            · exact (all other member).imp id (List.mem_cons_of_mem _)

def diffing (command : Command) : Prop := ∃ path, command = .diff path

theorem diffs_spec (paths : List Text) : (diffs paths).wp tooling (fun answer later =>
    Onward diffing past later ∧ (answer = none → Raised later) ∧
      ∀ shown ∈ answer, ∀ path ∈ paths, ∃ out, ⟨.diff path,some out⟩ ∈ later ∧ (path,diffText out) ∈ shown) past := by
  induction paths generalizing past with
  | nil => exact ⟨.refl,nofun,fun _ _ => nofun⟩
  | cons path rest ih =>
    refine wp_call nofun (fun _ => ?_) fun out => ?_
    · exact ⟨.snoc _ ⟨path,rfl⟩,fun _ => ⟨_,List.mem_append_right _ (List.mem_singleton_self _),rfl,nofun,nofun,nofun⟩,nofun⟩
    · rw [bind_eq,wp_bind]
      apply wp_mono _ ih
      rintro (_ | shown) later ⟨onward,raised,all⟩
      · exact ⟨.trans (.snoc _ ⟨path,rfl⟩) onward,raised,nofun⟩
      · have here : ⟨.diff path,some out⟩ ∈ later := onward.mem (List.mem_append_right _ (List.mem_singleton_self _))
        refine ⟨.trans (.snoc _ ⟨path,rfl⟩) onward,nofun,fun both same other member => ?_⟩
        cases same
        rcases List.mem_cons.mp member with rfl | member
        · exact ⟨out,here,by simp⟩
        · obtain ⟨out',known,listed⟩ := all shown rfl other member
          exact ⟨out',known,List.mem_cons_of_mem _ listed⟩

def checking (command : Command) : Prop := ∃ path, command = .checkout path

theorem Journaled.onward {later : History} {path : Text} (journaled : Journaled path past) (onward : Onward free past later) :
    Journaled path later := by
  have same := onward.lock
  obtain ⟨more,rfl,_⟩ := onward
  obtain ⟨held,front,back,before,after,tracked,untracked,shown,answer,rfl,facts⟩ := journaled
  exact ⟨same.trans held,front,back ++ more,before,after,tracked,untracked,shown,answer,by simp,facts⟩

theorem checkouts_spec (paths : List Text) (journaled : ∀ path ∈ paths, Journaled path past) : (checkouts paths).wp tooling
    (fun answer later => Onward checking past later ∧ (answer = none → Raised later) ∧ ∀ failed ∈ answer,
      (∀ path ∈ failed, ∃ out : Int × Text, out.1 ≠ 0 ∧ ⟨.checkout path,some out⟩ ∈ later) ∧
      ∀ path ∈ paths, path ∉ failed → ∃ text, ⟨.checkout path,some ((0 : Int),text)⟩ ∈ later) past := by
  induction paths generalizing past with
  | nil => exact ⟨.refl,nofun,fun failed same => by cases same; exact ⟨nofun,nofun⟩⟩
  | cons path rest ih =>
    have permitted : permits (.checkout path) past := fun other same => by cases same; exact journaled path (by simp)
    refine wp_call permitted (fun _ => ?_) fun out => ?_
    · exact ⟨.snoc _ ⟨path,rfl⟩,fun _ => ⟨_,List.mem_append_right _ (List.mem_singleton_self _),rfl,nofun,nofun,nofun⟩,nofun⟩
    · obtain ⟨rc,text⟩ := out
      have step : Onward free past (past ++ [⟨.checkout path,some (rc,text)⟩]) := .snoc _ ⟨nofun,nofun⟩
      rw [bind_eq,wp_bind]
      apply wp_mono _ (ih fun other member => (journaled other (List.mem_cons_of_mem _ member)).onward step)
      rintro (_ | failed) later ⟨onward,raised,facts⟩
      · exact ⟨.trans (.snoc _ ⟨path,rfl⟩) onward,raised,nofun⟩
      · obtain ⟨bad,good⟩ := facts _ rfl
        have here : ⟨.checkout path,some (rc,text)⟩ ∈ later := onward.mem (List.mem_append_right _ (List.mem_singleton_self _))
        refine ⟨.trans (.snoc _ ⟨path,rfl⟩) onward,nofun,fun all same => ?_⟩
        cases same
        by_cases done : rc = 0
        · subst done
          rw [if_neg (by simp)]
          refine ⟨bad,fun other member spared => ?_⟩
          rcases List.mem_cons.mp member with rfl | member
          · exact ⟨text,here⟩
          · exact good other member spared
        · rw [if_pos done]
          refine ⟨fun other member => ?_,fun other member spared => ?_⟩
          · rcases List.mem_cons.mp member with rfl | member
            · exact ⟨(rc,text),done,here⟩
            · exact bad other member
          · rw [List.mem_cons,not_or] at spared
            rcases List.mem_cons.mp member with rfl | member
            · exact absurd rfl spared.1
            · exact good other member spared.2

def Listed (path : Text) (status : Statuses × Statuses) : Prop := Dict.get path status.1 ≠ none ∨ Dict.get path status.2 ≠ none

/-- The checkout succeeded and the status that was read then does not have the path. -/
def Undone (path : Text) (history : History) : Prop :=
  (∃ text, ⟨.checkout path,some ((0 : Int),text)⟩ ∈ history) ∧ ∃ status, ⟨.status,some status⟩ ∈ history ∧ ¬Listed path status

def Stuck (path : Text) (history : History) : Prop :=
  (∃ out : Int × Text, out.1 ≠ 0 ∧ ⟨.checkout path,some out⟩ ∈ history) ∨ (∃ status, ⟨.status,some status⟩ ∈ history ∧ Listed path status) ∨
    ⟨.status,none⟩ ∈ history

theorem Undone.mono {later : History} {path : Text} (undone : Undone path past) (kept : ∀ event ∈ past, event ∈ later) :
    Undone path later := by
  obtain ⟨⟨text,done⟩,status,read,free⟩ := undone
  exact ⟨⟨text,kept _ done⟩,status,kept _ read,free⟩

theorem Stuck.mono {later : History} {path : Text} (stuck : Stuck path past) (kept : ∀ event ∈ past, event ∈ later) :
    Stuck path later := by
  rcases stuck with ⟨out,nonzero,refused⟩ | ⟨status,read,listed⟩ | unread
  · exact .inl ⟨out,nonzero,kept _ refused⟩
  · exact .inr (.inl ⟨status,kept _ read,listed⟩)
  · exact .inr (.inr (kept _ unread))

def reverting (command : Command) : Prop := checking command ∨ command = .status

/-- What is reported is stuck, and the rest is undone. -/
def Reported (tracked failed : List Text) (history : History) : Prop :=
  (∀ path ∈ failed, Stuck path history) ∧ ∀ path ∈ tracked, path ∉ failed → Undone path history

theorem stuck_iff {failed : List Text} {status : Statuses × Statuses} {path : Text} :
    stuck failed status path = true ↔ path ∈ failed ∨ Listed path status := by
  simp [stuck,Listed]

theorem revert_spec (tracked : List Text) (journaled : ∀ path ∈ tracked, Journaled path past) : (revert tracked).wp tooling
    (fun answer later => Onward reverting past later ∧ (answer = none → Raised later) ∧
      ∀ failed ∈ answer, Reported tracked failed later) past := by
  rw [revert,bind_eq,wp_bind]
  apply wp_mono _ (checkouts_spec tracked journaled)
  rintro (_ | failed) middle ⟨onward,raised,facts⟩
  · exact ⟨onward.imp fun _ is => .inl is,raised,nofun⟩
  · obtain ⟨bad,good⟩ := facts _ rfl
    have whole {answer : Option (Statuses × Statuses)} : Onward reverting past (middle ++ [⟨.status,answer⟩]) :=
      .trans (onward.imp fun _ is => .inl is) (.snoc _ (.inr rfl))
    have kept {answer : Option (Statuses × Statuses)} {event : Program.Event Command Answer} (member : event ∈ middle) :
        event ∈ middle ++ [⟨.status,answer⟩] := List.mem_append_left _ member
    have last {answer : Option (Statuses × Statuses)} : ⟨.status,answer⟩ ∈ middle ++ [⟨Command.status,answer⟩] :=
      List.mem_append_right _ (List.mem_singleton_self _)
    rw [andThen,verify,wp_handle]
    refine wp_call nofun (fun _ => ?_) fun status => ?_
    · refine ⟨whole,nofun,fun reported same => ?_⟩
      cases same
      exact ⟨fun _ _ => .inr (.inr last),fun path member spared => absurd member spared⟩
    · refine ⟨whole,nofun,fun reported same => ?_⟩
      cases same
      refine ⟨fun path member => ?_,fun path member spared => ?_⟩
      · rcases stuck_iff.mp (List.mem_filter.mp member).2 with refused | listed
        · obtain ⟨out,nonzero,known⟩ := bad path refused
          exact .inl ⟨out,nonzero,kept known⟩
        · exact .inr (.inl ⟨status,last,listed⟩)
      · have free : ¬(path ∈ failed ∨ Listed path status) :=
          fun held => spared (List.mem_filter.mpr ⟨member,stuck_iff.mpr held⟩)
        rw [not_or] at free
        obtain ⟨text,done⟩ := good path member free.1
        exact ⟨⟨text,kept done⟩,status,last,free.2⟩

/-- Before the guard looks at what has changed. -/
def Fresh (history : History) : Prop := ∀ event ∈ history, event.command = .capture ∨ event.command = .stage

/-- What the guard has seen to where it raises nothing. -/
def Answered (changed : List Text) (history : History) : Prop :=
  changed = [] ∨ ∃ tracked untracked revertedDiff, ⟨.rootWrite changed tracked untracked revertedDiff,some ()⟩ ∈ history ∧
    Classified changed history (tracked,untracked)

/-- The journal is true: of what is said to be taken back everything is, but for what is reported. -/
structure Settled (outcome : Option Unit) (history : History) : Prop where
  unlocked : lockHeld history = false
  raised : outcome = none → Raised history
  undone : outcome = some () → ∀ changed tracked untracked revertedDiff,
    ⟨.rootWrite changed tracked untracked revertedDiff,some ()⟩ ∈ history → ∀ path ∈ tracked,
      Undone path history ∨ ∃ paths, ⟨.revertFailed paths,some ()⟩ ∈ history ∧ path ∈ paths
  honest : ∀ paths, ⟨.revertFailed paths,some ()⟩ ∈ history → paths ≠ [] ∧ ∀ path ∈ paths, Stuck path history

/-- No record so far. -/
def Silent (command : Command) : Prop := match command with | .rootWrite .. | .revertFailed _ => False | _ => True

theorem settled_silent {outcome : Option Unit} (unlocked : lockHeld past = false) (raised : outcome = none → Raised past)
    (silent : ∀ event ∈ past, Silent event.command) : Settled outcome past :=
  ⟨unlocked,raised,fun _ _ _ _ _ written => (silent _ written).elim,fun _ written => (silent _ written).elim⟩

theorem fresh_silent (fresh : Fresh past) : ∀ event ∈ past, Silent event.command := by
  intro event member
  rcases fresh event member with command | command <;> simp [command,Silent]

theorem onward_silent {kind : Command → Prop} {later : History} (onward : Onward kind past later)
    (silent : ∀ event ∈ past, Silent event.command) (quiet : ∀ command, kind command → Silent command) :
    ∀ event ∈ later, Silent event.command := by
  obtain ⟨more,rfl,these⟩ := onward
  intro event member
  rcases List.mem_append.mp member with old | new
  · exact silent event old
  · exact quiet _ (these event new)

/-- From the record of the stray paths on, with the lock taken and given back. -/
theorem recorded_spec {before after : Statuses} {tracked untracked : List Text} {revertedDiff : List (Text × Text)}
    (silent : ∀ event ∈ past, Silent event.command) (unlocked : lockHeld past = false)
    (captured : ⟨.capture,some before⟩ ∈ past ∧ ⟨.capture,some after⟩ ∈ past)
    (classified : Classified (strayed before after) past (tracked,untracked))
    (shown : ∀ path ∈ tracked, ∃ out, ⟨.diff path,some out⟩ ∈ past ∧ (path,diffText out) ∈ revertedDiff) :
    ((call (.rootWrite (strayed before after) tracked untracked revertedDiff)).bind fun _ => (call .acquire).bind fun _ =>
      ((revert tracked).ensure (call .release)).bind fun failed =>
        if failed = [] then pure () else call (.revertFailed failed)).wp tooling
      (fun outcome later => Settled outcome later ∧ (∀ event ∈ past, event ∈ later) ∧
        (outcome = some () → ⟨.rootWrite (strayed before after) tracked untracked revertedDiff,some ()⟩ ∈ later)) past := by
  refine wp_call nofun (fun _ => ?_) fun ⟨⟩ => wp_call nofun (fun raises => absurd rfl raises) fun ⟨⟩ => ?_
  · -- nothing is written where the record fails
    have raised : Raised (past ++ [⟨.rootWrite (strayed before after) tracked untracked revertedDiff,none⟩]) :=
      ⟨_,List.mem_append_right _ (List.mem_singleton_self _),rfl,nofun,nofun,nofun⟩
    have known {event : Program.Event Command Answer} (quiet : Silent event.command → False) (answered : event.answer ≠ none) :
        event ∉ past ++ [⟨.rootWrite (strayed before after) tracked untracked revertedDiff,none⟩] := by
      intro member
      rcases List.mem_append.mp member with old | new
      · exact quiet (silent event old)
      · rw [List.mem_singleton.mp new] at answered
        exact answered rfl
    refine ⟨⟨?_,fun _ => raised,nofun,?_⟩,fun event member => List.mem_append_left _ member,nofun⟩
    · rw [lockHeld_snoc]
      exact unlocked
    · exact fun paths written => absurd written (known id nofun)
  · generalize written : past ++ [⟨.rootWrite (strayed before after) tracked untracked revertedDiff,some ()⟩] = recorded
    have record : ⟨.rootWrite (strayed before after) tracked untracked revertedDiff,some ()⟩ ∈ recorded :=
      written ▸ List.mem_append_right _ (List.mem_singleton_self _)
    have journaled : ∀ path ∈ tracked, Journaled path (recorded ++ [⟨.acquire,some ()⟩]) := by
      intro path member
      obtain ⟨inside,found⟩ := classified.1 path member
      obtain ⟨out,diffed,listed⟩ := shown path member
      refine ⟨by rw [lockHeld_snoc],past,[⟨.acquire,some ()⟩],before,after,tracked,untracked,revertedDiff,out,?_,captured.1,captured.2,
        inside,member,found,diffed,listed⟩
      rw [← written]
      simp
    rw [wp_bind,wp_ensure]
    apply wp_mono _ (revert_spec tracked journaled)
    intro answer middle ⟨onward,raised,reported⟩
    refine wp_call nofun (fun raises => absurd rfl raises) fun ⟨⟩ => ?_
    -- up to here there is one record
    have only : ∀ event ∈ middle ++ [⟨.release,some ()⟩], event ∈ recorded ∨ Silent event.command := by
      intro event member
      rcases List.mem_append.mp member with old | new
      · by_cases own : reverting event.command
        · refine .inr ?_
          rcases own with ⟨path,command⟩ | command <;> simp [command,Silent]
        · rcases List.mem_append.mp (onward.old old own) with early | lock
          · exact .inl early
          · exact .inr ((List.mem_singleton.mp lock) ▸ trivial)
      · exact .inr ((List.mem_singleton.mp new) ▸ trivial)
    have alone {changed others lost : List Text} {lines : List (Text × Text)} {answered : Option Unit}
        (member : ⟨.rootWrite changed others lost lines,answered⟩ ∈ middle ++ [⟨Command.release,some ()⟩]) : others = tracked := by
      rcases only _ member with early | quiet
      · rw [← written] at early
        rcases List.mem_append.mp early with old | new
        · exact (silent _ old).elim
        · cases List.mem_singleton.mp new
          rfl
      · exact quiet.elim
    have none_failed {paths : List Text} {answered : Option Unit} :
        ⟨.revertFailed paths,answered⟩ ∉ middle ++ [⟨Command.release,some ()⟩] := by
      intro member
      rcases only _ member with early | quiet
      · rw [← written] at early
        rcases List.mem_append.mp early with old | new
        · exact (silent _ old).elim
        · cases List.mem_singleton.mp new
      · exact quiet.elim
    have kept : ∀ event ∈ recorded, event ∈ middle ++ [⟨.release,some ()⟩] := fun event member =>
      List.mem_append_left _ (onward.mem (List.mem_append_left _ member))
    have unlocked : lockHeld (middle ++ [⟨.release,some ()⟩]) = false := lockHeld_snoc _
    have past_kept : ∀ event ∈ past, event ∈ middle ++ [⟨.release,some ()⟩] := fun event member =>
      kept event (written ▸ List.mem_append_left _ member)
    have later {event : Program.Event Command Answer} : ∀ old ∈ middle, old ∈ middle ++ [event] := fun _ => List.mem_append_left _
    cases answer with
    | none =>
      refine ⟨⟨unlocked,fun _ => (raised rfl).mono later,nofun,fun paths member => absurd member none_failed⟩,past_kept,nofun⟩
    | some failed =>
      obtain ⟨bad,good⟩ := reported failed rfl
      change Program.wp tooling _ (if failed = [] then pure () else call (.revertFailed failed)) _
      by_cases empty : failed = []
      · rw [if_pos empty]
        refine ⟨⟨unlocked,nofun,fun _ changed others lost lines member path inside => ?_,fun paths member => absurd member none_failed⟩,
          past_kept,fun _ => kept _ record⟩
        rw [alone member] at inside
        exact .inl ((good path inside (by simp [empty])).mono later)
      · rw [if_neg empty]
        refine ⟨nofun,?_⟩
        rintro answered last ⟨_,rfl⟩
        have last {event : Program.Event Command Answer} (member : event ∈ middle ++ [⟨.release,some ()⟩]) :
            event ∈ middle ++ [⟨.release,some ()⟩] ++ [⟨.revertFailed failed,answered⟩] := List.mem_append_left _ member
        have newest : ⟨.revertFailed failed,answered⟩ ∈
            middle ++ [⟨Command.release,some ()⟩] ++ [⟨.revertFailed failed,answered⟩] := List.mem_append_right _ (List.mem_singleton_self _)
        refine ⟨⟨?_,?_,?_,?_⟩,fun event member => last (past_kept event member),fun _ => last (kept _ record)⟩
        · rw [lockHeld_snoc]
          exact unlocked
        · rintro rfl
          exact ⟨_,newest,rfl,nofun,nofun,nofun⟩
        · rintro rfl changed others lost lines member path inside
          have before := (List.mem_append.mp member).resolve_right fun new => by cases List.mem_singleton.mp new
          rw [alone before] at inside
          by_cases reported : path ∈ failed
          · exact .inr ⟨failed,newest,reported⟩
          · exact .inl ((good path inside reported).mono fun event old => last (later event old))
        · intro paths member
          rcases List.mem_append.mp member with old | new
          · exact absurd old none_failed
          · cases List.mem_singleton.mp new
            exact ⟨empty,fun path inside => (bad path inside).mono fun event old => last (later event old)⟩

/-- Looking at the paths changes neither the lock nor what the journal has. -/
theorem quiet_kept {kind : Command → Prop} {later : History} (onward : Onward kind past later)
    (quiet : ∀ command, kind command → free command ∧ Silent command) (unlocked : lockHeld past = false)
    (silent : ∀ event ∈ past, Silent event.command) : lockHeld later = false ∧ ∀ event ∈ later, Silent event.command :=
  ⟨((onward.imp fun command is => (quiet command is).1).lock).trans unlocked,
    onward_silent onward silent fun command is => (quiet command is).2⟩

theorem catFiles_quiet (command : Command) (is : catFiles command) : free command ∧ Silent command := by
  obtain ⟨path,rfl⟩ := is
  exact ⟨⟨nofun,nofun⟩,trivial⟩

theorem diffing_quiet (command : Command) (is : diffing command) : free command ∧ Silent command := by
  obtain ⟨path,rfl⟩ := is
  exact ⟨⟨nofun,nofun⟩,trivial⟩

theorem Classified.mono {later : History} {paths : List Text} {lists : List Text × List Text} (classified : Classified paths past lists)
    (kept : ∀ event ∈ past, event ∈ later) : Classified paths later lists := by
  obtain ⟨own,others,all⟩ := classified
  refine ⟨fun path member => ⟨(own path member).1,kept _ (own path member).2⟩,fun path member => ?_,all⟩
  obtain ⟨rc,nonzero,found⟩ := others path member
  exact ⟨rc,nonzero,kept _ found⟩

/-- The whole of the guard after the stage. -/
theorem takeBack_spec {before after : Statuses} (silent : ∀ event ∈ past, Silent event.command) (unlocked : lockHeld past = false)
    (captured : ⟨.capture,some before⟩ ∈ past ∧ ⟨.capture,some after⟩ ∈ past) : (takeBack (strayed before after)).wp tooling
      (fun outcome later => Settled outcome later ∧ (∀ event ∈ past, event ∈ later) ∧
        (outcome = some () → Answered (strayed before after) later)) past := by
  rw [takeBack]
  split
  next empty => exact ⟨settled_silent unlocked nofun silent,fun _ => id,fun _ => .inl empty⟩
  next =>
    rw [bind_eq,wp_bind]
    apply wp_mono _ (classify_spec (strayed before after))
    intro answer first ⟨onward,raised,classified⟩
    obtain ⟨unlocked,silent⟩ := quiet_kept onward catFiles_quiet unlocked silent
    rcases answer with _ | ⟨tracked,untracked⟩
    · exact ⟨settled_silent unlocked (fun _ => raised rfl) silent,fun event => onward.mem,nofun⟩
    · change Program.wp tooling _ ((diffs tracked).bind _) _
      rw [wp_bind]
      apply wp_mono _ (diffs_spec tracked)
      intro answer second ⟨further,raised,shown⟩
      obtain ⟨unlocked,silent⟩ := quiet_kept further diffing_quiet unlocked silent
      rcases answer with _ | revertedDiff
      · exact ⟨settled_silent unlocked (fun _ => raised rfl) silent,fun event member => further.mem (onward.mem member),nofun⟩
      · have classified := (classified _ rfl).mono fun event => further.mem
        have captured := And.intro (further.mem (onward.mem captured.1)) (further.mem (onward.mem captured.2))
        apply wp_mono _ (recorded_spec silent unlocked captured classified (shown _ rfl))
        intro outcome later ⟨settled,kept,written⟩
        refine ⟨settled,fun event member => kept event (further.mem (onward.mem member)),fun done => .inr ?_⟩
        exact ⟨tracked,untracked,revertedDiff,written done,classified.mono kept⟩

theorem take_spec : take.wp tooling (fun answer later =>
    ∃ fingerprints, answer = some fingerprints ∧ later = past ++ [⟨.capture,fingerprints⟩]) past := by
  rw [take,wp_handle]
  exact wp_call nofun (fun _ => ⟨none,rfl,rfl⟩) fun fingerprints => ⟨some fingerprints,rfl,rfl⟩

/-- What the guard leaves behind once the stage is over: how it ended, and what both captures made it do. -/
def Guarded (history : History) (outcome : Option Unit) (later : History) : Prop :=
  Settled outcome later ∧ (∀ event ∈ history, event ∈ later) ∧ (outcome = some () → ⟨.capture,none⟩ ∈ later ∨
    ∃ before after, ⟨.capture,some before⟩ ∈ later ∧ ⟨.capture,some after⟩ ∈ later ∧ Answered (strayed before after) later)

theorem afterStage_spec {before : Option Statuses} (fresh : Fresh past) (unlocked : lockHeld past = false)
    (captured : ⟨.capture,before⟩ ∈ past) : (afterStage before).wp tooling (Guarded past) past := by
  have silent := fresh_silent fresh
  cases before with
  | none => exact ⟨settled_silent unlocked nofun silent,fun _ => id,fun _ => .inl captured⟩
  | some before =>
    rw [afterStage,wp_bind]
    apply wp_mono _ take_spec
    rintro _ later ⟨after,rfl,rfl⟩
    have step : Onward (· = .capture) past (past ++ [⟨.capture,after⟩]) := .snoc _ rfl
    obtain ⟨unlocked,silent⟩ := quiet_kept step (fun _ same => same ▸ ⟨⟨nofun,nofun⟩,trivial⟩) unlocked silent
    have newest : ⟨.capture,after⟩ ∈ past ++ [⟨Command.capture,after⟩] := List.mem_append_right _ (List.mem_singleton_self _)
    cases after with
    | none => exact ⟨settled_silent unlocked nofun silent,fun event => step.mem,fun _ => .inl newest⟩
    | some after =>
      have both := And.intro (step.mem captured) newest
      apply wp_mono _ (takeBack_spec silent unlocked both)
      intro outcome later ⟨settled,kept,answered⟩
      exact ⟨settled,fun event member => kept event (step.mem member),
        fun done => .inr ⟨before,after,kept _ both.1,kept _ both.2,answered done⟩⟩

/-- How the guard ends, over the outcome of the stage. -/
structure Ended (outcome : Option Unit) (history : History) : Prop where
  unlocked : lockHeld history = false
  raised : outcome = none → Raised history ∨ ⟨.stage,none⟩ ∈ history
  staged : ⟨.stage,outcome⟩ ∈ history ∨ Raised history
  honest : ∀ paths, ⟨.revertFailed paths,some ()⟩ ∈ history → paths ≠ [] ∧ ∀ path ∈ paths, Stuck path history
  guarded : Raised history ∨ ⟨.capture,none⟩ ∈ history ∨ ∃ before after, ⟨.capture,some before⟩ ∈ history ∧
    ⟨.capture,some after⟩ ∈ history ∧ Answered (strayed before after) history
  undone : Raised history ∨ ∀ changed tracked untracked revertedDiff,
    ⟨.rootWrite changed tracked untracked revertedDiff,some ()⟩ ∈ history → ∀ path ∈ tracked,
      Undone path history ∨ ∃ paths, ⟨.revertFailed paths,some ()⟩ ∈ history ∧ path ∈ paths

theorem guardRootWrites_spec : guardRootWrites.wp tooling Ended [] := by
  rw [guardRootWrites,wp_bind]
  apply wp_mono _ take_spec
  rintro _ first ⟨before,rfl,rfl⟩
  change Program.wp tooling _ ((call .stage).ensure (afterStage before)) _
  rw [wp_ensure]
  refine ⟨nofun,?_⟩
  rintro staged _ ⟨_,rfl⟩
  have fresh : Fresh ([] ++ [⟨.capture,before⟩] ++ [⟨.stage,staged⟩]) := by
    intro event member
    simp only [List.nil_append,List.cons_append,List.mem_cons,List.not_mem_nil,or_false] at member
    rcases member with rfl | rfl
    · exact .inl rfl
    · exact .inr rfl
  have unlocked : lockHeld ([] ++ [⟨.capture,before⟩] ++ [⟨.stage,staged⟩]) = false := rfl
  rw [wp_done,wp_bind]
  apply wp_mono _ (afterStage_spec fresh unlocked (by simp))
  rintro outcome later ⟨settled,kept,guarded⟩
  have stage : ⟨.stage,staged⟩ ∈ later := kept _ (by simp)
  cases outcome with
  | none =>
    have raised := settled.raised rfl
    exact ⟨settled.unlocked,fun _ => .inl raised,.inr raised,settled.honest,.inl raised,.inl raised⟩
  | some done =>
    exact ⟨settled.unlocked,fun same => .inr (same ▸ stage),.inl stage,settled.honest,.inr (guarded rfl),.inr (settled.undone rfl)⟩

/-- Any answers, but for the lock. -/
def anything : Contract Command Answer History := .recording may fun _ _ => True

/-- A path of the main checkout is taken back only under the lock and once the journal has its
diff against the commit, where both captures were taken and it strayed between them. However the
guard ends, the lock is free and what the journal reports as stuck is; unless a command of its own
raised, the outcome is that of the stage and every path that strayed is in the journal, those of
the commit undone but for the ones that are reported. -/
theorem writes_journaled :
    (∀ path rest history, Arrives anything guardRootWrites [] (.call (.checkout path) rest) history → Journaled path history) ∧
    ∀ outcome history, Arrives anything guardRootWrites [] (.done outcome) history → Ended outcome history := by
  constructor
  · intro path rest history arrives
    have reached : Arrives tooling guardRootWrites [] (.call (.checkout path) rest) history := arrives.reguard
    exact (wp_arrives guardRootWrites_spec reached).1 path rfl
  · intro outcome history arrives
    have reached : Arrives tooling guardRootWrites [] (.done outcome) history := arrives.reguard
    exact wp_arrives guardRootWrites_spec reached

end Specs

/-- The stage edits `f`, which the commit has, and adds `n`; `f` stays modified. -/
def stubborn (command : Command) (history : History) : Option (Answer command) × History :=
  let answer : Option (Answer command) := match command with
    | .capture => some (if history = [] then [] else [(['f'],[' ','M',':','1']),(['n'],['?','?',':','2'])])
    | .status => some ([(['f'],[' ','M'])],[])
    | .catFile path => some (if path = ['f'] then 0 else 128)
    | .diff _ => some (0,['-','+'])
    | .checkout _ => some (0,[])
    | .rootWrite .. | .revertFailed _ | .acquire | .release | .stage => some ()
  (answer,history ++ [⟨command,answer⟩])

theorem writes_journaled_stubborn : Journaled ['f'] (walk stubborn 8 guardRootWrites []).2 ∧
    ⟨.revertFailed [['f']],some ()⟩ ∈ (walk stubborn 12 guardRootWrites []).2 ∧
    Ended (some ()) (walk stubborn 12 guardRootWrites []).2 := by
  have obeys : ∀ command history, anything.after command history (stubborn command history).1 (stubborn command history).2 := by
    intro command history
    refine ⟨?_,rfl⟩
    cases command <;> simp [may,stubborn]
  obtain ⟨rest,about⟩ : ∃ rest, (walk stubborn 8 guardRootWrites []).1 = .call (.checkout ['f']) rest := ⟨_,rfl⟩
  have through : (walk stubborn 12 guardRootWrites []).1 = .done (some ()) := rfl
  have before := arrives_walk obeys 8 guardRootWrites []
  have after := arrives_walk obeys 12 guardRootWrites []
  rw [about] at before
  rw [through] at after
  have last : ⟨.revertFailed [['f']],some ()⟩ ∈ (walk stubborn 12 guardRootWrites []).2 :=
    List.mem_append_right (walk stubborn 11 guardRootWrites []).2 (List.mem_singleton_self _)
  exact ⟨writes_journaled.1 _ _ _ before,last,writes_journaled.2 _ _ after⟩

end Frankenrust.Orchestrator.Reverting
