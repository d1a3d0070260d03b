import Frankenrust.Library.Crew
import Frankenrust.Orchestrator.Worktree
import Mathlib.Data.Set.Basic

/-! `retrospective` of `loop.py` as the calls that it makes, with any number of passes and of other
writers of the journal side by side: which lines of the journal the passes can say to have been
analysed. -/
namespace Frankenrust.Orchestrator.Watermark
open Program Relation

/-- A line of the journal is the record of a pass, with its `through`, or any other line, damaged ones among them. -/
inductive Line
  | retrospective (through : Option Nat)
  | other
  deriving DecidableEq

def higher (highest : Nat) : Line → Nat
  | .retrospective (some through) => max highest through
  | _ => highest

def prevRetroThrough (journal : List Line) : Nat := journal.foldl higher 0

/-- Size and time of a report, where there is one. -/
abbrev ReportState := Option (Nat × Int)

/-- `invoke` has the line that the prompt lets the new evidence start at. -/
inductive Command
  | journalExists
  | claimRetroCycle
  | countLines
  | prevRetroThrough
  | readPrompts
  | reportState
  | invoke (start : Nat)
  | record (line : Line)
  deriving DecidableEq

abbrev Answer : Command → Type
  | .journalExists => Bool
  | .claimRetroCycle | .readPrompts | .record _ => Unit
  | .countLines | .prevRetroThrough => Nat
  | .reportState => ReportState
  | .invoke _ => Int × Text

abbrev Steps := Program Command Answer

abbrev call (command : Command) : Steps (Answer command) := Program.invoke command

abbrev History := List (Program.Event Command Answer)

def wroteReport (before after : ReportState) : Bool :=
  match after with
  | some state => state.1 > 0 && after != before
  | none => false

def coverage (through : Nat) (before after : ReportState) (said : Int × Text) : Option Nat :=
  if said.1 = 0 ∧ wroteReport before after ∧ strip said.2 ≠ [] then some through else none

/-- The pass, once its cycle is claimed. -/
def analyse : Steps Unit := do
  let through ← call .countLines
  let prevThrough ← call .prevRetroThrough
  let _ ← call .readPrompts
  let before ← call .reportState
  let said ← call (.invoke (prevThrough + 1))
  let after ← call .reportState
  call (.record (.retrospective (coverage through before after said)))

/-- The last pass of a run has no number to claim. -/
def claimed (numbered : Bool) : Steps Unit := if numbered then call .claimRetroCycle else pure ()

def retrospective (numbered : Bool) : Steps Unit := do
  let there ← call .journalExists
  if there then (claimed numbered).bind fun _ => analyse else pure ()

structure Desk (I : Type) where
  journal : List Line
  seen : I → History

section Contract
variable {I : Type} [DecidableEq I] (i : I)

/-- The journal has got longer, by lines that claim at most this. -/
def grows (claims : Option Nat) (now later : List Line) : Prop :=
  ∃ added, later = now ++ added ∧ ∀ through, .retrospective (some through) ∈ added → claims = some through

/-- What the call and the other processes do to the journal by the time it has answered. -/
def writes (journal : List Line) : (command : Command) → Option (Answer command) → List Line → Prop
  | .countLines,answer,later => later = journal ∧ ∀ count ∈ answer, count = journal.length
  | .prevRetroThrough,answer,later => later = journal ∧ ∀ through ∈ answer, through = prevRetroThrough journal
  | .claimRetroCycle,_,later | .invoke _,_,later | .record .other,_,later | .record (.retrospective none),_,later => grows none journal later
  | .record (.retrospective (some through)),_,later => grows (some through) journal later
  | .journalExists,_,later | .readPrompts,_,later | .reportState,_,later => later = journal

def does (command : Command) (now : Desk I) (answer : Option (Answer command)) (later : Desk I) : Prop :=
  later.seen = Function.update now.seen i (now.seen i ++ [⟨command,answer⟩]) ∧ writes now.journal command answer later.journal

/-- The calls of a pass that has analysed the lines up to `through`, told to start after `prevThrough`. -/
def Earned (prevThrough through : Nat) (history : History) : Prop :=
  ∃ earlier before after said, coverage through before after said = some through ∧
    history = earlier ++ [⟨.countLines,some through⟩,⟨.prevRetroThrough,some prevThrough⟩,⟨.readPrompts,some ()⟩,
      ⟨.reportState,some before⟩,⟨.invoke (prevThrough + 1),some said⟩,⟨.reportState,some after⟩]

def permits (command : Command) (now : Desk I) : Prop :=
  ∀ through, command = .record (.retrospective (some through)) → through ≤ now.journal.length ∧
    ∃ prevThrough ≤ prevRetroThrough now.journal, Earned prevThrough through (now.seen i)

def passing : Contract Command Answer (Desk I) := ⟨permits i,does i⟩

end Contract

section Desks
variable {I : Type}

/-- What the passes so far have analysed, each from its first line on. -/
def passes (desk : Desk I) : Set (Nat × Nat) :=
  {pass | ∃ i front answer back, desk.seen i = front ++ ⟨.record (.retrospective (some pass.2)),answer⟩ :: back ∧
    Earned pass.1 pass.2 front}

/-- Over the first journal: the watermark is a line of the journal, each line that it has come over lies in what a pass
has analysed, and so does what a record claims. -/
structure Sound (first : List Line) (desk : Desk I) : Prop where
  within : prevRetroThrough desk.journal ≤ desk.journal.length
  covered : ∀ line, prevRetroThrough first < line → line ≤ prevRetroThrough desk.journal →
    ∃ pass ∈ passes desk, pass.1 < line ∧ line ≤ pass.2
  claimed : ∀ through, .retrospective (some through) ∈ desk.journal → .retrospective (some through) ∈ first ∨
    ∃ prevThrough, (prevThrough,through) ∈ passes desk

/-- What the others leave a member. -/
structure Others (first : List Line) (i : I) (now later : Desk I) : Prop where
  sound : Sound first now → Sound first later
  journal : now.journal <+: later.journal
  seen : later.seen i = now.seen i

end Desks

theorem higher_le (journal : List Line) (highest : Nat) : highest ≤ journal.foldl higher highest := by
  induction journal generalizing highest with
  | nil => exact Nat.le_refl _
  | cons line journal ih =>
    refine Nat.le_trans ?_ (ih _)
    unfold higher
    split
    · exact Nat.le_max_left _ _
    · exact Nat.le_refl _

theorem prevRetroThrough_mono {now later : List Line} (longer : now <+: later) : prevRetroThrough now ≤ prevRetroThrough later := by
  obtain ⟨added,rfl⟩ := longer
  rw [prevRetroThrough,prevRetroThrough,List.foldl_append]
  exact higher_le _ _

theorem prevRetroThrough_grows {now later : List Line} {claims : Option Nat} (grown : grows claims now later) :
    prevRetroThrough later ≤ max (prevRetroThrough now) (claims.getD 0) := by
  obtain ⟨added,rfl,only⟩ := grown
  rw [prevRetroThrough,List.foldl_append]
  change added.foldl higher (prevRetroThrough now) ≤ _
  have bounded : ∀ (lines : List Line) (highest : Nat), (∀ through, .retrospective (some through) ∈ lines → claims = some through) →
      highest ≤ max (prevRetroThrough now) (claims.getD 0) → lines.foldl higher highest ≤ max (prevRetroThrough now) (claims.getD 0) := by
    intro lines
    induction lines with
    | nil => exact fun _ _ below => below
    | cons line lines ih =>
      intro highest only below
      refine ih _ (fun through member => only through (List.mem_cons_of_mem _ member)) ?_
      unfold higher
      split
      next through =>
        have own : claims.getD 0 = through := by rw [only through (by simp),Option.getD_some]
        exact Nat.max_le.mpr ⟨below,own ▸ Nat.le_max_right _ _⟩
      next => exact below
  exact bounded added _ only (Nat.le_max_left _ _)

theorem grows_longer {now later : List Line} {claims : Option Nat} (grown : grows claims now later) : now <+: later := by
  obtain ⟨added,rfl,_⟩ := grown
  exact List.prefix_append _ _

def claim : Command → Option Nat
  | .record (.retrospective through) => through
  | _ => none

section Calls
variable {I : Type} [DecidableEq I] {i j : I} {first : List Line} {command : Command} {answer : Option (Answer command)} {now later : Desk I}

theorem does_written {journal : List Line} (written : writes now.journal command answer journal) :
    does i command now answer ⟨journal,Function.update now.seen i (now.seen i ++ [⟨command,answer⟩])⟩ := ⟨rfl,written⟩

theorem does_grows (did : does i command now answer later) : grows (claim command) now.journal later.journal := by
  have same (journal : later.journal = now.journal) : grows none now.journal later.journal := ⟨[],by simp [journal],nofun⟩
  match command with
  | .countLines | .prevRetroThrough => exact same did.2.1
  | .claimRetroCycle | .invoke _ | .record .other | .record (.retrospective none) => exact did.2
  | .record (.retrospective (some _)) => exact did.2
  | .journalExists | .readPrompts | .reportState => exact same did.2

theorem passes_call (did : does i command now answer later) : passes now ⊆ passes later := by
  rintro pass ⟨j,front,answered,back,seen,earned⟩
  by_cases own : j = i
  · subst own
    refine ⟨j,front,answered,back ++ [⟨command,answer⟩],?_,earned⟩
    rw [did.1,Function.update_self,seen]
    simp
  · exact ⟨j,front,answered,back,by rw [did.1,Function.update_of_ne own,seen],earned⟩

/-- What is claimed is by then in the history of its pass. -/
theorem passes_claim {through : Nat} (permitted : permits i command now) (did : does i command now answer later)
    (claims : claim command = some through) : through ≤ now.journal.length ∧
      ∃ prevThrough ≤ prevRetroThrough now.journal, (prevThrough,through) ∈ passes later := by
  obtain ⟨line,rfl⟩ : ∃ line, command = .record line := by
    cases command <;> first | exact ⟨_,rfl⟩ | cases claims
  cases line with
  | other => cases claims
  | retrospective found =>
    cases claims
    obtain ⟨bounded,prevThrough,below,earned⟩ := permitted through rfl
    refine ⟨bounded,prevThrough,below,i,now.seen i,answer,[],?_,earned⟩
    rw [did.1,Function.update_self]

theorem sound_call (permitted : permits i command now) (sound : Sound first now) (did : does i command now answer later) :
    Sound first later := by
  have grown := does_grows did
  have kept := passes_call did
  have highest := prevRetroThrough_grows grown
  have longer := (grows_longer grown).length_le
  have within := sound.within
  refine ⟨?_,fun line above below => ?_,fun through member => ?_⟩
  · cases claims : claim command with
    | none =>
      rw [claims,Option.getD_none] at highest
      omega
    | some through =>
      have bounded := (passes_claim permitted did claims).1
      rw [claims,Option.getD_some] at highest
      omega
  · by_cases old : line ≤ prevRetroThrough now.journal
    · obtain ⟨pass,member,inside⟩ := sound.covered line above old
      exact ⟨pass,kept member,inside⟩
    · cases claims : claim command with
      | none =>
        rw [claims,Option.getD_none] at highest
        omega
      | some through =>
        rw [claims,Option.getD_some] at highest
        obtain ⟨_,prevThrough,lower,member⟩ := passes_claim permitted did claims
        exact ⟨_,member,by omega,by omega⟩
  · obtain ⟨added,same,only⟩ := grown
    rw [same] at member
    rcases List.mem_append.mp member with old | new
    · exact (sound.claimed through old).imp id fun ⟨prevThrough,pass⟩ => ⟨prevThrough,kept pass⟩
    · obtain ⟨_,prevThrough,_,pass⟩ := passes_claim permitted did (only through new)
      exact .inr ⟨prevThrough,pass⟩

theorem Others.of_call (different : j ≠ i) (permitted : permits i command now) (did : does i command now answer later) :
    Others first j now later :=
  ⟨fun sound => sound_call permitted sound did,grows_longer (does_grows did),by rw [did.1,Function.update_of_ne different]⟩

omit [DecidableEq I] in
theorem Others.within {last : Desk I} (reached : ReflTransGen (Others first i) now last) : Others first i now last := by
  induction reached with
  | refl => exact ⟨id,List.prefix_refl _,rfl⟩
  | tail _ moved ih => exact ⟨moved.sound ∘ ih.sound,ih.journal.trans moved.journal,moved.seen.trans ih.seen⟩

/-- A call is added to the member's history, and the journal only gets longer. -/
theorem wp_call {α : Type} {rest : Answer command → Steps α} (permitted : permits i command now)
    (answered : ∀ value later, (∃ middle, does i command now (some value) middle) → later.seen i = now.seen i ++ [⟨command,some value⟩] →
      now.journal <+: later.journal → (rest value).wp ((passing i).among (Others first i)) (fun _ _ => True) later) :
    ((call command).bind rest).wp ((passing i).among (Others first i)) (fun _ _ => True) now := by
  rw [wp_bind]
  refine ⟨permitted,?_⟩
  rintro (_ | value) later ⟨middle,did,moved⟩
  · exact trivial
  · have others := Others.within moved
    refine answered value later ⟨middle,did⟩ ?_ ((grows_longer (does_grows did)).trans others.journal)
    rw [others.seen,did.1,Function.update_self]

theorem wp_last (permitted : permits i command now) :
    (call command).wp ((passing i).among (Others first i)) (fun _ _ => True) now := ⟨permitted,fun _ _ _ => trivial⟩

theorem wp_analyse : analyse.wp ((passing i).among (Others first i)) (fun _ _ => True) now := by
  refine wp_call nofun fun through second ⟨_,counted⟩ one long => ?_
  have bounded : through = now.journal.length := counted.2.2 through rfl
  refine wp_call nofun fun prevThrough third ⟨_,read⟩ two longer => ?_
  have highest : prevThrough = prevRetroThrough second.journal := read.2.2 prevThrough rfl
  refine wp_call nofun fun ⟨⟩ fourth _ three grown => ?_
  refine wp_call nofun fun before fifth _ four further => ?_
  refine wp_call nofun fun said sixth _ five still => ?_
  refine wp_call nofun fun after seventh _ six last => ?_
  have all : now.journal <+: seventh.journal := (((((long.trans longer).trans grown).trans further).trans still).trans last)
  have later : second.journal <+: seventh.journal := ((((longer.trans grown).trans further).trans still).trans last)
  refine wp_last fun claimed same => ?_
  obtain covers : coverage through before after said = some claimed := by simpa using same
  have own : claimed = through := by
    rw [coverage] at covers
    split at covers <;> simp_all
  subst own
  refine ⟨bounded ▸ all.length_le,prevThrough,highest ▸ prevRetroThrough_mono later,now.seen i,before,after,said,covers,?_⟩
  rw [six,five,four,three,two,one]
  simp

theorem wp_retrospective (numbered : Bool) :
    (retrospective numbered).wp ((passing i).among (Others first i)) (fun _ _ => True) now := by
  refine wp_call nofun fun there second _ _ _ => ?_
  split
  · unfold claimed
    split
    · exact wp_call nofun fun _ third _ _ _ => wp_analyse
    · exact wp_analyse
  · exact trivial

end Calls

section Runs
variable {I : Type} [DecidableEq I]

/-- Passes, numbered or the last one of a run, and records of anything else. -/
def begins (program : Steps Unit) : Prop := (∃ numbered, program = retrospective numbered) ∨ program = call (.record .other)

abbrev Writers (I : Type) := Crew I Command Answer Unit (Desk I)

abbrev Step : Writers I → Writers I → Prop := Crew.Steps passing fun _ => begins

def opening (first : List Line) : Writers I := ⟨⟨first,fun _ => []⟩,fun _ => .done none⟩

theorem safe_run {first : List Line} {writers last : Writers I} (ran : ReflTransGen Step writers last)
    (safe : Crew.Safe passing (Others first) (fun _ _ _ => True) (Sound first) writers) :
    Crew.Safe passing (Others first) (fun _ _ _ => True) (Sound first) last := by
  refine Crew.safe_run ?_ ?_ ?_ ?_ ran safe
  · exact fun i command now answer later permitted sound did => sound_call permitted sound did
  · exact fun i j command now answer later different permitted _ did => Others.of_call different permitted did
  · exact fun i now later sound moved => moved.sound sound
  · rintro i outcome program now (⟨numbered,rfl⟩ | rfl) _ _
    · exact wp_retrospective numbered
    · exact wp_last nofun

theorem safe_opening {first : List Line} (within : prevRetroThrough first ≤ first.length) :
    Crew.Safe passing (Others first) (fun _ _ _ => True) (Sound first) (opening (I := I) first) :=
  ⟨⟨within,fun _ above below => absurd (Nat.lt_of_lt_of_le above below) (Nat.lt_irrefl _),fun _ member => .inl member⟩,
    fun _ _ _ => trivial⟩

theorem journal_step {writers next : Writers I} (stepped : Step writers next) : writers.shared.journal <+: next.shared.journal := by
  cases stepped with
  | call pending answered => exact grows_longer (does_grows answered)
  | start => exact List.prefix_refl _

/-- With any number of passes and writers in any interleaving, each line up to the watermark was in the slice that a pass was
given which analysed it, from the line after an earlier watermark to those it had counted before its agent was started; a
pass that fails claims nothing, and the watermark never goes back. -/
theorem evidence_covered {first : List Line} (within : prevRetroThrough first ≤ first.length) {middle last : Writers I}
    (ran : ReflTransGen Step (opening first) middle) (on : ReflTransGen Step middle last) :
    Sound first last.shared ∧ prevRetroThrough middle.shared.journal ≤ prevRetroThrough last.shared.journal := by
  refine ⟨(safe_run (ran.trans on) (safe_opening within)).sound,prevRetroThrough_mono ?_⟩
  induction on with
  | refl => exact List.prefix_refl _
  | tail _ stepped ih => exact ih.trans (journal_step stepped)

theorem evidence_covered_pass : ∃ last : Writers Unit, ReflTransGen Step (opening [.other,.other]) last ∧
    prevRetroThrough last.shared.journal = 2 ∧ Sound [.other,.other] last.shared := by
  have unchanged : grows none [.other,.other] [.other,.other] := ⟨[],rfl,nofun⟩
  have covers : coverage 2 (some (0,1)) (some (5,2)) (0,['x']) = some 2 := by decide
  have noted : writes [.other,.other] (.record (.retrospective (coverage 2 (some (0,1)) (some (5,2)) (0,['x'])))) (some ())
      [.other,.other,.retrospective (some 2)] := by
    rw [covers]
    exact ⟨[.retrospective (some 2)],rfl,fun through member => by simp_all⟩
  have passed : Runs (passing ()) (retrospective true) (opening [.other,.other]).shared
      [⟨.journalExists,some true⟩,⟨.claimRetroCycle,some ()⟩,⟨.countLines,some 2⟩,⟨.prevRetroThrough,some 0⟩,⟨.readPrompts,some ()⟩,
        ⟨.reportState,some (some (0,1))⟩,⟨.invoke 1,some (0,['x'])⟩,⟨.reportState,some (some (5,2))⟩,
        ⟨.record (.retrospective (coverage 2 (some (0,1)) (some (5,2)) (0,['x']))),some ()⟩] (some ()) _ :=
    .call (does_written rfl) (.call (does_written unchanged) (.call (does_written ⟨rfl,by simp⟩)
      (.call (does_written ⟨rfl,by simp [prevRetroThrough,higher]⟩) (.call (does_written rfl) (.call (does_written rfl)
        (.call (does_written unchanged) (.call (does_written rfl) (.call (does_written noted) (.done _ _)))))))))
  have started : Step (opening [.other,.other])
      (Crew.put (opening [.other,.other]) () (opening (I := Unit) [.other,.other]).shared (retrospective true)) :=
    .start rfl (.inl ⟨true,rfl⟩)
  have ran := ReflTransGen.head started (Crew.alone passed)
  exact ⟨_,ran,rfl,(evidence_covered (by decide) .refl ran).1⟩

end Runs

end Frankenrust.Orchestrator.Watermark
