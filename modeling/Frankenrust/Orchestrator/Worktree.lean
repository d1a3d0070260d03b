import Frankenrust.Library.Runs
import Frankenrust.Orchestrator.Gh
import Mathlib.Data.Set.Basic

/-! How the worktree of an issue is made and retired, `loop.py`: the commands of git that
`make_worktree`, `preserve_branch` and `retire_worktree` run, with what they do to the branch,
to the worktree and to the tags that preserve attempts. -/
namespace Frankenrust.Orchestrator

/-- Commands of git, by their subcommand, and the two calls of the file system. -/
inductive Git
  | pathExists
  | rmtree
  | worktreeRemove
  | worktreeAdd
  | revParse
  | isAncestor
  | tag
  | revList
  | branchDelete
  | add
  | commit
  deriving DecidableEq

/-- The exit code and what was printed; an exception is a command that could not be started. -/
abbrev Git.Answer : Git → Type
  | .pathExists => Bool
  | .rmtree => Unit
  | _ => Int × Text

inductive Deed
  | queue (command : Command)
  | git (command : Git)
  deriving DecidableEq

abbrev Deed.Answer : Deed → Type
  | .queue command => Orchestrator.Answer command
  | .git command => command.Answer

abbrev Deeds := Program Deed Deed.Answer

abbrev git (command : Git) : Deeds command.Answer := Program.invoke (Deed.git command)

abbrev queue (command : Command) : Deeds (Answer command) := Program.invoke (Deed.queue command)

/-- Digits with single underscores between them; the flag says that a digit comes before. -/
def ungroup : Bool → Text → Option Text
  | after, [] => if after then some [] else none
  | after, '_' :: chars => if after then ungroup false chars else none
  | _, char :: chars => if isDigit char then (ungroup true chars).map (char :: ·) else none

/-- `int` of any text. -/
def intText (text : Text) : Option Int :=
  match strip text with
  | '-' :: digits => ((ungroup false digits).bind int).map fun n => -(n : Int)
  | '+' :: digits => ((ungroup false digits).bind int).map Int.ofNat
  | digits => ((ungroup false digits).bind int).map Int.ofNat

/-- `int(n.strip() or 0)`. -/
def commits (printed : Text) : Option Int := if strip printed = [] then some 0 else intText (strip printed)

namespace Worktree

def preserveBranch : Deeds Unit := do
  let (rc,_) ← git .revParse
  if rc ≠ 0 then pure ()
  else do
    let (rc,_) ← git .isAncestor
    if rc = 0 then pure ()
    else do
      let (rc,_) ← git .tag
      if rc ≠ 0 then queue (.record "preserve_failed")
      else do
        let (_,printed) ← git .revList
        match commits printed with
        | none => Program.raise
        | some _ => queue (.record "branch_preserved")

/-- What is done to a worktree that is there. -/
def removeWorktree : Deeds Unit := do
  let _ ← git .worktreeRemove
  git .rmtree

def clearWorktree : Deeds Unit := do
  let there ← git .pathExists
  if there then removeWorktree else pure ()

/-- `False` where the source raises the `RuntimeError` that its callers expect. -/
def makeWorktree : Deeds Bool := do
  clearWorktree
  preserveBranch
  let _ ← git .branchDelete
  let (rc,_) ← git .worktreeAdd
  pure (rc = 0)

def retireWorktree : Deeds Unit := do
  let there ← git .pathExists
  if there then do
    let _ ← git .add
    let _ ← git .commit
    removeWorktree
  else pure ()

end Worktree

/-- What can be lost: commits and contents of files. Each part is given by all that it reaches;
a worktree reaches its commit and what is not committed. -/
structure Checkout (Item : Type) where
  main : Set Item
  tags : Set Item
  branch : Option (Set Item)
  tree : Option (Set Item)

namespace Checkout
variable {Item : Type}

def reach (part : Option (Set Item)) : Set Item := {item | ∃ items ∈ part, item ∈ items}

def held (checkout : Checkout Item) : Set Item :=
  {item | item ∈ checkout.main ∨ item ∈ checkout.tags ∨ item ∈ reach checkout.branch ∨ item ∈ reach checkout.tree}

/-- The command ran and exited with 0. -/
def Succeeds (answer : Option (Int × Text)) : Prop := ∃ printed, answer = some (0,printed)

/-- What a deed does: a command of git that exits with 0 has done what it is for, one that is
not started has done nothing, and what a failed removal leaves goes with `rmtree`. -/
def does (deed : Deed) (now : Checkout Item) (answer : Option deed.Answer) (later : Checkout Item) : Prop :=
  match deed with
  | .queue _ => later = now
  | .git .pathExists => later = now ∧ ∀ there ∈ answer, there = true ↔ now.tree.isSome = true
  | .git .rmtree => answer = some () ∧ later = { now with tree := none }
  | .git .worktreeRemove =>
    (answer = none → later = now) ∧ ∃ rest, reach rest ⊆ reach now.tree ∧ later = { now with tree := rest } ∧
      (Succeeds answer → rest = none)
  | .git .worktreeAdd =>
    (Succeeds answer → now.branch = none ∧ now.tree = none ∧
      later = { now with branch := some now.main, tree := some now.main }) ∧
    (¬Succeeds answer → later = now ∨ now.branch = none ∧ later = { now with branch := some now.main })
  | .git .revParse => later = now ∧ (Succeeds answer → now.branch.isSome = true)
  | .git .isAncestor => later = now ∧ (Succeeds answer → reach now.branch ⊆ now.main)
  | .git .tag =>
    (Succeeds answer → later = { now with tags := now.tags ∪ reach now.branch }) ∧ (¬Succeeds answer → later = now)
  | .git .revList | .git .add => later = now
  | .git .branchDelete => (Succeeds answer → later = { now with branch := none }) ∧ (¬Succeeds answer → later = now)
  | .git .commit =>
    (Succeeds answer → later = { now with branch := some (reach now.branch ∪ reach now.tree) }) ∧
      (¬Succeeds answer → later = now)

def custody : Program.Contract Deed Deed.Answer (Checkout Item) where
  guard _ _ := True
  after := does

end Checkout

/-- What the events of a run say: the removal of a worktree was started, the branch was tagged,
it was deleted. -/
structure Trail where
  removed : Bool
  tagged : Bool
  deleted : Bool

namespace Trail

def blank : Trail := ⟨false,false,false⟩

def note (trail : Trail) : Program.Event Deed Deed.Answer → Trail
  | ⟨.git .worktreeRemove,some _⟩ => { trail with removed := true }
  | ⟨.git .tag,some (0,_)⟩ => { trail with tagged := true }
  | ⟨.git .branchDelete,some (0,_)⟩ => { trail with deleted := true }
  | _ => trail

end Trail

end Frankenrust.Orchestrator
