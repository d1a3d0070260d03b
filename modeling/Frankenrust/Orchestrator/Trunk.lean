import Frankenrust.Library.Crew
import Mathlib.Data.Set.Insert
import Mathlib.Order.Basic

/-! `merge_worktree` and `publish_main` of `loop.py` as the commands that they run, with the workers
side by side and `main` moved from outside as well: what the loop puts on `main` has passed the gate
as it is there, and stays there. -/
namespace Frankenrust.Orchestrator.Trunk
open Program Relation

/-- `work` is all that the worker does before, `add -A`, `commit` and the rest are the commands of git; `rebase` is onto
`main`, and `merge` is the one that only fast-forwards. -/
inductive Command
  | work
  | acquire
  | release
  | add
  | commit
  | rebase
  | rebaseAbort
  | gate
  | merge
  | push
  | record (event : String)
  deriving DecidableEq

/-- The exit codes of what is run. -/
abbrev Answer : Command → Type
  | .work | .acquire | .release | .record _ => Unit
  | .add | .commit | .rebase | .rebaseAbort | .gate | .merge | .push => Int

abbrev Steps := Program Command Answer

abbrev call (command : Command) : Steps (Answer command) := Program.invoke command

def publishMain : Steps Unit := do
  let rc ← call .push
  if rc ≠ 0 then call (.record "push_failed") else call (.record "pushed")

/-- What is done under `_merge_lock`. -/
def locked : Steps Bool := do
  let _ ← call .add
  let _ ← call .commit
  let rc ← call .rebase
  if rc ≠ 0 then do
    let _ ← call .rebaseAbort
    call (.record "rebase_conflict")
    pure false
  else do
    let rc ← call .gate
    if rc ≠ 0 then do
      call (.record "merge_regate_fail")
      pure false
    else do
      let rc ← call .merge
      if rc ≠ 0 then pure false
      else do
        publishMain
        pure true

def mergeWorktree : Steps Bool := do
  call .acquire
  locked.ensure (call .release)

def worker : Steps Bool := do
  call .work
  mergeWorktree

/-- `base` counts the moves of `main` from outside up to a worker's rebase, `passed` holds the commits that the gate was
run on with exit code 0, and `merged` those that the loop has put on `main`. -/
structure Refs (I Commit : Type) where
  main : Commit
  heads : I → Commit
  lock : Option I
  origin : Option Commit
  outside : Nat
  base : I → Nat
  passed : Set Commit
  merged : Set Commit

section Contract
variable {I Commit : Type} [DecidableEq I] [Preorder Commit] (i : I)

/-- The branch is moved to a commit. -/
def moved (now : Refs I Commit) (later : Refs I Commit) : Prop :=
  ∃ head, later = { now with heads := Function.update now.heads i head }

/-- Git answers as it likes where it fails, and leaves the branch of the worktree as it likes; `main` it moves only to
commits that contain it. The gate leaves the branch alone. -/
def does (command : Command) (now : Refs I Commit) (answer : Option (Answer command)) (later : Refs I Commit) : Prop :=
  match command with
  | .work | .commit | .rebaseAbort => moved i now later
  | .acquire => answer = some () ∧ now.lock = none ∧ later = { now with lock := some i }
  | .release => answer = some () ∧ later = { now with lock := none }
  | .add | .record _ => later = now
  | .rebase => if answer = some (0 : Int) then ∃ head, now.main ≤ head ∧
      later = { now with heads := Function.update now.heads i head,base := Function.update now.base i now.outside }
    else moved i now later
  | .gate => later = if answer = some (0 : Int) then { now with passed := insert (now.heads i) now.passed } else now
  | .merge => if answer = some (0 : Int) then now.main ≤ now.heads i ∧
      later = { now with main := now.heads i,merged := insert (now.heads i) now.merged } else later = now
  | .push => later = if answer = some (0 : Int) then { now with origin := some now.main } else now

/-- A merge is tried under the lock, of a commit that passed the gate, and one that contains `main` unless that was moved
from outside since the rebase. -/
def permits (command : Command) (now : Refs I Commit) : Prop :=
  match command with
  | .release => now.lock = some i
  | .merge => now.lock = some i ∧ now.heads i ∈ now.passed ∧ (now.base i = now.outside → now.main ≤ now.heads i)
  | _ => True

def critical (i : I) : Contract Command Answer (Refs I Commit) := ⟨permits i,does i⟩

structure Sound (refs : Refs I Commit) : Prop where
  kept : ∀ commit ∈ refs.merged, commit ≤ refs.main
  gated : refs.merged ⊆ refs.passed
  published : ∀ commit ∈ refs.origin, commit ≤ refs.main

/-- What the others leave a worker. -/
structure Others (i : I) (now later : Refs I Commit) : Prop where
  sound : Sound now → Sound later
  head : later.heads i = now.heads i
  base : later.base i = now.base i
  passed : now.passed ⊆ later.passed
  merged : now.merged ⊆ later.merged
  lock : now.lock = some i → later.lock = some i
  outside : now.outside ≤ later.outside
  main : now.lock = some i → later.outside = now.outside → later.main = now.main

end Contract

section Calls
variable {I Commit : Type} [DecidableEq I] [Preorder Commit] {i j : I} {command : Command} {answer : Option (Answer command)}
  {now later : Refs I Commit}

theorem sound_call (permitted : permits i command now) (sound : Sound now) (did : does i command now answer later) : Sound later := by
  match command with
  | .work | .commit | .rebaseAbort =>
    obtain ⟨head,rfl⟩ := did
    exact ⟨sound.kept,sound.gated,sound.published⟩
  | .acquire =>
    obtain ⟨_,_,rfl⟩ := did
    exact ⟨sound.kept,sound.gated,sound.published⟩
  | .release =>
    obtain ⟨_,rfl⟩ := did
    exact ⟨sound.kept,sound.gated,sound.published⟩
  | .add | .record _ =>
    cases did
    exact sound
  | .rebase =>
    rw [does] at did
    split at did
    · obtain ⟨head,_,rfl⟩ := did
      exact ⟨sound.kept,sound.gated,sound.published⟩
    · obtain ⟨head,rfl⟩ := did
      exact ⟨sound.kept,sound.gated,sound.published⟩
  | .gate =>
    cases did
    split
    · exact ⟨sound.kept,sound.gated.trans (Set.subset_insert _ _),sound.published⟩
    · exact sound
  | .merge =>
    rw [does] at did
    split at did
    · obtain ⟨forward,rfl⟩ := did
      refine ⟨?_,Set.insert_subset permitted.2.1 sound.gated,fun commit pushed => (sound.published commit pushed).trans forward⟩
      rintro commit (rfl | before)
      · exact le_rfl
      · exact (sound.kept commit before).trans forward
    · cases did
      exact sound
  | .push =>
    cases did
    split
    · refine ⟨sound.kept,sound.gated,?_⟩
      rintro commit ⟨⟩
      exact le_rfl
    · exact sound

/-- A worker moves no branch but its own, and `main` and the lock only where it holds the lock. -/
theorem Others.of_call (different : j ≠ i) (permitted : permits i command now) (did : does i command now answer later) :
    Others j now later := by
  have sound := fun sound : Sound now => sound_call permitted sound did
  have unheld : permits i command now → now.lock = some i → ¬now.lock = some j := by
    intro _ held other
    exact different (Option.some.inj (other.symm.trans held))
  match command with
  | .work | .commit | .rebaseAbort =>
    obtain ⟨head,rfl⟩ := did
    exact ⟨sound,by simp [different],rfl,subset_rfl,subset_rfl,id,le_rfl,fun _ _ => rfl⟩
  | .acquire =>
    obtain ⟨_,free,rfl⟩ := did
    refine ⟨sound,rfl,rfl,subset_rfl,subset_rfl,?_,le_rfl,fun _ _ => rfl⟩
    intro held
    rw [free] at held
    contradiction
  | .release =>
    obtain ⟨_,rfl⟩ := did
    refine ⟨sound,rfl,rfl,subset_rfl,subset_rfl,?_,le_rfl,fun _ _ => rfl⟩
    exact fun held => absurd held (unheld permitted permitted)
  | .add | .record _ =>
    cases did
    exact ⟨sound,rfl,rfl,subset_rfl,subset_rfl,id,le_rfl,fun _ _ => rfl⟩
  | .rebase =>
    rw [does] at did
    split at did
    · obtain ⟨head,_,rfl⟩ := did
      exact ⟨sound,by simp [different],by simp [different],subset_rfl,subset_rfl,id,le_rfl,fun _ _ => rfl⟩
    · obtain ⟨head,rfl⟩ := did
      exact ⟨sound,by simp [different],rfl,subset_rfl,subset_rfl,id,le_rfl,fun _ _ => rfl⟩
  | .gate =>
    rw [does] at did
    split at did
    · cases did
      exact ⟨sound,rfl,rfl,Set.subset_insert _ _,subset_rfl,id,le_rfl,fun _ _ => rfl⟩
    · cases did
      exact ⟨id,rfl,rfl,subset_rfl,subset_rfl,id,le_rfl,fun _ _ => rfl⟩
  | .merge =>
    rw [does] at did
    split at did
    · obtain ⟨forward,rfl⟩ := did
      refine ⟨sound,rfl,rfl,subset_rfl,Set.subset_insert _ _,id,le_rfl,?_⟩
      exact fun held => absurd held (unheld permitted permitted.1)
    · cases did
      exact ⟨id,rfl,rfl,subset_rfl,subset_rfl,id,le_rfl,fun _ _ => rfl⟩
  | .push =>
    rw [does] at did
    split at did
    · cases did
      exact ⟨sound,rfl,rfl,subset_rfl,subset_rfl,id,le_rfl,fun _ _ => rfl⟩
    · cases did
      exact ⟨id,rfl,rfl,subset_rfl,subset_rfl,id,le_rfl,fun _ _ => rfl⟩

end Calls

section Workers
variable {I Commit α β : Type} [Preorder Commit] {i : I} {now later : Refs I Commit}

theorem Others.refl (now : Refs I Commit) : Others i now now :=
  ⟨id,rfl,rfl,subset_rfl,subset_rfl,id,le_rfl,fun _ _ => rfl⟩

theorem Others.trans {middle : Refs I Commit} (first : Others i now middle) (second : Others i middle later) : Others i now later where
  sound := second.sound ∘ first.sound
  head := second.head.trans first.head
  base := second.base.trans first.base
  passed := first.passed.trans second.passed
  merged := first.merged.trans second.merged
  lock := second.lock ∘ first.lock
  outside := first.outside.trans second.outside
  main held same := by
    have still : middle.outside = now.outside := le_antisymm (same ▸ second.outside) first.outside
    exact (second.main (first.lock held) (same.trans still.symm)).trans (first.main held still)

theorem Others.within (reached : ReflTransGen (Others i) now later) : Others i now later := by
  induction reached with
  | refl => exact .refl _
  | tail _ moved ih => exact ih.trans moved

variable [DecidableEq I]

theorem wp_call {command : Command} {rest : Answer command → Steps β} {post : Option β → Refs I Commit → Prop}
    (permitted : permits i command now) (raised : ∀ middle later, does i command now none middle → Others i middle later → post none later)
    (answered : ∀ value middle later, does i command now (some value) middle → Others i middle later →
      (rest value).wp ((critical i).among (Others i)) post later) :
    ((call command).bind rest).wp ((critical i).among (Others i)) post now := by
  rw [wp_bind]
  refine ⟨permitted,?_⟩
  rintro (_ | value) later ⟨middle,did,moved⟩
  · exact raised middle later did (Others.within moved)
  · exact answered value middle later did (Others.within moved)

/-- Under the lock, and merged where the outcome says so. -/
def Held (i : I) (outcome : Option Bool) (now : Refs I Commit) : Prop :=
  now.lock = some i ∧ (outcome = some true → now.heads i ∈ now.merged)

/-- Calls under the lock that merge nothing. -/
def plain : Command → Bool
  | .acquire | .release | .merge => false
  | _ => true

theorem does_plain {command : Command} {answer : Option (Answer command)} (calm : plain command = true)
    (did : does i command now answer later) : later.lock = now.lock := by
  match command with
  | .work | .commit | .rebaseAbort =>
    obtain ⟨head,rfl⟩ := did
    rfl
  | .add | .record _ =>
    cases did
    rfl
  | .rebase =>
    rw [does] at did
    split at did
    · obtain ⟨head,_,rfl⟩ := did
      rfl
    · obtain ⟨head,rfl⟩ := did
      rfl
  | .gate | .push =>
    cases did
    split
    · rfl
    · rfl

theorem wp_plain {command : Command} {rest : Answer command → Steps Bool} (calm : plain command = true) (held : now.lock = some i)
    (each : ∀ value middle later, does i command now (some value) middle → Others i middle later → later.lock = some i →
      (rest value).wp ((critical i).among (Others i)) (Held i) later) :
    ((call command).bind rest).wp ((critical i).among (Others i)) (Held i) now := by
  have free : permits i command now := by
    cases command
    case release | merge => contradiction
    all_goals exact trivial
  apply wp_call free
  · intro middle later did moved
    exact ⟨moved.lock ((does_plain calm did).trans held),nofun⟩
  · intro value middle later did moved
    exact each value middle later did moved (moved.lock ((does_plain calm did).trans held))

theorem wp_record {event : String} {value : Bool} (held : now.lock = some i) (unmerged : value = false) :
    ((call (.record event)).bind fun _ => (pure value : Steps Bool)).wp ((critical i).among (Others i)) (Held i) now := by
  apply wp_plain rfl held
  intro _ _ later _ _ held
  exact ⟨held,fun merged => by simp [unmerged] at merged⟩

omit [DecidableEq I] in
theorem Held.kept {outcome : Option Bool} (held : Held i outcome now) (moved : Others i now later) : Held i outcome later := by
  refine ⟨moved.lock held.1,fun merged => moved.merged ?_⟩
  rw [moved.head]
  exact held.2 merged

/-- Whatever becomes of the push, the merge stands. -/
theorem wp_publishMain (held : Held i (some true) now) :
    (publishMain.bind fun _ => pure true).wp ((critical i).among (Others i)) (Held i) now := by
  have noted {event : String} {now : Refs I Commit} (held : Held i (some true) now) :
      ((call (.record event)).bind fun _ => (pure true : Steps Bool)).wp ((critical i).among (Others i)) (Held i) now := by
    apply wp_call
    · exact trivial
    · rintro middle later rfl moved
      exact ⟨moved.lock held.1,nofun⟩
    · rintro _ middle later rfl moved
      exact held.kept moved
  simp only [publishMain,Program.bind_eq,Program.bind_assoc]
  apply wp_call
  · exact trivial
  · rintro middle later rfl moved
    exact ⟨moved.lock held.1,nofun⟩
  · rintro rc middle later rfl moved
    have held : Held i (some true) later := by
      split at moved
      · have pushed : Held i (some true) { now with origin := some now.main } := held
        exact pushed.kept moved
      · exact held.kept moved
    split
    · exact noted held
    · exact noted held

/-- The rebase put the branch on `main`, which only moves from outside. -/
def Based (i : I) (now : Refs I Commit) : Prop :=
  now.lock = some i ∧ now.base i ≤ now.outside ∧ (now.base i = now.outside → now.main ≤ now.heads i)

omit [DecidableEq I] in
theorem Based.kept (based : Based i now) (moved : Others i now later) : Based i later := by
  obtain ⟨held,before,forward⟩ := based
  refine ⟨moved.lock held,?_,?_⟩
  · rw [moved.base]
    exact before.trans moved.outside
  · intro same
    rw [moved.base] at same
    have still : now.base i = now.outside := le_antisymm before (same ▸ moved.outside)
    rw [moved.main held (same ▸ still),moved.head]
    exact forward still

theorem wp_locked (held : now.lock = some i) : locked.wp ((critical i).among (Others i)) (Held i) now := by
  apply wp_plain rfl held
  intro _ _ first _ _ held
  apply wp_plain rfl held
  intro _ _ second _ _ before
  apply wp_plain rfl before
  intro rc middle third did moved held
  split
  · apply wp_plain rfl held
    intro _ _ last _ _ held
    exact wp_record held rfl
  next rebased =>
    have based : Based i third := by
      rw [does,if_pos (by rw [not_not.mp rebased])] at did
      obtain ⟨head,forward,rfl⟩ := did
      have started : Based i { second with
          heads := Function.update second.heads i head,base := Function.update second.base i second.outside } :=
        ⟨before,by simp,fun _ => by simpa using forward⟩
      exact started.kept moved
    apply wp_plain rfl held
    intro rc middle fourth did moved held
    split
    · exact wp_record held rfl
    next passed =>
      rw [does,if_pos (by rw [not_not.mp passed])] at did
      subst did
      have still : Based i { third with passed := insert (third.heads i) third.passed } := based
      have based : Based i fourth := still.kept moved
      have gated : fourth.heads i ∈ fourth.passed := by
        rw [moved.head]
        exact moved.passed (Set.mem_insert _ _)
      apply wp_call
      · exact ⟨held,gated,based.2.2⟩
      · intro middle later did moved
        refine ⟨moved.lock ?_,nofun⟩
        cases did
        exact held
      · intro rc middle fifth did moved
        rw [does] at did
        split
        next failed =>
          rw [if_neg (by simpa using failed)] at did
          exact ⟨moved.lock (did ▸ held),nofun⟩
        next merged =>
          rw [if_pos (by rw [not_not.mp merged])] at did
          obtain ⟨_,rfl⟩ := did
          have stands : Held i (some true) { fourth with
              main := fourth.heads i,merged := insert (fourth.heads i) fourth.merged } := ⟨held,fun _ => Set.mem_insert _ _⟩
          exact wp_publishMain (stands.kept moved)

/-- What a worker that is through leaves: where it says so, its branch is merged. -/
def Merged (i : I) (outcome : Option Bool) (now : Refs I Commit) : Prop := outcome = some true → now.heads i ∈ now.merged

theorem wp_worker : worker.wp ((critical i).among (Others i)) (Merged i) now := by
  apply wp_call
  · exact trivial
  · exact fun _ _ _ _ => nofun
  intro _ _ first _ _
  apply wp_call
  · exact trivial
  · exact fun _ _ _ _ => nofun
  rintro _ middle second ⟨_,_,rfl⟩ moved
  rw [wp_ensure]
  apply wp_mono _ (wp_locked (moved.lock rfl))
  intro outcome third held
  apply wp_call
  · exact held.1
  · exact fun _ _ _ _ => nofun
  · rintro _ middle last ⟨_,rfl⟩ moved merged
    rw [moved.head]
    exact moved.merged (held.2 merged)

end Workers

section Runs
variable {I Commit : Type} [DecidableEq I] [Preorder Commit]

abbrev Workers (I Commit : Type) := Crew I Command Answer Bool (Refs I Commit)

/-- A worker takes its next call, or `main` is moved from outside, which only adds to it. -/
inductive Step : Workers I Commit → Workers I Commit → Prop
  | works {workers next : Workers I Commit} (stepped : Crew.Steps critical (fun _ program => program = worker) workers next) :
      Step workers next
  | moves {workers : Workers I Commit} {head : Commit} (forward : workers.shared.main ≤ head) :
      Step workers { workers with shared := { workers.shared with main := head,outside := workers.shared.outside + 1 } }

def opening (main : Commit) (heads : I → Commit) : Workers I Commit :=
  ⟨⟨main,heads,none,none,0,fun _ => 0,∅,∅⟩,fun _ => .done none⟩

/-- What the loop has put on `main` has passed the gate and is still part of it, also what was pushed and what a worker
reports as merged; a merge that is tried can only fail over commits from outside. -/
structure Standing (workers : Workers I Commit) : Prop where
  merged : ∀ commit ∈ workers.shared.merged, commit ≤ workers.shared.main ∧ commit ∈ workers.shared.passed
  published : ∀ commit ∈ workers.shared.origin, commit ≤ workers.shared.main
  reported : ∀ i, workers.running i = .done (some true) → workers.shared.heads i ∈ workers.shared.merged
  tried : ∀ i rest, workers.running i = .call .merge rest → workers.shared.lock = some i ∧
    workers.shared.heads i ∈ workers.shared.passed ∧
      (workers.shared.base i = workers.shared.outside → workers.shared.main ≤ workers.shared.heads i)

def Safe (workers : Workers I Commit) : Prop := Crew.Safe critical Others Merged Sound workers

theorem safe_step {workers next : Workers I Commit} (stepped : Step workers next) (safe : Safe workers) : Safe next := by
  cases stepped with
  | works stepped =>
    refine Crew.safe_step ?_ ?_ ?_ ?_ stepped safe
    · exact fun i command now answer later permitted sound did => sound_call permitted sound did
    · exact fun i j command now answer later different permitted _ did => Others.of_call different permitted did
    · exact fun i now later sound moved => moved.sound sound
    · rintro i outcome program now rfl _ _
      exact wp_worker
  | moves forward =>
    have sound : Sound workers.shared → Sound { workers.shared with main := _,outside := workers.shared.outside + 1 } :=
      fun sound => ⟨fun commit merged => (sound.kept commit merged).trans forward,sound.gated,
        fun commit pushed => (sound.published commit pushed).trans forward⟩
    refine ⟨sound safe.sound,fun i later reached => safe.each i later (.head ?_ reached)⟩
    exact ⟨sound,rfl,rfl,subset_rfl,subset_rfl,id,Nat.le_succ _,fun _ same => absurd same (Nat.succ_ne_self _)⟩

theorem safe_opening {main : Commit} {heads : I → Commit} : Safe (opening main heads) :=
  ⟨⟨nofun,Set.empty_subset _,nofun⟩,fun _ _ _ => nofun⟩

theorem Safe.standing {workers : Workers I Commit} (safe : Safe workers) : Standing workers where
  merged commit merged := ⟨safe.sound.kept commit merged,safe.sound.gated merged⟩
  published := safe.sound.published
  reported _ through := safe.finished through rfl
  tried _ _ pending := safe.guarded pending

/-- Any number of workers in any interleaving, with `main` moved forward from outside at any moment. -/
theorem merges_stand {main : Commit} {heads : I → Commit} {last : Workers I Commit}
    (ran : ReflTransGen Step (opening main heads) last) : Standing last := by
  have safe : Safe last := by
    induction ran with
    | refl => exact safe_opening
    | tail _ stepped ih => exact safe_step stepped ih
  exact safe.standing

/-- One worker merges a commit and the push fails. -/
theorem merges_stand_merged : ∃ last : Workers Unit Nat, ReflTransGen Step (opening 0 fun _ => 0) last ∧
    last.running () = .done (some true) ∧ last.shared.main = 2 ∧ Standing last := by
  have worked : Runs (critical ()) worker (opening 0 fun _ => 0).shared
      [⟨.work,some ()⟩,⟨.acquire,some ()⟩,⟨.add,some 0⟩,⟨.commit,some 0⟩,⟨.rebase,some 0⟩,⟨.gate,some 0⟩,⟨.merge,some 0⟩,
        ⟨.push,some 1⟩,⟨.record "push_failed",some ()⟩,⟨.release,some ()⟩] (some true) _ :=
    .call ⟨1,rfl⟩ (.call ⟨rfl,rfl,rfl⟩ (.call rfl (.call ⟨1,rfl⟩ (.call ⟨2,Nat.zero_le 2,rfl⟩ (.call rfl (.call ⟨Nat.zero_le 2,rfl⟩
      (.call rfl (.call rfl (.call ⟨rfl,rfl⟩ (.done _ _))))))))))
  have started : Crew.Steps critical (fun _ program => program = worker) (opening 0 fun _ => 0)
      (Crew.put (opening 0 fun _ => 0) () (opening 0 fun _ : Unit => 0).shared worker) := .start rfl rfl
  have ran := (ReflTransGen.head started (Crew.alone worked)).lift id fun _ _ => Step.works
  exact ⟨_,ran,rfl,rfl,merges_stand ran⟩

end Runs
end Frankenrust.Orchestrator.Trunk
