import Frankenrust.Orchestrator.Worktree

/-! What `make_worktree` discards: everything that was held before it is held after it where
the worktree holds nothing of its own and the branch is tagged before it is deleted. -/
namespace Frankenrust.Orchestrator
namespace Checkout
variable {Item : Type} {before now later : Checkout Item} {trail : Trail}

/-- A worktree that is removed holds nothing that `main`, a tag or the branch does not reach, and
a branch that is deleted was tagged or holds nothing that `main` or a tag does not reach. -/
def Careful (before : Checkout Item) (trail : Trail) : Prop :=
  (trail.removed = true → reach before.tree ⊆ before.main ∪ before.tags ∪ reach before.branch) ∧
    (trail.deleted = true → trail.tagged = true ∨ reach before.branch ⊆ before.main ∪ before.tags)

/-- What is left, as far as the trail goes. -/
structure Left (before : Checkout Item) (trail : Trail) (now : Checkout Item) : Prop where
  main : now.main = before.main
  tags : now.tags = {item | item ∈ before.tags ∨ trail.tagged = true ∧ item ∈ reach before.branch}
  branch : ∀ item, item ∈ reach now.branch ∨ item ∈ before.main ↔
    (trail.deleted = false ∧ item ∈ reach before.branch) ∨ item ∈ before.main
  tree : ∀ item, item ∈ reach now.tree ∨ item ∈ before.main ↔
    (trail.removed = false ∧ item ∈ reach before.tree) ∨ item ∈ before.main
  order : trail.deleted = true → trail.removed = false → reach before.tree = ∅

theorem left_blank (before : Checkout Item) : Left before .blank before :=
  ⟨rfl,by simp [Trail.blank],by simp [Trail.blank],by simp [Trail.blank],nofun⟩

theorem Left.held (left : Left before trail now) (item : Item) : item ∈ now.held ↔ item ∈ before.main ∨ item ∈ before.tags ∨
    ((trail.tagged = true ∨ trail.deleted = false) ∧ item ∈ reach before.branch) ∨
      (trail.removed = false ∧ item ∈ reach before.tree) := by
  have branch := left.branch item
  have tree := left.tree item
  simp only [Checkout.held,Set.mem_ofPred_eq,left.main,left.tags]
  grind

/-- What is left holds all that was held just where the run was careful. -/
theorem Left.careful (left : Left before trail now) : before.held ⊆ now.held ↔ Careful before trail := by
  constructor
  · intro kept
    constructor
    · intro removed item own
      have found := (left.held item).mp (kept (.inr (.inr (.inr own))))
      simp only [removed,Bool.true_eq_false,false_and,or_false] at found
      rcases found with main | tags | branch
      · exact .inl (.inl main)
      · exact .inl (.inr tags)
      · exact .inr branch.2
    · intro deleted
      by_cases tagged : trail.tagged = true
      · exact .inl tagged
      right
      intro item own
      have found := (left.held item).mp (kept (.inr (.inr (.inl own))))
      rcases found with main | tags | ⟨excuse,_⟩ | ⟨untouched,tree⟩
      · exact .inl main
      · exact .inr tags
      · simp [tagged,deleted] at excuse
      · rw [left.order deleted untouched] at tree
        contradiction
  · rintro ⟨tree,branch⟩ item found
    rw [left.held]
    have fromBranch (own : item ∈ reach before.branch) : item ∈ before.main ∨ item ∈ before.tags ∨
        ((trail.tagged = true ∨ trail.deleted = false) ∧ item ∈ reach before.branch) ∨
          (trail.removed = false ∧ item ∈ reach before.tree) := by
      cases deleted : trail.deleted with
      | false => exact .inr (.inr (.inl ⟨.inr rfl,own⟩))
      | true =>
        rcases branch deleted with tagged | elsewhere
        · exact .inr (.inr (.inl ⟨.inl tagged,own⟩))
        · exact (elsewhere own).imp_right .inl
    rcases found with main | tags | own | own
    · exact .inl main
    · exact .inr (.inl tags)
    · exact fromBranch own
    · cases removed : trail.removed with
      | false => exact .inr (.inr (.inr ⟨rfl,own⟩))
      | true =>
        rcases tree removed own with (main | tags) | inside
        · exact .inl main
        · exact .inr (.inl tags)
        · simpa [removed] using fromBranch inside

/-- The worktree is gone, and the branch has not been touched. -/
structure Cleared (before : Checkout Item) (trail : Trail) (now : Checkout Item) : Prop where
  left : Left before trail now
  tree : now.tree = none
  branch : now.branch = before.branch
  present : trail.deleted = false
  absent : trail.removed = false → reach before.tree = ∅

abbrev watched : Program.Contract Deed Deed.Answer (Checkout Item × Trail) := custody.noting Trail.note

theorem wp_git {α : Type} {command : Git} {rest : command.Answer → Deeds α} {post : Option α → Checkout Item × Trail → Prop}
    (each : ∀ answer later, does (.git command) now answer later →
      Program.andThen watched post rest answer (later,trail.note ⟨.git command,answer⟩)) :
    ((git command).bind rest).wp watched post (now,trail) := by
  rw [Program.wp_bind]
  exact Program.wp_noting.mpr ⟨trivial,each⟩

theorem wp_queue {command : Command} {post : Option (Answer command) → Checkout Item × Trail → Prop}
    (each : ∀ answer, post answer (now,trail)) : (queue command).wp watched post (now,trail) := by
  refine Program.wp_noting.mpr ⟨trivial,?_⟩
  rintro answer later rfl
  exact each answer

theorem reach_none : reach (none : Option (Set Item)) = ∅ := by simp [reach]

theorem reach_some (items : Set Item) : reach (some items) = items := by simp [reach]

/-- The first part: the worktree is gone, or the removal was not started. -/
theorem wp_clearWorktree : Worktree.clearWorktree.wp watched (fun outcome later =>
    Left before later.2 later.1 ∧ (outcome = some () → Cleared before later.2 later.1)) (before,.blank) := by
  have start := left_blank before
  apply wp_git
  rintro there later ⟨rfl,found⟩
  cases there with
  | none => exact ⟨start,nofun⟩
  | some there =>
    have known := found there rfl
    change Program.wp _ _ (if there then Worktree.removeWorktree else pure ()) _
    cases there with
    | false =>
      have none : later.tree = none := by simpa using known
      exact ⟨start,fun _ => ⟨start,none,rfl,rfl,fun _ => by rw [none,reach_none]⟩⟩
    | true =>
      apply wp_git
      rintro answer now ⟨unstarted,rest,_,rfl,_⟩
      cases answer with
      | none =>
        have same := unstarted rfl
        rw [same]
        exact ⟨start,nofun⟩
      | some result =>
        refine ⟨trivial,?_⟩
        rintro _ ⟨now,noted⟩ ⟨⟨rfl,rfl⟩,rfl⟩
        have left : Left later ⟨true,false,false⟩ { later with tree := none } :=
          ⟨rfl,by simp,by simp,by simp [reach_none],nofun⟩
        exact ⟨left,fun _ => ⟨left,rfl,rfl,rfl,nofun⟩⟩

theorem note_tag {answer : Option (Git.tag).Answer} (failed : ¬Succeeds answer) : trail.note ⟨.git .tag,answer⟩ = trail := by
  unfold Trail.note
  split
  next same => cases same
  next same =>
    cases same
    exact absurd ⟨_,rfl⟩ failed
  next same => cases same
  next => rfl

theorem note_branchDelete {answer : Option (Git.branchDelete).Answer} (failed : ¬Succeeds answer) :
    trail.note ⟨.git .branchDelete,answer⟩ = trail := by
  unfold Trail.note
  split
  next same => cases same
  next same => cases same
  next same =>
    cases same
    exact absurd ⟨_,rfl⟩ failed
  next => rfl

/-- Preserving only adds a tag. -/
theorem wp_preserveBranch (cleared : Cleared before trail now) : Worktree.preserveBranch.wp watched
    (fun _ later => Cleared before later.2 later.1) (now,trail) := by
  apply wp_git
  rintro parsed later ⟨rfl,_⟩
  cases parsed with
  | none => exact cleared
  | some result =>
    obtain ⟨rc,_⟩ := result
    change Program.wp _ _ (if rc ≠ 0 then pure () else _) _
    split
    · exact cleared
    apply wp_git
    rintro ancestor now ⟨rfl,_⟩
    cases ancestor with
    | none => exact cleared
    | some result =>
      obtain ⟨rc,_⟩ := result
      change Program.wp _ _ (if rc = 0 then pure () else _) _
      split
      · exact cleared
      apply wp_git
      rintro tagged later ⟨succeeded,failed⟩
      by_cases success : Succeeds tagged
      · cases succeeded success
        obtain ⟨printed,rfl⟩ := success
        have preserved : Cleared before { trail with tagged := true } { now with tags := now.tags ∪ reach now.branch } := by
          refine ⟨⟨cleared.left.main,?_,cleared.left.branch,cleared.left.tree,cleared.left.order⟩,cleared.tree,
            cleared.branch,cleared.present,cleared.absent⟩
          ext item
          simp only [cleared.left.tags,cleared.branch,Set.mem_union,Set.mem_ofPred_eq,true_and]
          grind
        apply wp_git
        rintro counted later rfl
        cases counted with
        | none => exact preserved
        | some result =>
          obtain ⟨_,printed⟩ := result
          simp only [Program.andThen]
          cases commits printed with
          | none => exact preserved
          | some n => exact wp_queue fun _ => preserved
      · cases failed success
        rw [note_tag success]
        cases tagged with
        | none => exact cleared
        | some result =>
          obtain ⟨rc,printed⟩ := result
          have nonzero : rc ≠ 0 := by
            rintro rfl
            exact success ⟨printed,rfl⟩
          change Program.wp _ _ (if rc ≠ 0 then _ else _) _
          rw [if_pos nonzero]
          exact wp_queue fun _ => cleared

/-- A branch and a worktree that start at `main` hold nothing else. -/
theorem Left.branched (left : Left before trail now) (free : now.branch = none) :
    Left before trail { now with branch := some now.main } := by
  refine ⟨left.main,left.tags,?_,left.tree,left.order⟩
  intro item
  have known := left.branch item
  rw [free,reach_none] at known
  rw [← known,reach_some,left.main]
  simp

theorem Left.checkedOut (left : Left before trail now) (free : now.tree = none) :
    Left before trail { now with tree := some now.main } := by
  refine ⟨left.main,left.tags,left.branch,?_,left.order⟩
  intro item
  have known := left.tree item
  rw [free,reach_none] at known
  rw [← known,reach_some,left.main]
  simp

theorem Cleared.deleted (cleared : Cleared before trail now) :
    Left before { trail with deleted := true } { now with branch := none } :=
  ⟨cleared.left.main,cleared.left.tags,by simp [reach_none],cleared.left.tree,fun _ => cleared.absent⟩

/-- The last part: the branch is deleted and made anew. -/
theorem wp_remake (cleared : Cleared before trail now) : Program.wp watched
    (fun _ later => Left before later.2 later.1) ((git .branchDelete).bind fun _ => (git .worktreeAdd).bind fun result =>
      (pure (decide (result.1 = 0)) : Deeds Bool)) (now,trail) := by
  have added {trail : Trail} {now : Checkout Item} (left : Left before trail now) :
      ((git .worktreeAdd).bind fun result => (pure (decide (result.1 = 0)) : Deeds Bool)).wp watched
        (fun _ later => Left before later.2 later.1) (now,trail) := by
    apply wp_git
    rintro answer later ⟨succeeded,failed⟩
    have kept : Left before trail later := by
      by_cases success : Succeeds answer
      · obtain ⟨branch,tree,rfl⟩ := succeeded success
        exact (left.branched branch).checkedOut tree
      · rcases failed success with rfl | ⟨branch,rfl⟩
        · exact left
        · exact left.branched branch
    match answer with
    | none => exact kept
    | some (_,_) => exact kept
  apply wp_git
  rintro answer later ⟨succeeded,failed⟩
  by_cases success : Succeeds answer
  · cases succeeded success
    obtain ⟨printed,rfl⟩ := success
    exact added cleared.deleted
  · cases failed success
    rw [note_branchDelete success]
    match answer with
    | none => exact cleared.left
    | some _ => exact added cleared.left

theorem wp_makeWorktree : Worktree.makeWorktree.wp watched (fun _ later => Left before later.2 later.1) (before,.blank) := by
  unfold Worktree.makeWorktree
  simp only [Program.bind_eq]
  rw [Program.wp_bind]
  apply Program.wp_mono _ wp_clearWorktree
  rintro (_ | _) ⟨now,trail⟩ ⟨left,cleared⟩
  · exact left
  rw [Program.andThen,Program.wp_bind]
  apply Program.wp_mono _ (wp_preserveBranch (cleared rfl))
  rintro (_ | _) ⟨now,trail⟩ cleared
  · exact cleared.left
  · exact wp_remake cleared

/-- Whatever was there before and however its commands end, `make_worktree` keeps what was held
just where its worktree holds nothing of its own and its branch is preserved or kept. -/
theorem makeWorktree_keeps {events : List (Program.Event Deed Deed.Answer)} {outcome : Option Bool}
    (ran : Program.Runs custody Worktree.makeWorktree before events outcome later) :
    before.held ⊆ later.held ↔ Careful before (events.foldl Trail.note .blank) :=
  (Program.runs_noting wp_makeWorktree ran).careful

/-- A failed attempt whose branch is tagged before it is deleted. -/
theorem makeWorktree_keeps_tagged : ∃ later : Checkout Unit,
    Program.Runs custody Worktree.makeWorktree ⟨∅,∅,some {()},none⟩
      [⟨.git .pathExists,some false⟩,⟨.git .revParse,some (0,[])⟩,⟨.git .isAncestor,some (1,[])⟩,⟨.git .tag,some (0,[])⟩,
        ⟨.git .revList,some (0,"1".toList)⟩,⟨.queue (.record "branch_preserved"),some ()⟩,⟨.git .branchDelete,some (0,[])⟩,
        ⟨.git .worktreeAdd,some (0,[])⟩] (some true) later ∧
      (⟨∅,∅,some {()},none⟩ : Checkout Unit).held ⊆ later.held := by
  have ran : ∃ later : Checkout Unit, Program.Runs custody Worktree.makeWorktree ⟨∅,∅,some {()},none⟩
      [⟨.git .pathExists,some false⟩,⟨.git .revParse,some (0,[])⟩,⟨.git .isAncestor,some (1,[])⟩,⟨.git .tag,some (0,[])⟩,
        ⟨.git .revList,some (0,"1".toList)⟩,⟨.queue (.record "branch_preserved"),some ()⟩,⟨.git .branchDelete,some (0,[])⟩,
        ⟨.git .worktreeAdd,some (0,[])⟩] (some true) later := by
    refine ⟨_,.call ⟨rfl,by simp⟩ (.call ⟨rfl,fun _ => rfl⟩ (.call ⟨rfl,by simp [Succeeds]⟩ (.call ⟨fun _ => rfl,fun failed =>
      absurd ⟨_,rfl⟩ failed⟩ (.call rfl (.call rfl (.call ⟨fun _ => rfl,fun failed => absurd ⟨_,rfl⟩ failed⟩
        (.call ⟨fun _ => ⟨rfl,rfl,rfl⟩,fun failed => absurd ⟨_,rfl⟩ failed⟩ (.done _ _))))))))⟩
  obtain ⟨later,ran⟩ := ran
  exact ⟨later,ran,(makeWorktree_keeps ran).mpr ⟨nofun,fun _ => .inl rfl⟩⟩

/-- Changes that a killed process left uncommitted go with the worktree, and a branch goes
although it could not be tagged. -/
theorem makeWorktree_discards :
    (∃ (events : List (Program.Event Deed Deed.Answer)) (later : Checkout Unit),
      Program.Runs custody Worktree.makeWorktree ⟨∅,∅,some ∅,some {()}⟩ events (some true) later ∧ () ∉ later.held) ∧
    ∃ (events : List (Program.Event Deed Deed.Answer)) (later : Checkout Unit),
      Program.Runs custody Worktree.makeWorktree ⟨∅,∅,some {()},none⟩ events (some true) later ∧ () ∉ later.held := by
  constructor
  · refine ⟨[⟨.git .pathExists,some true⟩,⟨.git .worktreeRemove,some (0,[])⟩,⟨.git .rmtree,some ()⟩,⟨.git .revParse,some (0,[])⟩,
      ⟨.git .isAncestor,some (0,[])⟩,⟨.git .branchDelete,some (0,[])⟩,⟨.git .worktreeAdd,some (0,[])⟩],_,
      .call ⟨rfl,by simp⟩ (.call ⟨nofun,none,by simp [reach_none],rfl,fun _ => rfl⟩ (.call ⟨rfl,rfl⟩ (.call ⟨rfl,fun _ => rfl⟩
        (.call ⟨rfl,by simp [reach_some]⟩ (.call ⟨fun _ => rfl,fun failed => absurd ⟨_,rfl⟩ failed⟩
          (.call ⟨fun _ => ⟨rfl,rfl,rfl⟩,fun failed => absurd ⟨_,rfl⟩ failed⟩ (.done _ _))))))),?_⟩
    simp [held,reach_some]
  · refine ⟨[⟨.git .pathExists,some false⟩,⟨.git .revParse,some (0,[])⟩,⟨.git .isAncestor,some (1,[])⟩,
      ⟨.git .tag,some (128,[])⟩,⟨.queue (.record "preserve_failed"),some ()⟩,⟨.git .branchDelete,some (0,[])⟩,
      ⟨.git .worktreeAdd,some (0,[])⟩],_,
      .call ⟨rfl,by simp⟩ (.call ⟨rfl,fun _ => rfl⟩ (.call ⟨rfl,by simp [Succeeds]⟩ (.call ⟨by simp [Succeeds],fun _ => rfl⟩
        (.call rfl (.call ⟨fun _ => rfl,fun failed => absurd ⟨_,rfl⟩ failed⟩
          (.call ⟨fun _ => ⟨rfl,rfl,rfl⟩,fun failed => absurd ⟨_,rfl⟩ failed⟩ (.done _ _))))))),?_⟩
    simp [held,reach_some]

end Checkout
end Frankenrust.Orchestrator
