import Frankenrust.Library.Tenure
import Mathlib.Data.List.Count

/-! The story of a resource that is handed over, used, retired and at last released. -/
namespace Release

inductive Step
  | acquire
  | use
  | retire
  | release
  deriving DecidableEq

inductive Stage
  | unborn
  | live
  | retired
  | released
  deriving DecidableEq

def advance : Step → Stage → Option Stage
  | .acquire, .unborn => some .live
  | .use, .live => some .live
  | .retire, .live => some .retired
  | .release, .retired => some .released
  | _, _ => none

/-- All that may have happened up to a stage. -/
def story (uses : Nat) : Stage → List Step
  | .unborn => []
  | .live => .acquire :: List.replicate uses .use
  | .retired => .acquire :: List.replicate uses .use ++ [.retire]
  | .released => .acquire :: List.replicate uses .use ++ [.retire,.release]

/-- The steps are a story that has come to this stage. -/
def Told (steps : List Step) (stage : Stage) : Prop := ∃ uses, steps = story uses stage

variable {steps : List Step} {stage next : Stage} {step : Step}

theorem told_nil : Told [] .unborn := ⟨0,rfl⟩

theorem told_snoc (told : Told steps stage) (advanced : advance step stage = some next) : Told (steps ++ [step]) next := by
  obtain ⟨uses,rfl⟩ := told
  cases step <;> cases stage <;> cases advanced
  · exact ⟨0,rfl⟩
  · refine ⟨uses + 1,?_⟩
    rw [story,story,List.cons_append,← List.replicate_succ']
  · exact ⟨uses,rfl⟩
  · refine ⟨uses,?_⟩
    simp [story]

theorem told_retire (told : Told steps stage) : steps.count .retire = if stage = .retired ∨ stage = .released then 1 else 0 := by
  obtain ⟨uses,rfl⟩ := told
  cases stage <;> simp [story,List.count_replicate]

theorem told_release (told : Told steps stage) : steps.count .release = if stage = .released then 1 else 0 := by
  obtain ⟨uses,rfl⟩ := told
  cases stage <;> simp [story,List.count_replicate]

theorem told_acquire (told : Told steps stage) : steps.count .acquire = if stage = .unborn then 0 else 1 := by
  obtain ⟨uses,rfl⟩ := told
  cases stage <;> simp [story,List.count_replicate]

/-- Nothing comes after the release, and the retirement before it. -/
theorem told_last {before after : List Step} (told : Told (before ++ .release :: after) stage) :
    .retire ∈ before ∧ after = [] := by
  have finished : stage = .released := by
    by_contra early
    simpa [early] using told_release told
  obtain ⟨uses,same⟩ := told
  have last : before ++ .release :: after = (.acquire :: List.replicate uses .use ++ [.retire]) ++ [.release] := by
    simp [same,finished,story]
  rcases Tenure.split_snoc last.symm with ⟨rfl,rfl,_⟩ | ⟨earlier,_,inner⟩
  · exact ⟨by simp,rfl⟩
  · -- a second release would stand before the retirement
    have second : Step.release ∈ .acquire :: List.replicate uses Step.use ++ [.retire] := inner ▸ by simp
    simp [List.mem_replicate] at second

end Release
