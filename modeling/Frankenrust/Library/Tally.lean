import Mathlib.Algebra.BigOperators.Group.Finset.Basic
import Mathlib.Data.Fintype.BigOperators

/-! How many parts of a finite family are in a certain condition, as the parts change one
at a time. -/
namespace Tally
variable {I S : Type} [Fintype I]

def tally (condition : S → Bool) (parts : I → S) : Nat := ∑ i,(condition (parts i)).toNat

theorem tally_eq_zero {condition : S → Bool} {parts : I → S} (never : ∀ i, condition (parts i) = false) :
    tally condition parts = 0 := by
  simp [tally,never]

theorem tally_update [DecidableEq I] (condition : S → Bool) (parts : I → S) (i : I) (next : S) :
    tally condition (Function.update parts i next) + (condition (parts i)).toNat =
      tally condition parts + (condition next).toNat := by
  have others : ∑ j ∈ Finset.univ.erase i,(condition (Function.update parts i next j)).toNat =
      ∑ j ∈ Finset.univ.erase i,(condition (parts j)).toNat := by
    apply Finset.sum_congr rfl
    intro j member
    rw [Function.update_of_ne (Finset.ne_of_mem_erase member)]
  have before := Finset.sum_erase_add Finset.univ (fun j => (condition (parts j)).toNat) (Finset.mem_univ i)
  have after := Finset.sum_erase_add Finset.univ (fun j => (condition (Function.update parts i next j)).toNat)
    (Finset.mem_univ i)
  rw [Function.update_self] at after
  unfold tally
  omega

end Tally
