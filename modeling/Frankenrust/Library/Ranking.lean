import Mathlib.Data.List.Sort

/-! Sorting by keys that tell the items apart: when two keys, over two lists, give one order. -/
namespace Ranking
variable {α β : Type} [LinearOrder β] {key other : α → β} {items more : List α}

/-- The items by their key, lowest first. -/
def ranked (key : α → β) (items : List α) : List α := items.insertionSort fun first second => key first ≤ key second

theorem ranked_perm : (ranked key items).Perm items := List.perm_insertionSort ..

theorem ranked_pairwise : (ranked key items).Pairwise fun first second => key first ≤ key second := by
  have total : Std.Total fun first second : α => key first ≤ key second := ⟨fun _ _ => le_total _ _⟩
  have transitive : IsTrans α fun first second : α => key first ≤ key second := ⟨fun _ _ _ => le_trans⟩
  exact List.pairwise_insertionSort _ items

/-- The keys put two items in the same order. -/
def Agree (key other : α → β) (first second : α) : Prop := key first ≤ key second ↔ other first ≤ other second

theorem ranked_eq (apart : ∀ first ∈ items, ∀ second ∈ items, other first = other second → first = second)
    (same : items.Perm more) (agree : ∀ first ∈ items, ∀ second ∈ items, Agree key other first second) :
    ranked key items = ranked other more := by
  have inside {item : α} (member : item ∈ ranked key items) : item ∈ items := ranked_perm.mem_iff.mp member
  have ordered : (ranked key items).Pairwise fun first second => other first ≤ other second := by
    apply List.Pairwise.imp_of_mem _ ranked_pairwise
    intro first second one two below
    exact (agree first (inside one) second (inside two)).mp below
  apply List.Perm.eq_of_pairwise _ ordered ranked_pairwise (ranked_perm.trans (same.trans ranked_perm.symm))
  intro first second one two below above
  have two : second ∈ items := same.mem_iff.mpr (ranked_perm.mem_iff.mp two)
  exact apart first (inside one) second two (le_antisymm below above)

theorem agree_of_ranked_eq (apart : ∀ first ∈ items, ∀ second ∈ items, key first = key second → first = second)
    (apartOther : ∀ first ∈ items, ∀ second ∈ items, other first = other second → first = second)
    (same : ranked key items = ranked other more) {first second : α} (one : first ∈ items) (two : second ∈ items) :
    Agree key other first second := by
  have ordered : (ranked key items).Pairwise fun first second => other first ≤ other second := same ▸ ranked_pairwise
  have both : (ranked key items).Pairwise fun first second =>
      Agree key other first second ∧ Agree key other second first := by
    apply List.Pairwise.imp_of_mem _ (ranked_pairwise.and ordered)
    rintro first second one two ⟨below,otherBelow⟩
    have one := ranked_perm.mem_iff.mp one
    have two := ranked_perm.mem_iff.mp two
    refine ⟨iff_of_true below otherBelow,?_⟩
    constructor
    · intro above
      rw [apart first one second two (le_antisymm below above)]
    · intro above
      rw [apartOther first one second two (le_antisymm otherBelow above)]
  have reflexive : ∀ item ∈ ranked key items, Agree key other item item := fun _ _ => iff_of_true le_rfl le_rfl
  exact List.Pairwise.forall_of_forall_of_flip reflexive (both.imp And.left) (both.imp And.right)
    (ranked_perm.mem_iff.mpr one) (ranked_perm.mem_iff.mpr two)

/-- Two keys that tell the items apart rank two lists alike exactly where the lists have the
same items and the keys agree on them. -/
theorem ranked_eq_iff (apart : ∀ first ∈ items, ∀ second ∈ items, key first = key second → first = second)
    (apartOther : ∀ first ∈ items, ∀ second ∈ items, other first = other second → first = second) :
    ranked key items = ranked other more ↔
      items.Perm more ∧ ∀ first ∈ items, ∀ second ∈ items, Agree key other first second := by
  constructor
  · intro same
    refine ⟨(same ▸ ranked_perm.symm).trans ranked_perm,?_⟩
    exact fun first one second two => agree_of_ranked_eq apart apartOther same one two
  · exact fun agree => ranked_eq apartOther agree.1 agree.2

end Ranking
