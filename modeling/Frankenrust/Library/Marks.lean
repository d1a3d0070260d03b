import Mathlib.Logic.Function.Basic
import Mathlib.Data.List.Nodup
import Mathlib.Data.List.Perm.Basic

/-! A family of parts some of which are marked by what is known of them, the others being
at rest. Whoever works through the parts one by one moves marks, never the whole family. -/
namespace Marks
variable {I T S : Type} {Knows : T → S → Prop}

def keys (marks : List (I × T)) : List I := marks.map Prod.fst

/-- No part has two marks, a marked part is as its mark says and the others are at rest. -/
structure Holds (Knows : T → S → Prop) (rest : T) (marks : List (I × T)) (parts : I → S) : Prop where
  single : (keys marks).Nodup
  marked : ∀ mark ∈ marks, Knows mark.2 (parts mark.1)
  others : ∀ i, i ∉ keys marks → Knows rest (parts i)

variable {rest : T} {marks : List (I × T)} {parts : I → S} {i : I} {mark : T}

theorem mem_keys (member : (i,mark) ∈ marks) : i ∈ keys marks :=
  List.mem_map.mpr ⟨_,member,rfl⟩

theorem holds_head (holds : Holds Knows rest ((i,mark) :: marks) parts) : Knows mark (parts i) :=
  holds.marked _ List.mem_cons_self

theorem holds_perm {other : List (I × T)} (permuted : marks.Perm other)
    (holds : Holds Knows rest marks parts) : Holds Knows rest other parts := by
  have same : (keys marks).Perm (keys other) := permuted.map _
  refine ⟨same.nodup_iff.mp holds.single,fun found member => ?_,fun i outside => ?_⟩
  · exact holds.marked found (permuted.mem_iff.mpr member)
  · exact holds.others i (fun inside => outside (same.mem_iff.mp inside))

/-- The part in front gets a new value and a new mark; the rest of the family stays. -/
theorem holds_put [DecidableEq I] {next : T} {part : S} (holds : Holds Knows rest ((i,mark) :: marks) parts)
    (known : Knows next part) : Holds Knows rest ((i,next) :: marks) (Function.update parts i part) := by
  have fresh : i ∉ keys marks := (List.nodup_cons.mp holds.single).1
  refine ⟨holds.single,fun found member => ?_,fun j outside => ?_⟩
  · rcases List.mem_cons.mp member with rfl | later
    · simpa using known
    · have other : found.1 ≠ i := fun same => fresh (same ▸ mem_keys later)
      rw [Function.update_of_ne other]
      exact holds.marked found (List.mem_cons_of_mem _ later)
  · have other : j ≠ i := fun same => outside (same ▸ List.mem_cons_self)
    rw [Function.update_of_ne other]
    exact holds.others j outside

theorem holds_touch [DecidableEq I] {part : S} (holds : Holds Knows rest marks parts)
    (known : ∀ mark, Knows mark (parts i) → Knows mark part) :
    Holds Knows rest marks (Function.update parts i part) := by
  refine ⟨holds.single,fun found member => ?_,fun j outside => ?_⟩
  · by_cases same : found.1 = i
    · rw [same,Function.update_self]
      exact known _ (same ▸ holds.marked found member)
    · rw [Function.update_of_ne same]
      exact holds.marked found member
  · by_cases same : j = i
    · rw [same,Function.update_self]
      exact known _ (same ▸ holds.others j outside)
    · rw [Function.update_of_ne same]
      exact holds.others j outside

theorem holds_mark (holds : Holds Knows rest [] parts) (i : I) : Holds Knows rest [(i,rest)] parts := by
  refine ⟨by simp [keys],fun found member => ?_,fun j _ => holds.others j (by simp [keys])⟩
  cases List.mem_singleton.mp member
  exact holds.others i (by simp [keys])

theorem holds_unmark (holds : Holds Knows rest ((i,mark) :: marks) parts) (known : Knows rest (parts i)) :
    Holds Knows rest marks parts := by
  obtain ⟨_,single⟩ := List.nodup_cons.mp holds.single
  refine ⟨single,fun found member => holds.marked found (List.mem_cons_of_mem _ member),fun j outside => ?_⟩
  by_cases same : j = i
  · exact same ▸ known
  · exact holds.others j (by simpa [keys,same] using outside)

theorem holds_settle [DecidableEq I] {part : S} (holds : Holds Knows rest ((i,mark) :: marks) parts)
    (known : Knows rest part) : Holds Knows rest marks (Function.update parts i part) := by
  apply holds_unmark (holds_put holds known)
  rwa [Function.update_self]

theorem holds_remark {next : T} (holds : Holds Knows rest ((i,mark) :: marks) parts)
    (known : Knows next (parts i)) : Holds Knows rest ((i,next) :: marks) parts := by
  classical
  have put := holds_put holds known
  rwa [Function.update_eq_self] at put

theorem holds_rest {next : T} (holds : Holds Knows rest marks parts)
    (known : ∀ part, Knows rest part → Knows next part) : Holds Knows next marks parts :=
  ⟨holds.single,holds.marked,fun i outside => known _ (holds.others i outside)⟩

theorem holds_all {all : List I} (single : all.Nodup) (full : ∀ i, i ∈ all) {next : T}
    (holds : Holds Knows rest [] parts) : Holds Knows next (all.map fun i => (i,rest)) parts := by
  have same : keys (all.map fun i => (i,rest)) = all := by simp [keys,Function.comp_def]
  refine ⟨same.symm ▸ single,fun found member => ?_,fun i outside => ?_⟩
  · obtain ⟨i,_,rfl⟩ := List.mem_map.mp member
    exact holds.others i (by simp [keys])
  · exact absurd (full i) (same ▸ outside)

theorem holds_some (holds : Holds Knows rest marks parts) (i : I) :
    ∃ mark, (mark = rest ∨ (i,mark) ∈ marks) ∧ Knows mark (parts i) := by
  by_cases inside : i ∈ keys marks
  · obtain ⟨found,member,rfl⟩ := List.mem_map.mp inside
    exact ⟨found.2,.inr member,holds.marked found member⟩
  · exact ⟨rest,.inl rfl,holds.others i inside⟩

end Marks
