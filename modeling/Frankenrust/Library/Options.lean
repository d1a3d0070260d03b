import Mathlib.Data.List.Forall2
import Mathlib.Order.Lattice

/-! Lists whose elements are read one by one, where a reading may fail. -/
namespace Options
variable {α β : Type}

theorem mapM_some {read : α → Option β} {items : List α} {found : List β} :
    items.mapM read = some found ↔ List.Forall₂ (fun item value => read item = some value) items found := by
  induction items generalizing found with
  | nil => simp [eq_comm]
  | cons item items ih =>
    rw [List.mapM_cons,List.forall₂_cons_left_iff]
    simp only [Option.pure_def,Option.bind_eq_bind,Option.bind_eq_some_iff,Option.some.injEq,ih]
    constructor
    · rintro ⟨value,head,values,tail,rfl⟩
      exact ⟨value,values,head,tail,rfl⟩
    · rintro ⟨value,values,head,tail,rfl⟩
      exact ⟨value,head,values,tail,rfl⟩

theorem mapM_isSome {read : α → Option β} {items : List α} :
    (∃ found, items.mapM read = some found) ↔ ∀ item ∈ items, ∃ value, read item = some value := by
  induction items with
  | nil => simp
  | cons item items ih =>
    simp only [List.forall_mem_cons,← ih,List.mapM_cons,Option.pure_def,Option.bind_eq_bind,Option.bind_eq_some_iff,
      Option.some.injEq]
    constructor
    · rintro ⟨_,value,head,values,tail,rfl⟩
      exact ⟨⟨value,head⟩,values,tail⟩
    · rintro ⟨⟨value,head⟩,values,tail⟩
      exact ⟨_,value,head,values,tail,rfl⟩

theorem mapM_mem {read : α → Option β} {items : List α} {found : List β} (all : items.mapM read = some found)
    {item : α} (member : item ∈ items) : ∃ value ∈ found, read item = some value := by
  have read := mapM_some.mp all
  clear all
  induction read with
  | nil => contradiction
  | cons head _ ih =>
    rcases List.mem_cons.mp member with rfl | member
    · exact ⟨_,by simp,head⟩
    · obtain ⟨value,inside,same⟩ := ih member
      exact ⟨value,List.mem_cons_of_mem _ inside,same⟩

theorem mem_mapM {read : α → Option β} {items : List α} {found : List β} (all : items.mapM read = some found)
    {value : β} (member : value ∈ found) : ∃ item ∈ items, read item = some value := by
  have read := mapM_some.mp all
  clear all
  induction read with
  | nil => contradiction
  | cons head _ ih =>
    rcases List.mem_cons.mp member with rfl | member
    · exact ⟨_,by simp,head⟩
    · obtain ⟨item,inside,same⟩ := ih member
      exact ⟨item,List.mem_cons_of_mem _ inside,same⟩

theorem filter_zip {read : α → Option Bool} {items : List α} {found : List Bool} (all : items.mapM read = some found) :
    ((items.zip found).filter (·.2)).map (·.1) = items.filter fun item => read item = some true := by
  have read := mapM_some.mp all
  clear all
  induction read with
  | nil => rfl
  | @cons item value items values head _ ih =>
    rw [List.zip_cons_cons,List.filter_cons,List.filter_cons,head]
    cases value with
    | true => simpa using ih
    | false => simpa using ih

theorem foldl_max_le [LinearOrder α] {items : List α} {start bound : α} :
    items.foldl max start ≤ bound ↔ start ≤ bound ∧ ∀ item ∈ items, item ≤ bound := by
  induction items generalizing start with
  | nil => simp
  | cons item items ih =>
    rw [List.foldl_cons,ih,sup_le_iff]
    simp [and_assoc]

/-- Reading the items in a loop that keeps a sum of them is reading them all first. -/
theorem foldlM_map {γ : Type} {read : α → Option β} {keep : γ → β → γ} {items : List α} {start : γ} :
    items.foldlM (fun sum item => (read item).map (keep sum)) start = (items.mapM read).map fun found => found.foldl keep start := by
  induction items generalizing start with
  | nil => rfl
  | cons item items ih =>
    rw [List.foldlM_cons,List.mapM_cons]
    cases read item with
    | none => rfl
    | some value =>
      simp only [Option.map_some,Option.bind_eq_bind,Option.bind_some,ih,Option.pure_def]
      cases items.mapM read <;> rfl

end Options
