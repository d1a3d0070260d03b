import Mathlib.Data.List.Basic

/-! Texts read line by line, where lines are ended by a symbol: what is ended stays as it is
whatever is appended, and only what stands after the last end is open. -/
namespace Lines
variable {α : Type} [DecidableEq α]

/-- The lines that are ended, and the open one after them. -/
def split (stop : α) : List α → List (List α) × List α
  | [] => ([],[])
  | symbol :: rest =>
    if symbol = stop then ([] :: (split stop rest).1,(split stop rest).2)
    else match (split stop rest).1 with
      | [] => ([],symbol :: (split stop rest).2)
      | line :: lines => ((symbol :: line) :: lines,(split stop rest).2)

/-- What a reader gets: the ended lines and, unless it is empty, the open one. -/
def lines (stop : α) (text : List α) : List (List α) :=
  (split stop text).1 ++ if (split stop text).2 = [] then [] else [(split stop text).2]

variable {stop : α}

/-- Ended lines stay, and what is appended continues the open line. -/
theorem split_append (text more : List α) : split stop (text ++ more) =
    ((split stop text).1 ++ (split stop ((split stop text).2 ++ more)).1,(split stop ((split stop text).2 ++ more)).2) := by
  induction text with
  | nil => rfl
  | cons symbol text ih =>
    rw [List.cons_append]
    by_cases ends : symbol = stop
    · simp [split,ends,ih]
    · cases before : (split stop text).1 with
      | nil => simp [split,ends,ih,before]
      | cons line lines => simp [split,ends,ih,before]

theorem split_line {line : List α} (unbroken : stop ∉ line) (rest : List α) :
    split stop (line ++ stop :: rest) = (line :: (split stop rest).1,(split stop rest).2) := by
  induction line with
  | nil => simp [split]
  | cons symbol line ih =>
    have other : symbol ≠ stop := fun same => unbroken (same ▸ List.mem_cons_self)
    have later := ih fun member => unbroken (List.mem_cons_of_mem _ member)
    simp [split,other,later]

theorem open_unbroken (text : List α) : stop ∉ (split stop text).2 := by
  induction text with
  | nil => simp [split]
  | cons symbol text ih =>
    by_cases ends : symbol = stop
    · simpa [split,ends] using ih
    · cases before : (split stop text).1 with
      | nil => simpa [split,ends,before,Ne.symm ends] using ih
      | cons line lines => simpa [split,ends,before] using ih

/-- Nothing is open in a text that is empty or ends in the symbol. -/
theorem open_nil {text : List α} (ended : text = [] ∨ text.getLast? = some stop) : (split stop text).2 = [] := by
  rcases ended with rfl | ended
  · rfl
  · obtain ⟨front,rfl⟩ := List.getLast?_eq_some_iff.mp ended
    rw [split_append,split_line (open_unbroken front)]
    rfl

theorem closed_sublist (text : List α) : (split stop text).1.Sublist (lines stop text) :=
  List.sublist_append_left ..

theorem closed_mono {text longer : List α} (grown : text <+: longer) :
    (split stop text).1.Sublist (split stop longer).1 := by
  obtain ⟨more,rfl⟩ := grown
  rw [split_append]
  exact List.sublist_append_left ..

end Lines
