import Mathlib.Data.List.Basic
import Mathlib.Data.List.Induction

/-! Separated names and their lexical resolution, over an arbitrary alphabet.
A name is a list with one separator symbol; its components are the pieces
between separators that are neither empty nor the current-directory piece.
Resolution is the usual stack machine for the parent-directory piece. -/
namespace Segments
variable {α : Type}

def render (sep : α) (rooted : Bool) (stack : List (List α)) : List α :=
  (if rooted then [sep] else []) ++ [sep].intercalate stack

/-- A resolved stack climbs first and then only descends; a rooted one never climbs. -/
structure Resolved (parent : List α) (rooted : Bool) (stack : List (List α)) : Prop where
  split : ∃ climbs descent, stack = List.replicate climbs parent ++ descent ∧
    parent ∉ descent ∧ (rooted = true → climbs = 0)

section
variable {sep : α} {rooted : Bool}

theorem intercalate_snoc (front : List (List α)) (last : List α) (some : front ≠ []) :
    [sep].intercalate (front ++ [last]) = [sep].intercalate front ++ sep :: last := by
  induction front with
  | nil => exact absurd rfl some
  | cons head tail ih =>
    cases tail with
    | nil => simp [List.intercalate_cons_cons]
    | cons next tail =>
      have rest := ih (by simp)
      simp only [List.cons_append,List.intercalate_cons_cons] at rest ⊢
      rw [rest]
      simp [List.append_assoc]

@[simp] theorem render_nil : render sep rooted [] = if rooted then [sep] else [] := by
  simp [render]

theorem render_snoc (front : List (List α)) (last : List α) :
    render sep rooted (front ++ [last]) =
      render sep rooted front ++ (if front = [] then [] else [sep]) ++ last := by
  by_cases empty : front = []
  · simp [render,empty]
  · simp [render,intercalate_snoc front last empty,empty]

theorem mem_render {stack : List (List α)} {symbol : α} (member : symbol ∈ render sep rooted stack) :
    symbol = sep ∨ ∃ piece ∈ stack, symbol ∈ piece := by
  induction stack using List.reverseRecOn with
  | nil =>
    cases rooted with
    | true => exact .inl (by simpa using member)
    | false => simp at member
  | append_singleton front last ih =>
    rw [render_snoc] at member
    rcases List.mem_append.mp member with before | final
    · rcases List.mem_append.mp before with earlier | between
      · rcases ih earlier with same | ⟨piece,inside,found⟩
        · exact .inl same
        · exact .inr ⟨piece,by simp [inside],found⟩
      · left
        split at between
        · simp at between
        · simpa using between
    · exact .inr ⟨last,by simp,final⟩

theorem length_render_append (sep : α) (rooted : Bool) (front back : List (List α)) (good : ∀ piece ∈ back, piece ≠ []) :
    (render sep rooted front).length + back.length ≤ (render sep rooted (front ++ back)).length := by
  induction back using List.reverseRecOn with
  | nil => simp
  | append_singleton back last ih =>
    have shorter := ih fun piece member => good piece (by simp [member])
    have nonempty := List.length_pos_iff.mpr (good last (by simp))
    rw [← List.append_assoc,render_snoc]
    simp only [List.length_append,List.length_singleton]
    omega

end

variable [DecidableEq α]

/-- The pieces of a name that denote a step: empty and current pieces do not. -/
def components (sep : α) (current : List α) (name : List α) : List (List α) :=
  (name.splitOn sep).filter fun piece => piece ≠ [] ∧ piece ≠ current

def resolveStep (parent : List α) (rooted : Bool) (stack : List (List α)) (piece : List α) :
    List (List α) :=
  if piece = parent then
    match stack.getLast? with
    | some last => if last = parent then stack ++ [parent] else stack.dropLast
    | none => if rooted then [] else [parent]
  else stack ++ [piece]

def resolve (parent : List α) (rooted : Bool) (pieces : List (List α)) : List (List α) :=
  pieces.foldl (resolveStep parent rooted) []

variable {sep : α} {current parent : List α} {rooted : Bool}

@[simp] theorem components_nil : components sep current [] = [] := by
  simp [components]

theorem components_append (front back : List α) :
    components sep current (front ++ sep :: back) =
      components sep current front ++ components sep current back := by
  simp [components,List.splitOn_append_cons_self]

@[simp] theorem components_sep (name : List α) :
    components sep current (sep :: name) = components sep current name := by
  simpa using components_append [] name

theorem components_piece (piece : List α) (plain : sep ∉ piece) :
    components sep current piece = if piece ≠ [] ∧ piece ≠ current then [piece] else [] := by
  rw [components,List.splitOn_eq_singleton plain]
  by_cases kept : piece ≠ [] ∧ piece ≠ current <;> simp [kept]

theorem components_first (piece rest : List α) (plain : sep ∉ piece)
    (ends : rest = [] ∨ ∃ tail, rest = sep :: tail) :
    components sep current (piece ++ rest) =
      (if piece ≠ [] ∧ piece ≠ current then [piece] else []) ++ components sep current rest := by
  rcases ends with rfl | ⟨tail,rfl⟩
  · simp [components_piece piece plain]
  · rw [components_append,components_piece piece plain,components_sep]

theorem mem_components {name piece : List α} (member : piece ∈ components sep current name) :
    piece ≠ [] ∧ piece ≠ current := by
  simpa using (List.mem_filter.mp member).2

theorem mem_splitOn (name : List α) :
    ∀ piece ∈ name.splitOn sep, ∀ symbol ∈ piece, symbol ∈ name ∧ symbol ≠ sep := by
  induction name with
  | nil => simp
  | cons head tail ih =>
    intro piece member symbol inside
    rw [List.splitOn_cons_eq_if_modifyHead] at member
    split at member
    next same =>
      rcases List.mem_cons.mp member with rfl | later
      · simp at inside
      · have found := ih piece later symbol inside
        exact ⟨List.mem_cons_of_mem _ found.1,found.2⟩
    next different =>
      cases pieces : tail.splitOn sep with
      | nil => simp at pieces
      | cons first rest =>
        rw [pieces] at ih member
        have earlier (piece : List α) (kept : piece ∈ first :: rest) (present : symbol ∈ piece) :
            symbol ∈ head :: tail ∧ symbol ≠ sep :=
          ⟨List.mem_cons_of_mem _ (ih piece kept symbol present).1,(ih piece kept symbol present).2⟩
        rcases List.mem_cons.mp member with rfl | later
        · rcases List.mem_cons.mp inside with rfl | found
          · exact ⟨by simp,by simpa using different⟩
          · exact earlier first (by simp) found
        · exact earlier piece (by simp [later]) inside

theorem components_plain {name piece : List α} (member : piece ∈ components sep current name) :
    sep ∉ piece :=
  fun inside => (mem_splitOn name piece (List.mem_filter.mp member).1 sep inside).2 rfl

theorem mem_component {name piece : List α} {symbol : α} (member : piece ∈ components sep current name)
    (inside : symbol ∈ piece) : symbol ∈ name :=
  (mem_splitOn name piece (List.mem_filter.mp member).1 symbol inside).1

theorem components_intercalate (stack : List (List α))
    (good : ∀ piece ∈ stack, piece ≠ [] ∧ piece ≠ current ∧ sep ∉ piece) :
    components sep current ([sep].intercalate stack) = stack := by
  by_cases empty : stack = []
  · simp [empty]
  · rw [components,List.splitOn_intercalate sep (fun piece member => (good piece member).2.2) empty]
    exact List.filter_eq_self.mpr fun piece member => by simp [good piece member]

/-- Reading a rendered stack gives the stack back. -/
theorem components_render (stack : List (List α))
    (good : ∀ piece ∈ stack, piece ≠ [] ∧ piece ≠ current ∧ sep ∉ piece) :
    components sep current (render sep rooted stack) = stack := by
  cases rooted <;> simp [render,components_intercalate stack good]

theorem resolveStep_plain (stack : List (List α)) (piece : List α) (plain : piece ≠ parent) :
    resolveStep parent rooted stack piece = stack ++ [piece] := by
  simp [resolveStep,plain]

theorem resolveStep_resolved (stack : List (List α)) (piece : List α)
    (resolved : Resolved parent rooted stack) :
    Resolved parent rooted (resolveStep parent rooted stack piece) := by
  obtain ⟨climbs,descent,rfl,descends,top⟩ := resolved.split
  by_cases up : piece = parent
  · subst piece
    rcases List.eq_nil_or_concat' descent with rfl | ⟨front,last,rfl⟩
    · cases climbs with
      | zero =>
        cases rooted with
        | true => exact ⟨0,[],by simp [resolveStep],by simp,by simp⟩
        | false => exact ⟨1,[],by simp [resolveStep],by simp,by simp⟩
      | succ climbs =>
        refine ⟨climbs + 2,[],?_,by simp,fun root => absurd (top root) (by omega)⟩
        simp [resolveStep,List.replicate_succ']
    · have different : last ≠ parent := fun same => descends (by simp [same])
      refine ⟨climbs,front,?_,fun member => descends (by simp [member]),top⟩
      simp [resolveStep,← List.append_assoc,different]
  · refine ⟨climbs,descent ++ [piece],?_,?_,top⟩
    · simp [resolveStep_plain _ _ up]
    · simp [descends,Ne.symm up]

theorem foldl_resolved (pieces stack : List (List α)) (resolved : Resolved parent rooted stack) :
    Resolved parent rooted (pieces.foldl (resolveStep parent rooted) stack) := by
  induction pieces generalizing stack with
  | nil => exact resolved
  | cons piece pieces ih => exact ih _ (resolveStep_resolved stack piece resolved)

theorem resolve_resolved (pieces : List (List α)) :
    Resolved parent rooted (resolve parent rooted pieces) :=
  foldl_resolved pieces [] ⟨0,[],by simp⟩

theorem foldl_plain (pieces stack : List (List α)) (plain : parent ∉ pieces) :
    pieces.foldl (resolveStep parent rooted) stack = stack ++ pieces := by
  induction pieces generalizing stack with
  | nil => simp
  | cons piece pieces ih =>
    simp only [List.mem_cons,not_or] at plain
    rw [List.foldl_cons,resolveStep_plain _ _ (Ne.symm plain.1),ih _ plain.2]
    simp

theorem resolve_append (front back : List (List α)) (plain : parent ∉ back) :
    resolve parent rooted (front ++ back) = resolve parent rooted front ++ back := by
  rw [resolve,List.foldl_append,foldl_plain back _ plain]
  rfl

theorem resolve_rooted (pieces : List (List α)) : parent ∉ resolve parent true pieces := by
  have resolved : Resolved parent true (resolve parent true pieces) := resolve_resolved pieces
  obtain ⟨climbs,descent,same,descends,top⟩ := resolved.split
  simpa [same,top rfl] using descends

/-- A resolved stack resolves to itself. -/
theorem resolve_self (stack : List (List α)) (resolved : Resolved parent rooted stack) :
    resolve parent rooted stack = stack := by
  obtain ⟨climbs,descent,rfl,descends,top⟩ := resolved.split
  rw [resolve_append _ _ descends]
  congr 1
  induction climbs with
  | zero => rfl
  | succ climbs ih =>
    cases rooted with
    | true => exact absurd (top rfl) (Nat.succ_ne_zero climbs)
    | false =>
      have before := ih ⟨climbs,descent,rfl,descends,nofun⟩ nofun
      have climb : resolveStep parent false (List.replicate climbs parent) parent =
          List.replicate climbs parent ++ [parent] := by
        cases climbs with
        | zero => simp [resolveStep]
        | succ climbs => simp [resolveStep,List.replicate_succ']
      rw [resolve] at before ⊢
      rw [List.replicate_succ',List.foldl_append,before]
      exact climb

theorem mem_resolve (pieces stack : List (List α)) (piece : List α)
    (member : piece ∈ pieces.foldl (resolveStep parent rooted) stack) :
    piece ∈ stack ∨ piece ∈ pieces := by
  induction pieces generalizing stack with
  | nil => exact .inl member
  | cons head tail ih =>
    rcases ih _ member with found | later
    · have kept : piece ∈ stack ∨ piece = head := by
        simp only [resolveStep] at found
        split at found
        next up =>
          subst up
          cases last : stack.getLast? with
          | none => cases rooted <;> simp_all
          | some top =>
            simp only [last] at found
            split at found
            · simpa using found
            · exact .inl (List.dropLast_subset _ found)
        next => simpa using found
      rcases kept with old | rfl
      · exact .inl old
      · exact .inr (by simp)
    · exact .inr (by simp [later])

end Segments
