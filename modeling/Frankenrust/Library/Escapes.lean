import Mathlib.Data.List.Basic

/-! Writings that are read back piece by piece: where every piece is read the same whatever
follows it, the whole is read back as the pieces were meant. -/
namespace Escapes
variable {α β σ : Type}

/-- Reads the pieces one after the other; each round uses up a part of the word. -/
def readFrom (next : List α → Option (List β × List α)) : Nat → List α → Option (List β)
  | _, [] => some []
  | 0, _ :: _ => none
  | fuel + 1, symbol :: rest => do
    let (out,left) ← next (symbol :: rest)
    return out ++ (← readFrom next fuel left)

def read (next : List α → Option (List β × List α)) (word : List α) : Option (List β) := readFrom next word.length word

def Shrinks (next : List α → Option (List β × List α)) : Prop :=
  ∀ word out left, next word = some (out,left) → left.length < word.length

/-- The piece is read as `out`, whatever follows it. -/
def Spells (next : List α → Option (List β × List α)) (piece : List α) (out : List β) : Prop :=
  ∀ rest, read next (piece ++ rest) = (read next rest).map (out ++ ·)

variable {next : List α → Option (List β × List α)} {piece : List α} {out : List β}

theorem readFrom_enough (shrinks : Shrinks next) {fuel : Nat} {word : List α} (enough : word.length ≤ fuel) :
    readFrom next fuel word = read next word := by
  induction size : word.length using Nat.strongRecOn generalizing fuel word with
  | ind n ih =>
    cases word with
    | nil => cases fuel <;> rfl
    | cons symbol rest =>
      obtain ⟨fuel,rfl⟩ : ∃ more, fuel = more + 1 := ⟨fuel - 1,by simp at enough; omega⟩
      rw [read,List.length_cons,readFrom,readFrom]
      cases found : next (symbol :: rest) with
      | none => rfl
      | some pair =>
        obtain ⟨out,left⟩ := pair
        have shorter := shrinks _ _ _ found
        simp only [List.length_cons] at enough shorter size
        have here := ih left.length (by omega) (show left.length ≤ fuel by omega) rfl
        have there := ih left.length (by omega) (show left.length ≤ rest.length by omega) rfl
        simp only [Option.bind_eq_bind,Option.bind_some,here,there]

theorem spells_nil : Spells next [] [] := by
  intro rest
  simp

theorem spells_append {other : List α} {more : List β} (first : Spells next piece out) (second : Spells next other more) :
    Spells next (piece ++ other) (out ++ more) := by
  intro rest
  rw [List.append_assoc,first,second,Option.map_map]
  congr 1
  funext tail
  simp [List.append_assoc]

theorem spells_flatMap {write : σ → List α} {mean : σ → List β} {symbols : List σ}
    (each : ∀ symbol ∈ symbols, Spells next (write symbol) (mean symbol)) :
    Spells next (symbols.flatMap write) (symbols.flatMap mean) := by
  induction symbols with
  | nil => exact spells_nil
  | cons symbol symbols ih =>
    rw [List.flatMap_cons,List.flatMap_cons]
    exact spells_append (each symbol List.mem_cons_self) (ih fun other member => each other (List.mem_cons_of_mem _ member))

/-- A piece that one round reads, whatever follows it. -/
theorem spells_next (shrinks : Shrinks next) (filled : piece ≠ []) (reads : ∀ rest, next (piece ++ rest) = some (out,rest)) :
    Spells next piece out := by
  intro rest
  obtain ⟨symbol,tail,rfl⟩ := List.exists_cons_of_ne_nil filled
  have found := reads rest
  rw [List.cons_append] at found ⊢
  rw [read,List.length_cons,readFrom,found]
  have enough := readFrom_enough shrinks (show rest.length ≤ (tail ++ rest).length by simp)
  simp only [Option.bind_eq_bind,Option.bind_some,enough]
  cases read next rest <;> rfl

theorem read_spelled (spelled : Spells next piece out) : read next piece = some out := by
  have whole := spelled []
  simpa [read,readFrom] using whole

end Escapes
