import Mathlib.Algebra.Group.Nat.Defs
import Mathlib.Data.List.Basic

/-! Numbers as lower-case hexadecimal digits in ASCII, padded to a width, and read back. -/
namespace Hexadecimal

def digits (n : Nat) : List UInt8 := (Nat.toDigits 16 n).map Char.toUInt8

def padded (width n : Nat) : List UInt8 := List.replicate (width - (digits n).length) 0x30 ++ digits n

/-- The value of a digit; of other bytes nothing is said. -/
def value (byte : UInt8) : Nat := if byte < 0x3a then byte.toNat - 0x30 else byte.toNat - 0x57

def number (bytes : List UInt8) : Nat := bytes.foldl (fun n byte => n * 16 + value byte) 0

def Digit (byte : UInt8) : Prop := 0x30 ≤ byte ∧ byte ≤ 0x39 ∨ 0x61 ≤ byte ∧ byte ≤ 0x66

theorem digit_value {d : Nat} (small : d < 16) : value d.digitChar.toUInt8 = d ∧ Digit d.digitChar.toUInt8 := by
  have every : ∀ d : Fin 16, value d.val.digitChar.toUInt8 = d.val ∧
      (0x30 ≤ d.val.digitChar.toUInt8 ∧ d.val.digitChar.toUInt8 ≤ 0x39 ∨
        0x61 ≤ d.val.digitChar.toUInt8 ∧ d.val.digitChar.toUInt8 ≤ 0x66) := by decide
  exact every ⟨d,small⟩

theorem digits_eq (n : Nat) : digits n = if n < 16 then [n.digitChar.toUInt8] else digits (n / 16) ++ [(n % 16).digitChar.toUInt8] := by
  rw [digits,Nat.toDigits_eq_if (by decide)]
  split
  · rfl
  · rw [List.map_append,digits]
    rfl

theorem digits_spec (n : Nat) : number (digits n) = n ∧ ∀ byte ∈ digits n, Digit byte := by
  induction n using Nat.strongRecOn with
  | ind n ih =>
    rw [digits_eq]
    split
    next small =>
      obtain ⟨read,digit⟩ := digit_value small
      exact ⟨by simp [number,read],by simpa using digit⟩
    next large =>
      obtain ⟨front,known⟩ := ih (n / 16) (by omega)
      obtain ⟨read,digit⟩ := digit_value (Nat.mod_lt n (by decide))
      constructor
      · rw [number] at front ⊢
        rw [List.foldl_append,front,List.foldl_cons,List.foldl_nil,read]
        omega
      · intro byte member
        rcases List.mem_append.mp member with before | last
        · exact known byte before
        · rw [List.mem_singleton.mp last]
          exact digit

theorem padded_digit {width n : Nat} {byte : UInt8} (member : byte ∈ padded width n) : Digit byte := by
  rcases List.mem_append.mp member with zero | digit
  · rw [List.eq_of_mem_replicate zero]
    exact .inl ⟨by decide,by decide⟩
  · exact (digits_spec n).2 byte digit

theorem number_zeros (zeros : Nat) (bytes : List UInt8) : number (List.replicate zeros 0x30 ++ bytes) = number bytes := by
  have still : (List.replicate zeros (0x30 : UInt8)).foldl (fun n byte => n * 16 + value byte) 0 = 0 := by
    induction zeros with
    | zero => rfl
    | succ zeros ih => rw [List.replicate_succ,List.foldl_cons]; exact ih
  rw [number,List.foldl_append,still]
  rfl

theorem number_padded (width n : Nat) : number (padded width n) = n := by
  rw [padded,number_zeros,(digits_spec n).1]

theorem padded_length {width n : Nat} (some_width : 0 < width) (fits : n < 16 ^ width) : (padded width n).length = width := by
  have short := (Nat.length_toDigits_le_iff (n := n) (by decide : 1 < 16) some_width).mpr fits
  simp only [padded,digits,List.length_append,List.length_replicate,List.length_map]
  omega

end Hexadecimal
