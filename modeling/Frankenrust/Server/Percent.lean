import Frankenrust.Server.Request
import Mathlib.Data.List.Forall2
import Mathlib.Tactic.Common

/-! What `percent_decode` reads: an escape is a percent sign and two hexadecimal digits of
either case, and everything else stands for itself. -/
namespace Frankenrust.Server

def hexChar (upper : Bool) (n : Nat) : UInt8 :=
  (ascii (if upper then "0123456789ABCDEF" else "0123456789abcdef")).getD n 0

/-- The digits after the percent sign, the case of each chosen for itself. -/
def Escape (byte high low : UInt8) : Prop :=
  ∃ upperHigh upperLow, high = hexChar upperHigh (byte.toNat / 16) ∧ low = hexChar upperLow (byte.toNat % 16)

/-- The ways to write a byte; only the percent sign has to be escaped. -/
inductive Writes (byte : UInt8) : Bytes → Prop
  | literal (plain : byte ≠ percent) : Writes byte [byte]
  | escaped {high low : UInt8} (escape : Escape byte high low) : Writes byte [percent,high,low]

def Begins (input : Bytes) : Prop := ∃ byte high low rest, Escape byte high low ∧ input = percent :: high :: low :: rest

/-- One pass from left to right that takes every byte of the input once. -/
inductive Decodes : Bytes → Bytes → Prop
  | nil : Decodes [] []
  | escaped {byte high low : UInt8} {rest output : Bytes} (escape : Escape byte high low) (later : Decodes rest output) :
    Decodes (percent :: high :: low :: rest) (byte :: output)
  | literal {byte : UInt8} {rest output : Bytes} (kept : ¬Begins (byte :: rest)) (later : Decodes rest output) :
    Decodes (byte :: rest) (byte :: output)

/-- The first part ends inside an escape that the second completes. -/
def Straddles (first second : Bytes) : Prop :=
  ∃ byte high low front rest, Escape byte high low ∧
    (first = front ++ [percent] ∧ second = high :: low :: rest ∨ first = front ++ [percent,high] ∧ second = low :: rest)

theorem hexDigit_char (upper : Bool) {n : Nat} (small : n < 16) : hexDigit (hexChar upper n) = some (UInt8.ofNat n) := by
  have every : ∀ upper : Bool, ∀ n : Fin 16, hexDigit (hexChar upper n.val) = some (UInt8.ofNat n.val) := by decide
  exact every upper ⟨n,small⟩

theorem hexDigit_some {byte value : UInt8} (read : hexDigit byte = some value) :
    value.toNat < 16 ∧ ∃ upper, byte = hexChar upper value.toNat := by
  have every : ∀ n : Fin 256, (hexDigit (UInt8.ofNat n.val)).all (fun value => value.toNat < 16 &&
      (UInt8.ofNat n.val == hexChar true value.toNat || UInt8.ofNat n.val == hexChar false value.toNat)) = true := by
    decide +kernel
  have known := every ⟨byte.toNat,byte.toNat_lt⟩
  simp only [UInt8.ofNat_toNat,read,Option.all_some,Bool.and_eq_true,Bool.or_eq_true,decide_eq_true_eq,beq_iff_eq] at known
  obtain ⟨small,upper | lower⟩ := known
  · exact ⟨small,true,upper⟩
  · exact ⟨small,false,lower⟩

/-- `percent_decode` takes two digits for an escape exactly where they are one. -/
theorem escape_iff {byte high low : UInt8} : Escape byte high low ↔
    ∃ hi lo, hexDigit high = some hi ∧ hexDigit low = some lo ∧ hi * 16 + lo = byte := by
  constructor
  · rintro ⟨upperHigh,upperLow,rfl,rfl⟩
    have size := byte.toNat_lt
    refine ⟨_,_,hexDigit_char _ (by omega),hexDigit_char _ (by omega),?_⟩
    apply UInt8.toNat.inj
    simp
    omega
  · rintro ⟨hi,lo,first,second,rfl⟩
    obtain ⟨highSmall,upperHigh,rfl⟩ := hexDigit_some first
    obtain ⟨lowSmall,upperLow,rfl⟩ := hexDigit_some second
    have value : (hi * 16 + lo).toNat = hi.toNat * 16 + lo.toNat := by
      simp
      omega
    refine ⟨upperHigh,upperLow,?_,?_⟩
    · rw [value]
      congr 1
      omega
    · rw [value]
      congr 1
      omega

theorem percentDecode_escaped {byte high low : UInt8} (escape : Escape byte high low) (rest : Bytes) :
    percentDecode (percent :: high :: low :: rest) = byte :: percentDecode rest := by
  obtain ⟨hi,lo,first,second,rfl⟩ := escape_iff.mp escape
  simp [percentDecode,first,second]

theorem percentDecode_literal {byte : UInt8} {rest : Bytes} (kept : ¬Begins (byte :: rest)) :
    percentDecode (byte :: rest) = byte :: percentDecode rest := by
  cases rest with
  | nil => rfl
  | cons high rest =>
    cases rest with
    | nil => rfl
    | cons low rest =>
      rw [percentDecode]
      split
      next sign =>
        subst sign
        cases first : hexDigit high with
        | none => rfl
        | some hi =>
          cases second : hexDigit low with
          | none => rfl
          | some lo => exact absurd ⟨_,high,low,rest,escape_iff.mpr ⟨hi,lo,first,second,rfl⟩,rfl⟩ kept
      next => rfl

theorem begins_plain {byte : UInt8} (plain : byte ≠ percent) (rest : Bytes) : ¬Begins (byte :: rest) := by
  rintro ⟨_,_,_,_,_,same⟩
  exact plain (List.cons.inj same).1

theorem decodes_percentDecode (input : Bytes) : Decodes input (percentDecode input) := by
  induction size : input.length using Nat.strongRecOn generalizing input with
  | ind n ih =>
    by_cases begins : Begins input
    · obtain ⟨byte,high,low,rest,escape,rfl⟩ := begins
      rw [percentDecode_escaped escape]
      simp only [List.length_cons] at size
      exact .escaped escape (ih rest.length (by omega) rest rfl)
    · cases input with
      | nil => exact .nil
      | cons byte rest =>
        rw [percentDecode_literal begins]
        simp only [List.length_cons] at size
        exact .literal begins (ih rest.length (by omega) rest rfl)

theorem decodes_eq {input output : Bytes} (decodes : Decodes input output) : output = percentDecode input := by
  induction decodes with
  | nil => rfl
  | escaped escape _ ih => rw [percentDecode_escaped escape,ih]
  | literal kept _ ih => rw [percentDecode_literal kept,ih]

theorem decodes_length {input output : Bytes} (decodes : Decodes input output) : output.length ≤ input.length := by
  induction decodes with
  | nil => exact Nat.le_refl _
  | escaped _ _ ih =>
    simp only [List.length_cons]
    omega
  | literal _ _ ih => exact Nat.succ_le_succ ih

theorem percentDecode_written {byte : UInt8} {written : Bytes} (writes : Writes byte written) (rest : Bytes) :
    percentDecode (written ++ rest) = byte :: percentDecode rest := by
  cases writes with
  | literal plain => exact percentDecode_literal (begins_plain plain rest)
  | escaped escape => exact percentDecode_escaped escape rest

theorem percentDecode_encoded {bytes : Bytes} {written : List Bytes} (encoded : List.Forall₂ Writes bytes written) :
    percentDecode written.flatten = bytes := by
  induction encoded with
  | nil => rfl
  | cons writes _ ih => rw [List.flatten_cons,percentDecode_written writes,ih]

/-- What is appended completes an escape only at the very end. -/
theorem begins_append {byte : UInt8} {first second : Bytes} (apart : ¬Straddles (byte :: first) second)
    (begins : Begins (byte :: first ++ second)) : Begins (byte :: first) := by
  obtain ⟨value,high,low,rest,escape,same⟩ := begins
  rw [List.cons_append,List.cons.injEq] at same
  obtain ⟨rfl,same⟩ := same
  cases first with
  | nil => exact absurd ⟨value,high,low,[],rest,escape,.inl ⟨rfl,same⟩⟩ apart
  | cons digit first =>
    rw [List.cons_append,List.cons.injEq] at same
    obtain ⟨rfl,same⟩ := same
    cases first with
    | nil => exact absurd ⟨value,digit,low,[],rest,escape,.inr ⟨rfl,same⟩⟩ apart
    | cons other first =>
      rw [List.cons_append,List.cons.injEq] at same
      obtain ⟨rfl,_⟩ := same
      exact ⟨value,digit,other,first,escape,rfl⟩

theorem straddles_append {first second : Bytes} (front : Bytes) (straddles : Straddles first second) :
    Straddles (front ++ first) second := by
  obtain ⟨byte,high,low,before,rest,escape,⟨rfl,rfl⟩ | ⟨rfl,rfl⟩⟩ := straddles
  · exact ⟨byte,high,low,front ++ before,rest,escape,.inl ⟨(List.append_assoc ..).symm,rfl⟩⟩
  · exact ⟨byte,high,low,front ++ before,rest,escape,.inr ⟨(List.append_assoc ..).symm,rfl⟩⟩

theorem percentDecode_append {first second : Bytes} (apart : ¬Straddles first second) :
    percentDecode (first ++ second) = percentDecode first ++ percentDecode second := by
  have decodes := decodes_percentDecode first
  generalize percentDecode first = output at decodes ⊢
  induction decodes with
  | nil => rfl
  | @escaped byte high low rest output escape _ ih =>
    have later := ih fun straddles => apart (straddles_append [percent,high,low] straddles)
    rw [List.cons_append,List.cons_append,List.cons_append,percentDecode_escaped escape,later]
    rfl
  | @literal byte rest output kept _ ih =>
    have later := ih fun straddles => apart (straddles_append [byte] straddles)
    have alone : ¬Begins (byte :: (rest ++ second)) := fun begins => kept (begins_append apart begins)
    rw [List.cons_append,percentDecode_literal alone,later]
    rfl

/-- Whatever way a string is escaped, it is read back; each escape is read once and what is not
one is kept; the output is no longer than the input, and two parts are decoded apart unless
the second completes an escape of the first. -/
theorem percentDecode_faithful :
    (∀ bytes written, List.Forall₂ Writes bytes written → percentDecode written.flatten = bytes) ∧
      (∀ input output, Decodes input output ↔ output = percentDecode input) ∧
      (∀ input, (percentDecode input).length ≤ input.length) ∧
      ∀ first second, ¬Straddles first second →
        percentDecode (first ++ second) = percentDecode first ++ percentDecode second := by
  refine ⟨fun _ _ => percentDecode_encoded,?_,fun input => decodes_length (decodes_percentDecode input),
    fun _ _ => percentDecode_append⟩
  intro input output
  constructor
  · exact decodes_eq
  · rintro rfl
    exact decodes_percentDecode input

end Frankenrust.Server
