import Mathlib.Algebra.GroupWithZero.Nat
import Mathlib.Data.List.Basic

/-! UTF-8 as a byte format: decoding from the front, the valid prefix, and lossy
repair, where each maximal invalid subsequence becomes one replacement character. -/
namespace Utf8

/-- What a lead byte promises: the number of bytes after it, its share of the code
point and the range of the second byte. -/
structure Lead where
  tail : Nat
  payload : Nat
  low : Nat
  high : Nat

def lead (byte : UInt8) : Option Lead :=
  let b := byte.toNat
  if 0xc2 ≤ b ∧ b ≤ 0xdf then some ⟨1,b - 0xc0,0x80,0xbf⟩
  else if b = 0xe0 then some ⟨2,0,0xa0,0xbf⟩
  else if b = 0xed then some ⟨2,0xd,0x80,0x9f⟩
  else if 0xe1 ≤ b ∧ b ≤ 0xef then some ⟨2,b - 0xe0,0x80,0xbf⟩
  else if b = 0xf0 then some ⟨3,0,0x90,0xbf⟩
  else if 0xf1 ≤ b ∧ b ≤ 0xf3 then some ⟨3,b - 0xf0,0x80,0xbf⟩
  else if b = 0xf4 then some ⟨3,4,0x80,0x8f⟩
  else none

/-- Reads the bytes after a lead byte; an error carries the length of the invalid part. -/
def continued : Nat → Nat → Nat → Nat → Nat → List UInt8 → Except Nat (Nat × Nat)
  | 0, _, _, code, width, _ => .ok (code,width)
  | _ + 1, _, _, _, width, [] => .error width
  | tail + 1, low, high, code, width, byte :: rest =>
    if low ≤ byte.toNat ∧ byte.toNat ≤ high then
      continued tail 0x80 0xbf (code * 64 + (byte.toNat - 0x80)) (width + 1) rest
    else .error width

/-- The first code point and its width, or the width of the invalid part in front. -/
def decode : List UInt8 → Except Nat (Nat × Nat)
  | [] => .error 0
  | byte :: rest =>
    if byte < 0x80 then .ok (byte.toNat,1)
    else match lead byte with
      | none => .error 1
      | some lead => continued lead.tail lead.low lead.high lead.payload 1 rest

def charsFrom : Nat → List UInt8 → List (Nat × List UInt8)
  | 0, _ => []
  | fuel + 1, bytes =>
    match decode bytes with
    | .ok (code,width) => (code,bytes.take width) :: charsFrom fuel (bytes.drop width)
    | .error _ => []

def chars (bytes : List UInt8) : List (Nat × List UInt8) := charsFrom bytes.length bytes

def validUpTo (bytes : List UInt8) : Nat := ((chars bytes).map fun char => char.2.length).sum

def replacement : List UInt8 := [0xef,0xbf,0xbd]

def lossyFrom : Nat → List UInt8 → List UInt8
  | 0, _ => []
  | _ + 1, [] => []
  | fuel + 1, byte :: rest =>
    match decode (byte :: rest) with
    | .ok (_,width) => (byte :: rest).take width ++ lossyFrom fuel ((byte :: rest).drop width)
    | .error width => replacement ++ lossyFrom fuel ((byte :: rest).drop width)

def lossy (bytes : List UInt8) : List UInt8 := lossyFrom bytes.length bytes

theorem continued_width {tail low high code width : Nat} {rest : List UInt8} {result : Nat × Nat}
    (ok : continued tail low high code width rest = .ok result) : result.2 = width + tail := by
  induction tail generalizing low high code width rest with
  | zero =>
    cases ok
    rfl
  | succ tail ih =>
    cases rest with
    | nil => cases ok
    | cons byte rest =>
      simp only [continued] at ok
      split at ok
      · have later := ih ok
        omega
      · cases ok

theorem continued_error {tail low high code width found : Nat} {rest : List UInt8}
    (bad : continued tail low high code width rest = .error found) : width ≤ found := by
  induction tail generalizing low high code width rest with
  | zero => cases bad
  | succ tail ih =>
    cases rest with
    | nil =>
      cases bad
      exact Nat.le_refl _
    | cons byte rest =>
      simp only [continued] at bad
      split at bad
      · exact Nat.le_of_succ_le (ih bad)
      · cases bad
        exact Nat.le_refl _

theorem decode_progress (byte : UInt8) (rest : List UInt8) :
    (∃ code width, decode (byte :: rest) = .ok (code,width) ∧ 0 < width) ∨
      ∃ width, decode (byte :: rest) = .error width ∧ 0 < width := by
  by_cases plain : byte < 0x80
  · exact .inl ⟨byte.toNat,1,by simp [decode,plain],Nat.one_pos⟩
  · cases found : lead byte with
    | none => exact .inr ⟨1,by simp [decode,plain,found],Nat.one_pos⟩
    | some lead =>
      have unfolded : decode (byte :: rest) =
          continued lead.tail lead.low lead.high lead.payload 1 rest := by simp [decode,plain,found]
      rw [unfolded]
      cases read : continued lead.tail lead.low lead.high lead.payload 1 rest with
      | ok result =>
        have width := continued_width read
        exact .inl ⟨result.1,result.2,rfl,by omega⟩
      | error width => exact .inr ⟨width,rfl,continued_error read⟩

theorem lossyFrom_ascii (fuel : Nat) (bytes : List UInt8) (enough : bytes.length ≤ fuel)
    (plain : ∀ byte ∈ bytes, byte < 0x80) : lossyFrom fuel bytes = bytes := by
  induction fuel generalizing bytes with
  | zero => rw [List.length_eq_zero_iff.mp (Nat.le_zero.mp enough),lossyFrom]
  | succ fuel ih =>
    cases bytes with
    | nil => rfl
    | cons byte rest =>
      have first := plain byte (by simp)
      have later := ih rest (by simpa using enough) fun other member => plain other (by simp [member])
      simp [lossyFrom,decode,first,later]

theorem lossy_ascii (bytes : List UInt8) (plain : ∀ byte ∈ bytes, byte < 0x80) : lossy bytes = bytes :=
  lossyFrom_ascii _ bytes (Nat.le_refl _) plain

theorem lossyFrom_nonascii (fuel : Nat) (bytes : List UInt8) (enough : bytes.length ≤ fuel)
    (high : ∃ byte ∈ bytes, ¬byte < 0x80) : ∃ byte ∈ lossyFrom fuel bytes, ¬byte < 0x80 := by
  induction fuel generalizing bytes with
  | zero =>
    obtain ⟨byte,member,_⟩ := high
    simp [List.length_eq_zero_iff.mp (Nat.le_zero.mp enough)] at member
  | succ fuel ih =>
    cases bytes with
    | nil =>
      obtain ⟨byte,member,_⟩ := high
      simp at member
    | cons byte rest =>
      by_cases first : byte < 0x80
      · obtain ⟨other,member,large⟩ := high
        have later : other ∈ rest := by
          rcases List.mem_cons.mp member with rfl | later
          · exact absurd first large
          · exact later
        obtain ⟨found,present,kept⟩ := ih rest (by simpa using enough) ⟨other,later,large⟩
        exact ⟨found,by simp [lossyFrom,decode,first,present],kept⟩
      · rcases decode_progress byte rest with ⟨code,width,ok,positive⟩ | ⟨width,bad,_⟩
        · refine ⟨byte,?_,first⟩
          obtain ⟨width,rfl⟩ := Nat.exists_eq_succ_of_ne_zero (Nat.ne_of_gt positive)
          simp [lossyFrom,ok]
        · exact ⟨0xef,by simp [lossyFrom,bad,replacement],by decide⟩

theorem lossy_nonascii (bytes : List UInt8) (high : ∃ byte ∈ bytes, ¬byte < 0x80) :
    ∃ byte ∈ lossy bytes, ¬byte < 0x80 :=
  lossyFrom_nonascii _ bytes (Nat.le_refl _) high

theorem mem_lossyFrom (fuel : Nat) (bytes : List UInt8) (byte : UInt8) (member : byte ∈ lossyFrom fuel bytes) :
    byte ∈ bytes ∨ byte ∈ replacement := by
  induction fuel generalizing bytes with
  | zero => simp [lossyFrom] at member
  | succ fuel ih =>
    cases bytes with
    | nil => simp [lossyFrom] at member
    | cons first rest =>
      have kept (width : Nat) (later : byte ∈ lossyFrom fuel ((first :: rest).drop width)) :
          byte ∈ first :: rest ∨ byte ∈ replacement :=
        (ih _ later).imp_left fun found => List.mem_of_mem_drop found
      unfold lossyFrom at member
      split at member
      next code width ok =>
        rcases List.mem_append.mp member with found | later
        · exact .inl (List.mem_of_mem_take found)
        · exact kept width later
      next width bad =>
        rcases List.mem_append.mp member with found | later
        · exact .inr found
        · exact kept width later

theorem mem_lossy {bytes : List UInt8} {byte : UInt8} (member : byte ∈ lossy bytes) :
    byte ∈ bytes ∨ byte ∈ replacement := mem_lossyFrom _ bytes byte member

end Utf8
