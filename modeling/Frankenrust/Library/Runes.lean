import Frankenrust.Library.Utf8

/-! Code points of UTF-8 read back: a decoded code point is encoded by the bytes it was
decoded from, whatever follows them, and a valid string is the sum of its characters. -/
namespace Utf8

def encode (code : Nat) : List UInt8 :=
  if code < 0x80 then [UInt8.ofNat code]
  else if code < 0x800 then [UInt8.ofNat (0xc0 + code / 64),UInt8.ofNat (0x80 + code % 64)]
  else if code < 0x10000 then
    [UInt8.ofNat (0xe0 + code / 4096),UInt8.ofNat (0x80 + code / 64 % 64),UInt8.ofNat (0x80 + code % 64)]
  else
    [UInt8.ofNat (0xf0 + code / 262144),UInt8.ofNat (0x80 + code / 4096 % 64),UInt8.ofNat (0x80 + code / 64 % 64),
      UInt8.ofNat (0x80 + code % 64)]

/-- What a lead byte of each width promises. -/
theorem lead_some {byte : UInt8} {found : Lead} (leads : lead byte = some found) :
    0x80 ≤ found.low ∧ found.high ≤ 0xbf ∧
      (found.tail = 1 ∧ byte.toNat = 0xc0 + found.payload ∧ 2 ≤ found.payload ∧ found.payload ≤ 31 ∨
      found.tail = 2 ∧ byte.toNat = 0xe0 + found.payload ∧ found.payload ≤ 15 ∧ (found.payload = 0 → found.low = 0xa0) ∨
      found.tail = 3 ∧ byte.toNat = 0xf0 + found.payload ∧ found.payload ≤ 4 ∧ (found.payload = 0 → found.low = 0x90) ∧
        (found.payload = 4 → found.high = 0x8f)) := by
  simp only [lead] at leads
  repeat' split at leads
  all_goals first | cases leads; simp; omega | contradiction

theorem continued_take {tail low high code width : Nat} {rest : List UInt8} {result : Nat × Nat} (other : List UInt8)
    (ok : continued tail low high code width rest = .ok result) :
    tail ≤ rest.length ∧ continued tail low high code width (rest.take tail ++ other) = .ok result := by
  induction tail generalizing low high code width rest with
  | zero =>
    cases ok
    exact ⟨Nat.zero_le _,rfl⟩
  | succ tail ih =>
    cases rest with
    | nil => cases ok
    | cons byte rest =>
      simp only [continued] at ok
      split at ok
      next inside =>
        obtain ⟨long,later⟩ := ih ok
        refine ⟨Nat.succ_le_succ long,?_⟩
        rw [List.take_succ_cons,List.cons_append,continued,if_pos inside]
        exact later
      next => cases ok

theorem continued_high {tail low high code width : Nat} {rest : List UInt8} {result : Nat × Nat} (above : 0x80 ≤ low)
    (ok : continued tail low high code width rest = .ok result) : ∀ byte ∈ rest.take tail, ¬byte < 0x80 := by
  induction tail generalizing low high code width rest with
  | zero => simp
  | succ tail ih =>
    cases rest with
    | nil => simp
    | cons byte rest =>
      simp only [continued] at ok
      split at ok
      next inside =>
        have later := ih (Nat.le_refl _) ok
        intro other member
        rcases List.mem_cons.mp member with rfl | member
        · rw [UInt8.lt_iff_toNat_lt]
          simp only [UInt8.reduceToNat]
          omega
        · exact later other member
      next => cases ok

theorem continued_bound {tail low high code width : Nat} {rest : List UInt8} {result : Nat × Nat} (above : 0x80 ≤ low)
    (below : high ≤ 0xbf) (ok : continued tail low high code width rest = .ok result) :
    result.1 < (code + 1) * 64 ^ tail := by
  induction tail generalizing low high code width rest with
  | zero =>
    cases ok
    simp
  | succ tail ih =>
    cases rest with
    | nil => cases ok
    | cons byte rest =>
      simp only [continued] at ok
      split at ok
      next inside =>
        have later := ih (Nat.le_refl _) (Nat.le_refl _) ok
        have digit : code * 64 + (byte.toNat - 0x80) + 1 ≤ (code + 1) * 64 := by omega
        calc
          result.1 < (code * 64 + (byte.toNat - 0x80) + 1) * 64 ^ tail := later
          _ ≤ (code + 1) * 64 * 64 ^ tail := Nat.mul_le_mul_right _ digit
          _ = (code + 1) * 64 ^ (tail + 1) := by rw [Nat.pow_succ,Nat.mul_assoc,Nat.mul_comm 64]
      next => cases ok

/-- The bytes of a code point decode to it whatever follows them. -/
theorem decode_take {bytes : List UInt8} {code width : Nat} (other : List UInt8) (ok : decode bytes = .ok (code,width)) :
    width ≤ bytes.length ∧ decode (bytes.take width ++ other) = .ok (code,width) := by
  cases bytes with
  | nil => cases ok
  | cons byte rest =>
    simp only [decode] at ok
    split at ok
    next plain =>
      cases ok
      exact ⟨by simp,by simp [decode,plain]⟩
    next high =>
      cases found : lead byte with
      | none => simp [found] at ok
      | some lead =>
        simp only [found] at ok
        have size := continued_width ok
        obtain ⟨long,later⟩ := continued_take other ok
        simp only at size
        subst size
        refine ⟨by simp; omega,?_⟩
        rw [Nat.add_comm,List.take_succ_cons,List.cons_append,decode,if_neg high,found]
        rw [Nat.add_comm] at later
        exact later

theorem ofNat_eq {byte : UInt8} {n : Nat} (same : byte.toNat = n) : UInt8.ofNat n = byte := by
  rw [← same,UInt8.ofNat_toNat]

theorem encode_two {first second : UInt8} {payload : Nat} (begins : first.toNat = 0xc0 + payload) (least : 2 ≤ payload)
    (most : payload ≤ 31) (low : 0x80 ≤ second.toNat) (high : second.toNat ≤ 0xbf) :
    encode (payload * 64 + (second.toNat - 0x80)) = [first,second] := by
  rw [encode,if_neg (by omega),if_pos (by omega)]
  simp only [List.cons.injEq]
  exact ⟨ofNat_eq (by omega),ofNat_eq (by omega),trivial⟩

theorem encode_three {first second third : UInt8} {payload : Nat} (begins : first.toNat = 0xe0 + payload) (most : payload ≤ 15)
    (low : 0x80 ≤ second.toNat) (high : second.toNat ≤ 0xbf) (least : payload = 0 → 0xa0 ≤ second.toNat)
    (lower : 0x80 ≤ third.toNat) (higher : third.toNat ≤ 0xbf) :
    encode ((payload * 64 + (second.toNat - 0x80)) * 64 + (third.toNat - 0x80)) = [first,second,third] := by
  rw [encode,if_neg (by omega),if_neg (by omega),if_pos (by omega)]
  simp only [List.cons.injEq]
  exact ⟨ofNat_eq (by omega),ofNat_eq (by omega),ofNat_eq (by omega),trivial⟩

theorem encode_four {first second third fourth : UInt8} {payload : Nat} (begins : first.toNat = 0xf0 + payload)
    (low : 0x80 ≤ second.toNat) (high : second.toNat ≤ 0xbf)
    (least : payload = 0 → 0x90 ≤ second.toNat) (lower : 0x80 ≤ third.toNat) (higher : third.toNat ≤ 0xbf)
    (lowest : 0x80 ≤ fourth.toNat) (highest : fourth.toNat ≤ 0xbf) :
    encode (((payload * 64 + (second.toNat - 0x80)) * 64 + (third.toNat - 0x80)) * 64 + (fourth.toNat - 0x80)) =
      [first,second,third,fourth] := by
  rw [encode,if_neg (by omega),if_neg (by omega),if_neg (by omega)]
  simp only [List.cons.injEq]
  exact ⟨ofNat_eq (by omega),ofNat_eq (by omega),ofNat_eq (by omega),ofNat_eq (by omega),trivial⟩

theorem continued_cons {tail low high code width : Nat} {rest : List UInt8} {result : Nat × Nat}
    (ok : continued (tail + 1) low high code width rest = .ok result) :
    ∃ byte later, rest = byte :: later ∧ low ≤ byte.toNat ∧ byte.toNat ≤ high ∧
      continued tail 0x80 0xbf (code * 64 + (byte.toNat - 0x80)) (width + 1) later = .ok result := by
  cases rest with
  | nil => cases ok
  | cons byte later =>
    simp only [continued] at ok
    split at ok
    next inside => exact ⟨byte,later,rfl,inside.1,inside.2,ok⟩
    next => cases ok

/-- A decoded code point is encoded by its own bytes. -/
theorem encode_decode {bytes : List UInt8} {code width : Nat} (ok : decode bytes = .ok (code,width)) :
    encode code = bytes.take width := by
  cases bytes with
  | nil => cases ok
  | cons byte rest =>
    simp only [decode] at ok
    split at ok
    next plain =>
      cases ok
      have low := UInt8.lt_iff_toNat_lt.mp plain
      simp only [UInt8.reduceToNat] at low
      simp [encode,low]
    next =>
      cases found : lead byte with
      | none => simp [found] at ok
      | some lead =>
        obtain ⟨tail,payload,floor,ceiling⟩ := lead
        simp only [found] at ok
        obtain ⟨low,high,⟨rfl,begins,least,most⟩ | ⟨rfl,begins,most,least⟩ | ⟨rfl,begins,_,least,_⟩⟩ := lead_some found
        all_goals simp only at low high begins least ok
        · obtain ⟨second,_,rfl,above,below,done⟩ := continued_cons ok
          simp only [continued,Except.ok.injEq,Prod.mk.injEq] at done
          obtain ⟨rfl,rfl⟩ := done
          exact encode_two begins least most (by omega) (by omega)
        · obtain ⟨second,_,rfl,above,below,ok⟩ := continued_cons ok
          obtain ⟨third,_,rfl,lower,higher,done⟩ := continued_cons ok
          simp only [continued,Except.ok.injEq,Prod.mk.injEq] at done
          obtain ⟨rfl,rfl⟩ := done
          exact encode_three begins most (by omega) (by omega) (fun none => by have := least none; omega) lower higher
        · obtain ⟨second,_,rfl,above,below,ok⟩ := continued_cons ok
          obtain ⟨third,_,rfl,lower,higher,ok⟩ := continued_cons ok
          obtain ⟨fourth,_,rfl,lowest,highest,done⟩ := continued_cons ok
          simp only [continued,Except.ok.injEq,Prod.mk.injEq] at done
          obtain ⟨rfl,rfl⟩ := done
          exact encode_four begins (by omega) (by omega) (fun none => by have := least none; omega) lower higher lowest highest

theorem decode_bound {bytes : List UInt8} {code width : Nat} (ok : decode bytes = .ok (code,width)) : code < 16 ^ 8 := by
  cases bytes with
  | nil => cases ok
  | cons byte rest =>
    simp only [decode] at ok
    split at ok
    · cases ok
      have bound := byte.toNat_lt
      omega
    · cases found : lead byte with
      | none => simp [found] at ok
      | some lead =>
        simp only [found] at ok
        obtain ⟨low,high,shape⟩ := lead_some found
        have bound := continued_bound low high ok
        obtain ⟨tail,_,_,most⟩ | ⟨tail,_,most,_⟩ | ⟨tail,_,most,_⟩ := shape
        all_goals
          rw [tail] at bound
          simp only at bound
          omega

/-- Only the code point of a byte below 0x80 is written with it. -/
theorem decode_plain {bytes : List UInt8} {code : Nat} (ok : decode bytes = .ok (code,bytes.length)) {byte : UInt8}
    (plain : byte < 0x80) (member : byte ∈ bytes) : code = byte.toNat := by
  cases bytes with
  | nil => cases ok
  | cons first rest =>
    simp only [decode] at ok
    split at ok
    next =>
      simp only [Except.ok.injEq,Prod.mk.injEq,List.length_cons] at ok
      have empty := List.length_eq_zero_iff.mp (Nat.succ.inj ok.2).symm
      rw [empty,List.mem_singleton] at member
      rw [member,ok.1]
    next high =>
      cases found : lead first with
      | none => simp [found] at ok
      | some lead =>
        simp only [found] at ok
        have size := continued_width ok
        have whole : rest.take lead.tail = rest := List.take_of_length_le (by simp at size; omega)
        have higher := continued_high (lead_some found).1 ok
        rw [whole] at higher
        rcases List.mem_cons.mp member with rfl | later
        · exact absurd plain high
        · exact absurd plain (higher byte later)

theorem decode_positive {bytes : List UInt8} {code width : Nat} (ok : decode bytes = .ok (code,width)) : 0 < width := by
  cases bytes with
  | nil => cases ok
  | cons byte rest =>
    rcases decode_progress byte rest with ⟨_,_,same,positive⟩ | ⟨_,bad,_⟩
    · cases same.symm.trans ok
      exact positive
    · cases bad.symm.trans ok

theorem charsFrom_succ {fuel : Nat} {bytes : List UInt8} (enough : bytes.length ≤ fuel) :
    charsFrom (fuel + 1) bytes = charsFrom fuel bytes := by
  induction fuel generalizing bytes with
  | zero =>
    rw [List.length_eq_zero_iff.mp (Nat.le_zero.mp enough)]
    rfl
  | succ fuel ih =>
    rw [charsFrom]
    conv => rhs; rw [charsFrom]
    cases read : decode bytes with
    | error => rfl
    | ok result =>
      obtain ⟨code,width⟩ := result
      have positive := decode_positive read
      have shorter : (bytes.drop width).length ≤ fuel := by
        rw [List.length_drop]
        omega
      simp only [ih shorter]

theorem charsFrom_enough {fuel : Nat} {bytes : List UInt8} (enough : bytes.length ≤ fuel) :
    charsFrom fuel bytes = chars bytes := by
  obtain ⟨extra,rfl⟩ := Nat.exists_eq_add_of_le enough
  clear enough
  induction extra with
  | zero => rfl
  | succ extra ih => rw [← Nat.add_assoc,charsFrom_succ (Nat.le_add_right ..),ih]

/-- The first character of a string, and the characters of the rest. -/
theorem chars_ok {bytes : List UInt8} {code width : Nat} (ok : decode bytes = .ok (code,width)) :
    chars bytes = (code,bytes.take width) :: chars (bytes.drop width) := by
  have positive := decode_positive ok
  have long := (decode_take [] ok).1
  obtain ⟨fuel,size⟩ : ∃ fuel, bytes.length = fuel + 1 := ⟨bytes.length - 1,by omega⟩
  have shorter : (bytes.drop width).length ≤ fuel := by
    rw [List.length_drop]
    omega
  rw [chars,size,charsFrom]
  simp only [ok,charsFrom_enough shorter]

theorem chars_error {bytes : List UInt8} {width : Nat} (bad : decode bytes = .error width) : chars bytes = [] := by
  cases bytes with
  | nil => rfl
  | cons byte rest => simp [chars,charsFrom,bad]

/-- A string whose characters are given. -/
def Runes (runes : List (Nat × List UInt8)) : Prop := ∀ rune ∈ runes, decode rune.2 = .ok (rune.1,rune.2.length)

theorem chars_runes {runes : List (Nat × List UInt8)} (valid : Runes runes) : chars (runes.flatMap (·.2)) = runes := by
  induction runes with
  | nil => rfl
  | cons rune runes ih =>
    have rest := ih fun other member => valid other (List.mem_cons_of_mem _ member)
    have first := (decode_take (runes.flatMap (·.2)) (valid rune List.mem_cons_self)).2
    rw [List.take_length] at first
    rw [List.flatMap_cons,chars_ok first,List.take_left,List.drop_left,rest]

/-- The valid prefix is the sum of its characters, and what follows it is not valid. -/
theorem chars_prefix (bytes : List UInt8) : Runes (chars bytes) ∧
    ∃ width, bytes = (chars bytes).flatMap (·.2) ++ bytes.drop (validUpTo bytes) ∧
      decode (bytes.drop (validUpTo bytes)) = .error width := by
  induction size : bytes.length using Nat.strongRecOn generalizing bytes with
  | ind n ih =>
    cases read : decode bytes with
    | error width =>
      have none := chars_error read
      simp only [validUpTo,none]
      exact ⟨nofun,width,rfl,read⟩
    | ok result =>
      obtain ⟨code,width⟩ := result
      have positive := decode_positive read
      obtain ⟨long,local_⟩ := decode_take [] read
      obtain ⟨valid,wrong,split,stop⟩ := ih (bytes.drop width).length (by rw [List.length_drop]; omega) (bytes.drop width) rfl
      have parts := chars_ok read
      have until_ : validUpTo bytes = width + validUpTo (bytes.drop width) := by
        rw [validUpTo,parts,validUpTo]
        simp only [List.map_cons,List.sum_cons,List.length_take,Nat.min_eq_left long]
      have dropped : bytes.drop (validUpTo bytes) = (bytes.drop width).drop (validUpTo (bytes.drop width)) := by
        rw [until_,List.drop_drop]
      refine ⟨?_,wrong,?_,by rw [dropped]; exact stop⟩
      · rw [parts]
        intro rune member
        rcases List.mem_cons.mp member with rfl | later
        · rw [List.append_nil] at local_
          rw [local_,List.length_take,Nat.min_eq_left long]
        · exact valid rune later
      · rw [dropped,parts,List.flatMap_cons,List.append_assoc,← split,List.take_append_drop]

end Utf8
