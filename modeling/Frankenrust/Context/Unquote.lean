import Frankenrust.Context.Quote
import Frankenrust.Library.Escapes
import Frankenrust.Library.Hexadecimal
import Frankenrust.Library.Runes

/-! Quoted strings read back: `go_quote` writes each rune and each invalid byte as a piece
of its own, no two pieces are read alike, and none of them ends the quotation. -/
namespace Frankenrust.Context
open Escapes

def quoteByte : UInt8 := 0x22
def escapeByte : UInt8 := 0x5c

/-- The byte that an escape of one letter stands for. -/
def letterByte (letter : UInt8) : Option UInt8 :=
  if letter = 0x61 then some 0x07
  else if letter = 0x62 then some 0x08
  else if letter = 0x66 then some 0x0c
  else if letter = 0x6e then some 0x0a
  else if letter = 0x72 then some 0x0d
  else if letter = 0x74 then some 0x09
  else if letter = 0x76 then some 0x0b
  else if letter = quoteByte ∨ letter = escapeByte then some letter
  else none

/-- Reads one piece: a byte that stands for itself, or an escape. -/
def nextQuoted : Bytes → Option (Bytes × Bytes)
  | [] => none
  | byte :: rest =>
    if byte ≠ escapeByte then some ([byte],rest)
    else match rest with
      | [] => none
      | letter :: rest =>
        if letter = 0x78 then some ([UInt8.ofNat (Hexadecimal.number (rest.take 2))],rest.drop 2)
        else if letter = 0x75 then some (Utf8.encode (Hexadecimal.number (rest.take 4)),rest.drop 4)
        else if letter = 0x55 then some (Utf8.encode (Hexadecimal.number (rest.take 8)),rest.drop 8)
        else (letterByte letter).map fun byte => ([byte],rest)

/-- The inverse of `go_quote`. -/
def goUnquote (text : Bytes) : Option Bytes :=
  if text.head? = some quoteByte ∧ text.getLast? = some quoteByte then read nextQuoted text.tail.dropLast else none

/-- Whether no quote in it is unescaped and no backslash is left over; the flag says that
the byte before is a backslash which escapes. -/
def contained : Bool → Bytes → Bool
  | escaped, [] => !escaped
  | true, _ :: rest => contained false rest
  | false, byte :: rest => if byte = escapeByte then contained true rest else byte != quoteByte && contained false rest

/-- How a piece of the text stands for a piece of the string. -/
inductive Form : Bytes → Bytes → Prop
  | letter {letter byte : UInt8} (known : letterByte letter = some byte) : Form [byte] [escapeByte,letter]
  | literal {c : Nat} {bytes : Bytes} (decoded : Utf8.decode bytes = .ok (c,bytes.length)) (printable : goIsPrint c = true)
    (other : c ≠ 0x22 ∧ c ≠ 0x5c) : Form bytes bytes
  | byte (byte : UInt8) : Form [byte] (escapeByte :: 0x78 :: lowerHex 2 byte.toNat)
  | short {c : Nat} (fits : c < 0x10000) : Form (Utf8.encode c) (escapeByte :: 0x75 :: lowerHex 4 c)
  | long {c : Nat} (fits : c < 16 ^ 8) : Form (Utf8.encode c) (escapeByte :: 0x55 :: lowerHex 8 c)

theorem encode_ascii {c : Nat} (plain : c < 0x80) : Utf8.encode c = [UInt8.ofNat c] := by simp [Utf8.encode,plain]

theorem quoteRune_form {c : Nat} {bytes : Bytes} (decoded : Utf8.decode bytes = .ok (c,bytes.length)) :
    Form bytes (quoteRune (c,bytes)) := by
  have same : Utf8.encode c = bytes := by rw [Utf8.encode_decode decoded,List.take_length]
  have single (plain : c < 0x80) : bytes = [UInt8.ofNat c] := by rw [← same,encode_ascii plain]
  have lettered {letter : UInt8} (plain : c < 0x80) (known : letterByte letter = some (UInt8.ofNat c)) :
      Form bytes [escapeByte,letter] := by
    rw [single plain]
    exact .letter known
  unfold quoteRune
  simp only
  split
  next quoted =>
    rcases quoted with rfl | rfl
    · rw [single (by decide)]
      exact .letter rfl
    · rw [single (by decide)]
      exact .letter rfl
  next plain =>
    rw [not_or] at plain
    split
    next printable => exact .literal decoded printable plain
    next =>
      split
      next => exact lettered (by decide) (by decide)
      next => exact lettered (by decide) (by decide)
      next => exact lettered (by decide) (by decide)
      next => exact lettered (by decide) (by decide)
      next => exact lettered (by decide) (by decide)
      next => exact lettered (by decide) (by decide)
      next => exact lettered (by decide) (by decide)
      next =>
        split
        next control =>
          have small : c < 0x80 := by omega
          have code : (UInt8.ofNat c).toNat = c := by simp; omega
          have form := Form.byte (UInt8.ofNat c)
          rw [code] at form
          rw [single small]
          exact form
        next =>
          split
          next fits => rw [← same]; exact .short fits
          next => rw [← same]; exact .long (Utf8.decode_bound decoded)

theorem round_progress {rest tail : Bytes} {invalid : UInt8} (stops : rest.drop (Utf8.validUpTo rest) = invalid :: tail) :
    tail.length < rest.length := by
  have size := congrArg List.length stops
  simp only [List.length_drop,List.length_cons] at size
  omega

/-- The quoted text consists of pieces, each standing for its part of the string. -/
theorem goQuoteFrom_forms (fuel : Nat) (rest : Bytes) (enough : rest.length < fuel) :
    ∃ pieces : List (Bytes × Bytes), (∀ piece ∈ pieces, Form piece.1 piece.2) ∧
      goQuoteFrom fuel rest = pieces.flatMap (·.2) ∧ pieces.flatMap (·.1) = rest := by
  induction fuel generalizing rest with
  | zero => contradiction
  | succ fuel ih =>
    obtain ⟨valid,_,split,_⟩ := Utf8.chars_prefix rest
    have formed : ∀ piece ∈ (Utf8.chars rest).map fun char => (char.2,quoteRune char), Form piece.1 piece.2 := by
      intro piece member
      obtain ⟨char,known,rfl⟩ := List.mem_map.mp member
      exact quoteRune_form (valid char known)
    have texts : ((Utf8.chars rest).map fun char => (char.2,quoteRune char)).flatMap (·.2) = (Utf8.chars rest).flatMap quoteRune := by
      rw [List.flatMap_map]
    have parts : ((Utf8.chars rest).map fun char => (char.2,quoteRune char)).flatMap (·.1) = (Utf8.chars rest).flatMap (·.2) := by
      rw [List.flatMap_map]
    cases stops : rest.drop (Utf8.validUpTo rest) with
    | nil =>
      refine ⟨_,formed,?_,?_⟩
      · rw [goQuoteFrom,stops,texts,List.append_nil]
      · rw [parts]
        rw [stops,List.append_nil] at split
        exact split.symm
    | cons invalid tail =>
      have shorter := round_progress stops
      obtain ⟨pieces,later,text,whole⟩ := ih tail (by omega)
      refine ⟨((Utf8.chars rest).map fun char => (char.2,quoteRune char)) ++
        ([invalid],escapeByte :: 0x78 :: lowerHex 2 invalid.toNat) :: pieces,?_,?_,?_⟩
      · intro piece member
        rcases List.mem_append.mp member with before | after
        · exact formed piece before
        · rcases List.mem_cons.mp after with rfl | after
          · exact .byte invalid
          · exact later piece after
      · rw [goQuoteFrom,stops,List.flatMap_append,List.flatMap_cons,texts,← text]
        rfl
      · rw [List.flatMap_append,List.flatMap_cons,parts,whole]
        rw [stops] at split
        exact split.symm

theorem goQuoteFrom_enough {fuel : Nat} {rest : Bytes} (enough : rest.length < fuel) :
    goQuoteFrom fuel rest = goQuoteFrom (rest.length + 1) rest := by
  induction size : rest.length using Nat.strongRecOn generalizing fuel rest with
  | ind n ih =>
    obtain ⟨fuel,rfl⟩ : ∃ more, fuel = more + 1 := ⟨fuel - 1,by omega⟩
    rw [goQuoteFrom,goQuoteFrom]
    cases stops : rest.drop (Utf8.validUpTo rest) with
    | nil => rfl
    | cons invalid tail =>
      have shorter := round_progress stops
      have here := ih tail.length (by omega) (show tail.length < fuel by omega) rfl
      have there := ih tail.length (by omega) (show tail.length < n by omega) rfl
      simp only [here,there]

theorem nextQuoted_shrinks : Shrinks nextQuoted := by
  intro word out left found
  cases word with
  | nil => contradiction
  | cons byte rest =>
    simp only [nextQuoted] at found
    split at found
    · cases found
      simp
    · cases rest with
      | nil => contradiction
      | cons letter rest =>
        simp only at found
        split at found
        · cases found
          simp only [List.length_drop,List.length_cons]
          omega
        split at found
        · cases found
          simp only [List.length_drop,List.length_cons]
          omega
        split at found
        · cases found
          simp only [List.length_drop,List.length_cons]
          omega
        obtain ⟨_,_,same⟩ := Option.map_eq_some_iff.mp found
        cases same
        simp only [List.length_cons]
        omega

theorem lowerHex_read {width n : Nat} (some_width : 0 < width) (fits : n < 16 ^ width) (rest : Bytes) :
    Hexadecimal.number ((lowerHex width n ++ rest).take width) = n ∧ (lowerHex width n ++ rest).drop width = rest := by
  have size : (lowerHex width n).length = width := Hexadecimal.padded_length some_width fits
  have front : (lowerHex width n ++ rest).take width = lowerHex width n := by rw [← size,size,List.take_left' size]
  have back : (lowerHex width n ++ rest).drop width = rest := List.drop_left' size
  exact ⟨by rw [front]; exact Hexadecimal.number_padded width n,back⟩

theorem letterByte_letter {letter byte : UInt8} (known : letterByte letter = some byte) :
    letter ≠ 0x78 ∧ letter ≠ 0x75 ∧ letter ≠ 0x55 := by
  refine ⟨?_,?_,?_⟩ <;> rintro rfl <;> contradiction

/-- No two pieces are read alike, whatever follows them. -/
theorem spells_form {bytes text : Bytes} (form : Form bytes text) : Spells nextQuoted text bytes := by
  have round {piece out : Bytes} (filled : piece ≠ []) (reads : ∀ rest, nextQuoted (piece ++ rest) = some (out,rest)) :
      Spells nextQuoted piece out := spells_next nextQuoted_shrinks filled reads
  cases form with
  | @letter letter byte known =>
    obtain ⟨x,u,long⟩ := letterByte_letter known
    refine round (by simp) fun rest => ?_
    simp [nextQuoted,x,u,long,known]
  | literal decoded _ other =>
    have plain (byte : UInt8) (member : byte ∈ bytes) : Spells nextQuoted [byte] [byte] := by
      have unescaped : byte ≠ escapeByte := by
        rintro rfl
        exact other.2 (Utf8.decode_plain decoded (by decide) member)
      exact round (by simp) fun rest => by simp [nextQuoted,unescaped]
    have spelled : Spells nextQuoted (bytes.flatMap fun byte => [byte]) (bytes.flatMap fun byte => [byte]) :=
      spells_flatMap plain
    rwa [List.flatMap_singleton'] at spelled
  | byte byte =>
    refine round (by simp) fun rest => ?_
    obtain ⟨value,left⟩ := lowerHex_read (Nat.succ_pos 1) byte.toNat_lt rest
    simp [nextQuoted,value,left]
  | short fits =>
    refine round (by simp) fun rest => ?_
    obtain ⟨value,left⟩ := lowerHex_read (Nat.succ_pos 3) fits rest
    simp [nextQuoted,value,left]
  | long fits =>
    refine round (by simp) fun rest => ?_
    obtain ⟨value,left⟩ := lowerHex_read (Nat.succ_pos 7) fits rest
    simp [nextQuoted,value,left]

/-- The text consists of runes that `go_is_print` accepts. -/
def Written (text : Bytes) : Prop :=
  ∃ runes, Utf8.Runes runes ∧ runes.flatMap (·.2) = text ∧ ∀ rune ∈ runes, goIsPrint rune.1 = true

theorem Written.append {text more : Bytes} (first : Written text) (second : Written more) : Written (text ++ more) := by
  obtain ⟨runes,valid,rfl,printable⟩ := first
  obtain ⟨later,known,rfl,accepted⟩ := second
  refine ⟨runes ++ later,?_,by rw [List.flatMap_append],?_⟩
  · intro rune member
    exact (List.mem_append.mp member).elim (valid rune) (known rune)
  · intro rune member
    exact (List.mem_append.mp member).elim (printable rune) (accepted rune)

theorem Written.chars {text : Bytes} (written : Written text) :
    (Utf8.chars text).flatMap (·.2) = text ∧ ∀ rune ∈ Utf8.chars text, goIsPrint rune.1 = true := by
  obtain ⟨runes,valid,rfl,printable⟩ := written
  rw [Utf8.chars_runes valid]
  exact ⟨rfl,printable⟩

theorem written_ascii {text : Bytes} (plain : ∀ byte ∈ text, 0x20 ≤ byte ∧ byte ≤ 0x7e) : Written text := by
  refine ⟨text.map fun byte => (byte.toNat,[byte]),?_,?_,?_⟩
  · intro rune member
    obtain ⟨byte,known,rfl⟩ := List.mem_map.mp member
    have small : byte < 0x80 := UInt8.lt_of_le_of_lt (plain byte known).2 (by decide)
    simp [Utf8.decode,small]
  · rw [List.flatMap_map]
    exact List.flatMap_singleton' text
  · intro rune member
    obtain ⟨byte,known,rfl⟩ := List.mem_map.mp member
    have low : 0x20 ≤ byte.toNat := UInt8.le_iff_toNat_le.mp (plain byte known).1
    have high : byte.toNat ≤ 0x7e := UInt8.le_iff_toNat_le.mp (plain byte known).2
    have latin : byte.toNat ≤ 0xff := by omega
    simp [goIsPrint,latin,low,high]

/-- A hexadecimal digit is printed and neither quotes nor escapes. -/
theorem digit_plain {byte : UInt8} (digit : Hexadecimal.Digit byte) :
    (0x20 ≤ byte ∧ byte ≤ 0x7e) ∧ byte ≠ escapeByte ∧ byte ≠ quoteByte := by
  rcases digit with ⟨low,high⟩ | ⟨low,high⟩
  · refine ⟨⟨UInt8.le_trans (by decide) low,UInt8.le_trans high (by decide)⟩,?_,?_⟩
    · rintro rfl
      exact absurd high (by decide)
    · rintro rfl
      exact absurd low (by decide)
  · refine ⟨⟨UInt8.le_trans (by decide) low,UInt8.le_trans high (by decide)⟩,?_,?_⟩
    · rintro rfl
      exact absurd low (by decide)
    · rintro rfl
      exact absurd low (by decide)

theorem contained_plain {text : Bytes} (plain : ∀ byte ∈ text, byte ≠ escapeByte ∧ byte ≠ quoteByte) (rest : Bytes) :
    contained false (text ++ rest) = contained false rest := by
  induction text with
  | nil => rfl
  | cons byte text ih =>
    obtain ⟨unescaped,unquoted⟩ := plain byte List.mem_cons_self
    rw [List.cons_append,contained,if_neg unescaped,ih fun other member => plain other (List.mem_cons_of_mem _ member)]
    simp [unquoted]

/-- An escape of any length: a backslash, a letter, digits. -/
theorem escape_closed {letter : UInt8} {digits : Bytes} (printable : 0x20 ≤ letter ∧ letter ≤ 0x7e)
    (known : ∀ byte ∈ digits, Hexadecimal.Digit byte) :
    Written (escapeByte :: letter :: digits) ∧
      ∀ rest, contained false (escapeByte :: letter :: digits ++ rest) = contained false rest := by
  constructor
  · refine written_ascii fun byte member => ?_
    rcases List.mem_cons.mp member with rfl | member
    · exact ⟨by decide,by decide⟩
    · rcases List.mem_cons.mp member with rfl | digit
      · exact printable
      · exact (digit_plain (known byte digit)).1
  · intro rest
    rw [List.cons_append,List.cons_append,contained,if_pos rfl,contained]
    exact contained_plain (fun byte member => (digit_plain (known byte member)).2) rest

theorem letterByte_printable {letter byte : UInt8} (known : letterByte letter = some byte) : 0x20 ≤ letter ∧ letter ≤ 0x7e := by
  unfold letterByte at known
  repeat' split at known
  all_goals first
    | contradiction
    | subst letter; exact ⟨by decide,by decide⟩
    | rcases ‹letter = quoteByte ∨ letter = escapeByte› with rfl | rfl <;> exact ⟨by decide,by decide⟩

theorem form_closed {bytes text : Bytes} (form : Form bytes text) :
    Written text ∧ ∀ rest, contained false (text ++ rest) = contained false rest := by
  cases form with
  | letter known => exact escape_closed (letterByte_printable known) (by simp)
  | @literal c _ decoded printable other =>
    refine ⟨⟨[(c,bytes)],by simpa [Utf8.Runes] using decoded,by simp,by simpa using printable⟩,?_⟩
    refine contained_plain fun byte member => ⟨?_,?_⟩
    · rintro rfl
      exact other.2 (Utf8.decode_plain decoded (by decide) member)
    · rintro rfl
      exact other.1 (Utf8.decode_plain decoded (by decide) member)
  | byte byte => exact escape_closed ⟨by decide,by decide⟩ fun _ => Hexadecimal.padded_digit
  | short _ => exact escape_closed ⟨by decide,by decide⟩ fun _ => Hexadecimal.padded_digit
  | long _ => exact escape_closed ⟨by decide,by decide⟩ fun _ => Hexadecimal.padded_digit

/-- So is a text of such pieces. -/
theorem forms_closed {pieces : List (Bytes × Bytes)} (formed : ∀ piece ∈ pieces, Form piece.1 piece.2) :
    Written (pieces.flatMap (·.2)) ∧ contained false (pieces.flatMap (·.2)) = true := by
  induction pieces with
  | nil => exact ⟨⟨[],by simp [Utf8.Runes],rfl,by simp⟩,rfl⟩
  | cons piece pieces ih =>
    obtain ⟨written,closed⟩ := form_closed (formed piece List.mem_cons_self)
    obtain ⟨later,tail⟩ := ih fun other member => formed other (List.mem_cons_of_mem _ member)
    rw [List.flatMap_cons,closed]
    exact ⟨written.append later,tail⟩

theorem goUnquote_goQuote (bytes : Bytes) : goUnquote (goQuote bytes) = some bytes := by
  obtain ⟨pieces,formed,text,whole⟩ := goQuoteFrom_forms (bytes.length + 1) bytes (Nat.lt_succ_self _)
  have spelled : Spells nextQuoted (pieces.flatMap (·.2)) (pieces.flatMap (·.1)) :=
    spells_flatMap fun piece member => spells_form (formed piece member)
  rw [← text,whole] at spelled
  have inner : (goQuote bytes).tail.dropLast = goQuoteFrom (bytes.length + 1) bytes := by
    rw [goQuote,List.cons_append,List.tail_cons,List.dropLast_concat]
  have ends : (goQuote bytes).head? = some quoteByte ∧ (goQuote bytes).getLast? = some quoteByte := by
    constructor
    · rfl
    · rw [goQuote,List.getLast?_append]
      rfl
  rw [goUnquote,if_pos ends,inner]
  exact read_spelled spelled

/-- The quotation is read back and nothing in it ends it early. A round of the loop uses up
a byte, so the rounds that `go_quote` grants itself suffice. -/
theorem goQuote_faithful :
    (∀ bytes, goUnquote (goQuote bytes) = some bytes) ∧ Function.Injective goQuote ∧
    (∀ bytes, ∃ body, goQuote bytes = quoteByte :: body ++ [quoteByte] ∧ contained false body = true ∧
      (Utf8.chars body).flatMap (·.2) = body ∧ ∀ rune ∈ Utf8.chars body, goIsPrint rune.1 = true) ∧
    (∀ (rest tail : Bytes) (invalid : UInt8), rest.drop (Utf8.validUpTo rest) = invalid :: tail → tail.length < rest.length) ∧
    ∀ (bytes : Bytes) (fuel : Nat), bytes.length < fuel →
      goQuote bytes = quoteByte :: goQuoteFrom fuel bytes ++ [quoteByte] := by
  refine ⟨goUnquote_goQuote,?_,?_,fun _ _ _ => round_progress,?_⟩
  · intro bytes other same
    have read := congrArg goUnquote same
    rw [goUnquote_goQuote,goUnquote_goQuote] at read
    exact Option.some.inj read
  · intro bytes
    obtain ⟨pieces,formed,text,_⟩ := goQuoteFrom_forms (bytes.length + 1) bytes (Nat.lt_succ_self _)
    obtain ⟨written,closed⟩ := forms_closed formed
    rw [← text] at written closed
    exact ⟨goQuoteFrom (bytes.length + 1) bytes,rfl,closed,written.chars.1,written.chars.2⟩
  · intro bytes fuel enough
    rw [goQuoteFrom_enough enough]
    rfl

end Frankenrust.Context
