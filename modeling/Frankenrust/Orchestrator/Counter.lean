import Frankenrust.Library.Options
import Frankenrust.Orchestrator.Issue
import Mathlib.Data.List.TakeWhile

/-! The counters in an issue's body: what a match covers, and what a search finds in a text
whose parts are known. -/
namespace Frankenrust.Orchestrator

theorem space_not_digit {char : Char} (space : isSpace char = true) : isDigit char = false := by
  simp only [isSpace,List.contains_eq_mem,decide_eq_true_eq] at space
  simp only [isDigit,zeroOf,Option.isSome_eq_false_iff,Option.isNone_iff_eq_none]
  generalize char.toNat = code at space ⊢
  revert code
  decide

theorem newline_space : isSpace '\n' = true := by decide

theorem newline_spaces : ∀ char ∈ ['\n'], isSpace char = true := by simp [newline_space]

theorem visible_of {chars : Text} (all : chars.all (fun char => !isSpace char) = true) {char : Char} (member : char ∈ chars) :
    isSpace char = false := by
  have visible := List.all_eq_true.mp all char member
  simpa using visible

theorem newline_not_digit : isDigit '\n' = false := by decide

theorem ascii_zero {char : Char} (digit : char.isDigit = true) : zeroOf char = some 0x30 := by
  have bounds : 0x30 ≤ char.toNat ∧ char.toNat < 0x30 + 10 := by
    simp only [Char.isDigit,Bool.and_eq_true,decide_eq_true_eq] at digit
    have low : '0'.toNat ≤ char.toNat := digit.1
    have high : char.toNat ≤ '9'.toNat := digit.2
    exact ⟨low,Nat.lt_succ_of_le high⟩
  simp only [zeroOf,zeros,List.find?_cons,bounds]
  rfl

theorem decimalText_digits {n : Nat} {char : Char} (member : char ∈ decimalText n) : char.isDigit = true :=
  Nat.isDigit_of_mem_toDigits (by decide) (by decide) member

theorem decimalText_isDigit {n : Nat} {char : Char} (member : char ∈ decimalText n) : isDigit char = true := by
  simp [isDigit,ascii_zero (decimalText_digits member)]

/-- What `int` makes of a number's own digits. -/
theorem int_decimalText {n m : Nat} (read : int (decimalText n) = some m) : m = n := by
  have folded {digits : Text} (all : ∀ char ∈ digits, char.isDigit = true) (total : Nat) :
      digits.foldl (fun total char => 10 * total + decimal char) total = Nat.ofDigitChars 10 digits total := by
    induction digits generalizing total with
    | nil => rfl
    | cons char digits ih =>
      have value : decimal char = char.toNat - '0'.toNat := by
        rw [decimal,ascii_zero (all char (by simp))]
        rfl
      rw [List.foldl_cons,Nat.ofDigitChars_cons,value]
      exact ih (fun other member => all other (List.mem_cons_of_mem _ member)) _
  simp only [int] at read
  split at read
  · rw [folded (fun _ => decimalText_digits),decimalText,Nat.ofDigitChars_ten_toDigits] at read
    exact (Option.some.inj read).symm
  · contradiction

theorem decimalText_ne_nil {n : Nat} : decimalText n ≠ [] := Nat.toDigits_ne_nil

/-- The key of a counter: no letter of it matches a space or a digit. -/
structure Wordy (key : Text) : Prop where
  some : key ≠ []
  letters : ∀ letter ∈ key, ∀ char, sameLetter letter char = true → isSpace char = false ∧ isDigit char = false

theorem sameLetter_variants {letter char : Char} (same : sameLetter letter char = true) :
    char ∈ [letter,letter.toUpper,'İ','ı','ſ'] := by
  simp only [sameLetter,Bool.or_eq_true,Bool.and_eq_true,beq_iff_eq] at same
  rcases same with ((rfl | rfl) | ⟨_,rfl | rfl⟩) | ⟨_,rfl⟩ <;> simp

theorem wordy_of_letters {key : Text} (some : key ≠ [])
    (all : key.all (fun letter => [letter,letter.toUpper,'İ','ı','ſ'].all fun char => !isSpace char && !isDigit char) = true) :
    Wordy key := by
  refine ⟨some,?_⟩
  intro letter member char same
  have plain := List.all_eq_true.mp (List.all_eq_true.mp all letter member) char (sameLetter_variants same)
  simpa using plain

theorem wordy_revisions : Wordy Issue.revisionsKey := wordy_of_letters (by decide) (by decide)

theorem wordy_recoveries : Wordy Issue.recoveriesKey := wordy_of_letters (by decide) (by decide)

theorem keyword_word {key text rest : Text} (found : keyword key text = some rest) :
    ∃ word, text = word ++ rest ∧ List.Forall₂ (fun letter char => sameLetter letter char = true) key word := by
  induction key generalizing text with
  | nil =>
    cases found
    exact ⟨[],rfl,.nil⟩
  | cons letter letters ih =>
    cases text with
    | nil => contradiction
    | cons char chars =>
      simp only [keyword] at found
      split at found
      next same =>
        obtain ⟨word,rfl,matched⟩ := ih found
        exact ⟨char :: word,rfl,.cons same matched⟩
      · contradiction

theorem keyword_append {key front rest : Text} (back : Text) (found : keyword key front = some rest) :
    keyword key (front ++ back) = some (rest ++ back) := by
  induction key generalizing front with
  | nil =>
    cases found
    rfl
  | cons letter letters ih =>
    cases front with
    | nil => contradiction
    | cons char chars =>
      simp only [keyword,List.cons_append] at found ⊢
      split at found
      next same =>
        rw [if_pos same]
        exact ih found
      · contradiction

/-- A text that starts with a space, if it is not empty. -/
def Spaced (text : Text) : Prop := ∀ char ∈ text.head?, isSpace char = true

theorem keyword_spaced {key front back : Text} (wordy : Wordy key) (spaced : Spaced back)
    (missing : keyword key front = none) : keyword key (front ++ back) = none := by
  have letters := wordy.letters
  clear wordy
  induction key generalizing front with
  | nil => contradiction
  | cons letter key ih =>
    cases front with
    | nil =>
      cases back with
      | nil => rfl
      | cons char chars =>
        have differ : ¬sameLetter letter char = true := by
          intro same
          simpa [(letters letter (by simp) char same).1] using spaced char rfl
        simp [keyword,differ]
    | cons char chars =>
      simp only [keyword,List.cons_append] at missing ⊢
      split at missing
      next same =>
        rw [if_pos same]
        exact ih missing fun other member => letters other (List.mem_cons_of_mem _ member)
      next differ => rw [if_neg differ]

/-- A text without a counter at its head, which also ends whatever stands before it. -/
structure Barren (key back : Text) : Prop where
  spaced : Spaced back
  missing : keyword key (back.dropWhile isSpace) = none
  numberless : (back.dropWhile isSpace).takeWhile isDigit = []

theorem spaced_numberless {back : Text} (spaced : Spaced back) : back.takeWhile isDigit = [] := by
  cases back with
  | nil => rfl
  | cons char chars => simp [space_not_digit (spaced char rfl)]

theorem barren_nil {key : Text} (wordy : Wordy key) : Barren key [] := by
  refine ⟨nofun,?_,rfl⟩
  obtain ⟨letter,letters,rfl⟩ := List.exists_cons_of_ne_nil wordy.some
  rfl

theorem takeWhile_ends {p : Char → Bool} {front back : Text} (ends : back.takeWhile p = []) :
    (front ++ back).takeWhile p = front.takeWhile p := by
  rw [List.takeWhile_append,ends]
  split
  next all => rw [List.append_nil,List.IsPrefix.eq_of_length (List.takeWhile_prefix _) all]
  · rfl

theorem numberAt_blank {text : Text} (blank : text.dropWhile isSpace = []) : numberAt text = none := by
  simp [numberAt,blank]

theorem numberAt_ends {front back : Text} (spaced : Spaced back)
    (numberless : (back.dropWhile isSpace).takeWhile isDigit = []) :
    (numberAt (front ++ back)).map Prod.fst = (numberAt front).map Prod.fst := by
  by_cases blank : front.dropWhile isSpace = []
  · rw [numberAt_blank blank]
    simp [numberAt,List.dropWhile_append,blank,numberless]
  · have digits : (front.dropWhile isSpace ++ back).takeWhile isDigit = (front.dropWhile isSpace).takeWhile isDigit :=
      takeWhile_ends (spaced_numberless spaced)
    simp only [numberAt,List.dropWhile_append,List.isEmpty_iff,if_neg blank,digits]
    split <;> rfl

/-- What is read from the visible part of a text does not depend on a spaced rest that starts with no number. -/
theorem counterAt_visible {key front back : Text} (wordy : Wordy key) (visible : front.dropWhile isSpace ≠ [])
    (spaced : Spaced back) (numberless : (back.dropWhile isSpace).takeWhile isDigit = []) :
    (counterAt key (front ++ back)).map Prod.fst = (counterAt key front).map Prod.fst := by
  simp only [counterAt,List.dropWhile_append,List.isEmpty_iff,if_neg visible]
  cases found : keyword key (front.dropWhile isSpace) with
  | none => rw [keyword_spaced wordy spaced found]
  | some rest =>
    rw [keyword_append back found]
    exact numberAt_ends spaced numberless

/-- What is read at the head of a text does not depend on a barren rest. -/
theorem counterAt_barren {key front back : Text} (wordy : Wordy key) (barren : Barren key back) :
    (counterAt key (front ++ back)).map Prod.fst = (counterAt key front).map Prod.fst := by
  by_cases blank : front.dropWhile isSpace = []
  · have nothing : keyword key [] = none := (barren_nil wordy).missing
    simp [counterAt,List.dropWhile_append,blank,barren.missing,nothing]
  · exact counterAt_visible wordy blank barren.spaced barren.numberless

theorem matched_letters {key word : Text} (wordy : Wordy key)
    (matched : List.Forall₂ (fun letter char => sameLetter letter char = true) key word) :
    ∀ char ∈ word, isSpace char = false ∧ isDigit char = false := by
  intro char member
  obtain ⟨i,bound,rfl⟩ := List.mem_iff_getElem.mp member
  have inside : i < key.length := by rwa [matched.length_eq]
  exact wordy.letters key[i] (List.getElem_mem inside) _ (matched.get inside bound)

theorem matched_line {key word : Text} (wordy : Wordy key)
    (matched : List.Forall₂ (fun letter char => sameLetter letter char = true) key word) : '\n' ∉ word := by
  intro member
  have visible := (matched_letters wordy matched _ member).1
  rw [newline_space] at visible
  contradiction

/-- What one match of a counter's pattern covers. -/
structure Region (key : Text) where
  blank : Text
  word : Text
  gap : Text
  digits : Text
  blankSpaces : ∀ char ∈ blank, isSpace char = true
  matched : List.Forall₂ (fun letter char => sameLetter letter char = true) key word
  gapSpaces : ∀ char ∈ gap, isSpace char = true
  someDigits : digits ≠ []
  allDigits : ∀ char ∈ digits, isDigit char = true

namespace Region
variable {key : Text}

def number (region : Region key) : Text := region.word ++ (region.gap ++ region.digits)

def text (region : Region key) : Text := region.blank ++ region.number

theorem letters (region : Region key) (wordy : Wordy key) :
    ∀ char ∈ region.word, isSpace char = false ∧ isDigit char = false := matched_letters wordy region.matched

theorem word_ne_nil (region : Region key) (wordy : Wordy key) : region.word ≠ [] := by
  intro nothing
  apply wordy.some
  apply List.eq_nil_of_length_eq_zero
  rw [region.matched.length_eq,nothing,List.length_nil]

theorem digits_visible (region : Region key) (rest : Text) :
    (region.digits ++ rest).dropWhile isSpace = region.digits ++ rest := by
  obtain ⟨digit,digits,split⟩ := List.exists_cons_of_ne_nil region.someDigits
  have visible : isSpace digit = false := by
    by_contra space
    have none := space_not_digit (by simpa using space)
    simp [region.allDigits digit (by simp [split])] at none
  simp [split,visible]

theorem number_visible (region : Region key) (wordy : Wordy key) (rest : Text) :
    (region.number ++ rest).dropWhile isSpace = region.number ++ rest := by
  obtain ⟨first,word,split⟩ := List.exists_cons_of_ne_nil (region.word_ne_nil wordy)
  have visible := (region.letters wordy first (by simp [split])).1
  simp [number,split,visible]

theorem visible (region : Region key) (wordy : Wordy key) (rest : Text) :
    (region.text ++ rest).dropWhile isSpace = region.number ++ rest := by
  rw [text,List.append_assoc,List.dropWhile_append_of_pos region.blankSpaces]
  exact region.number_visible wordy rest

theorem numberless (region : Region key) (wordy : Wordy key) (rest : Text) :
    ((region.text ++ rest).dropWhile isSpace).takeWhile isDigit = [] := by
  obtain ⟨first,word,split⟩ := List.exists_cons_of_ne_nil (region.word_ne_nil wordy)
  have letter := (region.letters wordy first (by simp [split])).2
  simp [region.visible wordy,number,split,letter]

theorem digits_line (region : Region key) : '\n' ∉ region.digits := by
  intro member
  have digit := region.allDigits _ member
  rw [newline_not_digit] at digit
  contradiction

theorem digits_last (region : Region key) : region.text.getLast? ≠ some '\n' := by
  intro last
  apply region.digits_line
  apply List.mem_of_getLast?
  rwa [text,number,List.getLast?_append_of_ne_nil _ (by simp [region.someDigits]),
    List.getLast?_append_of_ne_nil _ (by simp [region.someDigits]),
    List.getLast?_append_of_ne_nil _ region.someDigits] at last

theorem word_line (region : Region key) (wordy : Wordy key) : '\n' ∉ region.word := matched_line wordy region.matched

/-- The same match from blanks above it on. -/
def below (region : Region key) (blank : Text) (spaces : ∀ char ∈ blank, isSpace char = true) : Region key :=
  { region with
    blank := blank ++ region.blank
    blankSpaces := fun char member => (List.mem_append.mp member).elim (spaces char) (region.blankSpaces char) }

theorem below_text (region : Region key) {blank : Text} (spaces : ∀ char ∈ blank, isSpace char = true) :
    (region.below blank spaces).text = blank ++ region.text := List.append_assoc ..

end Region

theorem keyword_self {key word : Text}
    (matched : List.Forall₂ (fun letter char => sameLetter letter char = true) key word) (rest : Text) :
    keyword key (word ++ rest) = some rest := by
  induction matched with
  | nil => rfl
  | cons same _ ih => simpa [keyword,same] using ih

theorem numberAt_digits {gap digits rest : Text} (gapSpaces : ∀ char ∈ gap, isSpace char = true)
    (visible : (digits ++ rest).dropWhile isSpace = digits ++ rest) (someDigits : digits ≠ [])
    (allDigits : ∀ char ∈ digits, isDigit char = true) (ends : rest.takeWhile isDigit = []) :
    numberAt (gap ++ (digits ++ rest)) = some (digits,rest) := by
  have taken : (digits ++ rest).takeWhile isDigit = digits := by
    rw [List.takeWhile_append_of_pos allDigits,ends,List.append_nil]
  have left : (digits ++ rest).dropWhile isDigit = rest := by
    have whole := List.takeWhile_append_dropWhile (p := isDigit) (l := rest)
    rw [ends,List.nil_append] at whole
    rw [List.dropWhile_append_of_pos allDigits,whole]
  simp only [numberAt,List.dropWhile_append_of_pos gapSpaces,visible,taken,left,if_neg someDigits]

theorem counterAt_region {key : Text} (wordy : Wordy key) (region : Region key) {rest : Text}
    (ends : rest.takeWhile isDigit = []) : counterAt key (region.text ++ rest) = some (region.digits,rest) := by
  rw [counterAt,region.visible wordy,Region.number,List.append_assoc,keyword_self region.matched,List.append_assoc]
  exact numberAt_digits region.gapSpaces (region.digits_visible rest) region.someDigits region.allDigits ends

theorem counterAt_some {key text digits rest : Text} (found : counterAt key text = some (digits,rest)) :
    ∃ region : Region key, region.digits = digits ∧ text = region.text ++ rest ∧ rest.takeWhile isDigit = [] := by
  obtain ⟨after,matched,number⟩ := Option.bind_eq_some_iff.mp found
  obtain ⟨word,split,matched⟩ := keyword_word matched
  simp only [numberAt] at number
  split at number
  · contradiction
  next someDigits =>
    cases number
    refine ⟨⟨text.takeWhile isSpace,word,after.takeWhile isSpace,(after.dropWhile isSpace).takeWhile isDigit,
      fun _ member => List.mem_takeWhile_imp member,matched,fun _ member => List.mem_takeWhile_imp member,someDigits,
      fun _ member => List.mem_takeWhile_imp member⟩,rfl,?_,?_⟩
    · simp only [Region.text,Region.number,List.append_assoc,List.takeWhile_append_dropWhile]
      rw [← split,List.takeWhile_append_dropWhile]
    · have head := List.head?_dropWhile_not isDigit (after.dropWhile isSpace)
      cases left : (after.dropWhile isSpace).dropWhile isDigit with
      | nil => rfl
      | cons char chars =>
        rw [left] at head
        simp [show isDigit char = false from head]

/-- `^` matches here: where the text starts, or after a line feed. -/
def LineStart (start : Bool) (front : Text) : Prop := front = [] ∧ start = true ∨ front.getLast? = some '\n'

theorem lineStart_cons {start : Bool} {char : Char} {front : Text} (line : LineStart (char == '\n') front) :
    LineStart start (char :: front) := by
  rcases line with ⟨rfl,same⟩ | last
  · exact .inr (by simpa using same)
  · exact .inr (by simp [List.getLast?_cons,last])

theorem lineStart_tail {start : Bool} {char : Char} {front : Text} (line : LineStart start (char :: front)) :
    LineStart (char == '\n') front := by
  rcases line with ⟨none,_⟩ | last
  · contradiction
  · cases front with
    | nil => exact .inl ⟨rfl,by simpa using last⟩
    | cons next front => exact .inr (by simpa using last)

/-- Inside a match, after a line feed, stands the rest of its blanks or its number. -/
theorem region_inner {key front back : Text} (wordy : Wordy key) (region : Region key)
    (split : region.text = front ++ back) (last : front.getLast? = some '\n') (rest : Text) :
    (back ++ rest).dropWhile isSpace = region.number ++ rest ∨
      (back ++ rest).dropWhile isSpace = region.digits ++ rest := by
  have ends {part : Text} (tail : part <:+ front) (some : part ≠ []) : '\n' ∈ part := by
    obtain ⟨before,rfl⟩ := tail
    rw [List.getLast?_append_of_ne_nil _ some] at last
    exact List.mem_of_getLast? last
  rw [Region.text,List.append_eq_append_iff] at split
  rcases split with ⟨passed,rfl,inside⟩ | ⟨blanks,spaces,rfl⟩
  · rw [Region.number,List.append_eq_append_iff] at inside
    rcases inside with ⟨beyond,rfl,inside⟩ | ⟨letters,word,rfl⟩
    · rw [List.append_eq_append_iff] at inside
      rcases inside with ⟨digits,rfl,number⟩ | ⟨spaces,gap,rfl⟩
      · by_cases none : digits = []
        · subst none
          rw [List.nil_append] at number
          rw [← number]
          exact .inr (region.digits_visible rest)
        · have member := ends (by simp [List.suffix_append_of_suffix]) none
          exact absurd (by simp [number,member]) region.digits_line
      · have blank : ∀ char ∈ spaces, isSpace char = true :=
          fun char member => region.gapSpaces char (by simp [gap,member])
        rw [List.append_assoc,List.dropWhile_append_of_pos blank]
        exact .inr (region.digits_visible rest)
    · by_cases none : passed = []
      · subst none
        rw [List.nil_append] at word
        rw [← word]
        exact .inl (region.number_visible wordy rest)
      · have member := ends (List.suffix_append _ _) none
        exact absurd (by simp [word,member]) (region.word_line wordy)
  · have blank : ∀ char ∈ blanks, isSpace char = true :=
      fun char member => region.blankSpaces char (by simp [spaces,member])
    rw [List.append_assoc,List.dropWhile_append_of_pos blank]
    exact .inl (region.number_visible wordy rest)

theorem findall_line {key text digits : Text} {start : Bool} {skip : Nat}
    (found : digits ∈ findall key start skip text) :
    ∃ front back rest, text = front ++ back ∧ LineStart start front ∧ counterAt key back = some (digits,rest) := by
  induction text generalizing start skip with
  | nil => simp [findall] at found
  | cons char chars ih =>
    have later {skip : Nat} (found : digits ∈ findall key (char == '\n') skip chars) :
        ∃ front back rest, char :: chars = front ++ back ∧ LineStart start front ∧
          counterAt key back = some (digits,rest) := by
      obtain ⟨front,back,rest,rfl,line,matched⟩ := ih found
      exact ⟨char :: front,back,rest,rfl,lineStart_cons line,matched⟩
    cases skip with
    | succ skip => exact later (by simpa [findall] using found)
    | zero =>
      cases start with
      | false => exact later (by simpa [findall] using found)
      | true =>
        simp only [findall] at found
        split at found
        · exact later found
        next first rest matched =>
          rcases List.mem_cons.mp found with rfl | found
          · exact ⟨[],char :: chars,rest,rfl,.inl ⟨rfl,rfl⟩,matched⟩
          · exact later found

theorem findall_skip {key : Text} (front back : Text) (start : Bool) :
    ∃ after, findall key start front.length (front ++ back) = findall key after 0 back := by
  induction front generalizing start with
  | nil => exact ⟨start,rfl⟩
  | cons char front ih =>
    simp only [List.length_cons,List.cons_append,findall]
    exact ih (char == '\n')

theorem keyword_digits {key digits : Text} (wordy : Wordy key) (some : digits ≠ [])
    (all : ∀ char ∈ digits, isDigit char = true) (rest : Text) : keyword key (digits ++ rest) = none := by
  obtain ⟨letter,letters,rfl⟩ := List.exists_cons_of_ne_nil wordy.some
  obtain ⟨digit,digits,rfl⟩ := List.exists_cons_of_ne_nil some
  have differ : ¬sameLetter letter digit = true := by
    intro same
    have letter := (wordy.letters letter (by simp) digit same).2
    rw [all digit (by simp)] at letter
    contradiction
  simp [keyword,differ]

/-- Inside a match nothing is read but its own number. -/
theorem counterAt_inner {key front back digits after rest : Text} (wordy : Wordy key) (region : Region key)
    (split : region.text = front ++ back) (last : front.getLast? = some '\n')
    (found : counterAt key (back ++ rest) = some (digits,after)) (ends : rest.takeWhile isDigit = []) :
    digits = region.digits := by
  rcases region_inner wordy region split last rest with same | number
  · have whole := counterAt_region wordy region ends
    rw [counterAt,region.visible wordy,← same] at whole
    rw [counterAt,whole] at found
    cases found
    rfl
  · rw [counterAt,number,keyword_digits wordy region.someDigits region.allDigits] at found
    contradiction

/-- Whatever matches at a line's head is found: a match covers no other counter. -/
theorem findall_mem {key text front back digits rest : Text} {start : Bool} (wordy : Wordy key)
    (split : text = front ++ back) (line : LineStart start front) (matched : counterAt key back = some (digits,rest)) :
    digits ∈ findall key start 0 text := by
  induction size : text.length using Nat.strong_induction_on generalizing text front start with
  | _ length ih =>
  subst split
  cases front with
  | nil =>
    rcases line with ⟨_,rfl⟩ | none
    · cases back with
      | nil =>
        rw [counterAt,(barren_nil wordy).missing] at matched
        contradiction
      | cons char chars => simp [findall,matched]
    · contradiction
  | cons char chars =>
    have later : digits ∈ findall key (char == '\n') 0 (chars ++ back) := by
      refine ih (chars ++ back).length ?_ rfl (lineStart_tail line) rfl
      simp [← size]
    cases start with
    | false => simpa [findall] using later
    | true =>
      rw [List.cons_append,findall]
      split
      · exact later
      next first after found =>
        obtain ⟨region,rfl,whole,ends⟩ := counterAt_some found
        have last : (char :: chars).getLast? = some '\n' := by simpa [LineStart] using line
        rw [← List.cons_append] at whole
        rcases List.append_eq_append_iff.mp whole with ⟨inside,part,rfl⟩ | ⟨beyond,part,rfl⟩
        · simp [counterAt_inner wordy region part last matched ends]
        · obtain ⟨head,tail,text⟩ : ∃ head tail, region.text = head :: tail :=
            List.exists_cons_of_ne_nil (by simp [Region.text,Region.number,region.someDigits])
          have next (start : Bool) : LineStart start beyond := by
            by_cases none : beyond = []
            · subst none
              rw [List.append_nil] at part
              exact absurd (part ▸ last) region.digits_last
            · rw [part,List.getLast?_append_of_ne_nil _ none] at last
              exact .inr last
          rw [text,List.cons_append] at part
          cases part
          obtain ⟨start,skipped⟩ := findall_skip tail (beyond ++ back) (char == '\n')
          have covered : (tail ++ beyond ++ back).length - (beyond ++ back).length = tail.length := by simp
          rw [List.append_assoc] at covered
          rw [List.append_assoc,covered,skipped]
          refine List.mem_cons_of_mem _ (ih (beyond ++ back).length ?_ rfl ?_ rfl)
          · simp only [← size,List.length_append,List.length_cons]
            omega
          · exact next start

/-- Where the one key stands, the other one does not. -/
def Apart (key other : Text) : Prop :=
  ∀ word rest, List.Forall₂ (fun letter char => sameLetter letter char = true) key word →
    keyword other (word ++ rest) = none

/-- The third letters tell the keys apart. -/
theorem apart_of_third {first second third other : Char} {letters others : Text}
    (differ : [third,third.toUpper,'İ','ı','ſ'].all (fun char => !sameLetter other char) = true) :
    Apart (first :: second :: third :: letters) (first :: second :: other :: others) := by
  rintro word rest (_ | ⟨_,_ | ⟨_,_ | ⟨same,_⟩⟩⟩)
  have different := List.all_eq_true.mp differ _ (sameLetter_variants same)
  rw [Bool.not_eq_true'] at different
  simp [keyword,different]

theorem apart_recoveries : Apart Issue.revisionsKey Issue.recoveriesKey := apart_of_third (by decide)

theorem apart_revisions : Apart Issue.recoveriesKey Issue.revisionsKey := apart_of_third (by decide)

theorem number_missing {key other : Text} (apart : Apart key other) (region : Region key) (rest : Text) :
    keyword other (region.number ++ rest) = none := by
  rw [Region.number,List.append_assoc]
  exact apart _ _ region.matched

section
variable {key other : Text} (wordy : Wordy key) (apart : Apart key other)
include wordy apart

theorem region_barren (region : Region key) {blank : Text} (some : blank ≠ [])
    (spaces : ∀ char ∈ blank, isSpace char = true) (rest : Text) : Barren other (blank ++ (region.text ++ rest)) := by
  have visible : (blank ++ (region.text ++ rest)).dropWhile isSpace = region.number ++ rest := by
    rw [List.dropWhile_append_of_pos spaces,region.visible wordy]
  refine ⟨?_,?_,?_⟩
  · obtain ⟨first,blank,rfl⟩ := List.exists_cons_of_ne_nil some
    rintro char head
    cases head
    exact spaces first (by simp)
  · rw [visible]
    exact number_missing apart region rest
  · rw [List.dropWhile_append_of_pos spaces]
    exact region.numberless wordy rest

theorem region_silent (region : Region key) (rest : Text) : counterAt other (region.text ++ rest) = none := by
  rw [counterAt,region.visible wordy,number_missing apart]
  rfl

end

/-- A line that starts inside a match holds nothing of the other kind; otherwise the match lies above it. -/
theorem region_passed {key other part back rest : Text} (wordy : Wordy key) (wordyOther : Wordy other)
    (apart : Apart key other) (region : Region key) (split : region.text ++ rest = part ++ back)
    (line : part = [] ∨ part.getLast? = some '\n') :
    counterAt other back = none ∨
      ∃ beyond, part = region.text ++ beyond ∧ rest = beyond ++ back ∧ beyond.getLast? = some '\n' := by
  rcases line with rfl | last
  · rw [List.nil_append] at split
    exact .inl (split ▸ region_silent wordy apart region rest)
  rcases List.append_eq_append_iff.mp split with ⟨beyond,rfl,rfl⟩ | ⟨inside,text,rfl⟩
  · have more : beyond ≠ [] := by
      rintro rfl
      rw [List.append_nil] at last
      exact region.digits_last last
    rw [List.getLast?_append_of_ne_nil _ more] at last
    exact .inr ⟨beyond,rfl,rfl,last⟩
  · refine .inl ?_
    rcases region_inner wordy region text last rest with same | number
    · rw [counterAt,same,number_missing apart]
      rfl
    · rw [counterAt,number,keyword_digits wordyOther region.someDigits region.allDigits]
      rfl

theorem lineStart_part {start : Bool} {front part : Text} (line : LineStart start (front ++ part)) :
    part = [] ∨ part.getLast? = some '\n' := by
  by_cases empty : part = []
  · exact .inl empty
  · rcases line with ⟨nothing,_⟩ | last
    · simp [empty] at nothing
    · rw [List.getLast?_append_of_ne_nil _ empty] at last
      exact .inr last

/-- A barren rest may be replaced by another one. -/
theorem counterAt_swapped {key front first second digits rest : Text} (wordy : Wordy key) (before : Barren key first)
    (after : Barren key second) (found : counterAt key (front ++ first) = some (digits,rest)) :
    ∃ rest, counterAt key (front ++ second) = some (digits,rest) := by
  have same : (counterAt key (front ++ first)).map Prod.fst = (counterAt key (front ++ second)).map Prod.fst :=
    (counterAt_barren wordy before).trans (counterAt_barren wordy after).symm
  rw [found] at same
  obtain ⟨⟨_,later⟩,swapped,rfl⟩ := Option.map_eq_some_iff.mp same.symm
  exact ⟨later,swapped⟩

theorem rstrip_append (text : Text) : ∃ blank, text = rstrip text ++ blank ∧ ∀ char ∈ blank, isSpace char = true := by
  refine ⟨(text.reverse.takeWhile isSpace).reverse,?_,?_⟩
  · rw [rstrip,← List.reverse_append,List.takeWhile_append_dropWhile,List.reverse_reverse]
  · intro char member
    exact List.mem_takeWhile_imp (List.mem_reverse.mp member)

theorem barren_blank {key blank : Text} (wordy : Wordy key) (spaces : ∀ char ∈ blank, isSpace char = true) :
    Barren key blank := by
  have nothing : blank.dropWhile isSpace = [] := List.dropWhile_eq_nil_iff.mpr spaces
  refine ⟨?_,?_,?_⟩
  · intro char head
    exact spaces char (List.mem_of_head? head)
  · rw [nothing]
    exact (barren_nil wordy).missing
  · rw [nothing]
    rfl

theorem counter_member {key text digits : Text} {highest : Nat} (read : counter key text = some highest)
    (member : digits ∈ findall key true 0 text) : ∃ n, int digits = some n ∧ n ≤ highest := by
  obtain ⟨found,all,rfl⟩ := Option.map_eq_some_iff.mp read
  obtain ⟨n,inside,value⟩ := Options.mapM_mem all member
  exact ⟨n,value,(Options.foldl_max_le.mp le_rfl).2 n inside⟩

/-- A body that still holds every number of a counter counts at least as high. -/
theorem counter_mono {key old new : Text} {highest : Nat}
    (kept : ∀ digits, digits ∈ findall key true 0 old → digits ∈ findall key true 0 new)
    (read : counter key new = some highest) : ∃ lower, counter key old = some lower ∧ lower ≤ highest := by
  have readable : ∃ found, (findall key true 0 old).mapM int = some found := by
    apply Options.mapM_isSome.mpr
    intro digits member
    obtain ⟨n,value,_⟩ := counter_member read (kept digits member)
    exact ⟨n,value⟩
  obtain ⟨found,all⟩ := readable
  refine ⟨found.foldl max 0,by simp [counter,all],Options.foldl_max_le.mpr ⟨Nat.zero_le _,?_⟩⟩
  intro n member
  obtain ⟨digits,inside,value⟩ := Options.mem_mapM all member
  obtain ⟨same,again,bound⟩ := counter_member read (kept digits inside)
  cases value.symm.trans again
  exact bound

theorem counter_same {key old new : Text}
    (same : ∀ digits, digits ∈ findall key true 0 new ↔ digits ∈ findall key true 0 old) : counter key new = counter key old := by
  cases read : counter key new with
  | some highest =>
    obtain ⟨lower,before,bound⟩ := counter_mono (fun digits => (same digits).mpr) read
    obtain ⟨_,again,back⟩ := counter_mono (fun digits => (same digits).mp) before
    cases read.symm.trans again
    rw [before,Nat.le_antisymm bound back]
  | none =>
    symm
    by_contra other
    obtain ⟨highest,before⟩ := Option.ne_none_iff_exists'.mp other
    obtain ⟨_,again,_⟩ := counter_mono (fun digits => (same digits).mp) before
    rw [read] at again
    contradiction

end Frankenrust.Orchestrator
