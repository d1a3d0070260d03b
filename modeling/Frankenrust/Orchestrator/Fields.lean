import Frankenrust.Orchestrator.Counter
import Mathlib.Data.List.DropRight

/-! The `Gate:` and `Agent:` lines of an issue's body, and what a line put below a text does to
them. `lower` stands for `str.lower`. -/
namespace Frankenrust.Orchestrator

/-- `\s*(\w+)` at the head of the text. -/
def wordAt (isWord : Char → Bool) (text : Text) : Option Text :=
  let word := (text.dropWhile isSpace).takeWhile isWord
  if word = [] then none else some word

/-- `^\s*field:\s*(\w+)` at the head of a line. -/
def fieldAt (isWord : Char → Bool) (field text : Text) : Option Text :=
  (keyword field (text.dropWhile isSpace)).bind (wordAt isWord)

/-- `re.search` with the pattern of `fieldAt`; `^` matches where the text starts and after
every line feed. -/
def searchField (isWord : Char → Bool) (field : Text) : Bool → Text → Option Text
  | _, [] => none
  | false, char :: chars => searchField isWord field (char == '\n') chars
  | true, char :: chars => (fieldAt isWord field (char :: chars)).or (searchField isWord field (char == '\n') chars)

namespace Issue

def gateField : Text := "gate:".toList
def agentField : Text := "agent:".toList

/-- The gate profile. -/
def gate (isWord : Char → Bool) (lower : Text → Text) (issue : Issue) : Text :=
  ((searchField isWord gateField true issue.body).map lower).getD "default".toList

def agent (isWord : Char → Bool) (lower : Text → Text) (issue : Issue) : Text :=
  ((searchField isWord agentField true issue.body).map lower).getD "opencode".toList

end Issue

/-- The field's marker and nothing behind it. -/
def Unfilled (field text : Text) : Prop := (keyword field (text.dropWhile isSpace)).any (·.all isSpace) = true

instance {field text : Text} : Decidable (Unfilled field text) :=
  inferInstanceAs (Decidable ((keyword field (text.dropWhile isSpace)).any (·.all isSpace) = true))

/-- The text ends in an unfilled marker that stands at the head of a line. -/
def Dangling (field : Text) : Bool → Text → Prop
  | _, [] => False
  | start, char :: chars => start = true ∧ Unfilled field (char :: chars) ∨ Dangling field (char == '\n') chars

instance decidableDangling {field : Text} : (start : Bool) → (text : Text) → Decidable (Dangling field start text)
  | _, [] => .isFalse id
  | start, char :: chars =>
    have : Decidable (Dangling field (char == '\n') chars) := decidableDangling _ chars
    inferInstanceAs (Decidable (start = true ∧ Unfilled field (char :: chars) ∨ Dangling field (char == '\n') chars))

/-- What the tables of `\w` and of `str.lower` say of the characters that matter here. -/
structure Unicode (isWord : Char → Bool) (lower : Text → Text) : Prop where
  space : ∀ char, isSpace char = true → isWord char = false
  colon : isWord ':' = false
  letter : ∀ char, char.isAlpha = true → isWord char = true
  folded : ∀ char ∈ ['İ','ı','ſ'], isWord char = true
  ascii : ∀ text, (∀ char ∈ text, char.isAlpha = true) → lower text = text.map Char.toLower
  undotted : ∀ text, 'ı' ∈ text → 'ı' ∈ lower text
  long : ∀ text, 'ſ' ∈ text → 'ſ' ∈ lower text
  dotted : ∀ text, 'İ' ∈ text → '\u0307' ∈ lower text

/-- Both tables on ASCII and on the letters that `re.I` takes for an `i` or an `s`. -/
def latinWord (char : Char) : Bool := char.isAlphanum || ['_','İ','ı','ſ'].contains char

def latinLower (text : Text) : Text := text.flatMap fun char => if char = 'İ' then ['i','\u0307'] else [char.toLower]

theorem ascii_range {char : Char} (letter : char.isAlphanum = true) : 48 ≤ char.toNat ∧ char.toNat < 123 := by
  have between {low high : Char} (from48 : 48 ≤ low.toNat) (to122 : high.toNat < 123) (least : low.val ≤ char.val)
      (most : char.val ≤ high.val) : 48 ≤ char.toNat ∧ char.toNat < 123 := ⟨from48.trans least,Nat.lt_of_le_of_lt most to122⟩
  rcases (Bool.or_eq_true _ _).mp letter with alpha | digit
  · rcases (Bool.or_eq_true _ _).mp alpha with upper | lower
    · have bounds := of_decide_eq_true upper
      exact between (by decide) (by decide) bounds.1 bounds.2
    · have bounds := (Bool.and_eq_true _ _).mp lower
      exact between (by decide) (by decide) (of_decide_eq_true bounds.1) (of_decide_eq_true bounds.2)
  · have bounds := (Bool.and_eq_true _ _).mp digit
    exact between (by decide) (by decide) (of_decide_eq_true bounds.1) (of_decide_eq_true bounds.2)

theorem ascii_visible {char : Char} (letter : char.isAlphanum = true) : isSpace char = false := by
  by_contra space
  simp only [isSpace,List.contains_eq_mem,decide_eq_true_eq,Bool.not_eq_false] at space
  have range := ascii_range letter
  generalize char.toNat = code at space range
  revert code
  decide

theorem latin : Unicode latinWord latinLower where
  space := by
    intro char space
    rw [latinWord,Bool.or_eq_false_iff]
    constructor
    · by_contra letter
      rw [Bool.not_eq_false] at letter
      rw [ascii_visible letter] at space
      contradiction
    · by_contra other
      simp only [List.contains_eq_mem,decide_eq_false_iff_not,not_not] at other
      have visible := visible_of (by decide) other
      rw [space] at visible
      contradiction
  colon := by decide
  letter := by
    intro char letter
    simp [latinWord,Char.isAlphanum,letter]
  folded := by simp [latinWord]
  ascii := by
    intro text letters
    induction text with
    | nil => rfl
    | cons char text ih =>
      have other : char ≠ 'İ' := by
        rintro rfl
        have letter := letters 'İ' (by simp)
        contradiction
      have rest := ih fun next member => letters next (List.mem_cons_of_mem _ member)
      rw [latinLower] at rest
      rw [latinLower,List.flatMap_cons,if_neg other,rest]
      rfl
  undotted := fun _ member => List.mem_flatMap.mpr ⟨'ı',member,by simp⟩
  long := fun _ member => List.mem_flatMap.mpr ⟨'ſ',member,by simp⟩
  dotted := fun _ member => List.mem_flatMap.mpr ⟨'İ',member,by simp⟩

variable {isWord : Char → Bool} {field front back blank word rest : Text} {start : Bool}

theorem keyword_nil (wordy : Wordy field) : keyword field [] = none := (barren_nil wordy).missing

theorem fieldAt_missing (missing : keyword field (back.dropWhile isSpace) = none) : fieldAt isWord field back = none := by
  rw [fieldAt,missing]
  rfl

theorem wordAt_blank (spaces : ∀ char ∈ back, isSpace char = true) : wordAt isWord back = none := by
  have nothing : back.dropWhile isSpace = [] := List.dropWhile_eq_nil_iff.mpr spaces
  simp [wordAt,nothing]

theorem spaced_wordless (space : ∀ char, isSpace char = true → isWord char = false) (spaced : Spaced back) :
    back.takeWhile isWord = [] := by
  cases back with
  | nil => rfl
  | cons char chars => simp [space char (spaced char rfl)]

/-- A word ends where the spaced text begins; where there is none yet, the spaced text may give it. -/
theorem wordAt_append (space : ∀ char, isSpace char = true → isWord char = false) (spaced : Spaced back) :
    wordAt isWord (front ++ back) = if front.all isSpace then wordAt isWord back else wordAt isWord front := by
  split
  next blank => simp only [wordAt,List.dropWhile_append_of_pos (List.all_eq_true.mp blank)]
  next visible =>
    have some : front.dropWhile isSpace ≠ [] := fun nothing =>
      visible (List.all_eq_true.mpr (List.dropWhile_eq_nil_iff.mp nothing))
    have taken : (front.dropWhile isSpace ++ back).takeWhile isWord = (front.dropWhile isSpace).takeWhile isWord :=
      takeWhile_ends (spaced_wordless space spaced)
    simp only [wordAt,List.dropWhile_append,List.isEmpty_iff,if_neg some,taken]

section
variable (wordy : Wordy field) (space : ∀ char, isSpace char = true → isWord char = false)
include wordy space

/-- At the head of a line, a spaced text without the field adds nothing but the value of an unfilled marker. -/
theorem fieldAt_append (spaced : Spaced back) (missing : keyword field (back.dropWhile isSpace) = none) :
    fieldAt isWord field (front ++ back) =
      (fieldAt isWord field front).or (if Unfilled field front then wordAt isWord back else none) := by
  by_cases blank : front.dropWhile isSpace = []
  · have none : keyword field [] = none := keyword_nil wordy
    have filled : ¬Unfilled field front := by simp [Unfilled,blank,none]
    rw [if_neg filled]
    simp [fieldAt,List.dropWhile_append,blank,missing,none]
  · have visible : (front ++ back).dropWhile isSpace = front.dropWhile isSpace ++ back := by
      rw [List.dropWhile_append,if_neg (by simpa using blank)]
    rw [fieldAt,fieldAt,visible]
    cases found : keyword field (front.dropWhile isSpace) with
    | none =>
      have filled : ¬Unfilled field front := by simp [Unfilled,found]
      rw [keyword_spaced wordy spaced found,if_neg filled]
      rfl
    | some rest =>
      have unfilled : Unfilled field front ↔ rest.all isSpace = true := by simp [Unfilled,found]
      rw [keyword_append back found,Option.bind_some,Option.bind_some,wordAt_append space spaced]
      by_cases spaces : rest.all isSpace = true
      · rw [if_pos spaces,if_pos (unfilled.mpr spaces),wordAt_blank (List.all_eq_true.mp spaces)]
        rfl
      · rw [if_neg spaces,if_neg (mt unfilled.mp spaces),Option.or_none]

end

section
variable (silent : fieldAt isWord field rest = none)
include silent

theorem searchField_head : searchField isWord field start rest = searchField isWord field false rest := by
  cases rest with
  | nil => rfl
  | cons char chars =>
    cases start with
    | false => rfl
    | true => simp [searchField,silent]

theorem searchField_spaces (spaces : ∀ char ∈ blank, isSpace char = true) :
    searchField isWord field start (blank ++ rest) = searchField isWord field false rest := by
  induction blank generalizing start with
  | nil => exact searchField_head silent
  | cons char blank ih =>
    have none : fieldAt isWord field (char :: blank ++ rest) = none := by
      rwa [fieldAt,List.dropWhile_append_of_pos spaces]
    rw [searchField_head none]
    exact ih fun other member => spaces other (List.mem_cons_of_mem _ member)

end

theorem searchField_line (line : '\n' ∉ word) :
    searchField isWord field false (word ++ rest) = searchField isWord field false rest := by
  induction word with
  | nil => rfl
  | cons char word ih =>
    have other : (char == '\n') = false := by
      rw [beq_eq_false_iff_ne]
      rintro rfl
      simp at line
    rw [List.cons_append,searchField,other]
    exact ih fun member => line (List.mem_cons_of_mem _ member)

section
variable (wordy : Wordy field)
include wordy

theorem searchField_blank (spaces : ∀ char ∈ blank, isSpace char = true) : searchField isWord field start blank = none := by
  have silent : fieldAt isWord field [] = none := fieldAt_missing (keyword_nil wordy)
  rw [← List.append_nil blank,searchField_spaces silent spaces]
  rfl

theorem searchField_unfilled (unfilled : Unfilled field front) : searchField isWord field start front = none := by
  obtain ⟨rest,found,all⟩ := (Option.any_eq_true _ _).mp unfilled
  have spaces := List.all_eq_true.mp all
  obtain ⟨word,split,matched⟩ := keyword_word found
  have silent : fieldAt isWord field (word ++ rest) = none := by
    rw [← split,fieldAt,List.dropWhile_idempotent,found]
    exact wordAt_blank spaces
  rw [← List.takeWhile_append_dropWhile (p := isSpace) (l := front),split,
    searchField_spaces silent fun _ member => List.mem_takeWhile_imp member,
    searchField_line (matched_line wordy matched)]
  exact searchField_blank wordy spaces

theorem dangling_blank_only (spaces : ∀ char ∈ blank, isSpace char = true) : ¬Dangling field start blank := by
  induction blank generalizing start with
  | nil => exact id
  | cons char blank ih =>
    have nothing : (char :: blank).dropWhile isSpace = [] := List.dropWhile_eq_nil_iff.mpr spaces
    rintro (⟨_,unfilled⟩ | later)
    · rw [Unfilled,nothing,keyword_nil wordy] at unfilled
      contradiction
    · exact ih (fun other member => spaces other (List.mem_cons_of_mem _ member)) later

theorem unfilled_blank (spaces : ∀ char ∈ blank, isSpace char = true) :
    Unfilled field (front ++ blank) ↔ Unfilled field front := by
  by_cases empty : front.dropWhile isSpace = []
  · have nothing : (front ++ blank).dropWhile isSpace = [] := by
      rw [List.dropWhile_append_of_pos (List.dropWhile_eq_nil_iff.mp empty),List.dropWhile_eq_nil_iff]
      exact spaces
    simp [Unfilled,empty,nothing]
  · have visible : (front ++ blank).dropWhile isSpace = front.dropWhile isSpace ++ blank := by
      rw [List.dropWhile_append,if_neg (by simpa using empty)]
    rw [Unfilled,Unfilled,visible]
    cases found : keyword field (front.dropWhile isSpace) with
    | none => simp [keyword_spaced wordy (barren_blank wordy spaces).spaced found]
    | some rest => simpa [keyword_append blank found,or_imp,forall_and] using fun _ => spaces

theorem dangling_blank (spaces : ∀ char ∈ blank, isSpace char = true) :
    Dangling field start (front ++ blank) ↔ Dangling field start front := by
  induction front generalizing start with
  | nil => exact iff_of_false (dangling_blank_only wordy spaces) id
  | cons char front ih =>
    have here : Unfilled field (char :: front ++ blank) ↔ Unfilled field (char :: front) := unfilled_blank wordy spaces
    exact or_congr (and_congr_right fun _ => here) ih

variable (space : ∀ char, isSpace char = true → isWord char = false)
include space

/-- A search in two texts, the second of which starts with a space and not with the field. -/
theorem searchField_append (spaced : Spaced back) (missing : keyword field (back.dropWhile isSpace) = none) :
    searchField isWord field start (front ++ back) = (searchField isWord field start front).or
      ((if Dangling field start front then wordAt isWord back else none).or (searchField isWord field false back)) := by
  induction front generalizing start with
  | nil => simpa [searchField,Dangling] using searchField_head (fieldAt_missing missing)
  | cons char front ih =>
    cases start with
    | false => simpa [searchField,Dangling] using ih
    | true =>
      rw [List.cons_append,searchField,ih,← List.cons_append,fieldAt_append wordy space spaced missing]
      by_cases unfilled : Unfilled field (char :: front)
      · have nothing : searchField isWord field true (char :: front) = none := searchField_unfilled wordy unfilled
        rw [searchField,Option.or_eq_none_iff] at nothing
        rw [searchField,nothing.1,nothing.2,if_pos unfilled]
        simp only [Dangling,unfilled,true_and,true_or,if_true,Option.none_or]
        split
        · rw [← Option.or_assoc,Option.or_self]
        · rfl
      · simp [searchField,Dangling,unfilled,Option.or_assoc]

theorem searchField_trailing (spaces : ∀ char ∈ blank, isSpace char = true) :
    searchField isWord field start (front ++ blank) = searchField isWord field start front := by
  have barren := barren_blank wordy spaces
  simp [searchField_append wordy space barren.spaced barren.missing,wordAt_blank spaces,searchField_blank wordy spaces]

end

section
variable {key : Text} (wordyKey : Wordy key) (wordy : Wordy field) (apart : Apart key field) (region : Region key)
include wordyKey wordy apart

theorem searchField_region : searchField isWord field start (region.text ++ rest) = searchField isWord field false rest := by
  have number : fieldAt isWord field (region.number ++ rest) = none := by
    apply fieldAt_missing
    rw [region.number_visible wordyKey]
    exact number_missing apart region rest
  have digits : fieldAt isWord field (region.digits ++ rest) = none := by
    apply fieldAt_missing
    rw [region.digits_visible]
    exact keyword_digits wordy region.someDigits region.allDigits rest
  calc searchField isWord field start (region.text ++ rest)
      = searchField isWord field false (region.number ++ rest) := by
        rw [Region.text,List.append_assoc,searchField_spaces number region.blankSpaces]
    _ = searchField isWord field false (region.gap ++ (region.digits ++ rest)) := by
        rw [Region.number,List.append_assoc,searchField_line (region.word_line wordyKey),List.append_assoc]
    _ = searchField isWord field false (region.digits ++ rest) := searchField_spaces digits region.gapSpaces
    _ = searchField isWord field false rest := searchField_line region.digits_line

/-- A counter gives a field no value but its own key, and that to a marker that is left unfilled above it. -/
theorem searchField_counter (space : ∀ char, isSpace char = true → isWord char = false) (line : LineStart true front) :
    searchField isWord field true (front ++ (region.text ++ rest)) = (searchField isWord field true front).or
      ((if Dangling field true front then wordAt isWord (region.number ++ rest) else none).or
        (searchField isWord field false rest)) := by
  rcases line with ⟨rfl,_⟩ | last
  · simpa [searchField,Dangling] using searchField_region wordyKey wordy apart region
  · obtain ⟨front,rfl⟩ := List.getLast?_eq_some_iff.mp last
    have barren : Barren field (['\n'] ++ (region.text ++ rest)) :=
      region_barren wordyKey apart region (by simp) newline_spaces rest
    have below : wordAt isWord (['\n'] ++ (region.text ++ rest)) = wordAt isWord (region.number ++ rest) := by
      rw [wordAt,wordAt,List.dropWhile_append_of_pos newline_spaces,region.visible wordyKey,region.number_visible wordyKey]
    rw [List.append_assoc,searchField_append wordy space barren.spaced barren.missing,below,
      searchField_trailing wordy space newline_spaces,List.singleton_append,searchField]
    simp only [dangling_blank wordy newline_spaces]
    rw [searchField_region wordyKey wordy apart]

end

/-- A name in lower-case letters; with a colon behind it, it is the key of a counter. -/
structure Named (name : Text) : Prop where
  some : name ≠ []
  letters : ∀ letter ∈ name, letter.isAlpha = true ∧ letter.toUpper.isAlpha = true ∧ letter.toLower = letter ∧
    letter.toUpper.toLower = letter

theorem colon_only {char : Char} (same : sameLetter ':' char = true) : char = ':' := by
  have upper : ':'.toUpper = ':' := by decide
  simpa [sameLetter,upper] using same

section
variable {name : Text} (named : Named name)

theorem spelled_letters {spelled : Text}
    (matched : List.Forall₂ (fun letter char => sameLetter letter char = true) name spelled) {char : Char}
    (member : char ∈ spelled) : ∃ letter ∈ name, char ∈ [letter,letter.toUpper,'İ','ı','ſ'] := by
  obtain ⟨i,bound,rfl⟩ := List.mem_iff_getElem.mp member
  have inside : i < name.length := by rwa [matched.length_eq]
  exact ⟨name[i],List.getElem_mem inside,sameLetter_variants (matched.get inside bound)⟩

/-- A counter's name as the body spells it. -/
def Region.spelled (region : Region (name ++ [':'])) : Text := region.word.take name.length

theorem Region.word_spelled (region : Region (name ++ [':'])) : region.word = region.spelled ++ [':'] ∧
    List.Forall₂ (fun letter char => sameLetter letter char = true) name region.spelled := by
  have matched := region.matched.flip
  have front := (List.forall₂_take_append _ _ _ matched).flip
  have back := List.forall₂_drop_append _ _ _ matched
  obtain ⟨colon,_,same,rest,split⟩ := List.forall₂_cons_right_iff.mp back
  cases rest
  have last : region.word.drop name.length = [':'] := by rw [split,colon_only same]
  refine ⟨?_,front⟩
  calc region.word = region.spelled ++ region.word.drop name.length := (List.take_append_drop ..).symm
    _ = region.spelled ++ [':'] := congrArg (region.spelled ++ ·) last

variable {lower : Text → Text} (unicode : Unicode isWord lower)
include unicode named

theorem wordAt_number (wordy : Wordy (name ++ [':'])) (region : Region (name ++ [':'])) :
    wordAt isWord (region.number ++ rest) = some region.spelled := by
  obtain ⟨word,matched⟩ := region.word_spelled
  have words : ∀ char ∈ region.spelled, isWord char = true := by
    intro char member
    obtain ⟨letter,inside,variant⟩ := spelled_letters matched member
    obtain ⟨small,large,_⟩ := named.letters letter inside
    rcases List.mem_cons.mp variant with rfl | variant
    · exact unicode.letter _ small
    rcases List.mem_cons.mp variant with rfl | folded
    · exact unicode.letter _ large
    · exact unicode.folded _ folded
  have taken : (region.number ++ rest).takeWhile isWord = region.spelled := by
    rw [Region.number,word,List.append_assoc,List.append_assoc,List.takeWhile_append_of_pos words,
      List.singleton_append,List.takeWhile_cons_of_neg (by simp [unicode.colon]),List.append_nil]
  have some : region.spelled ≠ [] := by
    intro nothing
    rw [nothing,List.forall₂_nil_right_iff] at matched
    exact named.some matched
  simp only [wordAt,region.number_visible wordy,taken,if_neg some]

/-- `lower` gives the name back unless it is spelled with a letter that only `re.I` takes for one of its own. -/
theorem lower_spelled {spelled : Text}
    (matched : List.Forall₂ (fun letter char => sameLetter letter char = true) name spelled) :
    lower spelled = name ↔ ∀ char ∈ spelled, char.isAlpha = true := by
  constructor
  · intro same char member
    obtain ⟨letter,inside,variant⟩ := spelled_letters matched member
    have plain {char : Char} (found : char ∈ lower spelled) : char.isAlpha = true := by
      rw [same] at found
      exact (named.letters char found).1
    simp only [List.mem_cons,List.not_mem_nil,or_false] at variant
    rcases variant with rfl | rfl | rfl | rfl | rfl
    · exact (named.letters _ inside).1
    · exact (named.letters _ inside).2.1
    · exact absurd (plain (unicode.dotted _ member)) (by decide)
    · exact plain (unicode.undotted _ member)
    · exact plain (unicode.long _ member)
  · intro plain
    rw [unicode.ascii spelled plain]
    have letters := named.letters
    clear named
    induction matched with
    | nil => rfl
    | @cons letter char name spelled same _ ih =>
      obtain ⟨_,_,small,large⟩ := letters letter (by simp)
      have folded : char.toLower = letter := by
        have alpha := plain char (by simp)
        have variant := sameLetter_variants same
        simp only [List.mem_cons,List.not_mem_nil,or_false] at variant
        rcases variant with rfl | rfl | rfl | rfl | rfl
        · exact small
        · exact large
        all_goals contradiction
      rw [List.map_cons,folded,ih (fun other member => plain other (List.mem_cons_of_mem _ member))
        fun other member => letters other (List.mem_cons_of_mem _ member)]

end

end Frankenrust.Orchestrator
