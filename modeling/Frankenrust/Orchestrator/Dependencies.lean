import Frankenrust.Orchestrator.Counter
import Mathlib.Data.List.DropRight

/-! The `Depends on:` lines of an issue's body: neither the match of a counter nor blanks at a
text's end are part of any. -/
namespace Frankenrust.Orchestrator
open Issue

/-- The numbers that the lines of a text declare, as they are written. -/
def mentions (isWord : Char → Bool) (text : Text) : List Text :=
  ((text.splitOn '\n').filterMap (depLine isWord)).flatMap references

theorem deps_mentions {isWord : Char → Bool} {issue : Issue} : issue.deps isWord =
    ((mentions isWord issue.body).mapM int).map fun found => found.dedup.insertionSort (· ≤ ·) := rfl

/-- The first visible character opens no line of dependencies. -/
def Plain (text : Text) : Prop := ∀ char ∈ (text.dropWhile isSpace).head?, char ∉ ['-','*','d','D']

variable {isWord : Char → Bool} {front back blank line rest text word : Text}

theorem blank_space {char : Char} (blank : isBlank char = true) : isSpace char = true := by
  simp only [isBlank,Bool.or_eq_true,beq_iff_eq] at blank
  rcases blank with rfl | rfl
  · decide
  · decide

theorem blanks_end {char : Char} (head : char ∈ (text.dropWhile isBlank).head?) :
    isSpace char = true ∨ char ∈ (text.dropWhile isSpace).head? := by
  induction text with
  | nil => contradiction
  | cons first text ih =>
    rw [List.dropWhile_cons] at head
    split at head
    next blank =>
      rw [List.dropWhile_cons_of_pos (blank_space blank)]
      exact ih head
    next visible =>
      obtain rfl : first = char := by simpa using head
      by_cases space : isSpace first = true
      · exact .inl space
      · rw [List.dropWhile_cons_of_neg space]
        exact .inr rfl

theorem plain_opening (plain : Plain text) {char : Char} (head : char ∈ (text.dropWhile isBlank).head?) :
    char ∉ ['-','*','d','D'] := by
  rcases blanks_end head with space | visible
  · intro opening
    have seen := visible_of (by decide) opening
    rw [space] at seen
    contradiction
  · exact plain char visible

theorem keyword_depends (other : ∀ char ∈ text.head?, char ∉ ['d','D']) : keyword "depends on".toList text = none := by
  cases text with
  | nil => rfl
  | cons char chars =>
    have upper : 'd'.toUpper = 'D' := by decide
    have differ : ¬sameLetter 'd' char = true := by
      intro same
      have letter : char = 'd' ∨ char = 'D' := by simpa [sameLetter,upper] using same
      exact other char rfl (by simpa using letter)
    simp [keyword,differ]

theorem depLine_plain (plain : Plain text) : depLine isWord text = none := by
  have opening {char : Char} (head : char ∈ (text.dropWhile isBlank).head?) := plain_opening plain head
  have bullet : ¬((text.dropWhile isBlank).head? = some '-' ∨ (text.dropWhile isBlank).head? = some '*') := by
    rintro (dash | star)
    · exact opening dash (by simp)
    · exact opening star (by simp)
  have missing : keyword "depends on".toList (text.dropWhile isBlank) = none := by
    apply keyword_depends
    intro char head letter
    exact opening head (List.mem_cons_of_mem _ (List.mem_cons_of_mem _ letter))
  rw [depLine,if_neg bullet,List.dropWhile_idempotent,missing]

/-- The rest of the line that a text starts in ends at the next line feed. -/
def fromNewline (text : Text) : Text := text.dropWhile (· ≠ '\n')

theorem fromNewline_line (line : '\n' ∉ word) : fromNewline (word ++ rest) = fromNewline rest := by
  rw [fromNewline,fromNewline,List.dropWhile_append_of_pos]
  intro char member
  rw [decide_eq_true_eq]
  rintro rfl
  contradiction

theorem mentions_lines : mentions isWord (front ++ '\n' :: rest) = mentions isWord front ++ mentions isWord rest := by
  simp [mentions,List.splitOn_append_cons_self]

theorem mentions_newline : mentions isWord ('\n' :: rest) = mentions isWord rest := by
  have lines : mentions isWord ([] ++ '\n' :: rest) = mentions isWord [] ++ mentions isWord rest := mentions_lines
  exact lines

theorem mentions_line (line : '\n' ∉ text) : mentions isWord text = ((depLine isWord text).map references).getD [] := by
  rw [mentions,List.splitOn_eq_singleton line]
  cases found : depLine isWord text with
  | none => simp [found]
  | some content => simp [found]

theorem plain_takeWhile {p : Char → Bool} (plain : Plain text) : Plain (text.takeWhile p) := by
  induction text with
  | nil => exact nofun
  | cons char text ih =>
    rw [List.takeWhile_cons]
    split
    · by_cases space : isSpace char = true
      · rw [Plain,List.dropWhile_cons_of_pos space] at plain ⊢
        exact ih plain
      · rw [Plain,List.dropWhile_cons_of_neg space] at plain ⊢
        exact plain
    · exact nofun

theorem mentions_plain (plain : Plain text) : mentions isWord text = mentions isWord (fromNewline text) := by
  have quiet : depLine isWord (text.takeWhile (· ≠ '\n')) = none := depLine_plain (plain_takeWhile plain)
  have line : '\n' ∉ text.takeWhile (· ≠ '\n') := by
    intro member
    simpa using List.mem_takeWhile_imp member
  have first : mentions isWord (text.takeWhile (· ≠ '\n')) = [] := by
    rw [mentions_line line,quiet]
    rfl
  conv_lhs => rw [← List.takeWhile_append_dropWhile (p := (· ≠ '\n')) (l := text)]
  rw [fromNewline]
  cases left : text.dropWhile (· ≠ '\n') with
  | nil => rw [List.append_nil,first]; rfl
  | cons char rest =>
    have head := List.head?_dropWhile_not (· ≠ '\n') text
    rw [left] at head
    obtain rfl : char = '\n' := by simpa using head
    rw [mentions_lines,first,mentions_newline,List.nil_append]

theorem plain_spaces (spaces : ∀ char ∈ blank, isSpace char = true) : Plain (blank ++ rest) ↔ Plain rest := by
  rw [Plain,Plain,List.dropWhile_append_of_pos spaces]

/-- Blanks above a plain line, even over several lines, change nothing. -/
theorem mentions_spaces (spaces : ∀ char ∈ blank, isSpace char = true) (plain : Plain rest) :
    mentions isWord (blank ++ rest) = mentions isWord rest := by
  induction blank with
  | nil => rfl
  | cons char blank ih =>
    have fewer : ∀ char ∈ blank, isSpace char = true := fun other member => spaces other (List.mem_cons_of_mem _ member)
    by_cases newline : char = '\n'
    · subst newline
      rw [List.cons_append,mentions_newline,ih fewer]
    · rw [mentions_plain ((plain_spaces spaces).mpr plain),List.cons_append,← List.singleton_append,
        fromNewline_line (by simpa using Ne.symm newline),← mentions_plain ((plain_spaces fewer).mpr plain),ih fewer]

theorem mentions_word (line : '\n' ∉ word) (plain : Plain (word ++ rest)) :
    mentions isWord (word ++ rest) = mentions isWord (fromNewline rest) := by
  rw [mentions_plain plain,fromNewline_line line]

theorem plain_digits {key : Text} (region : Region key) : Plain (region.digits ++ rest) := by
  obtain ⟨digit,digits,split⟩ := List.exists_cons_of_ne_nil region.someDigits
  have number : isDigit digit = true := region.allDigits digit (by simp [split])
  rw [Plain,region.digits_visible,split]
  rintro char head opening
  obtain rfl : digit = char := by simpa using head
  have all : ['-','*','d','D'].all (fun char => !isDigit char) = true := by decide
  have other := List.all_eq_true.mp all digit opening
  rw [number] at other
  contradiction

/-- A text in which the key stands opens no line of dependencies. -/
def PlainKey (key : Text) : Prop :=
  ∀ word rest, List.Forall₂ (fun letter char => sameLetter letter char = true) key word → Plain (word ++ rest)

/-- What a match of a counter covers, over however many lines, declares nothing. -/
theorem mentions_region {key : Text} (wordy : Wordy key) (plainKey : PlainKey key) (region : Region key) :
    mentions isWord (region.text ++ rest) = mentions isWord (fromNewline rest) := by
  have plain : Plain (region.number ++ rest) := by
    rw [Region.number,List.append_assoc]
    exact plainKey _ _ region.matched
  have gap : Plain (region.gap ++ (region.digits ++ rest)) := (plain_spaces region.gapSpaces).mpr (plain_digits region)
  calc mentions isWord (region.text ++ rest) = mentions isWord (region.number ++ rest) := by
        rw [Region.text,List.append_assoc,mentions_spaces region.blankSpaces plain]
    _ = mentions isWord (fromNewline (region.gap ++ (region.digits ++ rest))) := by
        rw [Region.number,List.append_assoc] at plain ⊢
        rw [mentions_word (region.word_line wordy) plain,List.append_assoc]
    _ = mentions isWord (region.digits ++ rest) := by
        rw [← mentions_plain gap,mentions_spaces region.gapSpaces (plain_digits region)]
    _ = mentions isWord (fromNewline rest) := mentions_word region.digits_line (plain_digits region)

/-- A key that ends in a letter is found in a text if and only if it is found in front of the blanks at its end. -/
theorem keyword_trailing {key : Text} (spaces : ∀ char ∈ blank, isSpace char = true)
    (visible : ∀ letter ∈ key.getLast?, ∀ char, sameLetter letter char = true → isSpace char = false) :
    keyword key (front ++ blank) = (keyword key front).map (· ++ blank) := by
  cases found : keyword key front with
  | some rest => rw [keyword_append blank found]; rfl
  | none =>
    by_contra beyond
    obtain ⟨rest,more⟩ := Option.ne_none_iff_exists'.mp beyond
    obtain ⟨word,split,matched⟩ := keyword_word more
    rcases List.append_eq_append_iff.mp split with ⟨part,rfl,into⟩ | ⟨part,rfl,_⟩
    · by_cases empty : part = []
      · subst empty
        have same := keyword_self matched []
        rw [List.append_nil,List.append_nil,found] at same
        contradiction
      · obtain ⟨part,char,rfl⟩ := List.eq_nil_or_concat part |>.resolve_left empty
        have backwards := List.rel_reverse matched
        simp only [List.concat_eq_append,← List.append_assoc,List.reverse_append,List.reverse_singleton,
          List.singleton_append] at backwards
        obtain ⟨letter,_,same,_,last⟩ := List.forall₂_cons_right_iff.mp backwards
        have final : letter ∈ key.getLast? := by rw [← List.head?_reverse,last]; rfl
        have space := spaces char (by simp [into])
        rw [visible letter final char same] at space
        contradiction
    · have same := keyword_self matched part
      rw [found] at same
      contradiction

theorem references_blank (spaces : ∀ char ∈ blank, isSpace char = true) : references blank = [] := by
  induction blank with
  | nil => rfl
  | cons char blank ih =>
    have other : char ≠ '#' := by
      rintro rfl
      have space := spaces '#' (by simp)
      contradiction
    rw [references,if_neg fun reference => other reference.1]
    exact ih fun next member => spaces next (List.mem_cons_of_mem _ member)

theorem references_trailing (spaces : ∀ char ∈ blank, isSpace char = true) : references (text ++ blank) = references text := by
  have ends : blank.takeWhile isDigit = [] := spaced_numberless fun char head => spaces char (List.mem_of_head? head)
  induction text with
  | nil => exact references_blank spaces
  | cons char text ih => rw [List.cons_append,references,references,takeWhile_ends ends,ih]

/-- A line without its blanks and its bullet. -/
def opening (line : Text) : Text :=
  let item := line.dropWhile isBlank
  let bare := if item.head? = some '-' ∨ item.head? = some '*' then item.tail else item
  bare.dropWhile isBlank

/-- What stands behind the words `depends on`. -/
def content (isWord : Char → Bool) (rest : Text) : Option Text :=
  if rest.head?.any isWord then none else some (if rest.head? = some ':' then rest.tail else rest)

theorem depLine_opening : depLine isWord line = (keyword "depends on".toList (opening line)).bind (content isWord) := by
  simp only [depLine,opening]
  split
  next missing =>
    rw [missing]
    rfl
  next rest found =>
    rw [found]
    rfl

theorem opening_trailing (line : Text) (spaces : ∀ char ∈ blank, isSpace char = true) :
    opening line = [] ∧ (∀ char ∈ opening (line ++ blank), isSpace char = true) ∨
      opening (line ++ blank) = opening line ++ blank := by
  have dropped (text : Text) : text.dropWhile isBlank = [] ∧ (text ++ blank).dropWhile isBlank = blank.dropWhile isBlank ∨
      text.dropWhile isBlank ≠ [] ∧ (text ++ blank).dropWhile isBlank = text.dropWhile isBlank ++ blank := by
    by_cases empty : text.dropWhile isBlank = []
    · exact .inl ⟨empty,List.dropWhile_append_of_pos (List.dropWhile_eq_nil_iff.mp empty)⟩
    · exact .inr ⟨empty,by rw [List.dropWhile_append,if_neg (by simpa using empty)]⟩
  have fewer {char : Char} (member : char ∈ blank.dropWhile isBlank) : isSpace char = true :=
    spaces char ((List.dropWhile_suffix _).mem member)
  rcases dropped line with ⟨empty,rest⟩ | ⟨visible,rest⟩
  · refine .inl ⟨by simp [opening,empty],?_⟩
    intro char member
    rw [opening,rest] at member
    have inside := (List.dropWhile_suffix _).mem member
    split at inside
    · exact fewer (List.mem_of_mem_tail inside)
    · exact fewer inside
  · have bare : (if (line.dropWhile isBlank ++ blank).head? = some '-' ∨ (line.dropWhile isBlank ++ blank).head? = some '*'
        then (line.dropWhile isBlank ++ blank).tail else line.dropWhile isBlank ++ blank) =
        (if (line.dropWhile isBlank).head? = some '-' ∨ (line.dropWhile isBlank).head? = some '*'
          then (line.dropWhile isBlank).tail else line.dropWhile isBlank) ++ blank := by
      rw [List.head?_append_of_ne_nil _ visible,List.tail_append_of_ne_nil visible]
      split
      · rfl
      · rfl
    simp only [opening,rest,bare]
    rcases dropped _ with ⟨empty,rest⟩ | ⟨_,rest⟩
    · refine .inl ⟨empty,?_⟩
      rw [rest]
      exact fun _ => fewer
    · exact .inr rest

theorem keyword_spaces (spaces : ∀ char ∈ text, isSpace char = true) : keyword "depends on".toList text = none := by
  apply keyword_depends
  intro char head letter
  have visible := visible_of (by decide) letter
  rw [spaces char (List.mem_of_head? head)] at visible
  contradiction

section
variable (space : ∀ char, isSpace char = true → isWord char = false) (spaces : ∀ char ∈ blank, isSpace char = true)
include space spaces

theorem content_blank : (content isWord blank).map references = some [] := by
  cases blank with
  | nil => rfl
  | cons char blank =>
    have wordless : ¬isWord char = true := by simp [space char (spaces char (by simp))]
    have colon : ¬some char = some ':' := by
      intro same
      have visible := spaces ':' (by simp [Option.some.inj same])
      contradiction
    rw [content,List.head?_cons,Option.any_some,if_neg wordless,if_neg colon,Option.map_some,references_blank spaces]

theorem content_trailing : (content isWord (rest ++ blank)).map references = (content isWord rest).map references := by
  cases rest with
  | nil => exact content_blank space spaces
  | cons char rest =>
    rw [content,content,List.cons_append,List.head?_cons,List.head?_cons,List.tail_cons,List.tail_cons]
    split
    · rfl
    · rw [Option.map_some,Option.map_some]
      split
      · rw [references_trailing spaces]
      · rw [← List.cons_append,references_trailing spaces]

theorem declared_trailing : ((keyword "depends on".toList (text ++ blank)).bind (content isWord)).map references =
    ((keyword "depends on".toList text).bind (content isWord)).map references := by
  have visible : ∀ letter ∈ "depends on".toList.getLast?, ∀ char, sameLetter letter char = true → isSpace char = false := by
    rintro letter last char same
    obtain rfl : 'n' = letter := by simpa using last
    exact visible_of (by decide) (sameLetter_variants same)
  rw [keyword_trailing spaces visible]
  cases keyword "depends on".toList text with
  | none => rfl
  | some rest => exact content_trailing space spaces

theorem mentions_line_trailing (line : '\n' ∉ text) (more : '\n' ∉ blank) :
    mentions isWord (text ++ blank) = mentions isWord text := by
  have whole : '\n' ∉ text ++ blank := by simp [line,more]
  rw [mentions_line line,mentions_line whole,depLine_opening,depLine_opening]
  rcases opening_trailing text spaces with ⟨empty,blanks⟩ | same
  · rw [keyword_spaces blanks,empty]
    rfl
  · rw [same,declared_trailing space spaces]

/-- Blanks at the end of a text declare nothing and take nothing from its last line. -/
theorem mentions_trailing : mentions isWord (front ++ blank) = mentions isWord front := by
  induction size : front.length using Nat.strong_induction_on generalizing front with
  | _ length ih =>
  by_cases newline : '\n' ∈ front
  · obtain ⟨line,below,rfl,_⟩ := List.eq_append_cons_of_mem newline
    have shorter : below.length < length := by
      simp only [← size,List.length_append,List.length_cons]
      omega
    rw [List.append_assoc,List.cons_append,mentions_lines,mentions_lines,ih below.length shorter rfl]
  · by_cases more : '\n' ∈ blank
    · obtain ⟨line,below,rfl,single⟩ := List.eq_append_cons_of_mem more
      have nothing : mentions isWord below = [] := by
        have empty : Plain [] := nofun
        have fewer : ∀ char ∈ below, isSpace char = true := fun char member => spaces char (by simp [member])
        have blanks : mentions isWord (below ++ []) = _ := mentions_spaces fewer empty
        rw [List.append_nil] at blanks
        rw [blanks]
        rfl
      rw [← List.append_assoc,mentions_lines,nothing,List.append_nil]
      exact mentions_line_trailing space (fun char member => spaces char (by simp [member])) newline single
    · exact mentions_line_trailing space spaces newline more

end

end Frankenrust.Orchestrator
