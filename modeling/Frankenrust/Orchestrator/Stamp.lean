import Frankenrust.Orchestrator.Counter

/-! The rewrite that stamps a counter in an issue's body: the stamp is read back, and the other
counter is left as it was. -/
namespace Frankenrust.Orchestrator

/-- The text above the first counter, and the text from there on. -/
def aboveCounter (key : Text) : Bool → Text → Text × Text
  | _, [] => ([],[])
  | start, char :: chars =>
    if start = true ∧ (counterAt key (char :: chars)).isSome = true then ([],char :: chars)
    else
      let (above,below) := aboveCounter key (char == '\n') chars
      (char :: above,below)

section
variable {key text above below : Text} {start : Bool}

/-- No counter starts in the text above, whatever stands below it. -/
structure Divided (key : Text) (start : Bool) (text above below : Text) : Prop where
  whole : text = above ++ below
  first : ∀ front back, above = front ++ back → back ≠ [] → LineStart start front → counterAt key (back ++ below) = none
  replaced : ∀ line, subFirst key line start text = none ∧ below = [] ∨ ∃ (region : Region key) (rest : Text),
    below = region.text ++ rest ∧ LineStart start above ∧ rest.takeWhile isDigit = [] ∧
      subFirst key line start text = some (above ++ (line ++ rest))

theorem divided_here {digits rest : Text} (found : counterAt key text = some (digits,rest)) (some : text ≠ []) :
    Divided key true text [] text := by
  obtain ⟨region,_,whole,ends⟩ := counterAt_some found
  obtain ⟨char,chars,rfl⟩ := List.exists_cons_of_ne_nil some
  refine ⟨rfl,?_,?_⟩
  · intro front back split more
    exact absurd (List.append_eq_nil_iff.mp split.symm).2 more
  · intro line
    exact .inr ⟨region,rest,whole,.inl ⟨rfl,rfl⟩,ends,by simp [subFirst,found]⟩

theorem divided_cons {char : Char} (divided : Divided key (char == '\n') text above below)
    (silent : start = true → counterAt key (char :: text) = none) : Divided key start (char :: text) (char :: above) below := by
  have later (line : Text) : subFirst key line start (char :: text) = (subFirst key line (char == '\n') text).map (char :: ·) := by
    cases start with
    | false => rfl
    | true => rw [subFirst,silent rfl]
  refine ⟨congrArg (char :: ·) divided.whole,?_,?_⟩
  · intro front back split some line
    cases front with
    | nil =>
      rcases line with ⟨_,begins⟩ | last
      · rw [List.nil_append] at split
        rw [← split,List.cons_append,← divided.whole,silent begins]
      · contradiction
    | cons head front =>
      obtain ⟨rfl,tail⟩ := List.cons_eq_cons.mp split
      exact divided.first front back tail some (lineStart_tail line)
  · intro line
    rw [later]
    rcases divided.replaced line with ⟨missing,empty⟩ | ⟨region,rest,whole,begins,ends,found⟩
    · exact .inl ⟨by rw [missing]; rfl,empty⟩
    · exact .inr ⟨region,rest,whole,lineStart_cons begins,ends,by rw [found]; rfl⟩

theorem aboveCounter_divides (key text : Text) (start : Bool) :
    Divided key start text (aboveCounter key start text).1 (aboveCounter key start text).2 := by
  induction text generalizing start with
  | nil =>
    refine ⟨rfl,?_,?_⟩
    · intro front back split some
      exact absurd (List.append_eq_nil_iff.mp split.symm).2 some
    · intro line
      cases start
      · exact .inl ⟨rfl,rfl⟩
      · exact .inl ⟨rfl,rfl⟩
  | cons char chars ih =>
    rw [aboveCounter]
    split
    next here =>
      obtain ⟨rfl,found⟩ := here
      obtain ⟨⟨digits,rest⟩,matched⟩ := Option.isSome_iff_exists.mp found
      exact divided_here matched (by simp)
    next silent => exact divided_cons (ih (char == '\n')) fun begins => by simpa [begins] using silent

/-- No line of a text starts with a counter. -/
def Free (key : Text) (start : Bool) (text : Text) : Prop :=
  ∀ front back, text = front ++ back → LineStart start front → counterAt key back = none

theorem counterAt_blank (wordy : Wordy key) (blank : text.dropWhile isSpace = []) : counterAt key text = none := by
  have nothing : keyword key [] = none := (barren_nil wordy).missing
  rw [counterAt,blank,nothing]
  rfl

theorem newline_last {front back : Text} (line : LineStart start text) (split : text = front ++ back) (some : back ≠ []) :
    ∃ earlier, back = earlier ++ ['\n'] := by
  subst split
  rcases line with ⟨nothing,_⟩ | last
  · exact absurd (List.append_eq_nil_iff.mp nothing).2 some
  · rw [List.getLast?_append_of_ne_nil _ some] at last
    exact List.getLast?_eq_some_iff.mp last

theorem none_of_fst {first second : Option (Text × Text)} (same : first.map Prod.fst = second.map Prod.fst) :
    first = none ↔ second = none := by
  rw [← Option.map_eq_none_iff (f := Prod.fst),same,Option.map_eq_none_iff]

theorem findall_skip_last (char : Char) (front back : Text) (start : Bool) :
    findall key start (front ++ [char]).length (front ++ [char] ++ back) = findall key (char == '\n') 0 back := by
  induction front generalizing start with
  | nil => cases start <;> rfl
  | cons first front ih =>
    simp only [List.cons_append,List.length_cons,findall]
    exact ih (first == '\n')

variable (wordy : Wordy key) (region : Region key) {front back rest : Text}
include wordy

/-- Whether a counter starts at a visible line is told by the text up to the next counter. -/
theorem counterAt_above (visible : back.dropWhile isSpace ≠ []) (last : ∃ earlier, back = earlier ++ ['\n']) :
    counterAt key (back ++ (region.text ++ rest)) = none ↔ counterAt key back = none := by
  obtain ⟨earlier,rfl⟩ := last
  have seen : earlier.dropWhile isSpace ≠ [] := by
    intro nothing
    apply visible
    rw [List.dropWhile_append_of_pos (List.dropWhile_eq_nil_iff.mp nothing)]
    exact List.dropWhile_eq_nil_iff.mpr newline_spaces
  have spaced : Spaced (['\n'] ++ (region.text ++ rest)) := by simp [Spaced,newline_space]
  have numberless : ((['\n'] ++ (region.text ++ rest)).dropWhile isSpace).takeWhile isDigit = [] := by
    rw [List.dropWhile_append_of_pos newline_spaces]
    exact region.numberless wordy rest
  rw [List.append_assoc,none_of_fst (counterAt_visible wordy seen spaced numberless)]
  exact (none_of_fst (counterAt_barren wordy (barren_blank wordy newline_spaces))).symm

/-- A counter is found where it stands, and the search goes on behind its digits. -/
theorem findall_region (ends : rest.takeWhile isDigit = []) :
    findall key true 0 (region.text ++ rest) = region.digits :: findall key false 0 rest := by
  obtain ⟨digits,last,split⟩ := (List.eq_nil_or_concat region.digits).resolve_left region.someDigits
  have digit : (last == '\n') = false := by
    rw [beq_eq_false_iff_ne]
    rintro rfl
    exact region.digits_line (by simp [split])
  obtain ⟨first,more,before⟩ := List.exists_cons_of_ne_nil
    (List.append_ne_nil_of_right_ne_nil region.blank (List.append_ne_nil_of_left_ne_nil (region.word_ne_nil wordy) (region.gap ++ digits)))
  have text : region.text = first :: (more ++ [last]) := by
    rw [← List.cons_append,← before,Region.text,Region.number,split]
    simp
  have here := counterAt_region wordy region ends
  rw [text,List.cons_append] at here ⊢
  have covered : (more ++ [last] ++ rest).length - rest.length = (more ++ [last]).length := by
    simp only [List.length_append]
    omega
  rw [findall,here]
  simp only
  rw [covered,findall_skip_last,digit]

theorem findall_first (free : Free key start front) (line : LineStart start front) (ends : rest.takeWhile isDigit = []) :
    findall key start 0 (front ++ (region.text ++ rest)) = region.digits :: findall key false 0 rest := by
  induction front generalizing start with
  | nil =>
    rcases line with ⟨_,rfl⟩ | last
    · exact findall_region wordy region ends
    · contradiction
  | cons char front ih =>
    have later : Free key (char == '\n') front := by
      rintro before back rfl line
      exact free (char :: before) back rfl (lineStart_cons line)
    have tail := ih later (lineStart_tail line)
    cases start with
    | false => exact tail
    | true =>
      by_cases blank : (char :: front).dropWhile isSpace = []
      · -- The pattern takes in the blank lines above the counter.
        have spaces := List.dropWhile_eq_nil_iff.mp blank
        have found := findall_region wordy (region.below (char :: front) spaces) ends
        rwa [region.below_text,List.append_assoc] at found
      · have none := free [] (char :: front) rfl (.inl ⟨rfl,rfl⟩)
        have last : ∃ earlier, char :: front = earlier ++ ['\n'] := newline_last line (List.nil_append _).symm (by simp)
        have silent : counterAt key (char :: (front ++ (region.text ++ rest))) = Option.none :=
          (counterAt_above wordy region blank last).mpr none
        rw [List.cons_append,findall,silent]
        exact tail

omit region in
theorem divided_free (divided : Divided key start text above below) : Free key start above := by
  intro front back split line
  by_cases blank : back.dropWhile isSpace = []
  · exact counterAt_blank wordy blank
  have some : back ≠ [] := by
    rintro rfl
    contradiction
  have silent := divided.first front back split some line
  rcases divided.replaced [] with ⟨_,empty⟩ | ⟨region,rest,whole,begins,_⟩
  · rwa [empty,List.append_nil] at silent
  · rw [whole,counterAt_above wordy region blank (newline_last begins split some)] at silent
    exact silent

omit region in
theorem free_stripped (free : Free key true text) : Free key true (rstrip text ++ ['\n','\n']) := by
  obtain ⟨blank,whole,spaces⟩ := rstrip_append text
  have feeds : ∀ char ∈ ['\n','\n'], isSpace char = true := by simp [newline_space]
  intro front back split line
  rcases List.append_eq_append_iff.mp split with ⟨part,rfl,inside⟩ | ⟨part,stripped,rfl⟩
  · refine counterAt_blank wordy (List.dropWhile_eq_nil_iff.mpr ?_)
    intro char member
    exact feeds char (by rw [inside]; exact List.mem_append_right _ member)
  · have before : counterAt key (part ++ blank) = none := free front (part ++ blank) (by rw [← List.append_assoc,← stripped,← whole]) line
    rw [none_of_fst (counterAt_barren wordy (barren_blank wordy spaces))] at before
    rwa [none_of_fst (counterAt_barren wordy (barren_blank wordy feeds))]

omit wordy region in
theorem findall_free (free : Free key start text) : findall key start 0 text = [] := by
  rw [List.eq_nil_iff_forall_not_mem]
  intro digits member
  obtain ⟨front,back,rest,split,line,matched⟩ := findall_line member
  rw [free front back split line] at matched
  contradiction

/-- A stamped body: its line is the first counter, and the others are those behind the first one of the old body. -/
theorem stamp_first (text : Text) : ∃ front rest, stamp key region.text text = front ++ (region.text ++ rest) ∧ LineStart true front ∧
    Free key true front ∧ rest.takeWhile isDigit = [] ∧ findall key false 0 rest = (findall key true 0 text).tail := by
  have divided := aboveCounter_divides key text true
  have free := divided_free wordy divided
  rcases divided.replaced region.text with ⟨missing,empty⟩ | ⟨old,rest,below,line,ends,replaced⟩
  · have whole := divided.whole
    rw [empty,List.append_nil] at whole
    rw [← whole] at free
    refine ⟨rstrip text ++ ['\n','\n'],['\n'],?_,.inr (by simp),free_stripped wordy free,by decide,?_⟩
    · simp [stamp,missing]
    · rw [findall_free free]
      rfl
  · have whole := divided.whole
    rw [below] at whole
    refine ⟨_,rest,?_,line,free,ends,?_⟩
    · simp [stamp,replaced]
    · conv_rhs => rw [whole]
      rw [findall_first wordy old free line ends]
      rfl

theorem findall_stamped :
    findall key true 0 (stamp key region.text text) = region.digits :: (findall key true 0 text).tail := by
  obtain ⟨front,rest,stamped,line,free,ends,others⟩ := stamp_first wordy region text
  rw [stamped,findall_first wordy region free line ends,others]

end

theorem findall_replaced {key other front rest digits : Text} (wordy : Wordy key) (wordyOther : Wordy other)
    (apart : Apart key other) (before after : Region key) (begins : LineStart true front)
    (found : digits ∈ findall other true 0 (front ++ (before.text ++ rest))) :
    digits ∈ findall other true 0 (front ++ (after.text ++ rest)) := by
  obtain ⟨place,back,left,split,line,matched⟩ := findall_line found
  rcases List.append_eq_append_iff.mp split with ⟨part,rfl,remains⟩ | ⟨part,rfl,rfl⟩
  · rcases region_passed wordy wordyOther apart before remains (lineStart_part line) with nothing | ⟨beyond,rfl,rfl,last⟩
    · rw [nothing] at matched
      contradiction
    · have again : LineStart true (front ++ (after.text ++ beyond)) := by
        have more : beyond ≠ [] := by
          rintro rfl
          contradiction
        refine .inr ?_
        rwa [← List.append_assoc,List.getLast?_append_of_ne_nil _ more]
      exact findall_mem wordyOther (by simp) again matched
  · rcases lineStart_part begins with rfl | last
    · rw [List.nil_append,region_silent wordy apart] at matched
      contradiction
    obtain ⟨earlier,rfl⟩ := List.getLast?_eq_some_iff.mp last
    have barren (region : Region key) : Barren other (['\n'] ++ (region.text ++ rest)) :=
      region_barren wordy apart region (by simp) newline_spaces rest
    rw [List.append_assoc] at matched
    obtain ⟨left,swapped⟩ := counterAt_swapped wordyOther (barren before) (barren after) matched
    exact findall_mem wordyOther (by simp) line swapped

/-- The other counter is found after a line is added if and only if it was found before. -/
theorem findall_added {key other text digits : Text} (wordy : Wordy key) (wordyOther : Wordy other)
    (apart : Apart key other) (added : Region key) :
    digits ∈ findall other true 0 (rstrip text ++ (['\n','\n'] ++ (added.text ++ ['\n']))) ↔
      digits ∈ findall other true 0 text := by
  obtain ⟨blank,whole,spaces⟩ := rstrip_append text
  have barren : Barren other (['\n','\n'] ++ (added.text ++ ['\n'])) :=
    region_barren wordy apart added (by simp) (by simp [newline_space]) _
  constructor
  · intro found
    obtain ⟨place,back,left,split,line,matched⟩ := findall_line found
    rcases List.append_eq_append_iff.mp split with ⟨part,rfl,remains⟩ | ⟨part,stripped,rfl⟩
    · have feeds : ∀ char ∈ ['\n','\n'], isSpace char = true := by simp [newline_space]
      have text : (added.below ['\n','\n'] feeds).text ++ ['\n'] = part ++ back := by
        rw [added.below_text,List.append_assoc,remains]
      have nothing : counterAt other back = none := by
        rcases region_passed wordy wordyOther apart _ text (lineStart_part line) with nothing | ⟨beyond,_,rest,last⟩
        · exact nothing
        · have empty : back = [] := by
            rcases List.append_eq_singleton_iff.mp rest.symm with ⟨rfl,_⟩ | ⟨_,empty⟩
            · simp at last
            · exact empty
          rw [counterAt,empty,(barren_nil wordyOther).missing]
          rfl
      rw [nothing] at matched
      contradiction
    · obtain ⟨left,swapped⟩ := counterAt_swapped wordyOther barren (barren_blank wordyOther spaces) matched
      refine findall_mem wordyOther ?_ line swapped
      rw [← List.append_assoc,← stripped,← whole]
  · intro found
    rw [whole] at found
    obtain ⟨place,back,left,split,line,matched⟩ := findall_line found
    rcases List.append_eq_append_iff.mp split with ⟨part,rfl,rfl⟩ | ⟨part,text,rfl⟩
    · have silent := (barren_blank wordyOther fun char member => spaces char (List.mem_append_right _ member)).missing
      rw [counterAt,silent] at matched
      contradiction
    · obtain ⟨left,swapped⟩ := counterAt_swapped wordyOther (barren_blank wordyOther spaces) barren matched
      rw [text]
      exact findall_mem wordyOther (List.append_assoc ..) line swapped

theorem stamp_cases (key line text : Text) :
    (∃ (front : Text) (region : Region key) (rest : Text), text = front ++ (region.text ++ rest) ∧
      LineStart true front ∧ stamp key line text = front ++ (line ++ rest)) ∨
    stamp key line text = rstrip text ++ (['\n','\n'] ++ (line ++ ['\n'])) := by
  have divided := aboveCounter_divides key text true
  rcases divided.replaced line with ⟨missing,_⟩ | ⟨region,rest,below,begins,_,replaced⟩
  · exact .inr (by simp [stamp,missing])
  · have whole := divided.whole
    rw [below] at whole
    exact .inl ⟨_,region,rest,whole,begins,by simp [stamp,replaced]⟩

/-- The stamp of one counter keeps every number of the other one, and adds none. -/
theorem findall_stamp {key other text digits : Text} (wordy : Wordy key) (wordyOther : Wordy other)
    (apart : Apart key other) (line : Region key) :
    digits ∈ findall other true 0 (stamp key line.text text) ↔ digits ∈ findall other true 0 text := by
  rcases stamp_cases key line.text text with ⟨front,region,rest,rfl,begins,stamped⟩ | stamped
  · rw [stamped]
    exact ⟨findall_replaced wordy wordyOther apart line region begins,findall_replaced wordy wordyOther apart region line begins⟩
  · rw [stamped]
    exact findall_added wordy wordyOther apart line

theorem stamp_other {key other text : Text} (wordy : Wordy key) (wordyOther : Wordy other) (apart : Apart key other)
    (line : Region key) : counter other (stamp key line.text text) = counter other text :=
  counter_same fun _ => findall_stamp wordy wordyOther apart line

theorem int_isSome {digits : Text} : (∃ n, int digits = some n) ↔ digits.length ≤ 4300 := by
  rw [int]
  split
  next short => simp [short]
  next long => simp [long]

theorem counter_isSome {key text : Text} :
    (∃ highest, counter key text = some highest) ↔ ∀ digits ∈ findall key true 0 text, digits.length ≤ 4300 := by
  simp only [counter,Option.map_eq_some_iff,← int_isSome]
  rw [← Options.mapM_isSome]
  constructor
  · rintro ⟨_,found,all,_⟩
    exact ⟨found,all⟩
  · rintro ⟨found,all⟩
    exact ⟨_,found,all,rfl⟩

section
variable {key text : Text} {n : Nat} (wordy : Wordy key) (line : Region key) (number : line.digits = decimalText n)
include wordy number

theorem stamp_own {text : Text} {highest : Nat} (read : counter key (stamp key line.text text) = some highest) : n ≤ highest := by
  have stamped : decimalText n ∈ findall key true 0 (stamp key line.text text) := by
    rw [findall_stamped wordy line,number]
    exact List.mem_cons_self
  obtain ⟨value,found,bound⟩ := counter_member read stamped
  rwa [int_decimalText found] at bound

/-- A stamp can be read back unless it or a counter behind the first one is too long for `int`. -/
theorem stamp_read (text : Text) : (∃ highest ∈ counter key (stamp key line.text text), n ≤ highest) ↔
    (decimalText n).length ≤ 4300 ∧ ∀ digits ∈ (findall key true 0 text).tail, digits.length ≤ 4300 := by
  have all : (∀ digits ∈ findall key true 0 (stamp key line.text text), digits.length ≤ 4300) ↔
      (decimalText n).length ≤ 4300 ∧ ∀ digits ∈ (findall key true 0 text).tail, digits.length ≤ 4300 := by
    rw [findall_stamped wordy line,number,List.forall_mem_cons]
  rw [← all,← counter_isSome]
  constructor
  · rintro ⟨highest,read,_⟩
    exact ⟨highest,read⟩
  · rintro ⟨highest,read⟩
    exact ⟨highest,read,stamp_own wordy line number read⟩

/-- A stamp that is read back reads as itself where no counter was higher. -/
theorem stamp_exact {highest : Nat} (read : counter key (stamp key line.text text) = some highest) (least : n ≤ highest)
    (lower : ∀ digits ∈ findall key true 0 text, ∀ value ∈ int digits, value ≤ n) :
    counter key (stamp key line.text text) = some n := by
  obtain ⟨found,all,same⟩ := Option.map_eq_some_iff.mp read
  have bound : found.foldl max 0 ≤ n := by
    rw [Options.foldl_max_le]
    refine ⟨Nat.zero_le n,?_⟩
    intro value member
    obtain ⟨digits,inside,value⟩ := Options.mem_mapM all member
    rw [findall_stamped wordy line,number] at inside
    rcases List.mem_cons.mp inside with rfl | old
    · exact (int_decimalText value).le
    · exact lower digits (List.mem_of_mem_tail old) _ value
  rw [read,← same,Nat.le_antisymm bound (same ▸ least)]

end

/-- The line that stamps a counter, as a match of its own pattern. -/
def stampLine {key : Text} (word : Text)
    (matched : List.Forall₂ (fun letter char => sameLetter letter char = true) key word) (n : Nat) : Region key where
  blank := []
  word := word
  gap := [' ']
  digits := decimalText n
  blankSpaces := nofun
  matched := matched
  gapSpaces := List.all_eq_true.mp (by decide)
  someDigits := decimalText_ne_nil
  allDigits := fun _ => decimalText_isDigit

theorem revisions_word :
    List.Forall₂ (fun letter char => sameLetter letter char = true) Issue.revisionsKey "Revisions:".toList := by
  decide

theorem recoveries_word :
    List.Forall₂ (fun letter char => sameLetter letter char = true) Issue.recoveriesKey "Recoveries:".toList := by
  decide

end Frankenrust.Orchestrator
