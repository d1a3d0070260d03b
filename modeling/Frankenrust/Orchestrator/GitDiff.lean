import Frankenrust.Library.Dict
import Frankenrust.Orchestrator.DiffStats
import Mathlib.Data.List.TakeWhile

/-! The text of a git diff, and when the parser reads its statistics off it. -/
namespace Frankenrust.Orchestrator.GitDiff
open DiffStats

/-- What git escapes in a name; under `core.quotePath`, its default, all that is not ASCII too. -/
def quotes (quotePath : Bool) (char : Char) : Bool :=
  char.toNat < 0x20 || char = '"' || char = '\\' || char.toNat = 0x7f || quotePath && 0x80 ≤ char.toNat

def octal (byte : UInt8) : Text := '\\' :: [byte.toNat / 64,byte.toNat / 8 % 8,byte.toNat % 8].map Nat.digitChar

def letters : List (Char × Char) :=
  [('\x07','a'),('\x08','b'),('\t','t'),('\n','n'),('\x0b','v'),('\x0c','f'),('\r','r'),('"','"'),('\\','\\')]

def escape (char : Char) : Text := match Dict.get char letters with
  | some letter => ['\\',letter]
  | none => (String.utf8EncodeChar char).flatMap octal

def shown (quotePath : Bool) (char : Char) : Text := if quotes quotePath char then escape char else [char]

/-- A name in a header, quoted where it holds a character that has to be escaped. -/
def nameIn (quotePath : Bool) (side : Char) (path : Text) : Text :=
  if path.any (quotes quotePath) then '"' :: side :: '/' :: path.flatMap (shown quotePath) ++ ['"'] else side :: '/' :: path

def names (quotePath : Bool) (old new : Text) : Text := nameIn quotePath 'a' old ++ ' ' :: nameIn quotePath 'b' new

inductive Sign where
  | context
  | added
  | removed
  deriving DecidableEq

def Sign.char : Sign → Char
  | .context => ' '
  | .added => '+'
  | .removed => '-'

structure HunkLine where
  sign : Sign
  text : Text
  oneLine : '\n' ∉ text

def HunkLine.render (line : HunkLine) : Text := line.sign.char :: line.text

/-- A hunk; its heading is what follows `@@`. -/
structure Hunk where
  heading : Text
  body : List HunkLine
  oneLine : '\n' ∉ heading

def Hunk.lines (hunk : Hunk) : List Text := ('@' :: '@' :: hunk.heading) :: hunk.body.map HunkLine.render

structure FileDiff where
  old : Text
  new : Text
  headers : List Text
  hunks : List Hunk
  extended : ∀ header ∈ headers, '\n' ∉ header ∧ isHeader header = false ∧ opensHunk header = false

namespace FileDiff
variable (quotePath : Bool) (file : FileDiff)

def names : Text := GitDiff.names quotePath file.old file.new

def hunkLines : List Text := file.hunks.flatMap Hunk.lines

def lines : List Text := (gitHeader ++ file.names quotePath) :: (file.headers ++ file.hunkLines)

def count (sign : Sign) : Nat := (file.hunks.flatMap Hunk.body).countP fun line => line.sign = sign

/-- The file's new path with the numbers of its added and removed lines. -/
def stat : Text × Nat × Nat := (file.new,file.count .added,file.count .removed)

end FileDiff

def rendered (quotePath : Bool) (files : List FileDiff) : Text :=
  (files.flatMap (FileDiff.lines quotePath)).flatMap (· ++ ['\n'])

section Names
variable {quotePath : Bool} {char : Char} {front back path old new : Text}

theorem octal_form (byte : UInt8) : ∀ other ∈ octal byte, other ≠ ' ' ∧ isBreak other = false := by
  have digit : ∀ n < 8, Nat.digitChar n ≠ ' ' ∧ isBreak (Nat.digitChar n) = false := by decide
  have bound : byte.toNat / 64 < 8 := by
    have := byte.toNat_lt
    omega
  intro other member
  rcases List.mem_cons.mp member with rfl | digits
  · decide
  · obtain ⟨n,among,rfl⟩ := List.mem_map.mp digits
    have small : n < 8 := by
      rcases List.mem_cons.mp among with rfl | among
      · exact bound
      · rcases List.mem_cons.mp among with rfl | among
        · exact Nat.mod_lt _ (by decide)
        · exact List.mem_singleton.mp among ▸ Nat.mod_lt _ (by decide)
    exact digit n small

/-- An escape starts with a backslash and holds neither blanks nor breaks. -/
theorem escape_form (char : Char) : (∃ rest, escape char = '\\' :: rest) ∧ ∀ other ∈ escape char, other ≠ ' ' ∧ isBreak other = false := by
  rw [escape]
  cases found : Dict.get char letters with
  | some letter =>
    have table : letters.all fun entry => entry.2 ≠ ' ' && !isBreak entry.2 := by decide
    have plain : letter ≠ ' ' ∧ isBreak letter = false := by
      simpa using List.all_eq_true.mp table (char,letter) (Dict.get_mem found)
    refine ⟨⟨[letter],rfl⟩,fun other member => ?_⟩
    rcases List.mem_cons.mp member with rfl | only
    · decide
    · exact List.mem_singleton.mp only ▸ plain
  | none =>
    refine ⟨?_,fun other member => ?_⟩
    · cases coded : String.utf8EncodeChar char with
      | nil =>
        have size := String.length_utf8EncodeChar char
        rw [coded] at size
        exact absurd size.symm (Char.utf8Size_pos char).ne'
      | cons byte rest => exact ⟨_,rfl⟩
    · obtain ⟨byte,_,within⟩ := List.mem_flatMap.mp member
      exact octal_form byte other within

theorem shown_form (quotePath : Bool) (char : Char) :
    shown quotePath char = [char] ∨ (∃ rest, shown quotePath char = '\\' :: rest) ∧ ' ' ∉ shown quotePath char := by
  rw [shown]
  split
  · exact .inr ⟨(escape_form char).1,fun blank => ((escape_form char).2 ' ' blank).1 rfl⟩
  · exact .inl rfl

/-- A character that starts an escaped name and is no backslash starts the name. -/
theorem escaped_head (other : char ≠ '\\') (same : path.flatMap (shown quotePath) = char :: back) :
    ∃ rest, path = char :: rest ∧ rest.flatMap (shown quotePath) = back := by
  cases path with
  | nil => cases same
  | cons first rest =>
    rw [List.flatMap_cons] at same
    rcases shown_form quotePath first with plain | ⟨⟨tail,escaped⟩,_⟩
    · rw [plain] at same
      cases same
      exact ⟨rest,rfl,rfl⟩
    · rw [escaped] at same
      exact absurd (List.cons.inj same).1.symm other

theorem separator_after (free : ' ' ∉ front) (within : separator <:+: front ++ back) : separator <:+: back := by
  induction front with
  | nil => exact within
  | cons first front ih =>
    rcases List.infix_cons_iff.mp within with starts | later
    · exact absurd (List.mem_cons.mpr (.inl (List.cons_prefix_cons.mp starts).1)) free
    · exact ih (fun blank => free (List.mem_cons_of_mem _ blank)) later

theorem separator_escaped (within : separator <:+: path.flatMap (shown quotePath)) : separator <:+: path := by
  induction path with
  | nil => exact within
  | cons first path ih =>
    rw [List.flatMap_cons] at within
    rcases shown_form quotePath first with plain | ⟨_,free⟩
    · rw [plain] at within
      rcases List.infix_cons_iff.mp within with ⟨tail,starts⟩ | later
      · obtain ⟨blank,letter⟩ := List.cons.inj starts
        obtain ⟨afterB,rfl,slash⟩ := escaped_head (by decide) letter.symm
        obtain ⟨rest,rfl,_⟩ := escaped_head (by decide) slash
        exact ⟨[],rest,by rw [← blank]; rfl⟩
      · exact List.infix_cons (ih later)
    · exact List.infix_cons (ih (separator_after free within))

theorem escaped_length (path : Text) : path.length ≤ (path.flatMap (shown quotePath)).length := by
  induction path with
  | nil => exact Nat.le_refl _
  | cons first path ih =>
    have some : 0 < (shown quotePath first).length := by
      rcases shown_form quotePath first with plain | ⟨⟨tail,escaped⟩,_⟩
      · rw [plain]
        exact Nat.one_pos
      · rw [escaped]
        exact Nat.succ_pos _
    rw [List.flatMap_cons,List.length_append,List.length_cons]
    omega

theorem separator_closed (within : separator <:+: path ++ ['"']) : separator <:+: path := by
  obtain ⟨front,back,same⟩ := within
  rcases List.eq_nil_or_concat back with rfl | ⟨rest,last,rfl⟩
  · rw [List.append_nil] at same
    have ends := congrArg List.getLast? same
    rw [List.getLast?_append,List.getLast?_append] at ends
    have letters : some '/' = some '"' := ends
    exact absurd (Option.some.inj letters) (by decide)
  · rw [List.concat_eq_append,← List.append_assoc] at same
    exact ⟨front,rest,(List.append_inj' same rfl).1⟩

/-- Only unquoted names, the new one without the separator, are read. -/
theorem reads_names : Reads (names quotePath old new) new ↔
    old.any (quotes quotePath) = false ∧ new.any (quotes quotePath) = false ∧ ¬separator <:+: new := by
  constructor
  · rintro (⟨front,same,last⟩ | ⟨same,_⟩)
    · rw [names,nameIn,nameIn] at same
      cases oldQuoted : old.any (quotes quotePath) with
      | true =>
        rw [oldQuoted] at same
        exact absurd (List.cons.inj same).1 (by decide)
      | false =>
        cases newQuoted : new.any (quotes quotePath) with
        | false => exact ⟨rfl,rfl,last⟩
        | true =>
          rw [oldQuoted,newQuoted] at same
          have longer : new.length ≤ (new.flatMap (shown quotePath)).length := escaped_length new
          -- The separator and the name after it end the header, before the `b/` of the quoted name starts.
          have ending : separator ++ new <:+ 'b' :: '/' :: (new.flatMap (shown quotePath) ++ ['"']) := by
            have ends : separator ++ new <:+ ['a','/'] ++ front ++ separator ++ new := ⟨['a','/'] ++ front,by simp⟩
            refine List.suffix_of_suffix_length_le ends ⟨'a' :: '/' :: old ++ [' ','"'],by rw [← same]; simp⟩ ?_
            simp [separator,-List.length_flatMap]
            omega
          have within : separator <:+: 'b' :: '/' :: (new.flatMap (shown quotePath) ++ ['"']) :=
            (List.prefix_append separator new).isInfix.trans ending.isInfix
          have deeper : separator <:+: new.flatMap (shown quotePath) ++ ['"'] := by
            by_contra apart
            exact separator_apart apart within
          exact absurd (separator_escaped (separator_closed deeper)) last
    · have lengths := congrArg List.length same
      have longer : new.length ≤ (new.flatMap (shown quotePath)).length := escaped_length new
      rw [names,nameIn,nameIn] at lengths
      split at lengths <;> split at lengths <;> simp [-List.length_flatMap] at lengths <;> omega
  · rintro ⟨oldPlain,newPlain,last⟩
    refine .inl ⟨old,?_,last⟩
    rw [names,nameIn,nameIn,oldPlain,newPlain]
    simp [separator]

theorem names_unbroken : ∀ char ∈ names true old new, isBreak char = false := by
  have plain : ∀ char, quotes true char = false → isBreak char = false := by
    intro char unquoted
    simp only [quotes,Bool.true_and,Bool.or_eq_false_iff,decide_eq_false_iff_not] at unquoted
    have low : 0x20 ≤ char.toNat := by omega
    have high : char.toNat < 0x80 := by omega
    simp only [isBreak,List.contains_eq_mem,decide_eq_false_iff_not,List.mem_cons,List.not_mem_nil,or_false]
    omega
  have name : ∀ side path, isBreak side = false → ∀ char ∈ nameIn true side path, isBreak char = false := by
    intro side path letter char member
    rw [nameIn] at member
    split at member
    next =>
      simp only [List.cons_append,List.mem_cons,List.mem_append,List.mem_flatMap,List.not_mem_nil,or_false] at member
      rcases member with rfl | rfl | rfl | ⟨from_path,_,within⟩ | rfl
      · rfl
      · exact letter
      · rfl
      · rw [shown] at within
        split at within
        · exact ((escape_form from_path).2 char within).2
        · rw [List.mem_singleton.mp within]
          exact plain from_path (by simpa using ‹¬quotes true from_path = true›)
      · rfl
    next unquoted =>
      rcases List.mem_cons.mp member with rfl | member
      · exact letter
      · rcases List.mem_cons.mp member with rfl | member
        · rfl
        · exact plain char (by simpa using List.any_eq_false.mp (Bool.not_eq_true _ ▸ unquoted) char member)
  intro char member
  rcases List.mem_append.mp member with first | second
  · exact name 'a' old rfl char first
  · rcases List.mem_cons.mp second with rfl | second
    · rfl
    · exact name 'b' new rfl char second

end Names

namespace FileDiff

/-- The new path is read: neither name is quoted or broken and the new one does not hold the
separator, or the header is broken where what stands before happens to read as that path. -/
def Named (quotePath : Bool) (file : FileDiff) : Prop :=
  file.old.any (quotes quotePath) = false ∧ file.new.any (quotes quotePath) = false ∧ ¬separator <:+: file.new ∧
      (∀ char ∈ file.names quotePath, isBreak char = false) ∨
    (∃ char ∈ file.names quotePath, isBreak char) ∧ Reads (firstPiece (file.names quotePath)) file.new

/-- What stands before the first hunk, but for the header's start. -/
def preamble (quotePath : Bool) (file : FileDiff) : List Text :=
  continued (gitHeader ++ file.names quotePath) ++ file.headers.flatMap pieces

/-- No line of the file goes on with a header after a break. -/
def Single (quotePath : Bool) (file : FileDiff) : Prop :=
  ∀ line ∈ file.lines quotePath, ∀ piece ∈ continued line, isHeader piece = false

/-- No hunk seems to open before the first one with something to count after it. -/
def Quiet (quotePath : Bool) (file : FileDiff) : Prop :=
  (file.preamble quotePath).Pairwise fun mark line => opensHunk mark → ¬(signed '+' line ∨ signed '-' line)

/-- No line of a hunk, nor its heading, goes on with a sign after a break. -/
def Uncounted (file : FileDiff) : Prop :=
  ∀ line ∈ file.hunkLines, ∀ piece ∈ continued line, ¬(signed '+' piece ∨ signed '-' piece)

structure Readable (quotePath : Bool) (file : FileDiff) : Prop where
  named : file.Named quotePath
  single : file.Single quotePath
  quiet : file.Quiet quotePath
  uncounted : file.Uncounted

def block (quotePath : Bool) (file : FileDiff) : Text × List Text :=
  (firstPiece (gitHeader ++ file.names quotePath),file.preamble quotePath ++ file.hunkLines.flatMap pieces)

end FileDiff

section Sections
variable {quotePath : Bool} {file : FileDiff} {files : List FileDiff} {mark line : Text} {sign : Char}

theorem firstPiece_append (whole : mark.all fun char => !isBreak char) (rest : Text) :
    firstPiece (mark ++ rest) = mark ++ firstPiece rest :=
  List.takeWhile_append_of_pos (List.all_eq_true.mp whole)

theorem mark_firstPiece (whole : mark.all fun char => !isBreak char) : mark <+: firstPiece line ↔ mark <+: line := by
  constructor
  · exact fun there => there.trans (List.takeWhile_prefix _)
  · rintro ⟨rest,rfl⟩
    rw [firstPiece_append whole]
    exact List.prefix_append ..

theorem isHeader_firstPiece (line : Text) : isHeader (firstPiece line) = isHeader line :=
  decide_eq_decide.mpr (mark_firstPiece (by decide))

theorem signed_firstPiece (unbroken : isBreak sign = false) (line : Text) : signed sign (firstPiece line) = signed sign line :=
  decide_eq_decide.mpr (mark_firstPiece (by simpa using unbroken))

theorem pieces_lines (lines : List Text) : pieces (lines.flatMap (· ++ ['\n'])) = lines.flatMap pieces ++ [[]] := by
  induction lines with
  | nil => rfl
  | cons line lines ih =>
    rw [List.flatMap_cons,List.append_assoc,pieces,List.singleton_append,List.splitOnP_append_cons line _ rfl]
    show _ ++ pieces _ = _
    rw [ih,List.flatMap_cons,List.append_assoc]

theorem block_pieces (quotePath : Bool) (file : FileDiff) :
    (file.lines quotePath).flatMap pieces = (file.block quotePath).1 :: (file.block quotePath).2 := by
  rw [FileDiff.lines,List.flatMap_cons,pieces_eq (gitHeader ++ file.names quotePath),List.flatMap_append,FileDiff.block,
    FileDiff.preamble]
  simp

theorem stats_blocks (quotePath : Bool) (files : List FileDiff) : diffFileStats (rendered quotePath files) =
    flush (((files.map (FileDiff.block quotePath)).flatMap fun one => one.1 :: one.2).foldl step ⟨[],none,0,0,false⟩) := by
  have flattened : (files.flatMap (FileDiff.lines quotePath)).flatMap pieces =
      (files.map (FileDiff.block quotePath)).flatMap fun one => one.1 :: one.2 := by
    rw [List.flatMap_assoc,List.flatMap_map]
    simp only [block_pieces]
  rw [diffFileStats_pieces,rendered,pieces_lines,List.foldl_append,flattened,List.foldl_cons,List.foldl_nil,step_nil]

theorem block_header (file : FileDiff) : isHeader (file.block quotePath).1 :=
  (isHeader_firstPiece _).trans (decide_eq_true (List.prefix_append ..))

theorem line_plain (member : line ∈ file.headers ++ file.hunkLines) : isHeader line = false := by
  rcases List.mem_append.mp member with extended | within
  · exact (file.extended line extended).2.1
  · obtain ⟨hunk,_,among⟩ := List.mem_flatMap.mp within
    have starts : ∀ (char : Char) (rest : Text), char ≠ 'd' → isHeader (char :: rest) = false := by
      intro char rest other
      exact decide_eq_false fun header => other (List.cons_prefix_cons.mp header).1.symm
    rcases List.mem_cons.mp among with rfl | body
    · exact starts _ _ (by decide)
    · obtain ⟨text,_,rfl⟩ := List.mem_map.mp body
      exact starts _ _ (by cases text.sign <;> decide)

theorem pieces_plain {lines : List Text} (plain : ∀ line ∈ lines, isHeader line = false) :
    (∀ piece ∈ lines.flatMap pieces, isHeader piece = false) ↔ ∀ line ∈ lines, ∀ piece ∈ continued line, isHeader piece = false := by
  constructor
  · intro none line member piece later
    exact none piece (List.mem_flatMap.mpr ⟨line,member,pieces_eq line ▸ List.mem_cons_of_mem _ later⟩)
  · intro none piece member
    obtain ⟨line,among,within⟩ := List.mem_flatMap.mp member
    rw [pieces_eq] at within
    rcases List.mem_cons.mp within with rfl | later
    · exact (isHeader_firstPiece line).trans (plain line among)
    · exact none line among piece later

theorem single_block (file : FileDiff) : file.Single quotePath ↔ ∀ piece ∈ (file.block quotePath).2, isHeader piece = false := by
  have body : (file.block quotePath).2 = continued (gitHeader ++ file.names quotePath) ++
      (file.headers ++ file.hunkLines).flatMap pieces := by
    rw [List.flatMap_append,← List.append_assoc]
    rfl
  rw [body,List.forall_mem_append,pieces_plain fun line member => line_plain member]
  exact List.forall_mem_cons

/-- A file of its own for each header, and there is at least one for each file. -/
theorem exact_single (exact : diffFileStats (rendered quotePath files) = files.map FileDiff.stat) :
    ∀ file ∈ files, file.Single quotePath := by
  have counted : ∀ files : List FileDiff,
      ((files.map (FileDiff.block quotePath)).flatMap fun one => one.1 :: one.2).countP isHeader =
        files.length + (files.flatMap fun file => (file.block quotePath).2).countP isHeader := by
    intro files
    induction files with
    | nil => rfl
    | cons file files ih =>
      rw [List.map_cons,List.flatMap_cons,List.countP_append,ih,List.countP_cons,if_pos (block_header file),
        List.flatMap_cons,List.countP_append,List.length_cons]
      omega
  have lengths := congrArg List.length exact
  rw [stats_blocks,fold_length,counted,List.length_map] at lengths
  have none : (files.flatMap fun file => (file.block quotePath).2).countP isHeader = 0 := by
    simpa [flush] using lengths
  intro file member
  refine (single_block file).mpr fun piece within => ?_
  exact Bool.not_eq_true _ ▸ List.countP_eq_zero.mp none piece (List.mem_flatMap.mpr ⟨file,member,within⟩)

theorem stats_single (single : ∀ file ∈ files, file.Single quotePath) : diffFileStats (rendered quotePath files) =
    files.map fun file => (headerPath (file.block quotePath).1,tally '+' false (file.block quotePath).2,
      tally '-' false (file.block quotePath).2) := by
  rw [stats_blocks,fold_sections]
  · simp [flush]
  · intro one member
    obtain ⟨file,among,rfl⟩ := List.mem_map.mp member
    exact ⟨block_header file,(single_block file).mp (single file among)⟩

theorem header_read (file : FileDiff) : headerPath (file.block quotePath).1 = file.new ↔ file.Named quotePath := by
  have prefixed : (file.block quotePath).1 = gitHeader ++ firstPiece (file.names quotePath) := firstPiece_append (by decide) _
  rw [prefixed,headerPath_reads,FileDiff.Named]
  by_cases broken : ∃ char ∈ file.names quotePath, isBreak char
  · have some : ¬∀ char ∈ file.names quotePath, isBreak char = false := by
      obtain ⟨char,member,ends⟩ := broken
      exact fun none => absurd ends (by rw [none char member]; decide)
    simp only [some,and_false,false_or,broken,true_and]
  · have none : ∀ char ∈ file.names quotePath, isBreak char = false :=
      fun char member => Bool.not_eq_true _ ▸ fun ends => broken ⟨char,member,ends⟩
    have whole : firstPiece (file.names quotePath) = file.names quotePath :=
      List.takeWhile_eq_self_iff.mpr fun char member => by rw [none char member]; rfl
    simp only [whole,broken,false_and,or_false]
    exact (reads_names).trans ⟨fun ⟨old,new,last⟩ => ⟨old,new,last,none⟩,fun ⟨old,new,last,_⟩ => ⟨old,new,last⟩⟩

theorem signed_render (sign : Sign) (line : HunkLine) : signed sign.char line.render = decide (line.sign = sign) := by
  have apart : ∀ one other : Sign, one.char = other.char ↔ other = one := by
    intro one other
    cases one <;> cases other <;> decide
  refine decide_eq_decide.mpr ?_
  rw [HunkLine.render,List.cons_prefix_cons]
  simpa using apart sign line.sign

theorem signed_lines (sign : Sign) (file : FileDiff) : file.hunkLines.countP (signed sign.char) = file.count sign := by
  have hunk : ∀ hunk : Hunk, hunk.lines.countP (signed sign.char) = hunk.body.countP fun line => line.sign = sign := by
    intro hunk
    have heading : signed sign.char ('@' :: '@' :: hunk.heading) = false := by cases sign <;> rfl
    rw [Hunk.lines,List.countP_cons_of_neg (by simp [heading]),List.countP_map]
    exact List.countP_congr fun line _ => by rw [Function.comp_apply,signed_render]
  rw [FileDiff.hunkLines,FileDiff.count]
  induction file.hunks with
  | nil => rfl
  | cons first hunks ih => rw [List.flatMap_cons,List.flatMap_cons,List.countP_append,List.countP_append,ih,hunk]

theorem countP_pieces (counts : Text → Bool) (lines : List Text) : (lines.flatMap pieces).countP counts =
    (lines.map firstPiece).countP counts + (lines.flatMap continued).countP counts := by
  induction lines with
  | nil => rfl
  | cons line lines ih =>
    rw [List.flatMap_cons,List.countP_append,ih,pieces_eq,List.map_cons,List.flatMap_cons,List.countP_cons,List.countP_append,
      List.countP_cons]
    omega

/-- In the hunks every piece with the sign is counted, since a heading opens each of them. -/
theorem tally_hunks (file : FileDiff) (inHunk : Bool) (letter : sign ≠ '@') :
    tally sign inHunk (file.hunkLines.flatMap pieces) = (file.hunkLines.flatMap pieces).countP (signed sign) := by
  rw [FileDiff.hunkLines]
  cases file.hunks with
  | nil => rfl
  | cons hunk hunks =>
    have opens : opensHunk (firstPiece ('@' :: '@' :: hunk.heading)) :=
      decide_eq_true ((mark_firstPiece (by decide)).mpr ⟨hunk.heading,rfl⟩)
    rw [List.flatMap_cons,Hunk.lines,List.cons_append,List.flatMap_cons,pieces_eq,List.cons_append,tally,if_pos opens,
      ← tally_inside _ letter,tally,if_pos opens]

theorem tally_block (file : FileDiff) (sign : Sign) : tally sign.char false (file.block quotePath).2 =
    tally sign.char false (file.preamble quotePath) +
      (file.count sign + (file.hunkLines.flatMap continued).countP (signed sign.char)) := by
  have letter : sign.char ≠ '@' := by cases sign <;> decide
  have unbroken : isBreak sign.char = false := by cases sign <;> rfl
  have firsts : (file.hunkLines.map firstPiece).countP (signed sign.char) = file.count sign := by
    rw [List.countP_map,← signed_lines]
    exact List.countP_congr fun line _ => by rw [Function.comp_apply,signed_firstPiece unbroken]
  rw [FileDiff.block,tally_append,tally_hunks file _ letter,countP_pieces,firsts]

theorem counts_exact (file : FileDiff) : tally '+' false (file.block quotePath).2 = file.count .added ∧
    tally '-' false (file.block quotePath).2 = file.count .removed ↔ file.Quiet quotePath ∧ file.Uncounted := by
  have added : tally '+' false (file.block quotePath).2 = _ := tally_block file .added
  have removed : tally '-' false (file.block quotePath).2 = _ := tally_block file .removed
  have both : tally '+' false (file.block quotePath).2 = file.count .added ∧
      tally '-' false (file.block quotePath).2 = file.count .removed ↔
        (tally '+' false (file.preamble quotePath) = 0 ∧ tally '-' false (file.preamble quotePath) = 0) ∧
          (file.hunkLines.flatMap continued).countP (signed '+') = 0 ∧ (file.hunkLines.flatMap continued).countP (signed '-') = 0 := by
    rw [added,removed]
    simp only [Sign.char]
    omega
  rw [both,tally_eq_zero (by decide),tally_eq_zero (by decide),List.countP_eq_zero,List.countP_eq_zero]
  have quiet : file.Quiet quotePath ↔
      ((file.preamble quotePath).Pairwise fun mark line => opensHunk mark → ¬signed '+' line) ∧
        (file.preamble quotePath).Pairwise fun mark line => opensHunk mark → ¬signed '-' line := by
    rw [FileDiff.Quiet,← List.pairwise_and_iff]
    simp only [not_or,imp_and]
  have uncounted : file.Uncounted ↔ (∀ piece ∈ file.hunkLines.flatMap continued, ¬signed '+' piece) ∧
      ∀ piece ∈ file.hunkLines.flatMap continued, ¬signed '-' piece := by
    simp only [FileDiff.Uncounted,List.mem_flatMap,not_or,forall_exists_index,and_imp]
    exact ⟨fun none => ⟨fun piece line member later => (none line member piece later).1,
      fun piece line member later => (none line member piece later).2⟩,
      fun none line member piece later => ⟨none.1 piece line member later,none.2 piece line member later⟩⟩
  rw [quiet,uncounted]

end Sections

theorem diffFileStats_exact (quotePath : Bool) (files : List FileDiff) :
    diffFileStats (rendered quotePath files) = files.map FileDiff.stat ↔ ∀ file ∈ files, file.Readable quotePath := by
  have each : ∀ file : FileDiff, (headerPath (file.block quotePath).1,tally '+' false (file.block quotePath).2,
      tally '-' false (file.block quotePath).2) = file.stat ↔ file.Named quotePath ∧ file.Quiet quotePath ∧ file.Uncounted := by
    intro file
    rw [FileDiff.stat,Prod.mk.injEq,Prod.mk.injEq,header_read,counts_exact]
  constructor
  · intro exact
    have single := exact_single exact
    rw [stats_single single] at exact
    intro file member
    obtain ⟨named,quiet,uncounted⟩ := (each file).mp (List.map_inj_left.mp exact file member)
    exact ⟨named,single file member,quiet,uncounted⟩
  · intro readable
    rw [stats_single fun file member => (readable file member).single]
    refine List.map_inj_left.mpr fun file member => (each file).mpr ?_
    exact ⟨(readable file member).named,(readable file member).quiet,(readable file member).uncounted⟩

def formFeed : FileDiff where
  old := ['f']
  new := ['f']
  headers := ["--- a/f".toList,"+++ b/f".toList]
  hunks := [⟨" -0,0 +1 @@".toList,[⟨.added,['x','\x0c','+','y'],by decide⟩],by decide⟩]
  extended := by decide

theorem formFeed_counted_twice : diffFileStats (rendered true [formFeed]) = [(['f'],2,0)] ∧
    [formFeed].map FileDiff.stat = [(['f'],1,0)] ∧
    ¬diffFileStats (rendered true [formFeed]) = [formFeed].map FileDiff.stat := by
  decide +kernel

section Unbroken
variable {quotePath : Bool} {file : FileDiff}

theorem named_default : file.Named true ↔
    file.old.any (quotes true) = false ∧ file.new.any (quotes true) = false ∧ ¬separator <:+: file.new := by
  constructor
  · rintro (⟨old,new,last,_⟩ | ⟨⟨char,member,ends⟩,_⟩)
    · exact ⟨old,new,last⟩
    · exact absurd ends (by rw [names_unbroken char member]; decide)
  · rintro ⟨old,new,last⟩
    exact .inl ⟨old,new,last,names_unbroken⟩

/-- Where lines end in line feeds only, it is all about the names. -/
theorem readable_unbroken (unbroken : ∀ line ∈ file.lines quotePath, ∀ char ∈ line, isBreak char = false) : file.Readable quotePath ↔
    file.old.any (quotes quotePath) = false ∧ file.new.any (quotes quotePath) = false ∧ ¬separator <:+: file.new := by
  have whole : ∀ line ∈ file.lines quotePath, continued line = [] := by
    intro line member
    rw [continued,pieces,List.splitOnP_eq_singleton (unbroken line member)]
    rfl
  have plain : ∀ char ∈ file.names quotePath, isBreak char = false :=
    fun char member => unbroken _ List.mem_cons_self char (List.mem_append_right _ member)
  constructor
  · intro readable
    rcases readable.named with ⟨old,new,last,_⟩ | ⟨⟨char,member,ends⟩,_⟩
    · exact ⟨old,new,last⟩
    · exact absurd ends (by rw [plain char member]; decide)
  · rintro ⟨old,new,last⟩
    refine ⟨.inl ⟨old,new,last,plain⟩,fun line member piece later => ?_,?_,fun line member piece later => ?_⟩
    · rw [whole line member] at later
      cases later
    · refine List.pairwise_of_forall_mem_list fun mark among _ _ opens => absurd opens ?_
      rcases List.mem_append.mp among with later | extended
      · rw [whole _ List.mem_cons_self] at later
        cases later
      · obtain ⟨header,member,within⟩ := List.mem_flatMap.mp extended
        rw [pieces_eq,whole header (List.mem_cons_of_mem _ (List.mem_append_left _ member))] at within
        rw [List.mem_singleton.mp within,opensHunk,decide_eq_true_eq,mark_firstPiece (by decide)]
        exact of_decide_eq_false (file.extended header member).2.2
    · rw [whole line (List.mem_cons_of_mem _ (List.mem_append_right _ member))] at later
      cases later

end Unbroken

end Frankenrust.Orchestrator.GitDiff
