import Frankenrust.Orchestrator.Text
import Mathlib.Data.List.Basic

/-! `diff_file_stats`: the parser that reads off a diff which files it holds and how many lines
each adds and removes. -/
namespace Frankenrust.Orchestrator.DiffStats

/-- Where `str.splitlines` ends a line. -/
def isBreak (char : Char) : Bool := [0xa,0xb,0xc,0xd,0x1c,0x1d,0x1e,0x85,0x2028,0x2029].contains char.toNat

/-- `splitlines` with the characters of the line so far, the last first. -/
def splitlinesFrom : Text → Text → List Text
  | [], line => if line = [] then [] else [line.reverse]
  | '\r' :: '\n' :: rest, line => line.reverse :: splitlinesFrom rest []
  | char :: rest, line => if isBreak char then line.reverse :: splitlinesFrom rest [] else splitlinesFrom rest (char :: line)
termination_by structural text => text

def splitlines (text : Text) : List Text := splitlinesFrom text []

def gitHeader : Text := "diff --git ".toList
def separator : Text := " b/".toList

/-- What follows the last separator: the second group of `(.*) b/(.*)`, whose first is greedy. -/
def afterLast : Text → Option Text
  | [] => none
  | char :: rest => (afterLast rest).or (if separator <+: char :: rest then some (rest.drop 2) else none)

/-- The path of a header: `^diff --git a/(.*) b/(.*)$`, or all that follows where that does not match. -/
def headerPath (line : Text) : Text :=
  let names := line.drop gitHeader.length
  (if ['a','/'] <+: names then afterLast (names.drop 2) else none).getD names

structure Parse where
  stats : List (Text × Nat × Nat)
  path : Option Text
  added : Nat
  removed : Nat
  inHunk : Bool

def flush (parse : Parse) : List (Text × Nat × Nat) := match parse.path with
  | none => parse.stats
  | some path => parse.stats ++ [(path,parse.added,parse.removed)]

def isHeader (line : Text) : Bool := gitHeader <+: line
def opensHunk (line : Text) : Bool := ['@','@'] <+: line
def signed (sign : Char) (line : Text) : Bool := [sign] <+: line

/-- The loop's body. -/
def step (parse : Parse) (line : Text) : Parse :=
  if isHeader line then ⟨flush parse,some (headerPath line),0,0,false⟩
  else if opensHunk line then {parse with inHunk := true}
  else if parse.inHunk && signed '+' line then {parse with added := parse.added + 1}
  else if parse.inHunk && signed '-' line then {parse with removed := parse.removed + 1}
  else parse

def diffFileStats (diff : Text) : List (Text × Nat × Nat) := flush ((splitlines diff).foldl step ⟨[],none,0,0,false⟩)

section Lines
variable {text line : Text}

abbrev pieces (text : Text) : List Text := text.splitOnP isBreak

/-- What a line goes on with after its breaks. -/
def continued (line : Text) : List Text := (pieces line).tail

def firstPiece (line : Text) : Text := line.takeWhile fun char => !isBreak char

theorem pieces_eq (line : Text) : pieces line = firstPiece line :: continued line := by
  have head : (pieces line).head? = some (firstPiece line) := by
    induction line with
    | nil => rfl
    | cons char line ih =>
      rw [pieces,List.splitOnP_cons_eq_if_modifyHead,firstPiece,List.takeWhile_cons]
      cases ends : isBreak char with
      | true => rfl
      | false =>
        obtain ⟨first,rest,split⟩ := List.exists_cons_of_ne_nil (List.splitOnP_ne_nil isBreak line)
        rw [pieces,split] at ih
        simpa [split,firstPiece] using ih
  obtain ⟨first,rest,split⟩ := List.exists_cons_of_ne_nil (List.splitOnP_ne_nil isBreak line)
  rw [continued,pieces,split]
  rw [pieces,split] at head
  exact congrArg (· :: rest) (Option.some.inj head)

/-- The pieces are the lines, but for empty ones: `\r\n` is one break, and a last break ends the text. -/
theorem splitlinesFrom_pieces (unbroken : ∀ char ∈ line, isBreak char = false) :
    (splitlinesFrom text line).filter (· ≠ []) = (pieces (line.reverse ++ text)).filter (· ≠ []) := by
  have whole : ∀ char ∈ line.reverse, isBreak char = false := fun char member => unbroken char (List.mem_reverse.mp member)
  induction text,line using splitlinesFrom.induct with
  | case1 => simp [splitlinesFrom]
  | case2 line some =>
    rw [splitlinesFrom,if_neg some,List.append_nil,pieces,List.splitOnP_eq_singleton whole]
  | case3 rest line ih =>
    rw [splitlinesFrom,pieces,List.splitOnP_append_cons_of_forall_mem whole '\r' rfl,List.filter_cons,List.filter_cons,
      ih (by simp) (by simp)]
    rfl
  | case4 char rest line single ends ih =>
    rw [splitlinesFrom,if_pos ends,pieces,List.splitOnP_append_cons_of_forall_mem whole char ends,List.filter_cons,
      List.filter_cons,ih (by simp) (by simp)]
    · rfl
    · exact single
  | case5 char rest line single goes ih =>
    have longer : ∀ other ∈ char :: line, isBreak other = false := by
      simpa [goes] using unbroken
    rw [splitlinesFrom,if_neg goes,ih longer fun other member => longer other (List.mem_reverse.mp member)]
    · simp
    · exact single

end Lines

section Fold
variable {parse : Parse} {sign : Char} {lines : List Text} {line : Text}

theorem step_header (header : isHeader line) : step parse line = ⟨flush parse,some (headerPath line),0,0,false⟩ := if_pos header

theorem step_nil : step parse [] = parse := by
  have silent : ∀ sign, signed sign [] = false := fun sign => rfl
  rw [step,if_neg (by decide),if_neg (by decide),silent,silent,Bool.and_false]
  rfl

theorem fold_nonempty (lines : List Text) (parse : Parse) : (lines.filter (· ≠ [])).foldl step parse = lines.foldl step parse := by
  induction lines generalizing parse with
  | nil => rfl
  | cons line lines ih =>
    by_cases empty : line = []
    · subst empty
      rw [List.foldl_cons,step_nil,← ih]
      rfl
    · rw [List.filter_cons,if_pos (by simpa using empty),List.foldl_cons,List.foldl_cons,ih]

theorem diffFileStats_pieces (diff : Text) : diffFileStats diff = flush ((pieces diff).foldl step ⟨[],none,0,0,false⟩) := by
  have same : (splitlinesFrom diff []).filter (· ≠ []) = (pieces diff).filter (· ≠ []) := splitlinesFrom_pieces (by simp)
  rw [diffFileStats,splitlines,← fold_nonempty,same,fold_nonempty]

def tally (sign : Char) : Bool → List Text → Nat
  | _, [] => 0
  | inHunk, line :: lines =>
    if opensHunk line then tally sign true lines
    else (if inHunk && signed sign line then 1 else 0) + tally sign inHunk lines

theorem fold_body (plain : ∀ line ∈ lines, isHeader line = false) : lines.foldl step parse =
    {parse with
      added := parse.added + tally '+' parse.inHunk lines
      removed := parse.removed + tally '-' parse.inHunk lines
      inHunk := parse.inHunk || lines.any opensHunk} := by
  induction lines generalizing parse with
  | nil => simp [tally]
  | cons line lines ih =>
    have other : isHeader line = false := plain line List.mem_cons_self
    rw [List.foldl_cons,ih fun line member => plain line (List.mem_cons_of_mem _ member),step,if_neg (by simp [other])]
    cases opening : opensHunk line with
    | true => simp [tally,opening]
    | false =>
      have apart : signed '+' line = true → signed '-' line = false := by
        cases line with
        | nil => simp [signed]
        | cons char line =>
          intro plus
          have same : '+' = char := by simpa [signed] using plus
          simp [signed,← same]
      cases inside : parse.inHunk with
      | false => simp [tally,opening,inside]
      | true =>
        cases plus : signed '+' line with
        | true => simp [tally,opening,plus,apart plus,Nat.add_assoc]
        | false =>
          cases minus : signed '-' line with
          | true => simp [tally,opening,plus,minus,Nat.add_assoc]
          | false => simp [tally,opening,inside,plus,minus]

/-- One more file for every header. -/
theorem fold_length (lines : List Text) (parse : Parse) :
    (flush (lines.foldl step parse)).length = (flush parse).length + lines.countP isHeader := by
  induction lines generalizing parse with
  | nil => rfl
  | cons line lines ih =>
    rw [List.foldl_cons,ih,List.countP_cons]
    cases header : isHeader line with
    | true =>
      rw [step_header header]
      simp [flush]
      omega
    | false =>
      have same : (flush (step parse line)).length = (flush parse).length := by
        have alone : ∀ other ∈ [line], isHeader other = false := by simpa using header
        have whole : [line].foldl step parse = _ := fold_body alone
        rw [List.foldl_cons,List.foldl_nil] at whole
        rw [whole,flush,flush]
        cases parse.path <;> simp
      simp [same]

theorem fold_sections (sections : List (Text × List Text))
    (headed : ∀ one ∈ sections, isHeader one.1 ∧ ∀ line ∈ one.2, isHeader line = false) (parse : Parse) :
    flush ((sections.flatMap fun one => one.1 :: one.2).foldl step parse) =
      flush parse ++ sections.map fun one => (headerPath one.1,tally '+' false one.2,tally '-' false one.2) := by
  induction sections generalizing parse with
  | nil => simp
  | cons one sections ih =>
    obtain ⟨header,plain⟩ := headed one List.mem_cons_self
    rw [List.flatMap_cons,List.foldl_append,List.foldl_cons,step_header header,fold_body plain,
      ih fun other member => headed other (List.mem_cons_of_mem _ member)]
    simp [flush]

theorem tally_inside (lines : List Text) (letter : sign ≠ '@') : tally sign true lines = lines.countP (signed sign) := by
  induction lines with
  | nil => rfl
  | cons line lines ih =>
    rw [tally,ih,List.countP_cons]
    cases opening : opensHunk line with
    | true =>
      obtain ⟨rest,rfl⟩ := of_decide_eq_true opening
      simp [signed,letter]
    | false => simp [Nat.add_comm]

theorem tally_append (front back : List Text) (inHunk : Bool) :
    tally sign inHunk (front ++ back) = tally sign inHunk front + tally sign (inHunk || front.any opensHunk) back := by
  induction front generalizing inHunk with
  | nil => simp [tally]
  | cons line front ih =>
    rw [List.cons_append,tally,tally,ih,ih,List.any_cons]
    cases opensHunk line <;> simp [Nat.add_assoc]

/-- Nothing is counted exactly where no line with the sign comes after one that opens a hunk. -/
theorem tally_eq_zero (letter : sign ≠ '@') :
    tally sign false lines = 0 ↔ lines.Pairwise fun mark line => opensHunk mark → ¬signed sign line := by
  induction lines with
  | nil => simp [tally]
  | cons line lines ih =>
    rw [tally,List.pairwise_cons]
    cases opening : opensHunk line with
    | true =>
      rw [if_pos rfl,tally_inside lines letter,List.countP_eq_zero]
      refine ⟨fun none => ⟨fun other member _ => none other member,?_⟩,fun none other member => none.1 other member rfl⟩
      exact List.pairwise_of_forall_mem_list fun _ _ other member _ => none other member
    | false => simp [ih]

end Fold

section Headers
variable {text back name : Text}

theorem afterLast_eq_none : afterLast text = none ↔ ¬separator <:+: text := by
  induction text with
  | nil => simp [afterLast,separator]
  | cons char rest ih =>
    rw [afterLast,List.infix_cons_iff,not_or,Option.or_eq_none_iff,ih,and_comm]
    refine and_congr_left fun _ => ?_
    by_cases there : separator <+: char :: rest
    · simp [there]
    · simp [there]

theorem separator_apart (last : ¬separator <:+: back) : ¬separator <:+: 'b' :: '/' :: back := by
  rw [List.infix_cons_iff,List.infix_cons_iff]
  rintro (front | front | within)
  · exact absurd (List.cons_prefix_cons.mp front).1 (by decide)
  · exact absurd (List.cons_prefix_cons.mp front).1 (by decide)
  · exact last within

theorem afterLast_eq_some : afterLast text = some back ↔ (∃ front, text = front ++ separator ++ back) ∧ ¬separator <:+: back := by
  constructor
  · intro found
    induction text with
    | nil => cases found
    | cons char rest ih =>
      rcases Option.or_eq_some_iff.mp found with later | ⟨none,here⟩
      · obtain ⟨⟨front,rfl⟩,last⟩ := ih later
        exact ⟨⟨char :: front,rfl⟩,last⟩
      · split at here
        next there =>
          obtain ⟨after,whole⟩ := there
          cases whole
          cases here
          refine ⟨⟨[],rfl⟩,fun within => afterLast_eq_none.mp none ?_⟩
          exact List.infix_cons (List.infix_cons within)
        next => cases here
  · rintro ⟨⟨front,rfl⟩,last⟩
    induction front with
    | nil =>
      have none := afterLast_eq_none.mpr (separator_apart last)
      show (afterLast ('b' :: '/' :: back)).or _ = _
      rw [none,if_pos ⟨back,rfl⟩]
      rfl
    | cons char front ih =>
      rw [List.cons_append,List.cons_append,afterLast,ih]
      rfl

/-- What has to stand after `diff --git ` for the name to be read. -/
def Reads (names name : Text) : Prop :=
  (∃ front, names = ['a','/'] ++ front ++ separator ++ name ∧ ¬separator <:+: name) ∨
    names = name ∧ ¬∃ front back, names = ['a','/'] ++ front ++ separator ++ back

theorem headerPath_reads (names : Text) : headerPath (gitHeader ++ names) = name ↔ Reads names name := by
  rw [headerPath,List.drop_left]
  by_cases prefixed : ['a','/'] <+: names
  · obtain ⟨rest,rfl⟩ := prefixed
    rw [if_pos ⟨rest,rfl⟩]
    show (afterLast rest).getD _ = name ↔ _
    cases found : afterLast rest with
    | none =>
      have nowhere := afterLast_eq_none.mp found
      have never : ¬∃ front back, ['a','/'] ++ rest = ['a','/'] ++ front ++ separator ++ back := by
        rintro ⟨front,back,same⟩
        exact nowhere ⟨front,back,by simpa using same.symm⟩
      refine ⟨fun same => .inr ⟨same,never⟩,?_⟩
      rintro (⟨front,same,_⟩ | ⟨same,_⟩)
      · exact absurd ⟨front,name,same⟩ never
      · exact same
    | some back =>
      obtain ⟨⟨front,rfl⟩,last⟩ := afterLast_eq_some.mp found
      refine ⟨?_,?_⟩
      · rintro rfl
        exact .inl ⟨front,by simp,last⟩
      · rintro (⟨other,same,lastName⟩ | ⟨_,never⟩)
        · have again : afterLast (front ++ separator ++ back) = some name :=
            afterLast_eq_some.mpr ⟨⟨other,by simpa using same⟩,lastName⟩
          rw [found] at again
          exact Option.some.inj again
        · exact absurd ⟨front,back,by simp⟩ never
  · rw [if_neg prefixed]
    have never : ¬∃ front back, names = ['a','/'] ++ front ++ separator ++ back := by
      rintro ⟨front,back,rfl⟩
      exact prefixed ⟨front ++ separator ++ back,by simp⟩
    refine ⟨fun same => .inr ⟨same,never⟩,?_⟩
    rintro (⟨front,same,_⟩ | ⟨same,_⟩)
    · exact absurd ⟨front,name,same⟩ never
    · exact same

end Headers

end Frankenrust.Orchestrator.DiffStats
