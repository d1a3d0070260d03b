import Frankenrust.Library.Dict
import Frankenrust.Library.Options
import Frankenrust.Orchestrator.Counter
import Frankenrust.Orchestrator.Journal
import Frankenrust.Orchestrator.Worktree

/-! The numbers of retrospectives: `_retro_artifacts`, the patterns that read a number back from
the name of an artifact, and `_next_retro_cycle`. -/
namespace Frankenrust.Orchestrator.Retro

inductive Directory
  | logs
  | retro
  deriving DecidableEq

structure Path where
  directory : Directory
  name : Text
  deriving DecidableEq

/-- The agents that `config.py` lets a role have. -/
def agents : List Text := ["claude".toList,"codex".toList,"opencode".toList]

/-- `str` of a number; it raises beyond the interpreter's limit for conversions. -/
def str (n : Int) : Option Text :=
  if (decimalText n.natAbs).length ≤ 4300 then some (Json.signed n (decimalText n.natAbs)) else none

def retroArtifacts (retroAgent : Text) (cycle : Int) : Option (List Path) :=
  (str cycle).map fun number => [
    ⟨.logs,"retro-".toList ++ number ++ ".md".toList⟩,
    ⟨.retro,"prompt.r".toList ++ number ++ ".md".toList⟩,
    ⟨.retro,retroAgent ++ ".r".toList ++ number ++ ".log".toList⟩,
    ⟨.retro,retroAgent ++ ".r".toList ++ number ++ ".final.txt".toList⟩]

/-- `$` matches before a last line feed, too. -/
def ends (back rest : Text) : Bool := rest = back || rest = back ++ ['\n']

/-- The group of `^front(\d+)back$`. -/
def numbered (front back name : Text) : Option Text :=
  let rest := name.drop front.length
  let digits := rest.takeWhile isDigit
  if front <+: name ∧ digits ≠ [] ∧ ends back (rest.dropWhile isDigit) then some digits else none

section Names
variable (isWord : Char → Bool)

/-- The first group of `^(\w+)\.r(\d+)back$`. -/
def worded (back name : Text) : Option Text :=
  let word := name.takeWhile isWord
  if word ≠ [] ∧ (numbered ".r".toList back (name.dropWhile isWord)).isSome then some word else none

/-- `_RETRO_ARTIFACT_PATTERNS`, each with its `group(1)`. -/
def retroArtifactPatterns : List (Directory × (Text → Option Text)) := [
  (.logs,numbered "retro-".toList ".md".toList),
  (.retro,numbered "prompt.r".toList ".md".toList),
  (.retro,worded isWord ".log".toList),
  (.retro,worded isWord ".final.txt".toList)]

/-- The names in each directory that exists; it raises where `int` does. -/
def highestRetroCycleClaimed (listing : Directory → Option (List Text)) : Option Int :=
  (retroArtifactPatterns isWord).foldlM (fun highest entry =>
    match listing entry.1 with
    | none => some highest
    | some names => names.foldlM (fun highest name =>
      match entry.2 name with
      | none => some highest
      | some group => (intText group).map (max highest)) highest) 0

/-- What `json.loads` makes of a line: an object, by its members, of which only strings are told
apart, another value, a `JSONDecodeError`, or another exception. -/
inductive Loaded
  | object (members : List (Text × Option Text))
  | other
  | decodeError
  | raised
  deriving DecidableEq

def Loaded.retrospective : Loaded → Bool
  | .object members => Dict.get "event".toList members = some (some "retrospective".toList)
  | _ => false

/-- The lines of a text file as it is iterated over, each with its end. -/
def fileLines (text : Text) : List Text :=
  (Lines.split '\n' text).1.map (· ++ ['\n']) ++ if (Lines.split '\n' text).2 = [] then [] else [(Lines.split '\n' text).2]

variable (loads : Text → Loaded)

def countRetrospectives (n : Nat) (line : Text) : Option Nat :=
  match loads line with
  | .decodeError => some n
  | .object members => some (if (Loaded.object members).retrospective then n + 1 else n)
  -- `rec.get` of what is no dictionary
  | .other | .raised => none

/-- The journal is the text that its file is decoded to, `none` where that raises; there may be no file. -/
def countJournal (journal : Option (Option Text)) : Option Nat :=
  match journal with
  | none => some 0
  | some content => do (fileLines (← content)).foldlM (countRetrospectives loads) 0

def nextRetroCycle (journal : Option (Option Text)) (listing : Directory → Option (List Text)) : Option Int := do
  let n ← countJournal loads journal
  let highest ← highestRetroCycleClaimed isWord listing
  return max (n : Int) highest + 1

end Names

section Numbers

theorem int_small {n : Nat} (small : (decimalText n).length ≤ 4300) : int (decimalText n) = some n := by
  have read : int (decimalText n) = some ((decimalText n).foldl (fun total char => 10 * total + decimal char) 0) := if_pos small
  rw [read,int_decimalText read]

/-- A digit is none of the characters that `int` takes away or looks for. -/
theorem digit_plain {char : Char} (digit : char.isDigit = true) : isSpace char = false ∧ char ≠ '-' ∧ char ≠ '+' ∧ char ≠ '_' := by
  have bounds : 0x30 ≤ char.toNat ∧ char.toNat ≤ 0x39 := by
    simp only [Char.isDigit,Bool.and_eq_true,decide_eq_true_eq] at digit
    exact digit
  refine ⟨?_,?_,?_,?_⟩
  · simp only [isSpace,List.contains_eq_mem,List.mem_cons,List.not_mem_nil,or_false,decide_eq_false_iff_not]
    omega
  · rintro rfl
    contradiction
  · rintro rfl
    contradiction
  · rintro rfl
    contradiction

theorem str_some {n : Int} {number : Text} (printed : str n = some number) :
    (decimalText n.natAbs).length ≤ 4300 ∧ number = Json.signed n (decimalText n.natAbs) := by
  rw [str,Option.ite_none_right_eq_some] at printed
  exact ⟨printed.1,(Option.some.inj printed.2).symm⟩

theorem ungroup_true {digits : Text} (all : ∀ char ∈ digits, char.isDigit = true) : ungroup true digits = some digits := by
  induction digits with
  | nil => rfl
  | cons char digits ih =>
    have digit := all char (by simp)
    have rest := ih fun other member => all other (List.mem_cons_of_mem _ member)
    have read : isDigit char = true := by simp [isDigit,ascii_zero digit]
    unfold ungroup
    split
    next same => cases same
    next same =>
      cases same
      exact absurd rfl (digit_plain digit).2.2.2
    next same =>
      cases same
      simp [read,rest]

theorem ungroup_false {digits : Text} (some : digits ≠ []) (all : ∀ char ∈ digits, char.isDigit = true) :
    ungroup false digits = Option.some digits := by
  cases digits with
  | nil => contradiction
  | cons char digits =>
    have digit := all char (by simp)
    have rest := ungroup_true fun other member => all other (List.mem_cons_of_mem char member)
    have read : isDigit char = true := by simp [isDigit,ascii_zero digit]
    unfold ungroup
    split
    next same => cases same
    next same =>
      cases same
      exact absurd rfl (digit_plain digit).2.2.2
    next same =>
      cases same
      simp [read,rest]

theorem strip_plain {text : Text} (plain : ∀ char ∈ text, isSpace char = false) : strip text = text := by
  have kept : ∀ text : Text, (∀ char ∈ text, isSpace char = false) → text.dropWhile isSpace = text := by
    intro text plain
    cases text with
    | nil => rfl
    | cons char text => rw [List.dropWhile_cons_of_neg (by simp [plain char (by simp)])]
  rw [strip,rstrip,kept text plain,kept text.reverse (by simpa using plain),List.reverse_reverse]

theorem intText_decimalText {n : Nat} (small : (decimalText n).length ≤ 4300) : intText (decimalText n) = some (n : Int) := by
  have digits {char : Char} (member : char ∈ decimalText n) := decimalText_digits member
  rw [intText,strip_plain fun char member => (digit_plain (digits member)).1]
  split
  next same => exact absurd rfl (digit_plain (digits (same ▸ List.mem_cons_self))).2.1
  next same => exact absurd rfl (digit_plain (digits (same ▸ List.mem_cons_self))).2.2.1
  next =>
    rw [ungroup_false decimalText_ne_nil fun _ => digits,Option.bind_some,int_small small]
    rfl

end Numbers

section Patterns
variable {front back digits rest name : Text}

theorem numbered_append (all : ∀ char ∈ digits, isDigit char = true) (stops : ∀ char ∈ rest.head?, isDigit char = false) :
    numbered front back (front ++ (digits ++ rest)) = if digits ≠ [] ∧ ends back rest then some digits else none := by
  have none : rest.takeWhile isDigit = [] ∧ rest.dropWhile isDigit = rest := by
    cases rest with
    | nil => exact ⟨rfl,rfl⟩
    | cons char rest => simp [stops char (by simp)]
  simp only [numbered,List.drop_left,List.takeWhile_append_of_pos all,List.dropWhile_append_of_pos all,none,List.append_nil,
    List.prefix_append,true_and]

theorem numbered_other (other : ¬front <+: name) : numbered front back name = none := if_neg fun matched => other matched.1

variable {isWord : Char → Bool} {word : Text}

theorem worded_append (all : ∀ char ∈ word, isWord char = true) (stops : ∀ char ∈ rest.head?, isWord char = false) :
    worded isWord back (word ++ rest) = if word ≠ [] ∧ (numbered ".r".toList back rest).isSome then some word else none := by
  have none : rest.takeWhile isWord = [] ∧ rest.dropWhile isWord = rest := by
    cases rest with
    | nil => exact ⟨rfl,rfl⟩
    | cons char rest => simp [stops char (by simp)]
  simp only [worded,List.takeWhile_append_of_pos all,List.dropWhile_append_of_pos all,none,List.append_nil]

end Patterns

section Artifacts
variable {isWord : Char → Bool} (ascii : ∀ char, char.toNat < 0x80 → isWord char = (char.isAlphanum || char == '_'))
  {retroAgent : Text} (known : retroAgent ∈ agents) {cycle : Int} {number : Text} (printed : str cycle = some number)

theorem mark_stops {text : Text} {mark : Char} (other : isDigit mark = false) (starts : text.head? = some mark) :
    ∀ char ∈ text.head?, isDigit char = false := by
  intro char first
  cases starts.symm.trans first
  exact other

/-- What is printed for a number is its digits, after a sign that is no digit. -/
theorem numbered_str (front back rest : Text) (stops : ∀ char ∈ rest.head?, isDigit char = false) (printed : str cycle = some number) :
    numbered front back (front ++ (number ++ rest)) = if 0 ≤ cycle ∧ ends back rest then some number else none := by
  obtain ⟨_,rfl⟩ := str_some printed
  unfold Json.signed
  split
  next negative =>
    have sign : numbered front back (front ++ ([] ++ ('-' :: decimalText cycle.natAbs ++ rest))) = none := by
      rw [numbered_append (by simp) (mark_stops rfl rfl)]
      simp
    simpa [Int.not_le.mpr negative] using sign
  next positive =>
    rw [numbered_append (fun _ => decimalText_isDigit) stops]
    simp [decimalText_ne_nil,Int.not_lt.mp positive]

/-- The groups that the patterns of its directory find in a name. -/
def groups (isWord : Char → Bool) (path : Path) : List Text :=
  (retroArtifactPatterns isWord).filterMap fun entry => if entry.1 = path.directory then entry.2 path.name else none

include ascii in
theorem word_ascii {word : Text} (plain : word.all (fun char => char.toNat < 0x80 && (char.isAlphanum || char == '_')) = true) :
    ∀ char ∈ word, isWord char = true := by
  intro char member
  have here := List.all_eq_true.mp plain char member
  simp only [Bool.and_eq_true,decide_eq_true_eq] at here
  rw [ascii char here.1,here.2]

include ascii in
theorem worded_str (word back tail : Text)
    (plain : word.all (fun char => char.toNat < 0x80 && (char.isAlphanum || char == '_')) = true)
    (some : word ≠ []) (stops : ∀ char ∈ tail.head?, isDigit char = false) (printed : str cycle = Option.some number) :
    worded isWord back (word ++ (".r".toList ++ (number ++ tail))) =
      if 0 ≤ cycle ∧ ends back tail then Option.some word else none := by
  have dot : ∀ char ∈ (".r".toList ++ (number ++ tail)).head?, isWord char = false := by
    intro char first
    obtain rfl : '.' = char := Option.some.inj first
    exact ascii '.' (by decide)
  rw [worded_append (word_ascii ascii plain) dot,numbered_str _ _ _ stops printed]
  by_cases matched : 0 ≤ cycle ∧ ends back tail = true
  · rw [if_pos matched,if_pos matched]
    simp [some]
  · rw [if_neg matched,if_neg matched]
    simp

theorem groups_logs (name : Text) : groups isWord ⟨.logs,name⟩ = (numbered "retro-".toList ".md".toList name).toList := by
  simp only [groups,retroArtifactPatterns,List.filterMap_cons,List.filterMap_nil,if_true,reduceCtorEq,if_false]
  cases numbered "retro-".toList ".md".toList name <;> rfl

theorem groups_retro (name : Text) : groups isWord ⟨.retro,name⟩ = (numbered "prompt.r".toList ".md".toList name).toList ++
    ((worded isWord ".log".toList name).toList ++ (worded isWord ".final.txt".toList name).toList) := by
  simp only [groups,retroArtifactPatterns,List.filterMap_cons,List.filterMap_nil,if_true,reduceCtorEq,if_false]
  cases numbered "prompt.r".toList ".md".toList name <;> cases worded isWord ".log".toList name <;>
    cases worded isWord ".final.txt".toList name <;> rfl

include ascii known printed in
/-- What the patterns find in each of the four names: the number in the first two, and the
agent in the others. -/
theorem artifact_groups {artifacts : List Path} (listed : retroArtifacts retroAgent cycle = some artifacts) :
    artifacts.map (groups isWord) =
      if 0 ≤ cycle then [[number],[number],[retroAgent],[retroAgent]] else [[],[],[],[]] := by
  rw [retroArtifacts,printed,Option.map_some,Option.some.injEq] at listed
  subst listed
  have dot : isDigit '.' = false := rfl
  have md : ∀ char ∈ ".md".toList.head?, isDigit char = false := mark_stops dot (by decide)
  have log : ∀ char ∈ ".log".toList.head?, isDigit char = false := mark_stops dot (by decide)
  have final : ∀ char ∈ ".final.txt".toList.head?, isDigit char = false := mark_stops dot (by decide)
  have agent : retroAgent.all (fun char => char.toNat < 0x80 && (char.isAlphanum || char == '_')) = true ∧ retroAgent ≠ [] ∧
      ∀ tail, ¬"prompt.r".toList <+: retroAgent ++ tail := by
    simp only [agents,List.mem_cons,List.not_mem_nil,or_false] at known
    rcases known with rfl | rfl | rfl
    · exact ⟨by decide +kernel,by decide,fun tail => by simp⟩
    · exact ⟨by decide +kernel,by decide,fun tail => by simp⟩
    · exact ⟨by decide +kernel,by decide,fun tail => by simp⟩
  have split (tail : Text) : "prompt.r".toList ++ tail = "prompt".toList ++ (".r".toList ++ tail) := by
    rw [← List.append_assoc]
    rfl
  have names : ends ".md".toList ".md".toList = true ∧ ends ".log".toList ".md".toList = false ∧
      ends ".final.txt".toList ".md".toList = false ∧ ends ".log".toList ".log".toList = true ∧
      ends ".final.txt".toList ".log".toList = false ∧ ends ".log".toList ".final.txt".toList = false ∧
      ends ".final.txt".toList ".final.txt".toList = true := by decide +kernel
  have report := numbered_str "retro-".toList ".md".toList _ md printed
  have prompt := numbered_str "prompt.r".toList ".md".toList _ md printed
  have prompted (back : Text) := worded_str ascii "prompt".toList back _ (by decide +kernel) (by decide) md printed
  have logged (back : Text) := worded_str ascii retroAgent back _ agent.1 agent.2.1 log printed
  have finished (back : Text) := worded_str ascii retroAgent back _ agent.1 agent.2.1 final printed
  have other (tail : Text) : numbered "prompt.r".toList ".md".toList (retroAgent ++ tail) = none := numbered_other (agent.2.2 tail)
  simp only [List.map_cons,List.map_nil,groups_logs,groups_retro,List.append_assoc,report,prompt,other,logged,finished]
  rw [split,prompted,prompted]
  simp only [names,and_true,and_false,Bool.false_eq_true,if_false,Option.toList_none,List.nil_append,List.append_nil]
  split <;> rfl

end Artifacts

section Highest
variable {isWord : Char → Bool} {listing : Directory → Option (List Text)}

def found (isWord : Char → Bool) (listing : Directory → Option (List Text)) : List Text :=
  (retroArtifactPatterns isWord).flatMap fun entry => ((listing entry.1).getD []).filterMap entry.2

theorem mem_found {group : Text} : group ∈ found isWord listing ↔
    ∃ directory names name, listing directory = some names ∧ name ∈ names ∧ group ∈ groups isWord ⟨directory,name⟩ := by
  simp only [found,groups,List.mem_flatMap,List.mem_filterMap]
  constructor
  · rintro ⟨entry,pattern,name,member,matched⟩
    cases names : listing entry.1 with
    | none => simp [names] at member
    | some names' =>
      rw [names] at member
      exact ⟨entry.1,names',name,names,member,entry,pattern,by simpa using matched⟩
  · rintro ⟨directory,names,name,listed,member,entry,pattern,matched⟩
    rw [Option.ite_none_right_eq_some] at matched
    exact ⟨entry,pattern,name,by simpa [matched.1,listed] using member,matched.2⟩

theorem highest_found : highestRetroCycleClaimed isWord listing =
    ((found isWord listing).mapM intText).map fun numbers => numbers.foldl max 0 := by
  have inner (read : Text → Option Text) (names : List Text) (highest : Int) :
      names.foldlM (fun highest name =>
        match read name with
        | none => some highest
        | some group => (intText group).map (max highest)) highest =
      (names.filterMap read).foldlM (fun highest group => (intText group).map (max highest)) highest := by
    induction names generalizing highest with
    | nil => rfl
    | cons name names ih =>
      rw [List.foldlM_cons,List.filterMap_cons]
      cases read name with
      | none => simpa using ih highest
      | some group =>
        rw [List.foldlM_cons]
        exact congrArg _ (funext ih)
  rw [← Options.foldlM_map,highestRetroCycleClaimed,found]
  generalize (0 : Int) = highest
  induction retroArtifactPatterns isWord generalizing highest with
  | nil => rfl
  | cons entry entries ih =>
    rw [List.foldlM_cons,List.flatMap_cons,List.foldlM_append]
    have first : (match listing entry.1 with
        | none => some highest
        | some names => names.foldlM (fun highest name =>
          match entry.2 name with
          | none => some highest
          | some group => (intText group).map (max highest)) highest) =
        (((listing entry.1).getD []).filterMap entry.2).foldlM (fun highest group => (intText group).map (max highest)) highest := by
      cases listing entry.1 with
      | none => rfl
      | some names => exact inner entry.2 names highest
    rw [first]
    exact congrArg _ (funext ih)

end Highest

section Next
variable (isWord : Char → Bool) (loads : Text → Loaded) (retroAgent : Text)
  (journal : Option (Option Text)) (listing : Directory → Option (List Text))

def recorded : Nat :=
  match journal with
  | some (some text) => (fileLines text).countP fun line => (loads line).retrospective
  | _ => 0

def OnDisk (path : Path) : Prop := ∃ names, listing path.directory = some names ∧ path.name ∈ names

/-- A name in the logs directories is that of an artifact, or one that no pattern knows. -/
def Shaped : Prop := ∀ path, OnDisk listing path →
  (∃ cycle artifacts, retroArtifacts retroAgent cycle = some artifacts ∧ path ∈ artifacts) ∨ groups isWord path = []

/-- The number is greater than that of every artifact and than that of the recorded retrospectives. -/
def Beyond (next : Int) : Prop := recorded loads journal < next ∧
  ∀ cycle artifacts path, retroArtifacts retroAgent cycle = some artifacts → path ∈ artifacts → OnDisk listing path → cycle < next

def Transcribed : Prop := ∃ (cycle : Nat) (number : Text), str cycle = some number ∧
  (OnDisk listing ⟨.retro,retroAgent ++ ".r".toList ++ number ++ ".log".toList⟩ ∨
    OnDisk listing ⟨.retro,retroAgent ++ ".r".toList ++ number ++ ".final.txt".toList⟩)

/-- The journal can be decoded, and a line of it that is no object is no JSON either. -/
def Readable : Prop := ∀ content ∈ journal, ∃ text, content = some text ∧
  ∀ line ∈ fileLines text, loads line ≠ .other ∧ loads line ≠ .raised

variable {isWord loads retroAgent journal listing}

theorem countRetrospectives_lines {lines : List Text} : ∀ {n m : Nat}, lines.foldlM (countRetrospectives loads) n = some m ↔
    (∀ line ∈ lines, loads line ≠ .other ∧ loads line ≠ .raised) ∧ m = n + lines.countP fun line => (loads line).retrospective := by
  induction lines with
  | nil => simp [eq_comm]
  | cons line lines ih =>
    intro n m
    rw [List.foldlM_cons,countRetrospectives]
    cases read : loads line with
    | object members =>
      simp only [Option.bind_eq_bind,Option.bind_some,ih,List.forall_mem_cons,List.countP_cons,read]
      by_cases counts : (Loaded.object members).retrospective = true
      · simp [counts]
        omega
      · simp [counts]
    | decodeError =>
      have none : Loaded.decodeError.retrospective = false := rfl
      simp [ih,read,none]
    | other => simp [read]
    | raised => simp [read]

theorem countJournal_some {n : Nat} : countJournal loads journal = some n ↔ Readable loads journal ∧ n = recorded loads journal := by
  cases journal with
  | none => simp [countJournal,Readable,recorded,eq_comm]
  | some content =>
    cases content with
    | none => simp [countJournal,Readable]
    | some text => simp [countJournal,Readable,recorded,countRetrospectives_lines]

theorem transcript_groups (ascii : ∀ char, char.toNat < 0x80 → isWord char = (char.isAlphanum || char == '_'))
    (known : retroAgent ∈ agents) {cycle : Int} {artifacts : List Path} {path : Path} (positive : 0 ≤ cycle)
    (listed : retroArtifacts retroAgent cycle = some artifacts) (member : path ∈ artifacts) (disk : OnDisk listing path) :
    (∃ number, str cycle = some number ∧ groups isWord path = [number]) ∨
      groups isWord path = [retroAgent] ∧ Transcribed retroAgent listing := by
  obtain ⟨number,printed,rfl⟩ := Option.map_eq_some_iff.mp listed
  have matched := artifact_groups ascii known printed listed
  rw [if_pos positive] at matched
  simp only [List.map_cons,List.map_nil,List.cons.injEq,and_true] at matched
  obtain ⟨report,prompt,log,final⟩ := matched
  obtain ⟨n,rfl⟩ := Int.eq_ofNat_of_zero_le positive
  simp only [List.mem_cons,List.not_mem_nil,or_false] at member
  rcases member with rfl | rfl | rfl | rfl
  · exact .inl ⟨number,printed,report⟩
  · exact .inl ⟨number,printed,prompt⟩
  · exact .inr ⟨log,n,number,printed,.inl disk⟩
  · exact .inr ⟨final,n,number,printed,.inr disk⟩

theorem agent_unread (known : retroAgent ∈ agents) : intText retroAgent = none := by
  have unread : ∀ agent ∈ agents, intText agent = none := by decide +kernel
  exact unread retroAgent known

theorem intText_str {cycle : Int} {number : Text} (positive : 0 ≤ cycle) (printed : str cycle = some number) :
    intText number = some cycle := by
  obtain ⟨n,rfl⟩ := Int.eq_ofNat_of_zero_le positive
  obtain ⟨small,rfl⟩ := str_some printed
  exact intText_decimalText small

/-- The next number is found just where no log or transcript of a numbered retrospective is
there, whose pattern has the agent for its first group, and the journal can be read. -/
theorem retroCycle_next (ascii : ∀ char, char.toNat < 0x80 → isWord char = (char.isAlphanum || char == '_'))
    (known : retroAgent ∈ agents) (shaped : Shaped isWord retroAgent listing) :
    (∃ next, nextRetroCycle isWord loads journal listing = some next ∧ Beyond loads retroAgent journal listing next) ↔
      ¬Transcribed retroAgent listing ∧ Readable loads journal := by
  constructor
  · rintro ⟨next,returned,_⟩
    simp only [nextRetroCycle,Option.bind_eq_bind,Option.bind_eq_some_iff] at returned
    obtain ⟨n,counted,highest,claimed,_⟩ := returned
    refine ⟨?_,(countJournal_some.mp counted).1⟩
    rintro ⟨cycle,number,printed,disk⟩
    -- the agent is then among the groups, and no number
    have agent : retroAgent ∈ found isWord listing := by
      have matched := artifact_groups ascii known printed (by rw [retroArtifacts,printed,Option.map_some])
      rw [if_pos (Int.natCast_nonneg cycle)] at matched
      simp only [List.map_cons,List.map_nil,List.cons.injEq,and_true] at matched
      obtain ⟨_,_,log,final⟩ := matched
      rcases disk with ⟨names,listed,member⟩ | ⟨names,listed,member⟩
      · exact mem_found.mpr ⟨.retro,names,_,listed,member,log ▸ List.mem_cons_self⟩
      · exact mem_found.mpr ⟨.retro,names,_,listed,member,final ▸ List.mem_cons_self⟩
    rw [highest_found,Option.map_eq_some_iff] at claimed
    obtain ⟨numbers,read,_⟩ := claimed
    obtain ⟨value,_,same⟩ := Options.mapM_mem read agent
    rw [agent_unread known] at same
    contradiction
  · rintro ⟨untold,readable⟩
    have every : ∀ group ∈ found isWord listing, ∃ value, intText group = some value := by
      intro group member
      obtain ⟨directory,names,name,listed,inside,matched⟩ := mem_found.mp member
      have disk : OnDisk listing ⟨directory,name⟩ := ⟨names,listed,inside⟩
      rcases shaped _ disk with ⟨cycle,artifacts,made,here⟩ | foreign
      · by_cases positive : 0 ≤ cycle
        · rcases transcript_groups ascii known positive made here disk with ⟨number,printed,one⟩ | ⟨_,told⟩
          · rw [one,List.mem_singleton] at matched
            exact ⟨cycle,matched ▸ intText_str positive printed⟩
          · exact absurd told untold
        · obtain ⟨number,printed,_⟩ := Option.map_eq_some_iff.mp made
          have none := artifact_groups ascii known printed made
          rw [if_neg positive] at none
          have empty : groups isWord ⟨directory,name⟩ ∈ ([[],[],[],[]] : List (List Text)) := none ▸ List.mem_map_of_mem here
          simp only [List.mem_cons,List.not_mem_nil,or_false,or_self] at empty
          rw [empty] at matched
          contradiction
      · rw [foreign] at matched
        contradiction
    obtain ⟨numbers,read⟩ := Options.mapM_isSome.mpr every
    have bound := Options.foldl_max_le.mp (le_refl (numbers.foldl max 0))
    refine ⟨max (recorded loads journal : Int) (numbers.foldl max 0) + 1,?_,?_,?_⟩
    · simp [nextRetroCycle,countJournal_some.mpr ⟨readable,rfl⟩,highest_found,read]
    · omega
    · intro cycle artifacts path made member disk
      by_cases positive : 0 ≤ cycle
      · rcases transcript_groups ascii known positive made member disk with ⟨number,printed,one⟩ | ⟨_,told⟩
        · obtain ⟨names,listed,inside⟩ := disk
          have group : number ∈ found isWord listing :=
            mem_found.mpr ⟨path.directory,names,path.name,listed,inside,one ▸ List.mem_cons_self⟩
          obtain ⟨value,among,same⟩ := Options.mapM_mem read group
          rw [intText_str positive printed,Option.some.injEq] at same
          have below := bound.2 value among
          omega
        · exact absurd told untold
      · have low := bound.1
        omega

end Next

def asciiWord (char : Char) : Bool := char.isAlphanum || char == '_'

/-- A journal of one retrospective, and what its line is read as. -/
def oneRetrospective : Text := "\x7b\"event\": \"retrospective\"\x7d\n".toList

def loadsRetrospective (_ : Text) : Loaded := .object [("event".toList,some "retrospective".toList)]

def reported : Directory → Option (List Text)
  | .logs => some ["retro-3.md".toList,"events.jsonl".toList]
  | .retro => some ["prompt.r3.md".toList]

theorem retroCycle_raises :
    retroArtifacts "opencode".toList 1 = some [⟨.logs,"retro-1.md".toList⟩,⟨.retro,"prompt.r1.md".toList⟩,
      ⟨.retro,"opencode.r1.log".toList⟩,⟨.retro,"opencode.r1.final.txt".toList⟩] ∧
    nextRetroCycle asciiWord loadsRetrospective none
      (fun directory => match directory with | .logs => some [] | .retro => some ["opencode.r1.log".toList]) = none ∧
    nextRetroCycle asciiWord (fun _ => .other) (some (some "[]".toList)) (fun _ => none) = none := by
  decide +kernel

theorem retroCycle_reported : (∃ next, nextRetroCycle asciiWord loadsRetrospective (some (some oneRetrospective)) reported = some next ∧
    Beyond loadsRetrospective "opencode".toList (some (some oneRetrospective)) reported next) ↔
      ¬Transcribed "opencode".toList reported ∧ Readable loadsRetrospective (some (some oneRetrospective)) := by
  have shaped : Shaped asciiWord "opencode".toList reported := by
    rintro ⟨directory,name⟩ ⟨names,listed,member⟩
    have artifacts : retroArtifacts "opencode".toList 3 = some [⟨.logs,"retro-3.md".toList⟩,⟨.retro,"prompt.r3.md".toList⟩,
      ⟨.retro,"opencode.r3.log".toList⟩,⟨.retro,"opencode.r3.final.txt".toList⟩] := by decide +kernel
    have journal : groups asciiWord ⟨.logs,"events.jsonl".toList⟩ = [] := by decide +kernel
    cases directory with
    | logs =>
      obtain rfl := Option.some.inj listed
      simp only [List.mem_cons,List.not_mem_nil,or_false] at member
      rcases member with rfl | rfl
      · exact .inl ⟨3,_,artifacts,List.mem_cons_self⟩
      · exact .inr journal
    | retro =>
      obtain rfl := Option.some.inj listed
      obtain rfl := List.mem_singleton.mp member
      exact .inl ⟨3,_,artifacts,List.mem_cons_of_mem _ List.mem_cons_self⟩
  exact retroCycle_next (fun _ _ => rfl) (by decide) shaped

end Frankenrust.Orchestrator.Retro
