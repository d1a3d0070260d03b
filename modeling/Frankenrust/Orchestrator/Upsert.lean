import Frankenrust.Orchestrator.Dependencies
import Frankenrust.Orchestrator.Fields
import Frankenrust.Orchestrator.Gh
import Frankenrust.Orchestrator.Stamp

/-! What `requeue` and `unblock` make of an issue's body, as it is parsed again: the counter
that they stamp, the other one, the dependencies, the gate and the agent. -/
namespace Frankenrust.Orchestrator

/-- The counters that an issue's body holds. -/
inductive Counter
  | revisions
  | recoveries

namespace Counter

def name : Counter → Text
  | .revisions => "revisions".toList
  | .recoveries => "recoveries".toList

abbrev key (counter : Counter) : Text := counter.name ++ [':']

def other : Counter → Counter
  | .revisions => .recoveries
  | .recoveries => .revisions

def count : Counter → Issue → Option Nat
  | .revisions => Issue.revisions
  | .recoveries => Issue.recoveries

/-- The operation that stamps the counter. -/
def operation : Counter → Nat → Nat → Work Bool
  | .revisions => Gh.requeue
  | .recoveries => Gh.unblock

end Counter

/-- The body that an operation writes where it reads `body`. -/
def rewritten (body : Text) : Work Bool → Option Text
  | .call (.viewBody _) next => rewritten body (next (some (some body)))
  | .call (.editBody _ text) _ => some text
  | _ => none

/-- The issue once an operation has stamped it. -/
def restamped (counter : Counter) (count : Nat) (issue : Issue) : Issue :=
  { issue with body := (rewritten issue.body (counter.operation issue.number (count + 1))).getD issue.body }

/-- The first counter's line, or the one that is added where there is none, is or becomes the
value of a marker that the text above it leaves unfilled, and the stamp changes that value. -/
def Captured (isWord : Char → Bool) (counter : Counter) (field body : Text) : Prop :=
  let (above,below) := aboveCounter counter.key true body
  searchField isWord field true above = none ∧ Dangling field true above ∧
    (below = [] ∨ ((below.dropWhile isSpace).take counter.name.length).all Char.isAlpha = false)

instance {isWord : Char → Bool} {counter : Counter} {field body : Text} : Decidable (Captured isWord counter field body) :=
  inferInstanceAs (Decidable (_ ∧ _ ∧ _))

/-- The bodies whose stamp is read back and changes nothing else; 4300 digits are the most that `int` takes. -/
structure Stampable (isWord : Char → Bool) (counter : Counter) (count : Nat) (body : Text) : Prop where
  stamp : (decimalText (count + 1)).length ≤ 4300
  counters : ∀ digits ∈ (findall counter.key true 0 body).tail, digits.length ≤ 4300
  gate : ¬Captured isWord counter Issue.gateField body
  agent : ¬Captured isWord counter Issue.agentField body

/-- The stamp is read back, and whatever else is parsed out of the body is as it was. -/
structure RoundTrip (isWord : Char → Bool) (lower : Text → Text) (counter : Counter) (count : Nat) (issue : Issue) : Prop where
  atLeast : ∃ read ∈ counter.count (restamped counter count issue), count + 1 ≤ read
  exact : (∀ digits ∈ findall counter.key true 0 issue.body, ∀ read ∈ int digits, read ≤ count + 1) →
    counter.count (restamped counter count issue) = some (count + 1)
  other : counter.other.count (restamped counter count issue) = counter.other.count issue
  deps : (restamped counter count issue).deps isWord = issue.deps isWord
  gate : (restamped counter count issue).gate isWord lower = issue.gate isWord lower
  agent : (restamped counter count issue).agent isWord lower = issue.agent isWord lower

theorem apart_of_first {first other : Char} {letters others : Text}
    (differ : [first,first.toUpper,'İ','ı','ſ'].all (fun char => !sameLetter other char) = true) :
    Apart (first :: letters) (other :: others) := by
  rintro word rest (_ | ⟨same,_⟩)
  have different := List.all_eq_true.mp differ _ (sameLetter_variants same)
  rw [Bool.not_eq_true'] at different
  simp [keyword,different]

theorem plainKey_of_first {first : Char} {letters : Text}
    (visible : [first,first.toUpper,'İ','ı','ſ'].all (fun char => !isSpace char && !List.contains ['-','*','d','D'] char) = true) :
    PlainKey (first :: letters) := by
  rintro word rest (_ | @⟨_,char,_,word,same,_⟩)
  have plain := List.all_eq_true.mp visible _ (sameLetter_variants same)
  simp only [Bool.and_eq_true,Bool.not_eq_true',List.contains_eq_mem,decide_eq_false_iff_not] at plain
  rw [Plain,List.cons_append,List.dropWhile_cons_of_neg (by simp [plain.1])]
  intro head found
  obtain rfl : char = head := by simpa using found
  exact plain.2

theorem named_of_letters {name : Text} (some : name ≠ [])
    (all : name.all (fun letter => letter.isAlpha && letter.toUpper.isAlpha && letter.toLower == letter &&
      letter.toUpper.toLower == letter) = true) : Named name := by
  refine ⟨some,?_⟩
  intro letter member
  have plain := List.all_eq_true.mp all letter member
  simpa [and_assoc] using plain

theorem wordy_gate : Wordy Issue.gateField := wordy_of_letters (by decide) (by decide)

theorem wordy_agent : Wordy Issue.agentField := wordy_of_letters (by decide) (by decide)

namespace Counter

theorem named (counter : Counter) : Named counter.name := by
  cases counter
  · exact named_of_letters (by decide) (by decide)
  · exact named_of_letters (by decide) (by decide)

theorem wordy (counter : Counter) : Wordy counter.key := by
  cases counter
  · exact wordy_revisions
  · exact wordy_recoveries

theorem apart (counter : Counter) : Apart counter.key counter.other.key := by
  cases counter
  · exact apart_recoveries
  · exact apart_revisions

theorem apart_gate (counter : Counter) : Apart counter.key Issue.gateField := by
  cases counter
  · exact apart_of_first (by decide)
  · exact apart_of_first (by decide)

theorem apart_agent (counter : Counter) : Apart counter.key Issue.agentField := by
  cases counter
  · exact apart_of_first (by decide)
  · exact apart_of_first (by decide)

theorem plainKey (counter : Counter) : PlainKey counter.key := by
  cases counter
  · exact plainKey_of_first (by decide)
  · exact plainKey_of_first (by decide)

def word : Counter → Text
  | .revisions => "Revisions:".toList
  | .recoveries => "Recoveries:".toList

theorem matched (counter : Counter) :
    List.Forall₂ (fun letter char => sameLetter letter char = true) counter.key counter.word := by
  cases counter
  · exact revisions_word
  · exact recoveries_word

def line (counter : Counter) (n : Nat) : Region counter.key := stampLine counter.word counter.matched n

theorem count_eq (kind : Counter) (issue : Issue) : kind.count issue = counter kind.key issue.body := by
  cases kind
  · rfl
  · rfl

theorem rewritten_operation (counter : Counter) {number n : Nat} {body : Text} :
    rewritten body (counter.operation number n) = some (stamp counter.key (counter.line n).text body) := by
  cases counter
  · rfl
  · rfl

end Counter

section
variable {isWord : Char → Bool} {lower : Text → Text} (counter : Counter) (n : Nat) (text : Text)

theorem mentions_above {front rest other : Text} (line : LineStart true front)
    (same : mentions isWord rest = mentions isWord other) : mentions isWord (front ++ rest) = mentions isWord (front ++ other) := by
  rcases line with ⟨rfl,_⟩ | last
  · exact same
  · obtain ⟨earlier,rfl⟩ := List.getLast?_eq_some_iff.mp last
    simp only [List.append_assoc,List.singleton_append,mentions_lines,same]

theorem mentions_stamp (space : ∀ char, isSpace char = true → isWord char = false) :
    mentions isWord (stamp counter.key (counter.line n).text text) = mentions isWord text := by
  rcases stamp_cases counter.key (counter.line n).text text with ⟨front,region,rest,rfl,line,stamped⟩ | stamped
  · rw [stamped]
    apply mentions_above line
    rw [mentions_region counter.wordy counter.plainKey,mentions_region counter.wordy counter.plainKey]
  · obtain ⟨blank,whole,spaces⟩ := rstrip_append text
    have added : mentions isWord ((counter.line n).text ++ ['\n']) = [] := by
      rw [mentions_region counter.wordy counter.plainKey]
      rfl
    rw [stamped,List.cons_append,List.singleton_append,mentions_lines,mentions_newline,added,List.append_nil]
    conv_rhs => rw [whole,mentions_trailing space spaces]

theorem spelled_line : ∀ char ∈ (counter.line n).spelled, char.isAlpha = true := by
  have all : (counter.word.take counter.name.length).all Char.isAlpha = true := by
    cases counter
    · decide
    · decide
  exact List.all_eq_true.mp all

theorem spelled_below (region : Region counter.key) (rest : Text) :
    ((region.text ++ rest).dropWhile isSpace).take counter.name.length = region.spelled := by
  have length : region.spelled.length = counter.name.length := region.word_spelled.2.length_eq.symm
  rw [region.visible counter.wordy,Region.number,region.word_spelled.1,← length]
  simp

variable (unicode : Unicode isWord lower) {field default : Text} (wordy : Wordy field) (apart : Apart counter.key field)
include unicode wordy apart

/-- What a search finds in a body with a stamp: the value above it, or the counter's own name, or what stands below. -/
theorem searchField_stamped {front rest : Text} (line : LineStart true front) (region : Region counter.key) :
    searchField isWord field true (front ++ (region.text ++ rest)) = (searchField isWord field true front).or
      ((if Dangling field true front then some region.spelled else none).or (searchField isWord field false rest)) := by
  rw [searchField_counter counter.wordy wordy apart region unicode.space line,wordAt_number counter.named unicode counter.wordy]

theorem searchField_added : searchField isWord field true (rstrip text ++ (['\n','\n'] ++ ((counter.line n).text ++ ['\n']))) =
    (searchField isWord field true text).or (if Dangling field true text then some (counter.line n).spelled else none) := by
  obtain ⟨blank,whole,spaces⟩ := rstrip_append text
  have feeds : ∀ char ∈ ['\n','\n'], isSpace char = true := by simp [newline_space]
  have feed : searchField isWord field false ['\n'] = none := rfl
  rw [← List.append_assoc,searchField_stamped counter unicode wordy apart (.inr (by simp)),feed,Option.or_none,
    searchField_trailing wordy unicode.space feeds]
  conv_rhs => rw [whole,searchField_trailing wordy unicode.space spaces]
  simp only [dangling_blank wordy feeds,dangling_blank wordy spaces]

/-- A stamp keeps a field's value unless it captures it. -/
theorem field_kept (differs : counter.name ≠ default) :
    ((searchField isWord field true (stamp counter.key (counter.line n).text text)).map lower).getD default =
      ((searchField isWord field true text).map lower).getD default ↔ ¬Captured isWord counter field text := by
  have divided := aboveCounter_divides counter.key text true
  have captured : Captured isWord counter field text ↔ searchField isWord field true (aboveCounter counter.key true text).1 = none ∧
      Dangling field true (aboveCounter counter.key true text).1 ∧ ((aboveCounter counter.key true text).2 = [] ∨
        (((aboveCounter counter.key true text).2.dropWhile isSpace).take counter.name.length).all Char.isAlpha = false) := Iff.rfl
  rw [captured]
  generalize aboveCounter counter.key true text = parts at divided ⊢
  obtain ⟨above,below⟩ := parts
  have stamped : lower (counter.line n).spelled = counter.name :=
    (lower_spelled counter.named unicode (counter.line n).word_spelled.2).mpr (spelled_line counter n)
  have whole : text = above ++ below := divided.whole
  rcases divided.replaced (counter.line n).text with ⟨missing,rfl⟩ | ⟨region,rest,rfl,line,_,replaced⟩
  · have added : stamp counter.key (counter.line n).text text =
        rstrip text ++ (['\n','\n'] ++ ((counter.line n).text ++ ['\n'])) := by simp [stamp,missing]
    rw [added,searchField_added counter n text unicode wordy apart,whole,List.append_nil]
    cases searchField isWord field true above with
    | some value => simp
    | none =>
      by_cases dangling : Dangling field true above
      · simp [dangling,stamped,differs]
      · simp [dangling]
  · have spelled := spelled_below counter region rest
    have plain := lower_spelled counter.named unicode region.word_spelled.2
    rw [stamp,replaced,Option.getD_some,whole,searchField_stamped counter unicode wordy apart line,
      searchField_stamped counter unicode wordy apart line,spelled]
    cases searchField isWord field true above with
    | some value => simp
    | none =>
      by_cases dangling : Dangling field true above
      · have same : counter.name = lower region.spelled ↔ ∀ char ∈ region.spelled, char.isAlpha = true := eq_comm.trans plain
        have some : region.text ≠ [] := by simp [Region.text,Region.number,region.someDigits]
        simpa [dangling,stamped,some] using same
      · simp [dangling]

end

theorem restamped_body (counter : Counter) (count : Nat) (issue : Issue) : restamped counter count issue =
    { issue with body := stamp counter.key (counter.line (count + 1)).text issue.body } := by
  rw [restamped,counter.rewritten_operation]
  rfl

theorem Counter.name_differs (counter : Counter) : counter.name ≠ "default".toList ∧ counter.name ≠ "opencode".toList := by
  cases counter
  · decide
  · decide

/-- The stamp of a counter makes the round trip exactly on the bodies that are stampable. -/
theorem restamped_roundTrip {isWord : Char → Bool} {lower : Text → Text} (unicode : Unicode isWord lower) (counter : Counter)
    (count : Nat) (issue : Issue) :
    RoundTrip isWord lower counter count issue ↔ Stampable isWord counter count issue.body := by
  have read := stamp_read counter.wordy (counter.line (count + 1)) rfl issue.body
  have gate := field_kept counter (count + 1) issue.body unicode wordy_gate counter.apart_gate counter.name_differs.1
  have agent := field_kept counter (count + 1) issue.body unicode wordy_agent counter.apart_agent counter.name_differs.2
  have body := restamped_body counter count issue
  constructor
  · rintro ⟨least,_,_,_,kept,left⟩
    rw [counter.count_eq,body,read] at least
    rw [body] at kept left
    exact ⟨least.1,least.2,gate.mp kept,agent.mp left⟩
  · rintro ⟨short,counters,kept,left⟩
    have least := read.mpr ⟨short,counters⟩
    obtain ⟨highest,found,bound⟩ := least
    refine ⟨?_,?_,?_,?_,?_,?_⟩
    · rw [counter.count_eq,body]
      exact ⟨highest,found,bound⟩
    · intro lower
      rw [counter.count_eq,body]
      exact stamp_exact counter.wordy (counter.line (count + 1)) rfl found bound lower
    · rw [counter.other.count_eq,counter.other.count_eq,body]
      exact stamp_other counter.wordy counter.other.wordy counter.apart (counter.line (count + 1))
    · rw [deps_mentions,deps_mentions,body]
      exact congrArg (fun found : List Text => (found.mapM int).map fun numbers => numbers.dedup.insertionSort (· ≤ ·))
        (mentions_stamp counter (count + 1) issue.body unicode.space)
    · rw [body]
      exact gate.mpr kept
    · rw [body]
      exact agent.mpr left

theorem restamped_roundTrip_replaced : RoundTrip latinWord latinLower .revisions 1
    ⟨7,"Gate: bootstrap\nDepends on: #3\n\nRevisions: 1\n".toList,[.questioned],.opened⟩ :=
  (restamped_roundTrip latin .revisions 1 ⟨7,"Gate: bootstrap\nDepends on: #3\n\nRevisions: 1\n".toList,[.questioned],.opened⟩).mpr
    ⟨by decide,List.forall_iff_forall_mem.mp (by decide),by decide,by decide⟩

/-- The added line becomes the gate of a body that ends in an unfilled `Gate:`. -/
theorem gate_captured : ¬RoundTrip latinWord latinLower .revisions 0 ⟨7,"Gate:\n".toList,[.questioned],.opened⟩ :=
  fun trip => absurd trip.gate (by decide)

end Frankenrust.Orchestrator
