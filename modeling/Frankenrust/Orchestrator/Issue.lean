import Frankenrust.Orchestrator.Text
import Mathlib.Data.List.Sort
import Mathlib.Data.Prod.Lex

/-! Issues of the work queue and what is parsed out of them. `isWord` stands for the table of
the characters that `\w` matches. -/
namespace Frankenrust.Orchestrator

inductive Label
  | ready
  | claimed
  | waiting
  | blocked
  | questioned
  | followup
  | metaIssue
  | p0
  | p1
  | p2
  | p3
  | other (name : Text)
  deriving DecidableEq

inductive IssueState
  | opened
  | closed
  deriving DecidableEq

structure Issue where
  number : Nat
  body : Text
  labels : List Label
  state : IssueState
  deriving DecidableEq

namespace Issue

def isBlank (char : Char) : Bool := char == ' ' || char == '\t'

/-- `DEP_RE` on one line: what stands after `depends on`. -/
def depLine (isWord : Char → Bool) (line : Text) : Option Text :=
  let item := line.dropWhile isBlank
  let bare := if item.head? = some '-' ∨ item.head? = some '*' then item.tail else item
  match keyword "depends on".toList (bare.dropWhile isBlank) with
  | none => none
  | some rest =>
    if rest.head?.any isWord then none else some (if rest.head? = some ':' then rest.tail else rest)

/-- `ISSUE_RE.findall`; the digits after a `#` hold no other `#`. -/
def references : Text → List Text
  | [] => []
  | char :: chars =>
    if char = '#' ∧ chars.takeWhile isDigit ≠ [] then chars.takeWhile isDigit :: references chars
    else references chars

/-- The union over every `Depends on:` line, sorted; `int` may raise. -/
def deps (isWord : Char → Bool) (issue : Issue) : Option (List Nat) :=
  ((((issue.body.splitOn '\n').filterMap (depLine isWord)).flatMap references).mapM int).map fun found =>
    found.dedup.insertionSort (· ≤ ·)

def revisionsKey : Text := "revisions:".toList
def recoveriesKey : Text := "recoveries:".toList

/-- How many times the resolver has re-scoped the issue. -/
def revisions (issue : Issue) : Option Nat := counter revisionsKey issue.body

/-- How many times the issue has been rescued out of `fr:blocked`. -/
def recoveries (issue : Issue) : Option Nat := counter recoveriesKey issue.body

def priorityIndex : Label → Option Nat
  | .p0 => some 0
  | .p1 => some 1
  | .p2 => some 2
  | .p3 => some 3
  | _ => none

def priorityDefault : Nat := 2

/-- The strongest declared priority. -/
def priority (issue : Issue) : Nat := (issue.labels.filterMap priorityIndex).min?.getD priorityDefault

def housekeeping (issue : Issue) : Nat := if .followup ∈ issue.labels ∨ .metaIssue ∈ issue.labels then 1 else 0

/-- The sort key of the claim queue, lowest first. -/
def rankKey (dependants : Nat → Nat) (issue : Issue) : ℕ ×ₗ ℤ ×ₗ ℕ ×ₗ ℕ :=
  toLex (issue.priority,toLex (-(dependants issue.number : ℤ),toLex (issue.housekeeping,issue.number)))

end Issue

/-- All issues of the repository, newest first. -/
structure Repository where
  issues : List Issue
  newestFirst : issues.Pairwise fun newer older => older.number < newer.number

namespace Repository

def empty : Repository := ⟨[],.nil⟩

/-- `gh issue list --limit 200`: the most recent issues that match. -/
def list (repository : Repository) (label : Option Label) (state : IssueState) : List Issue :=
  (repository.issues.filter fun issue => issue.state = state ∧ ∀ wanted ∈ label, wanted ∈ issue.labels).take 200

def find (repository : Repository) (number : Nat) : Option Issue :=
  repository.issues.find? fun issue => issue.number = number

/-- A change of one issue's labels, body or state. -/
def modify (repository : Repository) (number : Nat) (change : Issue → Issue) : Repository where
  issues := repository.issues.map fun issue =>
    if issue.number = number then { change issue with number := issue.number } else issue
  newestFirst := by
    apply List.Pairwise.map _ _ repository.newestFirst
    intro newer older lower
    split <;> split <;> exact lower

variable {repository : Repository} {number : Nat} {change : Issue → Issue}

theorem mem_modify {issue : Issue} : issue ∈ (repository.modify number change).issues ↔
    ∃ old ∈ repository.issues, (if old.number = number then { change old with number := old.number } else old) = issue :=
  List.mem_map

/-- An issue of the repository is told by its number. -/
theorem number_unique {first second : Issue} (one : first ∈ repository.issues) (other : second ∈ repository.issues)
    (same : first.number = second.number) : first = second := by
  have distinct : (repository.issues.map (·.number)).Nodup :=
    List.pairwise_map.mpr (repository.newestFirst.imp fun lower => lower.ne')
  exact List.inj_on_of_nodup_map distinct one other same

theorem mem_list {label : Option Label} {state : IssueState} {issue : Issue} (listed : issue ∈ repository.list label state) :
    issue ∈ repository.issues ∧ issue.state = state ∧ ∀ wanted ∈ label, wanted ∈ issue.labels := by
  have matched := List.mem_of_mem_take listed
  simpa using matched

theorem list_nodup {label : Option Label} {state : IssueState} :
    ((repository.list label state).map (·.number)).Nodup := by
  apply List.pairwise_map.mpr
  apply List.Pairwise.imp _ (repository.newestFirst.sublist ((List.take_sublist ..).trans List.filter_sublist))
  exact fun lower => lower.ne'

end Repository

/-- `gh issue edit`: the labels added and removed, as a set union and difference. -/
def editLabels (add remove labels : List Label) : List Label := (labels ∪ add).filter (· ∉ remove)

theorem mem_editLabels {add remove labels : List Label} {label : Label} :
    label ∈ editLabels add remove labels ↔ (label ∈ labels ∨ label ∈ add) ∧ label ∉ remove := by
  simp [editLabels]

end Frankenrust.Orchestrator
