import Frankenrust.Library.Options
import Frankenrust.Library.Ranking
import Frankenrust.Orchestrator.Queue
import Mathlib.Data.List.Dedup

/-! What `claimable` returns where every call succeeds, against the claim queue read off the
whole repository: it sees only the most recent issues of each of its three lists. -/
namespace Frankenrust.Orchestrator
namespace Repository
variable {isWord : Char → Bool} {repository : Repository}

/-- The answers of `gh` where every call succeeds. -/
def answers (repository : Repository) (command : Command) : Option (Answer command) :=
  (Queue.respond ⟨.succeeds,fun _ => none⟩ repository command).1

def Closed (repository : Repository) (number : Nat) : Prop :=
  ∃ issue ∈ repository.issues, issue.number = number ∧ issue.state = .closed

/-- An open ready issue whose parsed dependencies are all closed. -/
def Eligible (isWord : Char → Bool) (repository : Repository) (issue : Issue) : Prop :=
  issue.state = .opened ∧ .ready ∈ issue.labels ∧
    ∃ deps ∈ issue.deps isWord, ∀ number ∈ deps, repository.Closed number

instance {number : Nat} : Decidable (repository.Closed number) :=
  inferInstanceAs (Decidable (∃ issue ∈ repository.issues, issue.number = number ∧ issue.state = .closed))

instance {issue : Issue} : Decidable (repository.Eligible isWord issue) :=
  inferInstanceAs (Decidable (issue.state = .opened ∧ .ready ∈ issue.labels ∧
    ∃ deps ∈ issue.deps isWord, ∀ number ∈ deps, repository.Closed number))

/-- How many of the issues depend on a number. -/
def waiting (isWord : Char → Bool) (issues : List Issue) (number : Nat) : Nat :=
  issues.countP fun issue => (issue.deps isWord).any (·.contains number)

def openIssues (repository : Repository) : List Issue := repository.issues.filter fun issue => issue.state = .opened

/-- The rank of an issue with the true count of open dependants. -/
def trueRank (isWord : Char → Bool) (repository : Repository) (issue : Issue) : ℕ ×ₗ ℤ ×ₗ ℕ ×ₗ ℕ :=
  issue.rankKey (waiting isWord repository.openIssues)

/-- The rank with the dependants among the open issues that are listed. -/
def listedRank (isWord : Char → Bool) (repository : Repository) (issue : Issue) : ℕ ×ₗ ℤ ×ₗ ℕ ×ₗ ℕ :=
  issue.rankKey (waiting isWord (repository.list none .opened))

/-- What may be claimed, most valuable first. -/
def claimQueue (isWord : Char → Bool) (repository : Repository) : List Issue :=
  Ranking.ranked (repository.trueRank isWord) (repository.issues.filter fun issue => repository.Eligible isWord issue)

/-- What the three lists of `claimable` have to hold. -/
structure Within (isWord : Char → Bool) (repository : Repository) : Prop where
  readyRead : ∀ issue ∈ repository.list (some .ready) .opened, (issue.deps isWord).isSome = true
  openRead : ∀ issue ∈ repository.list none .opened, (issue.deps isWord).isSome = true
  listed : ∀ issue ∈ repository.issues, repository.Eligible isWord issue → issue ∈ repository.list (some .ready) .opened
  closed : ∀ issue ∈ repository.issues, repository.Eligible isWord issue → ∀ deps ∈ issue.deps isWord,
    ∀ number ∈ deps, ∃ done ∈ repository.list none .closed, done.number = number
  ranked : ∀ first ∈ repository.issues, repository.Eligible isWord first → ∀ second ∈ repository.issues,
    repository.Eligible isWord second → Ranking.Agree (repository.listedRank isWord) (repository.trueRank isWord) first second

theorem rankKey_number {dependants other : Nat → Nat} {first second : Issue}
    (same : first.rankKey dependants = second.rankKey other) : first.number = second.number := by
  simp only [Issue.rankKey,EmbeddingLike.apply_eq_iff_eq,Prod.mk.injEq] at same
  exact same.2.2.2

theorem ranks_apart {dependants : Nat → Nat} {first second : Issue} (one : first ∈ repository.issues)
    (two : second ∈ repository.issues) (same : first.rankKey dependants = second.rankKey dependants) : first = second :=
  number_unique one two (rankKey_number same)

theorem deps_nodup {issue : Issue} {deps : List Nat} (read : issue.deps isWord = some deps) : deps.Nodup := by
  obtain ⟨found,_,rfl⟩ := Option.map_eq_some_iff.mp read
  exact (List.perm_insertionSort _ _).nodup_iff.mpr (List.nodup_dedup found)

/-- The count of `claimable` is the number of dependants among the issues. -/
theorem countDependants_waiting {issues : List Issue} {dependants : Nat → Nat}
    (counted : Gh.countDependants isWord issues = some dependants) : dependants = waiting isWord issues := by
  obtain ⟨deps,read,rfl⟩ := Option.map_eq_some_iff.mp counted
  have each := Options.mapM_some.mp read
  funext number
  clear counted read
  induction each with
  | nil => rfl
  | @cons issue found issues deps head _ ih =>
    rw [List.flatten_cons,List.count_append,ih,waiting,waiting,List.countP_cons,head,Nat.add_comm]
    congr 1
    simp only [Option.any_some,List.contains_iff_mem]
    rw [(deps_nodup head).count]

theorem countDependants_isSome {issues : List Issue} : (∃ dependants, Gh.countDependants isWord issues = some dependants) ↔
    ∀ issue ∈ issues, (issue.deps isWord).isSome = true := by
  simp only [Gh.countDependants,Option.map_eq_some_iff,Option.isSome_iff_exists]
  rw [← Options.mapM_isSome]
  constructor
  · rintro ⟨_,deps,read,_⟩
    exact ⟨deps,read⟩
  · rintro ⟨deps,read⟩
    exact ⟨_,deps,read,rfl⟩

/-- The numbers that `claimable` takes for closed. -/
def done (repository : Repository) : List Nat := (repository.list none .closed).map (·.number)

/-- The issues that it keeps of the listed ones. -/
def kept (isWord : Char → Bool) (repository : Repository) : List Issue :=
  (repository.list (some .ready) .opened).filter fun issue => Gh.unblocked isWord repository.done issue = some true

theorem value_fetch {label : Option Label} {state : IssueState} :
    (Gh.fetch label state).value repository.answers = some (repository.list label state) := rfl

theorem value_closedNumbers : Gh.closedNumbers.value repository.answers = some repository.done := rfl

theorem value_claimable : (Gh.claimable isWord).value repository.answers =
    ((repository.list (some .ready) .opened).mapM (Gh.unblocked isWord repository.done)).bind fun eligible =>
      (Gh.countDependants isWord (repository.list none .opened)).map fun dependants =>
        Ranking.ranked (·.rankKey dependants)
          ((((repository.list (some .ready) .opened).zip eligible).filter (·.2)).map (·.1)) := by
  simp only [Gh.claimable,Program.bind_eq,Program.value_bind,value_closedNumbers,value_fetch,Option.bind_some]
  cases (repository.list (some .ready) .opened).mapM (Gh.unblocked isWord repository.done) with
  | none => rfl
  | some eligible =>
    simp only [Program.value_bind,value_fetch,Option.bind_some]
    cases Gh.countDependants isWord (repository.list none .opened) with
    | none => rfl
    | some dependants => rfl

theorem mem_done {number : Nat} (member : number ∈ repository.done) : repository.Closed number := by
  obtain ⟨issue,listed,rfl⟩ := List.mem_map.mp member
  obtain ⟨inside,closed,_⟩ := mem_list listed
  exact ⟨issue,inside,rfl,closed⟩

theorem unblocked_some {issue : Issue} : Gh.unblocked isWord repository.done issue = some true ↔
    ∃ deps ∈ issue.deps isWord, ∀ number ∈ deps, number ∈ repository.done := by
  simp [Gh.unblocked,Option.map_eq_some_iff]

theorem unblocked_isSome {issues : List Issue} : (∃ eligible, issues.mapM (Gh.unblocked isWord repository.done) =
    some eligible) ↔ ∀ issue ∈ issues, (issue.deps isWord).isSome = true := by
  have parsed (issue : Issue) : (∃ value, Gh.unblocked isWord repository.done issue = some value) ↔
      (issue.deps isWord).isSome = true := by
    cases read : issue.deps isWord <;> simp [Gh.unblocked,read]
  rw [Options.mapM_isSome]
  simp only [parsed]

/-- Whatever is kept is eligible. -/
theorem kept_eligible {issue : Issue} (member : issue ∈ repository.kept isWord) :
    issue ∈ repository.issues ∧ repository.Eligible isWord issue := by
  obtain ⟨listed,unblocked⟩ := List.mem_filter.mp member
  obtain ⟨inside,opened,labelled⟩ := mem_list listed
  obtain ⟨deps,read,closed⟩ := unblocked_some.mp (of_decide_eq_true unblocked)
  exact ⟨inside,opened,labelled .ready rfl,deps,read,fun number member => mem_done (closed number member)⟩

/-- The value is there where every listed issue can be read. -/
theorem value_kept {issues : List Issue} : (Gh.claimable isWord).value repository.answers = some issues ↔
    ((∀ issue ∈ repository.list (some .ready) .opened, (issue.deps isWord).isSome = true) ∧
      ∀ issue ∈ repository.list none .opened, (issue.deps isWord).isSome = true) ∧
      Ranking.ranked (repository.listedRank isWord) (repository.kept isWord) = issues := by
  rw [value_claimable,← unblocked_isSome,← countDependants_isSome]
  constructor
  · intro value
    obtain ⟨eligible,read,rest⟩ := Option.bind_eq_some_iff.mp value
    obtain ⟨dependants,counted,same⟩ := Option.map_eq_some_iff.mp rest
    refine ⟨⟨⟨eligible,read⟩,dependants,counted⟩,?_⟩
    rw [Options.filter_zip read] at same
    rwa [countDependants_waiting counted] at same
  · rintro ⟨⟨⟨eligible,read⟩,dependants,counted⟩,rfl⟩
    rw [read,counted,Option.bind_some,Option.map_some,Options.filter_zip read,countDependants_waiting counted]
    rfl

/-- Nothing eligible is missed where it is listed and its dependencies are. -/
theorem kept_perm_iff : (repository.kept isWord).Perm
    (repository.issues.filter fun issue => repository.Eligible isWord issue) ↔
      ∀ issue ∈ repository.issues, repository.Eligible isWord issue →
        issue ∈ repository.list (some .ready) .opened ∧
          ∀ deps ∈ issue.deps isWord, ∀ number ∈ deps, number ∈ repository.done := by
  have distinct : repository.issues.Nodup :=
    repository.newestFirst.imp fun lower same => lower.ne' (congrArg Issue.number same)
  have keptDistinct : (repository.kept isWord).Nodup :=
    distinct.sublist (List.filter_sublist.trans ((List.take_sublist ..).trans List.filter_sublist))
  rw [List.perm_ext_iff_of_nodup keptDistinct (distinct.filter _)]
  constructor
  · intro same issue inside eligible
    have member := (same issue).mpr (List.mem_filter.mpr ⟨inside,decide_eq_true eligible⟩)
    obtain ⟨listed,unblocked⟩ := List.mem_filter.mp member
    obtain ⟨deps,read,closed⟩ := unblocked_some.mp (of_decide_eq_true unblocked)
    refine ⟨listed,?_⟩
    intro other also
    cases Option.mem_unique read also
    exact closed
  · intro within issue
    constructor
    · intro member
      obtain ⟨inside,eligible⟩ := kept_eligible member
      exact List.mem_filter.mpr ⟨inside,decide_eq_true eligible⟩
    · intro member
      obtain ⟨inside,eligible⟩ := List.mem_filter.mp member
      have eligible := of_decide_eq_true eligible
      obtain ⟨listed,closed⟩ := within issue inside eligible
      obtain ⟨deps,read,_⟩ := eligible.2.2
      exact List.mem_filter.mpr ⟨listed,decide_eq_true (unblocked_some.mpr ⟨deps,read,closed deps read⟩)⟩

theorem mem_done_iff {number : Nat} : number ∈ repository.done ↔ ∃ issue ∈ repository.list none .closed, issue.number = number :=
  List.mem_map

/-- `claimable` returns the claim queue exactly where its lists hold what they have to. -/
theorem claimable_exact_iff : (Gh.claimable isWord).value repository.answers = some (repository.claimQueue isWord) ↔
    repository.Within isWord := by
  have apart : ∀ first ∈ repository.kept isWord, ∀ second ∈ repository.kept isWord,
      repository.listedRank isWord first = repository.listedRank isWord second → first = second :=
    fun first one second two => ranks_apart (kept_eligible one).1 (kept_eligible two).1
  have apartTrue : ∀ first ∈ repository.kept isWord, ∀ second ∈ repository.kept isWord,
      repository.trueRank isWord first = repository.trueRank isWord second → first = second :=
    fun first one second two => ranks_apart (kept_eligible one).1 (kept_eligible two).1
  rw [value_kept,claimQueue,Ranking.ranked_eq_iff apart apartTrue]
  constructor
  · rintro ⟨⟨readyRead,openRead⟩,same,agree⟩
    have missed := kept_perm_iff.mp same
    have kept {issue : Issue} (inside : issue ∈ repository.issues) (eligible : repository.Eligible isWord issue) :
        issue ∈ repository.kept isWord :=
      same.mem_iff.mpr (List.mem_filter.mpr ⟨inside,decide_eq_true eligible⟩)
    refine ⟨readyRead,openRead,fun issue inside eligible => (missed issue inside eligible).1,?_,?_⟩
    · intro issue inside eligible deps read number member
      exact mem_done_iff.mp ((missed issue inside eligible).2 deps read number member)
    · exact fun first one firstEligible second two secondEligible =>
        agree first (kept one firstEligible) second (kept two secondEligible)
  · intro within
    refine ⟨⟨within.readyRead,within.openRead⟩,kept_perm_iff.mpr ?_,?_⟩
    · intro issue inside eligible
      refine ⟨within.listed issue inside eligible,?_⟩
      intro deps read number member
      exact mem_done_iff.mpr (within.closed issue inside eligible deps read number member)
    · intro first one second two
      obtain ⟨one,firstEligible⟩ := kept_eligible one
      obtain ⟨two,secondEligible⟩ := kept_eligible two
      exact within.ranked first one firstEligible second two secondEligible

/-- An issue that waits for the oldest of 201 closed issues. -/
def aged : Repository where
  issues := ⟨202,"Depends on: #1".toList,[.ready],.opened⟩ ::
    (List.range 201).reverse.map fun index => ⟨index + 1,[],[],.closed⟩
  newestFirst := by
    rw [List.pairwise_cons,List.pairwise_map,List.pairwise_reverse]
    constructor
    · intro issue member
      obtain ⟨index,inside,rfl⟩ := List.mem_map.mp member
      have below : index < 201 := List.mem_range.mp (List.mem_reverse.mp inside)
      exact Nat.succ_lt_succ below
    · apply List.pairwise_lt_range.imp
      intro older newer before
      exact Nat.succ_lt_succ before

theorem claimable_starves : (Gh.claimable Char.isAlphanum).value aged.answers ≠ some (aged.claimQueue Char.isAlphanum) := by
  have value : (Gh.claimable Char.isAlphanum).value aged.answers = some [] := by decide +kernel
  have expected : (aged.claimQueue Char.isAlphanum).length = 1 := by decide +kernel
  rw [value]
  intro same
  rw [← Option.some.inj same] at expected
  contradiction

end Repository
end Frankenrust.Orchestrator
