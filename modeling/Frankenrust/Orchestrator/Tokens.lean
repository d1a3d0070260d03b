import Frankenrust.Orchestrator.Calls
import Frankenrust.Orchestrator.Queue

/-! Label exclusivity. Whoever is to move an issue out of a state holds a token for it: the
workers for what they have claimed, the run lane for what it has found ready, the unblock lane
for what it has found blocked. Nobody else moves the issue as long as the token is held. -/
namespace Frankenrust.Orchestrator

/-- An issue and the state that it carries. -/
abbrev Token := Nat × Label

/-- The one state among the labels. -/
def Only (labels : List Label) (state : Label) : Prop :=
  ∀ label, label.isState = true → (label ∈ labels ↔ label = state)

def AtMostOne (labels : List Label) : Prop :=
  ∀ first ∈ labels, ∀ second ∈ labels, first.isState = true → second.isState = true → first = second

/-- What an edit makes of an issue that carries one state. -/
def Moves (add remove : List Label) (old new : Label) : Prop :=
  ∀ label, label.isState = true → ((label = old ∨ label ∈ add) ∧ label ∉ remove ↔ label = new)

def Stateless (labels : List Label) : Prop := ∀ label ∈ labels, label.isState = false

theorem only_editLabels {add remove labels : List Label} {old new : Label} (moves : Moves add remove old new)
    (only : Only labels old) : Only (editLabels add remove labels) new := by
  intro label state
  rw [mem_editLabels,only label state]
  exact moves label state

theorem stateless_editLabels {add remove labels : List Label} {label : Label} (stateless : Stateless (add ++ remove))
    (state : label.isState = true) : label ∈ editLabels add remove labels ↔ label ∈ labels := by
  have added : label ∉ add := fun member => by simp [stateless label (List.mem_append_left _ member)] at state
  have removed : label ∉ remove := fun member => by simp [stateless label (List.mem_append_right _ member)] at state
  simp [mem_editLabels,added,removed]

theorem moves_of_labels {add remove : List Label} {old new : Label}
    (states : ∀ label ∈ [Label.ready,.claimed,.blocked,.questioned],
      ((label = old ∨ label ∈ add) ∧ label ∉ remove ↔ label = new)) : Moves add remove old new := by
  intro label state
  apply states
  cases label <;> first | contradiction | decide

namespace Repository
variable {repository : Repository} {number : Nat} {change : Issue → Issue}

def Open (repository : Repository) (number : Nat) : Prop :=
  ∃ issue ∈ repository.issues, issue.number = number ∧ issue.state = .opened

def Known (repository : Repository) (number : Nat) : Prop := ∃ issue ∈ repository.issues, issue.number = number

/-- What the labels of an issue satisfy as long as it is open. -/
def Shows (repository : Repository) (number : Nat) (property : List Label → Prop) : Prop :=
  ∀ issue ∈ repository.issues, issue.number = number → issue.state = .opened → property issue.labels

/-- The issue exists and, if it is open, carries the token's state and no other. -/
def Carries (repository : Repository) (token : Token) : Prop :=
  repository.Known token.1 ∧ repository.Shows token.1 fun labels => Only labels token.2

/-- No open issue carries two states. -/
def Tidy (repository : Repository) : Prop := ∀ number, repository.Shows number AtMostOne

/-- The issue is in the queue: it carries a state, unless it is closed. -/
def Queued (repository : Repository) (number : Nat) : Prop :=
  repository.Known number ∧ repository.Shows number fun labels => ∃ label ∈ labels, label.isState = true

/-- Nobody reopens an issue. -/
def Closing (change : Issue → Issue) : Prop := ∀ issue, (change issue).state = .opened → issue.state = .opened

theorem known_modify {wanted : Nat} : (repository.modify number change).Known wanted ↔ repository.Known wanted := by
  constructor
  · rintro ⟨issue,member,same⟩
    obtain ⟨old,inside,rfl⟩ := mem_modify.mp member
    refine ⟨old,inside,?_⟩
    rw [← same]
    split <;> rfl
  · rintro ⟨old,inside,same⟩
    refine ⟨_,mem_modify.mpr ⟨old,inside,rfl⟩,?_⟩
    rw [← same]
    split <;> rfl

theorem open_modify {wanted : Nat} (closing : Closing change) (opened : (repository.modify number change).Open wanted) :
    repository.Open wanted := by
  obtain ⟨issue,member,same,opened⟩ := opened
  obtain ⟨old,inside,rfl⟩ := mem_modify.mp member
  split at same
  · rename_i changed
    rw [if_pos changed] at opened
    exact ⟨old,inside,same,closing old opened⟩
  · rename_i other
    rw [if_neg other] at opened
    exact ⟨old,inside,same,opened⟩

/-- What an issue shows, across a change that may close it. -/
theorem shows_modify {wanted : Nat} {before after : List Label → Prop} (closing : Closing change)
    (changed : wanted = number → ∀ issue, before issue.labels → after (change issue).labels)
    (other : wanted ≠ number → ∀ labels, before labels → after labels) (held : repository.Shows wanted before) :
    (repository.modify number change).Shows wanted after := by
  intro issue member same opened
  obtain ⟨old,inside,rfl⟩ := mem_modify.mp member
  by_cases hit : old.number = number
  · rw [if_pos hit] at same opened ⊢
    exact changed (same.symm.trans hit) old (held old inside same (closing old opened))
  · rw [if_neg hit] at same opened ⊢
    exact other (fun equal => hit (same.trans equal)) _ (held old inside same opened)

theorem carries_closed {wanted : Nat} {state other : Label} (closed : ¬repository.Open wanted)
    (carries : repository.Carries (wanted,state)) : repository.Carries (wanted,other) := by
  refine ⟨carries.1,?_⟩
  intro issue member same opened
  exact absurd ⟨issue,member,same,opened⟩ closed

theorem carries_same {wanted : Nat} {state other : Label} (opened : repository.Open wanted)
    (states : state.isState = true) (carries : repository.Carries (wanted,state))
    (also : repository.Carries (wanted,other)) : state = other := by
  obtain ⟨issue,member,same,opened⟩ := opened
  have inside := (carries.2 issue member same opened state states).mpr rfl
  exact (also.2 issue member same opened state states).mp inside

section File
variable {wanted : Nat} {issue : Issue} {newest : ∀ older ∈ repository.issues, older.number < issue.number}

theorem known_older (known : repository.Known wanted) (newest : ∀ older ∈ repository.issues, older.number < issue.number) :
    wanted ≠ issue.number := by
  obtain ⟨older,member,rfl⟩ := known
  exact (newest older member).ne

theorem shows_file {property : List Label → Prop} (other : wanted ≠ issue.number)
    (shows : repository.Shows wanted property) : (repository.file issue newest).Shows wanted property := by
  intro found member same opened
  rcases List.mem_cons.mp member with rfl | member
  · exact absurd same.symm other
  · exact shows found member same opened

theorem known_file (known : repository.Known wanted) : (repository.file issue newest).Known wanted := by
  obtain ⟨older,member,same⟩ := known
  exact ⟨older,List.mem_cons_of_mem _ member,same⟩

theorem open_file (other : wanted ≠ issue.number) (opened : (repository.file issue newest).Open wanted) :
    repository.Open wanted := by
  obtain ⟨found,member,same,opened⟩ := opened
  rcases List.mem_cons.mp member with rfl | member
  · exact absurd same.symm other
  · exact ⟨found,member,same,opened⟩

end File

theorem closing_enqueue : Closing Issue.enqueue := by
  intro issue opened
  unfold Issue.enqueue at opened
  split at opened <;> exact opened

/-- An issue that is in the queue is left as it is. -/
theorem enqueue_queued {issue : Issue} (queued : ∃ label ∈ issue.labels, label.isState = true) : issue.enqueue = issue :=
  if_pos (List.any_eq_true.mpr queued)

/-- A change that leaves every state in place, and may close the issue. -/
def Calm (change : Issue → Issue) : Prop :=
  Closing change ∧ ∀ issue label, label.isState = true → (label ∈ (change issue).labels ↔ label ∈ issue.labels)

/-- Tokens that are held: each for the state that its issue carries, and none twice. -/
structure Owned (repository : Repository) (tokens : List Token) : Prop where
  states : ∀ token ∈ tokens, token.2.isState = true
  carries : ∀ token ∈ tokens, repository.Carries token
  single : ∀ token, repository.Open token.1 → tokens.count token ≤ 1

theorem owned_fewer {tokens fewer : List Token} (less : ∀ token, fewer.count token ≤ tokens.count token)
    (owned : repository.Owned tokens) : repository.Owned fewer := by
  have inside {token : Token} (member : token ∈ fewer) : token ∈ tokens :=
    List.count_pos_iff.mp ((List.count_pos_iff.mpr member).trans_le (less token))
  refine ⟨fun token member => owned.states token (inside member),fun token member => owned.carries token (inside member),?_⟩
  intro token opened
  exact (less token).trans (owned.single token opened)

theorem tidy_calm (calm : Calm change) (tidy : repository.Tidy) : (repository.modify number change).Tidy := by
  intro wanted
  apply shows_modify calm.1 _ (fun _ _ => id) (tidy wanted)
  intro _ old once first one second other firstState secondState
  exact once first ((calm.2 old first firstState).mp one) second ((calm.2 old second secondState).mp other)
    firstState secondState

theorem carries_calm {token : Token} (calm : Calm change) (carries : repository.Carries token) :
    (repository.modify number change).Carries token := by
  refine ⟨known_modify.mpr carries.1,?_⟩
  apply shows_modify calm.1 _ (fun _ _ => id) carries.2
  intro _ old only label state
  rw [calm.2 old label state]
  exact only label state

theorem owned_calm {tokens : List Token} (calm : Calm change) (owned : repository.Owned tokens) :
    (repository.modify number change).Owned tokens := by
  refine ⟨owned.states,fun token member => carries_calm calm (owned.carries token member),?_⟩
  intro token opened
  exact owned.single token (open_modify calm.1 opened)

theorem queued_calm {wanted : Nat} (calm : Calm change) (queued : repository.Queued wanted) :
    (repository.modify number change).Queued wanted := by
  refine ⟨known_modify.mpr queued.1,?_⟩
  apply shows_modify calm.1 _ (fun _ _ => id) queued.2
  rintro _ old ⟨label,inside,state⟩
  exact ⟨label,(calm.2 old label state).mpr inside,state⟩

theorem closing_relabel {add remove : List Label} : Closing (Issue.relabel add remove) := fun _ => id

theorem calm_relabel {add remove : List Label} (stateless : Stateless (add ++ remove)) : Calm (Issue.relabel add remove) :=
  ⟨closing_relabel,fun _ _ => stateless_editLabels stateless⟩

theorem calm_rewrite {body : Text} : Calm (Issue.rewrite body) := ⟨fun _ => id,fun _ _ _ => Iff.rfl⟩

theorem calm_shut : Calm Issue.shut := ⟨nofun,fun _ _ _ => Iff.rfl⟩

theorem calm_touch {touch : Queue.Touch} (stateless : Stateless (touch.add ++ touch.remove)) : Calm touch.apply := by
  unfold Queue.Touch.apply
  constructor
  · intro issue opened
    dsimp only at opened
    split at opened
    · contradiction
    · exact opened
  · intro issue label state
    dsimp only
    split <;> exact stateless_editLabels stateless state

end Repository

/-- The tokens of a worker: the one for its claim, until an edit of its own has taken effect. -/
def Worker.tokens (worker : Worker) : List Token := if worker.edited then [] else [(worker.issue.number,.claimed)]

/-- The tokens after an edit of the labels. -/
def advance (number : Nat) (add remove : List Label) (own : List Token) : List Token :=
  if (add ++ remove).any Label.isState then
    own.filter (·.1 ≠ number) ++ if .claimed ∈ add ∧ .claimed ∉ remove then [(number,.claimed)] else []
  else own

/-- A token for every issue that is found in the state that an actor looks out for. -/
def learn (wanted : Option Label) (own : List Token) : Option Label → IssueState → List Issue → List Token
  | some label, .opened, found =>
    if wanted = some label then own.filter (·.2 ≠ label) ++ found.map fun issue => (issue.number,label) else own
  | _, _, _ => own

def follow (wanted : Option Label) (reaction : Queue.Reaction) (repository : Repository) (own : List Token) :
    Command → List Token
  | .edit number add remove => if reaction.outcome.applies then advance number add remove own else own
  | .issueList label state =>
    if reaction.outcome = .succeeds then learn wanted own label state (repository.list label state) else own
  | _ => own

/-- What an actor with these tokens may do. A worker handles a crash only while it has its token. -/
def contract (wanted : Option Label) : Program.Contract Command Answer (List Token) where
  guard
    | .edit number add remove, own => Stateless (add ++ remove) ∨
        ∃ old new, (number,old) ∈ own ∧ new.isState = true ∧ Moves add remove old new ∧
          (.claimed ∈ add → wanted = some .ready)
    | _, _ => True
  after
    | .edit number add remove, own, answer, later => ∃ outcome : Outcome, answer = outcome.edited ∧
        later = if outcome.applies then advance number add remove own else own
    | .issueList label state, own, answer, later =>
      (∀ found, answer = some (some found) → later = learn wanted own label state found ∧
        (found.map (·.number)).Nodup) ∧ ((∀ found, answer ≠ some (some found)) → later = own)
    | .record event, own, _, later => later = own ∧ (wanted = none → event = "work_crash" → own ≠ [])
    | _, own, _, later => later = own

/-- The states of an actor's tokens: those it looks out for and those it has claimed. -/
def Allowed (wanted : Option Label) (own : List Token) : Prop :=
  ∀ token ∈ own, token.2 = .claimed ∧ wanted ≠ some .blocked ∨ some token.2 = wanted

namespace Repository
variable {repository : Repository} {wanted : Option Label} {own rest : List Token} {reaction : Queue.Reaction}

/-- A token that somebody else holds for the same issue is for a closed issue. -/
theorem foreign_closed {number : Nat} {old other : Label} (owned : repository.Owned (own ++ rest))
    (held : (number,old) ∈ own) (foreign : (number,other) ∈ rest) : ¬repository.Open number := by
  intro opened
  have member : (number,old) ∈ own ++ rest := List.mem_append_left _ held
  have same : old = other := carries_same opened (owned.states _ member) (owned.carries _ member)
    (owned.carries _ (List.mem_append_right _ foreign))
  have twice := owned.single (number,old) opened
  rw [List.count_append] at twice
  have first := List.count_pos_iff.mpr held
  have second : 0 < rest.count (number,old) := List.count_pos_iff.mpr (by rwa [same])
  omega

theorem mem_advance {number : Nat} {add remove : List Label} {token : Token}
    (changes : (add ++ remove).any Label.isState = true) : token ∈ advance number add remove own ↔
      token ∈ own ∧ token.1 ≠ number ∨ token = (number,.claimed) ∧ .claimed ∈ add ∧ .claimed ∉ remove := by
  simp only [advance,if_pos changes,List.mem_append,List.mem_filter,decide_eq_true_eq]
  split <;> simp_all

theorem count_advance {number : Nat} {add remove : List Label} {token : Token}
    (changes : (add ++ remove).any Label.isState = true) : (advance number add remove own).count token ≤
      if token.1 = number then 1 else own.count token := by
  simp only [advance,if_pos changes,List.count_append]
  by_cases same : token.1 = number
  · rw [if_pos same]
    have gone : (own.filter (·.1 ≠ number)).count token = 0 := by
      apply List.count_eq_zero.mpr
      intro inside
      exact absurd same (by simpa using (List.mem_filter.mp inside).2)
    rw [gone,Nat.zero_add]
    split
    · exact List.count_le_length
    · exact Nat.zero_le _
  · rw [if_neg same]
    have fewer : (own.filter (·.1 ≠ number)).count token ≤ own.count token :=
      List.Sublist.count_le _ List.filter_sublist
    have none : (if Label.claimed ∈ add ∧ Label.claimed ∉ remove then [(number,Label.claimed)] else []).count token = 0 := by
      apply List.count_eq_zero.mpr
      split
      · intro inside
        exact same (congrArg Prod.fst (List.mem_singleton.mp inside))
      · exact List.not_mem_nil
    omega

/-- An edit out of a state for which a token is held. -/
theorem owned_edit {number : Nat} {add remove : List Label} {old new : Label} (owned : repository.Owned (own ++ rest))
    (held : (number,old) ∈ own) (moves : Moves add remove old new)
    (changes : (add ++ remove).any Label.isState = true) :
    (repository.modify number (Issue.relabel add remove)).Owned (advance number add remove own ++ rest) := by
  have member : (number,old) ∈ own ++ rest := List.mem_append_left _ held
  have kept {token : Token} (other : token.1 ≠ number) (inside : token ∈ own ++ rest) :
      (repository.modify number (Issue.relabel add remove)).Carries token := by
    have carried := owned.carries token inside
    refine ⟨known_modify.mpr carried.1,?_⟩
    exact shows_modify closing_relabel (fun same => absurd same other) (fun _ _ => id) carried.2
  have moved : (repository.modify number (Issue.relabel add remove)).Carries (number,new) := by
    have carried := owned.carries _ member
    refine ⟨known_modify.mpr carried.1,?_⟩
    exact shows_modify closing_relabel (fun _ _ => only_editLabels moves) (fun other => absurd rfl other) carried.2
  constructor
  · intro token inside
    rcases List.mem_append.mp inside with inside | inside
    · rcases (mem_advance changes).mp inside with ⟨inside,_⟩ | ⟨rfl,_⟩
      · exact owned.states token (List.mem_append_left _ inside)
      · rfl
    · exact owned.states token (List.mem_append_right _ inside)
  · intro token inside
    rcases List.mem_append.mp inside with inside | inside
    · rcases (mem_advance changes).mp inside with ⟨inside,other⟩ | ⟨rfl,added⟩
      · exact kept other (List.mem_append_left _ inside)
      · have claimed : Label.claimed = new := (moves .claimed rfl).mp ⟨.inr added.1,added.2⟩
        rwa [claimed]
    · by_cases other : token.1 = number
      · have same : token = (number,token.2) := Prod.ext other rfl
        rw [same] at inside ⊢
        exact carries_closed (fun opened => foreign_closed owned held inside (open_modify closing_relabel opened)) moved
      · exact kept other (List.mem_append_right _ inside)
  · intro token opened
    have opened := open_modify closing_relabel opened
    have before := owned.single token opened
    have later : (advance number add remove own).count token ≤ if token.1 = number then 1 else own.count token :=
      count_advance changes
    rw [List.count_append] at before ⊢
    split at later
    · rename_i same
      have absent : rest.count token = 0 := by
        apply List.count_eq_zero.mpr
        intro inside
        have pair : token = (number,token.2) := Prod.ext same rfl
        rw [pair] at inside
        exact foreign_closed owned held inside (same ▸ opened)
      omega
    · omega

theorem tidy_edit {number : Nat} {add remove : List Label} {old new : Label} (tidy : repository.Tidy)
    (carries : repository.Carries (number,old)) (moves : Moves add remove old new) :
    (repository.modify number (Issue.relabel add remove)).Tidy := by
  intro wanted
  by_cases same : wanted = number
  · subst same
    have shown : repository.Shows wanted fun labels => Only labels old := carries.2
    refine shows_modify closing_relabel ?_ (fun other => absurd rfl other) shown
    intro _ issue only first one second other firstState secondState
    have moved := only_editLabels moves only
    exact ((moved first firstState).mp one).trans ((moved second secondState).mp other).symm
  · exact shows_modify closing_relabel (fun equal => absurd equal same) (fun _ _ => id) (tidy wanted)

theorem queued_edit {wanted number : Nat} {add remove : List Label} {old new : Label}
    (carries : repository.Carries (number,old)) (state : new.isState = true) (moves : Moves add remove old new)
    (queued : repository.Queued wanted) : (repository.modify number (Issue.relabel add remove)).Queued wanted := by
  refine ⟨known_modify.mpr queued.1,?_⟩
  by_cases same : wanted = number
  · subst same
    have shown : repository.Shows wanted fun labels => Only labels old := carries.2
    refine shows_modify closing_relabel ?_ (fun other => absurd rfl other) shown
    intro _ issue only
    exact ⟨new,(only_editLabels moves only new state).mpr rfl,state⟩
  · exact shows_modify closing_relabel (fun equal => absurd equal same) (fun _ _ => id) queued.2

/-- What has just been listed in a state carries it, and nobody else has a token for the state. -/
theorem owned_learn {label : Label} (tidy : repository.Tidy) (state : label.isState = true)
    (owned : repository.Owned (own ++ rest)) (apart : ∀ token ∈ rest, token.2 ≠ label) :
    repository.Owned ((own.filter (·.2 ≠ label) ++
      (repository.list (some label) .opened).map fun issue => (issue.number,label)) ++ rest) := by
  have listed {token : Token} (inside : token ∈ (repository.list (some label) .opened).map fun issue => (issue.number,label)) :
      token.2 = label ∧ repository.Carries token := by
    obtain ⟨issue,member,rfl⟩ := List.mem_map.mp inside
    obtain ⟨exists_,opened,labelled⟩ := mem_list member
    refine ⟨rfl,⟨issue,exists_,rfl⟩,?_⟩
    intro other also same _ found foundState
    cases number_unique also exists_ same
    constructor
    · intro within
      exact tidy issue.number issue exists_ rfl opened found within label (labelled label rfl) foundState state
    · rintro rfl
      exact labelled found rfl
  have once : ((repository.list (some label) .opened).map fun issue => (issue.number,label)).Nodup := by
    apply List.Nodup.of_map Prod.fst
    rw [List.map_map]
    exact list_nodup
  constructor
  · intro token inside
    rcases List.mem_append.mp inside with inside | inside
    · rcases List.mem_append.mp inside with inside | inside
      · exact owned.states token (List.mem_append_left _ (List.mem_of_mem_filter inside))
      · rw [(listed inside).1]
        exact state
    · exact owned.states token (List.mem_append_right _ inside)
  · intro token inside
    rcases List.mem_append.mp inside with inside | inside
    · rcases List.mem_append.mp inside with inside | inside
      · exact owned.carries token (List.mem_append_left _ (List.mem_of_mem_filter inside))
      · exact (listed inside).2
    · exact owned.carries token (List.mem_append_right _ inside)
  · intro token opened
    have before := owned.single token opened
    rw [List.count_append] at before
    rw [List.count_append,List.count_append]
    by_cases same : token.2 = label
    · have gone : (own.filter (·.2 ≠ label)).count token = 0 :=
        List.count_eq_zero.mpr fun inside => absurd same (by simpa using (List.mem_filter.mp inside).2)
      have absent : rest.count token = 0 := List.count_eq_zero.mpr fun inside => apart token inside same
      have single := List.nodup_iff_count_le_one.mp once token
      omega
    · have fewer : (own.filter (·.2 ≠ label)).count token ≤ own.count token :=
        List.Sublist.count_le _ List.filter_sublist
      have absent : ((repository.list (some label) .opened).map fun issue => (issue.number,label)).count token = 0 :=
        List.count_eq_zero.mpr fun inside => same (listed inside).1
      omega

/-- One call of one actor, which meets its contract, while the others hold the rest. -/
structure Kept (repository later : Repository) (wanted : Option Label) (own rest : List Token) : Prop where
  tidy : later.Tidy
  owned : later.Owned (own ++ rest)
  allowed : Allowed wanted own
  queued : ∀ number, repository.Queued number → later.Queued number

theorem kept_refl (tidy : repository.Tidy) (owned : repository.Owned (own ++ rest)) (allowed : Allowed wanted own) :
    Kept repository repository wanted own rest :=
  ⟨tidy,owned,allowed,fun _ => id⟩

theorem kept_calm {number : Nat} {change : Issue → Issue} (calm : Calm change) (tidy : repository.Tidy)
    (owned : repository.Owned (own ++ rest)) (allowed : Allowed wanted own) :
    Kept repository (repository.modify number change) wanted own rest :=
  ⟨tidy_calm calm tidy,owned_calm calm owned,allowed,fun _ => queued_calm calm⟩

theorem kept_edit {number : Nat} {add remove : List Label} (tidy : repository.Tidy)
    (owned : repository.Owned (own ++ rest)) (allowed : Allowed wanted own)
    (guard : (contract wanted).guard (.edit number add remove) own) :
    Kept repository (repository.modify number (Issue.relabel add remove)) wanted (advance number add remove own) rest := by
  by_cases changes : (add ++ remove).any Label.isState = true
  · rcases guard with stateless | ⟨old,new,held,state,moves,claims⟩
    · obtain ⟨label,member,isState⟩ := List.any_eq_true.mp changes
      rw [stateless label member] at isState
      contradiction
    have carries := owned.carries _ (List.mem_append_left _ held)
    refine ⟨tidy_edit tidy carries moves,owned_edit owned held moves changes,?_,fun _ => queued_edit carries state moves⟩
    intro token inside
    rcases (mem_advance changes).mp inside with ⟨inside,_⟩ | ⟨rfl,added,_⟩
    · exact allowed token inside
    · exact .inl ⟨rfl,fun blocked => nomatch (claims added).symm.trans blocked⟩
  · have stateless : Stateless (add ++ remove) := fun label member => by
      simpa using List.any_eq_false.mp (Bool.eq_false_iff.mpr changes) label member
    rw [advance,if_neg changes]
    exact kept_calm (calm_relabel stateless) tidy owned allowed

theorem kept_learn {label : Option Label} {state : IssueState} (tidy : repository.Tidy)
    (owned : repository.Owned (own ++ rest)) (allowed : Allowed wanted own)
    (wantedState : ∀ found ∈ wanted, found.isState = true) (apart : ∀ token ∈ rest, some token.2 ≠ wanted) :
    Kept repository repository wanted (learn wanted own label state (repository.list label state)) rest := by
  unfold learn
  split
  · rename_i label
    split
    · rename_i same
      subst same
      have distinct : ∀ token ∈ rest, token.2 ≠ label := fun token inside equal => apart token inside (congrArg some equal)
      refine ⟨tidy,owned_learn tidy (wantedState label rfl) owned distinct,?_,fun _ => id⟩
      intro token inside
      rcases List.mem_append.mp inside with inside | inside
      · exact allowed token (List.mem_of_mem_filter inside)
      · obtain ⟨issue,_,rfl⟩ := List.mem_map.mp inside
        exact .inr rfl
    · exact kept_refl tidy owned allowed
  · exact kept_refl tidy owned allowed

theorem respond_kept {command : Command} (tidy : repository.Tidy) (owned : repository.Owned (own ++ rest))
    (allowed : Allowed wanted own) (wantedState : ∀ found ∈ wanted, found.isState = true)
    (apart : ∀ token ∈ rest, some token.2 ≠ wanted) (guard : (contract wanted).guard command own) :
    Kept repository (Queue.respond reaction repository command).2 wanted (follow wanted reaction repository own command)
      rest := by
  have still := kept_refl tidy owned allowed
  cases command with
  | issueList label state =>
    simp only [Queue.respond,follow]
    split
    · exact kept_learn tidy owned allowed wantedState apart
    · exact still
  | edit number add remove =>
    simp only [Queue.respond,follow]
    split
    · exact kept_edit tidy owned allowed guard
    · exact still
  | editBody number body =>
    simp only [Queue.respond,follow]
    split
    · exact kept_calm calm_rewrite tidy owned allowed
    · exact still
  | close number =>
    simp only [Queue.respond,follow]
    split
    · exact kept_calm calm_shut tidy owned allowed
    · exact still
  | _ => exact still

/-- The tokens that are left are those that the contract allows for. -/
theorem follow_after {command : Command} (crash : wanted = none → command = .record "work_crash" → own ≠ []) :
    (contract wanted).after command own (Queue.respond reaction repository command).1
      (follow wanted reaction repository own command) := by
  cases command with
  | edit number add remove => exact ⟨reaction.outcome,rfl,rfl⟩
  | issueList label state =>
    simp only [contract,Queue.respond,follow]
    cases reaction.outcome with
    | succeeds =>
      constructor
      · intro found same
        cases same
        exact ⟨rfl,list_nodup⟩
      · intro other
        exact absurd rfl (other _)
    | fails => exact ⟨nofun,fun _ => rfl⟩
    | raises applied => exact ⟨nofun,fun _ => rfl⟩
  | record event =>
    refine ⟨rfl,?_⟩
    intro worker crashes
    exact crash worker (congrArg Command.record crashes)
  | _ => exact rfl

/-- One call of an actor that meets its contract, while the others hold the rest. -/
theorem call_kept {α : Type} {command : Command} {next : Option (Answer command) → Work α}
    {post : Option α → List Token → Prop} (reaction : Queue.Reaction) (tidy : repository.Tidy)
    (owned : repository.Owned (own ++ rest)) (allowed : Allowed wanted own)
    (wantedState : ∀ found ∈ wanted, found.isState = true) (apart : ∀ token ∈ rest, some token.2 ≠ wanted)
    (crash : wanted = none → command = .record "work_crash" → own ≠ [])
    (held : (Program.call command next).wp (contract wanted) post own) :
    Kept repository (Queue.respond reaction repository command).2 wanted (follow wanted reaction repository own command)
      rest ∧ (next (Queue.respond reaction repository command).1).wp (contract wanted) post
        (follow wanted reaction repository own command) :=
  ⟨respond_kept tidy owned allowed wantedState apart held.1,held.2 _ _ (follow_after crash)⟩

end Repository
end Frankenrust.Orchestrator
