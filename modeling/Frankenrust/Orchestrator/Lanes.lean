import Frankenrust.Library.Options
import Frankenrust.Orchestrator.Tokens

/-! What the workers and the two lanes do with their tokens. -/
namespace Frankenrust.Orchestrator
namespace Queue
open Loop
variable {config : Config} {issue : Issue} {wanted : Option Label} {own : List Token}

/-- Calls that leave the tokens alone. -/
def Quiet : Command → Prop
  | .issueList _ _ | .edit _ _ _ => False
  | _ => True

theorem quiet_inner (command : Command) (inner : command.inner = true) : Quiet command := by
  cases command
  case issueList | edit => contradiction
  all_goals exact trivial

theorem wp_quiet {α : Type} {program : Work α} (used : program.uses Quiet) :
    program.wp (contract wanted) (fun _ later => own = later) own := by
  have held : own = own := rfl
  apply Program.wp_of_uses used _ held
  rintro command _ quiet rfl
  cases command
  case issueList | edit => contradiction
  case record => exact ⟨trivial,fun _ _ after => after.1.symm⟩
  all_goals exact ⟨trivial,fun _ _ after => Eq.symm after⟩

theorem wp_after {α β : Type} {program : Work α} {rest : α → Work β} {first : Option α → List Token → Prop}
    {post : Option β → List Token → Prop} (held : program.wp (contract wanted) first own)
    (raised : ∀ later, first none later → post none later)
    (later : ∀ value later, first (some value) later → (rest value).wp (contract wanted) post later) :
    (program.bind rest).wp (contract wanted) post own := by
  rw [Program.wp_bind]
  apply Program.wp_mono _ held
  intro outcome tokens reached
  cases outcome with
  | none => exact raised tokens reached
  | some value => exact later value tokens reached

/-- A quiet part, and what follows it with the same tokens. -/
theorem wp_then {α β : Type} {program : Work α} {rest : α → Work β} {post : Option β → List Token → Prop}
    (used : program.uses Quiet) (raised : post none own)
    (later : ∀ value, (rest value).wp (contract wanted) post own) :
    (program.bind rest).wp (contract wanted) post own := by
  apply wp_after (wp_quiet used)
  · rintro _ rfl
    exact raised
  · rintro value _ rfl
    exact later value

theorem wp_final {α β : Type} {program : Work α} {rest : α → Work β} {post : Option β → List Token → Prop}
    (used : program.uses Quiet) (calm : ∀ value, (rest value).uses Quiet) (ends : ∀ outcome, post outcome own) :
    (program.bind rest).wp (contract wanted) post own := by
  apply Program.wp_mono _ (wp_quiet (Program.uses_bind used calm))
  rintro outcome _ rfl
  exact ends outcome

/-- A cleanup that leaves the tokens alone. -/
theorem wp_ensured {α : Type} {program : Work α} {cleanup : Work Unit} {post : Option α → List Token → Prop}
    (held : program.wp (contract wanted) post own) (calm : cleanup.uses Quiet)
    (raised : ∀ outcome later, post outcome later → post none later) :
    (program.ensure cleanup).wp (contract wanted) post own := by
  rw [Program.wp_ensure]
  apply Program.wp_mono _ held
  intro outcome later reached
  exact wp_then calm (raised outcome later reached) fun _ => reached

section Worker

def Holds (number : Nat) (own : List Token) : Prop := own = [] ∨ own = [(number,.claimed)]

/-- An issue that is to be built is still claimed. -/
def Ends (number : Nat) (outcome : Option Bool) (own : List Token) : Prop :=
  Holds number own ∧ (outcome = some true → own = [(number,.claimed)])

theorem moves_block : Moves [.blocked] [.claimed] .claimed .blocked := moves_of_labels (by decide)

theorem moves_question : Moves [.questioned] [.claimed] .claimed .questioned := moves_of_labels (by decide)

theorem moves_requeue : Moves [.ready] [.claimed,.questioned] .claimed .ready := moves_of_labels (by decide)

/-- An edit of the worker's own issue: the token is given up where the edit took effect. -/
def Moved (number : Nat) : Option Bool → List Token → Prop
  | some true, own => own = []
  | some false, own => own = [(number,.claimed)]
  | none, own => Holds number own

theorem Moved.holds {number : Nat} {answer : Option Bool} {own : List Token} (moved : Moved number answer own) :
    Holds number own :=
  match answer,moved with
  | some true,given => .inl given
  | some false,kept => .inr kept
  | none,held => held

theorem wp_move {number : Nat} {add remove : List Label} {new : Label} (moves : Moves add remove .claimed new)
    (state : new.isState = true) (away : Label.claimed ∉ add) (changes : (add ++ remove).any Label.isState = true) :
    (call (.edit number add remove)).wp (contract none) (Moved number) [(number,.claimed)] := by
  refine ⟨.inr ⟨.claimed,new,by simp,state,moves,fun added => absurd added away⟩,?_⟩
  rintro answer later ⟨outcome,rfl,rfl⟩
  have given : advance number add remove [(number,.claimed)] = [] := by simp [advance,changes,away]
  rw [given]
  cases outcome with
  | succeeds => exact rfl
  | fails => exact rfl
  | raises applied =>
    cases applied with
    | true => exact .inl rfl
    | false => exact .inr rfl

theorem wp_block {number : Nat} :
    (Gh.block number).wp (contract none) (fun _ => Holds number) [(number,.claimed)] := by
  apply wp_then (Calls.uses_call quiet_inner rfl) (.inr rfl)
  intro _
  apply wp_after (wp_move moves_block rfl (by decide) rfl)
  · exact fun _ => Moved.holds
  · exact fun _ _ => Moved.holds

theorem wp_park : (park issue).wp (contract none) (Ends issue.number) [(issue.number,.claimed)] := by
  have held : Ends issue.number none [(issue.number,.claimed)] := ⟨.inr rfl,nofun⟩
  apply wp_then (Calls.uses_call quiet_inner rfl) held
  intro _
  have questioned : (Gh.question issue.number).wp (contract none) (fun _ => Holds issue.number)
      [(issue.number,.claimed)] := by
    apply wp_then (Calls.uses_call quiet_inner rfl) (.inr rfl)
    intro _
    apply wp_after (wp_move moves_question rfl (by decide) rfl)
    · exact fun _ => Moved.holds
    · exact fun _ _ => Moved.holds
  apply wp_after questioned
  · exact fun _ reached => ⟨reached,nofun⟩
  · exact fun _ _ reached => ⟨reached,nofun⟩

/-- `requeue` keeps the token where it returns `False`. -/
theorem wp_requeue {number revision : Nat} :
    (Gh.requeue number revision).wp (contract none) (Moved number) [(number,.claimed)] := by
  apply wp_then (Calls.uses_restamp quiet_inner fun _ => trivial) (.inr rfl)
  intro stamped
  cases stamped with
  | true => exact wp_move moves_requeue rfl (by decide) rfl
  | false => exact rfl

theorem wp_resolveQuestion :
    (resolveQuestion config issue).wp (contract none) (Ends issue.number) [(issue.number,.claimed)] := by
  have held {outcome : Option Bool} : Ends issue.number outcome [(issue.number,.claimed)] := ⟨.inr rfl,fun _ => rfl⟩
  unfold resolveQuestion
  split
  · exact held
  apply wp_then (Calls.uses_guarded quiet_inner) held
  intro reply
  split
  · apply wp_final (Calls.uses_call quiet_inner rfl) _ fun _ => held
    intro _
    exact Program.uses_bind (Calls.uses_call quiet_inner rfl) fun _ => trivial
  · apply wp_final (Calls.uses_close quiet_inner) _ fun _ => held
    intro _
    exact Program.uses_bind (Calls.uses_call quiet_inner rfl) fun _ => trivial
  · apply wp_after wp_requeue
    · exact fun _ moved => ⟨moved.holds,nofun⟩
    intro requeued later moved
    cases requeued with
    | true =>
      cases moved
      apply wp_then (Calls.uses_call quiet_inner rfl) ⟨.inl rfl,nofun⟩
      intro _
      exact wp_then (Calls.uses_call quiet_inner rfl) ⟨.inl rfl,nofun⟩ fun _ => ⟨.inl rfl,nofun⟩
    | false =>
      cases moved
      exact wp_then (Calls.uses_call quiet_inner rfl) held fun _ => wp_park
  · exact wp_park

theorem wp_critique :
    (critique config issue).wp (contract none) (Ends issue.number) [(issue.number,.claimed)] := by
  have held {outcome : Option Bool} : Ends issue.number outcome [(issue.number,.claimed)] := ⟨.inr rfl,fun _ => rfl⟩
  apply wp_then (Calls.uses_guarded quiet_inner) held
  intro reply
  split
  · apply wp_then (Calls.uses_call quiet_inner rfl) held
    intro _
    exact wp_then (Calls.uses_call quiet_inner rfl) held fun _ => wp_resolveQuestion
  · exact held

theorem wp_attempts {first left : Nat} :
    (attempts config issue first left).wp (contract none) (fun _ => Holds issue.number) [(issue.number,.claimed)] := by
  induction left generalizing first with
  | zero => exact wp_then (Calls.uses_call quiet_inner rfl) (.inr rfl) fun _ => wp_block
  | succ left ih =>
    apply wp_then (Calls.uses_attempt quiet_inner trivial) (.inr rfl)
    intro merged
    split
    · exact .inr rfl
    · exact ih

theorem wp_workStages :
    (workStages config issue).wp (contract none) (fun _ => Holds issue.number) [(issue.number,.claimed)] := by
  apply wp_then (Calls.uses_call quiet_inner rfl) (.inr rfl)
  intro snapshot
  apply wp_after (wp_ensured wp_critique (Calls.uses_call quiet_inner rfl) fun _ _ ends => ⟨ends.1,nofun⟩)
  · exact fun _ ends => ends.1
  intro build later ends
  split
  · rename_i builds
    rw [ends.2 (congrArg some builds)]
    exact wp_attempts
  · exact ends.1

/-- The handler of a crash is entered with the token. -/
theorem wp_crashed (held : Holds issue.number own) :
    (crashed issue).wp (contract none) (fun _ => Holds issue.number) own := by
  refine ⟨trivial,?_⟩
  rintro answer _ ⟨rfl,has⟩
  obtain rfl := held.resolve_left (has rfl rfl)
  cases answer with
  | none => exact .inr rfl
  | some _ => exact wp_block

/-- What a worker does with its claim. -/
theorem wp_work : (Loop.work config issue).wp (contract none) (fun _ _ => True) [(issue.number,.claimed)] := by
  have makes : (call .makeWorktree).uses Quiet := Program.uses_invoke.mpr trivial
  apply wp_then makes trivial
  intro made
  split
  · apply wp_ensured _ (Program.uses_invoke.mpr trivial) fun _ _ _ => trivial
    rw [Program.wp_handle]
    apply Program.wp_mono _ wp_workStages
    intro outcome tokens held
    cases outcome with
    | none => exact Program.wp_mono (fun _ _ _ => trivial) (wp_crashed held)
    | some _ => exact trivial
  · exact Program.wp_mono (fun _ _ _ => trivial) wp_block

end Worker

section Lanes

/-- What an actor has found in the state that it looks out for. -/
structure Found (label : Label) (issues : List Issue) (own : List Token) : Prop where
  distinct : (issues.map (·.number)).Nodup
  held : ∀ issue ∈ issues, (issue.number,label) ∈ own

theorem moves_claim : Moves [.claimed] [.ready] .ready .claimed := moves_of_labels (by decide)

theorem moves_release : Moves [.ready] [.claimed] .claimed .ready := moves_of_labels (by decide)

theorem moves_unblock : Moves [.ready] [.blocked,.claimed] .blocked .ready := moves_of_labels (by decide)

theorem wp_fetch {label : Label} : (Gh.fetch (some label) .opened).wp (contract (some label))
    (fun outcome later => ∀ found ∈ outcome, Found label found later) own := by
  refine ⟨trivial,?_⟩
  rintro answer later ⟨read,unread⟩
  match answer with
  | none => nofun
  | some none =>
    rintro _ ⟨⟩
    exact ⟨.nil,nofun⟩
  | some (some found) =>
    rintro _ ⟨⟩
    obtain ⟨rfl,distinct⟩ := read found rfl
    refine ⟨distinct,?_⟩
    intro issue member
    simp only [learn,if_true]
    exact List.mem_append_right _ (List.mem_map_of_mem member)

/-- A list of other issues teaches nothing. -/
theorem wp_fetch_other {label : Option Label} {state : IssueState}
    (other : ∀ found, learn wanted own label state found = own) :
    (Gh.fetch label state).wp (contract wanted) (fun _ later => own = later) own := by
  refine ⟨trivial,?_⟩
  rintro answer later ⟨read,unread⟩
  have same : own = later := by
    match answer with
    | some (some found) => exact ((read found rfl).1.trans (other found)).symm
    | none => exact (unread nofun).symm
    | some none => exact (unread nofun).symm
  cases answer <;> exact same

theorem wp_closedNumbers : Gh.closedNumbers.wp (contract wanted) (fun _ later => own = later) own := by
  apply wp_after (wp_fetch_other fun _ => rfl)
  · exact fun _ => id
  · exact fun _ _ => id

theorem stateless_waits : Stateless ([.waiting] ++ []) := by simp [Stateless,Label.isState]

theorem stateless_resumes : Stateless ([] ++ [.waiting]) := by simp [Stateless,Label.isState]

theorem wp_syncWaiting {isWord : Char → Bool} :
    (Gh.syncWaiting isWord).wp (contract wanted) (fun _ _ => True) own := by
  have guarded : (Gh.syncWaiting isWord).uses fun command => ∀ own, (contract wanted).guard command own :=
    Calls.uses_syncWaiting (fun _ _ _ => trivial) (fun _ _ => .inl stateless_waits) (fun _ _ => .inl stateless_resumes)
  apply Program.wp_of_uses guarded _ trivial
  exact fun _ own guard _ => ⟨guard own,fun _ _ _ => trivial⟩

theorem Found.tail {label : Label} {issues : List Issue} (found : Found label (issue :: issues) own) :
    Found label issues own :=
  ⟨(List.nodup_cons.mp found.distinct).2,fun other member => found.held other (List.mem_cons_of_mem _ member)⟩

/-- The tokens for other issues outlast an edit. -/
theorem mem_edited {number : Nat} {token : Token} {add remove : List Label} {applies : Bool}
    (changes : (add ++ remove).any Label.isState = true) (other : token.1 ≠ number) (held : token ∈ own) :
    token ∈ if applies then advance number add remove own else own := by
  split
  · exact (Repository.mem_advance changes).mpr (.inl ⟨held,other⟩)
  · exact held

theorem found_advance {label : Label} {issues : List Issue} {add remove : List Label} {applies : Bool}
    (changes : (add ++ remove).any Label.isState = true) (found : Found label (issue :: issues) own) :
    Found label issues (if applies then advance issue.number add remove own else own) := by
  have fresh : issue.number ∉ issues.map (·.number) := (List.nodup_cons.mp found.distinct).1
  refine ⟨found.tail.distinct,?_⟩
  intro other member
  apply mem_edited changes _ (found.tail.held other member)
  intro same
  exact fresh (same ▸ List.mem_map_of_mem member)

theorem wp_releaseEach {issues : List Issue} (found : Found .claimed issues own) :
    (releaseEach issues).wp (contract (some .claimed)) (fun _ _ => True) own := by
  induction issues generalizing own with
  | nil => exact trivial
  | cons issue issues ih =>
    have released : (Gh.release issue.number).wp (contract (some .claimed)) (fun _ => Found .claimed issues) own := by
      refine ⟨.inr ⟨.claimed,.ready,found.held issue List.mem_cons_self,rfl,moves_release,by simp⟩,?_⟩
      rintro answer later ⟨outcome,rfl,rfl⟩
      cases outcome <;> exact found_advance rfl found
    apply wp_after released
    · exact fun _ _ => trivial
    intro _ later found
    apply wp_then (Calls.uses_call quiet_inner rfl) trivial
    exact fun _ => ih found

theorem wp_reclaim : reclaim.wp (contract (some .claimed)) (fun _ _ => True) own := by
  apply wp_after wp_fetch
  · exact fun _ _ => trivial
  · exact fun issues _ found => wp_releaseEach (found issues rfl)

theorem wp_claim {number : Nat} (held : (number,.ready) ∈ own) : (Gh.claim number).wp (contract (some .ready))
    (fun outcome later => ∃ applies : Bool, (later = if applies then advance number [.claimed] [.ready] own else own) ∧
      (outcome = some true → applies = true)) own := by
  refine ⟨.inr ⟨.ready,.claimed,held,rfl,moves_claim,fun _ => rfl⟩,?_⟩
  rintro answer later ⟨outcome,rfl,rfl⟩
  cases outcome with
  | succeeds =>
    have reading : (Race.readBack number).uses Quiet := Program.uses_bind (Calls.uses_call quiet_inner rfl) fun _ => trivial
    apply Program.wp_mono _ (wp_quiet reading)
    rintro _ _ rfl
    exact ⟨true,rfl,fun _ => rfl⟩
  | fails => exact ⟨false,rfl,nofun⟩
  | raises applied => exact ⟨applied,rfl,nofun⟩

theorem wp_claimEach {busy taken : List Nat} {budget : Nat} {issues : List Issue} (found : Found .ready issues own)
    (has : ∀ number ∈ taken, (number,.claimed) ∈ own) (apart : ∀ number ∈ taken, number ∉ issues.map (·.number)) :
    (claimEach busy budget issues).wp (contract (some .ready)) (fun outcome later => ∀ batch ∈ outcome,
      (batch.map (·.number)).Nodup ∧ (∀ issue ∈ batch, issue ∈ issues) ∧
        ∀ number ∈ taken ++ batch.map (·.number), (number,.claimed) ∈ later) own := by
  induction issues generalizing own budget taken with
  | nil =>
    rintro _ ⟨⟩
    exact ⟨.nil,by simp,by simpa using has⟩
  | cons issue issues ih =>
    cases budget with
    | zero =>
      rintro _ ⟨⟩
      exact ⟨.nil,by simp,by simpa using has⟩
    | succ budget =>
      have fresh : issue.number ∉ issues.map (·.number) := (List.nodup_cons.mp found.distinct).1
      have later_apart {number : Nat} (member : number ∈ taken) : number ≠ issue.number ∧ number ∉ issues.map (·.number) := by
        simpa using apart number member
      have skipped {own : List Token} (found : Found .ready issues own) (has : ∀ number ∈ taken, (number,.claimed) ∈ own)
          (budget : Nat) : (claimEach busy budget issues).wp (contract (some .ready)) (fun outcome later =>
            ∀ batch ∈ outcome, (batch.map (·.number)).Nodup ∧ (∀ other ∈ batch, other ∈ issue :: issues) ∧
              ∀ number ∈ taken ++ batch.map (·.number), (number,.claimed) ∈ later) own := by
        apply Program.wp_mono _ (ih found has fun number member => (later_apart member).2)
        intro outcome later ends batch same
        obtain ⟨distinct,among,held⟩ := ends batch same
        exact ⟨distinct,fun other member => List.mem_cons_of_mem _ (among other member),held⟩
      unfold claimEach
      split
      · exact skipped found.tail has _
      apply wp_after (wp_claim (found.held issue List.mem_cons_self))
      · exact fun _ _ => (by simp)
      rintro claimed _ ⟨applies,rfl,won⟩
      have remaining : Found .ready issues (if applies then advance issue.number [.claimed] [.ready] own else own) :=
        found_advance rfl found
      have kept : ∀ number ∈ taken,
          (number,.claimed) ∈ if applies then advance issue.number [.claimed] [.ready] own else own :=
        fun number member => mem_edited rfl (later_apart member).1 (has number member)
      split
      · rename_i wins
        obtain rfl := won (congrArg some wins)
        have gained : (issue.number,Label.claimed) ∈ advance issue.number [.claimed] [.ready] own :=
          (Repository.mem_advance rfl).mpr (.inr ⟨rfl,by decide,by decide⟩)
        apply wp_after (ih remaining (List.forall_mem_cons.mpr ⟨gained,kept⟩)
          (List.forall_mem_cons.mpr ⟨fresh,fun number member => (later_apart member).2⟩))
        · exact fun _ _ => (by simp)
        rintro batch later ends _ ⟨⟩
        obtain ⟨distinct,among,held⟩ := ends batch rfl
        refine ⟨?_,?_,?_⟩
        · rw [List.map_cons,List.nodup_cons]
          refine ⟨?_,distinct⟩
          intro again
          obtain ⟨other,member,same⟩ := List.mem_map.mp again
          exact fresh (same ▸ List.mem_map_of_mem (among other member))
        · exact List.forall_mem_cons.mpr ⟨List.mem_cons_self,fun other member => List.mem_cons_of_mem _ (among other member)⟩
        · intro number member
          apply held
          simp only [List.map_cons,List.mem_append,List.mem_cons] at member ⊢
          tauto
      · exact skipped remaining kept _

theorem wp_claimable {isWord : Char → Bool} : (Gh.claimable isWord).wp (contract (some .ready))
    (fun outcome later => ∀ issues ∈ outcome, Found .ready issues later) own := by
  apply wp_after wp_closedNumbers
  · exact fun _ _ => nofun
  rintro done _ rfl
  apply wp_after wp_fetch
  · exact fun _ _ => nofun
  intro fetched later found
  have found := found fetched rfl
  split
  · nofun
  rename_i eligible read
  apply wp_after (wp_fetch_other fun _ => rfl)
  · exact fun _ _ => nofun
  rintro waiting _ rfl
  split
  · nofun
  rename_i dependants _
  rintro _ ⟨⟩
  have sorted := List.perm_insertionSort (fun first second : Issue => first.rankKey dependants ≤ second.rankKey dependants)
    (((fetched.zip eligible).filter (·.2)).map (·.1))
  rw [Options.filter_zip read] at sorted ⊢
  constructor
  · apply (sorted.map _).nodup_iff.mpr
    exact found.distinct.sublist (List.filter_sublist.map _)
  · intro issue member
    exact found.held issue (List.mem_of_mem_filter (sorted.mem_iff.mp member))

/-- What the run lane submits to its pool: issues that are told apart and claimed. -/
def Batch (outcome : Option (List Issue)) (own : List Token) : Prop :=
  ∀ batch ∈ outcome, (batch.map (·.number)).Nodup ∧ ∀ issue ∈ batch, (issue.number,.claimed) ∈ own

theorem wp_claimBatch {busy : List Nat} {budget : Nat} :
    (claimBatch config busy budget).wp (contract (some .ready)) Batch own := by
  apply wp_after wp_syncWaiting
  · exact fun _ _ => nofun
  intro _ later _
  split
  · rintro _ ⟨⟩
    exact ⟨.nil,nofun⟩
  apply wp_after wp_claimable
  · exact fun _ _ => nofun
  intro candidates later found
  have untaken : ∀ number ∈ ([] : List Nat), (number,Label.claimed) ∈ later := nofun
  apply Program.wp_mono _ (wp_claimEach (found candidates rfl) untaken nofun)
  intro outcome later ends batch same
  obtain ⟨distinct,_,held⟩ := ends batch same
  exact ⟨distinct,fun issue member => held issue.number (List.mem_map_of_mem member)⟩

/-- The tokens after an edit that has taken effect or not. -/
def Edited (number : Nat) (add remove : List Label) (own later : List Token) : Prop :=
  ∃ applies : Bool, later = if applies then advance number add remove own else own

theorem wp_unblock {number recovery : Nat} (held : (number,.blocked) ∈ own) : (Gh.unblock number recovery).wp
    (contract (some .blocked)) (fun _ => Edited number [.ready] [.blocked,.claimed] own) own := by
  apply wp_then (Calls.uses_restamp quiet_inner fun _ => trivial) ⟨false,rfl⟩
  intro stamped
  split
  · refine ⟨.inr ⟨.blocked,.ready,held,rfl,moves_unblock,by simp⟩,?_⟩
    rintro answer later ⟨outcome,rfl,rfl⟩
    exact ⟨outcome.applies,rfl⟩
  · exact ⟨false,rfl⟩

theorem wp_rescue {recoveries : Nat} (held : (issue.number,.blocked) ∈ own) : (rescue issue recoveries).wp
    (contract (some .blocked)) (fun _ => Edited issue.number [.ready] [.blocked,.claimed] own) own := by
  have start : Edited issue.number [.ready] [.blocked,.claimed] own own := ⟨false,rfl⟩
  have returns : (putBack issue recoveries).wp (contract (some .blocked))
      (fun _ => Edited issue.number [.ready] [.blocked,.claimed] own) own := by
    apply wp_after (wp_unblock held)
    · exact fun _ => id
    intro unblocked later edited
    split
    · apply wp_final (Calls.uses_call quiet_inner rfl) _ fun _ => edited
      intro _
      exact Program.uses_bind (Calls.uses_call quiet_inner rfl) fun _ => trivial
    · exact wp_final (Calls.uses_call quiet_inner rfl) (fun _ => trivial) fun _ => edited
  apply wp_then (Calls.uses_guarded quiet_inner) start
  intro reply
  unfold carryOut
  split
  · apply wp_final (Calls.uses_close quiet_inner) _ fun _ => start
    intro _
    exact Program.uses_bind (Calls.uses_call quiet_inner rfl) fun _ => trivial
  · exact returns
  · exact returns
  · exact wp_final (Calls.uses_call quiet_inner rfl) (fun _ => trivial) fun _ => start

theorem wp_recover (held : (issue.number,.blocked) ∈ own) : (recover config issue).wp
    (contract (some .blocked)) (fun _ => Edited issue.number [.ready] [.blocked,.claimed] own) own := by
  have start : Edited issue.number [.ready] [.blocked,.claimed] own own := ⟨false,rfl⟩
  unfold recover
  split
  · exact start
  split
  · exact wp_final (Calls.uses_call quiet_inner rfl) (fun _ => trivial) fun _ => start
  have makes : (call .makeWorktree).uses Quiet := Program.uses_invoke.mpr trivial
  apply wp_then makes start
  intro made
  split
  · apply wp_ensured _ (Program.uses_invoke.mpr trivial) fun _ _ => id
    rw [Program.wp_handle]
    apply Program.wp_mono _ (wp_rescue held)
    intro outcome later edited
    cases outcome with
    | none => exact wp_final (Calls.uses_call quiet_inner rfl) (fun _ => trivial) fun _ => edited
    | some _ => exact edited
  · exact wp_final (Calls.uses_call quiet_inner rfl) (fun _ => trivial) fun _ => start

theorem wp_recoverEach {issues : List Issue} (found : Found .blocked issues own) :
    (recoverEach config issues).wp (contract (some .blocked)) (fun _ _ => True) own := by
  induction issues generalizing own with
  | nil => exact trivial
  | cons issue issues ih =>
    apply wp_then (Calls.uses_call quiet_inner rfl) trivial
    intro exceeded
    split
    · exact trivial
    apply wp_after (wp_recover (found.held issue List.mem_cons_self))
    · exact fun _ _ => trivial
    rintro recovered _ ⟨applies,rfl⟩
    apply wp_after (ih (found_advance rfl found))
    · exact fun _ _ => trivial
    · exact fun _ _ _ => trivial

theorem wp_blockedNeedingRecovery {isWord : Char → Bool} : (Gh.blockedNeedingRecovery isWord).wp
    (contract (some .blocked)) (fun outcome later => ∀ gated ∈ outcome, Found .blocked (gated.map (·.1)) later) own := by
  have dependants : (Gh.dependants isWord).wp (contract (some .blocked)) (fun _ later => own = later) own := by
    apply wp_after (wp_fetch_other fun _ => rfl)
    · exact fun _ => id
    rintro issues _ rfl
    split
    · exact rfl
    · exact rfl
  apply wp_after dependants
  · exact fun _ _ => nofun
  rintro waitingOn _ rfl
  apply wp_after wp_closedNumbers
  · exact fun _ _ => nofun
  rintro done _ rfl
  apply wp_after wp_fetch
  · exact fun _ _ => nofun
  rintro blocked later found _ ⟨⟩
  have found := found blocked rfl
  have sorted := (List.perm_insertionSort (fun first second : Issue × List Nat =>
    toLex (-(first.2.length : ℤ),first.1.number) ≤ toLex (-(second.2.length : ℤ),second.1.number))
    (blocked.map fun issue =>
      (issue,((waitingOn issue.number).filter fun number => ¬done.contains number).insertionSort (· ≤ ·)))).map (·.1)
  rw [List.map_map] at sorted
  have same : blocked.map ((·.1) ∘ fun issue : Issue =>
      (issue,((waitingOn issue.number).filter fun number => ¬done.contains number).insertionSort (· ≤ ·))) = blocked :=
    List.map_id blocked
  rw [same] at sorted
  constructor
  · exact (sorted.map _).nodup_iff.mpr found.distinct
  · exact fun issue member => found.held issue (sorted.mem_iff.mp member)

theorem wp_unblockPass : (unblockPass config).wp (contract (some .blocked)) (fun _ _ => True) own := by
  have recovering : (recoverBlocked config).wp (contract (some .blocked)) (fun _ _ => True) own := by
    apply wp_then (Calls.uses_call quiet_inner rfl) trivial
    intro unusable
    split
    · exact trivial
    apply wp_after wp_blockedNeedingRecovery
    · exact fun _ _ => trivial
    · exact fun gated later found => wp_recoverEach (found gated rfl)
  apply wp_after recovering
  · exact fun _ _ => trivial
  · exact fun _ _ _ => wp_syncWaiting

end Lanes

end Queue
end Frankenrust.Orchestrator
