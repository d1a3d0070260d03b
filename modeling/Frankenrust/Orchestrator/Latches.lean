import Frankenrust.Orchestrator.Agents
import Mathlib.Data.List.ModifyLast

/-! What `invoke` spends: whom it runs and how often, while other threads disable agents at any
moment; and the latches over a chain of self-restarts. -/
namespace Frankenrust.Orchestrator.Agents
open Relation

/-- `_disabled_agents`. -/
abbrev Latched := Agent → Bool

/-- Other threads only add to it. -/
def Grows (before after : Latched) : Prop := ∀ agent, before agent = true → after agent = true

theorem grows_refl (latched : Latched) : Grows latched latched := fun _ held => held

theorem Grows.trans {first second third : Latched} (one : Grows first second) (two : Grows second third) :
    Grows first third := fun agent held => two agent (one agent held)

theorem Grows.within {before after : Latched} (grown : ReflTransGen Grows before after) : Grows before after := by
  induction grown with
  | refl => exact grows_refl _
  | tail _ step ih => exact ih.trans step

theorem grows_latch (latched : Latched) (agent : Agent) : Grows latched (Function.update latched agent true) := by
  intro other held
  by_cases same : other = agent
  · simp [same]
  · simpa [same] using held

def does (command : Command) (now : Latched) (answer : Option (Answer command)) (later : Latched) : Prop :=
  match command with
  | .agentOk agent => answer = some (!now agent) ∧ later = now
  | .latch agent => answer = some (!now agent) ∧ later = Function.update now agent true
  | _ => later = now

def critical : Program.Contract Command Answer Latched where
  guard _ _ := True
  after := does

/-- One agent process of an invocation. -/
structure Attempt where
  agent : Agent
  failed : Bool
  limited : Bool
  refused : Bool

abbrev Trail := List Attempt

/-- What the processes so far came to. -/
def note (lower : Text → Text) (trail : Trail) : Program.Event Command Answer → Trail
  | ⟨.spawn agent _,_⟩ => trail ++ [⟨agent,false,false,false⟩]
  | ⟨.wait _,some (some rc)⟩ => trail.modifyLast ({ · with failed := decide (rc ≠ 0) })
  | ⟨.hitLimit _,some limited⟩ => trail.modifyLast ({ · with limited })
  | ⟨.finalText _,some (text,err)⟩ => trail.modifyLast ({ · with refused := hitAuth lower (err ++ '\n' :: text) })
  | _ => trail

abbrev watched (lower : Text → Text) : Program.Contract Command Answer (Latched × Trail) :=
  (critical.among Grows).noting (note lower)

variable {α β : Type} {lower : Text → Text} {now : Latched} {trail : Trail}

theorem wp_call {command : Command} {rest : Answer command → Calls β} {post : Option β → Latched × Trail → Prop}
    (raised : ∀ later, (∃ middle, does command now none middle ∧ Grows middle later) →
      post none (later,note lower trail ⟨command,none⟩))
    (answered : ∀ value later, (∃ middle, does command now (some value) middle ∧ Grows middle later) →
      (rest value).wp (watched lower) post (later,note lower trail ⟨command,some value⟩)) :
    ((call command).bind rest).wp (watched lower) post (now,trail) := by
  rw [Program.wp_bind]
  refine Program.wp_noting.mpr ⟨trivial,?_⟩
  rintro answer later ⟨middle,did,grown⟩
  cases answer with
  | none => exact raised later ⟨middle,did,Grows.within grown⟩
  | some value => exact answered value later ⟨middle,did,Grows.within grown⟩

theorem wp_seq {program : Calls α} {rest : α → Calls β} {middle : Option α → Latched × Trail → Prop}
    {post : Option β → Latched × Trail → Prop} {state : Latched × Trail} (first : program.wp (watched lower) middle state)
    (raised : ∀ later, middle none later → post none later)
    (each : ∀ value later, middle (some value) later → (rest value).wp (watched lower) post later) :
    (program.bind rest).wp (watched lower) post state := by
  rw [Program.wp_bind]
  apply Program.wp_mono _ first
  rintro (_ | value) later held
  · exact raised later held
  · exact each value later held

theorem wp_record {note : Note} : (call (.record note)).wp (watched lower) (fun _ later => Grows now later.1 ∧ later.2 = trail) (now,trail) := by
  refine Program.wp_noting.mpr ⟨trivial,?_⟩
  rintro answer later ⟨middle,rfl,grown⟩
  exact ⟨Grows.within grown,rfl⟩

theorem wp_agentOk {agent : Agent} {rest : Bool → Calls β} {post : Option β → Latched × Trail → Prop}
    (each : ∀ ok later, Grows now later → ok = !now agent → (rest ok).wp (watched lower) post (later,trail)) :
    ((call (.agentOk agent)).bind rest).wp (watched lower) post (now,trail) := by
  apply wp_call
  · rintro later ⟨middle,⟨impossible,_⟩,_⟩
    contradiction
  · rintro ok later ⟨middle,⟨answer,rfl⟩,grown⟩
    exact each ok later grown (Option.some.inj answer)

theorem wp_usable {agent wanted : Agent} {rest : Bool → Calls β} {post : Option β → Latched × Trail → Prop}
    (each : ∀ ok later, Grows now later → (ok = true → agent = wanted ∧ now wanted = false) →
      (rest ok).wp (watched lower) post (later,trail)) :
    ((usable agent wanted).bind rest).wp (watched lower) post (now,trail) := by
  rw [usable]
  split
  next same =>
    apply wp_agentOk
    intro ok later grown answer
    apply each ok later grown
    rintro rfl
    exact ⟨same,by simpa using answer.symm⟩
  next => exact each false now (grows_refl now) nofun

/-- The agent was not disabled when it was looked for, and none is found only where claude is. -/
def Resolved (agent : Agent) (now : Latched) (trail : Trail) (found : Option (Option (Agent × Option Text)))
    (later : Latched × Trail) : Prop :=
  Grows now later.1 ∧ later.2 = trail ∧ match found with
    | none => True
    | some none => later.1 .claude = true
    | some (some (use,_)) => now use = false ∧ (use = agent ∨ use = .claude)

theorem Grows.clear {before after : Latched} (grown : Grows before after) {agent : Agent} (clear : after agent = false) :
    before agent = false := by
  by_contra held
  rw [Bool.not_eq_false] at held
  simp [grown agent held] at clear

theorem resolved_claude {agent : Agent} {first : Latched} {model : Text} (grown : Grows first now) :
    (claude model).wp (watched lower) (Resolved agent first trail) (now,trail) := by
  apply wp_agentOk
  intro ok later further answer
  refine ⟨grown.trans further,rfl,?_⟩
  cases ok with
  | false => exact further .claude (by simpa using answer.symm)
  | true => exact ⟨grown.clear (by simpa using answer.symm),.inr rfl⟩

section Resolving
variable {tables : Tables} {role : Role} {escalate : Bool} {model : Option Text}

theorem resolved_known {agent : Agent} :
    (resolveKnown tables role escalate agent model).wp (watched lower) (Resolved agent now trail) (now,trail) := by
  apply wp_usable
  intro codex second grown codexOk
  split
  next taken =>
    obtain ⟨rfl,clear⟩ := codexOk taken.1
    exact ⟨grown,rfl,clear,.inl rfl⟩
  next =>
    apply wp_usable
    intro opencode third grownMore opencodeOk
    have grown := grown.trans grownMore
    split
    next taken =>
      obtain ⟨rfl,clear⟩ := opencodeOk taken.1
      exact ⟨grown,rfl,Grows.clear ‹Grows now second› clear,.inl rfl⟩
    next =>
      split
      next =>
        apply wp_usable
        intro again fourth grownLast againOk
        split
        next taken =>
          obtain ⟨rfl,clear⟩ := againOk taken
          exact ⟨grown.trans grownLast,rfl,grown.clear clear,.inl rfl⟩
        next => exact resolved_claude (grown.trans grownLast)
      next => exact resolved_claude grown

theorem resolved {requested : Text} : (resolve tables role escalate requested model).wp (watched lower) (fun found later =>
    match Agent.named (requestedAgent tables role requested) with
    | some agent => Resolved agent now trail found later
    | none => found = none ∧ later = (now,trail)) (now,trail) := by
  rw [resolve]
  cases Agent.named (requestedAgent tables role requested) with
  | none => exact ⟨rfl,rfl⟩
  | some agent => exact resolved_known

end Resolving

theorem Grows.after_same {middle later : Latched} (moved : ∃ other, other = middle ∧ Grows other later) : Grows middle later := by
  obtain ⟨other,rfl,grown⟩ := moved
  exact grown

theorem wp_disableAgent {agent : Agent} : (disableAgent agent).wp (watched lower)
    (fun _ later => Grows now later.1 ∧ later.1 agent = true ∧ later.2 = trail) (now,trail) := by
  apply wp_call
  · rintro later ⟨middle,⟨impossible,_⟩,_⟩
    contradiction
  rintro newly first ⟨middle,⟨_,rfl⟩,grown⟩
  have latched : first agent = true := grown agent (by simp)
  have grown := (grows_latch now agent).trans grown
  split
  next =>
    apply wp_call
    · intro later same
      have further := Grows.after_same same
      exact ⟨grown.trans further,further agent latched,rfl⟩
    intro done second same
    have further := Grows.after_same same
    apply Program.wp_mono _ wp_record
    rintro outcome later ⟨last,same⟩
    exact ⟨grown.trans (further.trans last),last agent (further agent latched),same⟩
  next => exact ⟨grown,latched,rfl⟩

/-- An agent that a wall stopped is disabled. -/
def Settled (latched : Latched) (attempt : Attempt) : Prop :=
  attempt.failed = true → (attempt.limited = true ∨ attempt.agent = .claude ∧ attempt.refused = true) →
    latched attempt.agent = true

/-- What a round leaves, as it raises, returns or goes on to the next agent. -/
def Ran (use : Agent) (first : Latched) (past : Trail) (outcome : Option Round) (later : Latched × Trail) : Prop :=
  Grows first later.1 ∧ match outcome with
    | none => later.2 = past ∨ ∃ attempt, later.2 = past ++ [attempt] ∧ attempt.agent = use
    | some (.inl reply) => ∃ attempt, later.2 = past ++ [attempt] ∧ attempt.agent = use ∧ Settled later.1 attempt ∧
        (reply.agent = some use.name ∨ reply.agent = none ∧ later.1 .claude = true)
    | some (.inr (next,_)) => ∃ attempt, later.2 = past ++ [attempt] ∧ attempt.agent = use ∧ use ≠ .claude ∧
        attempt.failed = true ∧ attempt.limited = true ∧ later.1 use = true ∧ next = .claude ∧ first .claude = false

theorem Ran.since {use : Agent} {before first : Latched} {past : Trail} {outcome : Option Round}
    {later : Latched × Trail} (grown : Grows before first) (ran : Ran use first past outcome later) :
    Ran use before past outcome later := by
  refine ⟨grown.trans ran.1,?_⟩
  rcases outcome with _ | reply | ⟨next,rest⟩
  · exact ran.2
  · exact ran.2
  · obtain ⟨attempt,noted,ofUse,other,failed,limited,latched,toClaude,clear⟩ := ran.2
    exact ⟨attempt,noted,ofUse,other,failed,limited,latched,toClaude,grown.clear clear⟩

theorem fallbackAgent_isSome {agent : Agent} : (fallbackAgent agent).isSome = true ↔ agent ≠ .claude := by
  cases agent <;> simp [fallbackAgent]

theorem requested_self {tables : Tables} {role : Role} (agent : Agent) :
    Agent.named (requestedAgent tables role agent.name) = some agent := by
  cases agent <;> rfl

section Rounds
variable {tables : Tables} {role : Role} {escalate : Bool} {use : Agent} {past : Trail} {attempt : Attempt}
  {rc : Int} {text err : Text}

theorem ran_raised {later : Latched} (grown : Grows now later) (ofUse : attempt.agent = use) :
    Ran use now past none (later,past ++ [attempt]) := ⟨grown,.inr ⟨attempt,rfl,ofUse⟩⟩

theorem ran_fallBack (ofUse : attempt.agent = use) (other : use ≠ .claude) (failed : attempt.failed = true)
    (limited : attempt.limited = true) : (fallBack tables role escalate use rc text).wp (watched lower)
      (Ran use now past) (now,past ++ [attempt]) := by
  apply wp_call
  · intro later same
    exact ran_raised (Grows.after_same same) ofUse
  intro noted first same
  have grown := Grows.after_same same
  apply wp_seq wp_disableAgent
  · rintro ⟨later,trail⟩ ⟨further,_,rfl⟩
    exact ran_raised (grown.trans further) ofUse
  rintro done ⟨second,trail⟩ ⟨further,latched,rfl⟩
  have grown := grown.trans further
  apply wp_seq resolved
  · rintro ⟨later,trail⟩ found
    rw [requested_self] at found
    obtain ⟨further,rfl,_⟩ := found
    exact ran_raised (grown.trans further) ofUse
  rintro next ⟨third,trail⟩ found
  rw [requested_self] at found
  obtain ⟨further,rfl,found⟩ := found
  have latched : third use = true := further use latched
  match next with
  | none =>
    apply wp_call
    · intro later same
      exact ran_raised (grown.trans (further.trans (Grows.after_same same))) ofUse
    intro noted later same
    have last := Grows.after_same same
    refine ⟨grown.trans (further.trans last),attempt,rfl,ofUse,?_,.inr ⟨rfl,last .claude found⟩⟩
    intro _ _
    rw [ofUse]
    exact last use latched
  | some (next,model) =>
    obtain ⟨clear,choice⟩ := found
    have toClaude : next = .claude := by
      rcases choice with rfl | toClaude
      · simp_all
      · exact toClaude
    subst toClaude
    exact ⟨grown.trans further,attempt,rfl,ofUse,other,failed,limited,latched,rfl,grown.clear clear⟩

theorem wp_reporting {reports : Prop} [Decidable reports] {note : Note} {rest : Calls β}
    {post : Option β → Latched × Trail → Prop} (raised : ∀ later, Grows now later → post none (later,trail))
    (each : ∀ later, Grows now later → rest.wp (watched lower) post (later,trail)) :
    (if reports then (call (.record note)).bind fun _ => rest else rest).wp (watched lower) post (now,trail) := by
  split
  next =>
    apply wp_call
    · intro later same
      exact raised later (Grows.after_same same)
    · intro done later same
      exact each later (Grows.after_same same)
  next => exact each now (grows_refl now)

/-- Where claude failed for good: the wall is looked for, and it is disabled. -/
theorem ran_exhausted (ofUse : attempt.agent = use) (failed : attempt.failed = decide (rc ≠ 0))
    (refused : attempt.refused = hitAuth lower (err ++ '\n' :: text)) (unlimited : attempt.limited = true → use = .claude) :
    ((exhausted lower use rc text err).bind fun exhausted => do
      if exhausted then disableAgent .claude else pure ()
      pure (.inl ⟨some use.name,rc,text⟩) : Calls Round).wp (watched lower) (Ran use now past) (now,past ++ [attempt]) := by
  rw [exhausted]
  split
  next dead =>
    obtain ⟨rfl,_⟩ := dead
    rw [Program.bind_eq,Program.wp_bind]
    apply wp_call
    · intro later same
      exact ran_raised (Grows.after_same same) ofUse
    intro limit first same
    have grown := Grows.after_same same
    simp only [note,List.modifyLast_concat]
    cases hit : (limit || hitAuth lower (err ++ '\n' :: text)) with
    | false =>
      refine ⟨grown,_,rfl,ofUse,?_,.inl rfl⟩
      rintro _ (limited | ⟨_,auth⟩)
      · simp_all
      · simp_all
    | true =>
      apply wp_seq wp_disableAgent
      · rintro ⟨later,trail⟩ ⟨further,_,rfl⟩
        exact ran_raised (grown.trans further) ofUse
      rintro done ⟨later,trail⟩ ⟨further,latched,rfl⟩
      refine ⟨grown.trans further,_,rfl,ofUse,?_,.inl rfl⟩
      intro _ _
      exact ofUse ▸ latched
  next alive =>
    refine ⟨grows_refl now,attempt,rfl,ofUse,?_,.inl rfl⟩
    intro failing wall
    have dead : rc ≠ 0 := by simpa [failed] using failing
    rcases wall with limited | ⟨isClaude,_⟩
    · exact absurd ⟨unlimited limited,dead⟩ alive
    · exact absurd ⟨ofUse.symm.trans isClaude,dead⟩ alive

theorem ran_ended (ofUse : attempt.agent = use) (failed : attempt.failed = decide (rc ≠ 0)) (fresh : attempt.limited = false) :
    (ended tables lower role escalate use rc).wp (watched lower) (Ran use now past) (now,past ++ [attempt]) := by
  apply wp_call
  · intro later same
    exact ran_raised (Grows.after_same same) ofUse
  rintro ⟨text,err⟩ first same
  have grown := Grows.after_same same
  simp only [note,List.modifyLast_concat]
  apply wp_reporting
  · intro later further
    exact ran_raised (grown.trans further) (by exact ofUse)
  intro second further
  have grown := grown.trans further
  rw [walled]
  split
  next stopped =>
    apply wp_call
    · intro later same
      exact ran_raised (grown.trans (Grows.after_same same)) (by exact ofUse)
    intro limited third same
    have grown := grown.trans (Grows.after_same same)
    simp only [note,List.modifyLast_concat]
    cases limited with
    | true =>
      apply Program.wp_mono _ (ran_fallBack (by exact ofUse) (fallbackAgent_isSome.mp stopped.1) (by simp [failed,stopped.2]) rfl)
      exact fun outcome later ran => ran.since grown
    | false =>
      apply Program.wp_mono _ (ran_exhausted (by exact ofUse) (by exact failed) rfl (by simp))
      exact fun outcome later ran => ran.since grown
  next =>
    apply Program.wp_mono _ (ran_exhausted (by exact ofUse) (by exact failed) rfl (by simp [fresh]))
    exact fun outcome later ran => ran.since grown

theorem ran_round {model : Option Text} :
    (round tables lower role escalate use model).wp (watched lower) (Ran use now past) (now,past) := by
  apply wp_call
  · intro later same
    exact ⟨Grows.after_same same,.inl rfl⟩
  intro unlinked first same
  have grown := Grows.after_same same
  apply wp_call
  · intro later same
    exact ran_raised (grown.trans (Grows.after_same same)) rfl
  intro spawned second same
  have grown := grown.trans (Grows.after_same same)
  apply wp_call
  · intro later same
    exact ran_raised (grown.trans (Grows.after_same same)) rfl
  intro waited third same
  have grown := grown.trans (Grows.after_same same)
  cases waited with
  | none =>
    apply wp_call
    · intro later same
      exact ran_raised (grown.trans (Grows.after_same same)) rfl
    intro noted later same
    refine ⟨grown.trans (Grows.after_same same),_,rfl,rfl,?_,.inl rfl⟩
    intro failed
    simp at failed
  | some rc =>
    simp only [note,List.modifyLast_concat]
    apply Program.wp_mono _ (ran_ended (by rfl) rfl rfl)
    exact fun outcome later ran => ran.since grown

end Rounds

/-- The processes that an invocation runs, where these agents were disabled when it began. -/
inductive Spent (begun : Latched) : Trail → Prop
  | none : Spent begun []
  | once {attempt : Attempt} (clear : begun attempt.agent = false) : Spent begun [attempt]
  | twice {first second : Attempt} (clear : begun first.agent = false) (cheap : first.agent ≠ .claude)
      (failed : first.failed = true) (limited : first.limited = true) (retry : second.agent = .claude)
      (spare : begun .claude = false) : Spent begun [first,second]

/-- The whole invocation, as it ends. -/
structure Invoked (agent : Agent) (begun : Latched) (outcome : Option Reply) (last : Latched × Trail) : Prop where
  spent : Spent begun last.2
  chosen : ∀ attempt ∈ last.2, attempt.agent = agent ∨ attempt.agent = .claude
  settled : ∀ reply, outcome = some reply → ∀ attempt ∈ last.2, Settled last.1 attempt
  named : ∀ reply, outcome = some reply → reply.agent = none ∧ last.1 .claude = true ∨
    ∃ attempt, last.2.getLast? = some attempt ∧ reply.agent = some attempt.agent.name

section Invocation
variable {tables : Tables} {role : Role} {escalate : Bool} {agent use : Agent} {begun : Latched} {model : Option Text} {rc : Int}
  {text : Text}

theorem invoked_raised {trail : Trail} (spent : Spent begun trail)
    (chosen : ∀ attempt ∈ trail, attempt.agent = agent ∨ attempt.agent = .claude) : Invoked agent begun none (now,trail) :=
  ⟨spent,chosen,nofun,nofun⟩

/-- The second round: a cheap agent hit its wall before. -/
theorem invoked_second {first : Attempt} (clear : begun first.agent = false) (cheap : first.agent ≠ .claude)
    (failed : first.failed = true) (limited : first.limited = true) (spare : begun .claude = false)
    (latched : now first.agent = true) (ofAgent : first.agent = agent) :
    (rounds tables lower role escalate 1 .claude model rc text).wp (watched lower) (Invoked agent begun) (now,[first]) := by
  apply wp_seq ran_round
  · rintro ⟨later,trail⟩ ⟨grown,rfl | ⟨second,rfl,retry⟩⟩
    · exact invoked_raised (.once clear) (by simp [ofAgent])
    · exact invoked_raised (.twice clear cheap failed limited retry spare) (by simp [ofAgent,retry])
  rintro (reply | ⟨next,rest⟩) ⟨later,trail⟩ ⟨grown,ran⟩
  · obtain ⟨second,rfl,retry,settled,named⟩ := ran
    refine ⟨.twice clear cheap failed limited retry spare,by simp [ofAgent,retry],?_,?_⟩
    · intro reply same attempt among
      rw [List.cons_append,List.nil_append,List.mem_pair] at among
      rcases among with rfl | rfl
      · exact fun _ _ => grown _ latched
      · exact settled
    · rintro last same
      cases same
      rcases named with named | none
      · exact .inr ⟨second,rfl,by rw [named,retry]⟩
      · exact .inl none
  · obtain ⟨_,_,_,impossible,_⟩ := ran
    exact absurd rfl impossible

theorem invoked_rounds (grown : Grows begun now) (clear : begun use = false) (ofAgent : use = agent ∨ use = .claude) :
    (rounds tables lower role escalate 2 use model rc text).wp (watched lower) (Invoked agent begun) (now,[]) := by
  apply wp_seq ran_round
  · rintro ⟨later,trail⟩ ⟨_,rfl | ⟨first,rfl,rfl⟩⟩
    · exact invoked_raised .none nofun
    · exact invoked_raised (.once clear) (by simpa using ofAgent)
  rintro (reply | ⟨next,rest⟩) ⟨later,trail⟩ ⟨further,ran⟩
  · obtain ⟨first,rfl,rfl,settled,named⟩ := ran
    refine ⟨.once clear,by simpa using ofAgent,by simpa using settled,?_⟩
    rintro last same
    cases same
    rcases named with named | none
    · exact .inr ⟨first,rfl,named⟩
    · exact .inl none
  · obtain ⟨first,rfl,rfl,cheap,failed,limited,latched,rfl,spare⟩ := ran
    exact invoked_second clear cheap failed limited (grown.clear spare) latched (ofAgent.resolve_right cheap)

theorem invoked {requested : Text} : (invoke tables lower role escalate requested model).wp (watched lower)
    (fun outcome last => match Agent.named (requestedAgent tables role requested) with
      | some agent => Invoked agent now outcome last
      | none => outcome = none ∧ last.2 = []) (now,[]) := by
  apply wp_call
  · intro later same
    cases Agent.named (requestedAgent tables role requested) with
    | none => exact ⟨rfl,rfl⟩
    | some agent => exact invoked_raised .none nofun
  intro written first same
  have grown := Grows.after_same same
  apply wp_seq resolved
  · cases Agent.named (requestedAgent tables role requested) with
    | none => exact fun later found => ⟨rfl,congrArg Prod.snd found.2⟩
    | some agent =>
      rintro ⟨later,trail⟩ ⟨_,rfl,_⟩
      exact invoked_raised .none nofun
  intro use
  cases Agent.named (requestedAgent tables role requested) with
  | none => exact fun later found => nomatch found.1
  | some agent =>
    rintro ⟨second,trail⟩ ⟨further,rfl,found⟩
    match use with
    | none =>
      apply wp_call
      · exact fun later same => invoked_raised .none nofun
      intro noted later same
      refine ⟨.none,nofun,nofun,?_⟩
      rintro reply same
      cases same
      exact .inl ⟨rfl,Grows.after_same ‹_› .claude found⟩
    | some (use,model) => exact invoked_rounds (grown.trans further) (grown.clear found.1) found.2

end Invocation

/-- Whatever other threads disable meanwhile: an invocation runs no agent that was disabled when it began, a second
process only on claude and after a cheap agent hit its wall, and when it returns every agent that hit one is disabled. -/
theorem invoke_spends {tables : Tables} {role : Role} {escalate : Bool} {requested : Text} {agent : Agent} {model : Option Text}
    {last : Latched} {events : List (Program.Event Command Answer)} {outcome : Option Reply}
    (known : Agent.named (requestedAgent tables role requested) = some agent)
    (ran : Program.Runs (critical.among Grows) (invoke tables lower role escalate requested model) now events outcome last) :
    Invoked agent now outcome (last,events.foldl (note lower) []) := by
  have spent := Program.runs_noting invoked ran
  rwa [known] at spent

/-- Claude is asked for and is out of quota: it ran once and is disabled. -/
theorem invoke_spends_walled : Invoked .claude (fun _ => false) (some ⟨some "claude".toList,1,[]⟩)
    (Function.update (fun _ => false) .claude true,
      [⟨.writePrompt,some ()⟩,⟨.agentOk .claude,some true⟩,⟨.unlink .claude,some ()⟩,
        ⟨.spawn .claude (some (ofRole .critic Tables.default.models)),some ()⟩,⟨.wait .claude,some (some 1)⟩,
        ⟨.finalText .claude,some ([],[])⟩,⟨.record (.agentError .claude 1 []),some ()⟩,⟨.hitLimit .claude,some true⟩,
        ⟨.latch .claude,some true⟩,⟨.setEnviron .claude,some ()⟩,⟨.record (.reviewDiversityLost .claude),some ()⟩].foldl
        (note id) []) :=
  @invoke_spends id (fun _ => false) Tables.default .critic false "claude".toList .claude none _ _ _ rfl
    (.call ⟨_,rfl,.refl⟩ (.call ⟨_,⟨rfl,rfl⟩,.refl⟩ (.call ⟨_,rfl,.refl⟩ (.call ⟨_,rfl,.refl⟩ (.call ⟨_,rfl,.refl⟩
      (.call ⟨_,rfl,.refl⟩ (.call ⟨_,rfl,.refl⟩ (.call ⟨_,rfl,.refl⟩ (.call ⟨_,⟨rfl,rfl⟩,.refl⟩ (.call ⟨_,rfl,.refl⟩
        (.call ⟨_,rfl,.refl⟩ (.done _ _))))))))))))

end Frankenrust.Orchestrator.Agents
