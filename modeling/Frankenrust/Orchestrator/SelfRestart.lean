import Frankenrust.Orchestrator.Latches

/-! The latches of `_disable_agent` over a chain of self-restarts: the threads of a process invoke
agents in any interleaving, and `restart_into_new_code` hands a copy of the environment to the next. -/
namespace Frankenrust.Orchestrator.Agents.SelfRestart
open Program Relation

/-- `latcher`, `lost` and `missed` are not in the code: who latched an agent and has not yet recorded its loss, how
often `review_diversity_lost` was recorded in the whole chain, and how many restarts took the copy too early for it. -/
structure Process (I : Type) where
  disabled : Latched
  environ : Latched
  copied : Option Latched
  latcher : Agent → Option I
  lost : Agent → Nat
  missed : Agent → Nat

variable {I : Type}

/-- What the module starts with; the first of the chain inherits what the environment had set. -/
def Process.begin (environ : Latched) (lost missed : Agent → Nat) : Process I :=
  ⟨environ,environ,none,fun _ => none,lost,missed⟩

def recorded (process : Process I) (agent : Agent) : Process I :=
  { process with
    latcher := Function.update process.latcher agent none
    lost := Function.update process.lost agent (process.lost agent + 1) }

def does (i : I) (command : Command) (now : Process I) (answer : Option (Answer command)) (later : Process I) :
    Prop :=
  match command with
  | .agentOk agent => answer = some (!now.disabled agent) ∧ later = now
  | .latch agent => answer = some (!now.disabled agent) ∧ later = if now.disabled agent then now else
      { now with disabled := Function.update now.disabled agent true,latcher := Function.update now.latcher agent (some i) }
  | .setEnviron agent => answer = some () ∧ later = { now with environ := Function.update now.environ agent true }
  | .record (.reviewDiversityLost agent) => later = recorded now agent ∨ answer = none ∧ later = now
  | _ => later = now

/-- The variable is set by the thread that latched the agent, and the loss is recorded by it and after that. -/
def permits (i : I) (command : Command) (now : Process I) : Prop :=
  match command with
  | .setEnviron agent => now.latcher agent = some i
  | .record (.reviewDiversityLost agent) => now.latcher agent = some i ∧ now.environ agent = true
  | _ => True

def critical (i : I) : Contract Command Answer (Process I) := ⟨permits i,does i⟩

structure Kept (process : Process I) : Prop where
  marked : ∀ agent, process.environ agent = true → process.disabled agent = true
  held : ∀ agent i, process.latcher agent = some i → process.disabled agent = true
  copied : ∀ copy, process.copied = some copy → ∀ agent, copy agent = true → process.environ agent = true
  bounded : ∀ agent, process.lost agent ≤ process.missed agent + (process.environ agent).toNat
  owed : ∀ agent i, process.latcher agent = some i → process.lost agent ≤ process.missed agent

/-- What the other threads leave a thread. -/
structure Others (i : I) (now later : Process I) : Prop where
  sound : Kept now → Kept later
  latcher : ∀ agent, now.latcher agent = some i → later.latcher agent = some i
  environ : ∀ agent, now.latcher agent = some i → now.environ agent = true → later.environ agent = true

def invokes (_ : I) (program : Calls Reply) : Prop :=
  ∃ tables lower role escalate requested model, program = invoke tables lower role escalate requested model

abbrev Chain (I : Type) := Crew I Command Answer Reply (Process I)

inductive Step [DecidableEq I] : Chain I → Chain I → Prop
  | works {chain next : Chain I} (stepped : Crew.Steps critical invokes chain next) : Step chain next
  /-- `env = {**os.environ, …}` -/
  | copies {chain : Chain I} : Step chain { chain with shared := { chain.shared with copied := some chain.shared.environ } }
  /-- `os.execve`: no thread but this one gets any further. -/
  | execs {chain : Chain I} {copy : Latched} (copied : chain.shared.copied = some copy) : Step chain
      ⟨Process.begin copy chain.shared.lost fun agent =>
        chain.shared.missed agent + (chain.shared.environ agent && !copy agent).toNat,fun _ => .done none⟩

section Calls
variable {i : I} {command : Command} {now later : Process I} {answer : Option (Answer command)}

theorem does_cases (did : does i command now answer later) : later = now ∨
    (∃ agent, command = .latch agent ∧ now.disabled agent = false ∧ later = { now with
      disabled := Function.update now.disabled agent true,latcher := Function.update now.latcher agent (some i) }) ∨
    (∃ agent, command = .setEnviron agent ∧ later = { now with environ := Function.update now.environ agent true }) ∨
    (∃ agent, command = .record (.reviewDiversityLost agent) ∧ later = recorded now agent) := by
  match command with
  | .latch agent =>
    obtain ⟨_,did⟩ := did
    split at did
    next => exact .inl did
    next clear => exact .inr (.inl ⟨agent,rfl,by simpa using clear,did⟩)
  | .setEnviron agent => exact .inr (.inr (.inl ⟨agent,rfl,did.2⟩))
  | .record (.reviewDiversityLost agent) =>
    rcases did with did | ⟨_,same⟩
    · exact .inr (.inr (.inr ⟨agent,rfl,did⟩))
    · exact .inl same
  | .agentOk _ => exact .inl did.2
  | .record (.agentUnavailable _) | .record (.agentTimeout _) | .record (.agentError _ _ _) | .record (.agentFallback _ _ _)
  | .writePrompt | .unlink _ | .spawn _ _ | .wait _ | .finalText _ | .hitLimit _ => exact .inl did

theorem kept_latch {agent : Agent} (clear : now.disabled agent = false) (kept : Kept now) : Kept { now with
    disabled := Function.update now.disabled agent true,latcher := Function.update now.latcher agent (some i) } := by
  have unset : now.environ agent = false := by
    by_contra set
    simp [kept.marked agent (by simpa using set)] at clear
  have grown := grows_latch now.disabled agent
  refine ⟨fun other set => grown other (kept.marked other set),?_,kept.copied,kept.bounded,?_⟩
  · intro other holder held
    by_cases same : other = agent
    · simp [same]
    · exact grown other (kept.held other holder (by simpa [same] using held))
  · intro other holder held
    by_cases same : other = agent
    · simpa [same,unset] using kept.bounded agent
    · exact kept.owed other holder (by simpa [same] using held)

theorem kept_setEnviron {agent : Agent} (held : now.latcher agent = some i) (kept : Kept now) :
    Kept { now with environ := Function.update now.environ agent true } := by
  have grown := grows_latch now.environ agent
  refine ⟨?_,kept.held,fun copy copied other set => grown other (kept.copied copy copied other set),?_,kept.owed⟩
  · intro other set
    by_cases same : other = agent
    · exact same ▸ kept.held agent i held
    · exact kept.marked other (by simpa [same] using set)
  · intro other
    have bound := kept.bounded other
    by_cases same : other = agent
    · have owed := kept.owed agent i held
      simp only [same,Function.update_self,Bool.toNat_true]
      omega
    · simpa [same] using bound

theorem kept_recorded {agent : Agent} (held : now.latcher agent = some i) (set : now.environ agent = true) (kept : Kept now) :
    Kept (recorded now agent) := by
  refine ⟨kept.marked,?_,kept.copied,?_,?_⟩
  · intro other holder holds
    by_cases same : other = agent
    · simp [recorded,same] at holds
    · exact kept.held other holder (by simpa [recorded,same] using holds)
  · intro other
    by_cases same : other = agent
    · have owed := kept.owed agent i held
      simpa [recorded,same,set] using owed
    · simpa [recorded,same] using kept.bounded other
  · intro other holder holds
    by_cases same : other = agent
    · simp [recorded,same] at holds
    · simpa [recorded,same] using kept.owed other holder (by simpa [recorded,same] using holds)

theorem kept_call (permitted : permits i command now) (kept : Kept now) (did : does i command now answer later) : Kept later := by
  rcases does_cases did with rfl | ⟨agent,rfl,clear,rfl⟩ | ⟨agent,rfl,rfl⟩ | ⟨agent,rfl,rfl⟩
  · exact kept
  · exact kept_latch clear kept
  · exact kept_setEnviron permitted kept
  · exact kept_recorded permitted.1 permitted.2 kept

/-- A thread touches nothing of what another has latched and not yet recorded. -/
theorem Others.of_call {j : I} (different : j ≠ i) (permitted : permits i command now) (kept : Kept now)
    (did : does i command now answer later) : Others j now later := by
  refine ⟨fun _ => kept_call permitted kept did,?_,?_⟩
  · intro agent held
    rcases does_cases did with rfl | ⟨latched,rfl,clear,rfl⟩ | ⟨_,rfl,rfl⟩ | ⟨lost,rfl,rfl⟩
    · exact held
    · have other : agent ≠ latched := by
        rintro rfl
        simp [kept.held agent j held] at clear
      simpa [other] using held
    · exact held
    · have other : agent ≠ lost := by
        rintro rfl
        exact different (Option.some.inj (held.symm.trans permitted.1))
      simpa [recorded,other] using held
  · intro agent _ set
    rcases does_cases did with rfl | ⟨_,rfl,_,rfl⟩ | ⟨marked,rfl,rfl⟩ | ⟨_,rfl,rfl⟩
    · exact set
    · exact set
    · exact grows_latch now.environ marked agent set
    · exact set

end Calls

section Threads
variable {i : I} {α β : Type}

theorem Others.within {now later : Process I} (reached : ReflTransGen (Others i) now later) : Others i now later := by
  induction reached with
  | refl => exact ⟨id,fun _ held => held,fun _ _ set => set⟩
  | tail _ moved ih =>
    refine ⟨moved.sound ∘ ih.sound,fun agent held => moved.latcher agent (ih.latcher agent held),?_⟩
    exact fun agent held set => moved.environ agent (ih.latcher agent held) (ih.environ agent held set)

/-- The thread takes no call that is not permitted, whatever the others do. -/
def Tame (i : I) (program : Calls α) : Prop :=
  ∀ now, program.wp ((critical i).among (Others i)) (fun _ _ => True) now

theorem tame_done {outcome : Option α} : Tame i (.done outcome) := fun _ => trivial

theorem tame_bind {program : Calls α} {rest : α → Calls β} (first : Tame i program) (each : ∀ value, Tame i (rest value)) :
    Tame i (program.bind rest) := by
  intro now
  rw [wp_bind]
  apply wp_mono _ (first now)
  rintro (_ | value) later _
  · exact trivial
  · exact each value later

theorem tame_call {command : Command} (free : ∀ now, permits i command now) : Tame i (call command) :=
  fun now => ⟨free now,fun _ _ _ => trivial⟩

theorem tame_ite {chosen : Prop} [Decidable chosen] {first second : Calls α} (one : Tame i first) (two : Tame i second) :
    Tame i (if chosen then first else second) := by
  split
  next => exact one
  next => exact two

theorem tame_disableAgent {agent : Agent} : Tame i (disableAgent agent) := by
  intro now
  refine ⟨trivial,?_⟩
  rintro (_ | newly) first ⟨middle,⟨answer,rfl⟩,moved⟩
  · cases answer
  cases newly with
  | false => exact trivial
  | true =>
    have clear : now.disabled agent = false := by simpa using answer.symm
    rw [clear] at moved
    have held : first.latcher agent = some i := (Others.within moved).latcher agent (by simp)
    refine ⟨held,?_⟩
    rintro (_ | done) second ⟨middle,⟨answer,rfl⟩,moved⟩
    · cases answer
    have kept := Others.within moved
    exact ⟨⟨kept.latcher agent held,kept.environ agent held (by simp)⟩,fun _ _ _ => trivial⟩

variable {tables : Tables} {role : Role} {escalate : Bool} {lower : Text → Text} {use : Agent}

theorem tame_usable {agent wanted : Agent} : Tame i (usable agent wanted) :=
  tame_ite (tame_call fun _ => trivial) tame_done

theorem tame_claude {model : Text} : Tame i (claude model) := tame_bind (tame_call fun _ => trivial) fun _ => tame_done

theorem tame_resolve {requested : Text} {model : Option Text} : Tame i (resolve tables role escalate requested model) := by
  rw [resolve]
  cases Agent.named (requestedAgent tables role requested) with
  | none => exact tame_done
  | some agent =>
    refine tame_bind tame_usable fun codex => tame_ite tame_done ?_
    refine tame_bind tame_usable fun opencode => tame_ite tame_done ?_
    refine tame_ite ?_ tame_claude
    exact tame_bind tame_usable fun again => tame_ite tame_done tame_claude

theorem tame_fallBack {rc : Int} {text : Text} : Tame i (fallBack tables role escalate use rc text) := by
  refine tame_bind (tame_call fun _ => trivial) fun _ => tame_bind tame_disableAgent fun _ => tame_bind tame_resolve fun next => ?_
  cases next with
  | none => exact tame_bind (tame_call fun _ => trivial) fun _ => tame_done
  | some next => exact tame_done

theorem tame_ended {rc : Int} : Tame i (ended tables lower role escalate use rc) := by
  refine tame_bind (tame_call fun _ => trivial) fun said => ?_
  have rest : Tame i ((walled use rc).bind fun walled => if walled = true then fallBack tables role escalate use rc said.1 else
      (exhausted lower use rc said.1 said.2).bind fun exhausted =>
        if exhausted = true then (disableAgent .claude).bind fun _ => pure (.inl ⟨some use.name,rc,said.1⟩)
        else pure (.inl ⟨some use.name,rc,said.1⟩)) := by
    refine tame_bind (tame_ite (tame_call fun _ => trivial) tame_done) fun walled => tame_ite tame_fallBack ?_
    refine tame_bind (tame_ite (tame_bind (tame_call fun _ => trivial) fun _ => tame_done) tame_done) fun exhausted => ?_
    exact tame_ite (tame_bind tame_disableAgent fun _ => tame_done) tame_done
  exact tame_ite (tame_bind (tame_call fun _ => trivial) fun _ => rest) rest

theorem tame_round {model : Option Text} : Tame i (round tables lower role escalate use model) := by
  refine tame_bind (tame_call fun _ => trivial) fun _ => tame_bind (tame_call fun _ => trivial) fun _ => ?_
  refine tame_bind (tame_call fun _ => trivial) fun waited => ?_
  cases waited with
  | none => exact tame_bind (tame_call fun _ => trivial) fun _ => tame_done
  | some rc => exact tame_ended

theorem tame_rounds {left : Nat} {model : Option Text} {rc : Int} {text : Text} :
    Tame i (rounds tables lower role escalate left use model rc text) := by
  induction left generalizing use model rc text with
  | zero => exact tame_done
  | succ left ih =>
    refine tame_bind tame_round fun round => ?_
    rcases round with reply | ⟨next,model,rc,text⟩
    · exact tame_done
    · exact ih

theorem tame_invoke {requested : Text} {model : Option Text} : Tame i (invoke tables lower role escalate requested model) := by
  refine tame_bind (tame_call fun _ => trivial) fun _ => tame_bind tame_resolve fun use => ?_
  match use with
  | none => exact tame_bind (tame_call fun _ => trivial) fun _ => tame_done
  | some (use,model) => exact tame_rounds

end Threads

section Chains
variable {chain next first last : Chain I}

def Sound (chain : Chain I) : Prop := Crew.Safe critical Others (fun _ _ _ => True) Kept chain

theorem kept_begin {environ : Latched} {lost missed : Agent → Nat}
    (bounded : ∀ agent, lost agent ≤ missed agent + (environ agent).toNat) :
    Kept (Process.begin environ lost missed : Process I) :=
  ⟨fun _ set => set,nofun,nofun,bounded,nofun⟩

theorem kept_copies {process : Process I} (kept : Kept process) : Kept { process with copied := some process.environ } :=
  { kept with copied := by rintro copy ⟨⟩ agent set; exact set }

theorem kept_execs {process : Process I} {copy : Latched} (copied : process.copied = some copy) (kept : Kept process) :
    Kept (Process.begin copy process.lost (fun agent =>
      process.missed agent + (process.environ agent && !copy agent).toNat) : Process I) := by
  apply kept_begin
  intro agent
  have bound := kept.bounded agent
  cases taken : copy agent with
  | true => simpa [kept.copied copy copied agent taken] using bound
  | false => simpa using bound

theorem sound_begin {process : Process I} (kept : Kept process) : Sound ⟨process,fun _ => .done none⟩ :=
  ⟨kept,fun _ _ _ => trivial⟩

variable [DecidableEq I]

theorem sound_step (stepped : Step chain next) (sound : Sound chain) : Sound next := by
  cases stepped with
  | works stepped =>
    refine Crew.safe_step ?_ ?_ ?_ ?_ stepped sound
    · exact fun i command now answer later permitted kept did => kept_call permitted kept did
    · exact fun i j command now answer later different permitted kept did => Others.of_call different permitted kept did
    · exact fun i now later kept moved => moved.sound kept
    · rintro i outcome program now ⟨tables,lower,role,escalate,requested,model,rfl⟩ _ _
      exact tame_invoke now
  | copies =>
    refine ⟨kept_copies sound.sound,?_⟩
    intro i later reached
    exact sound.each i later (.head ⟨kept_copies,fun _ held => held,fun _ _ set => set⟩ reached)
  | execs copied => exact sound_begin (kept_execs copied sound.sound)

theorem sound_run (ran : ReflTransGen Step first last) (sound : Sound first) : Sound last := by
  induction ran with
  | refl => exact sound
  | tail _ stepped ih => exact sound_step stepped ih

/-- Over the whole chain, the loss of an agent is recorded once and then once more for each restart that copied the
environment before it was marked there; beyond those, an agent whose loss is recorded stays disabled. -/
theorem diversity_lost_once {environ : Latched}
    (ran : ReflTransGen Step ⟨Process.begin environ (fun _ => 0) fun _ => 0,fun _ => .done none⟩ last) (agent : Agent) :
    last.shared.lost agent ≤ last.shared.missed agent + 1 ∧
      (last.shared.missed agent < last.shared.lost agent → last.shared.disabled agent = true) := by
  have kept := (sound_run ran (sound_begin (kept_begin fun _ => Nat.zero_le _))).sound
  have bound := kept.bounded agent
  constructor
  · have one := Bool.toNat_le (last.shared.environ agent)
    omega
  · intro more
    apply kept.marked
    by_contra clear
    rw [Bool.not_eq_true] at clear
    simp only [clear,Bool.toNat_false] at bound
    omega

end Chains

def fresh : Process Unit := Process.begin (fun _ => false) (fun _ => 0) fun _ => 0

/-- Claude runs into its quota in the first process, and the second starts with it disabled. -/
theorem diversity_lost_once_restarted : (1 : Nat) ≤ 0 + 1 ∧
    (0 < 1 → (Function.update (fun _ => false) .claude true : Latched) .claude = true) := by
  have walled : Runs (critical ()) (invoke Tables.default id .critic false "claude".toList none) fresh
      [⟨.writePrompt,some ()⟩,⟨.agentOk .claude,some true⟩,⟨.unlink .claude,some ()⟩,
        ⟨.spawn .claude (some (ofRole .critic Tables.default.models)),some ()⟩,⟨.wait .claude,some (some 1)⟩,
        ⟨.finalText .claude,some ([],[])⟩,⟨.record (.agentError .claude 1 []),some ()⟩,⟨.hitLimit .claude,some true⟩,
        ⟨.latch .claude,some true⟩,⟨.setEnviron .claude,some ()⟩,⟨.record (.reviewDiversityLost .claude),some ()⟩]
      (some ⟨some "claude".toList,1,[]⟩) _ :=
    .call rfl (.call ⟨rfl,rfl⟩ (.call rfl (.call rfl (.call rfl (.call rfl (.call rfl (.call rfl (.call ⟨rfl,rfl⟩
      (.call ⟨rfl,rfl⟩ (.call (.inl rfl) (.done _ _)))))))))))
  have started : Crew.Steps critical invokes ⟨fresh,fun _ => .done none⟩ (Crew.put ⟨fresh,fun _ => .done none⟩ () fresh _) :=
    .start rfl ⟨Tables.default,id,.critic,false,"claude".toList,none,rfl⟩
  have worked := (Relation.ReflTransGen.head started (Crew.alone walled)).lift id fun _ _ => Step.works
  exact diversity_lost_once ((worked.tail .copies).tail (.execs rfl)) .claude

end Frankenrust.Orchestrator.Agents.SelfRestart
