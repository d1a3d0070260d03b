import Frankenrust.Library.Crew
import Frankenrust.Orchestrator.Gh
import Frankenrust.Orchestrator.Tables

/-! `invoke` of `loop.py`: which agent runs a stage, its retry on claude where its quota is spent,
and the latches that keep a dead agent from being run again. -/
namespace Frankenrust.Orchestrator.Agents

inductive Note
  | agentUnavailable (agent : Text)
  | agentTimeout (agent : Agent)
  | agentError (agent : Agent) (rc : Int) (reason : Text)
  | agentFallback (agent fallback : Agent) (rc : Int)
  | reviewDiversityLost (agent : Agent)
  deriving DecidableEq

/-- `agentOk` and `latch` are the two critical sections of `_codex_lock`; `wait` runs up to the
timeout, and `none` is a process that was killed there. -/
inductive Command
  | agentOk (agent : Agent)
  | latch (agent : Agent)
  | setEnviron (agent : Agent)
  | record (note : Note)
  | writePrompt
  | unlink (agent : Agent)
  | spawn (agent : Agent) (model : Option Text)
  | wait (agent : Agent)
  | finalText (agent : Agent)
  | hitLimit (agent : Agent)
  deriving DecidableEq

abbrev Answer : Command → Type
  | .agentOk _ | .latch _ | .hitLimit _ => Bool
  | .setEnviron _ | .record _ | .writePrompt | .unlink _ | .spawn _ _ => Unit
  | .wait _ => Option Int
  | .finalText _ => Text × Text

abbrev Calls := Program Command Answer

abbrev call (command : Command) : Calls (Answer command) := Program.invoke command

/-- `_disable_agent`. -/
def disableAgent (agent : Agent) : Calls Unit := do
  let newly ← call (.latch agent)
  if newly then do
    call (.setEnviron agent)
    call (.record (.reviewDiversityLost agent))
  else pure ()

/-- `table.get(role, table["implementer"])`. -/
def ofRole (role : Role) (table : List (Role × Text)) : Text :=
  (Dict.get role table).getD ((Dict.get .implementer table).getD [])

/-- `agent == wanted and _agent_ok(wanted)`. -/
def usable (agent wanted : Agent) : Calls Bool := if agent = wanted then call (.agentOk wanted) else pure false

/-- The last resort, `none` where it is disabled as well. -/
def claude (model : Text) : Calls (Option (Agent × Option Text)) := do
  let ok ← call (.agentOk .claude)
  pure (if ok then some (.claude,some model) else none)

variable (tables : Tables) (lower : Text → Text) (role : Role) (escalate : Bool)

def resolveKnown (agent : Agent) (model : Option Text) : Calls (Option (Agent × Option Text)) := do
  let codex ← usable agent .codex
  if codex ∧ ¬escalate then pure (some (.codex,none))
  else do
    let opencode ← usable agent .opencode
    if opencode ∧ ¬escalate then
      pure (some (.opencode,some ((model.filter (· ≠ [])).getD (ofRole role tables.opencodeModels))))
    else if escalate then do
      let opencode ← usable agent .opencode
      if opencode then pure (some (.opencode,some tables.opencodeEscalatedModel))
      else claude tables.escalatedModel
    else claude (ofRole role tables.models)

/-- What `resolve` looks up: `duel` stands for the agent of the role. -/
def requestedAgent (requested : Text) : Text :=
  if requested = "duel".toList then ofRole role tables.roleAgent else requested

/-- `none` is `NoAgentUsable`, and an agent that is not known raises. -/
def resolve (requested : Text) (model : Option Text) : Calls (Option (Agent × Option Text)) :=
  match Agent.named (requestedAgent tables role requested) with
  | none => Program.raise
  | some agent => resolveKnown tables role escalate agent model

def authPatterns : List Text := [
  "failed to authenticate: oauth session expired and could not be refreshed".toList,"oauth session expired".toList,
  "authentication error".toList]

def hitAuth (text : Text) : Bool := authPatterns.any fun pattern => contains pattern (lower text)

/-- `FALLBACK_AGENT`. -/
def fallbackAgent : Agent → Option Agent
  | .claude => none
  | .codex | .opencode => some .claude

/-- An agent that exited with a quota pattern in its log. -/
def walled (use : Agent) (rc : Int) : Calls Bool :=
  if (fallbackAgent use).isSome ∧ rc ≠ 0 then call (.hitLimit use) else pure false

/-- A run of claude that cannot do better within this process. -/
def exhausted (use : Agent) (rc : Int) (text err : Text) : Calls Bool :=
  if use = .claude ∧ rc ≠ 0 then do
    let limit ← call (.hitLimit use)
    pure (limit || hitAuth lower (err ++ '\n' :: text))
  else pure false

/-- How a round of the loop ends: with what `invoke` returns, or with the agent of the next round. -/
abbrev Round := Reply ⊕ (Agent × Option Text × Int × Text)

/-- `except NoAgentUsable` and `continue`. -/
def fallBack (use : Agent) (rc : Int) (text : Text) : Calls Round := do
  call (.record (.agentFallback use ((fallbackAgent use).getD use) rc))
  disableAgent use
  let next ← resolve tables role escalate use.name none
  match next with
  | none => do
    call (.record (.agentUnavailable use.name))
    pure (.inl ⟨none,rc,text⟩)
  | some (next,model) => pure (.inr (next,model,rc,text))

def ended (use : Agent) (rc : Int) : Calls Round := do
  let (text,err) ← call (.finalText use)
  if err ≠ [] ∨ rc ≠ 0 then call (.record (.agentError use rc err)) else pure ()
  let walled ← walled use rc
  if walled then fallBack tables role escalate use rc text
  else do
    let exhausted ← exhausted lower use rc text err
    if exhausted then disableAgent .claude else pure ()
    pure (.inl ⟨some use.name,rc,text⟩)

def round (use : Agent) (model : Option Text) : Calls Round := do
  call (.unlink use)
  call (.spawn use model)
  let waited ← call (.wait use)
  match waited with
  | none => do
    call (.record (.agentTimeout use))
    pure (.inl ⟨some use.name,124,[]⟩)
  | some rc => ended tables lower role escalate use rc

/-- `for _ in range(left)`. -/
def rounds : Nat → Agent → Option Text → Int → Text → Calls Reply
  | 0, use, _, rc, text => pure ⟨some use.name,rc,text⟩
  | left + 1, use, model, _, _ => do
    match ← round tables lower role escalate use model with
    | .inl reply => pure reply
    | .inr (next,model,rc,text) => rounds left next model rc text

def invoke (requested : Text) (model : Option Text) : Calls Reply := do
  call .writePrompt
  let use ← resolve tables role escalate requested model
  match use with
  | none => do
    call (.record (.agentUnavailable requested))
    pure ⟨none,1,[]⟩
  | some (use,model) => rounds tables lower role escalate 2 use model 1 []

end Frankenrust.Orchestrator.Agents
