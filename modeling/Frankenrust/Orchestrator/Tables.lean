import Frankenrust.Library.Dict
import Frankenrust.Orchestrator.DiffStats
import Frankenrust.Orchestrator.Text

/-! `config.py`: which agent runs which role with which model, as the environment and the `.env`
file set it, and the check that the tables pass when they are loaded. -/
namespace Frankenrust.Orchestrator

/-- `AGENTS`. -/
inductive Agent
  | claude
  | codex
  | opencode
  deriving DecidableEq

namespace Agent

def name : Agent → Text
  | .claude => "claude".toList
  | .codex => "codex".toList
  | .opencode => "opencode".toList

def all : List Agent := [.claude,.codex,.opencode]

def named (name : Text) : Option Agent := all.find? fun agent => agent.name = name

end Agent

inductive Role
  | implementer
  | fixer
  | critic
  | reviewer
  | planner
  | resolver
  | unblocker
  | retro
  deriving DecidableEq

namespace Role

def name : Role → Text
  | .implementer => "implementer".toList
  | .fixer => "fixer".toList
  | .critic => "critic".toList
  | .reviewer => "reviewer".toList
  | .planner => "planner".toList
  | .resolver => "resolver".toList
  | .unblocker => "unblocker".toList
  | .retro => "retro".toList

/-- `ROLE_ENV`. -/
def env : Role → Text
  | .implementer => "IMPL".toList
  | .fixer => "FIX".toList
  | .critic => "CRITIC".toList
  | .reviewer => "REVIEW".toList
  | .planner => "PLAN".toList
  | .resolver => "RESOLVE".toList
  | .unblocker => "UNBLOCK".toList
  | .retro => "RETRO".toList

end Role

structure Tables where
  roleAgent : List (Role × Text)
  models : List (Role × Text)
  opencodeModels : List (Role × Text)
  duelAgents : List Text
  duelModels : List Text
  reviewerAgents : List (Nat × Text)
  escalatedModel : Text
  opencodeEscalatedModel : Text

namespace Tables

abbrev Environ := List (Text × Text)

def freeModel : Text := "opencode/deepseek-v4-flash-free".toList

/-- What stands in the file itself. -/
def default : Tables where
  roleAgent := [.implementer,.fixer,.critic,.reviewer,.planner,.resolver,.unblocker,.retro].map (·,"opencode".toList)
  models := [(.implementer,"claude-sonnet-5".toList),(.critic,"claude-opus-5".toList),(.reviewer,"claude-opus-5".toList),
    (.fixer,"claude-opus-5".toList),(.planner,"claude-opus-5".toList),(.resolver,"claude-opus-5".toList),
    (.unblocker,"claude-opus-5".toList)]
  opencodeModels := [.implementer,.critic,.reviewer,.fixer,.planner,.resolver,.unblocker].map (·,freeModel)
  duelAgents := ["opencode".toList]
  duelModels := [freeModel,"opencode/hy3-free".toList]
  reviewerAgents := [(1,"opencode".toList),(2,"opencode".toList)]
  escalatedModel := "claude-opus-5".toList
  opencodeEscalatedModel := freeModel

def stripChar (char : Char) (text : Text) : Text := ((text.dropWhile (· == char)).reverse.dropWhile (· == char)).reverse

/-- One line of `.env`. -/
def setting (line : Text) : Option (Text × Text) :=
  let line := strip line
  if line = [] ∨ line.head? = some '#' ∨ '=' ∉ line then none
  else
    let key := strip (line.takeWhile (· != '='))
    let value := strip ((line.dropWhile (· != '=')).drop 1)
    if key = [] then none else some (key,stripChar '\'' (stripChar '"' value))

/-- `_load_dotenv`; `envFile` is what the file that `FR_ENV_FILE` names holds, if it is there. -/
def loadDotenv (envFile : Option Text → Option Text) (environ : Environ) : Environ :=
  match envFile (Dict.get "FR_ENV_FILE".toList environ) with
  | none => environ
  | some text => Dict.setDefaults ((DiffStats.splitlines text).filterMap setting) environ

/-- `text.split(",")` with its parts stripped and the empty ones left out. -/
def commaList (text : Text) : List Text := ((text.splitOn ',').map strip).filter (· ≠ [])

def getEnv (environ : Environ) (key : String) (suffix value : Text) : Text :=
  (Dict.get (key.toList ++ suffix) environ).getD value

def overlay {κ : Type} (environ : Environ) (key : String) (suffix : κ → Text) (table : List (κ × Text)) : List (κ × Text) :=
  table.map fun entry => (entry.1,getEnv environ key (suffix entry.1) entry.2)

/-- `_apply_env`. -/
def applyEnv (environ : Environ) (tables : Tables) : Tables :=
  let opencodeModels := overlay environ "FR_OPENCODE_MODEL_" Role.env tables.opencodeModels
  { roleAgent := overlay environ "FR_AGENT_" Role.env tables.roleAgent
    models := overlay environ "FR_MODEL_" Role.env tables.models
    opencodeModels
    duelAgents := commaList (getEnv environ "FR_DUEL_AGENTS" [] ([','].intercalate tables.duelAgents))
    duelModels := commaList (getEnv environ "FR_DUEL_MODELS" [] ([','].intercalate tables.duelModels))
    reviewerAgents := overlay environ "FR_REVIEWER" decimalText tables.reviewerAgents
    escalatedModel := getEnv environ "FR_MODEL_ESCALATE" [] tables.escalatedModel
    opencodeEscalatedModel := getEnv environ "FR_OPENCODE_MODEL_ESCALATE" []
      ((Dict.get .implementer opencodeModels).getD []) }

inductive Unknown
  | agent (name : Text) (role : Role)
  | reviewer (slot : Nat) (name : Text)
  | duelAgent (name : Text)

/-- The text of the `ValueError`; `repr` is Python's. -/
def Unknown.message (repr : Text → Text) : Unknown → Text
  | .agent name role => "config: unknown agent ".toList ++ repr name ++ " for role ".toList ++ repr role.name ++ known
  | .reviewer slot name => "config: unknown reviewer ".toList ++ decimalText slot ++ ": ".toList ++ repr name ++ known
  | .duelAgent name => "config: unknown duel agent ".toList ++ repr name ++ known
where
  known : Text := " (known: ".toList ++ ", ".toList.intercalate (Agent.all.map Agent.name) ++ ")".toList

def isKnown (name : Text) : Bool := (Agent.named name).isSome

/-- `_validate`: the first unknown agent, in the order of the checks. -/
def validate (tables : Tables) : Except Unknown Unit :=
  match tables.roleAgent.find? fun entry => !isKnown entry.2 with
  | some (role,name) => .error (.agent name role)
  | none => match tables.reviewerAgents.find? fun entry => !isKnown entry.2 with
    | some (slot,name) => .error (.reviewer slot name)
    | none => match tables.duelAgents.find? fun name => !isKnown name with
      | some name => .error (.duelAgent name)
      | none => .ok ()

/-- The tables as `config.py` leaves them where its import succeeds. -/
def load (envFile : Option Text → Option Text) (environ : Environ) : Except Unknown Tables :=
  let tables := applyEnv (loadDotenv envFile environ) default
  (validate tables).map fun _ => tables

/-- The agents that a stage may be given: a role's, a reviewer's, one of a duel. -/
def Configured (tables : Tables) (name : Text) : Prop :=
  name ∈ tables.roleAgent.map (·.2) ∨ name ∈ tables.reviewerAgents.map (·.2) ∨ name ∈ tables.duelAgents

/-- What `.env` sets; of two lines for one key the first counts. -/
def settings (envFile : Option Text → Option Text) (environ : Environ) : List (Text × Text) :=
  ((envFile (Dict.get "FR_ENV_FILE".toList environ)).map fun text => (DiffStats.splitlines text).filterMap setting).getD []

variable {envFile : Option Text → Option Text} {environ : Environ} {tables : Tables}

theorem none_unknown {α : Type} {entries : List α} {name : α → Text} :
    entries.find? (fun entry => !isKnown (name entry)) = none ↔ ∀ agent ∈ entries.map name, isKnown agent = true := by
  simp

/-- The check passes exactly where every configured agent is known. -/
theorem validate_ok : validate tables = .ok () ↔ ∀ name, tables.Configured name → isKnown name = true := by
  have split : (∀ name, tables.Configured name → isKnown name = true) ↔
      (∀ name ∈ tables.roleAgent.map (·.2), isKnown name = true) ∧
        (∀ name ∈ tables.reviewerAgents.map (·.2), isKnown name = true) ∧ ∀ name ∈ tables.duelAgents, isKnown name = true := by
    simp only [Configured,or_imp,forall_and]
  have duel : tables.duelAgents.find? (fun name => !isKnown name) = none ↔ ∀ name ∈ tables.duelAgents, isKnown name = true := by simp
  rw [split,← none_unknown,← none_unknown,← duel,validate]
  cases tables.roleAgent.find? fun entry => !isKnown entry.2 with
  | some entry => simp
  | none =>
    cases tables.reviewerAgents.find? fun entry => !isKnown entry.2 with
    | some entry => simp
    | none =>
      cases tables.duelAgents.find? fun name => !isKnown name with
      | some name => simp
      | none => simp

theorem load_ok : load envFile environ = .ok tables ↔
    tables = applyEnv (loadDotenv envFile environ) default ∧ ∀ name, tables.Configured name → isKnown name = true := by
  rw [← validate_ok,load]
  cases checked : validate (applyEnv (loadDotenv envFile environ) default) with
  | error unknown =>
    simp only [Except.map,reduceCtorEq,false_iff,not_and]
    rintro rfl
    simp [checked]
  | ok =>
    simp only [Except.map,Except.ok.injEq]
    constructor
    · rintro rfl
      exact ⟨rfl,checked⟩
    · exact fun known => known.1.symm

/-- The environment wins over `.env`, and `.env` over what stands in the file. -/
theorem get_loadDotenv (key : Text) : Dict.get key (loadDotenv envFile environ) =
    (Dict.get key environ).or (Dict.get key (settings envFile environ)) := by
  rw [loadDotenv,settings]
  cases envFile (Dict.get "FR_ENV_FILE".toList environ) with
  | none => simp [Dict.get]
  | some text => exact Dict.get_setDefaults _

end Tables
end Frankenrust.Orchestrator
