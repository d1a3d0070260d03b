import Frankenrust.Library.Machine
import Mathlib.Algebra.Order.BigOperators.Group.List
import Mathlib.Algebra.Order.Ring.Nat
import Mathlib.Data.List.Nodup

/-! `run` of `server.rs` after the boot: the loop over `accept`, the tasks of the connections,
and the way out of it. An action is one arm of a `select!`, one statement of the way out or one
turn of a task. -/
namespace Frankenrust.Server

inductive ErrorKind
  | connectionAborted
  | connectionReset
  | interrupted
  | wouldBlock
  | uncategorized
  deriving DecidableEq

structure AcceptError where
  kind : ErrorKind
  rawOsError : Option Int
  deriving DecidableEq

def emfile : Int := 24
def enfile : Int := 23

def isTransientAcceptError (err : AcceptError) : Bool :=
  (match err.kind with
    | .connectionAborted | .connectionReset | .interrupted | .wouldBlock => true
    | .uncategorized => false) ||
  match err.rawOsError with
    | some errno => errno == emfile || errno == enfile
    | none => false

/-- In milliseconds. -/
def initialAcceptBackoff : Nat := 5
def maxAcceptBackoff : Nat := 1000

/-- How the task of a connection has come to its end. -/
inductive Ending
  | closed
  | failed
  | panicked
  | cancelled
  deriving DecidableEq

/-- `seen` is what the task's receiver has seen of the flag. -/
structure Connection where
  id : Nat
  seen : Bool
  signalled : Bool
  ending : Option Ending
  deriving DecidableEq

inductive Phase
  | accepting
  | backingOff
  | left
  | joining
  | abandoning
  | joined
  | drained
  | returned (outcome : Except AcceptError Unit)
  deriving DecidableEq

/-- `connections` is the `JoinSet`: an entry stays until it is joined. -/
structure Serving where
  phase : Phase
  acceptBackoff : Nat
  fatal : Option AcceptError
  listening : Bool
  shutdownDone : Bool
  graceful : Bool
  accepted : Nat
  connections : List Connection
  deriving DecidableEq

def Serving.start : Serving where
  phase := .accepting
  acceptBackoff := initialAcceptBackoff
  fatal := none
  listening := true
  shutdownDone := false
  graceful := false
  accepted := 0
  connections := []

inductive Action
  | accept
  | acceptFailed (err : AcceptError)
  | sleep
  | shutdown
  | join (id : Nat)
  | changed (id : Nat)
  | finish (id : Nat) (ending : Ending)
  | stopListening
  | timeout
  | joinedAll
  | drainPhpThreads
  | finishRun
  deriving DecidableEq

namespace Serving

def live (connection : Connection) : Bool := connection.ending.isNone

/-- The joins of the loop and of the two that empty the set. -/
def joins : Phase → Bool
  | .accepting | .joining | .abandoning => true
  | _ => false

def update (id : Nat) (change : Connection → Connection) (serving : Serving) : Serving :=
  { serving with connections := serving.connections.map fun connection => if connection.id = id then change connection else connection }

/-- The task holds a receiver, so while it is live the sender's flag reaches it. -/
def notice (serving : Serving) (connection : Connection) : Connection :=
  { connection with seen := serving.graceful, signalled := true }

def step : Action → Serving → Option Serving
  | .accept, serving =>
    if serving.phase = .accepting then some { serving with
      acceptBackoff := initialAcceptBackoff
      accepted := serving.accepted + 1
      connections := serving.connections ++ [⟨serving.accepted,serving.graceful,false,none⟩] }
    else none
  | .acceptFailed err, serving =>
    if serving.phase = .accepting then
      if isTransientAcceptError err then some { serving with phase := .backingOff }
      else some { serving with phase := .left, fatal := some err }
    else none
  | .sleep, serving =>
    if serving.phase = .backingOff then
      some { serving with phase := .accepting, acceptBackoff := min (serving.acceptBackoff * 2) maxAcceptBackoff }
    else none
  | .shutdown, serving =>
    -- a future that has completed may not be polled again
    if (serving.phase = .accepting ∨ serving.phase = .backingOff) ∧ !serving.shutdownDone then
      some { serving with phase := .left, shutdownDone := true }
    else none
  | .join id, serving =>
    if joins serving.phase ∧ ∃ connection ∈ serving.connections, connection.id = id ∧ !live connection then
      some { serving with connections := serving.connections.filter fun connection => connection.id ≠ id }
    else none
  | .changed id, serving =>
    -- the arm is off once it has fired
    if ∃ connection ∈ serving.connections, connection.id = id ∧ live connection ∧ connection.seen ≠ serving.graceful ∧
        !connection.signalled then some (serving.update id serving.notice)
    else none
  | .finish id ending, serving =>
    if (∃ connection ∈ serving.connections, connection.id = id ∧ live connection) ∧
        (ending = .cancelled → serving.phase = .abandoning) then
      some (serving.update id fun connection => { connection with ending := some ending })
    else none
  | .stopListening, serving =>
    -- `send` leaves the flag as it is where there is no receiver
    if serving.phase = .left then
      some { serving with phase := .joining, listening := false, graceful := serving.graceful || serving.connections.any live }
    else none
  | .timeout, serving =>
    if serving.phase = .joining ∧ serving.connections ≠ [] then some { serving with phase := .abandoning } else none
  | .joinedAll, serving =>
    if (serving.phase = .joining ∨ serving.phase = .abandoning) ∧ serving.connections = [] then
      some { serving with phase := .joined }
    else none
  | .drainPhpThreads, serving =>
    if serving.phase = .joined then some { serving with phase := .drained } else none
  | .finishRun, serving =>
    if serving.phase = .drained then
      some { serving with phase := .returned (match serving.fatal with | some err => .error err | none => .ok ()) }
    else none

/-- The loop has been left. -/
def past : Phase → Bool
  | .accepting | .backingOff => false
  | _ => true

def emptied : Phase → Bool
  | .joined | .drained | .returned _ => true
  | _ => false

def afterDrain : Phase → Bool
  | .drained | .returned _ => true
  | _ => false

def result (fatal : Option AcceptError) : Except AcceptError Unit :=
  match fatal with
  | some err => .error err
  | none => .ok ()

/-- What holds whenever an action has been taken. -/
structure Sound (serving : Serving) : Prop where
  inside : past serving.phase = false → serving.shutdownDone = false ∧ serving.fatal = none
  open_door : past serving.phase = false ∨ serving.phase = .left → serving.listening = true ∧ serving.graceful = false
  closed_door : past serving.phase = true → serving.phase ≠ .left → serving.listening = false
  emptied : emptied serving.phase = true → serving.connections = []
  seen : ∀ connection ∈ serving.connections, connection.seen = connection.signalled
  told : ∀ connection ∈ serving.connections, connection.signalled = true → serving.graceful = true
  reached : serving.listening = false → ∀ connection ∈ serving.connections, live connection → serving.graceful = true
  numbered : ∀ connection ∈ serving.connections, connection.id < serving.accepted
  distinct : (serving.connections.map (·.id)).Nodup
  outcome : ∀ outcome, serving.phase = .returned outcome → outcome = result serving.fatal

theorem sound_start : Sound start := by
  constructor <;> simp [start,past,Serving.emptied]

namespace Sound
variable {serving : Serving} (sound : Sound serving)
include sound

theorem closed_flag (raised : serving.graceful = true) : serving.listening = false := by
  by_cases early : past serving.phase = false ∨ serving.phase = .left
  · cases raised.symm.trans (sound.open_door early).2
  · rw [not_or,Bool.not_eq_false] at early
    exact sound.closed_door early.1 early.2

/-- A receiver that has something to see sees the flag up. -/
theorem raised {connection : Connection} (member : connection ∈ serving.connections) (fresh : connection.seen ≠ serving.graceful)
    (unsignalled : (!connection.signalled) = true) : serving.graceful = true := by
  have seen := sound.seen connection member
  simp only [Bool.not_eq_eq_eq_not,Bool.not_true] at unsignalled
  rw [seen,unsignalled] at fresh
  simpa using Ne.symm fresh

end Sound

/-- What a turn of a task may change of it. -/
theorem sound_update {serving : Serving} (sound : Sound serving) (id : Nat) {change : Connection → Connection}
    (kept : ∀ connection ∈ serving.connections, (change connection).id = connection.id ∧
      (change connection).seen = (change connection).signalled ∧
      ((change connection).signalled = true → serving.graceful = true) ∧ (live (change connection) → live connection)) :
    Sound (serving.update id change) := by
  have each : ∀ connection ∈ (serving.update id change).connections, ∃ old ∈ serving.connections, connection.id = old.id ∧
      connection.seen = connection.signalled ∧ (connection.signalled = true → serving.graceful = true) ∧
      (live connection → live old) := by
    intro connection member
    obtain ⟨old,inside,rfl⟩ := List.mem_map.mp member
    refine ⟨old,inside,?_⟩
    split
    · exact kept old inside
    · exact ⟨rfl,sound.seen old inside,sound.told old inside,fun alive => alive⟩
  have ids : (serving.update id change).connections.map (·.id) = serving.connections.map (·.id) := by
    rw [update,List.map_map]
    apply List.map_congr_left
    intro connection member
    rw [Function.comp_apply]
    split
    · exact (kept connection member).1
    · rfl
  refine ⟨sound.inside,sound.open_door,sound.closed_door,?_,?_,?_,?_,?_,?_,sound.outcome⟩
  · intro empty
    simp [update,sound.emptied empty]
  · intro connection member
    obtain ⟨_,_,_,seen,_⟩ := each connection member
    exact seen
  · intro connection member
    obtain ⟨_,_,_,_,told,_⟩ := each connection member
    exact told
  · intro closed connection member alive
    obtain ⟨old,inside,_,_,_,before⟩ := each connection member
    exact sound.reached closed old inside (before alive)
  · intro connection member
    obtain ⟨old,inside,same,_⟩ := each connection member
    exact same ▸ sound.numbered old inside
  · rw [ids]
    exact sound.distinct

theorem sound_step (action : Action) (serving next : Serving) (stepped : step action serving = some next) (sound : Sound serving) :
    Sound next := by
  cases action with
  | accept =>
    simp only [step,Option.ite_none_right_eq_some,Option.some.injEq] at stepped
    obtain ⟨phase,rfl⟩ := stepped
    obtain ⟨listening,quiet⟩ := sound.open_door (.inl (by simp [phase,past]))
    have earlier : serving.accepted ∉ serving.connections.map (·.id) := by
      intro member
      obtain ⟨connection,inside,same⟩ := List.mem_map.mp member
      exact absurd (sound.numbered connection inside) (by omega)
    constructor
    · exact sound.inside
    · exact sound.open_door
    · exact sound.closed_door
    · simp [phase,Serving.emptied]
    · intro connection member
      rcases List.mem_append.mp member with old | new
      · exact sound.seen connection old
      · rw [List.mem_singleton.mp new]
        exact quiet
    · intro connection member told
      rcases List.mem_append.mp member with old | new
      · exact sound.told connection old told
      · rw [List.mem_singleton.mp new] at told
        cases told
    · intro closed
      cases listening.symm.trans closed
    · intro connection member
      rcases List.mem_append.mp member with old | new
      · exact Nat.lt_succ_of_lt (sound.numbered connection old)
      · rw [List.mem_singleton.mp new]
        exact Nat.lt_succ_self _
    · rw [List.map_append]
      refine List.nodup_append.mpr ⟨sound.distinct,List.nodup_singleton _,?_⟩
      intro old there new only same
      have same : old = serving.accepted := same.trans (List.mem_singleton.mp only)
      exact earlier (same ▸ there)
    · exact sound.outcome
  | acceptFailed err =>
    simp only [step,Option.ite_none_right_eq_some] at stepped
    obtain ⟨phase,stepped⟩ := stepped
    obtain ⟨listening,quiet⟩ := sound.open_door (.inl (by simp [phase,past]))
    split at stepped <;> cases stepped
    · exact { sound with
        inside := fun _ => sound.inside (by simp [phase,past])
        open_door := fun _ => ⟨listening,quiet⟩
        closed_door := by simp [past]
        emptied := by simp [Serving.emptied]
        outcome := by simp }
    · exact { sound with
        inside := by simp [past]
        open_door := fun _ => ⟨listening,quiet⟩
        closed_door := by simp
        emptied := by simp [Serving.emptied]
        outcome := by simp }
  | sleep =>
    simp only [step,Option.ite_none_right_eq_some,Option.some.injEq] at stepped
    obtain ⟨phase,rfl⟩ := stepped
    exact { sound with
      inside := fun _ => sound.inside (by simp [phase,past])
      open_door := fun _ => sound.open_door (.inl (by simp [phase,past]))
      closed_door := by simp [past]
      emptied := by simp [Serving.emptied]
      outcome := by simp }
  | shutdown =>
    simp only [step,Option.ite_none_right_eq_some,Option.some.injEq] at stepped
    obtain ⟨⟨phase,_⟩,rfl⟩ := stepped
    have before : past serving.phase = false := by rcases phase with phase | phase <;> simp [phase,past]
    exact { sound with
      inside := by simp [past]
      open_door := fun _ => sound.open_door (.inl before)
      closed_door := by simp
      emptied := by simp [Serving.emptied]
      outcome := by simp }
  | join id =>
    simp only [step,Option.ite_none_right_eq_some,Option.some.injEq] at stepped
    obtain ⟨_,rfl⟩ := stepped
    exact { sound with
      emptied := fun empty => by simp [sound.emptied empty]
      seen := fun connection member => sound.seen connection (List.mem_of_mem_filter member)
      told := fun connection member => sound.told connection (List.mem_of_mem_filter member)
      reached := fun closed connection member => sound.reached closed connection (List.mem_of_mem_filter member)
      numbered := fun connection member => sound.numbered connection (List.mem_of_mem_filter member)
      distinct := sound.distinct.sublist (List.filter_sublist.map _) }
  | changed id =>
    simp only [step,Option.ite_none_right_eq_some,Option.some.injEq] at stepped
    obtain ⟨⟨first,there,_,alive,fresh,unsignalled⟩,rfl⟩ := stepped
    have raised := sound.raised there fresh unsignalled
    apply sound_update sound
    intro connection _
    exact ⟨rfl,raised,fun _ => raised,fun alive => alive⟩
  | finish id ending =>
    simp only [step,Option.ite_none_right_eq_some,Option.some.injEq] at stepped
    obtain ⟨_,rfl⟩ := stepped
    apply sound_update sound
    intro connection member
    exact ⟨rfl,sound.seen connection member,sound.told connection member,fun alive => by simp [live] at alive⟩
  | stopListening =>
    simp only [step,Option.ite_none_right_eq_some,Option.some.injEq] at stepped
    obtain ⟨phase,rfl⟩ := stepped
    exact { sound with
      inside := by simp [past]
      open_door := by simp [past]
      closed_door := fun _ _ => rfl
      emptied := by simp [Serving.emptied]
      told := fun connection member told => by simp [sound.told connection member told]
      reached := fun _ connection member alive => by
        have some_live : serving.connections.any live = true := List.any_eq_true.mpr ⟨connection,member,alive⟩
        simp [some_live]
      outcome := by simp }
  | timeout =>
    simp only [step,Option.ite_none_right_eq_some,Option.some.injEq] at stepped
    obtain ⟨⟨phase,_⟩,rfl⟩ := stepped
    exact { sound with
      inside := by simp [past]
      open_door := by simp [past]
      closed_door := fun _ _ => sound.closed_door (by simp [phase,past]) (by simp [phase])
      emptied := by simp [Serving.emptied]
      outcome := by simp }
  | joinedAll =>
    simp only [step,Option.ite_none_right_eq_some,Option.some.injEq] at stepped
    obtain ⟨⟨phase,empty⟩,rfl⟩ := stepped
    have closed : serving.listening = false := by
      rcases phase with phase | phase <;> exact sound.closed_door (by simp [phase,past]) (by simp [phase])
    exact { sound with
      inside := by simp [past]
      open_door := by simp [past]
      closed_door := fun _ _ => closed
      emptied := fun _ => empty
      outcome := by simp }
  | drainPhpThreads =>
    simp only [step,Option.ite_none_right_eq_some,Option.some.injEq] at stepped
    obtain ⟨phase,rfl⟩ := stepped
    exact { sound with
      inside := by simp [past]
      open_door := by simp [past]
      closed_door := fun _ _ => sound.closed_door (by simp [phase,past]) (by simp [phase])
      emptied := fun _ => sound.emptied (by simp [phase,Serving.emptied])
      outcome := by simp }
  | finishRun =>
    simp only [step,Option.ite_none_right_eq_some,Option.some.injEq] at stepped
    obtain ⟨phase,rfl⟩ := stepped
    exact { sound with
      inside := by simp [past]
      open_door := by simp [past]
      closed_door := fun _ _ => sound.closed_door (by simp [phase,past]) (by simp [phase])
      emptied := fun _ => sound.emptied (by simp [phase,Serving.emptied])
      outcome := fun outcome returned => by
        rw [← Phase.returned.inj returned]
        rfl }

theorem sound_run {actions : List Action} {first last : Serving} (ran : Machine.run step actions first = some last)
    (sound : Sound first) : Sound last := Machine.run_invariant sound_step ran sound

/-- The naps since the last connection. -/
def naps (actions : List Action) : Nat :=
  actions.foldl (fun count action => match action with | .accept => 0 | .sleep => count + 1 | _ => count) 0

theorem naps_snoc (actions : List Action) (action : Action) : naps (actions ++ [action]) =
    match action with | .accept => 0 | .sleep => naps actions + 1 | _ => naps actions := List.foldl_append

/-- What the actions so far say of the state that they lead to. -/
structure Recorded (actions : List Action) (serving : Serving) : Prop where
  drains : actions.count .drainPhpThreads = if afterDrain serving.phase then 1 else 0
  fatal : ∀ err, serving.fatal = some err ↔ .acceptFailed err ∈ actions ∧ isTransientAcceptError err = false
  backoff : serving.acceptBackoff = min (initialAcceptBackoff * 2 ^ naps actions) maxAcceptBackoff
  signals : ∀ id, actions.count (.changed id) ≤ 1
  signalled : ∀ id, .changed id ∈ actions → id < serving.accepted ∧
    ∀ connection ∈ serving.connections, connection.id = id → connection.signalled = true
  stopped : serving.listening = false → .stopListening ∈ actions
  announced : ∀ id, .changed id ∈ actions → .stopListening ∈ actions

theorem recorded_start : Recorded [] start := by
  constructor <;> simp [start,afterDrain,naps,initialAcceptBackoff,maxAcceptBackoff]

/-- An action that none of the records is about. -/
def quiet : Action → Bool
  | .shutdown | .join _ | .finish .. | .timeout | .joinedAll | .finishRun => true
  | _ => false

theorem recorded_quiet {actions : List Action} {serving next : Serving} {action : Action} (recorded : Recorded actions serving)
    (silent : quiet action = true) (phase : afterDrain next.phase = afterDrain serving.phase) (fatal : next.fatal = serving.fatal)
    (backoff : next.acceptBackoff = serving.acceptBackoff) (accepted : next.accepted = serving.accepted)
    (listening : next.listening = serving.listening)
    (connections : ∀ connection ∈ next.connections, ∃ old ∈ serving.connections, connection.id = old.id ∧
      (old.signalled = true → connection.signalled = true)) : Recorded (actions ++ [action]) next := by
  have other {seen : Action} (loud : quiet seen = false) : seen ∈ actions ++ [action] ↔ seen ∈ actions := by
    have apart : seen ≠ action := by
      rintro rfl
      cases silent.symm.trans loud
    simp [apart]
  have counted {seen : Action} (loud : quiet seen = false) : (actions ++ [action]).count seen = actions.count seen := by
    have apart : action ≠ seen := by
      rintro rfl
      cases silent.symm.trans loud
    simp [List.count_append,apart]
  constructor
  · rw [counted rfl,phase,recorded.drains]
  · intro err
    rw [other rfl,fatal,recorded.fatal]
  · have same : naps (actions ++ [action]) = naps actions := by
      rw [naps_snoc]
      cases action <;> first | rfl | cases silent
    rw [same,backoff,recorded.backoff]
  · intro id
    rw [counted rfl]
    exact recorded.signals id
  · intro id happened
    obtain ⟨below,marked⟩ := recorded.signalled id ((other rfl).mp happened)
    refine ⟨accepted ▸ below,?_⟩
    intro connection member same
    obtain ⟨old,inside,number,kept⟩ := connections connection member
    exact kept (marked old inside (number ▸ same))
  · intro closed
    exact (other rfl).mpr (recorded.stopped (listening ▸ closed))
  · intro id happened
    exact (other rfl).mpr (recorded.announced id ((other rfl).mp happened))

theorem recorded_step (actions : List Action) (action : Action) (serving next : Serving) (stepped : step action serving = some next)
    (held : Recorded actions serving ∧ Sound serving) : Recorded (actions ++ [action]) next := by
  obtain ⟨recorded,sound⟩ := held
  have same : ∀ connection ∈ serving.connections, ∃ old ∈ serving.connections, connection.id = old.id ∧
      (old.signalled = true → connection.signalled = true) := fun connection member => ⟨connection,member,rfl,fun marked => marked⟩
  cases action with
  | accept =>
    simp only [step,Option.ite_none_right_eq_some,Option.some.injEq] at stepped
    obtain ⟨phase,rfl⟩ := stepped
    constructor
    · simpa [List.count_append] using recorded.drains
    · simpa using recorded.fatal
    · simp [naps_snoc,initialAcceptBackoff,maxAcceptBackoff]
    · simpa [List.count_append] using recorded.signals
    · intro id happened
      obtain ⟨below,marked⟩ := recorded.signalled id (by simpa using happened)
      refine ⟨Nat.lt_succ_of_lt below,?_⟩
      intro connection member number
      rcases List.mem_append.mp member with old | new
      · exact marked connection old number
      · rw [List.mem_singleton.mp new] at number
        exact absurd (number ▸ below) (Nat.lt_irrefl _)
    · simpa using recorded.stopped
    · simpa using recorded.announced
  | acceptFailed err =>
    simp only [step,Option.ite_none_right_eq_some] at stepped
    obtain ⟨phase,stepped⟩ := stepped
    have none : serving.fatal = none := (sound.inside (by simp [phase,past])).2
    have drains := recorded.drains
    have earlier (other : AcceptError) : ¬(.acceptFailed other ∈ actions ∧ isTransientAcceptError other = false) := by
      rw [← recorded.fatal other,none]
      exact fun found => by cases found
    split at stepped <;> cases stepped
    next transient =>
      constructor
      · simpa [List.count_append,phase,afterDrain] using drains
      · intro other
        rw [none]
        refine ⟨fun found => (by cases found),?_⟩
        rintro ⟨happened,fatal⟩
        rcases List.mem_append.mp happened with old | new
        · exact absurd ⟨old,fatal⟩ (earlier other)
        · cases List.mem_singleton.mp new
          cases transient.symm.trans fatal
      · simpa [naps_snoc] using recorded.backoff
      · simpa [List.count_append] using recorded.signals
      · simpa using recorded.signalled
      · simpa using recorded.stopped
      · simpa using recorded.announced
    next transient =>
      constructor
      · simpa [List.count_append,phase,afterDrain] using drains
      · intro other
        constructor
        · rintro ⟨⟩
          exact ⟨by simp,by simpa using transient⟩
        · rintro ⟨happened,fatal⟩
          rcases List.mem_append.mp happened with old | new
          · exact absurd ⟨old,fatal⟩ (earlier other)
          · cases List.mem_singleton.mp new
            rfl
      · simpa [naps_snoc] using recorded.backoff
      · simpa [List.count_append] using recorded.signals
      · simpa using recorded.signalled
      · simpa using recorded.stopped
      · simpa using recorded.announced
  | sleep =>
    simp only [step,Option.ite_none_right_eq_some,Option.some.injEq] at stepped
    obtain ⟨phase,rfl⟩ := stepped
    constructor
    · simpa [List.count_append,phase,afterDrain] using recorded.drains
    · simpa using recorded.fatal
    · have doubled : initialAcceptBackoff * 2 ^ (naps actions + 1) = initialAcceptBackoff * 2 ^ naps actions * 2 := by
        rw [Nat.pow_succ,Nat.mul_assoc]
      simp only [naps_snoc,doubled,recorded.backoff]
      omega
    · simpa [List.count_append] using recorded.signals
    · simpa using recorded.signalled
    · simpa using recorded.stopped
    · simpa using recorded.announced
  | shutdown =>
    simp only [step,Option.ite_none_right_eq_some,Option.some.injEq] at stepped
    obtain ⟨⟨phase,_⟩,rfl⟩ := stepped
    have before : afterDrain serving.phase = false := by rcases phase with phase | phase <;> simp [phase,afterDrain]
    exact recorded_quiet recorded rfl before.symm rfl rfl rfl rfl same
  | join id =>
    simp only [step,Option.ite_none_right_eq_some,Option.some.injEq] at stepped
    obtain ⟨_,rfl⟩ := stepped
    exact recorded_quiet recorded rfl rfl rfl rfl rfl rfl fun connection member => same connection (List.mem_of_mem_filter member)
  | changed id =>
    simp only [step,Option.ite_none_right_eq_some,Option.some.injEq] at stepped
    obtain ⟨⟨first,there,number,_,fresh_flag,unsignalled⟩,rfl⟩ := stepped
    have fresh : .changed id ∉ actions := by
      intro happened
      have marked := (recorded.signalled id happened).2 first there number
      simp [marked] at unsignalled
    constructor
    · have counted : (actions ++ [Action.changed id]).count .drainPhpThreads = actions.count .drainPhpThreads := by simp [List.count_append]
      exact counted.trans recorded.drains
    · simpa [update] using recorded.fatal
    · simpa [naps_snoc,update] using recorded.backoff
    · intro other
      by_cases own : other = id
      · simp [List.count_append,own,List.count_eq_zero.mpr fresh]
      · have apart : Action.changed id ≠ .changed other := fun same => own (Action.changed.inj same).symm
        simpa [List.count_append,List.count_singleton,apart] using recorded.signals other
    · intro other happened
      have bounded : other < serving.accepted := by
        rcases List.mem_append.mp happened with old | new
        · exact (recorded.signalled other old).1
        · cases List.mem_singleton.mp new
          exact number ▸ sound.numbered first there
      refine ⟨bounded,?_⟩
      intro connection member at_number
      obtain ⟨old,inside,rfl⟩ := List.mem_map.mp member
      split at at_number
      next own =>
        rw [if_pos own]
        rfl
      next apart =>
        rw [if_neg apart]
        rcases List.mem_append.mp happened with before | new
        · exact (recorded.signalled other before).2 old inside at_number
        · cases List.mem_singleton.mp new
          exact absurd at_number apart
    · simpa [update] using recorded.stopped
    · intro _ _
      have closed : serving.listening = false := sound.closed_flag (sound.raised there fresh_flag unsignalled)
      exact List.mem_append_left _ (recorded.stopped closed)
  | finish id ending =>
    simp only [step,Option.ite_none_right_eq_some,Option.some.injEq] at stepped
    obtain ⟨_,rfl⟩ := stepped
    refine recorded_quiet recorded rfl rfl rfl rfl rfl rfl fun connection member => ?_
    obtain ⟨old,inside,rfl⟩ := List.mem_map.mp member
    refine ⟨old,inside,?_⟩
    split <;> exact ⟨rfl,fun marked => marked⟩
  | stopListening =>
    simp only [step,Option.ite_none_right_eq_some,Option.some.injEq] at stepped
    obtain ⟨phase,rfl⟩ := stepped
    constructor
    · simpa [List.count_append,phase,afterDrain] using recorded.drains
    · simpa using recorded.fatal
    · simpa [naps_snoc] using recorded.backoff
    · simpa [List.count_append] using recorded.signals
    · simpa using recorded.signalled
    · simp
    · simp
  | timeout =>
    simp only [step,Option.ite_none_right_eq_some,Option.some.injEq] at stepped
    obtain ⟨⟨phase,_⟩,rfl⟩ := stepped
    exact recorded_quiet recorded rfl (by simp [phase,afterDrain]) rfl rfl rfl rfl same
  | joinedAll =>
    simp only [step,Option.ite_none_right_eq_some,Option.some.injEq] at stepped
    obtain ⟨⟨phase,_⟩,rfl⟩ := stepped
    have before : afterDrain serving.phase = false := by rcases phase with phase | phase <;> simp [phase,afterDrain]
    exact recorded_quiet recorded rfl before.symm rfl rfl rfl rfl same
  | drainPhpThreads =>
    simp only [step,Option.ite_none_right_eq_some,Option.some.injEq] at stepped
    obtain ⟨phase,rfl⟩ := stepped
    constructor
    · simpa [List.count_append,phase,afterDrain] using recorded.drains
    · simpa using recorded.fatal
    · simpa [naps_snoc] using recorded.backoff
    · simpa [List.count_append] using recorded.signals
    · simpa using recorded.signalled
    · simpa using recorded.stopped
    · simpa using recorded.announced
  | finishRun =>
    simp only [step,Option.ite_none_right_eq_some,Option.some.injEq] at stepped
    obtain ⟨phase,rfl⟩ := stepped
    exact recorded_quiet recorded rfl (by simp [phase,afterDrain]) rfl rfl rfl rfl same

theorem recorded_run {actions : List Action} {last : Serving} (ran : Machine.run step actions start = some last) :
    Recorded actions last ∧ Sound last := by
  have kept : ∀ past action state next, step action state = some next → (Recorded past state ∧ Sound state) →
      Recorded (past ++ (some action).toList) next ∧ Sound next := fun past action state next stepped held =>
    ⟨recorded_step past action state next stepped held,sound_step action state next stepped held.2⟩
  have first : Recorded [] start ∧ Sound start := ⟨recorded_start,sound_start⟩
  have whole := Machine.run_history kept ran first
  rwa [List.nil_append,Machine.trace_actions ran] at whole

/-- Once the threads are drained there is only the return left. -/
theorem run_drained {serving last : Serving} {actions : List Action} (phase : serving.phase = .drained) (empty : serving.connections = [])
    (ran : Machine.run step actions serving = some last) : actions = [] ∨ actions = [.finishRun] := by
  have only {action : Action} {state next : Serving} (stepped : step action state = some next) (late : afterDrain state.phase = true)
      (none : state.connections = []) : action = .finishRun ∧ state.phase = .drained := by
    cases action <;> simp only [step,Option.ite_none_right_eq_some] at stepped <;> obtain ⟨guarded,stepped⟩ := stepped
    case finishRun => exact ⟨rfl,guarded⟩
    case shutdown => rcases guarded.1 with before | before <;> simp [before,afterDrain] at late
    case joinedAll => rcases guarded.1 with before | before <;> simp [before,afterDrain] at late
    case join | changed | finish | timeout => simp [none] at guarded
    all_goals simp [guarded,afterDrain] at late
  cases actions with
  | nil => exact .inl rfl
  | cons action rest =>
    obtain ⟨next,stepped,later⟩ := Machine.run_cons.mp ran
    obtain ⟨rfl,_⟩ := only stepped (by simp [phase,afterDrain]) empty
    simp only [step,phase,if_true,Option.some.injEq] at stepped
    subst stepped
    cases rest with
    | nil => exact .inr rfl
    | cons second rest =>
      obtain ⟨_,again,_⟩ := Machine.run_cons.mp later
      cases (only again rfl empty).2

/-- Every exit from the loop comes to the drain of the PHP threads, to one, with the listener
closed, no task left and nothing to follow but the return of the error that ended the loop. -/
theorem drained_once {actions : List Action} {last : Serving} (ran : Machine.run step actions start = some last) :
    (∀ outcome, last.phase = .returned outcome → actions.count .drainPhpThreads = 1 ∧
      ∀ err, outcome = .error err ↔ .acceptFailed err ∈ actions ∧ isTransientAcceptError err = false) ∧
    ∀ before after, actions = before ++ .drainPhpThreads :: after → (after = [] ∨ after = [.finishRun]) ∧
      ∃ middle, Machine.run step before start = some middle ∧ middle.connections = [] ∧ middle.listening = false := by
  obtain ⟨recorded,sound⟩ := recorded_run ran
  constructor
  · intro outcome returned
    refine ⟨by rw [recorded.drains,returned]; rfl,?_⟩
    intro err
    rw [← recorded.fatal,sound.outcome outcome returned]
    cases last.fatal <;> simp [result]
  · rintro before after rfl
    rw [Machine.run_append,Option.bind_eq_some_iff] at ran
    obtain ⟨middle,first,rest⟩ := ran
    obtain ⟨next,stepped,later⟩ := Machine.run_cons.mp rest
    have sound := (recorded_run first).2
    simp only [step,Option.ite_none_right_eq_some,Option.some.injEq] at stepped
    obtain ⟨phase,rfl⟩ := stepped
    have empty := sound.emptied (by simp [phase,Serving.emptied])
    have phase' : Serving.phase { middle with phase := .drained } = .drained := rfl
    exact ⟨run_drained phase' empty later,middle,first,empty,sound.closed_door (by simp [phase,past]) (by simp [phase])⟩

/-- Two connections, a full table of descriptors and then a listener that is gone; the first
connection closes in time, the second one is abandoned. -/
def fatalRun : List Action := [
  .accept,.acceptFailed ⟨.uncategorized,some emfile⟩,.sleep,.accept,.acceptFailed ⟨.uncategorized,some 9⟩,.stopListening,
  .changed 1,.changed 0,.finish 0 .closed,.join 0,.timeout,.finish 1 .cancelled,.join 1,.joinedAll,.drainPhpThreads,.finishRun]

def fatalLast : Serving := { start with
  phase := .returned (.error ⟨.uncategorized,some 9⟩)
  fatal := some ⟨.uncategorized,some 9⟩
  listening := false
  graceful := true
  accepted := 2 }

theorem drained_once_fatal : fatalLast.phase = .returned (.error ⟨.uncategorized,some 9⟩) ∧
    (∀ outcome, fatalLast.phase = .returned outcome → fatalRun.count .drainPhpThreads = 1 ∧
      ∀ err, outcome = .error err ↔ .acceptFailed err ∈ fatalRun ∧ isTransientAcceptError err = false) ∧
    ∀ before after, fatalRun = before ++ .drainPhpThreads :: after → (after = [] ∨ after = [.finishRun]) ∧
      ∃ middle, Machine.run step before start = some middle ∧ middle.connections = [] ∧ middle.listening = false :=
  have ran : Machine.run step fatalRun start = some fatalLast := by decide
  ⟨rfl,drained_once ran⟩

/-- Between two connections the naps grow to a second. -/
theorem backoff_doubles {actions : List Action} {last : Serving} (ran : Machine.run step actions start = some last) :
    last.acceptBackoff = min (initialAcceptBackoff * 2 ^ naps actions) maxAcceptBackoff := (recorded_run ran).1.backoff

/-- What a task may still do: be told, end and be joined. -/
def weight (connection : Connection) : Nat :=
  if live connection then (if connection.signalled then 2 else 3) else 1

def phaseRank : Phase → Nat
  | .accepting | .backingOff => 6
  | .left => 5
  | .joining => 4
  | .abandoning => 3
  | .joined => 2
  | .drained => 1
  | .returned _ => 0

def rank (serving : Serving) : Nat := phaseRank serving.phase + (serving.connections.map weight).sum

theorem update_lighter {serving : Serving} {id : Nat} {change : Connection → Connection}
    (lighter : ∀ connection ∈ serving.connections, weight (change connection) ≤ weight connection)
    (strictly : ∃ connection ∈ serving.connections, connection.id = id ∧ weight (change connection) < weight connection) :
    rank (serving.update id change) < rank serving := by
  have sums : (((serving.update id change).connections).map weight).sum < (serving.connections.map weight).sum := by
    rw [update,List.map_map]
    apply List.sum_lt_sum
    · intro connection member
      rw [Function.comp_apply]
      split
      · exact lighter connection member
      · exact Nat.le_refl _
    · obtain ⟨connection,member,own,lower⟩ := strictly
      exact ⟨connection,member,by rw [Function.comp_apply,if_pos own]; exact lower⟩
  exact Nat.add_lt_add_left sums _

theorem sum_filter_lt {connections : List Connection} {id : Nat} (there : ∃ connection ∈ connections, connection.id = id) :
    ((connections.filter fun connection => connection.id ≠ id).map weight).sum < (connections.map weight).sum := by
  have positive (connection : Connection) : 0 < weight connection := by
    unfold weight
    split
    · split <;> omega
    · omega
  have fewer (connections : List Connection) :
      ((connections.filter fun connection => connection.id ≠ id).map weight).sum ≤ (connections.map weight).sum :=
    (List.filter_sublist.map _).sum_le_sum fun _ _ => Nat.zero_le _
  obtain ⟨connection,member,rfl⟩ := there
  obtain ⟨front,back,rfl⟩ := List.append_of_mem member
  have first := fewer front
  have second := fewer back
  have own := positive connection
  simp only [List.filter_append,List.filter_cons,List.map_append,List.sum_append,List.map_cons,List.sum_cons,ne_eq,
    not_true_eq_false,decide_false,Bool.false_eq_true,if_false] at first second ⊢
  omega

/-- Out of the loop every action is a step towards the return. -/
theorem rank_step (action : Action) (serving next : Serving) (stepped : step action serving = some next)
    (left : past serving.phase = true) : past next.phase = true ∧ rank next < rank serving := by
  cases action with
  | changed id =>
    simp only [step,Option.ite_none_right_eq_some,Option.some.injEq] at stepped
    obtain ⟨⟨connection,member,own,alive,_,unsignalled⟩,rfl⟩ := stepped
    refine ⟨left,update_lighter ?_ ⟨connection,member,own,?_⟩⟩
    · intro other _
      obtain ⟨_,_,signalled,ending⟩ := other
      cases signalled <;> cases ending <;> simp [weight,notice,live]
    · simp only [Bool.not_eq_eq_eq_not,Bool.not_true] at unsignalled
      simp only [live] at alive
      simp [weight,notice,live,alive,unsignalled]
  | finish id ending =>
    simp only [step,Option.ite_none_right_eq_some,Option.some.injEq] at stepped
    obtain ⟨⟨⟨connection,member,own,alive⟩,_⟩,rfl⟩ := stepped
    refine ⟨left,update_lighter ?_ ⟨connection,member,own,?_⟩⟩
    · intro other _
      obtain ⟨_,_,signalled,ending⟩ := other
      cases signalled <;> cases ending <;> simp [weight,live]
    · obtain ⟨_,_,signalled,_⟩ := connection
      simp only [live] at alive
      cases signalled <;> simp [weight,live,alive]
  | join id =>
    simp only [step,Option.ite_none_right_eq_some,Option.some.injEq] at stepped
    obtain ⟨⟨_,connection,member,own,_⟩,rfl⟩ := stepped
    exact ⟨left,Nat.add_lt_add_left (sum_filter_lt ⟨connection,member,own⟩) _⟩
  | accept | acceptFailed | sleep =>
    simp only [step,Option.ite_none_right_eq_some] at stepped
    simp [stepped.1,past] at left
  | shutdown =>
    simp only [step,Option.ite_none_right_eq_some] at stepped
    rcases stepped.1.1 with before | before <;> simp [before,past] at left
  | joinedAll =>
    simp only [step,Option.ite_none_right_eq_some,Option.some.injEq] at stepped
    obtain ⟨⟨phase,_⟩,rfl⟩ := stepped
    rcases phase with phase | phase <;> simp [rank,phase,phaseRank,past]
  | timeout =>
    simp only [step,Option.ite_none_right_eq_some,Option.some.injEq] at stepped
    obtain ⟨⟨phase,_⟩,rfl⟩ := stepped
    simp [rank,phase,phaseRank,past]
  | stopListening | drainPhpThreads | finishRun =>
    simp only [step,Option.ite_none_right_eq_some,Option.some.injEq] at stepped
    obtain ⟨phase,rfl⟩ := stepped
    simp [rank,phase,phaseRank,past]

theorem rank_bound (serving : Serving) (left : past serving.phase = true) : rank serving ≤ 3 * serving.connections.length + 5 := by
  have each : ∀ number ∈ serving.connections.map weight, number ≤ 3 := by
    intro number member
    obtain ⟨connection,_,rfl⟩ := List.mem_map.mp member
    unfold weight
    split
    · split <;> omega
    · omega
  have total := List.sum_le_card_nsmul _ _ each
  have phase : phaseRank serving.phase ≤ 5 := by
    cases form : serving.phase <;> simp [form,past,phaseRank] at left ⊢
  rw [List.length_map,nsmul_eq_mul,Nat.cast_id] at total
  rw [rank]
  omega

/-- The server's own moves on the way out, and the end of a task that has been aborted. -/
def own (serving : Serving) : Action → Prop
  | .stopListening | .timeout | .joinedAll | .drainPhpThreads | .finishRun | .join _ => True
  | .finish _ ending => ending = .cancelled ∧ serving.phase = .abandoning
  | _ => False

/-- Nobody has to hang up for the server to get on with its way out. -/
theorem own_step {serving : Serving} (left : past serving.phase = true) (going : ∀ outcome, serving.phase ≠ .returned outcome) :
    ∃ action next, own serving action ∧ step action serving = some next := by
  cases phase : serving.phase with
  | accepting | backingOff => simp [phase,past] at left
  | left => exact ⟨.stopListening,_,trivial,by rw [step,if_pos phase]⟩
  | joining =>
    by_cases empty : serving.connections = []
    · exact ⟨.joinedAll,_,trivial,by rw [step,if_pos ⟨.inl phase,empty⟩]⟩
    · exact ⟨.timeout,_,trivial,by rw [step,if_pos ⟨phase,empty⟩]⟩
  | abandoning =>
    rcases form : serving.connections with _ | ⟨connection,rest⟩
    · exact ⟨.joinedAll,_,trivial,by rw [step,if_pos ⟨.inr phase,form⟩]⟩
    · have there : connection ∈ serving.connections := by simp [form]
      cases alive : live connection with
      | true =>
        exact ⟨.finish connection.id .cancelled,_,⟨rfl,phase⟩,by rw [step,if_pos ⟨⟨connection,there,rfl,alive⟩,fun _ => phase⟩]⟩
      | false =>
        have ended : joins serving.phase ∧ ∃ other ∈ serving.connections, other.id = connection.id ∧ !live other :=
          ⟨by simp [phase,joins],connection,there,rfl,by simp [alive]⟩
        exact ⟨.join connection.id,_,trivial,by rw [step,if_pos ended]⟩
  | joined => exact ⟨.drainPhpThreads,_,trivial,by rw [step,if_pos phase]⟩
  | drained => exact ⟨.finishRun,_,trivial,by rw [step,if_pos phase]⟩
  | returned outcome => exact absurd phase (going outcome)

def Out (serving : Serving) : Prop := past serving.phase = true

/-- Out of the loop the server returns within so many actions, whatever the peers do: until then
it has a move of its own. Each connection is told once at most, after the listener has been
closed, and one that is still live then can be told as long as it lives. -/
theorem shutdown_bounded {actions later : List Action} {serving last : Serving} (ran : Machine.run step actions start = some serving)
    (left : past serving.phase = true) (on : Machine.run step later serving = some last) :
    later.length ≤ 3 * serving.connections.length + 5 ∧
    ((∀ outcome, last.phase ≠ .returned outcome) → ∃ action next, own last action ∧ step action last = some next) ∧
    (∀ id, (actions ++ later).count (.changed id) ≤ 1) ∧
    (∀ before id after, actions ++ later = before ++ .changed id :: after → .stopListening ∈ before) ∧
    ∀ connection ∈ last.connections, last.listening = false → live connection → connection.signalled = false →
      ∃ next, step (.changed connection.id) last = some next := by
  have whole : Machine.run step (actions ++ later) start = some last := by rw [Machine.run_append,ran,Option.bind_some,on]
  obtain ⟨recorded,sound⟩ := recorded_run whole
  have kept : ∀ action state next, step action state = some next → Out state → Out next :=
    fun action state next stepped before => (rank_step action state next stepped before).1
  have out : Out last := Machine.run_invariant kept on left
  refine ⟨?_,own_step out,recorded.signals,?_,?_⟩
  · have lower : ∀ action state next, step action state = some next → Out state → rank next < rank state :=
      fun action state next stepped before => (rank_step action state next stepped before).2
    have bounded := Machine.run_bounded rank kept lower on left
    have most := rank_bound serving left
    omega
  · intro before id after same
    have prefixed : (before ++ [.changed id]) ++ after = actions ++ later := by simp [same]
    rw [← prefixed,Machine.run_append,Option.bind_eq_some_iff] at whole
    obtain ⟨middle,first,_⟩ := whole
    simpa using (recorded_run first).1.announced id (by simp)
  · intro connection member closed alive unsignalled
    have raised := sound.reached closed connection member alive
    have seen := sound.seen connection member
    exact ⟨_,if_pos ⟨connection,member,rfl,alive,by simp [seen,unsignalled,raised],by simp [unsignalled]⟩⟩

theorem shutdown_bounded_fatal : ∃ left, Machine.run step (fatalRun.take 5) start = some left ∧ left.connections.length = 2 ∧
    (fatalRun.drop 5).length ≤ 3 * left.connections.length + 5 ∧
    ((∀ outcome, fatalLast.phase ≠ .returned outcome) → ∃ action next, own fatalLast action ∧ step action fatalLast = some next) ∧
    (∀ id, (fatalRun.take 5 ++ fatalRun.drop 5).count (.changed id) ≤ 1) ∧
    (∀ before id after, fatalRun.take 5 ++ fatalRun.drop 5 = before ++ .changed id :: after → .stopListening ∈ before) ∧
    ∀ connection ∈ fatalLast.connections, fatalLast.listening = false → live connection → connection.signalled = false →
      ∃ next, step (.changed connection.id) fatalLast = some next :=
  have ran : Machine.run step (fatalRun.take 5) start = some { start with
      phase := .left, acceptBackoff := 5, fatal := some ⟨.uncategorized,some 9⟩, accepted := 2
      connections := [⟨0,false,false,none⟩,⟨1,false,false,none⟩] } := by decide
  have on : Machine.run step (fatalRun.drop 5) { start with
      phase := .left, acceptBackoff := 5, fatal := some ⟨.uncategorized,some 9⟩, accepted := 2
      connections := [⟨0,false,false,none⟩,⟨1,false,false,none⟩] } = some fatalLast := by decide
  ⟨_,ran,rfl,shutdown_bounded ran rfl on⟩

end Serving

end Frankenrust.Server
