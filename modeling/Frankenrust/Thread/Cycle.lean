import Frankenrust.Callbacks.Script

/-! One turn of the C loop in `php_thread`: the before-script callback, the script, and
the after-script callback that C pairs with a path it was given. -/
namespace Frankenrust.Thread
open Context Callbacks

variable {σ : Type}

def phpThreadCycle (sink : ResponseSink σ) (handler : ThreadHandler) (rounds : List Round)
    (script : List Callback) (slot : Slot σ) : Option (Returned × Slot σ) := do
  let (returned,slot) ← beforeScriptExecution handler rounds slot
  if returned.path.isSome then
    return (returned,afterScriptExecution returned.handler (runCallbacks sink script slot))
  else return (returned,slot)

theorem waitForRequest_regular {handler : ThreadHandler} {state : State}
    (waits : handler.arm state = .waitForRequest) : handler = .regularThread := by
  cases handler with
  | inactiveThread => cases state <;> contradiction
  | regularThread => rfl

/-- A return is empty-handed, or it carries the request that its round dequeued. -/
theorem beforeScriptExecution_returned (handler : ThreadHandler) (rounds : List Round) (slot : Slot σ)
    {returned : Returned} {after : Slot σ}
    (ok : beforeScriptExecution handler rounds slot = some (returned,after)) :
    (returned.dequeued = none ∧ returned.path = none ∧ after = slot) ∨
      ∃ ctx, returned = ⟨.regularThread,ScriptPath.new ctx.scriptFilename,some ctx⟩ ∧
        after = slot.set ctx := by
  induction rounds generalizing handler with
  | nil => simp [beforeScriptExecution] at ok
  | cons round rounds ih =>
    unfold beforeScriptExecution at ok
    split at ok
    next =>
      split at ok
      · exact ih _ ok
      · cases ok
        exact .inl ⟨rfl,rfl,rfl⟩
    next waits =>
      have regular := waitForRequest_regular waits
      subst regular
      split at ok
      next ctx delivered =>
        cases ok
        exact .inr ⟨ctx,rfl,rfl⟩
      next => exact ih _ ok
    next =>
      cases ok
      exact .inl ⟨rfl,rfl,rfl⟩
    next => exact ih _ ok

theorem scriptPath_isSome (bytes : Bytes) : (ScriptPath.new bytes).isSome = true ↔ bytes ≠ [] := by
  unfold ScriptPath.new
  split <;> simp [*]

theorem afterScript_released (sink : ResponseSink σ) (script : List Callback) (slot : Slot σ)
    (ctx : RequestContext) :
    (afterScriptExecution .regularThread (runCallbacks sink script (slot.set ctx))).ctx = none ∧
      (ctx.isDone = false →
        (afterScriptExecution .regularThread (runCallbacks sink script (slot.set ctx))).fired =
          slot.fired + ctx.completionSignal.fire.2) := by
  refine ⟨rfl,fun active => ?_⟩
  have opened : Open ctx.responseSink ctx.completionSignal (ctx.request.map Request.cancelled) slot.fired
      (slot.set ctx) := ⟨⟨ctx.clientHadClosed,by simp [Slot.set,controlOf,active]⟩,rfl⟩
  have closing : (script ++ [Callback.afterScript]).any Callback.closes = true := by simp [Callback.closes]
  have completes := run_completes sink opened closing
  rwa [runCallbacks_append] at completes

/-- A dequeued request is released by its own turn of the loop, for every course of that
turn, exactly when its script filename is not empty. -/
theorem dequeued_released_iff (sink : ResponseSink σ) (slot : Slot σ) (ctx : RequestContext) :
    (∀ handler rounds script returned after,
      phpThreadCycle sink handler rounds script slot = some (returned,after) →
      returned.dequeued = some ctx →
        returned.path.isSome ∧ after.ctx = none ∧
          (ctx.isDone = false → ctx.completionSignal = .pending → after.fired = slot.fired + 1)) ↔
      ctx.scriptFilename ≠ [] := by
  constructor
  · intro released
    have stepped : beforeScriptExecution .regularThread [⟨.ready,.delivered (some ctx),none⟩] slot =
        some (⟨.regularThread,ScriptPath.new ctx.scriptFilename,some ctx⟩,slot.set ctx) := rfl
    obtain ⟨returned,after,cycle,dequeued,path⟩ : ∃ returned after,
        phpThreadCycle sink .regularThread [⟨.ready,.delivered (some ctx),none⟩] [] slot =
          some (returned,after) ∧ returned.dequeued = some ctx ∧
          returned.path = ScriptPath.new ctx.scriptFilename := by
      simp only [phpThreadCycle,stepped,bind,Option.bind]
      split <;> exact ⟨_,_,rfl,rfl,rfl⟩
    have kept := (released _ _ _ _ _ cycle dequeued).1
    rw [path] at kept
    exact (scriptPath_isSome _).mp kept
  · intro named handler rounds script returned after cycle dequeued
    cases before : beforeScriptExecution handler rounds slot with
    | none => simp [phpThreadCycle,before] at cycle
    | some result =>
      obtain ⟨before_returned,before_slot⟩ := result
      simp only [phpThreadCycle,before,bind,Option.bind] at cycle
      rcases beforeScriptExecution_returned handler rounds slot before with ⟨none,_,_⟩ | ⟨found,rfl,rfl⟩
      · split at cycle <;> cases cycle <;> rw [none] at dequeued <;> contradiction
      · have path (same : found = ctx) : (ScriptPath.new found.scriptFilename).isSome = true :=
          (scriptPath_isSome _).mpr (same ▸ named)
        split at cycle
        · cases cycle
          cases dequeued
          obtain ⟨cleared,fired⟩ := afterScript_released sink script slot ctx
          refine ⟨path rfl,cleared,fun active pending => ?_⟩
          rw [fired active,pending]
          rfl
        next missing =>
          cases cycle
          cases dequeued
          exact absurd (path rfl) missing

/-- A request for an empty script filename: C sees NULL, and the context stays behind. -/
theorem dequeued_stranded :
    ¬∀ (ctx : RequestContext) rounds script returned after,
      phpThreadCycle ⟨fun _ (_ : Unit) => (.ok 0,()),fun _ _ _ => (),fun _ => (),fun _ _ => (),
          fun _ => (.ok (),())⟩ .regularThread rounds script ⟨none,(),0,[]⟩ = some (returned,after) →
        returned.dequeued = some ctx → returned.path.isSome := by
  intro released
  have returned := released (RequestContext.new [] none none .pending)
    [⟨.ready,.delivered (some (RequestContext.new [] none none .pending)),none⟩] [] _ _ rfl rfl
  contradiction

end Frankenrust.Thread
