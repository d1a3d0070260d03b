import Frankenrust.Callbacks.Output
import Frankenrust.Callbacks.Input
import Frankenrust.Thread.Regular

/-! Runs of the callbacks which PHP makes on one thread's context, in any order, with the
client's disconnection raised at any moment between them. -/
namespace Frankenrust.Callbacks
open Context Thread

inductive Callback
  | writeHeaders (status : Int) (headers : List Bytes)
  | ubWrite (buf : Bytes)
  | sapiFlush
  | readPost (countBytes : Nat)
  | finishPhpRequest
  | afterScript
  | cancelled
  deriving DecidableEq

variable {σ : Type}

def raiseCancelled (slot : Slot σ) : Slot σ :=
  { slot with ctx := slot.ctx.map fun ctx =>
    { ctx with request := ctx.request.map fun request => { request with cancelled := true } } }

def Callback.step (sink : ResponseSink σ) (slot : Slot σ) : Callback → Slot σ
  | .writeHeaders status headers => (goWriteHeaders sink status headers slot).2
  | .ubWrite buf => (goUbWrite sink buf slot).2
  | .sapiFlush => (goSapiFlush sink slot).2
  | .readPost countBytes => (goReadPost countBytes slot).2
  | .finishPhpRequest => goFrankenphpFinishPhpRequest slot
  | .afterScript => afterScriptExecution .regularThread slot
  | .cancelled => raiseCancelled slot

def runCallbacks (sink : ResponseSink σ) (callbacks : List Callback) (slot : Slot σ) : Slot σ :=
  callbacks.foldl (Callback.step sink) slot

def Callback.closes : Callback → Bool
  | .finishPhpRequest | .afterScript => true
  | _ => false

def Callback.payload : Callback → Bytes
  | .ubWrite buf => buf
  | _ => []

/-- The part of a context that decides what its callbacks do. -/
structure Control where
  isDone : Bool
  clientHadClosed : Bool
  responseSink : Bool
  completionSignal : CompletionSignal
  cancelled : Option Bool

def controlOf (ctx : RequestContext) : Control where
  isDone := ctx.isDone
  clientHadClosed := ctx.clientHadClosed
  responseSink := ctx.responseSink
  completionSignal := ctx.completionSignal
  cancelled := ctx.request.map Request.cancelled

theorem clientHasClosed_eq (ctx : RequestContext) : ctx.clientHasClosed = (controlOf ctx).cancelled.getD false := by
  unfold RequestContext.clientHasClosed controlOf
  cases ctx.request <;> rfl

structure Kept (before after : Slot σ) : Prop where
  control : after.ctx.map controlOf = before.ctx.map controlOf
  fired : after.fired = before.fired

theorem Kept.refl (slot : Slot σ) : Kept slot slot := ⟨rfl,rfl⟩

theorem Kept.trans {first second third : Slot σ} (front : Kept first second) (back : Kept second third) :
    Kept first third := ⟨back.control.trans front.control,back.fired.trans front.fired⟩

theorem goUbWrite_kept (sink : ResponseSink σ) (buf : Bytes) (slot : Slot σ) :
    Kept slot (goUbWrite sink buf slot).2 := by
  unfold goUbWrite
  split
  · exact ⟨rfl,rfl⟩
  · split
    · exact Kept.refl slot
    · split
      · split <;> exact ⟨rfl,rfl⟩
      · exact ⟨rfl,rfl⟩

theorem writeHeader_kept (sink : ResponseSink σ) (slot : Slot σ) (raw : Bytes) :
    Kept slot (writeHeader sink slot raw) := by
  unfold writeHeader
  split <;> exact ⟨rfl,rfl⟩

theorem foldl_writeHeader_kept (sink : ResponseSink σ) (headers : List Bytes) (slot : Slot σ) :
    Kept slot (headers.foldl (writeHeader sink) slot) := by
  induction headers generalizing slot with
  | nil => exact Kept.refl slot
  | cons raw headers ih => exact (writeHeader_kept sink slot raw).trans (ih _)

theorem goWriteHeaders_kept (sink : ResponseSink σ) (status : Int) (headers : List Bytes) (slot : Slot σ) :
    Kept slot (goWriteHeaders sink status headers slot).2 := by
  have lines := foldl_writeHeader_kept sink headers slot
  unfold goWriteHeaders
  split
  · exact Kept.refl slot
  · split
    · exact Kept.refl slot
    · split
      · exact Kept.refl slot
      · apply lines.trans
        dsimp only
        split <;> exact ⟨rfl,rfl⟩

theorem goSapiFlush_kept (sink : ResponseSink σ) (slot : Slot σ) : Kept slot (goSapiFlush sink slot).2 := by
  unfold goSapiFlush
  split
  · exact Kept.refl slot
  · split
    · exact Kept.refl slot
    · split
      · exact Kept.refl slot
      · split <;> exact ⟨rfl,rfl⟩

theorem goReadPost_kept (countBytes : Nat) (slot : Slot σ) : Kept slot (goReadPost countBytes slot).2 := by
  unfold goReadPost
  split
  · exact Kept.refl slot
  · split
    · exact Kept.refl slot
    next ctx installed =>
      split
      · exact Kept.refl slot
      · split
        · exact Kept.refl slot
        next request carried => exact ⟨by simp [controlOf,installed,carried],rfl⟩

theorem step_kept (sink : ResponseSink σ) (slot : Slot σ) (callback : Callback)
    (plain : callback.closes = false) (calm : callback ≠ .cancelled) :
    Kept slot (callback.step sink slot) := by
  cases callback with
  | writeHeaders status headers => exact goWriteHeaders_kept sink status headers slot
  | ubWrite buf => exact goUbWrite_kept sink buf slot
  | sapiFlush => exact goSapiFlush_kept sink slot
  | readPost countBytes => exact goReadPost_kept countBytes slot
  | finishPhpRequest => contradiction
  | afterScript => contradiction
  | cancelled => contradiction

def Open (buffered : Bool) (signal : CompletionSignal) (cancelled : Option Bool) (fired : Nat)
    (slot : Slot σ) : Prop :=
  (∃ had, slot.ctx.map controlOf = some ⟨false,had,buffered,signal,cancelled⟩) ∧ slot.fired = fired

def Closed (flag : Bool) (fired : Nat) (slot : Slot σ) : Prop :=
  (∀ kept, slot.ctx.map controlOf = some kept → kept.isDone = true ∧ kept.clientHadClosed = flag) ∧
    slot.fired = fired

/-- The client flag after the callbacks; a context without a request has no client. -/
def flagAfter (cancelled : Option Bool) (callbacks : List Callback) : Option Bool :=
  cancelled.map (· || callbacks.contains .cancelled)

theorem step_open (sink : ResponseSink σ) {buffered : Bool} {signal : CompletionSignal}
    {cancelled : Option Bool} {fired : Nat} {slot : Slot σ}
    (opened : Open buffered signal cancelled fired slot) {callback : Callback} (plain : callback.closes = false) :
    Open buffered signal (flagAfter cancelled [callback]) fired (callback.step sink slot) := by
  obtain ⟨⟨had,shape⟩,count⟩ := opened
  by_cases raised : callback = .cancelled
  · subst raised
    refine ⟨⟨had,?_⟩,count⟩
    cases installed : slot.ctx with
    | none => simp [installed] at shape
    | some ctx =>
      simp only [installed,controlOf,Option.map_some,Option.some.injEq,Control.mk.injEq] at shape
      cases request : ctx.request <;>
        simp [Callback.step,raiseCancelled,installed,controlOf,flagAfter,request,shape,← shape.2.2.2.2]
  · have same := step_kept sink slot callback plain raised
    have absent : flagAfter cancelled [callback] = cancelled := by
      cases cancelled <;> simp [flagAfter,Ne.symm raised]
    rw [absent]
    exact ⟨⟨had,same.control.trans shape⟩,same.fired.trans count⟩

theorem run_open (sink : ResponseSink σ) {buffered : Bool} {signal : CompletionSignal}
    {cancelled : Option Bool} {fired : Nat} {slot : Slot σ}
    (opened : Open buffered signal cancelled fired slot) {callbacks : List Callback}
    (plain : callbacks.any Callback.closes = false) :
    Open buffered signal (flagAfter cancelled callbacks) fired (runCallbacks sink callbacks slot) := by
  induction callbacks generalizing cancelled slot with
  | nil => simpa [flagAfter,runCallbacks] using opened
  | cons callback callbacks ih =>
    simp only [List.any_cons,Bool.or_eq_false_iff] at plain
    have later := ih (step_open sink opened plain.1) plain.2
    have folded : flagAfter (flagAfter cancelled [callback]) callbacks =
        flagAfter cancelled (callback :: callbacks) := by
      cases cancelled <;> simp [flagAfter,Bool.or_assoc]
    rwa [folded] at later

theorem close_open (sink : ResponseSink σ) {buffered : Bool} {signal : CompletionSignal}
    {cancelled : Option Bool} {fired : Nat} {slot : Slot σ}
    (opened : Open buffered signal cancelled fired slot) {callback : Callback} (closing : callback.closes = true) :
    Closed (cancelled.getD false) (fired + signal.fire.2) (callback.step sink slot) ∧
      (callback.step sink slot).sink = slot.sink := by
  obtain ⟨⟨had,shape⟩,count⟩ := opened
  cases installed : slot.ctx with
  | none => simp [installed] at shape
  | some ctx =>
    simp only [installed,controlOf,Option.map_some,Option.some.injEq,Control.mk.injEq] at shape
    have flag := clientHasClosed_eq ctx
    obtain ⟨active,_,_,pending,client⟩ := shape
    have closed : Closed (cancelled.getD false) (fired + signal.fire.2) slot.close := by
      refine ⟨?_,by simp [Slot.close,installed,RequestContext.closeContext,active,pending,count]⟩
      intro kept found
      simp only [Slot.close,installed,RequestContext.closeContext,active,Bool.false_eq_true,if_false,
        Option.map_some,Option.some.injEq] at found
      subst found
      exact ⟨rfl,by simp [controlOf,flag,client]⟩
    have sink_kept : slot.close.sink = slot.sink := by simp [Slot.close,installed]
    cases callback with
    | finishPhpRequest => exact ⟨closed,sink_kept⟩
    | afterScript => exact ⟨⟨fun kept found => by contradiction,closed.2⟩,sink_kept⟩
    | _ => contradiction

theorem close_closed {flag : Bool} {fired : Nat} {slot : Slot σ} (closed : Closed flag fired slot) :
    slot.close = slot := by
  unfold Slot.close
  split
  next ctx installed =>
    have done := (closed.1 (controlOf ctx) (by simp [installed])).1
    have same : ctx.isDone = true := done
    obtain ⟨_,sink,count,logged⟩ := slot
    cases installed
    simp [RequestContext.closeContext,same]
  next => rfl

theorem step_closed (sink : ResponseSink σ) {flag : Bool} {fired : Nat} {slot : Slot σ}
    (closed : Closed flag fired slot) (callback : Callback) :
    Closed flag fired (callback.step sink slot) := by
  cases ends : callback.closes with
  | true =>
    cases callback with
    | finishPhpRequest =>
      change Closed flag fired slot.close
      rwa [close_closed closed]
    | afterScript =>
      refine ⟨fun kept found => by contradiction,?_⟩
      change slot.close.fired = fired
      rw [close_closed closed]
      exact closed.2
    | _ => contradiction
  | false =>
    by_cases raised : callback = .cancelled
    · subst raised
      refine ⟨fun kept found => ?_,closed.2⟩
      cases installed : slot.ctx with
      | none => simp [Callback.step,raiseCancelled,installed] at found
      | some ctx =>
        simp only [Callback.step,raiseCancelled,installed,Option.map_some,Option.some.injEq] at found
        subst found
        exact closed.1 (controlOf ctx) (by simp [installed])
    · have same := step_kept sink slot callback ends raised
      exact ⟨fun kept found => closed.1 kept (same.control ▸ found),same.fired.trans closed.2⟩

theorem run_closed (sink : ResponseSink σ) {flag : Bool} {fired : Nat} {slot : Slot σ}
    (closed : Closed flag fired slot) (callbacks : List Callback) :
    Closed flag fired (runCallbacks sink callbacks slot) := by
  induction callbacks generalizing slot with
  | nil => exact closed
  | cons callback callbacks ih => exact ih (step_closed sink closed callback)

theorem step_isNone (sink : ResponseSink σ) (slot : Slot σ) (callback : Callback) :
    (callback.step sink slot).ctx.isNone = (slot.ctx.isNone || callback == .afterScript) := by
  cases ends : callback.closes with
  | true =>
    cases callback with
    | finishPhpRequest =>
      change slot.close.ctx.isNone = _
      unfold Slot.close
      split <;> simp [*]
    | afterScript => simp [Callback.step,afterScriptExecution,Slot.clear]
    | _ => contradiction
  | false =>
    have other : (callback == .afterScript) = false := by cases callback <;> first | rfl | contradiction
    by_cases raised : callback = .cancelled
    · simp [raised,Callback.step,raiseCancelled]
    · have same := congrArg Option.isNone (step_kept sink slot callback ends raised).control
      simpa [other] using same

theorem run_isNone (sink : ResponseSink σ) (callbacks : List Callback) (slot : Slot σ) :
    (runCallbacks sink callbacks slot).ctx.isNone = (slot.ctx.isNone || callbacks.contains .afterScript) := by
  induction callbacks generalizing slot with
  | nil => simp [runCallbacks]
  | cons callback callbacks ih =>
    change (runCallbacks sink callbacks (callback.step sink slot)).ctx.isNone = _
    rw [ih,step_isNone,Bool.or_assoc,List.contains_cons,Bool.beq_comm]

/-- Every run either has not closed the context, or splits at its first close. -/
theorem first_close (callbacks : List Callback) :
    (callbacks.any Callback.closes = false ∧ callbacks.takeWhile (!·.closes) = callbacks) ∨
      ∃ before close after, callbacks = before ++ close :: after ∧ before.any Callback.closes = false ∧
        close.closes = true ∧ callbacks.takeWhile (!·.closes) = before := by
  induction callbacks with
  | nil => exact .inl ⟨rfl,rfl⟩
  | cons callback callbacks ih =>
    cases ends : callback.closes with
    | true => exact .inr ⟨[],callback,callbacks,rfl,rfl,ends,by simp [ends]⟩
    | false =>
      rcases ih with ⟨plain,whole⟩ | ⟨before,close,after,rfl,plain,closing,front⟩
      · exact .inl ⟨by simp [ends,plain],by simp [ends,whole]⟩
      · exact .inr ⟨callback :: before,close,after,rfl,by simp [ends,plain],closing,by simp [ends,front]⟩

theorem runCallbacks_append {σ : Type} (sink : ResponseSink σ) (front back : List Callback) (slot : Slot σ) :
    runCallbacks sink (front ++ back) slot = runCallbacks sink back (runCallbacks sink front slot) :=
  List.foldl_append

/-- A run that closes the context at all settles it, and fires its signal once. -/
theorem run_completes (sink : ResponseSink σ) {buffered : Bool} {signal : CompletionSignal}
    {cancelled : Option Bool} {fired : Nat} {slot : Slot σ}
    (opened : Open buffered signal cancelled fired slot) {callbacks : List Callback}
    (closing : callbacks.any Callback.closes = true) :
    (runCallbacks sink callbacks slot).fired = fired + signal.fire.2 := by
  rcases first_close callbacks with ⟨plain,_⟩ | ⟨before,close,after,rfl,plain,closes,_⟩
  · simp [plain] at closing
  · rw [runCallbacks_append]
    have closed := (close_open sink (run_open sink opened plain) closes).1
    exact (run_closed sink closed after).2

end Frankenrust.Callbacks
