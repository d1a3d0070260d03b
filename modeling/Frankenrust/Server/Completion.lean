import Frankenrust.Callbacks.Script
import Frankenrust.Server.Sink

/-! The buffered response over the life of one request: it collects what the script
writes before the close, and the close freezes it. -/
namespace Frankenrust.Server
open Context Callbacks

/-- A context as `handle` hands it over, with an untouched buffer behind its sink. -/
def served (ctx : RequestContext) : Slot SharedResponseBuffer :=
  ⟨some ctx,SharedResponseBuffer.default,0,[]⟩

theorem served_open {ctx : RequestContext} (active : ctx.isDone = false) (sink : ctx.responseSink = true) :
    Open true ctx.completionSignal (ctx.request.map Request.cancelled) 0 (served ctx) :=
  ⟨⟨ctx.clientHadClosed,by simp [served,controlOf,active,sink]⟩,rfl⟩

theorem closed_slot {σ : Type} {flag : Bool} {fired : Nat} {slot : Slot σ} (closed : Closed flag fired slot) :
    slot.ctx = none ∨ ∃ ctx, slot.ctx = some ctx ∧ ctx.isDone = true ∧ ctx.clientHadClosed = flag := by
  cases installed : slot.ctx with
  | none => exact .inl rfl
  | some ctx => exact .inr ⟨ctx,rfl,closed.1 (controlOf ctx) (by simp [installed])⟩

theorem open_slot {σ : Type} {signal : CompletionSignal} {cancelled : Option Bool} {fired : Nat}
    {slot : Slot σ} (opened : Open true signal cancelled fired slot) :
    ∃ ctx, slot.ctx = some ctx ∧ ctx.isDone = false ∧ ctx.responseSink = true := by
  obtain ⟨⟨had,shape⟩,_⟩ := opened
  cases installed : slot.ctx with
  | none => simp [installed] at shape
  | some ctx =>
    simp only [installed,controlOf,Option.map_some,Option.some.injEq,Control.mk.injEq] at shape
    exact ⟨ctx,rfl,shape.1,shape.2.2.1⟩

theorem goSapiFlush_sink (slot : Slot SharedResponseBuffer) :
    (goSapiFlush bufferedResponseSink slot).2.sink = slot.sink := by
  unfold goSapiFlush
  split
  · rfl
  · split
    · rfl
    · split <;> rfl

theorem goReadPost_sink {σ : Type} (countBytes : Nat) (slot : Slot σ) :
    (goReadPost countBytes slot).2.sink = slot.sink := by
  unfold goReadPost
  split
  · rfl
  · split
    · rfl
    · split
      · rfl
      · split <;> rfl

theorem close_sink {σ : Type} (slot : Slot σ) : slot.close.sink = slot.sink := by
  unfold Slot.close
  split <;> rfl

theorem step_closed_sink {flag : Bool} {fired : Nat} {slot : Slot SharedResponseBuffer}
    (closed : Closed flag fired slot) (callback : Callback) :
    (callback.step bufferedResponseSink slot).sink = slot.sink := by
  cases callback with
  | writeHeaders status headers =>
    rcases closed_slot closed with gone | ⟨ctx,installed,done,_⟩
    · simp [Callback.step,goWriteHeaders,gone]
    · simp [Callback.step,goWriteHeaders,installed,done]
  | ubWrite buf =>
    rcases closed_slot closed with gone | ⟨ctx,installed,done,_⟩
    · simp [Callback.step,goUbWrite,gone,logWorkerOutput,Slot.log]
    · simp [Callback.step,goUbWrite,installed,done]
  | sapiFlush => exact goSapiFlush_sink slot
  | readPost countBytes => exact goReadPost_sink countBytes slot
  | finishPhpRequest => exact close_sink slot
  | afterScript => exact close_sink slot
  | cancelled => rfl

theorem run_closed_sink {flag : Bool} {fired : Nat} {slot : Slot SharedResponseBuffer}
    (closed : Closed flag fired slot) (callbacks : List Callback) :
    (runCallbacks bufferedResponseSink callbacks slot).sink = slot.sink := by
  induction callbacks generalizing slot with
  | nil => rfl
  | cons callback callbacks ih =>
    exact (ih (step_closed bufferedResponseSink closed callback)).trans
      (step_closed_sink closed callback)

theorem foldl_writeHeader_body (headers : List Bytes) (slot : Slot SharedResponseBuffer) :
    (headers.foldl (writeHeader bufferedResponseSink) slot).sink.body = slot.sink.body := by
  induction headers generalizing slot with
  | nil => rfl
  | cons raw headers ih =>
    rw [List.foldl_cons,ih]
    unfold writeHeader
    split <;> rfl

theorem goWriteHeaders_body (status : Int) (headers : List Bytes) (slot : Slot SharedResponseBuffer) :
    (goWriteHeaders bufferedResponseSink status headers slot).2.sink.body = slot.sink.body := by
  have lines := foldl_writeHeader_body headers slot
  unfold goWriteHeaders
  split
  · rfl
  · split
    · rfl
    · split
      · rfl
      · rw [← lines]
        dsimp only
        split <;> split <;> rfl

theorem step_open_body {signal : CompletionSignal} {cancelled : Option Bool} {fired : Nat}
    {slot : Slot SharedResponseBuffer} (opened : Open true signal cancelled fired slot) {callback : Callback} (plain : callback.closes = false) :
    (callback.step bufferedResponseSink slot).sink.body = slot.sink.body ++ callback.payload := by
  obtain ⟨ctx,installed,active,sink⟩ := open_slot opened
  cases callback with
  | writeHeaders status headers => simp [Callback.step,goWriteHeaders_body,Callback.payload]
  | ubWrite buf => simp [Callback.step,goUbWrite,installed,active,sink,bufferedResponseSink,Callback.payload]
  | sapiFlush => simp [Callback.step,goSapiFlush_sink,Callback.payload]
  | readPost countBytes => simp [Callback.step,goReadPost_sink,Callback.payload]
  | finishPhpRequest => contradiction
  | afterScript => contradiction
  | cancelled => simp [Callback.step,raiseCancelled,Callback.payload]

theorem run_open_body {signal : CompletionSignal} {cancelled : Option Bool} {fired : Nat}
    {slot : Slot SharedResponseBuffer} (opened : Open true signal cancelled fired slot) {callbacks : List Callback}
    (plain : callbacks.any Callback.closes = false) :
    (runCallbacks bufferedResponseSink callbacks slot).sink.body =
      slot.sink.body ++ callbacks.flatMap Callback.payload := by
  induction callbacks generalizing cancelled slot with
  | nil => simp [runCallbacks]
  | cons callback callbacks ih =>
    simp only [List.any_cons,Bool.or_eq_false_iff] at plain
    have later := ih (step_open bufferedResponseSink opened plain.1) plain.2
    rw [step_open_body opened plain.1] at later
    simpa [runCallbacks] using later

/-- A completed response is frozen and signalled exactly once, whatever callbacks run in
whatever order and whenever the client goes away. -/
theorem completed_frozen (ctx : RequestContext) (active : ctx.isDone = false)
    (pending : ctx.completionSignal = .pending) (sink : ctx.responseSink = true)
    (callbacks : List Callback) :
    (runCallbacks bufferedResponseSink callbacks (served ctx)).fired =
        (if callbacks.any Callback.closes then 1 else 0) ∧
      (runCallbacks bufferedResponseSink callbacks (served ctx)).sink.body =
        (callbacks.takeWhile (!·.closes)).flatMap Callback.payload ∧
      ∀ before close after, callbacks = before ++ close :: after →
        before.any Callback.closes = false → close.closes = true →
        let flag := (flagAfter (ctx.request.map Request.cancelled) before).getD false
        let final := runCallbacks bufferedResponseSink callbacks (served ctx)
        final.sink = (runCallbacks bufferedResponseSink before (served ctx)).sink ∧
          final.ctx.isNone = (close :: after).contains .afterScript ∧
          (∀ later, final.ctx = some later → later.isDone = true ∧ later.clientHadClosed = flag ∧
            ∀ buf, (goUbWrite bufferedResponseSink buf final).1 = ⟨buf.length,flag⟩) ∧
          (final.ctx = none → ∀ buf, (goUbWrite bufferedResponseSink buf final).1 = ⟨buf.length,false⟩) := by
  have start := served_open active sink
  rw [pending] at start
  -- the state right after the first close, from which nothing changes any more
  have at_close {before : List Callback} {close : Callback} (after : List Callback)
      (plain : before.any Callback.closes = false) (closing : close.closes = true) :
      Closed ((flagAfter (ctx.request.map Request.cancelled) before).getD false) 1
          (runCallbacks bufferedResponseSink (before ++ close :: after) (served ctx)) ∧
        (runCallbacks bufferedResponseSink (before ++ close :: after) (served ctx)).sink =
          (runCallbacks bufferedResponseSink before (served ctx)).sink := by
    have opened := run_open bufferedResponseSink start plain
    obtain ⟨closed,kept⟩ := close_open bufferedResponseSink opened closing
    rw [runCallbacks_append]
    exact ⟨run_closed _ closed after,(run_closed_sink closed after).trans kept⟩
  refine ⟨?_,?_,?_⟩
  · rcases first_close callbacks with ⟨plain,_⟩ | ⟨before,close,after,rfl,plain,closing,_⟩
    · rw [plain]
      exact (run_open bufferedResponseSink start plain).2
    · simpa [closing] using (at_close after plain closing).1.2
  · rcases first_close callbacks with ⟨plain,whole⟩ | ⟨before,close,after,rfl,plain,closing,front⟩
    · rw [whole,run_open_body start plain]
      rfl
    · rw [front,(at_close after plain closing).2,run_open_body start plain]
      rfl
  · rintro before close after rfl plain closing
    obtain ⟨closed,frozen⟩ := at_close after plain closing
    obtain ⟨former,installed,_⟩ := open_slot (run_open bufferedResponseSink start plain)
    refine ⟨frozen,?_,?_,?_⟩
    · rw [runCallbacks_append,run_isNone,installed]
      rfl
    · intro later found
      obtain ⟨done,recorded⟩ : later.isDone = true ∧ later.clientHadClosed = _ :=
        closed.1 (controlOf later) (by simp [found])
      exact ⟨done,recorded,fun buf => by simp [goUbWrite,found,done,recorded]⟩
    · intro gone buf
      simp [goUbWrite,gone]

theorem completed_frozen_finished :
    ∃ ctx, ctx.isDone = false ∧ ctx.completionSignal = .pending ∧ ctx.responseSink = true ∧
      (runCallbacks bufferedResponseSink
        [.ubWrite (ascii "hi"),.cancelled,.finishPhpRequest,.ubWrite (ascii "more"),.afterScript]
        (served ctx)).fired = 1 ∧
      (runCallbacks bufferedResponseSink
        [.ubWrite (ascii "hi"),.cancelled,.finishPhpRequest,.ubWrite (ascii "more"),.afterScript]
        (served ctx)).sink.body = ascii "hi" := by
  refine ⟨{ RequestContext.new [] none none .pending with responseSink := true },rfl,rfl,rfl,?_⟩
  obtain ⟨fired,body,_⟩ := completed_frozen
    { RequestContext.new [] none none .pending with responseSink := true } rfl rfl rfl
    [.ubWrite (ascii "hi"),.cancelled,.finishPhpRequest,.ubWrite (ascii "more"),.afterScript]
  exact ⟨fired,body⟩

end Frankenrust.Server
