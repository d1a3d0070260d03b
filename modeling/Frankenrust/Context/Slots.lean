import Frankenrust.Context.RequestContext

/-! A thread's context slot together with what its callbacks act upon: the storage
behind the response sink, the completion closure's runs and the log. The sink is
the trait of `context.rs`, so callbacks are stated for any implementation of it. -/
namespace Frankenrust.Context

inductive FlushError
  | notAFlusher
  | io (error : Bytes)
  deriving DecidableEq

structure ResponseSink (σ : Type) where
  write : Bytes → σ → Except Bytes Nat × σ
  addHeader : Bytes → Bytes → σ → σ
  clearHeaders : σ → σ
  writeStatus : Nat → σ → σ
  flush : σ → Except FlushError Unit × σ

inductive Level
  | debug
  | info
  | warn
  deriving DecidableEq

structure LogRecord where
  level : Level
  message : Bytes
  attrs : List (Bytes × Bytes)
  deriving DecidableEq

structure Slot (σ : Type) where
  ctx : Option RequestContext
  sink : σ
  fired : Nat
  logged : List LogRecord
  deriving DecidableEq

variable {σ : Type}

def Slot.log (slot : Slot σ) (level : Level) (message : Bytes) (attrs : List (Bytes × Bytes)) : Slot σ :=
  { slot with logged := slot.logged ++ [⟨level,message,attrs⟩] }

/-- `CONTEXT_SLOTS.set`: the closure of the new context has not run. -/
def Slot.set (slot : Slot σ) (ctx : RequestContext) : Slot σ := { slot with ctx := some ctx }

def Slot.clear (slot : Slot σ) : Slot σ := { slot with ctx := none }

def Slot.close (slot : Slot σ) : Slot σ :=
  match slot.ctx with
  | some ctx => { slot with ctx := some ctx.closeContext.1, fired := slot.fired + ctx.closeContext.2 }
  | none => slot

end Frankenrust.Context
