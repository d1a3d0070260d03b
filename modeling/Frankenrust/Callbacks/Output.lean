import Frankenrust.Context.Slots

/-! The output callbacks of `output.rs`: body writes, headers and flushing. -/
namespace Frankenrust.Callbacks
open Context

variable {σ : Type}

structure UbWriteReturn where
  r0 : Nat
  r1 : Bool
  deriving DecidableEq

def logWorkerOutput (buf : Bytes) (slot : Slot σ) : Slot σ := slot.log .info buf []

def goUbWrite (sink : ResponseSink σ) (buf : Bytes) (slot : Slot σ) : UbWriteReturn × Slot σ :=
  match slot.ctx with
  | none => (⟨buf.length,false⟩,logWorkerOutput buf slot)
  | some ctx =>
    if ctx.isDone then (⟨buf.length,ctx.clientHadClosed⟩,slot)
    else if ctx.responseSink then
      match sink.write buf slot.sink with
      | (.ok written,storage) => (⟨written,ctx.clientHasClosed⟩,{ slot with sink := storage })
      | (.error e,storage) => (⟨0,ctx.clientHasClosed⟩,
          { slot with sink := storage }.log .debug (ascii "write error") [(ascii "error",e)])
    else (⟨buf.length,ctx.clientHasClosed⟩,logWorkerOutput buf slot)

def colon : UInt8 := 0x3a
def space : UInt8 := 0x20

def splitHeader (raw : Bytes) : Option (Bytes × Bytes) :=
  match raw.findIdx? (· == colon) with
  | none => none
  | some 0 => none
  | some (position + 1) => some (raw.take (position + 1),(raw.drop (position + 2)).dropWhile (· == space))

def clampStatus (raw : Int) : Nat × Bool :=
  if 100 ≤ raw ∧ raw ≤ 999 then (raw.toNat,false) else (500,true)

def writeHeader (sink : ResponseSink σ) (slot : Slot σ) (raw : Bytes) : Slot σ :=
  match splitHeader raw with
  | some (name,value) => { slot with sink := sink.addHeader (Utf8.lossy name) value slot.sink }
  | none => slot.log .debug (ascii "invalid header: " ++ raw) []

def goWriteHeaders (sink : ResponseSink σ) (status : Int) (headers : List Bytes) (slot : Slot σ) :
    Bool × Slot σ :=
  match slot.ctx with
  | none => (true,slot)
  | some ctx =>
    if ctx.isDone then (false,slot)
    else if !ctx.responseSink then (true,slot)
    else
      let slot := headers.foldl (writeHeader sink) slot
      let (effective,wasClamped) := clampStatus status
      let slot := if wasClamped then
          slot.log .warn (ascii "Invalid response status code") [(ascii "status_code",ascii (toString status))]
        else slot
      let storage := sink.writeStatus effective slot.sink
      (true,{ slot with sink := if effective < 200 then sink.clearHeaders storage else storage })

def notAFlusherMessage : Bytes :=
  ascii ("the current responseWriter is not a flusher, if you are not using a custom build, " ++
    "please report this issue")

/-- Whether the client has disconnected, not whether the flush succeeded. -/
def goSapiFlush (sink : ResponseSink σ) (slot : Slot σ) : Bool × Slot σ :=
  match slot.ctx with
  | none => (false,slot)
  | some ctx =>
    if !ctx.responseSink then (false,slot)
    else if ctx.clientHasClosed && !ctx.isDone then (true,slot)
    else match sink.flush slot.sink with
      | (.ok (),storage) => (false,{ slot with sink := storage })
      | (.error .notAFlusher,storage) =>
        (false,{ slot with sink := storage }.log .warn notAFlusherMessage [])
      | (.error (.io e),storage) =>
        (false,{ slot with sink := storage }.log .debug (ascii "flush error") [(ascii "error",e)])

end Frankenrust.Callbacks
