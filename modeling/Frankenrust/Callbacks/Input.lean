import Frankenrust.Context.Slots

/-! Reading the request body, `input.rs`, and finishing a request early, `worker.rs`. -/
namespace Frankenrust.Callbacks
open Context

variable {σ : Type}

def goReadPost (countBytes : Nat) (slot : Slot σ) : (Nat × Bytes) × Slot σ :=
  if countBytes = 0 then ((0,[]),slot)
  else match slot.ctx with
    | none => ((0,[]),slot)
    | some ctx =>
      if !ctx.responseSink then ((0,[]),slot)
      else match ctx.request with
        | none => ((0,[]),slot)
        | some request =>
          let (filled,delivered,body) := request.body.fill countBytes
          ((filled,delivered),
            { slot with ctx := some { ctx with request := some { request with body } } })

/-- Closes the context but leaves it installed: the script goes on. -/
def goFrankenphpFinishPhpRequest (slot : Slot σ) : Slot σ := slot.close

end Frankenrust.Callbacks
