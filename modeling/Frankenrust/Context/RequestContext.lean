import Frankenrust.Context.Request

/-! The request context of `context.rs`: what a PHP thread works on for the life of
one request, and its one-shot completion. -/
namespace Frankenrust.Context

/-- The completion closure while it is pending; firing takes it out. -/
inductive CompletionSignal
  | pending
  | none
  deriving DecidableEq

def CompletionSignal.fire : CompletionSignal → CompletionSignal × Nat
  | .pending => (.none,1)
  | .none => (.none,0)

/-- The storage behind the sink is shared with the server, so the context only says
whether one is installed. -/
structure RequestContext where
  documentRoot : Bytes
  splitPath : Option (List Bytes)
  request : Option Request
  docUri : Bytes
  pathInfo : Bytes
  scriptName : Bytes
  scriptFilename : Bytes
  requestUri : Bytes
  isDone : Bool
  clientHadClosed : Bool
  responseSink : Bool
  completionSignal : CompletionSignal
  deriving DecidableEq

def RequestContext.new (documentRoot : Bytes) (splitPath : Option (List Bytes))
    (request : Option Request) (completionSignal : CompletionSignal) : RequestContext where
  documentRoot := documentRoot
  splitPath := splitPath
  request := request
  docUri := []
  pathInfo := []
  scriptName := []
  scriptFilename := []
  requestUri := (request.map Request.rawTarget).getD []
  isDone := false
  clientHadClosed := false
  responseSink := false
  completionSignal := completionSignal

def RequestContext.validate (ctx : RequestContext) : Except RejectedRequest Unit :=
  match ctx.request with
  | some request => validateRequest request
  | none => .ok ()

def RequestContext.clientHasClosed (ctx : RequestContext) : Bool :=
  match ctx.request with
  | some request => request.cancelled
  | none => false

/-- `close_context`, with the number of times the completion closure ran. -/
def RequestContext.closeContext (ctx : RequestContext) : RequestContext × Nat :=
  if ctx.isDone then (ctx,0)
  else
    let clientHadClosed := ctx.clientHasClosed
    let (completionSignal,fired) := ctx.completionSignal.fire
    ({ ctx with clientHadClosed, completionSignal, isDone := true },fired)

end Frankenrust.Context
