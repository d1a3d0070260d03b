import Frankenrust.Context.Slots

/-! The buffered response sink of `sink.rs`. -/
namespace Frankenrust.Server
open Context

structure SharedResponseBuffer where
  status : Nat
  headers : Headers
  body : Bytes
  deriving DecidableEq

def SharedResponseBuffer.default : SharedResponseBuffer := ⟨0,Headers.empty,[]⟩

def bufferedResponseSink : ResponseSink SharedResponseBuffer where
  write buf shared := (.ok buf.length,{ shared with body := shared.body ++ buf })
  addHeader name value shared := { shared with headers := shared.headers.insert name value }
  clearHeaders shared := { shared with headers := shared.headers.clear }
  writeStatus status shared := { shared with status }
  flush shared := (.ok (),shared)

end Frankenrust.Server
