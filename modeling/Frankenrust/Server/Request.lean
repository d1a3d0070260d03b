import Frankenrust.Context.Request

/-! Translation of a hyper request into the core request, `request.rs`. -/
namespace Frankenrust.Server
open Context

def percent : UInt8 := 0x25

def hexDigit (byte : UInt8) : Option UInt8 :=
  if 0x30 ≤ byte ∧ byte ≤ 0x39 then some (byte - 0x30)
  else if 0x61 ≤ byte ∧ byte ≤ 0x66 then some (byte - 0x61 + 10)
  else if 0x41 ≤ byte ∧ byte ≤ 0x46 then some (byte - 0x41 + 10)
  else none

def percentDecode : Bytes → Bytes
  | [] => []
  | byte :: first :: second :: rest =>
    if byte = percent then
      match hexDigit first, hexDigit second with
      | some hi, some lo => (hi * 16 + lo) :: percentDecode rest
      | _, _ => byte :: percentDecode (first :: second :: rest)
    else byte :: percentDecode (first :: second :: rest)
  | byte :: rest => byte :: percentDecode rest

inductive Version
  | http09
  | http10
  | http11
  deriving DecidableEq

/-- What is read off hyper's request parts; header names come lower-cased, in the
order of iteration over the map. -/
structure Parts where
  method : Bytes
  path : Bytes
  query : Option Bytes
  pathAndQuery : Option Bytes
  version : Version
  headers : List (Bytes × Bytes)

/-- `HeaderValue::to_str`: visible ASCII, blanks and tabs. -/
def toStr (value : Bytes) : Option Bytes :=
  if value.all fun byte => (0x20 ≤ byte && byte < 0x7f) || byte == 0x09 then some value else none

def hostOf (headers : List (Bytes × Bytes)) : Bytes :=
  (((headers.find? fun header => header.1 == ascii "host").map (·.2)).bind toStr).getD []

def proto : Version → Nat × Nat
  | .http10 => (1,0)
  | .http09 => (0,9)
  | .http11 => (1,1)

def buildRequest (parts : Parts) (body remoteAddr : Bytes) : Request where
  method := parts.method
  rawTarget := parts.pathAndQuery.getD (ascii "/")
  path := percentDecode parts.path
  query := parts.query.getD []
  headers := parts.headers.foldl (fun headers header => headers.insert header.1 header.2) Headers.empty
  contentLength := body.length
  host := hostOf parts.headers
  remoteAddr := remoteAddr
  protoMajor := (proto parts.version).1
  protoMinor := (proto parts.version).2
  cancelled := false
  body := ⟨some [.chunk body]⟩

end Frankenrust.Server
