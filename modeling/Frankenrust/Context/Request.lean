import Frankenrust.Context.Headers
import Frankenrust.Context.Quote
import Mathlib.Algebra.Ring.Int.Defs

/-! The inbound request of `context.rs`, its body source and its validation. -/
namespace Frankenrust.Context

/-- What one call of the body source's `read` is going to do. -/
inductive Read
  | chunk (bytes : Bytes)
  | interrupted
  | failed
  | overcount (bytes : Bytes) (extra : Nat)
  deriving DecidableEq

/-- A finite script of reads; after its end the source is exhausted. -/
abbrev Source := List Read

inductive ReadResult
  | ok (count : Nat) (written : Bytes)
  | interrupted
  | error

def Source.read : Source → Nat → ReadResult × Source
  | [], _ => (.ok 0 [],[])
  | .chunk bytes :: rest, room =>
    if bytes.length ≤ room then (.ok bytes.length bytes,rest)
    else (.ok room (bytes.take room),.chunk (bytes.drop room) :: rest)
  | .interrupted :: rest, _ => (.interrupted,rest)
  | .failed :: rest, _ => (.error,rest)
  | .overcount bytes extra :: rest, room => (.ok (room + 1 + extra) (bytes.take room),rest)

/-- The loop of `fill`; a source takes at most one round for each entry of its script
and one more to report its end. -/
def fillLoop : Nat → Source → Nat → Nat → Bytes → Nat × Bytes × Source
  | 0, source, _, filled, delivered => (filled,delivered,source)
  | fuel + 1, source, size, filled, delivered =>
    if filled < size then
      match source.read (size - filled) with
      | (.ok 0 _,source) => (filled,delivered,source)
      | (.ok (n + 1) written,source) =>
        fillLoop fuel source size (filled + min (n + 1) (size - filled)) (delivered ++ written)
      | (.interrupted,source) => fillLoop fuel source size filled delivered
      | (.error,source) => (filled,delivered,source)
    else (filled,delivered,source)

structure RequestBody where
  source : Option Source
  deriving DecidableEq

def RequestBody.fill (body : RequestBody) (size : Nat) : Nat × Bytes × RequestBody :=
  match body.source with
  | none => (0,[],body)
  | some source =>
    let (filled,delivered,source) := fillLoop (source.length + 1) source size 0 []
    (filled,delivered,⟨some source⟩)

structure Request where
  method : Bytes
  rawTarget : Bytes
  path : Bytes
  query : Bytes
  headers : Headers
  contentLength : Int
  host : Bytes
  remoteAddr : Bytes
  protoMajor : Nat
  protoMinor : Nat
  cancelled : Bool
  body : RequestBody
  deriving DecidableEq

structure RejectedRequest where
  status : Nat
  message : Bytes
  deriving DecidableEq

def digitsValue : Nat → Bytes → Option Nat
  | value, [] => some value
  | value, byte :: rest =>
    if 0x30 ≤ byte ∧ byte ≤ 0x39 then digitsValue (value * 10 + (byte.toNat - 0x30)) rest else none

/-- `str::parse::<i64>`: an optional sign, then digits, within the range of the type. -/
def parseI64 (text : Bytes) : Option Int := do
  let (negative,digits) := match text with
    | 0x2d :: rest => (true,rest)
    | 0x2b :: rest => (false,rest)
    | _ => (false,text)
  if digits = [] then none
  let magnitude ← digitsValue 0 digits
  let value : Int := if negative then -magnitude else magnitude
  if -2 ^ 63 ≤ value ∧ value < 2 ^ 63 then some value else none

def invalidContentLength (contentLength : Bytes) : RejectedRequest :=
  ⟨400,ascii "invalid Content-Length header: " ++ goQuote contentLength⟩

def validateRequest (request : Request) : Except RejectedRequest Unit :=
  if request.path.contains nul then .error ⟨400,ascii "invalid request path"⟩
  else match request.headers.getFirst (ascii "Content-Length") with
    | none => .ok ()
    | some contentLength =>
      if contentLength = [] then .ok ()
      else match parseI64 contentLength with
        | some n => if n ≥ 0 then .ok () else .error (invalidContentLength contentLength)
        | none => .error (invalidContentLength contentLength)

end Frankenrust.Context
