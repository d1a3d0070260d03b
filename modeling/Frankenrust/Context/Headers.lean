import Frankenrust.Bytes

/-! The header multimap of `context.rs`. Names are kept in Go's canonical form,
in the order of their first insertion, each with its values in order. -/
namespace Frankenrust.Context

def isHeaderFieldByte (c : UInt8) : Bool :=
  (0x30 ≤ c && c ≤ 0x39) || (0x41 ≤ c && c ≤ 0x5a) || (0x61 ≤ c && c ≤ 0x7a) ||
    (ascii "!#$%&'*+-.^_|~").contains c || c == 0x60

def isToken (name : Bytes) : Bool := name != [] && name.all isHeaderFieldByte

def canonicalFrom : Bool → Bytes → Bytes
  | _, [] => []
  | upperNext, byte :: rest =>
    (if upperNext then toAsciiUppercase byte else toAsciiLowercase byte) ::
      canonicalFrom (byte == 0x2d) rest

def canonicalHeaderName (name : Bytes) : Bytes :=
  if !name.all isHeaderFieldByte then name else canonicalFrom true name

structure Headers where
  entries : List (Bytes × List Bytes)
  deriving DecidableEq

def insertEntry (canon value : Bytes) : List (Bytes × List Bytes) → List (Bytes × List Bytes)
  | [] => [(canon,[value])]
  | (name,values) :: rest =>
    if name = canon then (name,values ++ [value]) :: rest
    else (name,values) :: insertEntry canon value rest

def Headers.insert (headers : Headers) (name value : Bytes) : Headers :=
  ⟨insertEntry (canonicalHeaderName name) value headers.entries⟩

def Headers.getAll (headers : Headers) (name : Bytes) : Option (List Bytes) :=
  (headers.entries.find? fun entry => entry.1 == canonicalHeaderName name).map (·.2)

def Headers.getFirst (headers : Headers) (name : Bytes) : Option Bytes := do
  (← headers.getAll name).head?

def Headers.clear (_headers : Headers) : Headers := ⟨[]⟩

def Headers.empty : Headers := ⟨[]⟩

end Frankenrust.Context
