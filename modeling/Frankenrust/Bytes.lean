import Mathlib.Data.List.Basic

/-! Byte strings as the Rust sources use them. An operation that indexes or
slices returns `none` where Rust would panic, so that staying in bounds is a
theorem about the caller. -/
namespace Frankenrust

abbrev Bytes := List UInt8

def ascii (text : String) : Bytes := text.toList.map Char.toUInt8

def nul : UInt8 := 0
def slash : UInt8 := 0x2f
def dot : UInt8 := 0x2e

/-- `&bytes[start..stop]`. -/
def slice (bytes : Bytes) (start stop : Nat) : Option Bytes :=
  if start ≤ stop ∧ stop ≤ bytes.length then some ((bytes.drop start).take (stop - start)) else none

def isAscii (bytes : Bytes) : Bool := bytes.all (· < 0x80)

def toAsciiLowercase (byte : UInt8) : UInt8 :=
  if 0x41 ≤ byte ∧ byte ≤ 0x5a then byte + 0x20 else byte

def toAsciiUppercase (byte : UInt8) : UInt8 :=
  if 0x61 ≤ byte ∧ byte ≤ 0x7a then byte - 0x20 else byte

end Frankenrust
