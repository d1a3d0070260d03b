import Mathlib.Data.List.Infix

/-! Text as the orchestrator's Python reads it: characters, stripping, and the parts of its
regular expressions that `gh.py` puts together. -/
namespace Frankenrust.Orchestrator

abbrev Text := List Char

/-- `str.isspace`, which is also what `\s` and `strip` go by. -/
def isSpace (char : Char) : Bool :=
  [0x9,0xa,0xb,0xc,0xd,0x1c,0x1d,0x1e,0x1f,0x20,0x85,0xa0,0x1680,0x2000,0x2001,0x2002,0x2003,0x2004,0x2005,0x2006,
    0x2007,0x2008,0x2009,0x200a,0x2028,0x2029,0x202f,0x205f,0x3000].contains char.toNat

/-- The zeros of the decimal digits of Unicode; each is followed by its nine others. -/
def zeros : List Nat :=
  [0x30,0x660,0x6f0,0x7c0,0x966,0x9e6,0xa66,0xae6,0xb66,0xbe6,0xc66,0xce6,0xd66,0xde6,0xe50,0xed0,0xf20,0x1040,0x1090,
    0x17e0,0x1810,0x1946,0x19d0,0x1a80,0x1a90,0x1b50,0x1bb0,0x1c40,0x1c50,0xa620,0xa8d0,0xa900,0xa9d0,0xa9f0,0xaa50,
    0xabf0,0xff10,0x104a0,0x10d30,0x11066,0x110f0,0x11136,0x111d0,0x112f0,0x11450,0x114d0,0x11650,0x116c0,0x11730,
    0x118e0,0x11950,0x11c50,0x11d50,0x11da0,0x16a60,0x16ac0,0x16b50,0x1d7ce,0x1d7d8,0x1d7e2,0x1d7ec,0x1d7f6,0x1e140,
    0x1e2f0,0x1e950,0x1fbf0]

def zeroOf (char : Char) : Option Nat := zeros.find? fun first => first ≤ char.toNat && char.toNat < first + 10

/-- `\d`. -/
def isDigit (char : Char) : Bool := (zeroOf char).isSome

def decimal (char : Char) : Nat := char.toNat - (zeroOf char).getD 0

/-- `int` of a run of digits; it raises beyond the interpreter's limit for conversions. -/
def int (digits : Text) : Option Nat :=
  if digits.length ≤ 4300 then some (digits.foldl (fun total char => 10 * total + decimal char) 0) else none

/-- `needle in text`. -/
def contains (needle text : Text) : Bool := decide (needle <:+: text)

def rstrip (text : Text) : Text := (text.reverse.dropWhile isSpace).reverse

def strip (text : Text) : Text := rstrip (text.dropWhile isSpace)

/-- `text[-count:]`. -/
def lastChars (count : Nat) (text : Text) : Text := text.drop (text.length - count)

def decimalText (n : Nat) : Text := Nat.toDigits 10 n

/-- What a lower-case letter of a pattern matches under `re.I`. -/
def sameLetter (letter char : Char) : Bool :=
  char == letter || char == letter.toUpper || letter == 'i' && (char == 'İ' || char == 'ı') ||
    letter == 's' && char == 'ſ'

/-- What follows a word of a pattern at the head of the text. -/
def keyword : Text → Text → Option Text
  | [], text => some text
  | _ :: _, [] => none
  | letter :: letters, char :: chars => if sameLetter letter char then keyword letters chars else none

/-- `\s*(\d+)` at the head of the text: the digits and what follows them. -/
def numberAt (text : Text) : Option (Text × Text) :=
  let number := text.dropWhile isSpace
  if number.takeWhile isDigit = [] then none else some (number.takeWhile isDigit,number.dropWhile isDigit)

/-- `^\s*key\s*(\d+)` at the head of a line. -/
def counterAt (key text : Text) : Option (Text × Text) := (keyword key (text.dropWhile isSpace)).bind numberAt

/-- `re.findall` with the pattern of `counterAt`. A match covers the next `skip` characters,
and `^` matches where the text starts and after every line feed. -/
def findall (key : Text) : Bool → Nat → Text → List Text
  | _, _, [] => []
  | _, skip + 1, char :: chars => findall key (char == '\n') skip chars
  | false, 0, char :: chars => findall key (char == '\n') 0 chars
  | true, 0, char :: chars =>
    match counterAt key (char :: chars) with
    | none => findall key (char == '\n') 0 chars
    | some (digits,rest) => digits :: findall key (char == '\n') (chars.length - rest.length) chars

/-- `re.search` and `re.sub` with `count=1` in one: the text with its first match replaced. -/
def subFirst (key line : Text) : Bool → Text → Option Text
  | _, [] => none
  | false, char :: chars => (subFirst key line (char == '\n') chars).map (char :: ·)
  | true, char :: chars =>
    match counterAt key (char :: chars) with
    | none => (subFirst key line (char == '\n') chars).map (char :: ·)
    | some (_,rest) => some (line ++ rest)

/-- The highest of all counters of one kind, `0` where there is none. -/
def counter (key text : Text) : Option Nat :=
  ((findall key true 0 text).mapM int).map fun found => found.foldl max 0

/-- The rewrite that stamps a counter: the first one is replaced, else a line is added. -/
def stamp (key line text : Text) : Text :=
  (subFirst key line true text).getD (rstrip text ++ "\n\n".toList ++ line ++ "\n".toList)

end Frankenrust.Orchestrator
