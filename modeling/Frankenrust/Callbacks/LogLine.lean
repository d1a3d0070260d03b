import Frankenrust.Callbacks.ServerVars
import Frankenrust.Context.Quote
import Frankenrust.Library.Escapes
import Frankenrust.Library.Hexadecimal

/-! The log line of `log.rs`: `escape_for_log_line` escapes each byte on its own, so that a
message is read back from its fragment and no fragment holds a line break. -/
namespace Frankenrust.Callbacks.Log
open Escapes

def newline : UInt8 := 0x0a
def backslash : UInt8 := 0x5c

def escapeByte (b : UInt8) : Bytes :=
  if b = 0x5c then ascii "\\\\"
  else if b = 0x0a then ascii "\\n"
  else if b = 0x0d then ascii "\\r"
  else if b = 0x09 then ascii "\\t"
  else if 0x20 ≤ b ∧ b ≤ 0x7e then [b]
  else ascii "\\x" ++ Context.lowerHex 2 b.toNat

def escapeForLogLine (bytes : Bytes) : Bytes := bytes.flatMap escapeByte

/-- A level on the scale of `log/slog`. -/
structure Level where
  raw : Int
  deriving DecidableEq

/-- The keys that occur; they are static. -/
def attrKeys : List Bytes := [ascii "error",ascii "status_code",ascii "syslog_level"]

structure Attr where
  key : Bytes
  static : key ∈ attrKeys
  value : Bytes

structure Record where
  level : Level
  message : Bytes
  attrs : List Attr

/-- `{:?}` of a level. -/
def Level.debug (level : Level) : Bytes :=
  ascii "Level(" ++ (if level.raw < 0 then ascii "-" else []) ++ decimal level.raw.natAbs ++ ascii ")"

/-- What `write_stderr` writes. -/
def writeStderr (record : Record) : Bytes :=
  ascii "frankenrust[" ++ record.level.debug ++ ascii "]: " ++ escapeForLogLine record.message ++
    (record.attrs.flatMap fun attr => ascii " " ++ attr.key ++ ascii "=" ++ escapeForLogLine attr.value) ++ [newline]

/-- Reads one byte back. -/
def nextLogged : Bytes → Option (Bytes × Bytes)
  | [] => none
  | byte :: rest =>
    if byte ≠ backslash then some ([byte],rest)
    else match rest with
      | [] => none
      | letter :: rest =>
        if letter = 0x5c then some ([0x5c],rest)
        else if letter = 0x6e then some ([0x0a],rest)
        else if letter = 0x72 then some ([0x0d],rest)
        else if letter = 0x74 then some ([0x09],rest)
        else if letter = 0x78 then some ([UInt8.ofNat (Hexadecimal.number (rest.take 2))],rest.drop 2)
        else none

def unescapeLogLine (fragment : Bytes) : Option Bytes := read nextLogged fragment

theorem nextLogged_shrinks : Shrinks nextLogged := by
  intro word out left found
  cases word with
  | nil => contradiction
  | cons byte rest =>
    simp only [nextLogged] at found
    split at found
    · cases found
      simp
    · cases rest with
      | nil => contradiction
      | cons letter rest =>
        simp only at found
        repeat' split at found
        all_goals first | contradiction | cases found; simp; try omega

theorem lowerHex_two (b : UInt8) : ∃ high low, Context.lowerHex 2 b.toNat = [high,low] ∧
    Hexadecimal.Digit high ∧ Hexadecimal.Digit low ∧ Hexadecimal.number [high,low] = b.toNat := by
  have size : (Hexadecimal.padded 2 b.toNat).length = 2 := Hexadecimal.padded_length (by decide) b.toNat_lt
  obtain ⟨high,low,both⟩ := List.length_eq_two.mp size
  have digit (byte : UInt8) (member : byte ∈ [high,low]) : Hexadecimal.Digit byte :=
    Hexadecimal.padded_digit (both ▸ member)
  refine ⟨high,low,both,digit high (by simp),digit low (by simp),?_⟩
  rw [← both,Hexadecimal.number_padded]

/-- Whatever follows its escape, a byte is read back. -/
theorem spells_escapeByte (b : UInt8) : Spells nextLogged (escapeByte b) [b] := by
  refine spells_next nextLogged_shrinks ?_ ?_
  · unfold escapeByte
    repeat' split
    all_goals simp [ascii]
  · intro rest
    unfold escapeByte
    repeat' split
    next same => subst same; rfl
    next same => subst same; rfl
    next same => subst same; rfl
    next same => subst same; rfl
    next plain _ _ _ _ => simp [nextLogged,backslash,plain]
    next =>
      obtain ⟨high,low,both,_,_,value⟩ := lowerHex_two b
      rw [both]
      have back : UInt8.ofNat (Hexadecimal.number [high,low]) = b := by rw [value,UInt8.ofNat_toNat]
      exact congrArg (fun b => some ([b],rest)) back

theorem unescape_escape (bytes : Bytes) : unescapeLogLine (escapeForLogLine bytes) = some bytes := by
  have spelled : Spells nextLogged (bytes.flatMap escapeByte) (bytes.flatMap fun b => [b]) :=
    spells_flatMap fun b _ => spells_escapeByte b
  rw [List.flatMap_singleton'] at spelled
  exact read_spelled spelled

def Printable (byte : UInt8) : Prop := 0x20 ≤ byte ∧ byte ≤ 0x7e

instance : DecidablePred Printable := fun byte => inferInstanceAs (Decidable (0x20 ≤ byte ∧ byte ≤ 0x7e))

theorem digit_printable {byte : UInt8} (digit : Hexadecimal.Digit byte) : Printable byte := by
  rcases digit with ⟨low,high⟩ | ⟨low,high⟩
  · exact ⟨UInt8.le_trans (by decide) low,UInt8.le_trans high (by decide)⟩
  · exact ⟨UInt8.le_trans (by decide) low,UInt8.le_trans high (by decide)⟩

theorem printable_all {bytes : Bytes} (all : bytes.all (fun byte => decide (Printable byte)) = true) :
    ∀ byte ∈ bytes, Printable byte := fun byte member => of_decide_eq_true (List.all_eq_true.mp all byte member)

theorem printable_escapeByte (b : UInt8) : ∀ byte ∈ escapeByte b, Printable byte := by
  unfold escapeByte
  repeat' split
  next => exact printable_all (by decide)
  next => exact printable_all (by decide)
  next => exact printable_all (by decide)
  next => exact printable_all (by decide)
  next plain =>
    intro byte member
    rwa [List.mem_singleton.mp member]
  next =>
    have escape : ∀ byte ∈ ascii "\\x", Printable byte := printable_all (by decide)
    intro byte member
    rcases List.mem_append.mp member with letter | digit
    · exact escape byte letter
    · exact digit_printable (Hexadecimal.padded_digit digit)

theorem printable_escape {bytes : Bytes} : ∀ byte ∈ escapeForLogLine bytes, Printable byte := by
  intro byte member
  obtain ⟨b,_,inside⟩ := List.mem_flatMap.mp member
  exact printable_escapeByte b byte inside

theorem printable_unbroken {byte : UInt8} (printable : Printable byte) : byte ≠ newline := by
  rintro rfl
  exact absurd printable.1 (by decide)

theorem decimal_unbroken {n : Nat} {byte : UInt8} (member : byte ∈ decimal n) : byte ≠ newline := by
  obtain ⟨char,digit,rfl⟩ := List.mem_map.mp member
  have known := Nat.isDigit_of_mem_toDigits (by decide) (by decide) digit
  simp only [Char.isDigit,Bool.and_eq_true,decide_eq_true_eq] at known
  have low : 48 ≤ char.val.toNat := UInt32.le_iff_toNat_le.mp known.1
  have high : char.val.toNat ≤ 57 := UInt32.le_iff_toNat_le.mp known.2
  intro same
  have code := congrArg UInt8.toNat same
  simp only [Char.toUInt8,UInt32.toNat_toUInt8,newline,UInt8.reduceToNat] at code
  omega

theorem writeStderr_line (record : Record) : ∃ body, writeStderr record = body ++ [newline] ∧ newline ∉ body := by
  refine ⟨_,rfl,?_⟩
  have escaped (bytes : Bytes) : newline ∉ escapeForLogLine bytes :=
    fun member => printable_unbroken (printable_escape _ member) rfl
  have number : newline ∉ decimal record.level.raw.natAbs := fun member => decimal_unbroken member rfl
  have keys (attr : Attr) : newline ∉ attr.key := by
    have plain : ∀ key ∈ attrKeys, newline ∉ key := by decide
    exact plain attr.key attr.static
  have texts : ∀ text ∈ [ascii "frankenrust[",ascii "Level(",ascii "-",ascii ")",ascii "]: ",ascii " ",ascii "="],
      newline ∉ text := by decide
  simp only [List.forall_mem_cons] at texts
  obtain ⟨begins,level,minus,closes,divides,space,equals,_⟩ := texts
  simp only [Level.debug,List.mem_append,List.mem_flatMap,not_or,not_exists,not_and]
  refine ⟨⟨⟨⟨begins,⟨⟨level,?_⟩,number⟩,closes⟩,divides⟩,escaped _⟩,fun attr _ => ⟨⟨⟨space,keys attr⟩,equals⟩,escaped _⟩⟩
  split
  · exact minus
  · exact List.not_mem_nil

/-- A message is read back from what the line shows of it, and nothing in it or in an
attribute breaks the line. -/
theorem logLine_faithful :
    (∀ bytes, unescapeLogLine (escapeForLogLine bytes) = some bytes) ∧ Function.Injective escapeForLogLine ∧
      (∀ bytes, ∀ byte ∈ escapeForLogLine bytes, 0x20 ≤ byte ∧ byte ≤ 0x7e ∧ byte ≠ newline) ∧
      ∀ record : Record, (writeStderr record).count newline = 1 ∧ (writeStderr record).getLast? = some newline := by
  refine ⟨unescape_escape,?_,?_,?_⟩
  · intro first second same
    have back := congrArg unescapeLogLine same
    rw [unescape_escape,unescape_escape] at back
    exact Option.some.inj back
  · intro bytes byte member
    have printable := printable_escape byte member
    exact ⟨printable.1,printable.2,printable_unbroken printable⟩
  · intro record
    obtain ⟨body,line,unbroken⟩ := writeStderr_line record
    rw [line,List.count_append,List.count_eq_zero_of_not_mem unbroken]
    exact ⟨rfl,List.getLast?_concat⟩

end Frankenrust.Callbacks.Log
