import Frankenrust.Library.Lines
import Frankenrust.Library.Machine
import Frankenrust.Orchestrator.Text
import Mathlib.Logic.Function.Basic

/-! The journal, `record` of `loop.py`: processes that append lines to one file, each of which
looks at the file's end before it takes the lock. An append may stop after any part of it. -/
namespace Frankenrust.Orchestrator

/-- The values that are recorded; a number of tenths stands for a float rounded to one place. -/
inductive Json
  | null
  | bool (value : Bool)
  | int (value : Int)
  | tenths (value : Int)
  | str (value : Text)
  | list (items : List Json)
  | dict (fields : List (Text × Json))

namespace Json

def hex4 (n : Nat) : Text :=
  [(n / 4096 % 16).digitChar,(n / 256 % 16).digitChar,(n / 16 % 16).digitChar,(n % 16).digitChar]

def escape (char : Char) : Text :=
  if char = '"' then "\\\"".toList
  else if char = '\\' then "\\\\".toList
  else if char = '\n' then "\\n".toList
  else if char = '\r' then "\\r".toList
  else if char = '\t' then "\\t".toList
  else if char = '\x0c' then "\\f".toList
  else if char = '\x08' then "\\b".toList
  else if ' ' ≤ char ∧ char ≤ '~' then [char]
  else if char.toNat < 0x10000 then "\\u".toList ++ hex4 char.toNat
  else "\\u".toList ++ hex4 (0xd800 + (char.toNat - 0x10000) / 0x400) ++
    "\\u".toList ++ hex4 (0xdc00 + (char.toNat - 0x10000) % 0x400)

def quoted (text : Text) : Text := '"' :: text.flatMap escape ++ ['"']

def signed (value : Int) (digits : Text) : Text := if value < 0 then '-' :: digits else digits

mutual
/-- `json.dumps`. -/
def dumps : Json → Text
  | .null => "null".toList
  | .bool value => if value then "true".toList else "false".toList
  | .int value => signed value (decimalText value.natAbs)
  | .tenths value =>
    signed value (decimalText (value.natAbs / 10) ++ '.' :: decimalText (value.natAbs % 10))
  | .str value => quoted value
  | .list items => '[' :: dumpsItems items ++ [']']
  | .dict fields => '{' :: dumpsFields fields ++ ['}']

def dumpsItems : List Json → Text
  | [] => []
  | [item] => dumps item
  | item :: items => dumps item ++ ", ".toList ++ dumpsItems items

def dumpsFields : List (Text × Json) → Text
  | [] => []
  | [(key,value)] => quoted key ++ ": ".toList ++ dumps value
  | (key,value) :: fields => quoted key ++ ": ".toList ++ dumps value ++ ", ".toList ++ dumpsFields fields
end

end Json

namespace Journal

def entry (ts event : Text) (fields : List (Text × Json)) : Json :=
  .dict (("ts".toList,.str ts) :: ("event".toList,.str event) :: fields)

def torn (ts : Text) (offset : Nat) : Json := entry ts "journal_torn".toList [("offset".toList,.int offset)]

/-- What one `record` appends: after a tear, first the end of the fragment's line and a line
that reports it. -/
def appended (ts : Text) (tear : Option Nat) (written : Json) : Text :=
  match tear with
  | none => written.dumps ++ ['\n']
  | some offset => '\n' :: (torn ts offset).dumps ++ '\n' :: written.dumps ++ ['\n']

/-- Where a process stands in `record`; its threads take turns. -/
inductive Phase
  | idle
  | sized (written : Json) (size : Nat)
  | checked (written : Json) (tear : Option Nat)
  | writing (written : Json) (rest : Text)

end Journal

/-- The file, its lock and the processes; `completed` holds the records whose append was completed. -/
structure Journal (P : Type) where
  file : Text
  holder : Option P
  phase : P → Journal.Phase
  completed : List Json

namespace Journal
variable {P : Type} [DecidableEq P]

/-- Nobody is in `record`, and the file is as earlier runs left it. -/
def opened (file : Text) : Journal P := ⟨file,none,fun _ => .idle,[]⟩

inductive Action (P : Type)
  | stat (process : P) (ts event : Text) (fields : List (Text × Json))
  | look (process : P)
  | lock (process : P) (ts : Text)
  | write (process : P) (count : Nat)
  | close (process : P)
  | fail (process : P)

def enter (journal : Journal P) (process : P) (phase : Phase) : Journal P :=
  { journal with phase := Function.update journal.phase process phase }

def step (action : Action P) (journal : Journal P) : Option (Journal P) :=
  match action with
  | .stat process ts event fields =>
    match journal.phase process with
    | .idle =>
      if journal.file = [] then some (journal.enter process (.checked (entry ts event fields) none))
      else some (journal.enter process (.sized (entry ts event fields) journal.file.length))
    | _ => none
  | .look process =>
    match journal.phase process with
    | .sized written size =>
      some (journal.enter process (.checked written (if journal.file.getLast? = some '\n' then none else some size)))
    | _ => none
  | .lock process ts =>
    match journal.phase process with
    | .checked written tear =>
      if journal.holder = none then
        some { journal.enter process (.writing written (appended ts tear written)) with holder := some process }
      else none
    | _ => none
  | .write process count =>
    match journal.phase process with
    | .writing written rest =>
      some { journal.enter process (.writing written (rest.drop count)) with file := journal.file ++ rest.take count }
    | _ => none
  | .close process =>
    match journal.phase process with
    | .writing written [] =>
      some { journal.enter process .idle with holder := none, completed := journal.completed ++ [written] }
    | _ => none
  | .fail process =>
    -- Killed, or out of disk: the rest is never written, and the lock goes with the file.
    some { journal.enter process .idle with
      holder := if journal.holder = some process then none else journal.holder }

/-- Every record whose append was completed is a line of its own, in their order. -/
def Intact (journal : Journal P) : Prop := (journal.completed.map Json.dumps).Sublist (Lines.lines '\n' journal.file)

instance (journal : Journal P) : Decidable journal.Intact :=
  inferInstanceAs (Decidable (List.Sublist (journal.completed.map Json.dumps) (Lines.lines '\n' journal.file)))

def Phase.sawNoTear : Phase → Bool
  | .checked _ none => true
  | _ => false

/-- A process that saw no tear takes the lock of a file that has none. -/
def Fresh (action : Action P) (journal : Journal P) : Prop :=
  match action with
  | .lock process _ =>
    (journal.phase process).sawNoTear = true → journal.file = [] ∨ journal.file.getLast? = some '\n'
  | _ => True

instance : (action : Action P) → (journal : Journal P) → Decidable (Fresh action journal)
  | .lock process _, journal => inferInstanceAs (Decidable
    ((journal.phase process).sawNoTear = true → journal.file = [] ∨ journal.file.getLast? = some '\n'))
  | .stat _ _ _ _, _ | .look _, _ | .write _ _, _ | .close _, _ | .fail _, _ => .isTrue trivial

end Journal

namespace Json

theorem hex4_unbroken (n : Nat) : '\n' ∉ hex4 n := by
  have digit (d : Nat) : '\n' ≠ (d % 16).digitChar := by
    have every : ∀ d : Fin 16, '\n' ≠ d.val.digitChar := by decide
    exact every ⟨d % 16,Nat.mod_lt d (by decide)⟩
  simp [hex4,digit]

theorem escape_unbroken (char : Char) : '\n' ∉ escape char := by
  unfold escape
  repeat' split
  next => decide
  next => decide
  next => decide
  next => decide
  next => decide
  next => decide
  next => decide
  next other _ _ _ _ _ => simpa using Ne.symm other
  next => simp [hex4_unbroken]
  next => simp [hex4_unbroken]

theorem quoted_unbroken (text : Text) : '\n' ∉ quoted text := by
  have inner : '\n' ∉ text.flatMap escape := by
    intro member
    obtain ⟨char,_,inside⟩ := List.mem_flatMap.mp member
    exact escape_unbroken char inside
  simp [quoted,inner]

theorem decimalText_unbroken (n : Nat) : '\n' ∉ decimalText n := by
  intro member
  have digit : '\n'.isDigit = true := Nat.isDigit_of_mem_toDigits (by decide) (by decide) member
  contradiction

theorem signed_unbroken (value : Int) {digits : Text} (unbroken : '\n' ∉ digits) : '\n' ∉ signed value digits := by
  unfold signed
  split
  · simpa using unbroken
  · exact unbroken

mutual
/-- A dumped value holds no line feed. -/
theorem dumps_unbroken : (json : Json) → '\n' ∉ dumps json
  | .null => by simp [dumps]
  | .bool value => by cases value <;> simp [dumps]
  | .int value => by
    rw [dumps]
    exact signed_unbroken value (decimalText_unbroken _)
  | .tenths value => by
    rw [dumps]
    apply signed_unbroken
    simp [decimalText_unbroken]
  | .str value => by
    rw [dumps]
    exact quoted_unbroken value
  | .list items => by simp [dumps,dumpsItems_unbroken items]
  | .dict fields => by simp [dumps,dumpsFields_unbroken fields]

theorem dumpsItems_unbroken : (items : List Json) → '\n' ∉ dumpsItems items
  | [] => by simp [dumpsItems]
  | [item] => by simpa [dumpsItems] using dumps_unbroken item
  | item :: next :: items => by
    simp [dumpsItems,dumps_unbroken item,dumpsItems_unbroken (next :: items)]

theorem dumpsFields_unbroken : (fields : List (Text × Json)) → '\n' ∉ dumpsFields fields
  | [] => by simp [dumpsFields]
  | [(key,value)] => by simp [dumpsFields,quoted_unbroken key,dumps_unbroken value]
  | (key,value) :: next :: fields => by
    simp [dumpsFields,quoted_unbroken key,dumps_unbroken value,dumpsFields_unbroken (next :: fields)]
end

end Json

namespace Journal
variable {P : Type} {journal : Journal P} {process : P}

/-- What an append leaves: the lines that were ended before, and the record as the last of those
that follow. -/
theorem appended_lines {file ts : Text} {tear : Option Nat} {written : Json}
    (fresh : tear = none → (Lines.split '\n' file).2 = []) : ∃ middle,
      Lines.split '\n' (file ++ appended ts tear written) = ((Lines.split '\n' file).1 ++ middle ++ [written.dumps],[]) := by
  rw [Lines.split_append]
  cases tear with
  | none =>
    refine ⟨[],?_⟩
    rw [fresh rfl,List.nil_append,appended,Lines.split_line (Json.dumps_unbroken written)]
    simp [Lines.split]
  | some offset =>
    refine ⟨[(Lines.split '\n' file).2,(torn ts offset).dumps],?_⟩
    have text : appended ts (some offset) written =
        '\n' :: ((torn ts offset).dumps ++ '\n' :: (written.dumps ++ '\n' :: [])) := by simp [appended]
    rw [text,Lines.split_line (Lines.open_unbroken file),Lines.split_line (Json.dumps_unbroken _),
      Lines.split_line (Json.dumps_unbroken written)]
    simp [Lines.split]

/-- The records so far are ended lines, and so will be the one that is being written: its
append goes on from a text `before` that held the others. -/
structure Sound (journal : Journal P) : Prop where
  settled : (journal.completed.map Json.dumps).Sublist (Lines.split '\n' journal.file).1
  held : ∀ process written rest, journal.phase process = .writing written rest → journal.holder = some process
  writing : ∀ process written rest, journal.phase process = .writing written rest → ∃ before middle,
    before <+: journal.file ∧ (journal.completed.map Json.dumps).Sublist (Lines.split '\n' before).1 ∧
      Lines.split '\n' (journal.file ++ rest) = ((Lines.split '\n' before).1 ++ middle ++ [written.dumps],[])

theorem sound_opened (file : Text) : (opened file : Journal P).Sound := ⟨List.nil_sublist _,nofun,nofun⟩

/-- The lock is held by one process. -/
theorem Sound.alone (sound : journal.Sound) {other : P} {first second : Json} {rest more : Text}
    (here : journal.phase process = .writing first rest) (there : journal.phase other = .writing second more) :
    other = process := by
  have held := sound.held process first rest here
  rw [sound.held other second more there] at held
  exact Option.some.inj held

variable [DecidableEq P]

theorem writing_enter {phase : Phase} {other : P} {written : Json} {rest : Text}
    (writes : (journal.enter process phase).phase other = .writing written rest) :
    other = process ∧ phase = .writing written rest ∨ other ≠ process ∧ journal.phase other = .writing written rest := by
  simp only [enter] at writes
  by_cases same : other = process
  · subst same
    rw [Function.update_self] at writes
    exact .inl ⟨rfl,writes⟩
  · rw [Function.update_of_ne same] at writes
    exact .inr ⟨same,writes⟩

/-- A step that writes nothing and takes no lock from another process. -/
theorem Sound.pass (sound : journal.Sound) {phase : Phase} {holder : Option P}
    (calm : ∀ written rest, phase ≠ .writing written rest)
    (kept : ∀ other, other ≠ process → journal.holder = some other → holder = some other) :
    Sound { journal.enter process phase with holder } := by
  refine ⟨sound.settled,?_,?_⟩
  · intro other written rest writes
    rcases writing_enter writes with ⟨_,here⟩ | ⟨apart,there⟩
    · exact absurd here (calm written rest)
    · exact kept other apart (sound.held other written rest there)
  · intro other written rest writes
    rcases writing_enter writes with ⟨_,here⟩ | ⟨_,there⟩
    · exact absurd here (calm written rest)
    · exact sound.writing other written rest there

theorem Sound.lock (sound : journal.Sound) {ts : Text} {written : Json} {tear : Option Nat} (free : journal.holder = none)
    (fresh : tear = none → (Lines.split '\n' journal.file).2 = []) :
    Sound { journal.enter process (.writing written (appended ts tear written)) with holder := some process } := by
  have free (other : P) (record : Json) (rest : Text) : journal.phase other ≠ .writing record rest := by
    intro writes
    have held := sound.held other record rest writes
    rw [free] at held
    contradiction
  refine ⟨sound.settled,?_,?_⟩
  · intro other record rest writes
    rcases writing_enter writes with ⟨rfl,_⟩ | ⟨_,there⟩
    · rfl
    · exact absurd there (free other record rest)
  · intro other record rest writes
    rcases writing_enter writes with ⟨_,here⟩ | ⟨_,there⟩
    · cases here
      obtain ⟨middle,lines⟩ := @appended_lines _ ts tear written fresh
      exact ⟨journal.file,middle,List.prefix_refl _,sound.settled,lines⟩
    · exact absurd there (free other record rest)

theorem Sound.write (sound : journal.Sound) {written : Json} {rest : Text} {count : Nat}
    (writes : journal.phase process = .writing written rest) :
    Sound { journal.enter process (.writing written (rest.drop count)) with file := journal.file ++ rest.take count } := by
  have grown : journal.file <+: journal.file ++ rest.take count := List.prefix_append ..
  refine ⟨sound.settled.trans (Lines.closed_mono grown),?_,?_⟩
  · intro other record more also
    rcases writing_enter also with ⟨rfl,_⟩ | ⟨apart,there⟩
    · exact sound.held other written rest writes
    · exact absurd (sound.alone writes there) apart
  · intro other record more also
    rcases writing_enter also with ⟨_,here⟩ | ⟨apart,there⟩
    · cases here
      obtain ⟨before,middle,inside,settled,lines⟩ := sound.writing process written rest writes
      refine ⟨before,middle,inside.trans grown,settled,?_⟩
      change Lines.split '\n' (journal.file ++ rest.take count ++ rest.drop count) = _
      rw [List.append_assoc,List.take_append_drop]
      exact lines
    · exact absurd (sound.alone writes there) apart

theorem Sound.close (sound : journal.Sound) {written : Json} (writes : journal.phase process = .writing written []) :
    Sound { journal.enter process .idle with holder := none, completed := journal.completed ++ [written] } := by
  have nobody (other : P) (record : Json) (rest : Text)
      (also : (journal.enter process .idle).phase other = .writing record rest) : False := by
    rcases writing_enter also with ⟨_,here⟩ | ⟨apart,there⟩
    · contradiction
    · exact apart (sound.alone writes there)
  obtain ⟨before,middle,_,settled,lines⟩ := sound.writing process written [] writes
  rw [List.append_nil] at lines
  refine ⟨?_,fun other record rest also => (nobody other record rest also).elim,
    fun other record rest also => (nobody other record rest also).elim⟩
  change ((journal.completed ++ [written]).map Json.dumps).Sublist (Lines.split '\n' journal.file).1
  rw [lines,List.map_append]
  exact (settled.trans (List.sublist_append_left ..)).append (List.Sublist.refl _)

/-- One step keeps this where it is fresh. -/
theorem sound_step (action : Action P) (journal next : Journal P) (stepped : step action journal = some next)
    (fresh : Fresh action journal) (sound : journal.Sound) : next.Sound := by
  cases action with
  | stat process ts event fields =>
    simp only [step] at stepped
    split at stepped
    · split at stepped
      · cases stepped
        exact sound.pass nofun fun _ _ => id
      · cases stepped
        exact sound.pass nofun fun _ _ => id
    · contradiction
  | look process =>
    simp only [step] at stepped
    split at stepped
    · cases stepped
      exact sound.pass nofun fun _ _ => id
    · contradiction
  | lock process ts =>
    simp only [step] at stepped
    split at stepped
    next written tear checked =>
      split at stepped
      next free =>
        cases stepped
        apply sound.lock free
        rintro rfl
        exact Lines.open_nil (fresh (by rw [checked]; rfl))
      next => contradiction
    next => contradiction
  | write process count =>
    simp only [step] at stepped
    split at stepped
    next written rest writes =>
      cases stepped
      exact sound.write writes
    next => contradiction
  | close process =>
    simp only [step] at stepped
    split at stepped
    next written writes =>
      cases stepped
      exact sound.close writes
    next => contradiction
  | fail process =>
    simp only [step] at stepped
    cases stepped
    have calm : ∀ written rest, Phase.idle ≠ .writing written rest := nofun
    apply sound.pass calm
    intro other apart holds
    rw [if_neg (by rw [holds]; exact fun same => apart (Option.some.inj same))]
    exact holds

/-- In every run in which whoever saw no tear finds none when it takes the lock, each completed
record is a line of its own, whatever the file held and wherever appends were cut short. -/
theorem records_intact {actions : List (Action P)} {file : Text} {last : Journal P}
    (ran : Machine.run step actions (opened file) = some last) (fresh : Machine.Along step Fresh actions (opened file)) :
    last.Intact :=
  (Machine.run_along sound_step ran fresh (sound_opened file)).settled.trans (Lines.closed_sublist _)

/-- An append that is cut short, and another that sees the fragment and leaves it a line of its own. -/
theorem records_intact_torn : ∃ last : Journal Bool,
    Machine.run step [.stat true "t".toList "pushed".toList [],.lock true [],.write true 5,.fail true,
      .stat false "t".toList "merged".toList [],.look false,.lock false [],.write false 200,.close false] (opened []) =
        some last ∧ last.completed.length = 1 ∧ last.Intact := by
  have ran : ∃ last : Journal Bool,
      Machine.run step [.stat true "t".toList "pushed".toList [],.lock true [],.write true 5,.fail true,
        .stat false "t".toList "merged".toList [],.look false,.lock false [],.write false 200,.close false] (opened []) =
          some last ∧ last.completed.length = 1 := ⟨_,rfl,rfl⟩
  obtain ⟨last,ran,one⟩ := ran
  exact ⟨last,ran,one,records_intact ran (by decide +kernel)⟩

/-- Both processes find an empty file; one of them is cut short, and the other appends its whole
record to the fragment's line. -/
theorem record_merged : ∃ (actions : List (Action Bool)) (last : Journal Bool),
    Machine.run step actions (opened []) = some last ∧ ¬last.Intact := by
  have merged : (Machine.run step [.stat true "t".toList "pushed".toList [],.stat false "t".toList "merged".toList [],
      .lock true [],.write true 5,.fail true,.lock false [],.write false 200,.close false] (opened [] : Journal Bool)).map
        (fun last => decide last.Intact) = some false := by decide +kernel
  obtain ⟨last,ran,lost⟩ := Option.map_eq_some_iff.mp merged
  exact ⟨_,last,ran,of_decide_eq_false lost⟩

end Journal
end Frankenrust.Orchestrator
