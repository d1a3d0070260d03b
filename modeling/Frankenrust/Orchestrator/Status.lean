import Frankenrust.Library.Dict
import Frankenrust.Library.Lines
import Frankenrust.Orchestrator.Text

/-! The status of the checkout, `_root_status`: the records of `git status --porcelain -z` and
what is read back from them as text. -/
namespace Frankenrust.Orchestrator.Status

abbrev Statuses := List (Text × Text)

def nul : Char := '\x00'

/-- `in "RC"`. -/
def renameLetter (letter : Char) : Bool := letter = 'R' || letter = 'C'

/-- What `git status` says about a path: a source comes with a rename or a copy, in either column. -/
structure StatusRecord where
  staged : Char
  worktree : Char
  path : Text
  source : Option Text
  letters : ' ' ≤ staged ∧ ' ' ≤ worktree
  named : path ≠ [] ∧ nul ∉ path
  renamed : source.isSome = (renameLetter staged || renameLetter worktree)
  sourceNamed : ∀ old ∈ source, old ≠ [] ∧ nul ∉ old

def StatusRecord.modified (path : Text) (named : path ≠ [] ∧ nul ∉ path) : StatusRecord where
  staged := ' '
  worktree := 'M'
  path := path
  source := none
  letters := by decide
  named := named
  renamed := rfl
  sourceNamed := by decide

def StatusRecord.status (record : StatusRecord) : Text := [record.staged,record.worktree]

/-- One record of the stream. -/
def StatusRecord.render (record : StatusRecord) : Text :=
  record.status ++ ' ' :: record.path ++ nul :: (match record.source with
    | none => []
    | some source => source ++ [nul])

/-- `data.replace("\r\n", "\n")`. -/
def replacePairs : Text → Text
  | [] => []
  | '\r' :: '\n' :: rest => '\n' :: replacePairs rest
  | char :: rest => char :: replacePairs rest
termination_by structural text => text

/-- What `text=True` makes of an output. -/
def universalNewlines (text : Text) : Text := (replacePairs text).map fun char => if char = '\r' then '\n' else char

/-- `status[0] in "RC" or status[1] in "RC"`; an index past the end raises. -/
def renames : Text → Option Bool
  | first :: second :: _ => some (renameLetter first || renameLetter second)
  | [first] => if renameLetter first then some true else none
  | [] => none

/-- The loop over the fields. -/
def decodeFields : List Text → Statuses → Statuses → Option (Statuses × Statuses)
  | [], dirty, renamedFrom => some (dirty,renamedFrom)
  | record :: fields, dirty, renamedFrom =>
    if record = [] then decodeFields fields dirty renamedFrom
    else
      let status := record.take 2
      let path := record.drop 3
      match renames status, fields with
      | none, _ => none
      | some true, source :: rest =>
        decodeFields rest (Dict.set path status dirty) (if source ≠ [] then Dict.set source status renamedFrom else renamedFrom)
      | some true, [] => some (Dict.set path status dirty,renamedFrom)
      | some false, fields => decodeFields fields (Dict.set path status dirty) renamedFrom
termination_by structural fields => fields

structure Completed where
  returncode : Int
  stdout : Text

/-- `_root_status`; it raises where git fails. -/
def rootStatus (proc : Completed) : Option (Statuses × Statuses) :=
  if proc.returncode ≠ 0 then none
  else
    let fields := Lines.split nul (universalNewlines proc.stdout)
    decodeFields (fields.1 ++ [fields.2]) [] []

/-- `root_dirty_set`. -/
def rootDirtySet (proc : Completed) : Option Statuses := (rootStatus proc).map (·.1)

def rendered (records : List StatusRecord) : Completed := ⟨0,records.flatMap StatusRecord.render⟩

def paths (records : List StatusRecord) : Statuses := records.map fun record => (record.path,record.status)

def sources (records : List StatusRecord) : Statuses :=
  records.filterMap fun record => record.source.map fun source => (source,record.status)

section Newlines
variable {text rest : Text} {char : Char}

theorem replacePairs_plain (plain : '\r' ∉ text) : replacePairs text = text := by
  induction text using replacePairs.induct with
  | case1 => rfl
  | case2 rest _ => simp at plain
  | case3 char rest _ ih =>
    rw [replacePairs,ih fun member => plain (List.mem_cons_of_mem _ member)]
    assumption

theorem replacePairs_append (other : char ≠ '\n') : replacePairs (text ++ char :: rest) = replacePairs text ++ replacePairs (char :: rest) := by
  induction text using replacePairs.induct with
  | case1 => rfl
  | case2 text ih => simp [replacePairs,ih]
  | case3 first text unpaired ih =>
    rw [List.cons_append,replacePairs,replacePairs,ih]
    · rfl
    · exact unpaired
    · intro tail returned same
      cases text with
      | nil => exact other (List.cons.inj same).1
      | cons second text => exact unpaired text returned (by rw [(List.cons.inj same).1])

/-- A symbol that is no line end is read as it is, and what stands around it apart. -/
theorem universalNewlines_append (noReturn : char ≠ '\r') (noFeed : char ≠ '\n') :
    universalNewlines (text ++ char :: rest) = universalNewlines text ++ char :: universalNewlines rest := by
  have apart : replacePairs (char :: rest) = char :: replacePairs rest := by
    rw [replacePairs]
    exact fun _ returned _ => noReturn returned
  rw [universalNewlines,replacePairs_append noFeed,apart]
  simp [universalNewlines,noReturn]

theorem universalNewlines_cons (noReturn : char ≠ '\r') (noFeed : char ≠ '\n') :
    universalNewlines (char :: rest) = char :: universalNewlines rest := by
  have alone : universalNewlines ([] ++ char :: rest) = universalNewlines [] ++ char :: universalNewlines rest :=
    universalNewlines_append noReturn noFeed
  exact alone

theorem universalNewlines_plain (plain : '\r' ∉ text) : universalNewlines text = text := by
  rw [universalNewlines,replacePairs_plain plain]
  refine (List.map_congr_left fun char member => if_neg ?_).trans (List.map_id _)
  rintro rfl
  exact plain member

theorem return_not_read : '\r' ∉ universalNewlines text := by
  intro member
  obtain ⟨char,_,read⟩ := List.mem_map.mp member
  split at read
  next => cases read
  next other => exact other read

theorem replacePairs_subset : replacePairs text ⊆ text := by
  induction text using replacePairs.induct with
  | case1 => exact List.Subset.refl _
  | case2 text ih =>
    rw [replacePairs]
    intro char member
    rcases List.mem_cons.mp member with rfl | later
    · simp
    · exact List.mem_cons_of_mem _ (List.mem_cons_of_mem _ (ih later))
  | case3 first text unpaired ih =>
    rw [replacePairs]
    · exact List.cons_subset_cons _ ih
    · exact unpaired

theorem nul_not_read (free : nul ∉ text) : nul ∉ universalNewlines text := by
  intro member
  obtain ⟨char,from_text,read⟩ := List.mem_map.mp member
  split at read
  next => cases read
  next => exact free (read ▸ replacePairs_subset from_text)

theorem universalNewlines_eq_nil : universalNewlines text = [] ↔ text = [] := by
  rw [universalNewlines,List.map_eq_nil_iff]
  constructor
  · intro empty
    induction text using replacePairs.induct with
    | case1 => rfl
    | case2 rest _ => cases empty
    | case3 char rest unpaired _ =>
      rw [replacePairs] at empty
      · cases empty
      · exact unpaired
  · rintro rfl
    rfl

end Newlines

/-- The entries with their names as text mode reads them. -/
def asRead (entries : Statuses) : Statuses := entries.map fun entry => (universalNewlines entry.1,entry.2)

def fieldsOf (text : Text) : List Text := (Lines.split nul (universalNewlines text)).1 ++ [(Lines.split nul (universalNewlines text)).2]

theorem fieldsOf_field {field : Text} (rest : Text) (free : nul ∉ field) :
    fieldsOf (field ++ nul :: rest) = universalNewlines field :: fieldsOf rest := by
  rw [fieldsOf,universalNewlines_append (by decide) (by decide),Lines.split_line (nul_not_read free)]
  rfl

section Records
variable (record : StatusRecord) {char : Char}

theorem letter_plain (letter : ' ' ≤ char) : char ≠ '\r' ∧ char ≠ '\n' ∧ char ≠ nul := by
  refine ⟨?_,?_,?_⟩ <;> rintro rfl <;> exact absurd letter (by decide)

theorem heading_read : universalNewlines (record.status ++ ' ' :: record.path) =
    record.staged :: record.worktree :: ' ' :: universalNewlines record.path := by
  have first := letter_plain record.letters.1
  have second := letter_plain record.letters.2
  show universalNewlines (record.staged :: record.worktree :: ' ' :: record.path) = _
  rw [universalNewlines_cons first.1 first.2.1,universalNewlines_cons second.1 second.2.1,
    universalNewlines_cons (by decide) (by decide)]

theorem heading_free : nul ∉ record.status ++ ' ' :: record.path := by
  have first := (letter_plain record.letters.1).2.2
  have second := (letter_plain record.letters.2).2.2
  have blank : nul ≠ ' ' := by decide
  simp [StatusRecord.status,first.symm,second.symm,blank,record.named.2]

/-- One record is consumed whole, whatever stands behind it. -/
theorem decode_record (rest : Text) (dirty renamedFrom : Statuses) :
    decodeFields (fieldsOf (record.render ++ rest)) dirty renamedFrom = decodeFields (fieldsOf rest)
      (Dict.setAll (asRead (paths [record])) dirty) (Dict.setAll (asRead (sources [record])) renamedFrom) := by
  have renamed := record.renamed
  cases given : record.source with
  | none =>
    have rendering : record.render ++ rest = (record.status ++ ' ' :: record.path) ++ nul :: rest := by
      simp [StatusRecord.render,given]
    have ordinary : (renameLetter record.staged || renameLetter record.worktree) = false := by
      rw [← renamed,given]
      rfl
    rw [rendering,fieldsOf_field rest (heading_free record),heading_read,decodeFields,if_neg (by simp)]
    simp [renames,ordinary,paths,sources,given,asRead,Dict.setAll,StatusRecord.status]
  | some source =>
    have rendering : record.render ++ rest = (record.status ++ ' ' :: record.path) ++ nul :: (source ++ nul :: rest) := by
      simp [StatusRecord.render,given]
    have moved : (renameLetter record.staged || renameLetter record.worktree) = true := by
      rw [← renamed,given]
      rfl
    have sourceNamed := record.sourceNamed source given
    have there : universalNewlines source ≠ [] := fun empty => sourceNamed.1 (universalNewlines_eq_nil.mp empty)
    rw [rendering,fieldsOf_field _ (heading_free record),fieldsOf_field rest sourceNamed.2,heading_read,decodeFields,
      if_neg (by simp)]
    simp [renames,moved,paths,sources,given,asRead,Dict.setAll,StatusRecord.status,there]

end Records

theorem paths_cons (record : StatusRecord) (records : List StatusRecord) :
    paths (record :: records) = paths [record] ++ paths records := rfl

theorem sources_cons (record : StatusRecord) (records : List StatusRecord) :
    sources (record :: records) = sources [record] ++ sources records := by
  rw [sources,sources,sources,← List.filterMap_append]
  rfl

theorem mem_paths {records : List StatusRecord} {entry : Text × Text} :
    entry ∈ paths records ↔ ∃ record ∈ records, entry = (record.path,record.status) := by
  simp only [paths,List.mem_map,eq_comm]

theorem mem_sources {records : List StatusRecord} {entry : Text × Text} :
    entry ∈ sources records ↔ ∃ record ∈ records, ∃ source ∈ record.source, entry = (source,record.status) := by
  simp only [sources,List.mem_filterMap,Option.map_eq_some_iff,Option.mem_def]
  exact exists_congr fun _ => and_congr_right fun _ => exists_congr fun _ => and_congr_right fun _ => eq_comm

theorem plain_entries {records : List StatusRecord} :
    (∀ record ∈ records, '\r' ∉ record.path ∧ ∀ source ∈ record.source, '\r' ∉ source) ↔
      (∀ entry ∈ paths records, '\r' ∉ entry.1) ∧ ∀ entry ∈ sources records, '\r' ∉ entry.1 := by
  constructor
  · intro plain
    refine ⟨fun entry listed => ?_,fun entry listed => ?_⟩
    · obtain ⟨record,member,rfl⟩ := mem_paths.mp listed
      exact (plain record member).1
    · obtain ⟨record,member,source,given,rfl⟩ := mem_sources.mp listed
      exact (plain record member).2 source given
  · rintro ⟨plainPaths,plainSources⟩ record member
    exact ⟨plainPaths _ (mem_paths.mpr ⟨record,member,rfl⟩),
      fun source given => plainSources _ (mem_sources.mpr ⟨record,member,source,given,rfl⟩)⟩

theorem decode_records (records : List StatusRecord) (dirty renamedFrom : Statuses) :
    decodeFields (fieldsOf (records.flatMap StatusRecord.render)) dirty renamedFrom =
      some (Dict.setAll (asRead (paths records)) dirty,Dict.setAll (asRead (sources records)) renamedFrom) := by
  induction records generalizing dirty renamedFrom with
  | nil =>
    have nothing : fieldsOf [] = [[]] := rfl
    rw [List.flatMap_nil,nothing,decodeFields,if_pos rfl,decodeFields]
    rfl
  | cons record records ih =>
    rw [List.flatMap_cons,decode_record,ih,paths_cons record records,sources_cons record records]
    simp [asRead,Dict.setAll]

/-- The decoder stays with the records, whatever they hold: each entry is there under its name as read. -/
theorem rootStatus_rendered (records : List StatusRecord) : rootStatus (rendered records) =
    some (Dict.setAll (asRead (paths records)) [],Dict.setAll (asRead (sources records)) []) :=
  decode_records records [] []

section Decoding
variable {entries : Statuses}

theorem asRead_plain (plain : ∀ entry ∈ entries, '\r' ∉ entry.1) : asRead entries = entries :=
  (List.map_congr_left fun entry member => by rw [universalNewlines_plain (plain entry member)]).trans (List.map_id' _)

theorem asRead_latest : (∀ name, Dict.latest name (asRead entries) = Dict.latest name entries) ↔ ∀ entry ∈ entries, '\r' ∉ entry.1 := by
  constructor
  · intro same entry member returned
    have gone : Dict.latest entry.1 (asRead entries) = none := by
      refine Dict.latest_eq_none.mpr fun listed => ?_
      obtain ⟨written,from_entries,read⟩ := List.mem_map.mp listed
      obtain ⟨other,_,rfl⟩ := List.mem_map.mp from_entries
      exact return_not_read (read ▸ returned)
    exact Dict.latest_eq_none.mp ((same entry.1).symm.trans gone) (List.mem_map_of_mem member)
  · intro plain name
    rw [asRead_plain plain]

end Decoding

/-- Each name under the code of its last record, and no other name. -/
def Exactly (decoded : Statuses) (entries : Statuses) : Prop := ∀ name, Dict.get name decoded = Dict.latest name entries

theorem exactly_asRead {entries : Statuses} :
    Exactly (Dict.setAll (asRead entries) []) entries ↔ ∀ entry ∈ entries, '\r' ∉ entry.1 := by
  rw [← asRead_latest]
  exact forall_congr' fun name => by rw [Dict.get_fromEntries]

theorem status_decoded (records : List StatusRecord) :
    (∃ dirty renamedFrom, rootStatus (rendered records) = some (dirty,renamedFrom) ∧
      Exactly dirty (paths records) ∧ Exactly renamedFrom (sources records)) ↔
    ∀ record ∈ records, '\r' ∉ record.path ∧ ∀ source ∈ record.source, '\r' ∉ source := by
  rw [rootStatus_rendered]
  have stated : (∃ dirty renamedFrom, some (Dict.setAll (asRead (paths records)) [],Dict.setAll (asRead (sources records)) []) =
      some (dirty,renamedFrom) ∧ Exactly dirty (paths records) ∧ Exactly renamedFrom (sources records)) ↔
      Exactly (Dict.setAll (asRead (paths records)) []) (paths records) ∧
        Exactly (Dict.setAll (asRead (sources records)) []) (sources records) := by
    constructor
    · rintro ⟨dirty,renamedFrom,same,exact⟩
      cases same
      exact exact
    · exact fun exact => ⟨_,_,rfl,exact⟩
  rw [stated,exactly_asRead,exactly_asRead,plain_entries]

def returned : StatusRecord := .modified ['a','\r','b'] (by decide)

theorem status_renamed_path : rootDirtySet (rendered [returned]) = some [(['a','\n','b'],[' ','M'])] ∧
    ¬∃ dirty renamedFrom, rootStatus (rendered [returned]) = some (dirty,renamedFrom) ∧
      Exactly dirty (paths [returned]) ∧ Exactly renamedFrom (sources [returned]) := by
  have read : rootStatus (rendered [returned]) = some ([(['a','\n','b'],[' ','M'])],[]) := by decide +kernel
  refine ⟨by rw [rootDirtySet,read]; rfl,?_⟩
  rintro ⟨dirty,renamedFrom,decoded,exact,_⟩
  cases read.symm.trans decoded
  exact absurd (exact ['a','\r','b']) (by decide)

end Frankenrust.Orchestrator.Status
