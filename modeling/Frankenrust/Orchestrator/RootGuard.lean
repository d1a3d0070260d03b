import Frankenrust.Bytes
import Frankenrust.Orchestrator.Status
import Mathlib.Data.Char
import Mathlib.Data.List.Lex
import Mathlib.Data.List.Sort

/-! The guard on the main checkout, `guard_root_writes`: what two captures of it tell about the
paths that were written in between. -/
namespace Frankenrust.Orchestrator.RootGuard
open Status

/-- What a capture asks: `git status`, `is_file` and `git hash-object`. -/
structure Root where
  status : Completed
  isFile : Text → Bool
  hashObject : Text → Int × Text

def unreadableText : Text := "<unreadable>".toList
def absentText : Text := "<absent>".toList

def Root.content (root : Root) (path : Text) : Text :=
  if root.isFile path then
    let answer := root.hashObject path
    if answer.1 = 0 then answer.2 else unreadableText
  else absentText

def fingerprint (status content : Text) : Text := status ++ ':' :: content

/-- `_root_fingerprints`. -/
def rootFingerprints (root : Root) : Option Statuses :=
  (rootStatus root.status).map fun statuses =>
    let dirty := Dict.setDefaults statuses.2 statuses.1
    Dict.setAll (dirty.map fun entry => (entry.1,fingerprint entry.2 (root.content entry.1))) []

/-- `changed` of `guard_root_writes`; a capture that fails disarms it. -/
def changed (before after : Root) : List Text :=
  match rootFingerprints before,rootFingerprints after with
  | some before,some after =>
    ((after.filter fun entry => Dict.get entry.1 before ≠ some entry.2).map (·.1)).insertionSort (· ≤ ·)
  | _,_ => []

theorem rootFingerprints_spec {root : Root} {dirty renamedFrom : Statuses} (read : rootStatus root.status = some (dirty,renamedFrom))
    (keyed : Dict.Keyed dirty) : ∃ fingerprints, rootFingerprints root = some fingerprints ∧ Dict.Keyed fingerprints ∧
      ∀ path, Dict.get path fingerprints =
        ((Dict.get path dirty).or (Dict.get path renamedFrom)).map fun status => fingerprint status (root.content path) := by
  have made : rootFingerprints root = some (Dict.setAll ((Dict.setDefaults renamedFrom dirty).map fun entry =>
      (entry.1,fingerprint entry.2 (root.content entry.1))) []) := by
    rw [rootFingerprints,read]
    rfl
  have mapped : Dict.Keyed ((Dict.setDefaults renamedFrom dirty).map fun entry =>
      (entry.1,fingerprint entry.2 (root.content entry.1))) := by
    rw [Dict.Keyed,List.map_map]
    exact keyed.setDefaults renamedFrom
  have empty : Dict.Keyed ([] : Statuses) := List.nodup_nil
  refine ⟨_,made,empty.setAll _,fun path => ?_⟩
  rw [Dict.get_fromEntries,mapped.latest_eq,Dict.get_map fun path status => fingerprint status (root.content path),
    Dict.get_setDefaults]

theorem mem_changed {before after : Root} {first second : Statuses} (one : rootFingerprints before = some first)
    (two : rootFingerprints after = some second) (keyed : Dict.Keyed second) (path : Text) :
    path ∈ changed before after ↔ Dict.get path second ≠ none ∧ Dict.get path first ≠ Dict.get path second := by
  rw [changed,one,two]
  simp only [List.mem_insertionSort,List.mem_map,List.mem_filter,decide_eq_true_eq]
  constructor
  · rintro ⟨entry,⟨member,other⟩,rfl⟩
    rw [keyed.mem_iff.mp member]
    exact ⟨Option.some_ne_none _,other⟩
  · rintro ⟨listed,other⟩
    obtain ⟨found,there⟩ := Option.ne_none_iff_exists'.mp listed
    exact ⟨(path,found),⟨Dict.get_mem there,there ▸ other⟩,rfl⟩

/-- What stands at a path of the working tree. -/
inductive Content where
  | absent
  | file (bytes : Bytes)
  | link (target : Text)
  | gitlink (commit : Text)
  deriving DecidableEq

/-- What one gets who opens a path, links followed. -/
inductive Opened where
  | noFile
  | unreadable
  | bytes (bytes : Bytes)
  deriving DecidableEq

/-- The code that entries give a path: that of its own record, or of the one it is the source of. -/
def codeIn (paths sources : Statuses) (path : Text) : Option Text := (Dict.latest path paths).or (Dict.latest path sources)

/-- The checkout at one moment, over the commit `head`. What `git status` does not report is as
in the commit, but for the paths it is told not to watch: ignored ones, and those whose changes
a flag or a filter hides. -/
structure Capture (head : Text → Content) where
  records : List StatusRecord
  content : Text → Content
  opened : Text → Opened
  unwatched : Text → Bool
  fileOpened : ∀ path bytes shown, content path = .file bytes → opened path = .bytes shown → shown = bytes
  clean : ∀ path, codeIn (paths records) (sources records) path = none → unwatched path = false → content path = head path

namespace Capture
variable {head : Text → Content} (capture : Capture head)

def code (path : Text) : Option Text := codeIn (paths capture.records) (sources capture.records) path

/-- The same with the names as text mode reads them. -/
def codeRead (path : Text) : Option Text := codeIn (asRead (paths capture.records)) (asRead (sources capture.records)) path

/-- What the capture is told, where `hashed` is what `git hash-object` prints for a file. -/
def root (hashed : Text → Bytes → Text) : Root where
  status := rendered capture.records
  isFile path := capture.opened path ≠ .noFile
  hashObject path := match capture.opened path with
    | .bytes bytes => (0,hashed path bytes)
    | _ => (128,[])

def Plain : Prop := ∀ record ∈ capture.records, '\r' ∉ record.path ∧ ∀ source ∈ record.source, '\r' ∉ source

def Regular (path : Text) : Prop := ∃ bytes, capture.content path = .file bytes ∧ capture.opened path = .bytes bytes

variable {capture} {hashed : Text → Bytes → Text} {path : Text}

theorem code_length {code : Text} (listed : capture.codeRead path = some code) : code.length = 2 := by
  have coded : ∀ entry ∈ asRead (paths capture.records) ++ asRead (sources capture.records), entry.2.length = 2 := by
    intro entry member
    rw [asRead,asRead,← List.map_append] at member
    obtain ⟨written,listed,rfl⟩ := List.mem_map.mp member
    rcases List.mem_append.mp listed with own | other
    · obtain ⟨record,_,rfl⟩ := mem_paths.mp own
      rfl
    · obtain ⟨record,_,source,_,rfl⟩ := mem_sources.mp other
      rfl
  rcases Option.or_eq_some_iff.mp listed with own | ⟨_,other⟩
  · exact coded (path,code) (List.mem_append_left _ (Dict.latest_mem own))
  · exact coded (path,code) (List.mem_append_right _ (Dict.latest_mem other))

theorem plain_read (plain : capture.Plain) (path : Text) : capture.codeRead path = capture.code path := by
  obtain ⟨plainPaths,plainSources⟩ := plain_entries.mp plain
  rw [codeRead,asRead_plain plainPaths,asRead_plain plainSources]
  rfl

/-- A fingerprint for every path that is listed, under the name that is read. -/
theorem fingerprints (capture : Capture head) (hashed : Text → Bytes → Text) :
    ∃ fingerprints, rootFingerprints (capture.root hashed) = some fingerprints ∧ Dict.Keyed fingerprints ∧
      ∀ path, Dict.get path fingerprints =
        (capture.codeRead path).map fun code => fingerprint code ((capture.root hashed).content path) := by
  have empty : Dict.Keyed ([] : Statuses) := List.nodup_nil
  have read : rootStatus (capture.root hashed).status = _ := rootStatus_rendered capture.records
  obtain ⟨fingerprints,made,keyed,each⟩ := rootFingerprints_spec read (empty.setAll _)
  refine ⟨fingerprints,made,keyed,fun path => ?_⟩
  rw [each,Dict.get_fromEntries,Dict.get_fromEntries]
  rfl

end Capture

section Captures
variable {head : Text → Content} {hashed : Text → Bytes → Text} {before after : Capture head} {path : Text}

/-- The names that `git hash-object` prints tell the contents compared apart, and are no placeholders. -/
structure Named (hashed : Text → Bytes → Text) (before after : Capture head) : Prop where
  apart : ∀ path old new, before.opened path = .bytes old → after.opened path = .bytes new →
    hashed path old = hashed path new → old = new
  printed : ∀ path bytes, hashed path bytes ≠ unreadableText ∧ hashed path bytes ≠ absentText

theorem content_of (capture : Capture head) (path : Text) : (capture.root hashed).content path = match capture.opened path with
    | .noFile => absentText
    | .unreadable => unreadableText
    | .bytes bytes => hashed path bytes := by
  cases shown : capture.opened path <;> simp [Root.content,Capture.root,shown]

theorem content_same (named : Named hashed before after) (path : Text) :
    (before.root hashed).content path = (after.root hashed).content path ↔ before.opened path = after.opened path := by
  have placeholders : absentText ≠ unreadableText := by decide
  rw [content_of,content_of]
  cases old : before.opened path with
  | noFile =>
    cases new : after.opened path with
    | noFile => simp
    | unreadable => simp [placeholders]
    | bytes second => simp [(named.printed path second).2.symm]
  | unreadable =>
    cases new : after.opened path with
    | noFile => simp [placeholders.symm]
    | unreadable => simp
    | bytes second => simp [(named.printed path second).1.symm]
  | bytes first =>
    cases new : after.opened path with
    | noFile => simp [(named.printed path first).2]
    | unreadable => simp [(named.printed path first).1]
    | bytes second =>
      refine ⟨fun same => ?_,fun same => ?_⟩
      · rw [named.apart path first second old new same]
      · rw [Opened.bytes.inj same]

/-- What the guard finds: a path listed after, under another code than before or with something else to open. -/
theorem changed_iff (named : Named hashed before after) (path : Text) : path ∈ changed (before.root hashed) (after.root hashed) ↔
    after.codeRead path ≠ none ∧ (before.codeRead path = after.codeRead path → before.opened path ≠ after.opened path) := by
  obtain ⟨first,one,_,firstAt⟩ := before.fingerprints hashed
  obtain ⟨second,two,keyed,secondAt⟩ := after.fingerprints hashed
  rw [mem_changed one two keyed,firstAt,secondAt]
  simp only [ne_eq,← content_same named path]
  cases new : after.codeRead path with
  | none => simp
  | some code =>
    cases old : before.codeRead path with
    | none => simp
    | some earlier =>
      have lengths : earlier.length = code.length := (Capture.code_length old).trans (Capture.code_length new).symm
      have pieces : fingerprint earlier ((before.root hashed).content path) = fingerprint code ((after.root hashed).content path) ↔
          earlier = code ∧ (before.root hashed).content path = (after.root hashed).content path := by
        rw [fingerprint,fingerprint]
        refine ⟨fun same => ?_,fun ⟨codes,contents⟩ => by rw [codes,contents]⟩
        obtain ⟨codes,contents⟩ := List.append_inj same lengths
        exact ⟨codes,(List.cons.inj contents).2⟩
      simp [pieces]

def Differs (before after : Capture head) (path : Text) : Prop :=
  before.content path ≠ after.content path ∨ before.code path ≠ after.code path

/-- What is listed and what can be opened tell which paths differ: nothing differs at a name that is
not listed after; where the code is the same both times, what is opened decides; another code is a difference. -/
structure Telling (before after : Capture head) : Prop where
  kept : ∀ path, after.codeRead path = none → ¬Differs before after path
  alike : ∀ path, after.codeRead path ≠ none → before.codeRead path = after.codeRead path →
    (before.opened path ≠ after.opened path ↔ Differs before after path)
  apart : ∀ path, after.codeRead path ≠ none → before.codeRead path ≠ after.codeRead path → Differs before after path

/-- The same where every name is read as it is: what was listed before is listed after, no path that
is not watched has changed, and a path with one code both times that is no readable file opens the same
exactly if it is the same. -/
structure Visible (before after : Capture head) : Prop where
  listed : ∀ path, before.code path ≠ none → after.code path ≠ none
  unwatched : ∀ path, before.code path = none → after.code path = none → (before.unwatched path || after.unwatched path) = true →
    before.content path = after.content path
  alike : ∀ path, after.code path ≠ none → before.code path = after.code path → ¬(before.Regular path ∧ after.Regular path) →
    (before.opened path = after.opened path ↔ before.content path = after.content path)

theorem regular_alike (old : before.Regular path) (new : after.Regular path) :
    before.opened path = after.opened path ↔ before.content path = after.content path := by
  obtain ⟨first,contained,shown⟩ := old
  obtain ⟨second,containedAfter,shownAfter⟩ := new
  rw [contained,containedAfter,shown,shownAfter]
  simp

theorem telling_visible (plain : before.Plain) (plainAfter : after.Plain) : Telling before after ↔ Visible before after := by
  have readBefore := Capture.plain_read plain
  have readAfter := Capture.plain_read plainAfter
  constructor
  · intro telling
    refine ⟨fun path there gone => ?_,fun path missing gone _ => ?_,fun path there same _ => ?_⟩
    · exact telling.kept path ((readAfter path).trans gone) (.inr fun same => there (same.trans gone))
    · by_contra other
      exact telling.kept path ((readAfter path).trans gone) (.inl other)
    · have decided := telling.alike path (readAfter path ▸ there) (by rw [readBefore,readAfter,same])
      rw [← not_iff_not]
      refine decided.trans ⟨fun differs => ?_,.inl⟩
      exact differs.resolve_right (not_not_intro same)
  · intro visible
    refine ⟨fun path gone differs => ?_,fun path there same => ?_,fun path _ other => ?_⟩
    · rw [readAfter] at gone
      have missing : before.code path = none := by
        by_contra there
        exact visible.listed path there gone
      have contents : before.content path ≠ after.content path := differs.resolve_right (not_not_intro (missing.trans gone.symm))
      by_cases watched : (before.unwatched path || after.unwatched path) = true
      · exact contents (visible.unwatched path missing gone watched)
      · rw [Bool.not_eq_true,Bool.or_eq_false_iff] at watched
        exact contents ((before.clean path missing watched.1).trans (after.clean path gone watched.2).symm)
    · rw [readBefore,readAfter] at same
      rw [readAfter] at there
      have decided : before.opened path = after.opened path ↔ before.content path = after.content path := by
        by_cases regular : before.Regular path ∧ after.Regular path
        · exact regular_alike regular.1 regular.2
        · exact visible.alike path there same regular
      refine (not_congr decided).trans ⟨.inl,fun differs => ?_⟩
      exact differs.resolve_right (not_not_intro same)
    · rw [readBefore,readAfter] at other
      exact .inr other

theorem changed_exact (named : Named hashed before after) :
    ((∀ path, path ∈ changed (before.root hashed) (after.root hashed) ↔ Differs before after path) ↔ Telling before after) ∧
    (before.Plain → after.Plain → (Telling before after ↔ Visible before after)) := by
  refine ⟨⟨fun exact => ⟨fun path gone differs => ?_,fun path there same => ?_,fun path there other => ?_⟩,fun telling path => ?_⟩,
    telling_visible⟩
  · exact ((changed_iff named path).mp ((exact path).mpr differs)).1 gone
  · rw [← exact path,changed_iff named]
    exact ⟨fun opened => ⟨there,fun _ => opened⟩,fun found => found.2 same⟩
  · exact (exact path).mp ((changed_iff named path).mpr ⟨there,fun same => absurd same other⟩)
  · rw [changed_iff named]
    constructor
    · rintro ⟨there,opened⟩
      by_cases same : before.codeRead path = after.codeRead path
      · exact (telling.alike path there same).mp (opened same)
      · exact telling.apart path there same
    · intro differs
      have there : after.codeRead path ≠ none := fun gone => telling.kept path gone differs
      exact ⟨there,fun same => (telling.alike path there same).mpr differs⟩

end Captures

def committed (path : Text) : Content := if path = ['f'] then .file [0x61,0x0a] else .absent

def modified : StatusRecord := .modified ['f'] (by decide)

def holding (bytes : Bytes) : Capture committed where
  records := if bytes = [0x61,0x0a] then [] else [modified]
  content path := if path = ['f'] then .file bytes else .absent
  opened path := if path = ['f'] then .bytes bytes else .noFile
  unwatched _ := false
  fileOpened path bytes shown content opened := by
    by_cases same : path = ['f']
    · rw [if_pos same] at content opened
      exact (Opened.bytes.inj opened).symm.trans (Content.file.inj content)
    · rw [if_neg same] at content
      cases content
  clean path unlisted _ := by
    by_cases same : path = ['f']
    · by_cases original : bytes = [0x61,0x0a]
      · rw [committed,if_pos same,if_pos same,original]
      · rw [if_neg original,same] at unlisted
        exact absurd unlisted (by decide)
    · rw [committed,if_neg same,if_neg same]

theorem holding_opened (bytes : Bytes) (path : Text) :
    (holding bytes).opened path = if path = ['f'] then .bytes bytes else .noFile := rfl

theorem holding_content (bytes : Bytes) (path : Text) :
    (holding bytes).content path = if path = ['f'] then .file bytes else .absent := rfl

theorem holding_plain (bytes : Bytes) : (holding bytes).Plain := by
  have plain : ∀ record ∈ [modified], '\r' ∉ record.path ∧ ∀ source ∈ record.source, '\r' ∉ source := by decide
  intro record member
  refine plain record ?_
  have records : (holding bytes).records = if bytes = [0x61,0x0a] then [] else [modified] := rfl
  rw [records] at member
  split at member
  · cases member
  · exact member

/-- The names of the blobs `b` and `c`, each with a line feed. -/
def blobName (_ : Text) (bytes : Bytes) : Text :=
  if bytes = [0x62,0x0a] then "61780798228d17af2d34fce4cfbdf35556832472".toList
  else "f2ad6c76f0115a6ba5b00456a849810e7ec0af20".toList

theorem changed_exact_modified : Telling (holding [0x62,0x0a]) (holding [0x63,0x0a]) ∧
    ∀ path, path ∈ changed ((holding [0x62,0x0a]).root blobName) ((holding [0x63,0x0a]).root blobName) ↔
      Differs (holding [0x62,0x0a]) (holding [0x63,0x0a]) path := by
  have named : Named blobName (holding [0x62,0x0a]) (holding [0x63,0x0a]) := by
    constructor
    · intro path old new before after same
      by_cases file : path = ['f']
      · rw [holding_opened,if_pos file] at before after
        rw [← Opened.bytes.inj before,← Opened.bytes.inj after,file] at same
        exact absurd same (by decide)
      · rw [holding_opened,if_neg file] at before
        cases before
    · intro path bytes
      rw [blobName]
      split <;> decide
  have exact := changed_exact named
  have visible : Visible (holding [0x62,0x0a]) (holding [0x63,0x0a]) := by
    refine ⟨fun path there gone => ?_,fun _ _ _ unwatched => ?_,fun path there same irregular => ?_⟩
    · exact there gone
    · cases unwatched
    · by_cases file : path = ['f']
      · exact absurd ⟨⟨_,if_pos file,if_pos file⟩,_,if_pos file,if_pos file⟩ irregular
      · rw [holding_opened,holding_opened,holding_content,holding_content,if_neg file,if_neg file,if_neg file,if_neg file]
        exact iff_of_true rfl rfl
  have telling := (exact.2 (holding_plain _) (holding_plain _)).mpr visible
  exact ⟨telling,exact.1.mpr telling⟩

theorem changed_misses_reverted : changed ((holding [0x62,0x0a]).root blobName) ((holding [0x61,0x0a]).root blobName) = [] ∧
    Differs (holding [0x62,0x0a]) (holding [0x61,0x0a]) ['f'] ∧
    ¬∀ path, path ∈ changed ((holding [0x62,0x0a]).root blobName) ((holding [0x61,0x0a]).root blobName) ↔
      Differs (holding [0x62,0x0a]) (holding [0x61,0x0a]) path := by
  have missed : changed ((holding [0x62,0x0a]).root blobName) ((holding [0x61,0x0a]).root blobName) = [] := by decide +kernel
  have differs : Differs (holding [0x62,0x0a]) (holding [0x61,0x0a]) ['f'] := .inl (by decide)
  refine ⟨missed,differs,fun exact => ?_⟩
  have found := (exact ['f']).mpr differs
  rw [missed] at found
  cases found

end Frankenrust.Orchestrator.RootGuard
