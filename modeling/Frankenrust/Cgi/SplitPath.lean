import Frankenrust.Cgi.PathJoin
import Mathlib.Data.List.Range

/-! The split of a request path into script and path info. Matching folds ASCII
case on the path side only; a byte from 0x80 on never matches. -/
namespace Frankenrust.Cgi

def ensureLeadingSlash (path : Bytes) : Bytes :=
  if path = [] ∨ path.head? = some slash then path else slash :: path

inductive InvalidSplitPath
  | nonAscii
  deriving DecidableEq

def normalizeSplitPath (entries : List Bytes) : Except InvalidSplitPath (List Bytes) :=
  entries.mapM fun entry =>
    if isAscii entry then .ok (entry.map toAsciiLowercase) else .error .nonAscii

/-- Split strings that passed normalization. -/
structure SplitPath where
  entries : List Bytes
  normalized : ∃ raw, normalizeSplitPath raw = .ok entries

def SplitPath.new (raw : List Bytes) : Except InvalidSplitPath SplitPath :=
  match ok : normalizeSplitPath raw with
  | .ok entries => .ok ⟨entries,raw,ok⟩
  | .error error => .error error

def splitMatched (path split : Bytes) (start : Nat) : Option Bool := do
  let window ← slice path start (start + split.length)
  return (window.zip split).all fun pair => pair.1 < 0x80 && toAsciiLowercase pair.1 == pair.2

/-- The loop over the start positions; its first argument counts those left. -/
def splitSearch (path split : Bytes) : Nat → Nat → Option (Option Nat)
  | 0, _ => some none
  | left + 1, start => do
    if ← splitMatched path split start then return some (start + split.length)
    else splitSearch path split left (start + 1)

def splitEntries (path : Bytes) : List Bytes → Option Int
  | [] => some (-1)
  | split :: rest =>
    if split = [] ∨ split.length > path.length then splitEntries path rest
    else do
      match ← splitSearch path split (path.length - split.length + 1) 0 with
      | some stop => return stop
      | none => splitEntries path rest

def splitPos (path : Bytes) (splitPath : List Bytes) : Option Int :=
  if splitPath = [] then some 0 else splitEntries path splitPath

structure CgiPaths where
  docUri : Bytes
  pathInfo : Bytes
  scriptName : Bytes
  scriptFilename : Bytes
  deriving DecidableEq

def stripSuffix (path suffix : Bytes) : Option Bytes :=
  if suffix.isSuffixOf path then some (path.take (path.length - suffix.length)) else none

def defaultSplit : List Bytes := [ascii ".php"]

def splitCgiPath (documentRoot : Bytes) (splitPath : Option SplitPath) (path : Bytes) :
    Option CgiPaths := do
  let position ← splitPos path ((splitPath.map SplitPath.entries).getD defaultSplit)
  let (docUri,pathInfo) ← if position ≥ 0 then do
      pure (← slice path 0 position.toNat,← slice path position.toNat path.length)
    else pure ([],[])
  let scriptPath := (stripSuffix path pathInfo).getD path
  let scriptName := ensureLeadingSlash scriptPath
  let scriptFilename ← sanitizedPathJoin documentRoot scriptName
  return ⟨docUri,pathInfo,scriptName,scriptFilename⟩

def occursAt (path split : Bytes) (start : Nat) : Bool :=
  (((path.drop start).take split.length).zip split).all fun pair =>
    pair.1 < 0x80 && toAsciiLowercase pair.1 == pair.2

def firstOccurrence (path split : Bytes) : Option Nat :=
  if split = [] ∨ split.length > path.length then none
  else (List.range (path.length - split.length + 1)).find? (occursAt path split)

theorem slice_eq {bytes : Bytes} {start stop : Nat} (ordered : start ≤ stop) (inside : stop ≤ bytes.length) :
    slice bytes start stop = some ((bytes.drop start).take (stop - start)) := by
  simp [slice,ordered,inside]

theorem splitSearch_eq (path split : Bytes) (left start : Nat)
    (inside : start + left + split.length ≤ path.length + 1) :
    splitSearch path split left start =
      some (((List.range' start left).find? (occursAt path split)).map (· + split.length)) := by
  induction left generalizing start with
  | zero => rfl
  | succ left ih =>
    have cut : slice path start (start + split.length) = some ((path.drop start).take split.length) := by
      rw [slice_eq (by omega) (by omega),Nat.add_sub_cancel_left]
    have window : splitMatched path split start = some (occursAt path split start) := by
      simp only [splitMatched,cut,occursAt]
      rfl
    simp only [splitSearch,window,bind,Option.bind,List.range'_succ,List.find?_cons]
    cases found : occursAt path split start with
    | true => simp
    | false => simpa using ih (start + 1) (by omega)

theorem splitEntries_eq (path : Bytes) (entries : List Bytes) :
    splitEntries path entries = some
      (match entries.findSome? fun entry => (firstOccurrence path entry).map (· + entry.length) with
      | some stop => (stop : Int)
      | none => -1) := by
  induction entries with
  | nil => rfl
  | cons split rest ih =>
    by_cases skipped : split = [] ∨ split.length > path.length
    · simp only [splitEntries,skipped,if_true,ih,List.findSome?_cons,firstOccurrence,Option.map_none]
    · have searched := splitSearch_eq path split (path.length - split.length + 1) 0 (by
        have fits := not_or.mp skipped
        omega)
      have first : firstOccurrence path split =
          (List.range (path.length - split.length + 1)).find? (occursAt path split) := if_neg skipped
      rw [← List.range_eq_range',← first] at searched
      simp only [splitEntries,skipped,if_false,searched,bind,Option.bind,List.findSome?_cons]
      cases firstOccurrence path split with
      | some start => rfl
      | none => exact ih

theorem splitPos_eq (path : Bytes) (entries : List Bytes) :
    splitPos path entries = some (if entries = [] then 0
      else match entries.findSome? fun entry => (firstOccurrence path entry).map (· + entry.length) with
        | some stop => (stop : Int)
        | none => -1) := by
  unfold splitPos
  split
  · rfl
  · exact splitEntries_eq path entries

def Occurs (path split : Bytes) : Prop :=
  ∃ front window back, path = front ++ window ++ back ∧ window.map toAsciiLowercase = split

theorem toAsciiLowercase_ascii {byte : UInt8} (folded : toAsciiLowercase byte < 0x80) : byte < 0x80 := by
  unfold toAsciiLowercase at folded
  split at folded
  next upper => exact UInt8.lt_of_le_of_lt upper.2 (by decide)
  next => exact folded

theorem matched_iff (window split : Bytes) (size : window.length = split.length)
    (plain : isAscii split = true) :
    ((window.zip split).all fun pair => pair.1 < 0x80 && toAsciiLowercase pair.1 == pair.2) = true ↔
      window.map toAsciiLowercase = split := by
  induction window generalizing split with
  | nil => simp [List.length_eq_zero_iff.mp size.symm]
  | cons byte window ih =>
    cases split with
    | nil => simp at size
    | cons entry split =>
      simp only [isAscii,List.all_cons,Bool.and_eq_true,decide_eq_true_eq] at plain
      have rest := ih split (by simpa using size) plain.2
      simp only [List.zip_cons_cons,List.all_cons,Bool.and_eq_true,decide_eq_true_eq,beq_iff_eq,
        List.map_cons,List.cons.injEq,rest]
      constructor
      · exact fun matched => ⟨matched.1.2,matched.2⟩
      · intro matched
        refine ⟨⟨toAsciiLowercase_ascii ?_,matched.1⟩,matched.2⟩
        rw [matched.1]
        exact plain.1

theorem occursAt_iff {path split : Bytes} {start : Nat} (inside : start + split.length ≤ path.length)
    (plain : isAscii split = true) :
    occursAt path split start = true ↔
      ((path.drop start).take split.length).map toAsciiLowercase = split :=
  matched_iff _ _ (by simp; omega) plain

theorem firstOccurrence_some {path split : Bytes} {start : Nat} (plain : isAscii split = true)
    (found : firstOccurrence path split = some start) :
    start + split.length ≤ path.length ∧
      ((path.drop start).take split.length).map toAsciiLowercase = split := by
  unfold firstOccurrence at found
  split at found
  next => contradiction
  next kept =>
    have fits := not_or.mp kept
    have member := List.mem_range.mp (List.mem_of_find?_eq_some found)
    have inside : start + split.length ≤ path.length := by omega
    exact ⟨inside,(occursAt_iff inside plain).mp (List.find?_some found)⟩

theorem occurs_at {path split : Bytes} (occurs : Occurs path split) :
    ∃ start, start + split.length ≤ path.length ∧
      ((path.drop start).take split.length).map toAsciiLowercase = split := by
  obtain ⟨front,window,back,rfl,rfl⟩ := occurs
  exact ⟨front.length,by simp,by simp [List.append_assoc]⟩

theorem occurs_of_window {path split : Bytes} (start : Nat)
    (matched : ((path.drop start).take split.length).map toAsciiLowercase = split) :
    Occurs path split :=
  ⟨path.take start,(path.drop start).take split.length,(path.drop start).drop split.length,
    by rw [List.append_assoc,List.take_append_drop,List.take_append_drop],matched⟩

theorem firstOccurrence_none {path split : Bytes} (plain : isAscii split = true) (named : split ≠ []) :
    firstOccurrence path split = none ↔ ¬Occurs path split := by
  constructor
  · intro missed occurs
    obtain ⟨start,inside,matched⟩ := occurs_at occurs
    have fits : ¬(split = [] ∨ split.length > path.length) := by
      simp only [named,false_or]
      omega
    rw [firstOccurrence,if_neg fits] at missed
    have absent := List.find?_eq_none.mp missed start (List.mem_range.mpr (by omega))
    exact absent ((occursAt_iff inside plain).mpr matched)
  · intro absent
    cases found : firstOccurrence path split with
    | none => rfl
    | some start => exact absurd (occurs_of_window start (firstOccurrence_some plain found).2) absent

theorem splitPos_php (path : Bytes) : splitPos path [ascii ".php"] = some
    (match firstOccurrence path (ascii ".php") with
    | some start => ((start + 4 : Nat) : Int)
    | none => -1) := by
  rw [splitPos_eq,if_neg (by simp),List.findSome?_cons]
  cases firstOccurrence path (ascii ".php") <;> rfl

/-- The split of a path that starts with a slash: the script name and the path info
are its two parts, and the document URI is the script name if an entry was found. -/
theorem splitCgiPath_default (documentRoot path : Bytes) (started : path.head? = some slash) :
    ∃ paths stop, splitCgiPath documentRoot none path = some paths ∧
      stop ≤ path.length ∧
      paths.scriptName = path.take stop ∧
      paths.pathInfo = path.drop stop ∧
      sanitizedPathJoin documentRoot paths.scriptName = some paths.scriptFilename ∧
      (match firstOccurrence path (ascii ".php") with
      | some start => stop = start + 4 ∧ paths.docUri = paths.scriptName
      | none => stop = path.length ∧ paths.docUri = []) := by
  obtain ⟨rest,rfl⟩ : ∃ rest, path = slash :: rest := by
    cases path with
    | nil => simp at started
    | cons byte rest => exact ⟨rest,by simpa using started⟩
  cases found : firstOccurrence (slash :: rest) (ascii ".php") with
  | none =>
    obtain ⟨base,joined,_⟩ := sanitizedPathJoin_total documentRoot (slash :: rest)
    have suffix : stripSuffix (slash :: rest) [] = some (slash :: rest) := by simp [stripSuffix]
    have kept : ensureLeadingSlash (slash :: rest) = slash :: rest := by simp [ensureLeadingSlash]
    refine ⟨⟨[],[],slash :: rest,_⟩,(slash :: rest).length,?_,Nat.le_refl _,by simp,by simp,joined,rfl,rfl⟩
    simp [splitCgiPath,splitPos_php,defaultSplit,found,suffix,kept,joined]
  | some start =>
    have inside := (firstOccurrence_some (by decide) found).1
    have fits : start + 4 ≤ (slash :: rest).length := inside
    obtain ⟨base,joined,_⟩ := sanitizedPathJoin_total documentRoot ((slash :: rest).take (start + 4))
    have front : slice (slash :: rest) 0 (start + 4) = some ((slash :: rest).take (start + 4)) :=
      slice_eq (Nat.zero_le _) fits
    have back : slice (slash :: rest) (start + 4) (slash :: rest).length =
        some ((slash :: rest).drop (start + 4)) := by
      rw [slice_eq fits (Nat.le_refl _),List.take_of_length_le (by simp)]
    have suffix : stripSuffix (slash :: rest) ((slash :: rest).drop (start + 4)) =
        some ((slash :: rest).take (start + 4)) := by
      have tail : ((slash :: rest).drop (start + 4)).isSuffixOf (slash :: rest) = true :=
        List.isSuffixOf_iff_suffix.mpr (List.drop_suffix _ _)
      rw [stripSuffix,if_pos tail,List.length_drop,Nat.sub_sub_self fits]
    have kept : ensureLeadingSlash ((slash :: rest).take (start + 4)) = (slash :: rest).take (start + 4) := by
      simp [ensureLeadingSlash]
    refine ⟨⟨(slash :: rest).take (start + 4),(slash :: rest).drop (start + 4),
      (slash :: rest).take (start + 4),_⟩,start + 4,?_,fits,rfl,rfl,joined,rfl,rfl⟩
    simp only [splitCgiPath,Option.map_none,Option.getD_none,defaultSplit,splitPos_php,found]
    have known : ((start + 4 : Nat) : Int) ≥ 0 := Int.natCast_nonneg _
    simp only [bind,Option.bind,known,if_true,Int.toNat_natCast,front,back,pure,suffix,Option.getD_some,
      kept,joined]

end Frankenrust.Cgi
