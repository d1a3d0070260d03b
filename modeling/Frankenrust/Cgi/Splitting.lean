import Frankenrust.Cgi.SplitPath

/-! What `split_pos` finds: the leftmost window that spells the first entry which occurs
at all, up to ASCII case, and the two parts of the path on either side of its end. -/
namespace Frankenrust.Cgi

/-- The first window of the path that spells the entry. -/
structure Leftmost (path entry front window back : Bytes) : Prop where
  split : path = front ++ window ++ back
  spells : window.map toAsciiLowercase = entry.map toAsciiLowercase
  plain : ∀ byte ∈ window, byte < 0x80
  first : ∀ earlier other later, path = earlier ++ other ++ later →
    other.map toAsciiLowercase = entry.map toAsciiLowercase → front.length ≤ earlier.length

theorem normalizeSplitPath_ok {raw entries : List Bytes} (ok : normalizeSplitPath raw = .ok entries) :
    entries = raw.map (List.map toAsciiLowercase) ∧ ∀ entry ∈ raw, isAscii entry = true := by
  induction raw generalizing entries with
  | nil =>
    cases ok
    exact ⟨rfl,nofun⟩
  | cons entry raw ih =>
    simp only [normalizeSplitPath,List.mapM_cons] at ok ih
    cases plain : isAscii entry with
    | false =>
      rw [plain] at ok
      contradiction
    | true =>
      rw [plain] at ok
      cases rest : raw.mapM (fun entry => if isAscii entry then Except.ok (entry.map toAsciiLowercase)
          else .error InvalidSplitPath.nonAscii) with
      | error error =>
        rw [rest] at ok
        contradiction
      | ok normalized =>
        rw [rest] at ok
        cases ok
        obtain ⟨same,others⟩ := ih rest
        refine ⟨by rw [same,List.map_cons],?_⟩
        intro other member
        rcases List.mem_cons.mp member with rfl | later
        · exact plain
        · exact others other later

theorem new_ok {raw : List Bytes} {split : SplitPath} (accepted : SplitPath.new raw = .ok split) :
    normalizeSplitPath raw = .ok split.entries := by
  unfold SplitPath.new at accepted
  split at accepted
  next entries ok =>
    cases accepted
    exact ok
  next => contradiction

theorem lowercase_ascii {entry : Bytes} (plain : isAscii entry = true) :
    isAscii (entry.map toAsciiLowercase) = true := by
  simp only [isAscii,List.all_eq_true,decide_eq_true_eq,List.mem_map] at plain ⊢
  rintro _ ⟨byte,member,rfl⟩
  have low := plain byte member
  unfold toAsciiLowercase
  split
  next upper =>
    have bound := UInt8.le_iff_toNat_le.mp upper.2
    rw [UInt8.lt_iff_toNat_lt,UInt8.toNat_add]
    simp only [UInt8.reduceToNat] at bound ⊢
    omega
  next => exact low

theorem firstOccurrence_leftmost {path entry : Bytes} {start : Nat} (plain : isAscii entry = true)
    (found : firstOccurrence path (entry.map toAsciiLowercase) = some start) :
    Leftmost path entry (path.take start) ((path.drop start).take entry.length)
      ((path.drop start).drop entry.length) := by
  have folded := lowercase_ascii plain
  obtain ⟨inside,spells⟩ := firstOccurrence_some folded found
  rw [List.length_map] at inside spells
  refine ⟨?_,spells,?_,?_⟩
  · rw [List.append_assoc,List.take_append_drop,List.take_append_drop]
  · intro byte member
    have low : toAsciiLowercase byte ∈ entry.map toAsciiLowercase := spells ▸ List.mem_map_of_mem member
    simp only [isAscii,List.all_eq_true,decide_eq_true_eq] at folded
    exact toAsciiLowercase_ascii (folded _ low)
  · intro earlier other later split same
    unfold firstOccurrence at found
    split at found
    · contradiction
    next fits =>
      obtain ⟨_,_,before⟩ := List.find?_range_eq_some.mp found
      by_contra late
      have size : other.length = entry.length := by simpa using congrArg List.length same
      have matched : occursAt path (entry.map toAsciiLowercase) earlier.length = true := by
        refine (occursAt_iff ?_ folded).mpr ?_
        · simp [split,size]
        · rw [split,List.append_assoc,List.drop_left,List.length_map,← size,List.take_left]
          exact same
      have unmatched := before earlier.length (by rw [List.length_take] at late; omega)
      simp [matched] at unmatched

/-- What one entry contributes to the search. -/
def spelled (path entry : Bytes) : Option Nat :=
  (firstOccurrence path (entry.map toAsciiLowercase)).map (· + entry.length)

theorem spelled_none {path entry : Bytes} (plain : isAscii entry = true) :
    spelled path entry = none ↔ (entry ≠ [] → ¬Occurs path (entry.map toAsciiLowercase)) := by
  rw [spelled,Option.map_eq_none_iff]
  by_cases empty : entry = []
  · simp [empty,firstOccurrence]
  · have named : entry.map toAsciiLowercase ≠ [] := by simpa using empty
    rw [firstOccurrence_none (lowercase_ascii plain) named]
    simp [empty]

theorem spelled_some {path entry : Bytes} {stop : Nat} (plain : isAscii entry = true) (found : spelled path entry = some stop) :
    entry ≠ [] ∧ stop ≤ path.length ∧ ∃ front window back, Leftmost path entry front window back ∧ stop = (front ++ window).length := by
  obtain ⟨start,first,rfl⟩ := Option.map_eq_some_iff.mp found
  have inside := (firstOccurrence_some (lowercase_ascii plain) first).1
  rw [List.length_map] at inside
  refine ⟨?_,inside,_,_,_,firstOccurrence_leftmost plain first,?_⟩
  · rintro rfl
    simp [firstOccurrence] at first
  · simp only [List.length_append,List.length_take,List.length_drop]
    omega

theorem splitPos_spelled {raw : List Bytes} {split : SplitPath} (accepted : SplitPath.new raw = .ok split) (path : Bytes) :
    splitPos path split.entries = some (if raw = [] then 0 else ((raw.findSome? (spelled path)).map Int.ofNat).getD (-1)) := by
  obtain ⟨same,_⟩ := normalizeSplitPath_ok (new_ok accepted)
  have spells : (fun entry : Bytes => (firstOccurrence path entry).map (· + entry.length)) ∘ List.map toAsciiLowercase =
      spelled path := by
    funext entry
    simp [spelled]
  rw [splitPos_eq,same,List.findSome?_map,spells]
  simp only [List.map_eq_nil_iff]
  cases raw.findSome? (spelled path) <;> rfl

theorem splitCgiPath_cut {split : SplitPath} {path : Bytes} {stop : Nat} (documentRoot : Bytes)
    (found : splitPos path split.entries = some (stop : Int)) (inside : stop ≤ path.length) :
    ∃ paths, splitCgiPath documentRoot (some split) path = some paths ∧ paths.docUri ++ paths.pathInfo = path ∧
      paths.scriptName = ensureLeadingSlash paths.docUri := by
  obtain ⟨filename,joined⟩ : ∃ filename, sanitizedPathJoin documentRoot (ensureLeadingSlash (path.take stop)) = some filename := by
    obtain ⟨base,joined,_⟩ := sanitizedPathJoin_total documentRoot (ensureLeadingSlash (path.take stop))
    exact ⟨_,joined⟩
  have front : slice path 0 stop = some (path.take stop) := slice_eq (Nat.zero_le _) inside
  have back : slice path stop path.length = some (path.drop stop) := by
    rw [slice_eq inside (Nat.le_refl _),List.take_of_length_le (by simp)]
  have suffix : stripSuffix path (path.drop stop) = some (path.take stop) := by
    have tail : (path.drop stop).isSuffixOf path = true := List.isSuffixOf_iff_suffix.mpr (List.drop_suffix _ _)
    rw [stripSuffix,if_pos tail,List.length_drop,Nat.sub_sub_self inside]
  have known : (stop : Int) ≥ 0 := Int.natCast_nonneg _
  refine ⟨⟨path.take stop,path.drop stop,ensureLeadingSlash (path.take stop),filename⟩,?_,List.take_append_drop ..,rfl⟩
  simp only [splitCgiPath,Option.map_some,Option.getD_some,found,bind,Option.bind,known,if_true,Int.toNat_natCast,
    front,back,pure,suffix,joined]

theorem splitCgiPath_missed {split : SplitPath} {path : Bytes} (documentRoot : Bytes)
    (missed : splitPos path split.entries = some (-1)) :
    ∃ paths, splitCgiPath documentRoot (some split) path = some paths := by
  obtain ⟨filename,joined⟩ : ∃ filename, sanitizedPathJoin documentRoot (ensureLeadingSlash path) = some filename := by
    obtain ⟨base,joined,_⟩ := sanitizedPathJoin_total documentRoot (ensureLeadingSlash path)
    exact ⟨_,joined⟩
  have suffix : stripSuffix path [] = some path := by simp [stripSuffix]
  refine ⟨⟨[],[],ensureLeadingSlash path,filename⟩,?_⟩
  simp only [splitCgiPath,Option.map_some,Option.getD_some,missed,bind,Option.bind,pure,suffix,joined]
  rfl

/-- The search is exact for every accepted list, and where it finds an end the path is cut there. -/
theorem splitPos_leftmost {raw : List Bytes} {split : SplitPath} (accepted : SplitPath.new raw = .ok split)
    (documentRoot path : Bytes) :
    ∃ position paths, splitPos path split.entries = some position ∧ splitCgiPath documentRoot (some split) path = some paths ∧
      (position = 0 ↔ raw = []) ∧
      (position = -1 ↔ raw ≠ [] ∧ ∀ entry ∈ raw, entry ≠ [] → ¬Occurs path (entry.map toAsciiLowercase)) ∧
      (∀ before entry after, raw = before ++ entry :: after → entry ≠ [] → Occurs path (entry.map toAsciiLowercase) →
        (∀ other ∈ before, other ≠ [] → ¬Occurs path (other.map toAsciiLowercase)) →
        ∃ front window back, Leftmost path entry front window back ∧ position = (front ++ window).length) ∧
      (0 ≤ position → paths.docUri ++ paths.pathInfo = path ∧ paths.scriptName = ensureLeadingSlash paths.docUri) := by
  obtain ⟨_,plain⟩ := normalizeSplitPath_ok (new_ok accepted)
  have position := splitPos_spelled accepted path
  by_cases empty : raw = []
  · subst empty
    have first : splitPos path split.entries = some ((0 : Nat) : Int) := position
    obtain ⟨paths,cut,parts⟩ := splitCgiPath_cut documentRoot first (Nat.zero_le _)
    exact ⟨0,paths,position,cut,by simp,by simp,by simp,fun _ => parts⟩
  · rw [if_neg empty] at position
    cases found : raw.findSome? (spelled path) with
    | none =>
      rw [found] at position
      have absent : ∀ entry ∈ raw, entry ≠ [] → ¬Occurs path (entry.map toAsciiLowercase) := by
        intro entry member
        exact (spelled_none (plain entry member)).mp (List.findSome?_eq_none_iff.mp found entry member)
      obtain ⟨paths,cut⟩ := splitCgiPath_missed documentRoot position
      refine ⟨-1,paths,position,cut,by simp [empty],⟨fun _ => ⟨empty,absent⟩,fun _ => rfl⟩,?_,by simp⟩
      rintro before entry after rfl named occurs
      exact absurd occurs (absent entry (by simp) named)
    | some stop =>
      rw [found] at position
      obtain ⟨before,entry,after,split,spells,_⟩ := List.findSome?_eq_some_iff.mp found
      have member : entry ∈ raw := by simp [split]
      obtain ⟨named,inside,front,window,back,leftmost,stops⟩ := spelled_some (plain entry member) spells
      have positive : stop ≠ 0 := by
        have size : window.length = entry.length := by simpa using congrArg List.length leftmost.spells
        have some_entry := List.length_pos_iff.mpr named
        rw [stops,List.length_append]
        omega
      obtain ⟨paths,cut,parts⟩ := splitCgiPath_cut documentRoot position inside
      refine ⟨stop,paths,position,cut,by simp [positive,empty],⟨nofun,?_⟩,?_,fun _ => parts⟩
      · rintro ⟨_,absent⟩
        have none := (spelled_none (plain entry member)).mpr (absent entry member)
        rw [none] at spells
        contradiction
      · -- whichever way the list is cut, its first entry that occurs is the one found
        rintro before entry after rfl named occurs missed
        have earlier : before.findSome? (spelled path) = none :=
          List.findSome?_eq_none_iff.mpr fun other member =>
            (spelled_none (plain other (by simp [member]))).mpr (missed other member)
        cases spells : spelled path entry with
        | none => exact absurd occurs ((spelled_none (plain entry (by simp))).mp spells named)
        | some stop =>
          rw [List.findSome?_append,earlier,Option.none_or,List.findSome?_cons,spells] at found
          cases found
          obtain ⟨_,_,front,window,back,leftmost,stops⟩ := spelled_some (plain entry (by simp)) spells
          exact ⟨front,window,back,leftmost,congrArg Int.ofNat stops⟩

theorem splitPos_leftmost_second : ∃ split, SplitPath.new [ascii ".phtml",ascii ".PHP"] = .ok split ∧
    ∃ position paths, splitPos (ascii "/a.Php/b") split.entries = some position ∧
      splitCgiPath [] (some split) (ascii "/a.Php/b") = some paths ∧
      ∃ front window back, Leftmost (ascii "/a.Php/b") (ascii ".PHP") front window back ∧
        position = (front ++ window).length := by
  have normalized : normalizeSplitPath [ascii ".phtml",ascii ".PHP"] = .ok [ascii ".phtml",ascii ".php"] := rfl
  have accepted : SplitPath.new [ascii ".phtml",ascii ".PHP"] = .ok ⟨[ascii ".phtml",ascii ".php"],_,normalized⟩ := rfl
  obtain ⟨position,paths,found,cut,_,_,leftmost,_⟩ := splitPos_leftmost accepted [] (ascii "/a.Php/b")
  refine ⟨_,accepted,position,paths,found,cut,leftmost [ascii ".phtml"] _ [] rfl (by decide) ?_ ?_⟩
  · exact ⟨ascii "/a",ascii ".Php",ascii "/b",by decide,by decide⟩
  · intro other member _
    rw [List.mem_singleton.mp member,← firstOccurrence_none (by decide) (by decide)]
    decide

end Frankenrust.Cgi
