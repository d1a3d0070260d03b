import Frankenrust.Cgi.CleanPath

/-! The document-root join, `sanitized_path_join` of `cgi.rs`. Two cleaning
passes are composed; the second one runs over the root and the cleaned request
together, so confinement needs that the first leaves nothing that climbs. -/
namespace Frankenrust.Cgi
open Segments

def joinWithSlash (front back : Bytes) : Bytes := front ++ slash :: back

def sanitizedPathJoin (root reqPath : Bytes) : Option Bytes := do
  let root := if root = [] then [dot] else root
  let cleanedRequest ← cleanPath (joinWithSlash [] reqPath)
  let joined ← cleanPath (joinWithSlash root cleanedRequest)
  return if reqPath.length > 1 ∧ reqPath.getLast? = some slash then joined ++ [slash] else joined

/-- The components which a request path denotes below the root: it is resolved
against `/`, so `..` removes request components only. -/
def requestComponents (reqPath : Bytes) : List Bytes :=
  resolve [dot,dot] true (pathComponents reqPath)

theorem requestComponents_good {reqPath piece : Bytes} (member : piece ∈ requestComponents reqPath) :
    piece ≠ [] ∧ piece ≠ [dot] ∧ piece ≠ [dot,dot] ∧ slash ∉ piece := by
  have climbs : piece ≠ [dot,dot] := fun same => resolve_rooted (pathComponents reqPath) (same ▸ member)
  rcases mem_resolve _ _ _ member with none | found
  · simp at none
  · exact ⟨(mem_components found).1,(mem_components found).2,climbs,components_plain found⟩

theorem lexical_request (reqPath : Bytes) :
    lexical (joinWithSlash [] reqPath) = requestComponents reqPath := by
  have skipped : pathComponents (slash :: reqPath) = pathComponents reqPath := components_sep reqPath
  simp [lexical,requestComponents,joinWithSlash,absolute,skipped]

theorem lexical_join (root below : Bytes) (nonempty : root ≠ [])
    (descends : [dot,dot] ∉ pathComponents below) :
    lexical (joinWithSlash root below) = lexical root ++ pathComponents below := by
  have same : absolute (joinWithSlash root below) = absolute root := by
    obtain ⟨byte,rest,rfl⟩ := List.exists_cons_of_ne_nil nonempty
    rfl
  have split : pathComponents (joinWithSlash root below) = pathComponents root ++ pathComponents below :=
    components_append root below
  rw [lexical,same,split,resolve_append _ _ descends]
  rfl

theorem sanitizedPathJoin_total (root reqPath : Bytes) :
    ∃ base, sanitizedPathJoin root reqPath = some
        (base ++ if reqPath.length > 1 ∧ reqPath.getLast? = some slash then [slash] else []) ∧
      ∃ request, cleanPath (joinWithSlash [] reqPath) = some request ∧
        cleanPath (joinWithSlash (if root = [] then [dot] else root) request) = some base := by
  obtain ⟨request,cleaned⟩ : ∃ request, cleanPath (joinWithSlash [] reqPath) = some request :=
    ⟨_,cleanPath_eq _⟩
  obtain ⟨base,joined⟩ : ∃ base,
      cleanPath (joinWithSlash (if root = [] then [dot] else root) request) = some base :=
    ⟨_,cleanPath_eq _⟩
  refine ⟨base,?_,request,cleaned,joined⟩
  simp only [sanitizedPathJoin,cleaned,joined,bind,Option.bind]
  split <;> simp [pure]

theorem mem_sanitizedPathJoin {root reqPath joined : Bytes} {byte : UInt8}
    (ok : sanitizedPathJoin root reqPath = some joined) (member : byte ∈ joined) :
    byte ∈ root ∨ byte ∈ reqPath ∨ byte = slash ∨ byte = dot := by
  obtain ⟨base,shape,request,cleaned,both⟩ := sanitizedPathJoin_total root reqPath
  rw [shape,Option.some.injEq] at ok
  rw [← ok] at member
  rcases List.mem_append.mp member with inside | trailing
  · rcases mem_cleanPath both inside with found | same
    · rcases List.mem_append.mp found with front | back
      · split at front
        · exact .inr (.inr (.inr (by simpa using front)))
        · exact .inl front
      · rcases List.mem_cons.mp back with separator | requested
        · exact .inr (.inr (.inl separator))
        · rcases mem_cleanPath cleaned requested with original | same
          · rcases List.mem_cons.mp original with separator | kept
            · exact .inr (.inr (.inl separator))
            · exact .inr (.inl kept)
          · exact .inr (.inr same)
    · exact .inr (.inr same)
  · split at trailing
    · exact .inr (.inr (.inl (by simpa using trailing)))
    · simp at trailing

/-- Document-root confinement: whatever the request path, the joined path is the
cleaned root followed by components that only descend. -/
theorem sanitizedPathJoin_confined (root reqPath : Bytes) :
    ∃ cleanedRoot base joined,
      cleanPath (if root = [] then [dot] else root) = some cleanedRoot ∧
      pathComponents cleanedRoot = lexical (if root = [] then [dot] else root) ∧
      sanitizedPathJoin root reqPath = some joined ∧
      pathComponents joined = pathComponents cleanedRoot ++ requestComponents reqPath ∧
      (∀ piece ∈ requestComponents reqPath,
        piece ≠ [] ∧ piece ≠ [dot] ∧ piece ≠ [dot,dot] ∧ slash ∉ piece) ∧
      absolute joined = absolute root ∧
      joined = base ++ (if reqPath.length > 1 ∧ reqPath.getLast? = some slash then [slash] else []) ∧
      (base = render slash (absolute root) (pathComponents cleanedRoot ++ requestComponents reqPath) ∨
        base = [dot] ∧ absolute root = false ∧
          pathComponents cleanedRoot ++ requestComponents reqPath = []) := by
  obtain ⟨base,joined,request,cleaned,both⟩ := sanitizedPathJoin_total root reqPath
  obtain ⟨cleanedRoot,rooted⟩ : ∃ cleanedRoot,
      cleanPath (if root = [] then [dot] else root) = some cleanedRoot := ⟨_,cleanPath_eq _⟩
  have nonempty : (if root = [] then [dot] else root) ≠ [] := by
    split
    · simp
    · assumption
  have below : pathComponents request = requestComponents reqPath :=
    (cleanPath_lexical cleaned).1.trans (lexical_request reqPath)
  have descends : [dot,dot] ∉ pathComponents request := by
    rw [below]
    exact resolve_rooted _
  have front := (cleanPath_lexical rooted).1
  have whole : pathComponents base = pathComponents cleanedRoot ++ requestComponents reqPath := by
    rw [(cleanPath_lexical both).1,lexical_join _ _ nonempty descends,front,below]
  have start : absolute base = absolute root := by
    rw [(cleanPath_lexical both).2]
    cases root with
    | nil => rfl
    | cons byte rest => rfl
  refine ⟨cleanedRoot,base,_,rooted,front,joined,?_,fun _ => requestComponents_good,?_,rfl,?_⟩
  · split
    · have trailing : pathComponents (base ++ [slash]) = pathComponents base ++ pathComponents [] :=
        components_append base []
      rw [trailing,whole]
      simp [pathComponents]
    · rw [List.append_nil,whole]
  · rw [← start]
    obtain ⟨byte,rest,rfl⟩ := List.exists_cons_of_ne_nil (cleanPath_ne_nil both)
    rfl
  · rw [← start,← whole]
    exact cleanPath_render both

example : sanitizedPathJoin (ascii "srv/..") (ascii "/../../etc//./passwd/") =
    some (ascii "etc/passwd/") := by decide

end Frankenrust.Cgi
