import Frankenrust.Cgi.SplitPath
import Frankenrust.Context.RequestContext
import Frankenrust.Server.Request

/-! The path pipeline of `server.rs`: decoding, the directory-index rewrite, the CGI
split and the validation which `handle` runs before it dispatches a request. -/
namespace Frankenrust.Server
open Context Cgi

def indexName : Bytes := ascii "index.php"

def resolveDirectoryIndex (path : Bytes) : Option Bytes := do
  if path.getLast? = some slash then
    if (← splitPos path [ascii ".php"]) < 0 then return path ++ indexName else return path
  else return path

def splitContext (documentRoot : Bytes) (coreRequest : Request) (paths : CgiPaths) : RequestContext :=
  { RequestContext.new (Utf8.lossy documentRoot) none (some coreRequest) .pending with
    docUri := paths.docUri
    pathInfo := paths.pathInfo
    scriptName := paths.scriptName
    scriptFilename := paths.scriptFilename }

/-- `handle` up to the dispatch: the context a PHP thread receives, or the rejection. -/
def handleContext (documentRoot : Bytes) (parts : Parts) (body remoteAddr : Bytes) :
    Option (Except RejectedRequest RequestContext) := do
  let coreRequest := buildRequest parts body remoteAddr
  let coreRequest := { coreRequest with path := ← resolveDirectoryIndex coreRequest.path }
  let paths ← splitCgiPath documentRoot none coreRequest.path
  let ctx := splitContext documentRoot coreRequest paths
  match ctx.validate with
  | .error rejected => return .error rejected
  | .ok () => return .ok { ctx with responseSink := true }

def Rewritten (decoded : Bytes) : Prop :=
  decoded.getLast? = some slash ∧ ¬Occurs decoded (ascii ".php")

instance (decoded : Bytes) : Decidable (Rewritten decoded) :=
  decidable_of_iff (decoded.getLast? = some slash ∧ firstOccurrence decoded (ascii ".php") = none)
    (and_congr_right fun _ => firstOccurrence_none (by decide) (by decide))

theorem resolveDirectoryIndex_eq (path : Bytes) :
    resolveDirectoryIndex path = some (if Rewritten path then path ++ indexName else path) := by
  have missed : firstOccurrence path (ascii ".php") = none ↔ _ := firstOccurrence_none (by decide) (by decide)
  unfold resolveDirectoryIndex
  rw [splitPos_php]
  split
  next directory =>
    cases found : firstOccurrence path (ascii ".php") with
    | none =>
      have fires : Rewritten path := ⟨directory,missed.mp found⟩
      simp [fires]
    | some start =>
      have kept : ¬Rewritten path := fun fires => by simpa [found] using missed.mpr fires.2
      have forward : ¬((start : Int) + 4 < 0) := by omega
      simp [kept,forward]
  next file =>
    have kept : ¬Rewritten path := fun fires => file fires.1
    simp [kept]

theorem percentDecode_started {path : Bytes} (started : path.head? = some slash) :
    (percentDecode path).head? = some slash := by
  obtain ⟨rest,rfl⟩ : ∃ rest, path = slash :: rest := by
    cases path with
    | nil => simp at started
    | cons byte rest => exact ⟨rest,by simpa using started⟩
  have plain : slash ≠ percent := by decide
  cases rest with
  | nil => rfl
  | cons first rest =>
    cases rest with
    | nil => rfl
    | cons second rest => simp [percentDecode,plain]

theorem rewritten_window {decoded : Bytes} (rewritten : Rewritten decoded) {start : Nat}
    (inside : start + 4 ≤ (decoded ++ indexName).length)
    (matched : (((decoded ++ indexName).drop start).take 4).map toAsciiLowercase = ascii ".php") :
    start = decoded.length + 5 := by
  have at_offset (offset : Nat) (small : offset < 4) :
      ((decoded ++ indexName)[start + offset]?).map toAsciiLowercase = (ascii ".php")[offset]? := by
    rw [← matched,List.getElem?_map,List.getElem?_take_of_lt small,List.getElem?_drop]
  have size : indexName.length = 9 := rfl
  rw [List.length_append,size] at inside
  rcases Nat.lt_or_ge start decoded.length with early | late
  · exfalso
    rcases Nat.lt_or_ge decoded.length (start + 4) with across | within
    · -- the window covers the slash in front of the index name
      have separator : ∀ offset < 4, (some slash).map toAsciiLowercase ≠ (ascii ".php")[offset]? := by decide
      obtain ⟨offset,reach⟩ := Nat.exists_eq_add_of_le (Nat.le_sub_one_of_lt early)
      have last := rewritten.1
      rw [List.getLast?_eq_getElem?,reach] at last
      have covered := at_offset offset (by omega)
      rw [List.getElem?_append_left (by omega),last] at covered
      exact separator offset (by omega) covered
    · apply rewritten.2
      apply occurs_of_window start
      rwa [List.drop_append_of_le_length early.le,List.take_append_of_le_length] at matched
      rw [List.length_drop]
      exact Nat.le_sub_of_add_le' within
  · have named : ∀ offset ≤ 5, (indexName[offset]?).map toAsciiLowercase = (ascii ".php")[0]? → offset = 5 := by
      decide
    obtain ⟨offset,rfl⟩ := Nat.exists_eq_add_of_le late
    have first := at_offset 0 (by decide)
    rw [Nat.add_zero,List.getElem?_append_right late,Nat.add_sub_cancel_left] at first
    rw [named offset (by omega) first]

theorem rewritten_occurrence {decoded : Bytes} (rewritten : Rewritten decoded) :
    firstOccurrence (decoded ++ indexName) (ascii ".php") = some (decoded.length + 5) := by
  cases found : firstOccurrence (decoded ++ indexName) (ascii ".php") with
  | none =>
    have absent := (firstOccurrence_none (by decide) (by decide)).mp found
    exact absurd ⟨decoded ++ ascii "index",ascii ".php",[],by simp [indexName]; decide,by decide⟩ absent
  | some start =>
    have window := firstOccurrence_some (by decide) found
    rw [rewritten_window rewritten window.1 window.2]

theorem accepted_path {request : Request} (ok : validateRequest request = .ok ()) : nul ∉ request.path := by
  intro member
  simp [validateRequest,member] at ok

theorem handleContext_eq {documentRoot : Bytes} {parts : Parts} (body remoteAddr : Bytes) {path : Bytes}
    {paths : CgiPaths} (resolved : resolveDirectoryIndex (percentDecode parts.path) = some path)
    (split : splitCgiPath documentRoot none path = some paths) :
    ∃ request outcome, request.path = path ∧
      handleContext documentRoot parts body remoteAddr = some outcome ∧
      ∀ ctx, outcome = .ok ctx → validateRequest request = .ok () ∧
        ctx = { splitContext documentRoot request paths with responseSink := true } := by
  have decoded : resolveDirectoryIndex (buildRequest parts body remoteAddr).path = some path := resolved
  refine ⟨{ buildRequest parts body remoteAddr with path },?_⟩
  generalize fixed : ({ buildRequest parts body remoteAddr with path } : Request) = request
  have validated : (splitContext documentRoot request paths).validate = validateRequest request := rfl
  have handled : handleContext documentRoot parts body remoteAddr =
      match validateRequest request with
      | .error rejected => some (.error rejected)
      | .ok () => some (.ok { splitContext documentRoot request paths with responseSink := true }) := by
    simp only [handleContext,decoded,split,fixed,validated,bind,Option.bind]
    rfl
  have path_of : request.path = path := by rw [← fixed]
  rw [handled]
  cases valid : validateRequest request with
  | error rejected => exact ⟨_,path_of,rfl,fun ctx ok => by contradiction⟩
  | ok _ => exact ⟨_,path_of,rfl,fun ctx ok => ⟨rfl,(Except.ok.inj ok).symm⟩⟩

theorem nul_sanitizedPathJoin {root reqPath joined : Bytes} (ok : sanitizedPathJoin root reqPath = some joined)
    (front : nul ∉ root) (back : nul ∉ reqPath) : nul ∉ joined := by
  intro member
  rcases mem_sanitizedPathJoin ok member with found | found | found | found
  · exact front found
  · exact back found
  · exact absurd found (by decide)
  · exact absurd found (by decide)

/-- The whole pipeline: every path variable of an accepted request is free of NUL and
so reaches C in full, script name and path info are the rewritten path cut in two,
and the path info comes from the client alone. -/
theorem handleContext_paths (documentRoot : Bytes) (parts : Parts) (body remoteAddr : Bytes)
    (clean : nul ∉ documentRoot) (started : parts.path.head? = some slash) :
    ∃ outcome, handleContext documentRoot parts body remoteAddr = some outcome ∧
      ∀ ctx, outcome = .ok ctx →
        ∃ request translated published,
          ctx.request = some request ∧
          sanitizedPathJoin documentRoot ctx.pathInfo = some translated ∧
          sanitizedPathJoin ctx.documentRoot ctx.pathInfo = some published ∧
          (∀ text ∈ [ctx.scriptName,ctx.pathInfo,ctx.docUri,ctx.scriptFilename,translated,published],
            nul ∉ text) ∧
          ctx.scriptName ++ ctx.pathInfo = request.path ∧
          request.path = (if Rewritten (percentDecode parts.path) then
            percentDecode parts.path ++ indexName else percentDecode parts.path) ∧
          (Rewritten (percentDecode parts.path) →
            ctx.docUri = request.path ∧ ctx.scriptName = request.path ∧ ctx.pathInfo = []) ∧
          ctx.pathInfo <:+ percentDecode parts.path := by
  generalize same : percentDecode parts.path = decoded
  have rooted : decoded.head? = some slash := same ▸ percentDecode_started started
  have resolved := resolveDirectoryIndex_eq decoded
  generalize named : (if Rewritten decoded then decoded ++ indexName else decoded) = path at resolved ⊢
  have path_started : path.head? = some slash := by
    rw [← named]
    split
    · rw [List.head?_append,rooted]
      rfl
    · exact rooted
  obtain ⟨paths,stop,split,inside,script,info,filename,position⟩ :=
    splitCgiPath_default documentRoot path path_started
  obtain ⟨request,outcome,path_of,handled,accepted⟩ :=
    handleContext_eq body remoteAddr (same ▸ resolved) split
  refine ⟨outcome,handled,?_⟩
  intro ctx ok
  obtain ⟨valid,rfl⟩ := accepted ctx ok
  obtain ⟨_,translated,_⟩ := sanitizedPathJoin_total documentRoot paths.pathInfo
  obtain ⟨_,published,_⟩ := sanitizedPathJoin_total (Utf8.lossy documentRoot) paths.pathInfo
  have whole : paths.scriptName ++ paths.pathInfo = path := by
    rw [script,info,List.take_append_drop]
  have free := accepted_path valid
  rw [path_of,← whole,List.mem_append,not_or] at free
  have clean_lossy : nul ∉ Utf8.lossy documentRoot := by
    intro member
    rcases Utf8.mem_lossy member with found | found
    · exact clean found
    · exact absurd found (by decide)
  have doc_cases : paths.docUri = paths.scriptName ∨ paths.docUri = [] := by
    split at position
    · exact .inl position.2
    · exact .inr position.2
  have at_end (rewritten : Rewritten decoded) : stop = path.length ∧ paths.docUri = paths.scriptName := by
    rw [if_pos rewritten] at named
    rw [← named,rewritten_occurrence rewritten] at position
    exact ⟨by simp [position.1,← named,indexName,ascii],position.2⟩
  refine ⟨request,_,_,rfl,translated,published,?_,whole.trans path_of.symm,path_of,?_,?_⟩
  · intro text member
    simp only [List.mem_cons,List.not_mem_nil,or_false] at member
    rcases member with rfl | rfl | rfl | rfl | rfl | rfl
    · exact free.1
    · exact free.2
    · change nul ∉ paths.docUri
      rcases doc_cases with same | same
      · exact same.symm ▸ free.1
      · simp [same]
    · exact nul_sanitizedPathJoin filename clean free.1
    · exact nul_sanitizedPathJoin translated clean free.2
    · exact nul_sanitizedPathJoin published clean_lossy free.2
  · intro rewritten
    obtain ⟨all,doc⟩ := at_end rewritten
    rw [all,List.take_length] at script
    rw [all,List.drop_length] at info
    exact ⟨doc.trans (script.trans path_of.symm),script.trans path_of.symm,info⟩
  · change paths.pathInfo <:+ decoded
    rw [info]
    by_cases rewritten : Rewritten decoded
    · rw [(at_end rewritten).1,List.drop_length]
      exact List.nil_suffix
    · rw [if_neg rewritten] at named
      exact named ▸ List.drop_suffix _ _

/-- A directory request whose slash is escaped: the index name is appended. -/
theorem handleContext_paths_directory :
    ∃ ctx, handleContext (ascii "/srv") ⟨ascii "GET",ascii "/blog%2F",none,none,.http11,[]⟩ [] [] =
        some (.ok ctx) ∧
      ctx.scriptName = ascii "/blog/index.php" ∧ ctx.pathInfo <:+ ascii "/blog/" := by
  obtain ⟨outcome,handled,paths⟩ := handleContext_paths (ascii "/srv")
    ⟨ascii "GET",ascii "/blog%2F",none,none,.http11,[]⟩ [] [] (by decide) (by decide)
  have script : (handleContext (ascii "/srv") ⟨ascii "GET",ascii "/blog%2F",none,none,.http11,[]⟩ [] []).bind
      (fun outcome => outcome.toOption.map RequestContext.scriptName) = some (ascii "/blog/index.php") := by
    decide
  rw [handled] at script
  cases outcome with
  | error rejected => contradiction
  | ok ctx =>
    obtain ⟨request,_,_,_,_,_,_,_,_,_,suffix⟩ := paths ctx rfl
    exact ⟨ctx,handled,Option.some.inj script,suffix⟩

end Frankenrust.Server
