import Frankenrust.Callbacks.Registration
import Frankenrust.Cgi.PathJoin

/-! The whole of `$_SERVER`: the batch and, over it, what is in `SG(request_info)`. A header of
the request shows in its own variable and, for four names, in the ones that are made from it. -/
namespace Frankenrust.Callbacks
open Context Cgi

/-- `sapi_request_info`, with the bytes before the terminator of what a field points at. -/
structure RequestInfo where
  requestMethod : Option Bytes
  queryString : Option Bytes
  contentType : Option Bytes
  pathTranslated : Option Bytes
  requestUri : Option Bytes
  authUser : Option Bytes
  contentLength : Int
  protoNum : Nat
  deriving DecidableEq

def filled (value : Option Bytes) : Option Bytes := value.filter fun bytes => !bytes.isEmpty

/-- Returns the `Authorization` header; a field without a value keeps its pointer. The outer
option fails where a slice of the join would be out of bounds. -/
def updateRequestInfo (ctx : RequestContext) (info : RequestInfo) : Option (RequestInfo × Option Bytes) :=
  match ctx.request with
  | none => some (info,none)
  | some request => do
    let contentType := filled (request.headers.getFirst (ascii "Content-Type"))
    let authorization := filled (request.headers.getFirst (ascii "Authorization"))
    let pathTranslated ←
      if ctx.pathInfo.isEmpty then some none else (sanitizedPathJoin ctx.documentRoot ctx.pathInfo).map some
    return ({ info with
      requestMethod := some request.method
      queryString := some request.query
      contentLength := request.contentLength
      contentType := contentType.or info.contentType
      pathTranslated := pathTranslated.or info.pathTranslated
      requestUri := some ctx.requestUri
      protoNum := request.protoMajor * 1000 + request.protoMinor },authorization)

/-- `frankenphp_update_request_context`; `phpHandleAuthData` gives the user that PHP decodes. -/
def updateRequestContext (phpHandleAuthData : Option Bytes → Option Bytes) (ctx : RequestContext) (info : RequestInfo) :
    Option RequestInfo :=
  (updateRequestInfo ctx info).map fun updated => { updated.1 with authUser := phpHandleAuthData updated.2 }

/-- What `strlen` takes of a string. -/
def cText (bytes : Bytes) : Bytes := bytes.takeWhile (· != nul)

def registerFromRequestInfo (key : Bytes) (value : Option Bytes) (mustBePresent : Bool) (table : TrackVars) : TrackVars :=
  match value with
  | some value => Dict.set key (cText value) table
  | none => if mustBePresent then Dict.set key [] table else table

def registerVariablesFromRequestInfo (info : RequestInfo) (table : TrackVars) : TrackVars :=
  let table := registerFromRequestInfo (ascii "CONTENT_TYPE") info.contentType true table
  let table := registerFromRequestInfo (ascii "PATH_TRANSLATED") info.pathTranslated false table
  let table := registerFromRequestInfo (ascii "QUERY_STRING") info.queryString true table
  let table := registerFromRequestInfo (ascii "REMOTE_USER") info.authUser false table
  registerFromRequestInfo (ascii "REQUEST_METHOD") info.requestMethod false table

section Variables
variable (mainThreadEnv : List (Bytes × Bytes)) (phpRegisterVariableSafe : Bytes → Bytes → TrackVars → TrackVars)
  (phpHandleAuthData : Option Bytes → Option Bytes)

/-- `frankenphp_register_variables`. -/
def registerVariables (ctx : RequestContext) (info : RequestInfo) (table : TrackVars) : Option TrackVars :=
  (goRegisterServerVariables mainThreadEnv phpRegisterVariableSafe ctx table).map (registerVariablesFromRequestInfo info)

/-- What a request finds in `$_SERVER`, from what `SG(request_info)` and the array hold before it. -/
def serverVariables (ctx : RequestContext) (info : RequestInfo) (table : TrackVars) : Option TrackVars := do
  registerVariables mainThreadEnv phpRegisterVariableSafe ctx (← updateRequestContext phpHandleAuthData ctx info) table

end Variables

/-- The entries that the fields make. -/
def RequestInfo.variables (info : RequestInfo) : List (Bytes × Bytes) :=
  [(ascii "CONTENT_TYPE",(info.contentType.map cText).getD [])] ++
    (info.pathTranslated.map fun path => (ascii "PATH_TRANSLATED",cText path)).toList ++
    [(ascii "QUERY_STRING",(info.queryString.map cText).getD [])] ++
    (info.authUser.map fun user => (ascii "REMOTE_USER",cText user)).toList ++
    (info.requestMethod.map fun method => (ascii "REQUEST_METHOD",cText method)).toList

/-- The name under which PHP finds a header. -/
def headerVariable (name : Bytes) : Bytes := (mangleHeaderName name).map variableByte

def headerVariables (headers : List (Bytes × Bytes)) : List (Bytes × Bytes) :=
  (canonicalNames headers).map fun name => (headerVariable name,joinHeaderValues (insertedValues headers name))

theorem setAll_append (front back table : TrackVars) : Dict.setAll (front ++ back) table = Dict.setAll back (Dict.setAll front table) :=
  List.foldl_append

theorem registerVariablesFromRequestInfo_eq (info : RequestInfo) (table : TrackVars) :
    registerVariablesFromRequestInfo info table = Dict.setAll info.variables table := by
  have always (key : Bytes) (value : Option Bytes) (table : TrackVars) :
      registerFromRequestInfo key value true table = Dict.setAll [(key,(value.map cText).getD [])] table := by
    cases value <;> rfl
  have present (key : Bytes) (value : Option Bytes) (table : TrackVars) :
      registerFromRequestInfo key value false table = Dict.setAll (value.map fun value => (key,cText value)).toList table := by
    cases value <;> rfl
  simp only [registerVariablesFromRequestInfo,RequestInfo.variables,always,present,setAll_append]

theorem updateRequestInfo_total (ctx : RequestContext) (info : RequestInfo) : ∃ updated, updateRequestInfo ctx info = some updated := by
  cases present : ctx.request with
  | none => simp [updateRequestInfo,present]
  | some request =>
    obtain ⟨base,joined,_⟩ := sanitizedPathJoin_total ctx.documentRoot ctx.pathInfo
    by_cases empty : ctx.pathInfo.isEmpty <;> simp [updateRequestInfo,present,empty,joined]

theorem commonHeaders_plain {entry : Bytes × Bytes} (member : entry ∈ commonHeaders) : entry.2.map variableByte = entry.2 := by
  have checked : (commonHeaderTexts.all fun texts => texts.2.toByteArray.data.toList.all (· < 0x80) &&
      texts.2.toByteArray.data.toList.map variableByte == texts.2.toByteArray.data.toList) = true := by decide
  obtain ⟨texts,inside,rfl⟩ := List.mem_map.mp member
  have entry := List.all_eq_true.mp checked texts inside
  simp only [Bool.and_eq_true,List.all_eq_true,decide_eq_true_eq,beq_iff_eq] at entry
  rw [ascii_eq entry.1,entry.2]

/-- The interned keys of a batch are of the table of common headers. -/
theorem interned_plain {ctx : RequestContext} {batch : ServerVarsBatch} (built : buildServerVarsBatch ctx = some (some batch))
    {header : HeaderVar} (member : header ∈ batch.headers) {key : InternedZendString} (known : header.knownKey = some key) :
    key.text.map variableByte = key.text := by
  obtain ⟨request,headers,passed,rfl⟩ : ∃ (request : Request) (headers : List HeaderVar), secondPass (firstPass request.headers.entries) = some headers ∧
      headers = batch.headers := by
    simp only [buildServerVarsBatch,Option.bind_eq_bind,Option.bind_eq_some_iff] at built
    obtain ⟨known,_,built⟩ := built
    split at built
    next computed present =>
      obtain ⟨headers,passed,same⟩ := Option.bind_eq_some_iff.mp built
      cases same
      exact ⟨_,headers,passed,rfl⟩
    next => cases built
  obtain ⟨all,found,count,positions⟩ := secondPass_aligned (aligned_firstPass request.headers.entries)
  cases passed.symm.trans found
  obtain ⟨index,inside,rfl⟩ := List.getElem_of_mem member
  obtain ⟨keyForm,keyed,descriptor⟩ := positions index _ _ (List.getElem?_eq_getElem (count ▸ inside)) (List.getElem?_eq_getElem inside)
  cases keyed with
  | mangled uncommon pushed =>
    rw [headerVar,if_pos (List.getElem?_eq_some_iff.mp pushed).1] at descriptor
    rw [← Option.some.inj descriptor] at known
    cases known
  | interned common =>
    rw [headerVar] at descriptor
    rw [← Option.some.inj descriptor] at known
    obtain ⟨entry,located,rfl⟩ := Option.map_eq_some_iff.mp common
    cases known
    exact commonHeaders_plain (List.mem_reverse.mp (List.mem_of_find?_eq_some located))

section Registering
variable {phpRegisterVariableSafe} (registers : Registers phpRegisterVariableSafe)
  {batch : ServerVarsBatch} {inserts : List (Bytes × Bytes)}
include registers

theorem registerHeader_variable {name : Bytes} {header : HeaderVar} (described : Describes batch inserts name header)
    (token : isToken name = true) (plain : ∀ key, header.knownKey = some key → key.text.map variableByte = key.text)
    (table : TrackVars) : registerHeader phpRegisterVariableSafe batch table header =
      some (Dict.set (headerVariable name) (joinHeaderValues (insertedValues inserts name)) table) := by
  cases form : header.knownKey with
  | some interned =>
    have text : interned.text = mangleHeaderName name := by simpa [ServerVarsBatch.keyText,form] using described.keyText
    have same : headerVariable name = mangleHeaderName name := by rw [headerVariable,← text,plain interned form]
    simp [registerHeader,described.keyText,described.value,form,same]
  | none =>
    have whole : 0x5b ∉ mangleHeaderName name := by
      rw [mangleHeaderName,List.mem_append,List.mem_map]
      rintro (front | ⟨byte,member,bracket⟩)
      · revert front
        decide
      · exact mangleByte_bracket byte (List.all_eq_true.mp (token_fields token) byte member) bracket
    have front : (mangleHeaderName name).head? = some 0x48 := rfl
    have set := registers (mangleHeaderName name) (joinHeaderValues (insertedValues inserts name)) table
      (by simp [mangleHeaderName,httpPrefix,ascii]) (by simp [front]) whole
    simp [registerHeader,described.keyText,described.value,form,set,headerVariable]

theorem registerHeaders_variables {names : List Bytes} {headers : List HeaderVar}
    (described : List.Forall₂ (Describes batch inserts) names headers) (tokens : ∀ name ∈ names, isToken name = true)
    (plain : ∀ header ∈ headers, ∀ key, header.knownKey = some key → key.text.map variableByte = key.text) (table : TrackVars) :
    headers.foldlM (registerHeader phpRegisterVariableSafe batch) table = some (Dict.setAll
      (names.map fun name => (headerVariable name,joinHeaderValues (insertedValues inserts name))) table) := by
  induction described generalizing table with
  | nil => rfl
  | @cons name header names headers first _ ih =>
    have step := registerHeader_variable registers first (tokens name (by simp)) (plain header (by simp)) table
    have rest := ih (fun other member => tokens other (List.mem_cons_of_mem _ member))
      (fun other member => plain other (List.mem_cons_of_mem _ member))
    rw [List.foldlM_cons,step,List.map_cons,Dict.setAll_cons]
    exact rest _

end Registering

theorem canonicalNames_token {headers : List (Bytes × Bytes)} (tokens : ∀ entry ∈ headers, isToken entry.1 = true) :
    ∀ name ∈ canonicalNames headers, isToken name = true := by
  intro name member
  simp only [canonicalNames,Multimap.mem_keys,canonicalInserts,List.map_map,List.mem_map] at member
  obtain ⟨entry,inside,rfl⟩ := member
  exact canonical_token (tokens entry inside)

/-- The array in layers, the later ones over the earlier. -/
def layered (mainThreadEnv : List (Bytes × Bytes)) (known : ComputedServerVars) (headers : List (Bytes × Bytes)) (info : RequestInfo)
    (table : TrackVars) : TrackVars :=
  Dict.setAll info.variables (Dict.setAll (headerVariables headers)
    (Dict.setAll known.asFfi.hardCoded (Dict.setAll known.trusted (Dict.setAll mainThreadEnv table))))

theorem registerVariables_layered {phpRegisterVariableSafe} (registers : Registers phpRegisterVariableSafe)
    (mainThreadEnv : List (Bytes × Bytes)) {ctx : RequestContext} {request : Request} {headers : List (Bytes × Bytes)}
    (present : ctx.request = some request) (built : request.headers = inserted headers)
    (tokens : ∀ entry ∈ headers, isToken entry.1 = true) (info : RequestInfo) (table : TrackVars) :
    ∃ known, computeServerVars ctx = some (some known) ∧
      registerVariables mainThreadEnv phpRegisterVariableSafe ctx info table =
        some (layered mainThreadEnv known headers info table) := by
  obtain ⟨batch,cBatch,computed,whole,view,vars,count,described⟩ := batch_described present built tokens
  refine ⟨batch.known,computed,?_⟩
  have same : cBatch.headers = batch.headers := by
    rw [ServerVarsBatch.asCBatch] at view
    split at view <;> cases view
    rfl
  have known : registerServerVars mainThreadEnv batch batch.known.asFfi table = some (Dict.setAll batch.known.asFfi.hardCoded
      (Dict.setAll batch.known.trusted (Dict.setAll mainThreadEnv table))) := by
    rw [registerServerVars,trusted_read]
    rfl
  have rest := registerHeaders_variables registers described (canonicalNames_token tokens)
    (fun header member key => interned_plain whole (same ▸ member)) (Dict.setAll batch.known.asFfi.hardCoded
      (Dict.setAll batch.known.trusted (Dict.setAll mainThreadEnv table)))
  rw [registerVariables,goRegisterServerVariables,whole]
  simp [view,vars,known,count,rest,registerVariablesFromRequestInfo_eq,layered,headerVariables]

def firstNamed (headers : List (Bytes × Bytes)) (name : Bytes) : Option Bytes :=
  (headers.find? fun entry => entry.1 == name).map (·.2)

/-- The headers that other variables than their own are made from. -/
def privileged : List Bytes := [ascii "host",ascii "content-length",ascii "content-type",ascii "authorization"]

def Agree (headers others : List (Bytes × Bytes)) : Prop := ∀ name ∈ privileged, firstNamed headers name = firstNamed others name

/-- The context of a request that the server has read. -/
def RequestContext.serving (ctx : RequestContext) (parts : Server.Parts) (body remoteAddr path : Bytes) : RequestContext :=
  { ctx with request := some { Server.buildRequest parts body remoteAddr with path } }

theorem inserted_first {headers : List (Bytes × Bytes)} (delivered : Delivered headers) (name : Bytes) :
    (inserted headers).getFirst name = firstNamed headers (lowercase name) := by
  have grouped : (inserted headers).getFirst name = (insertedValues headers (canonicalHeaderName name)).head? := by
    have stored : (inserted headers).entries = Multimap.grouped (canonicalInserts headers) := inserted_entries headers
    rw [Headers.getFirst,Headers.getAll,stored,Multimap.find?_grouped]
    split
    next empty => simp [insertedValues,empty]
    next => rfl
  have chosen : ∀ entry ∈ headers, decide (canonicalHeaderName entry.1 = canonicalHeaderName name) = (entry.1 == lowercase name) := by
    intro entry member
    obtain ⟨plain,lower⟩ := delivered entry member
    rw [Bool.eq_iff_iff,decide_eq_true_eq,beq_iff_eq,canonical_iff plain,lower]
  rw [grouped,firstNamed,insertedValues,Multimap.valuesOf,canonicalInserts,List.filter_map,List.map_map,List.head?_map]
  have kept : headers.filter ((fun pair : Bytes × Bytes => decide (pair.1 = canonicalHeaderName name)) ∘
      fun entry : Bytes × Bytes => (canonicalHeaderName entry.1,entry.2)) = headers.filter fun entry => entry.1 == lowercase name :=
    List.filter_congr chosen
  rw [kept,List.head?_filter]
  rfl

theorem http_headerVariable (name : Bytes) : httpPrefix <+: headerVariable name := by
  have plain : httpPrefix.map variableByte = httpPrefix := by decide
  rw [headerVariable,mangleHeaderName,List.map_append,plain]
  exact List.prefix_append _ _

theorem variables_plain {info : RequestInfo} {key : Bytes} (http : httpPrefix <+: key) : Dict.latest key info.variables = none := by
  have names : ∀ name ∈ [ascii "CONTENT_TYPE",ascii "PATH_TRANSLATED",ascii "QUERY_STRING",ascii "REMOTE_USER",ascii "REQUEST_METHOD"],
      ¬ httpPrefix <+: name := by decide
  rw [Dict.latest_eq_none]
  intro member
  refine names key ?_ http
  simp only [RequestInfo.variables,List.map_append,List.mem_append,List.map_cons,List.map_nil,List.mem_singleton,Option.toList_map,
    List.map_map,List.mem_map,Option.mem_toList,Function.comp_def] at member
  rcases member with (((rfl | ⟨_,_,rfl⟩) | rfl) | ⟨_,_,rfl⟩) | ⟨_,_,rfl⟩ <;> simp

/-- Of the variables with a `HTTP_` name the host's is the only known one. -/
theorem known_plain {known : ComputedServerVars} {key : Bytes} (http : httpPrefix <+: key) :
    Dict.latest key known.asFfi.hardCoded = none ∧
      Dict.latest key known.trusted = if key = httpHostKey then some known.httpHost else none := by
  have coded : ∀ name ∈ known.asFfi.hardCoded.map (·.1), ¬ httpPrefix <+: name := by
    have keys : known.asFfi.hardCoded.map (·.1) = [ascii "GATEWAY_INTERFACE",ascii "SERVER_SOFTWARE",ascii "REQUEST_SCHEME",
      ascii "SSL_PROTOCOL",ascii "HTTPS",ascii "AUTH_TYPE",ascii "REMOTE_IDENT"] := rfl
    rw [keys]
    decide
  have others : ∀ name ∈ known.trusted.map (·.1), httpPrefix <+: name → name = httpHostKey := by
    have keys : known.trusted.map (·.1) = [ascii "REMOTE_ADDR",ascii "REMOTE_HOST",ascii "REMOTE_PORT",ascii "DOCUMENT_ROOT",
      ascii "PATH_INFO",ascii "PHP_SELF",ascii "DOCUMENT_URI",ascii "SCRIPT_FILENAME",ascii "SCRIPT_NAME",ascii "SSL_CIPHER",
      ascii "SERVER_NAME",ascii "SERVER_PORT",ascii "CONTENT_LENGTH",ascii "SERVER_PROTOCOL",httpHostKey,ascii "REQUEST_URI"] := rfl
    rw [keys]
    decide
  refine ⟨Dict.latest_eq_none.mpr fun member => coded key member http,?_⟩
  split
  next host =>
    subst host
    rfl
  next other => exact Dict.latest_eq_none.mpr fun member => other (others key member http)

theorem updateRequestInfo_agree {ctx : RequestContext} {parts : Server.Parts} {others : List (Bytes × Bytes)} {body remoteAddr path : Bytes}
    (delivered : Delivered parts.headers) (others_delivered : Delivered others) (agree : Agree parts.headers others) (info : RequestInfo) :
    updateRequestInfo (RequestContext.serving ctx parts body remoteAddr path) info =
      updateRequestInfo (RequestContext.serving ctx { parts with headers := others } body remoteAddr path) info := by
  have read (name lower : Bytes) (same : lowercase name = lower) (member : lower ∈ privileged) :
      (inserted parts.headers).getFirst name = (inserted others).getFirst name := by
    rw [inserted_first delivered,inserted_first others_delivered,same,agree lower member]
  have contentType := read (ascii "Content-Type") (ascii "content-type") (by decide) (by simp [privileged])
  have authorization := read (ascii "Authorization") (ascii "authorization") (by decide) (by simp [privileged])
  simp only [inserted] at contentType authorization
  simp only [updateRequestInfo,RequestContext.serving,Server.buildRequest,contentType,authorization]
  rfl

theorem computeServerVars_agree {ctx : RequestContext} {parts : Server.Parts} {others : List (Bytes × Bytes)} {body remoteAddr path : Bytes}
    (delivered : Delivered parts.headers) (others_delivered : Delivered others) (agree : Agree parts.headers others)
    {known other : ComputedServerVars} (computed : computeServerVars (RequestContext.serving ctx parts body remoteAddr path) = some (some known))
    (again : computeServerVars (RequestContext.serving ctx { parts with headers := others } body remoteAddr path) = some (some other)) :
    { known with totalNumVars := 0 } = { other with totalNumVars := 0 } := by
  have lower : lowercase (ascii "Content-Length") = ascii "content-length" := by decide
  have length : (inserted parts.headers).getFirst (ascii "Content-Length") = (inserted others).getFirst (ascii "Content-Length") := by
    rw [inserted_first delivered,inserted_first others_delivered,lower,agree (ascii "content-length") (by simp [privileged])]
  have host : Server.hostOf parts.headers = Server.hostOf others := by
    have named : firstNamed parts.headers (ascii "host") = firstNamed others (ascii "host") := agree (ascii "host") (by simp [privileged])
    simp only [firstNamed] at named
    rw [Server.hostOf,Server.hostOf,named]
  simp only [inserted] at length
  simp only [computeServerVars,RequestContext.serving,Server.buildRequest,length,host,Option.bind_eq_bind,Option.bind_eq_some_iff,
    Option.pure_def,Option.some.injEq] at computed again
  obtain ⟨_,remote,_,derived,rfl⟩ := computed
  obtain ⟨_,remote',_,derived',rfl⟩ := again
  cases remote.symm.trans remote'
  cases derived.symm.trans derived'
  rfl

theorem trusted_agree {known other : ComputedServerVars} (same : { known with totalNumVars := 0 } = { other with totalNumVars := 0 }) :
    known.trusted = other.trusted ∧ known.asFfi.hardCoded = other.asFfi.hardCoded := by
  obtain ⟨⟩ := known
  obtain ⟨⟩ := other
  simp only [ComputedServerVars.mk.injEq,and_true] at same
  simp only [ComputedServerVars.trusted,same]
  exact ⟨trivial,rfl⟩

theorem serverVariables_layered {phpRegisterVariableSafe} (registers : Registers phpRegisterVariableSafe)
    (mainThreadEnv : List (Bytes × Bytes)) (phpHandleAuthData : Option Bytes → Option Bytes) (ctx : RequestContext)
    {parts : Server.Parts} (delivered : Delivered parts.headers) (body remoteAddr path : Bytes) (info : RequestInfo) (table : TrackVars) :
    ∃ known updated, computeServerVars (RequestContext.serving ctx parts body remoteAddr path) = some (some known) ∧
      updateRequestInfo (RequestContext.serving ctx parts body remoteAddr path) info = some updated ∧
      serverVariables mainThreadEnv phpRegisterVariableSafe phpHandleAuthData
        (RequestContext.serving ctx parts body remoteAddr path) info table =
          some (layered mainThreadEnv known parts.headers { updated.1 with authUser := phpHandleAuthData updated.2 } table) := by
  obtain ⟨updated,read⟩ := updateRequestInfo_total (RequestContext.serving ctx parts body remoteAddr path) info
  have present : (RequestContext.serving ctx parts body remoteAddr path).request =
      some { Server.buildRequest parts body remoteAddr with path } := rfl
  obtain ⟨known,computed,registered⟩ := registerVariables_layered registers mainThreadEnv present rfl
    (fun entry member => (delivered entry member).1) { updated.1 with authUser := phpHandleAuthData updated.2 } table
  refine ⟨known,updated,computed,read,?_⟩
  simp [serverVariables,updateRequestContext,read,registered]

theorem layered_http {known : ComputedServerVars} {key : Bytes} (http : httpPrefix <+: key)
    {mainThreadEnv headers : List (Bytes × Bytes)} {info : RequestInfo} {table : TrackVars} :
    Dict.get key (layered mainThreadEnv known headers info table) = (Dict.latest key (headerVariables headers)).or
      (if key = httpHostKey then some known.httpHost else (Dict.latest key mainThreadEnv).or (Dict.get key table)) := by
  obtain ⟨coded,trusted⟩ : Dict.latest key known.asFfi.hardCoded = none ∧
      Dict.latest key known.trusted = if key = httpHostKey then some known.httpHost else none := known_plain http
  simp only [layered,Dict.get_setAll,variables_plain http,coded,trusted,Option.none_or]
  split <;> simp

theorem layered_other {known : ComputedServerVars} {key : Bytes} (other : ¬ httpPrefix <+: key)
    {mainThreadEnv headers : List (Bytes × Bytes)} {info : RequestInfo} {table : TrackVars} :
    Dict.get key (layered mainThreadEnv known headers info table) = (Dict.latest key info.variables).or
      ((Dict.latest key known.asFfi.hardCoded).or ((Dict.latest key known.trusted).or
        ((Dict.latest key mainThreadEnv).or (Dict.get key table)))) := by
  have absent : Dict.latest key (headerVariables headers) = none := by
    rw [Dict.latest_eq_none]
    intro member
    simp only [headerVariables,List.map_map,List.mem_map,Function.comp_apply] at member
    obtain ⟨name,_,rfl⟩ := member
    exact other (http_headerVariable name)
  simp only [layered,Dict.get_setAll,absent,Option.none_or]

/-- A header only ever shows under its `HTTP_` name, where the last of its spellings stands over
the environment: every other variable is the same under any headers that agree in the first
`Host`, `Content-Length`, `Content-Type` and `Authorization`. -/
theorem headers_confined {mainThreadEnv : List (Bytes × Bytes)} {phpRegisterVariableSafe : Bytes → Bytes → TrackVars → TrackVars}
    {phpHandleAuthData : Option Bytes → Option Bytes} {ctx : RequestContext} {parts : Server.Parts} {others : List (Bytes × Bytes)}
    {body remoteAddr path : Bytes} {info : RequestInfo} {table : TrackVars} (registers : Registers phpRegisterVariableSafe)
    (delivered : Delivered parts.headers) (others_delivered : Delivered others) (agree : Agree parts.headers others) :
    ∃ registered registered',
      serverVariables mainThreadEnv phpRegisterVariableSafe phpHandleAuthData
        (RequestContext.serving ctx parts body remoteAddr path) info table = some registered ∧
      serverVariables mainThreadEnv phpRegisterVariableSafe phpHandleAuthData
        (RequestContext.serving ctx { parts with headers := others } body remoteAddr path) info table = some registered' ∧
      (∀ key, ¬ httpPrefix <+: key → Dict.get key registered = Dict.get key registered') ∧
      ∀ key, httpPrefix <+: key → Dict.get key registered = (Dict.latest key (headerVariables parts.headers)).or
        (if key = httpHostKey then some (Server.hostOf parts.headers) else (Dict.latest key mainThreadEnv).or (Dict.get key table)) := by
  obtain ⟨known,updated,computed,read,registered⟩ := serverVariables_layered registers mainThreadEnv phpHandleAuthData ctx
    delivered body remoteAddr path info table
  have replaced : Delivered { parts with headers := others }.headers := others_delivered
  obtain ⟨known',updated',computed',read',registered'⟩ := serverVariables_layered registers mainThreadEnv phpHandleAuthData ctx
    replaced body remoteAddr path info table
  have same := trusted_agree (computeServerVars_agree delivered others_delivered agree computed computed')
  cases read.symm.trans ((updateRequestInfo_agree delivered others_delivered agree info).trans read')
  refine ⟨_,_,registered,registered',fun key other => ?_,fun key http => ?_⟩
  · rw [layered_other other,layered_other other,same.1,same.2]
  · have host : known.httpHost = Server.hostOf parts.headers := (host_derived rfl computed).1
    rw [layered_http http,host]

/-- The client names its headers after variables of the server. -/
def forgedParts : Server.Parts where
  method := ascii "POST"
  path := ascii "/"
  query := some (ascii "a=1")
  pathAndQuery := some (ascii "/?a=1")
  version := .http11
  headers := [(ascii "host",ascii "a"),(ascii "remote-addr",ascii "::2"),(ascii "https",ascii "on"),(ascii "x-a",ascii "1"),(ascii "x.a",ascii "2"),
    (ascii "proxy",ascii "evil")]

theorem headers_confined_forged : ∃ registered registered',
    serverVariables [(ascii "HTTP_PROXY",ascii "own")] registerPlain id (RequestContext.serving (hostContext []) forgedParts [] (ascii "[::1]:9") (ascii "/"))
      ⟨none,none,none,none,none,none,0,0⟩ [] = some registered ∧
    serverVariables [(ascii "HTTP_PROXY",ascii "own")] registerPlain id (RequestContext.serving (hostContext [])
      { forgedParts with headers := [(ascii "host",ascii "a")] } [] (ascii "[::1]:9") (ascii "/")) ⟨none,none,none,none,none,none,0,0⟩ [] = some registered' ∧
    (∀ key, ¬ httpPrefix <+: key → Dict.get key registered = Dict.get key registered') ∧
    ∀ key, httpPrefix <+: key → Dict.get key registered = (Dict.latest key (headerVariables forgedParts.headers)).or
      (if key = httpHostKey then some (Server.hostOf forgedParts.headers) else (Dict.latest key [(ascii "HTTP_PROXY",ascii "own")]).or (Dict.get key [])) :=
  have delivered : Delivered forgedParts.headers := by
    unfold Delivered
    decide
  have plain : Delivered [(ascii "host",ascii "a")] := by
    unfold Delivered
    decide
  have agree : Agree forgedParts.headers [(ascii "host",ascii "a")] := by
    unfold Agree
    decide
  headers_confined registers_plain delivered plain agree

end Frankenrust.Callbacks
