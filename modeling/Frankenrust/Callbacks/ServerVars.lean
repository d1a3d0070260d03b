import Frankenrust.Cgi.CommonHeaders
import Frankenrust.Cgi.HostPort
import Frankenrust.Context.HeaderMap
import Frankenrust.Context.RequestContext
import Frankenrust.Library.Options

/-! The batch of `$_SERVER` variables of `servervars.rs`. Its descriptors point into
buffers that the batch owns; a pointer is modelled by the buffer it targets, and
what C reads by looking that buffer up again. -/
namespace Frankenrust.Callbacks
open Context Cgi

/-- A persistent string of the PHP engine, by its text. -/
structure InternedZendString where
  text : Bytes
  deriving DecidableEq

def intern (text : Bytes) : InternedZendString := ⟨text⟩

/-- Look-up in the map collected from `COMMON_HEADERS`, where a later pair replaces an earlier one. -/
def internedCommonHeader (name : Bytes) : Option InternedZendString :=
  (commonHeaders.reverse.find? fun entry => entry.1 = name).map fun entry => intern entry.2

/-- The buffers a pointer of the batch may target. -/
inductive Buffer
  | remoteAddr
  | remotePort
  | documentRoot
  | pathInfo
  | phpSelf
  | documentUri
  | scriptFilename
  | scriptName
  | serverName
  | serverPort
  | contentLength
  | serverProtocol
  | httpHost
  | requestUri
  | value (index : Nat)
  | key (index : Nat)
  deriving DecidableEq

/-- A `char*` with its length. -/
structure CBuf where
  pointer : Option Buffer
  len : Nat
  deriving DecidableEq

def cBuf (buffer : Buffer) (bytes : Bytes) : CBuf :=
  if bytes = [] then ⟨none,0⟩ else ⟨some buffer,bytes.length⟩

structure ComputedServerVars where
  remoteAddr : Bytes
  remotePort : Bytes
  documentRoot : Bytes
  pathInfo : Bytes
  phpSelf : Bytes
  documentUri : Bytes
  scriptFilename : Bytes
  scriptName : Bytes
  serverName : Bytes
  serverPort : Bytes
  contentLength : Bytes
  serverProtocol : Bytes
  httpHost : Bytes
  requestUri : Bytes
  totalNumVars : Nat
  deriving DecidableEq

def decimal (n : Nat) : Bytes := (Nat.toDigits 10 n).map Char.toUInt8

/-- The outer option fails where an address parser would slice out of bounds; without
a request there are no variables. -/
def computeServerVars (ctx : RequestContext) : Option (Option ComputedServerVars) :=
  match ctx.request with
  | none => some none
  | some request => do
    let (remoteAddr,remotePort) ← splitRemoteAddr request.remoteAddr
    let (serverName,serverPort) ← deriveServerNameAndPort request.host .http
    return some {
      remoteAddr
      remotePort
      documentRoot := ctx.documentRoot
      pathInfo := ctx.pathInfo
      phpSelf := ctx.scriptName ++ ctx.pathInfo
      documentUri := ctx.docUri
      scriptFilename := ctx.scriptFilename
      scriptName := ctx.scriptName
      serverName
      serverPort
      contentLength := (request.headers.getFirst (ascii "Content-Length")).getD []
      serverProtocol := ascii "HTTP/" ++ decimal request.protoMajor ++ [dot] ++ decimal request.protoMinor
      httpHost := request.host
      requestUri := ctx.requestUri
      totalNumVars := 28 + request.headers.entries.length }

/-- `frankenphp_server_vars`. -/
structure ServerVars where
  totalNumVars : Nat
  remoteAddr : CBuf
  remoteHost : CBuf
  remotePort : CBuf
  documentRoot : CBuf
  pathInfo : CBuf
  phpSelf : CBuf
  documentUri : CBuf
  scriptFilename : CBuf
  scriptName : CBuf
  serverName : CBuf
  serverPort : CBuf
  contentLength : CBuf
  serverProtocol : CBuf
  httpHost : CBuf
  requestUri : CBuf
  sslCipher : CBuf
  requestScheme : InternedZendString
  sslProtocol : InternedZendString
  https : InternedZendString
  deriving DecidableEq

def ComputedServerVars.asFfi (known : ComputedServerVars) : ServerVars where
  totalNumVars := known.totalNumVars
  remoteAddr := cBuf .remoteAddr known.remoteAddr
  remoteHost := cBuf .remoteAddr known.remoteAddr
  remotePort := cBuf .remotePort known.remotePort
  documentRoot := cBuf .documentRoot known.documentRoot
  pathInfo := cBuf .pathInfo known.pathInfo
  phpSelf := cBuf .phpSelf known.phpSelf
  documentUri := cBuf .documentUri known.documentUri
  scriptFilename := cBuf .scriptFilename known.scriptFilename
  scriptName := cBuf .scriptName known.scriptName
  serverName := cBuf .serverName known.serverName
  serverPort := cBuf .serverPort known.serverPort
  contentLength := cBuf .contentLength known.contentLength
  serverProtocol := cBuf .serverProtocol known.serverProtocol
  httpHost := cBuf .httpHost known.httpHost
  requestUri := cBuf .requestUri known.requestUri
  sslCipher := ⟨none,0⟩
  requestScheme := intern (ascii "http")
  sslProtocol := intern []
  https := intern []

inductive HeaderKey
  | interned (key : InternedZendString)
  | mangled (index : Nat)
  deriving DecidableEq

/-- `frankenrust_header_var`. -/
structure HeaderVar where
  knownKey : Option InternedZendString
  key : Option Buffer
  value : CBuf
  deriving DecidableEq

structure ServerVarsBatch where
  known : ComputedServerVars
  values : List Bytes
  keys : List Bytes
  headers : List HeaderVar
  deriving DecidableEq

/-- What the first pass has pushed so far. -/
structure Pass where
  values : List Bytes
  keys : List Bytes
  keyForms : List HeaderKey

def Pass.push (pass : Pass) (header : Bytes × List Bytes) : Pass :=
  let values := pass.values ++ [joinHeaderValues header.2]
  match internedCommonHeader header.1 with
  | some internedKey => { pass with values, keyForms := pass.keyForms ++ [.interned internedKey] }
  | none =>
    let keys := pass.keys ++ [uncommonHeaderKey header.1]
    ⟨values,keys,pass.keyForms ++ [.mangled (keys.length - 1)]⟩

def firstPass (entries : List (Bytes × List Bytes)) : Pass := entries.foldl Pass.push ⟨[],[],[]⟩

/-- One descriptor of the second pass; `keys[index]` panics out of bounds. -/
def headerVar (keys : List Bytes) (keyForm : HeaderKey) (value : Bytes) (index : Nat) : Option HeaderVar :=
  let value := cBuf (.value index) value
  match keyForm with
  | .interned key => some ⟨some key,none,value⟩
  | .mangled index => if index < keys.length then some ⟨none,some (.key index),value⟩ else none

def secondPass (pass : Pass) : Option (List HeaderVar) :=
  (pass.keyForms.zip pass.values).zipIdx.mapM fun item => headerVar pass.keys item.1.1 item.1.2 item.2

/-- The outer option fails where the function would panic. -/
def buildServerVarsBatch (ctx : RequestContext) : Option (Option ServerVarsBatch) := do
  match ← computeServerVars ctx,ctx.request with
  | some known,some request =>
    let pass := firstPass request.headers.entries
    return some ⟨known,pass.values,pass.keys,← secondPass pass⟩
  | _,_ => return none

/-- `frankenrust_server_vars_batch`. -/
structure CBatch where
  vars : ServerVars
  headers : List HeaderVar
  numHeaders : Nat
  deriving DecidableEq

/-- Its two debug assertions panic where they do not hold. -/
def ServerVarsBatch.asCBatch (batch : ServerVarsBatch) : Option CBatch :=
  if batch.headers.length = batch.values.length ∧ batch.keys.length ≤ batch.values.length then
    some ⟨batch.known.asFfi,batch.headers,batch.headers.length⟩
  else none

def ServerVarsBatch.deref (batch : ServerVarsBatch) : Buffer → Option Bytes
  | .remoteAddr => some batch.known.remoteAddr
  | .remotePort => some batch.known.remotePort
  | .documentRoot => some batch.known.documentRoot
  | .pathInfo => some batch.known.pathInfo
  | .phpSelf => some batch.known.phpSelf
  | .documentUri => some batch.known.documentUri
  | .scriptFilename => some batch.known.scriptFilename
  | .scriptName => some batch.known.scriptName
  | .serverName => some batch.known.serverName
  | .serverPort => some batch.known.serverPort
  | .contentLength => some batch.known.contentLength
  | .serverProtocol => some batch.known.serverProtocol
  | .httpHost => some batch.known.httpHost
  | .requestUri => some batch.known.requestUri
  | .value index => batch.values[index]?
  | .key index => batch.keys[index]?

/-- The text of a C string: up to the first NUL, which has to be inside the buffer. -/
def cString (bytes : Bytes) : Option Bytes :=
  if bytes.contains nul then some (bytes.takeWhile (· != nul)) else none

/-- What C reads through a pointer and a length. -/
def ServerVarsBatch.read (batch : ServerVarsBatch) (buf : CBuf) : Option Bytes :=
  match buf.pointer with
  | none => some []
  | some buffer => do slice (← batch.deref buffer) 0 buf.len

/-- The key under which `shim.c` registers a descriptor. -/
def ServerVarsBatch.keyText (batch : ServerVarsBatch) (header : HeaderVar) : Option Bytes :=
  match header.knownKey with
  | some key => some key.text
  | none => do cString (← batch.deref (← header.key))

theorem cBuf_pointer (buffer : Buffer) (bytes : Bytes) : (cBuf buffer bytes).pointer = none ↔ bytes = [] := by
  by_cases empty : bytes = [] <;> simp [cBuf,empty]

theorem cBuf_len (buffer : Buffer) (bytes : Bytes) : (cBuf buffer bytes).len = bytes.length := by
  by_cases empty : bytes = [] <;> simp [cBuf,empty]

/-- C reads back through a pointer and its length the bytes they were made from. -/
theorem read_cBuf {batch : ServerVarsBatch} {buffer : Buffer} {bytes : Bytes}
    (held : batch.deref buffer = some bytes) : batch.read (cBuf buffer bytes) = some bytes := by
  by_cases empty : bytes = []
  · simp [ServerVarsBatch.read,cBuf,empty]
  · simp [ServerVarsBatch.read,cBuf,empty,held,slice]

theorem cString_terminated {text : Bytes} (plain : nul ∉ text) : cString (text ++ [nul]) = some text := by
  have before : ∀ byte ∈ text, (byte != nul) = true := by
    intro byte member
    exact bne_iff_ne.mpr fun same => plain (same ▸ member)
  simp [cString,List.takeWhile_append_of_pos before]

theorem internedCommonHeader_mangled {name : Bytes} {key : InternedZendString}
    (found : internedCommonHeader name = some key) : key.text = mangleHeaderName name := by
  simp only [internedCommonHeader,Option.map_eq_some_iff] at found
  obtain ⟨entry,located,rfl⟩ := found
  have member : entry ∈ commonHeaders := List.mem_reverse.mp (List.mem_of_find?_eq_some located)
  have same : entry.1 = name := by simpa using List.find?_some located
  rw [intern,commonHeaders_mangled member,same]

/-- The interned keys are those that `lookup_common_header` knows. -/
theorem internedCommonHeader_lookup (name : Bytes) :
    (internedCommonHeader name).map InternedZendString.text = lookupCommonHeader name := by
  cases found : internedCommonHeader name with
  | some key =>
    have present : ∃ entry ∈ commonHeaders, entry.1 = name := by
      simp only [internedCommonHeader,Option.map_eq_some_iff] at found
      obtain ⟨entry,located,_⟩ := found
      exact ⟨entry,List.mem_reverse.mp (List.mem_of_find?_eq_some located),by simpa using List.find?_some located⟩
    cases looked : lookupCommonHeader name with
    | some mangled =>
      rw [Option.map_some,internedCommonHeader_mangled found,lookupCommonHeader_mangled looked]
    | none =>
      obtain ⟨entry,member,same⟩ := present
      have missed := List.findSome?_eq_none_iff.mp looked entry member
      rw [if_pos same] at missed
      cases missed
  | none =>
    simp only [internedCommonHeader,Option.map_eq_none_iff,List.find?_eq_none,List.mem_reverse,
      decide_eq_true_eq] at found
    symm
    rw [Option.map_none,lookupCommonHeader,List.findSome?_eq_none_iff]
    intro entry member
    exact if_neg (found entry member)

/-- The key form the first pass records for a header, against the keys pushed so far. -/
inductive Keyed (keys : List Bytes) (name : Bytes) : HeaderKey → Prop
  | interned {key : InternedZendString} (common : internedCommonHeader name = some key) :
    Keyed keys name (.interned key)
  | mangled {index : Nat} (uncommon : internedCommonHeader name = none)
    (pushed : keys[index]? = some (uncommonHeaderKey name)) : Keyed keys name (.mangled index)

theorem Keyed.grow {keys : List Bytes} {name : Bytes} {keyForm : HeaderKey} (keyed : Keyed keys name keyForm)
    (more : List Bytes) : Keyed (keys ++ more) name keyForm := by
  cases keyed with
  | interned common => exact .interned common
  | mangled uncommon pushed =>
    refine .mangled uncommon ?_
    rw [List.getElem?_append_left (List.getElem?_eq_some_iff.mp pushed).1,pushed]

/-- The first pass keeps its tables aligned with the headers it has seen. -/
structure Aligned (entries : List (Bytes × List Bytes)) (pass : Pass) : Prop where
  values : pass.values = entries.map fun entry => joinHeaderValues entry.2
  keyForms : List.Forall₂ (fun entry keyForm => Keyed pass.keys entry.1 keyForm) entries pass.keyForms
  keys : pass.keys.length ≤ entries.length

theorem aligned_push {entries : List (Bytes × List Bytes)} {pass : Pass} (aligned : Aligned entries pass)
    (entry : Bytes × List Bytes) : Aligned (entries ++ [entry]) (pass.push entry) := by
  have fewer := aligned.keys
  cases found : internedCommonHeader entry.1 with
  | some key =>
    have pushed : pass.push entry = { pass with
        values := pass.values ++ [joinHeaderValues entry.2], keyForms := pass.keyForms ++ [.interned key] } := by
      simp [Pass.push,found]
    rw [pushed]
    refine ⟨by simp [aligned.values],?_,by simp; omega⟩
    exact List.rel_append aligned.keyForms (.cons (.interned found) .nil)
  | none =>
    have pushed : pass.push entry = ⟨pass.values ++ [joinHeaderValues entry.2],
        pass.keys ++ [uncommonHeaderKey entry.1],pass.keyForms ++ [.mangled pass.keys.length]⟩ := by
      simp [Pass.push,found]
    rw [pushed]
    refine ⟨by simp [aligned.values],?_,by simp; omega⟩
    refine List.rel_append (aligned.keyForms.imp fun _ _ keyed => keyed.grow _) (.cons ?_ .nil)
    exact .mangled found (by simp)

theorem aligned_firstPass (entries : List (Bytes × List Bytes)) : Aligned entries (firstPass entries) := by
  induction entries using List.reverseRecOn with
  | nil => exact ⟨rfl,.nil,Nat.le_refl _⟩
  | append_singleton entries entry ih =>
    rw [firstPass,List.foldl_append]
    exact aligned_push ih entry

theorem headerVar_total {keys : List Bytes} {name : Bytes} {keyForm : HeaderKey} (keyed : Keyed keys name keyForm)
    (value : Bytes) (index : Nat) : ∃ header, headerVar keys keyForm value index = some header := by
  cases keyed with
  | interned common => exact ⟨_,rfl⟩
  | mangled uncommon pushed => exact ⟨_,if_pos (List.getElem?_eq_some_iff.mp pushed).1⟩

/-- The second pass reads the tables where the first one filled them: descriptor by
descriptor it takes the key form and the value of the header of that position. -/
theorem secondPass_aligned {entries : List (Bytes × List Bytes)} {pass : Pass} (aligned : Aligned entries pass) :
    ∃ headers, secondPass pass = some headers ∧ headers.length = entries.length ∧
      ∀ (index : Nat) (entry : Bytes × List Bytes) (header : HeaderVar), entries[index]? = some entry →
        headers[index]? = some header → ∃ keyForm, Keyed pass.keys entry.1 keyForm ∧
          headerVar pass.keys keyForm (joinHeaderValues entry.2) index = some header := by
  have sizes : entries.length = pass.keyForms.length := aligned.keyForms.length_eq
  have every : ∀ item ∈ (pass.keyForms.zip pass.values).zipIdx,
      ∃ header, headerVar pass.keys item.1.1 item.1.2 item.2 = some header := by
    intro item member
    have inside : item.1.1 ∈ pass.keyForms := (List.of_mem_zip (List.fst_mem_of_mem_zipIdx member)).1
    obtain ⟨position,bound,same⟩ := List.getElem_of_mem inside
    have keyed := aligned.keyForms.get (sizes ▸ bound) bound
    rw [List.get_eq_getElem,List.get_eq_getElem,same] at keyed
    exact headerVar_total keyed _ _
  obtain ⟨headers,all⟩ := Options.mapM_isSome.mpr every
  have read := Options.mapM_some.mp all
  have count : headers.length = entries.length := by
    rw [← read.length_eq,List.length_zipIdx,List.length_zip,aligned.values,List.length_map,sizes,Nat.min_self]
  refine ⟨headers,all,count,?_⟩
  intro index entry header stored described
  obtain ⟨inEntries,rfl⟩ := List.getElem?_eq_some_iff.mp stored
  obtain ⟨inHeaders,rfl⟩ := List.getElem?_eq_some_iff.mp described
  refine ⟨pass.keyForms[index],aligned.keyForms.get inEntries (sizes ▸ inEntries),?_⟩
  have taken := read.get (read.length_eq ▸ inHeaders) inHeaders
  simpa [aligned.values] using taken

theorem computeServerVars_total {ctx : RequestContext} {request : Request} (present : ctx.request = some request) :
    ∃ known, computeServerVars ctx = some (some known) := by
  obtain ⟨⟨addr,port⟩,split⟩ := splitRemoteAddr_total request.remoteAddr
  obtain ⟨⟨name,number⟩,derived⟩ := deriveServerNameAndPort_total request.host .http
  simp [computeServerVars,present,split,derived]

/-- The headers that a sequence of insertions into an empty map leaves. -/
def inserted (inserts : List (Bytes × Bytes)) : Headers :=
  inserts.foldl (fun headers entry => headers.insert entry.1 entry.2) Headers.empty

def canonicalInserts (inserts : List (Bytes × Bytes)) : List (Bytes × Bytes) :=
  inserts.map fun entry => (canonicalHeaderName entry.1,entry.2)

def canonicalNames (inserts : List (Bytes × Bytes)) : List Bytes := Multimap.keys (canonicalInserts inserts)

/-- The values inserted under any spelling of a canonical name. -/
def insertedValues (inserts : List (Bytes × Bytes)) (name : Bytes) : List Bytes :=
  Multimap.valuesOf (canonicalInserts inserts) name

theorem inserted_entries (inserts : List (Bytes × Bytes)) :
    (inserted inserts).entries = (canonicalNames inserts).map fun name => (name,insertedValues inserts name) := by
  have folded : (inserted inserts).entries =
      (canonicalInserts inserts).foldl (fun entries pair => Multimap.insert pair.1 pair.2 entries) [] := by
    induction inserts using List.reverseRecOn with
    | nil => rfl
    | append_singleton inserts entry ih =>
      simp only [inserted,canonicalInserts,List.foldl_append,List.map_append] at ih ⊢
      simp [← ih,Headers.insert,insertEntry_eq]
  rw [folded,Multimap.foldl_insert]
  rfl

/-- What C finds in the descriptor of a header, by the plain definition of it. -/
structure Describes (batch : ServerVarsBatch) (inserts : List (Bytes × Bytes)) (name : Bytes)
    (header : HeaderVar) : Prop where
  oneKey : (header.knownKey ≠ none ∧ header.key = none) ∨
    (header.knownKey = none ∧ ∃ index, header.key = some (.key index) ∧ index < batch.keys.length)
  keyText : batch.keyText header = some (mangleHeaderName name)
  spellings : ∀ entry ∈ inserts, canonicalHeaderName entry.1 = name → mangleHeaderName entry.1 = mangleHeaderName name
  http : httpPrefix <+: mangleHeaderName name
  value : batch.read header.value = some (joinHeaderValues (insertedValues inserts name))
  len : header.value.len = (joinHeaderValues (insertedValues inserts name)).length
  null : header.value.pointer = none ↔ joinHeaderValues (insertedValues inserts name) = []

theorem describes {batch : ServerVarsBatch} {inserts : List (Bytes × Bytes)} {name : Bytes} {keyForm : HeaderKey}
    {header : HeaderVar} {index : Nat} (token : isToken name = true) (keyed : Keyed batch.keys name keyForm)
    (stored : batch.values[index]? = some (joinHeaderValues (insertedValues inserts name)))
    (built : headerVar batch.keys keyForm (joinHeaderValues (insertedValues inserts name)) index = some header) :
    Describes batch inserts name header := by
  have spelled : ∀ entry ∈ inserts, canonicalHeaderName entry.1 = name → mangleHeaderName entry.1 = mangleHeaderName name := by
    rintro entry _ rfl
    exact (mangle_canonical entry.1).symm
  have valued : batch.read (cBuf (.value index) (joinHeaderValues (insertedValues inserts name))) =
      some (joinHeaderValues (insertedValues inserts name)) := read_cBuf stored
  cases keyed with
  | @interned key common =>
    cases built
    exact ⟨.inl ⟨by simp,rfl⟩,congrArg some (internedCommonHeader_mangled common),spelled,List.prefix_append _ _,
      valued,cBuf_len _ _,cBuf_pointer _ _⟩
  | @mangled position uncommon pushed =>
    have inside := (List.getElem?_eq_some_iff.mp pushed).1
    rw [headerVar,if_pos inside,Option.some.injEq] at built
    subst built
    refine ⟨.inr ⟨rfl,position,rfl,inside⟩,?_,spelled,List.prefix_append _ _,valued,cBuf_len _ _,cBuf_pointer _ _⟩
    have text : cString (uncommonHeaderKey name) = some (mangleHeaderName name) :=
      cString_terminated (mangle_plain token)
    simpa [ServerVarsBatch.keyText,ServerVarsBatch.deref,pushed] using text

theorem canonical_token {name : Bytes} (token : isToken name = true) : isToken (canonicalHeaderName name) = true := by
  rw [← isToken_lowercase,lowercase_canonical,isToken_lowercase,token]

/-- The batch that is built from a request, with what C finds in each of its descriptors. -/
theorem batch_described {inserts : List (Bytes × Bytes)} {ctx : RequestContext} {request : Request}
    (present : ctx.request = some request) (built : request.headers = inserted inserts)
    (tokens : ∀ entry ∈ inserts, isToken entry.1 = true) :
    ∃ batch cBatch, computeServerVars ctx = some (some batch.known) ∧ buildServerVarsBatch ctx = some (some batch) ∧
      batch.asCBatch = some cBatch ∧ cBatch.vars = batch.known.asFfi ∧ cBatch.numHeaders = cBatch.headers.length ∧
      List.Forall₂ (Describes batch inserts) (canonicalNames inserts) cBatch.headers := by
  have entries : request.headers.entries = _ := built ▸ inserted_entries inserts
  have aligned := aligned_firstPass request.headers.entries
  obtain ⟨known,computed⟩ := computeServerVars_total present
  obtain ⟨headers,passed,count,positions⟩ := secondPass_aligned aligned
  have whole : buildServerVarsBatch ctx = some (some ⟨known,(firstPass request.headers.entries).values,
      (firstPass request.headers.entries).keys,headers⟩) := by
    simp [buildServerVarsBatch,computed,present,passed]
  have sizes : headers.length = (firstPass request.headers.entries).values.length := by
    rw [aligned.values,List.length_map,count]
  refine ⟨_,_,computed,whole,
    if_pos ⟨sizes,Nat.le_trans aligned.keys (by rw [aligned.values,List.length_map])⟩,rfl,rfl,?_⟩
  refine List.forall₂_of_length_eq_of_get (by rw [count,entries,List.length_map]) fun index inNames inHeaders => ?_
  have entry : request.headers.entries[index]? =
      some ((canonicalNames inserts)[index],insertedValues inserts (canonicalNames inserts)[index]) := by
    rw [entries,List.getElem?_map,List.getElem?_eq_getElem inNames,Option.map_some]
  obtain ⟨keyForm,keyed,descriptor⟩ := positions index _ _ entry (List.getElem?_eq_getElem inHeaders)
  have token : isToken (canonicalNames inserts)[index] = true := by
    have found := Multimap.mem_keys.mp (List.getElem_mem inNames)
    simp only [canonicalInserts,List.map_map,List.mem_map] at found
    obtain ⟨source,member,same⟩ := found
    exact same ▸ canonical_token (tokens source member)
  refine describes token keyed ?_ descriptor
  simp only [aligned.values,List.getElem?_map,entry,Option.map_some,List.get_eq_getElem]

/-- The header batch is the plain one: a descriptor for each canonical name in the order
of the map, under the mangled name and with the joined values. -/
theorem serverVars_headers {inserts : List (Bytes × Bytes)} {ctx : RequestContext} {request : Request}
    (present : ctx.request = some request) (built : request.headers = inserted inserts)
    (tokens : ∀ entry ∈ inserts, isToken entry.1 = true) :
    names request.headers.entries = canonicalNames inserts ∧ (canonicalNames inserts).Nodup ∧
      ∃ batch cBatch, buildServerVarsBatch ctx = some (some batch) ∧ batch.asCBatch = some cBatch ∧
        cBatch.numHeaders = cBatch.headers.length ∧
        List.Forall₂ (Describes batch inserts) (canonicalNames inserts) cBatch.headers := by
  have entries : request.headers.entries = _ := built ▸ inserted_entries inserts
  have stored : names request.headers.entries = canonicalNames inserts := by
    rw [names,entries,List.map_map]
    exact List.map_id _
  obtain ⟨batch,cBatch,_,whole,view,_,count,described⟩ := batch_described present built tokens
  exact ⟨stored,Multimap.keys_nodup _,batch,cBatch,whole,view,count,described⟩

/-- A repeated common header in two spellings, an uncommon one and an empty value. -/
def mixedInserts : List (Bytes × Bytes) :=
  [(ascii "accept",ascii "a"),(ascii "x-trace",ascii "t"),(ascii "ACCEPT",ascii "b"),(ascii "Dnt",[])]

def mixedRequest : Request where
  method := ascii "GET"
  rawTarget := ascii "/"
  path := ascii "/"
  query := []
  headers := inserted mixedInserts
  contentLength := 0
  host := ascii "localhost:80"
  remoteAddr := ascii "[::1]:9"
  protoMajor := 1
  protoMinor := 1
  cancelled := false
  body := ⟨none⟩

def mixedContext : RequestContext := RequestContext.new [] none (some mixedRequest) .none

theorem serverVars_headers_mixed :
    canonicalNames mixedInserts = [ascii "Accept",ascii "X-Trace",ascii "Dnt"] ∧
      ∃ batch cBatch, buildServerVarsBatch mixedContext = some (some batch) ∧ batch.asCBatch = some cBatch ∧
        cBatch.numHeaders = cBatch.headers.length ∧
        List.Forall₂ (Describes batch mixedInserts) (canonicalNames mixedInserts) cBatch.headers :=
  have tokens : ∀ entry ∈ mixedInserts, isToken entry.1 = true := by decide +kernel
  have present : mixedContext.request = some mixedRequest := rfl
  have agreed := serverVars_headers present rfl tokens
  ⟨by decide +kernel,agreed.2.2⟩

end Frankenrust.Callbacks
