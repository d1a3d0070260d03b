import Frankenrust.Callbacks.ServerVars
import Frankenrust.Library.Dict
import Frankenrust.Server.Request

/-! How `shim.c` registers the batch in `$_SERVER`, with the functions of `frankenphp.c` that it
calls: the known variables in one go, then the headers one by one, where a later value of a
name takes the place of the earlier one. -/
namespace Frankenrust.Callbacks
open Context Cgi

/-- The array of `$_SERVER`. -/
abbrev TrackVars := List (Bytes × Bytes)

def httpHostKey : Bytes := ascii "HTTP_HOST"

/-- The known variables, by the names of `FRANKENPHP_INTERNED_STRINGS_LIST`. -/
def ServerVars.trusted (vars : ServerVars) : List (Bytes × CBuf) := [
  (ascii "REMOTE_ADDR",vars.remoteAddr),(ascii "REMOTE_HOST",vars.remoteHost),(ascii "REMOTE_PORT",vars.remotePort),
  (ascii "DOCUMENT_ROOT",vars.documentRoot),(ascii "PATH_INFO",vars.pathInfo),(ascii "PHP_SELF",vars.phpSelf),
  (ascii "DOCUMENT_URI",vars.documentUri),(ascii "SCRIPT_FILENAME",vars.scriptFilename),
  (ascii "SCRIPT_NAME",vars.scriptName),(ascii "SSL_CIPHER",vars.sslCipher),(ascii "SERVER_NAME",vars.serverName),
  (ascii "SERVER_PORT",vars.serverPort),(ascii "CONTENT_LENGTH",vars.contentLength),
  (ascii "SERVER_PROTOCOL",vars.serverProtocol),(httpHostKey,vars.httpHost),(ascii "REQUEST_URI",vars.requestUri)]

def ServerVars.hardCoded (vars : ServerVars) : List (Bytes × Bytes) := [
  (ascii "GATEWAY_INTERFACE",ascii "CGI/1.1"),(ascii "SERVER_SOFTWARE",ascii "FrankenPHP"),
  (ascii "REQUEST_SCHEME",vars.requestScheme.text),(ascii "SSL_PROTOCOL",vars.sslProtocol.text),
  (ascii "HTTPS",vars.https.text),(ascii "AUTH_TYPE",[]),(ascii "REMOTE_IDENT",[])]

variable (mainThreadEnv : List (Bytes × Bytes)) (phpRegisterVariableSafe : Bytes → Bytes → TrackVars → TrackVars)

/-- `frankenphp_register_server_vars`, where no `filter.default` is configured. -/
def registerServerVars (batch : ServerVarsBatch) (vars : ServerVars) (table : TrackVars) : Option TrackVars := do
  let values ← vars.trusted.mapM fun entry => (batch.read entry.2).map fun value => (entry.1,value)
  return Dict.setAll vars.hardCoded (Dict.setAll values (Dict.setAll mainThreadEnv table))

/-- One descriptor; a read outside of its buffer is `none`. -/
def registerHeader (batch : ServerVarsBatch) (table : TrackVars) (header : HeaderVar) : Option TrackVars := do
  let key ← batch.keyText header
  let value ← batch.read header.value
  match header.knownKey with
  | some _ => return Dict.set key value table
  | none => return phpRegisterVariableSafe key value table

/-- `go_register_server_variables`. -/
def goRegisterServerVariables (ctx : RequestContext) (table : TrackVars) : Option TrackVars := do
  match ← buildServerVarsBatch ctx with
  | none => return table
  | some batch => do
    let cBatch ← batch.asCBatch
    let known ← registerServerVars mainThreadEnv batch cBatch.vars table
    (cBatch.headers.take cBatch.numHeaders).foldlM (registerHeader phpRegisterVariableSafe batch) known

/-- Names of variables may not hold blanks and dots. -/
def variableByte (byte : UInt8) : UInt8 := if byte = 0x20 ∨ byte = dot then 0x5f else byte

/-- What PHP documents of `php_register_variable_safe` for a name that is not that of an array. -/
def Registers : Prop := ∀ key value table, key ≠ [] → key.head? ≠ some 0x20 → 0x5b ∉ key →
  phpRegisterVariableSafe key value table = Dict.set (key.map variableByte) value table

/-- hyper's header names: lower-case tokens. -/
def Delivered (headers : List (Bytes × Bytes)) : Prop := ∀ entry ∈ headers, isToken entry.1 = true ∧ lowercase entry.1 = entry.1

def hostValues (headers : List (Bytes × Bytes)) : List Bytes := (headers.filter fun entry => entry.1 == ascii "host").map (·.2)

/-- One value that `to_str` takes, or none. -/
def Plain (values : List Bytes) : Prop := values = [] ∨ ∃ value, values = [value] ∧ (Server.toStr value).isSome = true

def hostName : Bytes := ascii "Host"

def ComputedServerVars.trusted (known : ComputedServerVars) : List (Bytes × Bytes) := [
  (ascii "REMOTE_ADDR",known.remoteAddr),(ascii "REMOTE_HOST",known.remoteAddr),(ascii "REMOTE_PORT",known.remotePort),
  (ascii "DOCUMENT_ROOT",known.documentRoot),(ascii "PATH_INFO",known.pathInfo),(ascii "PHP_SELF",known.phpSelf),
  (ascii "DOCUMENT_URI",known.documentUri),(ascii "SCRIPT_FILENAME",known.scriptFilename),
  (ascii "SCRIPT_NAME",known.scriptName),(ascii "SSL_CIPHER",[]),(ascii "SERVER_NAME",known.serverName),
  (ascii "SERVER_PORT",known.serverPort),(ascii "CONTENT_LENGTH",known.contentLength),
  (ascii "SERVER_PROTOCOL",known.serverProtocol),(httpHostKey,known.httpHost),(ascii "REQUEST_URI",known.requestUri)]

theorem trusted_read (batch : ServerVarsBatch) :
    (batch.known.asFfi.trusted.mapM fun entry => (batch.read entry.2).map fun value => (entry.1,value)) =
      some batch.known.trusted := by
  have reads (buffer : Buffer) (bytes : Bytes) (held : batch.deref buffer = some bytes) :
      batch.read (cBuf buffer bytes) = some bytes := read_cBuf held
  have cipher : batch.read ⟨none,0⟩ = some [] := rfl
  simp only [ServerVars.trusted,ComputedServerVars.asFfi,List.mapM_cons,List.mapM_nil,
    reads .remoteAddr _ rfl,reads .remotePort _ rfl,reads .documentRoot _ rfl,reads .pathInfo _ rfl,reads .phpSelf _ rfl,
    reads .documentUri _ rfl,reads .scriptFilename _ rfl,reads .scriptName _ rfl,cipher,reads .serverName _ rfl,
    reads .serverPort _ rfl,reads .contentLength _ rfl,reads .serverProtocol _ rfl,reads .httpHost _ rfl,
    reads .requestUri _ rfl,Option.map_some,Option.bind_eq_bind,Option.bind_some,Option.pure_def]
  rfl

theorem registerServerVars_host (batch : ServerVarsBatch) (table : TrackVars) :
    ∃ known, registerServerVars mainThreadEnv batch batch.known.asFfi table = some known ∧
      Dict.get httpHostKey known = some batch.known.httpHost := by
  have hardCoded : Dict.latest httpHostKey batch.known.asFfi.hardCoded = none := rfl
  have trusted : Dict.latest httpHostKey batch.known.trusted = some batch.known.httpHost := rfl
  refine ⟨Dict.setAll batch.known.asFfi.hardCoded (Dict.setAll batch.known.trusted (Dict.setAll mainThreadEnv table)),?_,?_⟩
  · rw [registerServerVars,trusted_read]
    rfl
  · rw [Dict.get_setAll,Dict.get_setAll,hardCoded,trusted]
    rfl

theorem variableByte_letter (byte : UInt8) : 0x41 ≤ variableByte (mangleByte byte) → variableByte (mangleByte byte) ≤ 0x5a →
    toAsciiLowercase byte = variableByte (mangleByte byte) + 0x20 := by
  revert byte
  exact byte_cases (by decide +kernel)

theorem mangleByte_bracket (byte : UInt8) : isHeaderFieldByte byte = true → mangleByte byte ≠ 0x5b := by
  revert byte
  exact byte_cases (by decide +kernel)

theorem lowercase_of_variable {name : Bytes} : ∀ {letters : Bytes}, (∀ byte ∈ letters, 0x41 ≤ byte ∧ byte ≤ 0x5a) →
    (name.map mangleByte).map variableByte = letters → lowercase name = letters.map (· + 0x20) := by
  induction name with
  | nil =>
    rintro _ _ rfl
    rfl
  | cons byte name ih =>
    rintro _ upper rfl
    have first := upper (variableByte (mangleByte byte)) (by simp)
    have rest := ih (fun other member => upper other (List.mem_cons_of_mem _ member)) rfl
    simp only [lowercase,List.map_cons] at rest ⊢
    rw [variableByte_letter byte first.1 first.2,rest]

/-- Only the spellings of one name become the variable of the host. -/
theorem httpHost_of_variable {name : Bytes} (same : (mangleHeaderName name).map variableByte = httpHostKey) :
    lowercase name = ascii "host" := by
  have front : httpHostKey = httpPrefix.map variableByte ++ ascii "HOST" := by decide +kernel
  rw [mangleHeaderName,List.map_append,front,List.append_cancel_left_eq] at same
  have letters : ∀ byte ∈ ascii "HOST", (0x41 : UInt8) ≤ byte ∧ byte ≤ 0x5a := by decide +kernel
  rw [lowercase_of_variable letters same]
  decide +kernel

/-- A delivered name is that of the host or one whose variable is another. -/
theorem canonical_host {name : Bytes} (token : isToken name = true) (lower : lowercase name = name) :
    canonicalHeaderName name = hostName ↔ name = ascii "host" := by
  have spelled : lowercase hostName = ascii "host" := by decide +kernel
  have canonical : canonicalHeaderName hostName = hostName := by decide +kernel
  rw [← canonical,canonical_iff token,spelled,lower]

section Registering
variable {phpRegisterVariableSafe} (registers : Registers phpRegisterVariableSafe)
  {batch : ServerVarsBatch} {inserts : List (Bytes × Bytes)}
include registers

theorem registerHeader_set {name : Bytes} {header : HeaderVar} (described : Describes batch inserts name header)
    (token : isToken name = true) (table : TrackVars) :
    ∃ key, key.map variableByte = (mangleHeaderName name).map variableByte ∧
      (name = hostName → key = httpHostKey) ∧ registerHeader phpRegisterVariableSafe batch table header =
        some (Dict.set key (joinHeaderValues (insertedValues inserts name)) table) := by
  have host : mangleHeaderName hostName = httpHostKey ∧ httpHostKey.map variableByte = httpHostKey := by decide +kernel
  cases form : header.knownKey with
  | some interned =>
    refine ⟨mangleHeaderName name,rfl,fun same => same ▸ host.1,?_⟩
    simp [registerHeader,described.keyText,described.value,form]
  | none =>
    have again (byte : UInt8) : variableByte (variableByte byte) = variableByte byte := by
      revert byte
      exact byte_cases (by decide +kernel)
    have plain : 0x5b ∉ mangleHeaderName name := by
      rw [mangleHeaderName,List.mem_append,List.mem_map]
      rintro (front | ⟨byte,member,bracket⟩)
      · revert front
        decide
      · exact mangleByte_bracket byte (List.all_eq_true.mp (token_fields token) byte member) bracket
    have front : (mangleHeaderName name).head? = some 0x48 := rfl
    have set := registers (mangleHeaderName name) (joinHeaderValues (insertedValues inserts name)) table
      (by simp [mangleHeaderName,httpPrefix,ascii]) (by simp [front]) plain
    refine ⟨(mangleHeaderName name).map variableByte,by simp [again],?_,?_⟩
    · rintro rfl
      rw [host.1,host.2]
    · simp [registerHeader,described.keyText,described.value,form,set]

/-- One header more: the host's value takes the place of what was there, another's does not. -/
theorem registerHeader_host {name : Bytes} {header : HeaderVar} (described : Describes batch inserts name header)
    (token : isToken name = true) (spelled : lowercase name = ascii "host" → name = hostName) (table : TrackVars) :
    ∃ registered, registerHeader phpRegisterVariableSafe batch table header = some registered ∧
      Dict.get httpHostKey registered =
        if name = hostName then some (joinHeaderValues (insertedValues inserts name)) else Dict.get httpHostKey table := by
  obtain ⟨key,alike,known,set⟩ := registerHeader_set registers described token table
  refine ⟨_,set,?_⟩
  have host : httpHostKey.map variableByte = httpHostKey := by decide +kernel
  have same : httpHostKey = key ↔ name = hostName := by
    refine ⟨?_,fun same => (known same).symm⟩
    rintro rfl
    exact spelled (httpHost_of_variable (alike ▸ host))
  rw [Dict.get_set]
  simp only [same]

theorem registerHeaders_host {names : List Bytes} {headers : List HeaderVar}
    (described : List.Forall₂ (Describes batch inserts) names headers) (distinct : names.Nodup)
    (tokens : ∀ name ∈ names, isToken name = true ∧ (lowercase name = ascii "host" → name = hostName)) (table : TrackVars) :
    ∃ registered, headers.foldlM (registerHeader phpRegisterVariableSafe batch) table = some registered ∧
      Dict.get httpHostKey registered =
        if hostName ∈ names then some (joinHeaderValues (insertedValues inserts hostName))
        else Dict.get httpHostKey table := by
  induction described generalizing table with
  | nil => exact ⟨table,rfl,by simp⟩
  | @cons name header names headers first _ ih =>
    obtain ⟨fresh,apart⟩ := List.nodup_cons.mp distinct
    obtain ⟨token,spelled⟩ := tokens name (by simp)
    obtain ⟨next,step,now⟩ := registerHeader_host registers first token spelled table
    obtain ⟨registered,rest,later⟩ := ih apart (fun other member => tokens other (List.mem_cons_of_mem _ member)) next
    refine ⟨registered,by simp [List.foldlM_cons,step,rest],?_⟩
    rw [later,now]
    by_cases host : name = hostName
    · rw [host] at fresh
      simp [host,fresh]
    · simp [host,Ne.symm host]

end Registering

theorem insertedValues_host {headers : List (Bytes × Bytes)} (delivered : Delivered headers) :
    insertedValues headers hostName = hostValues headers := by
  induction headers with
  | nil => rfl
  | cons entry headers ih =>
    obtain ⟨token,lower⟩ := delivered entry (by simp)
    have rest := ih fun other member => delivered other (List.mem_cons_of_mem _ member)
    have host := canonical_host token lower
    simp only [insertedValues,Multimap.valuesOf,canonicalInserts,hostValues,List.map_cons,List.filter_cons] at rest ⊢
    by_cases same : entry.1 = ascii "host"
    · rw [if_pos (by simpa using host.mpr same),if_pos (by simpa using same),List.map_cons,List.map_cons,rest]
    · rw [if_neg (by simpa using mt host.mp same),if_neg (by simpa using same),rest]

theorem host_mem {headers : List (Bytes × Bytes)} : hostName ∈ canonicalNames headers ↔ insertedValues headers hostName ≠ [] := by
  rw [ne_eq,insertedValues,Multimap.valuesOf_nil,canonicalNames,Multimap.mem_keys,not_not]

/-- The host of the request is the first value, where it is readable. -/
theorem hostOf_values (headers : List (Bytes × Bytes)) :
    Server.hostOf headers = ((hostValues headers).head?.bind Server.toStr).getD [] := by
  rw [Server.hostOf,hostValues,List.head?_map,List.head?_filter]

theorem toStr_some {value text : Bytes} (read : Server.toStr value = some text) : text = value := by
  unfold Server.toStr at read
  split at read
  · exact (Option.some.inj read).symm
  · contradiction

theorem plain_iff (values : List Bytes) :
    (if values ≠ [] then joinHeaderValues values else (values.head?.bind Server.toStr).getD []) =
      (values.head?.bind Server.toStr).getD [] ↔ Plain values := by
  cases values with
  | nil => simp [Plain]
  | cons value rest =>
    rw [if_pos (by simp),joinHeaderValues_eq,List.head?_cons,Option.bind_some]
    have shorter : ((Server.toStr value).getD []).length ≤ value.length := by
      cases read : Server.toStr value with
      | none => simp
      | some text => simp [toStr_some read]
    cases rest with
    | nil =>
      cases read : Server.toStr value with
      | some text => simp [Plain,read,toStr_some read]
      | none =>
        have filled : value ≠ [] := by
          rintro rfl
          cases read
        simpa [Plain,read] using filled
    | cons second rest =>
      have longer : (ascii ", ").intercalate (value :: second :: rest) ≠ (Server.toStr value).getD [] := by
        intro same
        have lengths := congrArg List.length same
        rw [List.intercalate_cons_cons,List.append_assoc,List.length_append,List.length_append] at lengths
        have separator : (ascii ", ").length = 2 := by decide +kernel
        omega
      simpa [Plain] using longer

theorem host_derived {ctx : RequestContext} {request : Request} {known : ComputedServerVars}
    (present : ctx.request = some request) (computed : computeServerVars ctx = some (some known)) :
    known.httpHost = request.host ∧ deriveServerNameAndPort request.host .http = some (known.serverName,known.serverPort) := by
  simp only [computeServerVars,present,Option.bind_eq_bind,Option.pure_def,Option.bind_eq_some_iff,Option.some.injEq] at computed
  obtain ⟨_,_,derived,found,rfl⟩ := computed
  exact ⟨rfl,found⟩

/-- The variable of the host is the host of the request just where there is one readable
`Host` header or none: repeated values are joined, and an unreadable one is registered after
the empty host that the server's name is derived from. -/
theorem httpHost_consistent {parts : Server.Parts} {body remoteAddr path : Bytes} {ctx : RequestContext}
    {table : TrackVars} (registers : Registers phpRegisterVariableSafe) (delivered : Delivered parts.headers)
    (present : ctx.request = some { Server.buildRequest parts body remoteAddr with path }) :
    ∃ known registered, computeServerVars ctx = some (some known) ∧
      deriveServerNameAndPort (Server.buildRequest parts body remoteAddr).host .http =
        some (known.serverName,known.serverPort) ∧
      goRegisterServerVariables mainThreadEnv phpRegisterVariableSafe ctx table = some registered ∧
      (Dict.get httpHostKey registered = some (Server.buildRequest parts body remoteAddr).host ↔
        Plain (hostValues parts.headers)) := by
  have tokens : ∀ entry ∈ parts.headers, isToken entry.1 = true := fun entry member => (delivered entry member).1
  obtain ⟨batch,cBatch,computed,built,view,vars,count,described⟩ := batch_described present rfl tokens
  have derived : batch.known.httpHost = Server.hostOf parts.headers ∧
      deriveServerNameAndPort (Server.hostOf parts.headers) .http = some (batch.known.serverName,batch.known.serverPort) :=
    host_derived present computed
  obtain ⟨known,first,host⟩ := registerServerVars_host mainThreadEnv batch table
  have spelled : ∀ name ∈ canonicalNames parts.headers,
      isToken name = true ∧ (lowercase name = ascii "host" → name = hostName) := by
    intro name member
    simp only [canonicalNames,Multimap.mem_keys,canonicalInserts,List.map_map,List.mem_map] at member
    obtain ⟨entry,inside,rfl⟩ := member
    obtain ⟨token,lower⟩ := delivered entry inside
    refine ⟨canonical_token token,fun same => (canonical_host token lower).mpr ?_⟩
    rw [← lower,← lowercase_canonical]
    exact same
  obtain ⟨registered,rest,last⟩ := registerHeaders_host registers described (Multimap.keys_nodup _) spelled known
  refine ⟨batch.known,registered,computed,derived.2,?_,?_⟩
  · rw [goRegisterServerVariables,built]
    simp [view,vars,first,count,rest]
  · have request : (Server.buildRequest parts body remoteAddr).host = Server.hostOf parts.headers := rfl
    rw [last,host,derived.1,request,insertedValues_host delivered,← plain_iff,hostOf_values]
    simp only [host_mem,insertedValues_host delivered]
    split <;> simp

/-- Registration in the table, as PHP does it for a plain name. -/
def registerPlain (key value : Bytes) (table : TrackVars) : TrackVars := Dict.set (key.map variableByte) value table

theorem registers_plain : Registers registerPlain := fun _ _ _ _ _ _ => rfl

def hostParts (hosts : List Bytes) : Server.Parts where
  method := ascii "GET"
  path := ascii "/"
  query := none
  pathAndQuery := none
  version := .http11
  headers := (ascii "accept",ascii "text/html") :: hosts.map fun host => (ascii "host",host)

def hostContext (hosts : List Bytes) : RequestContext :=
  RequestContext.new [] none (some (Server.buildRequest (hostParts hosts) [] (ascii "[::1]:9"))) .none

theorem httpHost_repeated : Registers registerPlain ∧ Delivered (hostParts [ascii "a",ascii "b"]).headers ∧
    (goRegisterServerVariables [] registerPlain (hostContext [ascii "a",ascii "b"]) []).map (Dict.get httpHostKey) =
      some (some (ascii "a, b")) ∧
    (hostContext [ascii "a",ascii "b"]).request.map (·.host) = some (ascii "a") := by
  have delivered : Delivered (hostParts [ascii "a",ascii "b"]).headers := by
    unfold Delivered
    decide +kernel
  exact ⟨registers_plain,delivered,by decide +kernel,by decide +kernel⟩

theorem httpHost_single : ∃ known registered, computeServerVars (hostContext [ascii "a:80"]) = some (some known) ∧
    deriveServerNameAndPort (ascii "a:80") .http = some (known.serverName,known.serverPort) ∧
    goRegisterServerVariables [] registerPlain (hostContext [ascii "a:80"]) [] = some registered ∧
    (Dict.get httpHostKey registered = some (ascii "a:80") ↔ Plain (hostValues (hostParts [ascii "a:80"]).headers)) :=
  have delivered : Delivered (hostParts [ascii "a:80"]).headers := by
    unfold Delivered
    decide +kernel
  @httpHost_consistent [] registerPlain (hostParts [ascii "a:80"]) [] (ascii "[::1]:9") (ascii "/") _ []
    registers_plain delivered rfl

end Frankenrust.Callbacks
