import Frankenrust.Context.HeaderOrder
import Frankenrust.Server.Completion
import Mathlib.Data.List.Induction

/-! The response handed to hyper, `response.rs`, and what the calls of
`go_write_headers` make of it. hyper's header and status types are a parameter. -/
namespace Frankenrust.Server
open Context Callbacks

/-- hyper's `HeaderName`, `HeaderValue`, `HeaderMap` and `StatusCode`. -/
structure Hyper (Name Map : Type) where
  headerName : Bytes → Option Name
  headerValue : Bytes → Bool
  empty : Map
  append : Map → Name → Bytes → Map
  getAll : Map → Name → List Bytes
  fromU16 : Nat → Option Nat

/-- The documented behaviour of these types: names are tokens folded to one case, the
map keeps the values of a name in order, and a status has three digits. -/
structure Hyper.Lawful {Name Map : Type} [DecidableEq Name] (hyper : Hyper Name Map) : Prop where
  token : ∀ text name, hyper.headerName text = some name → isToken text = true
  folded : ∀ text, hyper.headerName (lowercase text) = hyper.headerName text
  distinct : ∀ first second name, hyper.headerName first = some name →
    hyper.headerName second = some name → lowercase first = lowercase second
  getAll_empty : ∀ name, hyper.getAll hyper.empty name = []
  getAll_append : ∀ map name value wanted, hyper.getAll (hyper.append map name value) wanted =
    hyper.getAll map wanted ++ if name = wanted then [value] else []
  fromU16_eq : ∀ status, hyper.fromU16 status = if 100 ≤ status ∧ status ≤ 999 then some status else none

structure Response (Map : Type) where
  status : Nat
  headers : Map
  body : Bytes

variable {Name Map : Type}

def appendValue (hyper : Hyper Name Map) (name : Name) (map : Map) (value : Bytes) : Map :=
  if hyper.headerValue value then hyper.append map name value else map

def appendEntry (hyper : Hyper Name Map) (map : Map) (entry : Bytes × List Bytes) : Map :=
  match hyper.headerName entry.1 with
  | none => map
  | some name => entry.2.foldl (appendValue hyper name) map

def buildResponse (hyper : Hyper Name Map) (buffer : SharedResponseBuffer) : Response Map where
  status := (hyper.fromU16 buffer.status).getD 200
  headers := buffer.headers.entries.foldl (appendEntry hyper) hyper.empty
  body := buffer.body

abbrev HeaderCall := Int × List Bytes

def HeaderCall.status (call : HeaderCall) : Nat := (clampStatus call.1).1

def respond (hyper : Hyper Name Map) (ctx : RequestContext) (calls : List HeaderCall) : Response Map :=
  buildResponse hyper
    (runCallbacks bufferedResponseSink (calls.map fun call => .writeHeaders call.1 call.2) (served ctx)).sink

def currentLines (calls : List HeaderCall) : List Bytes :=
  (calls.reverse.takeWhile fun call => 200 ≤ call.status).reverse.flatMap (·.2)

def finalStatus (calls : List HeaderCall) : Nat :=
  ((calls.map HeaderCall.status).filter (200 ≤ ·)).getLast?.getD 200

def lineValue (hyper : Hyper Name Map) (wanted raw : Bytes) : Option Bytes :=
  (splitHeader raw).bind fun header =>
    if lowercase header.1 = lowercase wanted ∧ hyper.headerValue header.2 then some header.2 else none

/-- What the response to a sequence of calls has to be. -/
structure Rendered (hyper : Hyper Name Map) (calls : List HeaderCall) (response : Response Map) : Prop where
  headers : ∀ wanted name, hyper.headerName wanted = some name →
    hyper.getAll response.headers name = (currentLines calls).filterMap (lineValue hyper wanted)
  status : response.status = finalStatus calls
  final : 200 ≤ response.status

def EndsFinal (calls : List HeaderCall) : Prop := ∀ call ∈ calls.getLast?, 200 ≤ call.status

def addLine (headers : Headers) (raw : Bytes) : Headers :=
  match splitHeader raw with
  | some (name,value) => headers.insert (Utf8.lossy name) value
  | none => headers

def writeCall (shared : SharedResponseBuffer) (call : HeaderCall) : SharedResponseBuffer where
  status := call.status
  headers := if call.status < 200 then Headers.empty else call.2.foldl addLine shared.headers
  body := shared.body

theorem foldl_writeHeader_eq (headers : List Bytes) (slot : Slot SharedResponseBuffer) :
    ∃ logged, headers.foldl (writeHeader bufferedResponseSink) slot =
      { slot with
        sink := { slot.sink with headers := headers.foldl addLine slot.sink.headers }
        logged := logged } := by
  induction headers generalizing slot with
  | nil => exact ⟨slot.logged,rfl⟩
  | cons raw headers ih =>
    obtain ⟨logged,shape⟩ := ih (writeHeader bufferedResponseSink slot raw)
    refine ⟨logged,?_⟩
    rw [List.foldl_cons,shape]
    unfold writeHeader addLine
    cases split : splitHeader raw <;> simp [split,bufferedResponseSink,Slot.log]

theorem goWriteHeaders_sink {slot : Slot SharedResponseBuffer} {ctx : RequestContext}
    (installed : slot.ctx = some ctx) (active : ctx.isDone = false) (sink : ctx.responseSink = true)
    (call : HeaderCall) :
    (goWriteHeaders bufferedResponseSink call.1 call.2 slot).2.sink = writeCall slot.sink call := by
  obtain ⟨logged,lines⟩ := foldl_writeHeader_eq call.2 slot
  obtain ⟨effective,clamped⟩ : ∃ effective, (clampStatus call.1).1 = effective := ⟨_,rfl⟩
  simp only [goWriteHeaders,installed,active,sink,lines,writeCall,HeaderCall.status,clamped]
  by_cases informational : effective < 200 <;> cases (clampStatus call.1).2 <;>
    simp [informational,bufferedResponseSink,Headers.clear,Headers.empty,Slot.log]

theorem run_writeHeaders {signal : CompletionSignal} {cancelled : Option Bool} {fired : Nat}
    {slot : Slot SharedResponseBuffer} (opened : Open true signal cancelled fired slot) (calls : List HeaderCall) :
    (runCallbacks bufferedResponseSink (calls.map fun call => .writeHeaders call.1 call.2) slot).sink =
      calls.foldl writeCall slot.sink := by
  induction calls generalizing cancelled slot with
  | nil => rfl
  | cons call calls ih =>
    obtain ⟨ctx,installed,active,sink⟩ := open_slot opened
    have plain : (Callback.writeHeaders call.1 call.2).closes = false := rfl
    have later := ih (step_open bufferedResponseSink opened plain)
    rw [show (Callback.step bufferedResponseSink slot (.writeHeaders call.1 call.2)).sink = _ from
      goWriteHeaders_sink installed active sink call] at later
    exact later

theorem currentLines_snoc (calls : List HeaderCall) (call : HeaderCall) :
    currentLines (calls ++ [call]) = if 200 ≤ call.status then currentLines calls ++ call.2 else [] := by
  unfold currentLines
  by_cases final : 200 ≤ call.status <;> simp [final]

theorem finalStatus_snoc (calls : List HeaderCall) (call : HeaderCall) :
    finalStatus (calls ++ [call]) = if 200 ≤ call.status then call.status else finalStatus calls := by
  unfold finalStatus
  by_cases final : 200 ≤ call.status <;> simp [final]

theorem finalStatus_final (calls : List HeaderCall) : 200 ≤ finalStatus calls := by
  induction calls using List.reverseRecOn with
  | nil => exact Nat.le_refl _
  | append_singleton calls call ih =>
    rw [finalStatus_snoc]
    split
    · assumption
    · exact ih

theorem foldl_writeCall_headers (calls : List HeaderCall) :
    (calls.foldl writeCall SharedResponseBuffer.default).headers =
      (currentLines calls).foldl addLine Headers.empty := by
  induction calls using List.reverseRecOn with
  | nil => rfl
  | append_singleton calls call ih =>
    rw [List.foldl_append,currentLines_snoc]
    by_cases final : 200 ≤ call.status
    · have kept : ¬call.status < 200 := Nat.not_lt.mpr final
      simp [writeCall,final,kept,ih]
    · simp [writeCall,final,Nat.lt_of_not_le final]

theorem respond_eq (hyper : Hyper Name Map) {ctx : RequestContext} (active : ctx.isDone = false)
    (sink : ctx.responseSink = true) (calls : List HeaderCall) :
    respond hyper ctx calls = buildResponse hyper (calls.foldl writeCall SharedResponseBuffer.default) :=
  congrArg (buildResponse hyper) (run_writeHeaders (served_open active sink) calls)

section
variable [DecidableEq Name] {hyper : Hyper Name Map}

theorem getAll_values (lawful : hyper.Lawful) (name wanted : Name) (values : List Bytes) (map : Map) :
    hyper.getAll (values.foldl (appendValue hyper name) map) wanted =
      hyper.getAll map wanted ++ if name = wanted then values.filter hyper.headerValue else [] := by
  induction values generalizing map with
  | nil => simp
  | cons value values ih =>
    rw [List.foldl_cons,ih]
    unfold appendValue
    by_cases valid : hyper.headerValue value = true <;> by_cases same : name = wanted <;>
      simp [valid,same,lawful.getAll_append]

theorem getAll_entries (lawful : hyper.Lawful) (wanted : Name) (entries : List (Bytes × List Bytes))
    (map : Map) :
    hyper.getAll (entries.foldl (appendEntry hyper) map) wanted = hyper.getAll map wanted ++
      (selected (fun text => hyper.headerName text = some wanted) entries).filter hyper.headerValue := by
  induction entries generalizing map with
  | nil => simp [selected]
  | cons entry entries ih =>
    obtain ⟨text,values⟩ := entry
    rw [List.foldl_cons,ih]
    simp only [selected,List.flatMap_cons,List.filter_append,← List.append_assoc]
    congr 1
    unfold appendEntry
    cases named : hyper.headerName text with
    | none => simp
    | some name =>
      rw [getAll_values lawful]
      by_cases same : name = wanted <;> simp [same]

theorem lossy_token {name : Bytes} (token : isToken (Utf8.lossy name) = true) : Utf8.lossy name = name := by
  apply Utf8.lossy_ascii
  intro byte member
  apply by_contradiction
  intro high
  obtain ⟨other,found,large⟩ := Utf8.lossy_nonascii name ⟨byte,member,high⟩
  exact large (token_ascii token other found)

theorem stored_name (lawful : hyper.Lawful) {wanted : Bytes} {key : Name}
    (named : hyper.headerName wanted = some key) (name : Bytes) :
    hyper.headerName (canonicalHeaderName (Utf8.lossy name)) = some key ↔ lowercase name = lowercase wanted := by
  rw [← lawful.folded,lowercase_canonical,lawful.folded]
  constructor
  · intro found
    have same := lawful.distinct _ _ _ found named
    rwa [lossy_token (lawful.token _ _ found)] at same
  · intro same
    have token : isToken name = true := by
      rw [← isToken_lowercase,same,isToken_lowercase]
      exact lawful.token _ _ named
    rw [Utf8.lossy_ascii name (token_ascii token),← lawful.folded,same,lawful.folded,named]

theorem selected_addLine (lawful : hyper.Lawful) {wanted : Bytes} {key : Name}
    (named : hyper.headerName wanted = some key) {headers : Headers} (stored : Stored headers) (raw : Bytes) :
    Stored (addLine headers raw) ∧
      (selected (fun text => hyper.headerName text = some key) (addLine headers raw).entries).filter
          hyper.headerValue =
        (selected (fun text => hyper.headerName text = some key) headers.entries).filter hyper.headerValue ++
          (lineValue hyper wanted raw).toList := by
  unfold addLine lineValue
  cases split : splitHeader raw with
  | none => exact ⟨stored,by simp⟩
  | some header =>
    obtain ⟨name,value⟩ := header
    refine ⟨stored_insert stored _ _,?_⟩
    have added := selected_insertEntry (fun text => hyper.headerName text = some key)
      (canonicalHeaderName (Utf8.lossy name)) value headers.entries stored.distinct (by
        intro other member chosen inserted
        have same := lawful.distinct _ _ _ (of_decide_eq_true chosen) (of_decide_eq_true inserted)
        have token := lawful.token _ _ (of_decide_eq_true chosen)
        rw [← stored.canonical other member,canonical_of_lowercase (token_fields token) same,
          canonical_canonical])
    simp only [Headers.insert,added,List.filter_append,stored_name lawful named name,decide_eq_true_eq]
    congr 1
    by_cases same : lowercase name = lowercase wanted <;> by_cases valid : hyper.headerValue value = true <;>
      simp [same,valid]

theorem selected_addLines (lawful : hyper.Lawful) {wanted : Bytes} {key : Name}
    (named : hyper.headerName wanted = some key) {headers : Headers} (stored : Stored headers)
    (lines : List Bytes) :
    (selected (fun text => hyper.headerName text = some key) (lines.foldl addLine headers).entries).filter
        hyper.headerValue =
      (selected (fun text => hyper.headerName text = some key) headers.entries).filter hyper.headerValue ++
        lines.filterMap (lineValue hyper wanted) := by
  induction lines generalizing headers with
  | nil => simp
  | cons raw lines ih =>
    obtain ⟨kept,added⟩ := selected_addLine lawful named stored raw
    rw [List.foldl_cons,ih kept,added,List.append_assoc]
    congr 1
    cases value : lineValue hyper wanted raw <;> simp [value]

theorem clampStatus_range (raw : Int) : 100 ≤ (clampStatus raw).1 ∧ (clampStatus raw).1 ≤ 999 := by
  unfold clampStatus
  split
  · dsimp only
    omega
  · decide

theorem respond_headers (lawful : hyper.Lawful) {ctx : RequestContext} (active : ctx.isDone = false)
    (sink : ctx.responseSink = true) (calls : List HeaderCall) {wanted : Bytes} {name : Name}
    (named : hyper.headerName wanted = some name) :
    hyper.getAll (respond hyper ctx calls).headers name =
      (currentLines calls).filterMap (lineValue hyper wanted) := by
  rw [respond_eq hyper active sink,buildResponse,foldl_writeCall_headers,getAll_entries lawful,
    selected_addLines lawful named stored_empty,lawful.getAll_empty]
  rfl

theorem respond_status (lawful : hyper.Lawful) {ctx : RequestContext} (active : ctx.isDone = false)
    (sink : ctx.responseSink = true) (calls : List HeaderCall) :
    (respond hyper ctx calls).status = (calls.getLast?.map HeaderCall.status).getD 200 := by
  rw [respond_eq hyper active sink,buildResponse]
  rcases List.eq_nil_or_concat' calls with rfl | ⟨front,call,rfl⟩
  · simp [SharedResponseBuffer.default,lawful.fromU16_eq]
  · have range : 100 ≤ call.status ∧ call.status ≤ 999 := clampStatus_range call.1
    simp [writeCall,lawful.fromU16_eq,range]

/-- The response is the one its calls describe exactly when they do not end with an
informational one; such a call leaves its status behind in the buffer. -/
theorem rendered_iff (lawful : hyper.Lawful) (ctx : RequestContext) (active : ctx.isDone = false)
    (sink : ctx.responseSink = true) (calls : List HeaderCall) :
    Rendered hyper calls (respond hyper ctx calls) ↔ EndsFinal calls := by
  have status := respond_status lawful active sink calls
  constructor
  · intro rendered call last
    have final := rendered.final
    rw [status,Option.mem_def.mp last] at final
    exact final
  · intro ends
    have same : (respond hyper ctx calls).status = finalStatus calls := by
      rw [status]
      rcases List.eq_nil_or_concat' calls with rfl | ⟨front,call,rfl⟩
      · rfl
      · have final := ends call (by simp)
        simp [finalStatus_snoc,final]
    exact ⟨fun _ _ => respond_headers lawful active sink calls,same,same ▸ finalStatus_final calls⟩

end

/-- hyper's types over plain bytes: a name is its lower-case text, a map the list of its
entries. -/
def plainHyper : Hyper Bytes (List (Bytes × Bytes)) where
  headerName text := if isToken text then some (lowercase text) else none
  headerValue value := value.all fun byte => (0x20 ≤ byte && byte != 0x7f) || byte == 0x09
  empty := []
  append map name value := map ++ [(name,value)]
  getAll map name := (map.filter (·.1 == name)).map (·.2)
  fromU16 status := if 100 ≤ status ∧ status ≤ 999 then some status else none

theorem plainHyper_lawful : plainHyper.Lawful where
  token text name named := by
    by_contra other
    simp [plainHyper,other] at named
  folded text := by
    have twice : lowercase (lowercase text) = lowercase text := by
      simp [lowercase,(lower_byte _).1]
    simp [plainHyper,isToken_lowercase,twice]
  distinct first second name front back := by
    simp only [plainHyper,Option.ite_none_right_eq_some,Option.some.injEq] at front back
    rw [front.2,back.2]
  getAll_empty name := rfl
  getAll_append map name value wanted := by
    by_cases same : name = wanted <;> simp [plainHyper,same]
  fromU16_eq status := rfl

theorem rendered_after_hints :
    Rendered plainHyper [(103,[ascii "Link: </a.css>"]),(404,[ascii "X-Tag:  1",ascii "x-tag: 2"])]
      (respond plainHyper { RequestContext.new [] none none .pending with responseSink := true }
        [(103,[ascii "Link: </a.css>"]),(404,[ascii "X-Tag:  1",ascii "x-tag: 2"])]) := by
  refine (rendered_iff plainHyper_lawful _ rfl rfl _).mpr ?_
  intro call last
  cases last
  decide

/-- A script that only sends early hints is answered with them as its final response. -/
theorem rendered_hints_only :
    ¬Rendered plainHyper [(103,[])]
      (respond plainHyper { RequestContext.new [] none none .pending with responseSink := true } [(103,[])]) := by
  intro rendered
  exact absurd rendered.final (by decide)

end Frankenrust.Server
