import Frankenrust.Callbacks.RequestInfo

/-! What a PHP thread keeps of a request when it goes on to the next one: the loop of
`php_thread` in `frankenphp.c` over the requests that it is given. -/
namespace Frankenrust.Callbacks
open Context Cgi

/-- The loop of `join_values`. -/
def joinValuesFrom (sep : Bytes) : Nat → List Bytes → Bytes
  | _, [] => []
  | i, value :: rest => (if i > 0 then sep else []) ++ value ++ joinValuesFrom sep (i + 1) rest

def joinValues (values : List Bytes) (sep : Bytes) : Bytes := joinValuesFrom sep 0 values

/-- The copy that `malloc_c_string` makes of its bytes, where `malloc` has room for them. -/
def mallocCString (room : Nat → Bool) (bytes : Bytes) : Option Bytes :=
  if room (bytes.length + 1) then some (bytes ++ [nul]) else none

def goReadCookies (room : Nat → Bool) (ctx : RequestContext) : Option Bytes :=
  match ctx.request with
  | none => none
  | some request =>
    let values := (request.headers.getAll (ascii "Cookie")).getD []
    let joined := joinValues values (ascii "; ")
    if joined = [] then none else mallocCString room (joined.filter (· != nul))

/-- Where the thread bails out of a request, if it does: in `php_request_startup`, before or
after the cookies are read, in the script or in `php_request_shutdown`. -/
inductive Course
  | served
  | failedStartup (cookies : Bool)
  | failedScript
  | failedShutdown
  deriving DecidableEq

/-- `allocated` and `freed` count the strings of cookies, `released` says that the context is
gone with what the fields of `info` point at, and `seen` is what each script found. -/
structure PhpThread where
  info : RequestInfo
  cookieData : Option Bytes
  released : Bool
  allocated : Nat
  freed : Nat
  seen : List (Option (TrackVars × Option Bytes))
  deriving DecidableEq

def RequestInfo.blank : RequestInfo := ⟨none,none,none,none,none,none,0,0⟩

/-- A thread starts with zeroed globals. -/
def PhpThread.boot (thread : PhpThread) : PhpThread := { thread with info := .blank, cookieData := none, released := true }

def PhpThread.new : PhpThread := ⟨.blank,none,true,0,0,[]⟩

def frankenphpFreeRequestContext (thread : PhpThread) : PhpThread :=
  let thread := if thread.cookieData.isSome then { thread with freed := thread.freed + 1, cookieData := none } else thread
  { thread with info := { thread.info with
      requestMethod := none, queryString := none, contentType := none, pathTranslated := none, requestUri := none } }

section Serving
variable (mainThreadEnv : List (Bytes × Bytes)) (phpRegisterVariableSafe : Bytes → Bytes → TrackVars → TrackVars)
  (phpHandleAuthData : Option Bytes → Option Bytes) (room : Nat → Bool)

/-- `sapi_activate` takes the cookies of the request. -/
def phpRequestStartup (ctx : RequestContext) (course : Course) (thread : PhpThread) : PhpThread :=
  match course with
  | .failedStartup false => thread
  | _ =>
    let cookieData := goReadCookies room ctx
    { thread with cookieData, allocated := thread.allocated + if cookieData.isSome then 1 else 0 }

/-- The script looks at `$_SERVER`, which PHP fills anew, and at its cookies. -/
def phpExecuteScript (ctx : RequestContext) (course : Course) (thread : PhpThread) : PhpThread :=
  match course with
  | .failedStartup _ => thread
  | _ =>
    let found := (registerVariables mainThreadEnv phpRegisterVariableSafe ctx thread.info []).map fun table => (table,thread.cookieData)
    { thread with seen := thread.seen ++ [found] }

/-- PHP frees the name of the user. Before the shutdown was tried it is forced in `zend_catch`,
and `again` says whether it bails out there. -/
def phpRequestShutdown (again : Bool) (course : Course) (thread : PhpThread) : PhpThread :=
  if course = .served ∨ course ≠ .failedShutdown ∧ !again then { thread with info := { thread.info with authUser := none } } else thread

/-- One turn of the loop, or the one that ends in `zend_catch`. -/
def serveRequest (again : Bool) (ctx : RequestContext) (course : Course) (thread : PhpThread) : PhpThread :=
  let info := (updateRequestContext phpHandleAuthData ctx thread.info).getD thread.info
  let started := phpRequestStartup room ctx course { thread with info, released := false }
  let executed := phpExecuteScript mainThreadEnv phpRegisterVariableSafe ctx course started
  { frankenphpFreeRequestContext (phpRequestShutdown again course executed) with released := true }

/-- The loop ends where a request bails out, and another thread takes the place of this one. -/
def nextThread (course : Course) (thread : PhpThread) : PhpThread := if course = .served then thread else thread.boot

def phpThreads : List (RequestContext × Course × Bool) → PhpThread → PhpThread
  | [], thread => thread
  | (ctx,course,again) :: rest, thread =>
    phpThreads rest (nextThread course
      (serveRequest mainThreadEnv phpRegisterVariableSafe phpHandleAuthData room again ctx course thread))

/-- What a request finds that is the first one of its thread. -/
def foundAlone (ctx : RequestContext) : Option (TrackVars × Option Bytes) :=
  (serverVariables mainThreadEnv phpRegisterVariableSafe phpHandleAuthData ctx .blank []).map fun table => (table,goReadCookies room ctx)

end Serving

/-- Between two requests nothing is left that points at one that is gone. -/
structure Cleared (thread : PhpThread) : Prop where
  requestMethod : thread.info.requestMethod = none
  queryString : thread.info.queryString = none
  contentType : thread.info.contentType = none
  pathTranslated : thread.info.pathTranslated = none
  requestUri : thread.info.requestUri = none
  cookieData : thread.cookieData = none
  released : thread.released = true
  balanced : thread.freed = thread.allocated

theorem cleared_new : Cleared .new := by constructor <;> rfl

theorem cleared_boot {thread : PhpThread} (cleared : Cleared thread) : Cleared thread.boot := by
  constructor <;> first | rfl | exact cleared.balanced

theorem nextThread_kept (course : Course) (thread : PhpThread) :
    (Cleared thread → Cleared (nextThread course thread)) ∧ (nextThread course thread).seen = thread.seen := by
  unfold nextThread
  split
  · exact ⟨fun cleared => cleared,rfl⟩
  · exact ⟨cleared_boot,rfl⟩

/-- The fields that are shown come from the request alone. -/
theorem updateRequestContext_cleared (phpHandleAuthData : Option Bytes → Option Bytes) {thread : PhpThread} (cleared : Cleared thread)
    (ctx : RequestContext) : ∃ info alone, updateRequestContext phpHandleAuthData ctx thread.info = some info ∧
      updateRequestContext phpHandleAuthData ctx .blank = some alone ∧ info.variables = alone.variables := by
  obtain ⟨updated,read⟩ := updateRequestInfo_total ctx thread.info
  obtain ⟨alone,blank⟩ := updateRequestInfo_total ctx .blank
  refine ⟨_,_,by rw [updateRequestContext,read]; rfl,by rw [updateRequestContext,blank]; rfl,?_⟩
  cases present : ctx.request with
  | none =>
    simp only [updateRequestInfo,present,Option.some.injEq] at read blank
    subst read blank
    simp [RequestInfo.variables,RequestInfo.blank,cleared.contentType,cleared.pathTranslated,cleared.queryString,cleared.requestMethod]
  | some request =>
    obtain ⟨base,joined,_⟩ := sanitizedPathJoin_total ctx.documentRoot ctx.pathInfo
    by_cases empty : ctx.pathInfo.isEmpty
    all_goals
      simp only [updateRequestInfo,present,empty,joined,if_true,Bool.false_eq_true,if_false,Option.map_some,Option.bind_eq_bind,
        Option.bind_some,Option.pure_def,Option.some.injEq,cleared.contentType,cleared.pathTranslated] at read blank
      subst read blank
      rfl

def reachesScript (course : Course) : Bool :=
  match course with
  | .failedStartup _ => false
  | _ => true

/-- The string of the cookies, where there is one, is all that has not been freed. -/
def Held (thread : PhpThread) : Prop := thread.freed + (if thread.cookieData.isSome then 1 else 0) = thread.allocated

theorem free_cleared {thread : PhpThread} (held : Held thread) : Cleared { frankenphpFreeRequestContext thread with released := true } := by
  cases cookies : thread.cookieData with
  | none =>
    constructor <;> simp [frankenphpFreeRequestContext,cookies]
    simpa [Held,cookies] using held
  | some cookies' =>
    constructor <;> simp [frankenphpFreeRequestContext,cookies]
    simpa [Held,cookies] using held

theorem free_seen (thread : PhpThread) : (frankenphpFreeRequestContext thread).seen = thread.seen := by
  unfold frankenphpFreeRequestContext
  split <;> rfl

theorem shutdown_kept (again : Bool) (course : Course) (thread : PhpThread) :
    (Held thread → Held (phpRequestShutdown again course thread)) ∧ (phpRequestShutdown again course thread).seen = thread.seen := by
  unfold phpRequestShutdown
  split <;> exact ⟨fun held => held,rfl⟩

section Serving
variable (mainThreadEnv : List (Bytes × Bytes)) (phpRegisterVariableSafe : Bytes → Bytes → TrackVars → TrackVars)
  (phpHandleAuthData : Option Bytes → Option Bytes) (room : Nat → Bool)

theorem startup_held {thread : PhpThread} (quiet : thread.cookieData = none) (balanced : thread.freed = thread.allocated)
    (ctx : RequestContext) (course : Course) :
    Held (phpRequestStartup room ctx course thread) ∧ (phpRequestStartup room ctx course thread).seen = thread.seen ∧
      (phpRequestStartup room ctx course thread).info = thread.info ∧
      (reachesScript course → (phpRequestStartup room ctx course thread).cookieData = goReadCookies room ctx) := by
  unfold phpRequestStartup
  split
  · exact ⟨by simp [Held,quiet,balanced],rfl,rfl,fun reaches => by cases reaches⟩
  · exact ⟨by simp [Held,balanced],rfl,rfl,fun _ => rfl⟩

theorem script_held {thread : PhpThread} (held : Held thread) (ctx : RequestContext) (course : Course) :
    Held (phpExecuteScript mainThreadEnv phpRegisterVariableSafe ctx course thread) ∧
      (phpExecuteScript mainThreadEnv phpRegisterVariableSafe ctx course thread).seen = thread.seen ++
        if reachesScript course then
          [(registerVariables mainThreadEnv phpRegisterVariableSafe ctx thread.info []).map fun table => (table,thread.cookieData)]
        else [] := by
  unfold phpExecuteScript
  split
  · exact ⟨held,by simp [reachesScript]⟩
  next other =>
    have reaches : reachesScript course = true := by
      cases course with
      | failedStartup cookies => exact absurd rfl (other cookies)
      | _ => rfl
    exact ⟨held,by rw [if_pos reaches]⟩

theorem registerVariables_shown {info alone : RequestInfo} (shown : info.variables = alone.variables) (ctx : RequestContext) :
    registerVariables mainThreadEnv phpRegisterVariableSafe ctx info [] =
      registerVariables mainThreadEnv phpRegisterVariableSafe ctx alone [] := by
  have tables : registerVariablesFromRequestInfo info = registerVariablesFromRequestInfo alone := by
    funext table
    rw [registerVariablesFromRequestInfo_eq,registerVariablesFromRequestInfo_eq,shown]
  rw [registerVariables,registerVariables,tables]

/-- A request leaves nothing behind, and its script has found what it would have found alone. -/
theorem serveRequest_cleared {thread : PhpThread} (cleared : Cleared thread) (again : Bool) (ctx : RequestContext) (course : Course) :
    Cleared (serveRequest mainThreadEnv phpRegisterVariableSafe phpHandleAuthData room again ctx course thread) ∧
      (serveRequest mainThreadEnv phpRegisterVariableSafe phpHandleAuthData room again ctx course thread).seen = thread.seen ++
        if reachesScript course then [foundAlone mainThreadEnv phpRegisterVariableSafe phpHandleAuthData room ctx] else [] := by
  obtain ⟨info,alone,updated,blank,shown⟩ := updateRequestContext_cleared phpHandleAuthData cleared ctx
  have quiet : PhpThread.cookieData { thread with info, released := false } = none := cleared.cookieData
  obtain ⟨started,before,kept,cookies⟩ := startup_held room quiet cleared.balanced ctx course
  obtain ⟨executed,after⟩ := script_held mainThreadEnv phpRegisterVariableSafe started ctx course
  obtain ⟨held,seen⟩ := shutdown_kept again course (phpExecuteScript mainThreadEnv phpRegisterVariableSafe ctx course
    (phpRequestStartup room ctx course { thread with info, released := false }))
  rw [serveRequest,updated,Option.getD_some]
  refine ⟨free_cleared (held executed),?_⟩
  rw [free_seen,seen,after,before,kept]
  split
  next reaches =>
    have found : foundAlone mainThreadEnv phpRegisterVariableSafe phpHandleAuthData room ctx =
        (registerVariables mainThreadEnv phpRegisterVariableSafe ctx info []).map fun table => (table,goReadCookies room ctx) := by
      rw [foundAlone,serverVariables,blank,registerVariables_shown mainThreadEnv phpRegisterVariableSafe shown]
      rfl
    rw [found,cookies reaches]
  next => rfl

theorem phpThreads_cleared {thread : PhpThread} (cleared : Cleared thread) (requests : List (RequestContext × Course × Bool)) :
    Cleared (phpThreads mainThreadEnv phpRegisterVariableSafe phpHandleAuthData room requests thread) ∧
      (phpThreads mainThreadEnv phpRegisterVariableSafe phpHandleAuthData room requests thread).seen = thread.seen ++
        (requests.filter fun request => reachesScript request.2.1).map fun request =>
          foundAlone mainThreadEnv phpRegisterVariableSafe phpHandleAuthData room request.1 := by
  induction requests generalizing thread with
  | nil => exact ⟨cleared,by simp [phpThreads]⟩
  | cons request requests ih =>
    obtain ⟨ctx,course,again⟩ := request
    obtain ⟨after,seen⟩ := serveRequest_cleared mainThreadEnv phpRegisterVariableSafe phpHandleAuthData room cleared again ctx course
    obtain ⟨clears,same⟩ := nextThread_kept course
      (serveRequest mainThreadEnv phpRegisterVariableSafe phpHandleAuthData room again ctx course thread)
    obtain ⟨last,rest⟩ := ih (clears after)
    refine ⟨last,?_⟩
    rw [phpThreads,rest,same,seen,List.filter_cons]
    split <;> simp

/-- Whatever a thread has served, and however it was cut short, a script finds in `$_SERVER` and
in its cookies what it would find as the first one of a new thread. Between two requests no
field points at what has been released, and each string of cookies has been freed once. -/
theorem requests_isolated (requests : List (RequestContext × Course × Bool)) :
    (phpThreads mainThreadEnv phpRegisterVariableSafe phpHandleAuthData room requests .new).seen =
      ((requests.filter fun request => reachesScript request.2.1).map fun request =>
        foundAlone mainThreadEnv phpRegisterVariableSafe phpHandleAuthData room request.1) ∧
    ∀ before after, requests = before ++ after →
      Cleared (phpThreads mainThreadEnv phpRegisterVariableSafe phpHandleAuthData room before .new) := by
  obtain ⟨_,seen⟩ := phpThreads_cleared mainThreadEnv phpRegisterVariableSafe phpHandleAuthData room cleared_new requests
  refine ⟨seen,?_⟩
  intro before _ _
  exact (phpThreads_cleared mainThreadEnv phpRegisterVariableSafe phpHandleAuthData room cleared_new before).1

end Serving

end Frankenrust.Callbacks
