import Frankenrust.Bytes
import Frankenrust.Library.Dict
import Frankenrust.Library.Machine

/-! The environment that scripts find and change: `putenv`, `getenv` and `$_ENV` over the layers of
`frankenphp.c`, on any number of PHP threads in any interleaving. -/
namespace Frankenrust.Callbacks.Environment

abbrev Env := List (Bytes × Bytes)

/-- What a PHP thread has over the environment of the process. -/
structure Layers where
  sandboxedEnv : Option Env
  preparedEnv : Option Env
  deriving DecidableEq

def Layers.none : Layers := ⟨.none,.none⟩

def intMax : Nat := 2147483647

def equalsSign : UInt8 := 61

inductive Call
  | putenv (setting : Bytes)
  | getenv (name : Option Bytes)
  | importEnvironment
  | addToPreparedEnv (name value : Bytes)
  deriving DecidableEq

inductive Answer
  | nothing
  | valueError
  | bool (success : Bool)
  | string (value : Bytes)
  | array (env : Env)
  deriving DecidableEq

def found : Option Bytes → Answer
  | some value => .string value
  | none => .bool false

/-- Whether the notice of `putenv_notice` is out, and how often it was logged. -/
structure Notice where
  putenvLogged : Bool
  logged : Nat
  deriving DecidableEq

def goPutenv (notice : Notice) : Bool × Notice :=
  (true,if notice.putenvLogged then notice else ⟨true,notice.logged + 1⟩)

section Layers
variable (mainThreadEnv : Env) (layers : Layers)

/-- `get_full_env`, for an array that is empty. -/
def getFullEnv : Env :=
  match layers.preparedEnv with
  | some prepared => Dict.setAll prepared (Dict.setAll mainThreadEnv [])
  | none => Dict.setAll mainThreadEnv []

def lookupEnv (name : Bytes) : Option Bytes :=
  match layers.sandboxedEnv with
  | some sandboxed => Dict.get name sandboxed
  | none => (layers.preparedEnv.bind (Dict.get name)).or (Dict.get name mainThreadEnv)

def dupEnv : Env :=
  match layers.sandboxedEnv with
  | some sandboxed => sandboxed
  | none =>
    match layers.preparedEnv with
    | some prepared => Dict.setAll prepared mainThreadEnv
    | none => mainThreadEnv

def putenv (setting : Bytes) (notice : Notice) : Answer × Layers × Notice :=
  if setting.length > intMax then (.bool false,layers,notice)
  else if setting.isEmpty || setting.head? == some equalsSign then (.valueError,layers,notice)
  else
    let sandboxed :=
      match layers.sandboxedEnv with
      | some sandboxed => sandboxed
      | none =>
        match layers.preparedEnv with
        | some prepared => Dict.setAll prepared mainThreadEnv
        | none => mainThreadEnv
    let setting := setting.takeWhile (· != nul)
    let (success,notice) := goPutenv notice
    let changed :=
      match setting.idxOf? equalsSign with
      | none => if success then Dict.erase setting sandboxed else sandboxed
      | some nameLen => if success then Dict.set (setting.take nameLen) (setting.drop (nameLen + 1)) sandboxed else sandboxed
    (.bool success,{ layers with sandboxedEnv := some changed },notice)

def getenv (name : Option Bytes) : Answer :=
  match name with
  | none => .array (dupEnv mainThreadEnv layers)
  | some name => found (lookupEnv mainThreadEnv layers name)

def addToPreparedEnv (name value : Bytes) : Layers :=
  { layers with preparedEnv := some (Dict.set name value (layers.preparedEnv.getD [])) }

def take (call : Call) (notice : Notice) : Answer × Layers × Notice :=
  match call with
  | .putenv setting => putenv mainThreadEnv layers setting notice
  | .getenv name => (getenv mainThreadEnv layers name,layers,notice)
  | .importEnvironment => (.array (getFullEnv mainThreadEnv layers),layers,notice)
  | .addToPreparedEnv name value => (.nothing,addToPreparedEnv layers name value,notice)

end Layers

def resetSandboxedEnvironment (layers : Layers) : Layers :=
  let layers := if layers.sandboxedEnv.isSome then { layers with sandboxedEnv := none } else layers
  if layers.preparedEnv.isSome then { layers with preparedEnv := none } else layers

/-- Where a PHP thread is in its loop: in `forced` it shuts down a request that has bailed out. -/
inductive Phase
  | waiting
  | script
  | shutdown
  | forced
  deriving DecidableEq

structure PhpThread where
  layers : Layers
  phase : Phase
  deriving DecidableEq

/-- `executed` and `finished` are the normal ends of the script and of its shutdown, `replaced` is the end of a thread
that has bailed out. -/
inductive Action
  | serve
  | call (call : Call)
  | executed
  | finished
  | bailOut
  | replaced
  deriving DecidableEq

structure Server (T : Type) where
  threads : T → PhpThread
  notice : Notice

section Steps
variable {T : Type} [DecidableEq T] (mainThreadEnv : Env)

def turn (action : Action) (thread : PhpThread) (notice : Notice) : Option (PhpThread × Notice) :=
  match action,thread.phase with
  | .serve,.waiting => some ({ thread with phase := .script },notice)
  | .call _,.waiting => none
  | .call call,_ =>
    let (_,layers,notice) := take mainThreadEnv thread.layers call notice
    some ({ thread with layers },notice)
  | .executed,.script => some (⟨resetSandboxedEnvironment thread.layers,.shutdown⟩,notice)
  | .finished,.shutdown => some ({ thread with phase := .waiting },notice)
  | .bailOut,.script => some (⟨resetSandboxedEnvironment thread.layers,.forced⟩,notice)
  -- the thread locals of the pthread that takes the place of this one
  | .bailOut,.shutdown => some (⟨.none,.waiting⟩,notice)
  | .replaced,.forced => some (⟨.none,.waiting⟩,notice)
  | _,_ => none

def step (action : T × Action) (server : Server T) : Option (Server T) :=
  (turn mainThreadEnv action.2 (server.threads action.1) server.notice).map fun (thread,notice) =>
    ⟨Function.update server.threads action.1 thread,notice⟩

def opening : Server T := ⟨fun _ => ⟨.none,.waiting⟩,⟨false,0⟩⟩

end Steps

/-- One environment in place of the layers, which is its own once a script has changed it, and the one that was there
before any script did. -/
structure View where
  env : Env
  own : Bool
  exported : Env
  deriving DecidableEq

def refused (setting : Bytes) : Bool := setting.length > intMax || setting.isEmpty || setting.head? == some equalsSign

/-- The name ends at the first equals sign and all of it at the first zero byte. -/
def changed (setting : Bytes) (env : Env) : Env :=
  let setting := setting.takeWhile (· != nul)
  match setting.idxOf? equalsSign with
  | none => Dict.erase setting env
  | some nameLen => Dict.set (setting.take nameLen) (setting.drop (nameLen + 1)) env

/-- What a call does to it. -/
def View.after (view : View) : Call → View
  | .putenv setting =>
    if refused setting then view else { view with env := changed setting view.env, own := true }
  | .addToPreparedEnv name value =>
    { view with env := if view.own then view.env else Dict.set name value view.env, exported := Dict.set name value view.exported }
  | .getenv _ | .importEnvironment => view

def View.answers (view : View) : Call → Answer
  | .putenv setting => if setting.length > intMax then .bool false else if refused setting then .valueError else .bool true
  | .getenv none => .array view.env
  | .getenv (some name) => found (Dict.get name view.env)
  | .importEnvironment => .array view.exported
  | .addToPreparedEnv _ _ => .nothing

def View.opening (mainThreadEnv : Env) : View := ⟨mainThreadEnv,false,Dict.setAll mainThreadEnv []⟩

def viewed (mainThreadEnv : Env) (calls : List Call) : View := calls.foldl View.after (.opening mainThreadEnv)

/-- What the actions of a thread leave to its next request: the calls of the last shutdown, if the thread has survived it. -/
def Leaves (past : List Action) (late : List Call) : Prop :=
  (∃ before, past = before ++ .executed :: late.map .call ++ [.finished]) ∨
    late = [] ∧ (past = [] ∨ ∃ before, past = before ++ [.bailOut] ∨ past = before ++ [.replaced])

/-- The calls since the environment was last reset. -/
def Called (past : List Action) (calls : List Call) : Phase → Prop
  | .waiting => Leaves past calls
  | .script => ∃ before late own, Leaves before late ∧ past = before ++ .serve :: own.map .call ∧ calls = late ++ own
  | .shutdown => ∃ before, past = before ++ .executed :: calls.map .call
  | .forced => ∃ before, past = before ++ .bailOut :: calls.map .call

def ofThread {T : Type} [DecidableEq T] (i : T) (actions : List (T × Action)) : List Action :=
  (actions.filter (·.1 = i)).map (·.2)

def puts : Action → Bool
  | .call (.putenv setting) => !refused setting
  | _ => false

/-- The layers of a thread show what the view says. -/
structure Shows (mainThreadEnv : Env) (view : View) (layers : Layers) : Prop where
  env : dupEnv mainThreadEnv layers = view.env
  own : layers.sandboxedEnv.isSome = view.own
  exported : getFullEnv mainThreadEnv layers = view.exported
  keyed : ∀ prepared ∈ layers.preparedEnv, Dict.Keyed prepared

section Layers
variable {mainThreadEnv : Env} {layers : Layers} {view : View}

theorem shows_none : Shows mainThreadEnv (viewed mainThreadEnv []) .none := ⟨rfl,rfl,rfl,nofun⟩

theorem view_append (calls : List Call) (call : Call) :
    viewed mainThreadEnv (calls ++ [call]) = (viewed mainThreadEnv calls).after call := by
  rw [viewed,List.foldl_append]
  rfl

theorem reset_eq (layers : Layers) : resetSandboxedEnvironment layers = .none := by
  obtain ⟨sandboxed,prepared⟩ := layers
  cases sandboxed <;> cases prepared <;> rfl

/-- The lookup that goes through the layers finds what the copy has. -/
theorem lookupEnv_eq (shows : Shows mainThreadEnv view layers) (name : Bytes) :
    lookupEnv mainThreadEnv layers name = Dict.get name view.env := by
  rw [← shows.env]
  unfold lookupEnv dupEnv
  cases layers.sandboxedEnv with
  | some sandboxed => rfl
  | none =>
    cases present : layers.preparedEnv with
    | none => rfl
    | some prepared =>
      rw [Dict.get_setAll,(shows.keyed prepared present).latest_eq]
      rfl

theorem putenv_refused {setting : Bytes} {notice : Notice} (out : refused setting) :
    putenv mainThreadEnv layers setting notice = (if setting.length > intMax then .bool false else .valueError,layers,notice) := by
  rw [putenv]
  by_cases long : setting.length > intMax
  · rw [if_pos long,if_pos long]
  · rw [if_neg long,if_neg long,if_pos (by simpa [refused,long] using out)]

theorem putenv_accepted {setting : Bytes} {notice : Notice} (accepted : ¬refused setting) : putenv mainThreadEnv layers setting notice =
    (.bool true,{ layers with sandboxedEnv := some (changed setting (dupEnv mainThreadEnv layers)) },(goPutenv notice).2) := by
  simp only [refused,Bool.or_eq_true,decide_eq_true_eq,not_or] at accepted
  rw [putenv,if_neg accepted.1.1,if_neg (by simpa using And.intro accepted.1.2 accepted.2)]
  rfl

theorem putenv_shows (shows : Shows mainThreadEnv view layers) (setting : Bytes) (notice : Notice) :
    Shows mainThreadEnv (view.after (.putenv setting)) (putenv mainThreadEnv layers setting notice).2.1 := by
  rw [View.after]
  split
  next out =>
    rw [putenv_refused out]
    exact shows
  next accepted =>
    rw [putenv_accepted accepted,shows.env]
    exact ⟨rfl,rfl,shows.exported,shows.keyed⟩

theorem addToPreparedEnv_shows (shows : Shows mainThreadEnv view layers) (name value : Bytes) :
    Shows mainThreadEnv (view.after (.addToPreparedEnv name value)) (addToPreparedEnv layers name value) := by
  have keyed : Dict.Keyed (layers.preparedEnv.getD []) := by
    cases present : layers.preparedEnv with
    | none => exact List.nodup_nil
    | some prepared => exact shows.keyed prepared present
  have laid (base : Env) : Dict.setAll (Dict.set name value (layers.preparedEnv.getD [])) base = Dict.set name value
      (match layers.preparedEnv with
      | some prepared => Dict.setAll prepared base
      | none => base) := by
    rw [keyed.setAll_set]
    cases layers.preparedEnv <;> rfl
  have exported := shows.exported
  have env := shows.env
  have own := shows.own
  refine ⟨?_,own,?_,?_⟩
  · rw [View.after]
    cases sandbox : layers.sandboxedEnv with
    | some sandboxed =>
      rw [sandbox,Option.isSome_some] at own
      rw [if_pos own.symm,← env]
      simp only [dupEnv,addToPreparedEnv,sandbox]
    | none =>
      rw [sandbox,Option.isSome_none] at own
      rw [if_neg (Bool.eq_false_iff.mp own.symm),← env]
      simp only [dupEnv,addToPreparedEnv,sandbox]
      exact laid mainThreadEnv
  · rw [View.after,← exported]
    exact laid (Dict.setAll mainThreadEnv [])
  · rintro _ ⟨⟩
    exact keyed.set

theorem take_shows (shows : Shows mainThreadEnv view layers) (call : Call) (notice : Notice) :
    Shows mainThreadEnv (view.after call) (take mainThreadEnv layers call notice).2.1 := by
  cases call with
  | putenv setting => exact putenv_shows shows setting notice
  | getenv name => exact shows
  | importEnvironment => exact shows
  | addToPreparedEnv name value => exact addToPreparedEnv_shows shows name value

theorem take_answers (shows : Shows mainThreadEnv view layers) (call : Call) (notice : Notice) :
    (take mainThreadEnv layers call notice).1 = view.answers call := by
  cases call with
  | putenv setting =>
    rw [take,View.answers]
    by_cases out : refused setting
    · rw [putenv_refused out,if_pos out]
    · have long : ¬setting.length > intMax := fun long => out (by simp [refused,long])
      rw [putenv_accepted out,if_neg long,if_neg out]
  | getenv name =>
    cases name with
    | none => rw [take,getenv,shows.env,View.answers]
    | some name => rw [take,getenv,lookupEnv_eq shows,View.answers]
  | importEnvironment => rw [take,shows.exported,View.answers]
  | addToPreparedEnv name value => rfl

end Layers

section Runs
variable {T : Type} [DecidableEq T] {mainThreadEnv : Env}

theorem ofThread_append (i j : T) (past : List (T × Action)) (action : Action) :
    ofThread i (past ++ [(j,action)]) = ofThread i past ++ if j = i then [action] else [] := by
  by_cases same : j = i <;> simp [ofThread,List.filter_append,same]

/-- What a thread shows after its actions. -/
def Stands (mainThreadEnv : Env) (past : List Action) (thread : PhpThread) : Prop :=
  ∃ calls, Called past calls thread.phase ∧ Shows mainThreadEnv (viewed mainThreadEnv calls) thread.layers

theorem called_call {past : List Action} {calls : List Call} {phase : Phase} (busy : phase ≠ .waiting) (called : Called past calls phase)
    (call : Call) : Called (past ++ [.call call]) (calls ++ [call]) phase := by
  cases phase with
  | waiting => exact absurd rfl busy
  | script =>
    obtain ⟨before,late,own,leaves,rfl,rfl⟩ := called
    exact ⟨before,late,own ++ [call],leaves,by simp,by simp⟩
  | shutdown =>
    obtain ⟨before,rfl⟩ := called
    exact ⟨before,by simp⟩
  | forced =>
    obtain ⟨before,rfl⟩ := called
    exact ⟨before,by simp⟩

theorem stands_turn {past : List Action} {action : Action} {thread after : PhpThread} {notice later : Notice}
    (stands : Stands mainThreadEnv past thread) (turned : turn mainThreadEnv action thread notice = some (after,later)) :
    Stands mainThreadEnv (past ++ [action]) after := by
  obtain ⟨layers,phase⟩ := thread
  obtain ⟨calls,called,shows⟩ := stands
  have fresh {phase : Phase} (none : Called (past ++ [action]) [] phase) : Stands mainThreadEnv (past ++ [action]) ⟨.none,phase⟩ :=
    ⟨[],none,shows_none⟩
  cases action with
  | serve =>
    cases phase <;> cases turned
    exact ⟨calls,⟨past,calls,[],called,rfl,(List.append_nil _).symm⟩,shows⟩
  | call call =>
    have busy : phase ≠ .waiting := by
      rintro rfl
      cases turned
    have taken : after = ⟨(take mainThreadEnv layers call notice).2.1,phase⟩ := by cases phase <;> cases turned <;> rfl
    subst taken
    refine ⟨calls ++ [call],called_call busy called call,?_⟩
    rw [view_append]
    exact take_shows shows call notice
  | executed =>
    cases phase <;> cases turned
    rw [reset_eq]
    exact fresh ⟨past,rfl⟩
  | finished =>
    cases phase <;> cases turned
    obtain ⟨before,rfl⟩ := called
    exact ⟨calls,.inl ⟨before,rfl⟩,shows⟩
  | bailOut =>
    cases phase <;> cases turned
    · rw [reset_eq]
      exact fresh ⟨past,rfl⟩
    · exact fresh (.inr ⟨rfl,.inr ⟨past,.inl rfl⟩⟩)
  | replaced =>
    cases phase <;> cases turned
    exact fresh (.inr ⟨rfl,.inr ⟨past,.inr rfl⟩⟩)

theorem take_notice {layers : Layers} {call : Call} {notice : Notice} : (take mainThreadEnv layers call notice).2.2 =
    if puts (.call call) then (goPutenv notice).2 else notice := by
  cases call with
  | putenv setting =>
    rw [take]
    by_cases out : refused setting
    · rw [putenv_refused out]
      simp [puts,out]
    · rw [putenv_accepted out]
      simp [puts,out]
  | getenv name => rfl
  | importEnvironment => rfl
  | addToPreparedEnv name value => rfl

theorem turn_notice {action : Action} {thread after : PhpThread} {notice later : Notice}
    (turned : turn mainThreadEnv action thread notice = some (after,later)) :
    later = if puts action then (goPutenv notice).2 else notice := by
  obtain ⟨layers,phase⟩ := thread
  cases action with
  | call call =>
    have taken : later = (take mainThreadEnv layers call notice).2.2 := by cases phase <;> cases turned <;> rfl
    rw [taken,take_notice]
  | serve | executed | finished | bailOut | replaced => cases phase <;> cases turned <;> rfl

/-- Every thread stands where its own actions lead, and the notice is out once `putenv` was let through. -/
def Sound (mainThreadEnv : Env) (past : List (T × Action)) (server : Server T) : Prop :=
  (∀ i, Stands mainThreadEnv (ofThread i past) (server.threads i)) ∧
    server.notice = ⟨past.any fun action => puts action.2,if past.any fun action => puts action.2 then 1 else 0⟩

theorem sound_step {past : List (T × Action)} {action : T × Action} {server next : Server T}
    (stepped : step mainThreadEnv action server = some next) (sound : Sound mainThreadEnv past server) :
    Sound mainThreadEnv (past ++ [action]) next := by
  obtain ⟨i,action⟩ := action
  obtain ⟨⟨after,later⟩,turned,rfl⟩ := Option.map_eq_some_iff.mp stepped
  refine ⟨fun j => ?_,?_⟩
  · rw [ofThread_append]
    by_cases same : i = j
    · subst same
      simpa using stands_turn (sound.1 i) turned
    · simpa [same,Function.update_of_ne (Ne.symm same)] using sound.1 j
  · change later = _
    rw [turn_notice turned,sound.2,List.any_append,List.any_cons,List.any_nil,Bool.or_false]
    cases puts action <;> cases past.any fun action => puts action.2 <;> rfl

/-- However the threads interleave, every call answers as if the environment were one array, made of that of the process by
the calls since it was last reset: those of the request itself, after what the shutdown of the one before it on the same
thread called where that thread went on. `$_ENV` shows none of what scripts put there, and the notice is logged once. -/
theorem environment_isolated {actions : List (T × Action)} {server : Server T}
    (ran : Machine.run (step mainThreadEnv) actions opening = some server) :
    (∀ i, ∃ calls, Called (ofThread i actions) calls (server.threads i).phase ∧ ∀ call,
      (take mainThreadEnv (server.threads i).layers call server.notice).1 = (viewed mainThreadEnv calls).answers call) ∧
    server.notice.logged = if actions.any fun action => puts action.2 then 1 else 0 := by
  have begun : Sound mainThreadEnv [] (opening : Server T) := ⟨fun i => ⟨[],.inr ⟨rfl,.inl rfl⟩,shows_none⟩,rfl⟩
  have sound : Sound mainThreadEnv ([] ++ Machine.trace (step mainThreadEnv) (fun action _ => some action) actions opening) server :=
    Machine.run_history (fun _ _ _ _ => sound_step) ran begun
  rw [List.nil_append,Machine.trace_actions ran] at sound
  refine ⟨fun i => ?_,by rw [sound.2]⟩
  obtain ⟨calls,called,shows⟩ := sound.1 i
  exact ⟨calls,called,fun call => take_answers shows call server.notice⟩

/-- The second request of a thread finds what a shutdown function of the first one has put there. -/
def carriedRun : List (Bool × Action) :=
  [(true,.serve),(false,.serve),(true,.executed),(true,.call (.putenv (ascii "A=1"))),(true,.finished),(true,.serve)]

theorem environment_isolated_carried : ∃ server : Server Bool, Machine.run (step []) carriedRun opening = some server ∧
    (take [] (server.threads true).layers (.getenv (some (ascii "A"))) server.notice).1 = .string (ascii "1") ∧
    (take [] (server.threads false).layers (.getenv (some (ascii "A"))) server.notice).1 = .bool false ∧
    server.notice.logged = 1 := by
  obtain ⟨server,ran⟩ : ∃ server, Machine.run (step []) carriedRun (opening : Server Bool) = some server := ⟨_,rfl⟩
  have counted := (environment_isolated ran).2
  have reached := ran
  cases reached
  exact ⟨_,rfl,by decide,by decide,counted⟩

end Runs
end Frankenrust.Callbacks.Environment
