import Frankenrust.Thread.Invariant

/-! What the holder of `SCALING` knows of one slot. A stage is kept by every step of the
slot's pthread, so the knowledge lasts until the holder itself acts. -/
namespace Frankenrust.Thread

/-- The states a pthread may publish for the one it finds. -/
def publications : State → List State
  | .booting => [.inactive]
  | .transitionComplete => [.inactive,.ready]
  | .transitionRequested => [.transitionInProgress,.done]
  | .ready | .shuttingDown => [.done]
  | _ => []

/-- How far a boot has come: nothing launched yet, the same with the new handler in place,
or a pthread that may be running. -/
inductive Launch
  | bare
  | fitted
  | running
  deriving DecidableEq

/-- A granted request, the states it leaves possible, the closed drain generation if one is
held, and the progress of a boot. -/
structure Stage where
  asked : Option State
  allowed : List State
  ticket : Option ClosedDrainGeneration
  launch : Launch
  asks : Asks asked
  closed : launch = .running → ∀ state ∈ allowed, ∀ next ∈ publications state, next ∈ allowed

def Still (thread : PhpThread) : Prop := thread.pc = .absent ∧ thread.unpublished = false

namespace Stage

def free : Stage where
  asked := none
  allowed := [.reserved,.bootRequested,.done,.inactive,.ready,.transitionComplete]
  ticket := none
  launch := .running
  asks := .inl rfl
  closed _ := by decide

def bare : Stage := ⟨none,[.booting],none,.bare,.inl rfl,nofun⟩

def fitted (ticket : Option ClosedDrainGeneration) : Stage := ⟨none,[.booting],ticket,.fitted,.inl rfl,nofun⟩

def launched : Stage := ⟨none,[.booting,.inactive],none,.running,.inl rfl,fun _ => by decide⟩

def refused : Stage := ⟨none,[.reserved,.done],none,.running,.inl rfl,fun _ => by decide⟩

def reserved : Stage := ⟨none,[.reserved],none,.running,.inl rfl,fun _ => by decide⟩

def moving (ticket : Option ClosedDrainGeneration) : Stage where
  asked := some .transitionRequested
  allowed := [.transitionRequested,.transitionInProgress,.done]
  ticket := ticket
  launch := .running
  asks := .inr (.inl rfl)
  closed _ := by decide

def moved (ticket : Option ClosedDrainGeneration) : Stage :=
  ⟨some .transitionRequested,[.transitionInProgress],ticket,.running,.inr (.inl rfl),fun _ => by decide⟩

def stopping (ticket : Option ClosedDrainGeneration) : Stage :=
  ⟨some .shuttingDown,[.shuttingDown,.done],ticket,.running,.inr (.inr rfl),fun _ => by decide⟩

def stopped (ticket : Option ClosedDrainGeneration) : Stage :=
  ⟨some .shuttingDown,[.done],ticket,.running,.inr (.inr rfl),fun _ => by decide⟩

end Stage

def Launch.Allows (launch : Launch) (thread : PhpThread) : Prop :=
  (launch ≠ .running → Still thread) ∧ (launch = .fitted → ∃ handler, Runs thread.handler handler .inactiveThread)

/-- Without a ticket the drain is open; a ticket is for the generation that is closed. -/
def Holds (ticket : Option ClosedDrainGeneration) (drain : DrainChannel) : Prop :=
  match ticket with
  | none => drain.current.sender.isSome
  | some closed => drain.current.sender = none ∧ drain.current.generation = closed.generation

structure Fits (stage : Stage) (thread : PhpThread) : Prop where
  pc : PcFits stage.asked thread
  live : Live thread
  allowed : thread.state.currentState ∈ stage.allowed
  sound : thread.drain.Sound
  ticket : Holds stage.ticket thread.drain
  fetched : ∀ handler channel, thread.pc = .selecting handler channel →
    channel = thread.drain.receiver ∨ channel ∈ thread.drain.closed
  launch : stage.launch.Allows thread

namespace PhpThread
variable {thread next : PhpThread} {move : Move}

theorem step_absent (absent : thread.pc = .absent) : thread.step move = none := by
  cases move <;> simp [step,proceed,absent]

def publishes : Pc → Option State
  | .armed _ .transition => some .transitionInProgress
  | .armed _ (.republish next) | .armed _ (.settle next _) => some next
  | .shutting read => some (shutdownState read)
  | _ => none

def ends : Pc → Bool
  | .shutting read => shutdownState read == .done
  | _ => false

def fetches : Pc → Option Nat
  | .selecting _ channel => some channel
  | _ => none

/-- What a step of the pthread leaves alone, and how it may leave the rest. -/
structure Advance (thread next : PhpThread) : Prop where
  handler : next.handler = thread.handler
  drain : next.drain = thread.drain
  state : next.state = thread.state ∨ (∃ states, next.state = (thread.state.subscribe .pthread states).2) ∨
    ∃ published, publishes thread.pc = some published ∧ next.state = thread.state.set published
  fetched : ∀ handler channel, next.pc = .selecting handler channel → channel = thread.drain.receiver
  ended : next.unpublished = (thread.unpublished && !ends thread.pc) ∧ (ends thread.pc → next.pc = .absent)

theorem alive_stays (stays : ends thread.pc = false) :
    thread.unpublished = (thread.unpublished && !ends thread.pc) ∧ (ends thread.pc → next.pc = .absent) := by
  simp [stays]

theorem not_selecting {pc : Pc} (elsewhere : fetches pc = none) (handler : Handler) (channel : Nat)
    (selecting : pc = .selecting handler channel) : channel = thread.drain.receiver := by
  simp [selecting,fetches] at elsewhere

theorem advance_goto {pc : Pc} (stays : ends thread.pc = false)
    (elsewhere : fetches pc = none) : Advance thread (thread.goto pc) :=
  ⟨rfl,rfl,.inl rfl,not_selecting elsewhere,alive_stays stays⟩

theorem advance_publish {published : State} {pc : Pc} (stays : ends thread.pc = false)
    (publishing : publishes thread.pc = some published) (elsewhere : fetches pc = none) :
    Advance thread (thread.publish published pc) :=
  ⟨rfl,rfl,.inr (.inr ⟨published,publishing,rfl⟩),not_selecting elsewhere,
    alive_stays stays⟩

theorem advance_wait {states : List State} {returned blocked : Pc} (stays : ends thread.pc = false)
    (returns : fetches returned = none)
    (blocks : fetches blocked = none) :
    Advance thread (thread.waitFor states returned blocked) := by
  refine ⟨rfl,rfl,.inr (.inl ⟨states,rfl⟩),not_selecting ?_,alive_stays stays⟩
  simp only [waitFor]
  split
  · exact returns
  · exact blocks

theorem advance_woken {pc : Pc} (stays : ends thread.pc = false)
    (elsewhere : fetches pc = none) (woke : thread.woken pc = some next) :
    Advance thread next := by
  obtain ⟨_,rfl⟩ := woken_some woke
  exact advance_goto stays elsewhere

theorem advance_afterwards (stays : ends thread.pc = false) (callback : HandlerCallback) :
    Advance thread (thread.goto (afterwards callback)) := by
  unfold afterwards
  split <;> exact advance_goto stays rfl

theorem proceed_advance (stepped : thread.proceed = some next) : Advance thread next := by
  obtain ⟨state,installed,drain,pc,unpublished⟩ := thread
  cases pc with
  | absent => contradiction
  | fetching callback =>
    cases installed with
    | some handler =>
      cases stepped
      exact advance_goto rfl rfl
    | none =>
      cases callback with
      | before =>
        cases stepped
        exact advance_goto rfl rfl
      | after healthy =>
        cases stepped
        exact advance_afterwards rfl _
  | entering callback handler =>
    cases callback with
    | before =>
      cases stepped
      exact advance_goto rfl rfl
    | after healthy =>
      cases stepped
      exact advance_afterwards rfl _
  | armed handler arm =>
    cases arm with
    | transition | republish | settle =>
      cases stepped
      exact advance_publish rfl rfl rfl
    | await | stop =>
      cases stepped
      exact advance_goto rfl rfl
    | waitForRequest =>
      cases stepped
      refine ⟨rfl,rfl,.inl rfl,fun handler channel same => ?_,alive_stays rfl⟩
      cases same
      rfl
  | looping | executing | restarting | returning =>
    cases stepped
    exact advance_goto rfl rfl
  | settling | progressed =>
    cases stepped
    exact advance_wait rfl rfl rfl
  | waiting | handover => exact advance_woken rfl rfl stepped
  | receiving =>
    cases installed with
    | none | some handler =>
      cases stepped
      exact advance_goto rfl rfl
  | selecting handler channel =>
    simp only [proceed] at stepped
    split at stepped
    · cases stepped
      exact advance_goto rfl rfl
    · contradiction
  | shutting read =>
    cases stepped
    exact ⟨rfl,rfl,.inr (.inr ⟨_,rfl,rfl⟩),not_selecting rfl,rfl,fun _ => rfl⟩

theorem step_advance (stepped : thread.step move = some next) : Advance thread next := by
  obtain ⟨state,installed,drain,pc,unpublished⟩ := thread
  cases move with
  | proceed => exact proceed_advance stepped
  | deliver named =>
    cases pc <;> try contradiction
    cases stepped
    cases named <;> exact advance_goto rfl rfl
  | disconnect | bailout | crash =>
    cases pc <;> try contradiction
    cases stepped
    exact advance_goto rfl rfl

theorem fits_publishes {asked : Option State} (asks : Asks asked) (fits : PcFits asked thread)
    {published : State} (publishing : publishes thread.pc = some published) :
    published ∈ publications thread.state.currentState := by
  obtain ⟨⟨state,subscribers⟩,installed,drain,pc,unpublished⟩ := thread
  cases pc <;> try contradiction
  case armed handler arm =>
    obtain ⟨_,armed⟩ := fits
    cases arm with
    | transition =>
      cases publishing
      exact armed.2 ▸ List.mem_cons_self
    | republish next =>
      cases publishing
      obtain ⟨_,rfl,complete⟩ := armed
      exact complete ▸ by simp [publications]
    | settle next states =>
      cases publishing
      obtain ⟨_,rfl,_,booting | complete⟩ := armed
      · exact booting ▸ List.mem_cons_self
      · exact complete ▸ List.mem_cons_self
    | await | stop | waitForRequest => contradiction
  case shutting read =>
    cases publishing
    obtain ⟨settled,done⟩ := fits
    rw [done]
    rcases settled with ready | granted
    · exact ready ▸ List.mem_cons_self
    · rcases asks with none | request | request
      · simp [none] at granted
      · cases request.symm.trans granted
        simp [publications]
      · cases request.symm.trans granted
        simp [publications]

theorem ends_proceeds (ended : ends thread.pc = true) (stepped : thread.step move = some next) : move = .proceed := by
  obtain ⟨state,installed,drain,pc,unpublished⟩ := thread
  cases pc <;> try contradiction
  cases move <;> first | rfl | contradiction

theorem step_published {asked : Option State} (asks : Asks asked) (fits : PcFits asked thread)
    (stepped : thread.step move = some next) : next.state.currentState = thread.state.currentState ∨
      next.state.currentState ∈ publications thread.state.currentState := by
  rcases (step_advance stepped).state with same | ⟨states,same⟩ | ⟨published,publishing,same⟩
  · exact .inl (congrArg _ same)
  · exact .inl (same ▸ subscribe_state _ _ _)
  · exact .inr (same ▸ fits_publishes asks fits publishing)

end PhpThread

theorem allows_any (thread : PhpThread) : Launch.running.Allows thread := ⟨by simp,nofun⟩

theorem fits_step {stage : Stage} {thread next : PhpThread} {move : Move} (fits : Fits stage thread)
    (stepped : thread.step move = some next) : Fits stage next := by
  have advance := PhpThread.step_advance stepped
  have there : thread.pc ≠ .absent := fun absent => by simp [PhpThread.step_absent absent] at stepped
  have running : stage.launch = .running := by_contra fun early => there (fits.launch.1 early).1
  refine ⟨step_fits stage.asks fits.live fits.pc stepped,?_,?_,?_,?_,?_,?_⟩
  · intro still
    have stays : PhpThread.ends thread.pc = false := Bool.eq_false_iff.mpr fun ended => still (advance.ended.2 ended)
    rw [advance.ended.1,stays,fits.live there]
    rfl
  · rcases PhpThread.step_published stage.asks fits.pc stepped with same | published
    · exact same ▸ fits.allowed
    · exact stage.closed running _ fits.allowed _ published
  · exact advance.drain.symm ▸ fits.sound
  · exact advance.drain.symm ▸ fits.ticket
  · intro handler channel selecting
    exact .inl (advance.drain.symm ▸ advance.fetched handler channel selecting)
  · exact running ▸ allows_any next

end Frankenrust.Thread
