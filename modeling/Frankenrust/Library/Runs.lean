import Frankenrust.Library.Program

/-! Runs of programs as the calls they made and the answers they got, and programs some of
whose calls are programs of their own. -/
namespace Program
variable {C D S N : Type} {R : C → Type} {Q : D → Type} {α β : Type}

structure Event (C : Type) (R : C → Type) where
  command : C
  answer : Option (R command)

/-- The program gets from the first state to the last, as far as the contract lets its calls. -/
inductive Runs (contract : Contract C R S) : Program C R α → S → List (Event C R) → Option α → S → Prop
  | done (outcome : Option α) (state : S) : Runs contract (.done outcome) state [] outcome state
  | call {command : C} {next : Option (R command) → Program C R α} {state middle last : S} {answer : Option (R command)}
      {events : List (Event C R)} {outcome : Option α} (answered : contract.after command state answer middle)
      (rest : Runs contract (next answer) middle events outcome last) :
      Runs contract (.call command next) state (⟨command,answer⟩ :: events) outcome last

/-- The same contract, with a note of the events so far beside the state. -/
def Contract.noting (contract : Contract C R S) (note : N → Event C R → N) : Contract C R (S × N) where
  guard command state := contract.guard command state.1
  after command state answer later :=
    contract.after command state.1 answer later.1 ∧ later.2 = note state.2 ⟨command,answer⟩

theorem wp_noting {contract : Contract C R S} {note : N → Event C R → N} {command : C}
    {post : Option (R command) → S × N → Prop} {state : S} {first : N} :
    (invoke command : Program C R (R command)).wp (contract.noting note) post (state,first) ↔
      contract.guard command state ∧ ∀ answer later, contract.after command state answer later →
        post answer (later,note first ⟨command,answer⟩) := by
  constructor
  · rintro ⟨permitted,each⟩
    exact ⟨permitted,fun answer later did => each answer (later,_) ⟨did,rfl⟩⟩
  · rintro ⟨permitted,each⟩
    refine ⟨permitted,?_⟩
    rintro answer ⟨later,noted⟩ ⟨did,same⟩
    cases same
    exact each answer later did

/-- What is proved call by call holds of every run and its events. -/
theorem runs_noting {contract : Contract C R S} {note : N → Event C R → N} {post : Option α → S × N → Prop}
    {program : Program C R α} {state last : S} {first : N} {events : List (Event C R)} {outcome : Option α}
    (safe : program.wp (contract.noting note) post (state,first)) (ran : Runs contract program state events outcome last) :
    post outcome (last,events.foldl note first) := by
  induction ran generalizing first with
  | done outcome state => exact safe
  | call answered rest ih => exact ih (safe.2 _ (_,_) ⟨answered,rfl⟩)

/-- The program gets so far: what is left of it, and the state. -/
inductive Arrives (contract : Contract C R S) : Program C R α → S → Program C R α → S → Prop
  | here (program : Program C R α) (state : S) : Arrives contract program state program state
  | call {command : C} {next : Option (R command) → Program C R α} {program : Program C R α} {state middle last : S}
      {answer : Option (R command)} (answered : contract.after command state answer middle)
      (rest : Arrives contract (next answer) middle program last) :
      Arrives contract (.call command next) state program last

theorem wp_arrives {contract : Contract C R S} {post : Option α → S → Prop} {first later : Program C R α} {state last : S}
    (safe : first.wp contract post state) (arrives : Arrives contract first state later last) :
    later.wp contract post last := by
  induction arrives with
  | here program state => exact safe
  | call answered _ ih => exact ih (safe.2 _ _ answered)

/-- How far a program gets depends on what its calls do, not on what they are let do. -/
theorem Arrives.reguard {guard : C → S → Prop} {first later : Program C R α} {state last : S}
    (arrives : Arrives contract first state later last) : Arrives ⟨guard,contract.after⟩ first state later last := by
  induction arrives with
  | here program state => exact .here program state
  | call answered _ ih => exact .call answered ih

/-- The state is all that has happened; `may` says how a call may be answered. -/
def Contract.recording (may : (command : C) → Option (R command) → Prop) (guard : C → List (Event C R) → Prop) :
    Contract C R (List (Event C R)) where
  guard := guard
  after command past answer later := may command answer ∧ later = past ++ [⟨command,answer⟩]

theorem wp_recorded {may : (command : C) → Option (R command) → Prop} {guard : C → List (Event C R) → Prop} {command : C}
    {rest : R command → Program C R α} {post : Option α → List (Event C R) → Prop} {past : List (Event C R)} :
    ((invoke command).bind rest).wp (.recording may guard) post past ↔ guard command past ∧
      (may command none → post none (past ++ [⟨command,none⟩])) ∧
      ∀ value, may command (some value) → (rest value).wp (.recording may guard) post (past ++ [⟨command,some value⟩]) := by
  rw [wp_bind]
  constructor
  · rintro ⟨permitted,each⟩
    exact ⟨permitted,fun raises => each none _ ⟨raises,rfl⟩,fun value gives => each (some value) _ ⟨gives,rfl⟩⟩
  · rintro ⟨permitted,raised,answered⟩
    refine ⟨permitted,?_⟩
    rintro (_ | value) later ⟨happens,rfl⟩
    · exact raised happens
    · exact answered value happens

/-- The run of so many calls where each is answered by one oracle. -/
def walk (oracle : (command : C) → S → Option (R command) × S) : Nat → Program C R α → S → Program C R α × S
  | n + 1, .call command next, state => walk oracle n (next (oracle command state).1) (oracle command state).2
  | _, program, state => (program,state)

theorem arrives_walk {contract : Contract C R S} {oracle : (command : C) → S → Option (R command) × S}
    (obeys : ∀ command state, contract.after command state (oracle command state).1 (oracle command state).2) (n : Nat)
    (program : Program C R α) (state : S) :
    Arrives contract program state (walk oracle n program state).1 (walk oracle n program state).2 := by
  induction n generalizing program state with
  | zero => exact .here program state
  | succ n ih =>
    cases program with
    | done outcome => exact .here _ state
    | call command next => exact .call (obeys command state) (ih _ _)

/-- The events of such a run. -/
def transcript (oracle : (command : C) → S → Option (R command) × S) : Nat → Program C R α → S → List (Event C R)
  | n + 1, .call command next, state =>
    ⟨command,(oracle command state).1⟩ :: transcript oracle n (next (oracle command state).1) (oracle command state).2
  | _, _, _ => []

theorem runs_walk {contract : Contract C R S} {oracle : (command : C) → S → Option (R command) × S}
    (obeys : ∀ command state, contract.after command state (oracle command state).1 (oracle command state).2) {n : Nat}
    {program : Program C R α} {state : S} {outcome : Option α} (through : (walk oracle n program state).1 = .done outcome) :
    Runs contract program state (transcript oracle n program state) outcome (walk oracle n program state).2 := by
  induction n generalizing program state with
  | zero =>
    cases program with
    | done _ =>
      cases through
      exact .done outcome state
    | call command next => contradiction
  | succ n ih =>
    cases program with
    | done _ =>
      cases through
      exact .done outcome state
    | call command next => exact .call (obeys command state) (ih through)

/-- Goes on from the outcome, which may be an exception. -/
def resume (program : Program D Q β) (next : Option β → Program D Q α) : Program D Q α :=
  match program with
  | .done outcome => next outcome
  | .call command rest => .call command fun answer => (rest answer).resume next

/-- Each call becomes the program that carries it out. -/
def expand (carry : (command : C) → Program D Q (R command)) : Program C R α → Program D Q α
  | .done outcome => .done outcome
  | .call command next => (carry command).resume fun answer => (next answer).expand carry

theorem wp_resume {contract : Contract D Q S} {post : Option α → S → Prop} {program : Program D Q β}
    {next : Option β → Program D Q α} {state : S} : (program.resume next).wp contract post state ↔
      program.wp contract (fun outcome later => (next outcome).wp contract post later) state := by
  induction program generalizing state with
  | done outcome => exact Iff.rfl
  | call command rest ih => simp only [resume,wp,ih]

/-- Where every call is carried out as its contract says, so is the program. -/
theorem wp_expand {outer : Contract C R S} {inner : Contract D Q S} {carry : (command : C) → Program D Q (R command)}
    (meets : ∀ command state, outer.guard command state →
      (carry command).wp inner (fun answer later => outer.after command state answer later) state)
    {post : Option α → S → Prop} {program : Program C R α} {state : S} (safe : program.wp outer post state) :
    (program.expand carry).wp inner post state := by
  induction program generalizing state with
  | done outcome => exact safe
  | call command next ih =>
    rw [expand,wp_resume]
    apply wp_mono _ (meets command state safe.1)
    intro answer later reached
    exact ih answer (safe.2 answer later reached)

end Program
