import Mathlib.Logic.Basic

/-! Programs that call out to their surroundings and may raise an exception. A program is
the tree of its calls, with one branch for every answer; an answer of `none` is an exception
that the call raises. What a program guarantees is read off this tree, one call at a time. -/
inductive Program (C : Type) (R : C → Type) (α : Type)
  | done (outcome : Option α)
  | call (command : C) (next : Option (R command) → Program C R α)

namespace Program
variable {C S : Type} {R : C → Type} {α β : Type}

def bind (program : Program C R α) (rest : α → Program C R β) : Program C R β :=
  match program with
  | .done none => .done none
  | .done (some value) => rest value
  | .call command next => .call command fun answer => (next answer).bind rest

/-- `try … except`: the handler runs only after an exception. -/
def handle (program handler : Program C R α) : Program C R α :=
  match program with
  | .done none => handler
  | .done (some value) => .done (some value)
  | .call command next => .call command fun answer => (next answer).handle handler

/-- `try … finally`: an exception of the cleanup takes the place of the outcome. -/
def ensure (program : Program C R α) (cleanup : Program C R Unit) : Program C R α :=
  match program with
  | .done outcome => cleanup.bind fun _ => .done outcome
  | .call command next => .call command fun answer => (next answer).ensure cleanup

def invoke (command : C) : Program C R (R command) := .call command .done

def raise : Program C R α := .done none

instance : Monad (Program C R) where
  pure value := .done (some value)
  bind := bind

/-- The call that the program is about to make. -/
def pending : Program C R α → Option C
  | .done _ => none
  | .call command _ => some command

/-- The outcome where every call is answered by one oracle. -/
def value (oracle : (command : C) → Option (R command)) : Program C R α → Option α
  | .done outcome => outcome
  | .call command next => (next (oracle command)).value oracle

/-- What may be called in a state, and the states in which a call may leave its caller. -/
structure Contract (C : Type) (R : C → Type) (S : Type) where
  guard : C → S → Prop
  after : (command : C) → S → Option (R command) → S → Prop

variable {contract : Contract C R S}

/-- Every call that the program can make meets its guard, and every outcome the postcondition. -/
def wp (contract : Contract C R S) (post : Option α → S → Prop) : Program C R α → S → Prop
  | .done outcome, state => post outcome state
  | .call command next, state =>
    contract.guard command state ∧
      ∀ answer later, contract.after command state answer later → (next answer).wp contract post later

/-- The postcondition of a program's first part: what is left to do from its outcome on. -/
def andThen (contract : Contract C R S) (post : Option β → S → Prop) (rest : α → Program C R β) :
    Option α → S → Prop
  | none, state => post none state
  | some value, state => (rest value).wp contract post state

def orElse (contract : Contract C R S) (post : Option α → S → Prop) (handler : Program C R α) :
    Option α → S → Prop
  | none, state => handler.wp contract post state
  | some value, state => post (some value) state

@[simp] theorem bind_eq (program : Program C R α) (rest : α → Program C R β) :
    program >>= rest = program.bind rest := rfl

@[simp] theorem pure_eq (value : α) : (pure value : Program C R α) = .done (some value) := rfl

@[simp] theorem wp_done {post : Option α → S → Prop} {outcome : Option α} {state : S} :
    (Program.done outcome : Program C R α).wp contract post state ↔ post outcome state := Iff.rfl

@[simp] theorem wp_raise {post : Option α → S → Prop} {state : S} :
    (raise : Program C R α).wp contract post state ↔ post none state := Iff.rfl

theorem wp_invoke {command : C} {post : Option (R command) → S → Prop} {state : S} :
    (invoke command : Program C R (R command)).wp contract post state ↔ contract.guard command state ∧
      ∀ answer later, contract.after command state answer later → post answer later := Iff.rfl

theorem wp_mono {first second : Option α → S → Prop} (implied : ∀ outcome state, first outcome state → second outcome state)
    {program : Program C R α} {state : S} (safe : program.wp contract first state) :
    program.wp contract second state := by
  induction program generalizing state with
  | done outcome => exact implied outcome state safe
  | call command next ih =>
    refine ⟨safe.1,?_⟩
    intro answer later reached
    exact ih answer (safe.2 answer later reached)

theorem wp_bind {post : Option β → S → Prop} {program : Program C R α} {rest : α → Program C R β} {state : S} :
    (program.bind rest).wp contract post state ↔ program.wp contract (andThen contract post rest) state := by
  induction program generalizing state with
  | done outcome => cases outcome <;> exact Iff.rfl
  | call command next ih =>
    simp only [bind,wp,ih]

theorem bind_assoc {γ : Type} {program : Program C R α} {middle : α → Program C R β} {last : β → Program C R γ} :
    (program.bind middle).bind last = program.bind fun value => (middle value).bind last := by
  induction program with
  | done outcome => cases outcome <;> rfl
  | call command next ih => simp only [bind,ih]

theorem wp_handle {post : Option α → S → Prop} {handler program : Program C R α} {state : S} :
    (program.handle handler).wp contract post state ↔ program.wp contract (orElse contract post handler) state := by
  induction program generalizing state with
  | done outcome => cases outcome <;> exact Iff.rfl
  | call command next ih =>
    simp only [handle,wp,ih]

theorem wp_ensure {post : Option α → S → Prop} {cleanup : Program C R Unit} {program : Program C R α} {state : S} :
    (program.ensure cleanup).wp contract post state ↔ program.wp contract
      (fun outcome => (cleanup.bind fun _ => .done outcome).wp contract post) state := by
  induction program generalizing state with
  | done outcome => exact Iff.rfl
  | call command next ih =>
    simp only [ensure,wp,ih]

/-- Some answers lead the program to the call. -/
def reaches (wanted : C) : Program C R α → Prop
  | .done _ => False
  | .call command next => command = wanted ∨ ∃ answer, (next answer).reaches wanted

/-- The calls that a program can make at all, whatever the answers. -/
def uses (allowed : C → Prop) : Program C R α → Prop
  | .done _ => True
  | .call command next => allowed command ∧ ∀ answer, (next answer).uses allowed

@[simp] theorem uses_done {allowed : C → Prop} {outcome : Option α} :
    (Program.done outcome : Program C R α).uses allowed := trivial

@[simp] theorem uses_raise {allowed : C → Prop} : (raise : Program C R α).uses allowed := trivial

@[simp] theorem uses_invoke {allowed : C → Prop} {command : C} :
    (invoke command : Program C R (R command)).uses allowed ↔ allowed command :=
  ⟨fun used => used.1,fun permitted => ⟨permitted,fun _ => trivial⟩⟩

theorem uses_bind {allowed : C → Prop} {program : Program C R α} {rest : α → Program C R β}
    (first : program.uses allowed) (last : ∀ value, (rest value).uses allowed) : (program.bind rest).uses allowed := by
  induction program with
  | done outcome =>
    cases outcome with
    | none => exact trivial
    | some value => exact last value
  | call command next ih => exact ⟨first.1,fun answer => ih answer (first.2 answer)⟩

@[simp] theorem uses_invoke_bind {allowed : C → Prop} {command : C} {rest : R command → Program C R β} :
    ((invoke command).bind rest).uses allowed ↔ allowed command ∧ ∀ value, (rest value).uses allowed := by
  constructor
  · intro used
    exact ⟨used.1,fun value => used.2 (some value)⟩
  · intro used
    exact uses_bind (uses_invoke.mpr used.1) used.2

theorem uses_handle {allowed : C → Prop} {program handler : Program C R α} (first : program.uses allowed)
    (last : handler.uses allowed) : (program.handle handler).uses allowed := by
  induction program with
  | done outcome =>
    cases outcome with
    | none => exact last
    | some value => exact trivial
  | call command next ih => exact ⟨first.1,fun answer => ih answer (first.2 answer)⟩

theorem uses_ensure {allowed : C → Prop} {program : Program C R α} {cleanup : Program C R Unit}
    (first : program.uses allowed) (last : cleanup.uses allowed) : (program.ensure cleanup).uses allowed := by
  induction program with
  | done outcome => exact uses_bind last fun _ => trivial
  | call command next ih => exact ⟨first.1,fun answer => ih answer (first.2 answer)⟩

/-- A program that makes only harmless calls keeps what they keep. -/
theorem wp_of_uses {allowed : C → Prop} {Inv : S → Prop} {program : Program C R α} {state : S}
    (used : program.uses allowed) (harmless : ∀ command state, allowed command → Inv state →
      contract.guard command state ∧ ∀ answer later, contract.after command state answer later → Inv later)
    (start : Inv state) : program.wp contract (fun _ => Inv) state := by
  induction program generalizing state with
  | done outcome => exact start
  | call command next ih =>
    obtain ⟨permitted,kept⟩ := harmless command state used.1 start
    refine ⟨permitted,?_⟩
    intro answer later reached
    exact ih answer (used.2 answer) (kept answer later reached)

/-- What every call keeps is kept by a program. -/
theorem wp_invariant {Inv : S → Prop} {program : Program C R α} {state : S} (kept : ∀ command state, Inv state →
    contract.guard command state ∧ ∀ answer later, contract.after command state answer later → Inv later)
    (start : Inv state) : program.wp contract (fun _ => Inv) state := by
  induction program generalizing state with
  | done outcome => exact start
  | call command next ih =>
    obtain ⟨permitted,still⟩ := kept command state start
    exact ⟨permitted,fun answer later reached => ih answer (still answer later reached)⟩

theorem value_bind {oracle : (command : C) → Option (R command)} {program : Program C R α}
    {rest : α → Program C R β} :
    (program.bind rest).value oracle = (program.value oracle).bind fun found => (rest found).value oracle := by
  induction program with
  | done outcome => cases outcome <;> rfl
  | call command next ih => exact ih (oracle command)

end Program
