import Mathlib.Data.List.Basic

/-! Machines that take one action at a time: their runs, what a run keeps invariant, and
the events it leaves behind. An action that is not enabled has no successor. -/
namespace Machine
variable {S A E : Type} {step : A → S → Option S}

def run (step : A → S → Option S) : List A → S → Option S
  | [], state => some state
  | action :: actions, state => (step action state).bind (run step actions)

/-- The events of a run, in order; a silent action has none. -/
def trace (step : A → S → Option S) (event : A → S → Option E) : List A → S → List E
  | [], _ => []
  | action :: actions, state =>
    (event action state).toList ++ ((step action state).map (trace step event actions)).getD []

def rounds (counts : List (Nat × A)) : List A := counts.flatMap fun round => List.replicate round.1 round.2

theorem run_cons {action : A} {actions : List A} {first last : S} :
    run step (action :: actions) first = some last ↔
      ∃ next, step action first = some next ∧ run step actions next = some last := by
  simp [run,Option.bind_eq_some_iff]

theorem run_append {actions more : List A} {first : S} :
    run step (actions ++ more) first = (run step actions first).bind (run step more) := by
  induction actions generalizing first with
  | nil => rfl
  | cons action actions ih =>
    rw [List.cons_append,run,run,Option.bind_assoc]
    exact Option.bind_congr fun _ _ => ih

/-- What holds at first and is kept by every step holds at the end of every run. -/
theorem run_invariant {Inv : S → Prop}
    (kept : ∀ action state next, step action state = some next → Inv state → Inv next)
    {actions : List A} {first last : S} (ran : run step actions first = some last) (start : Inv first) :
    Inv last := by
  induction actions generalizing first with
  | nil =>
    cases ran
    exact start
  | cons action actions ih =>
    obtain ⟨next,stepped,rest⟩ := run_cons.mp ran
    exact ih rest (kept action first next stepped start)

/-- The same for an invariant that speaks about the events so far. -/
theorem run_history {event : A → S → Option E} {Inv : List E → S → Prop}
    (kept : ∀ past action state next, step action state = some next → Inv past state →
      Inv (past ++ (event action state).toList) next)
    {actions : List A} {past : List E} {first last : S} (ran : run step actions first = some last)
    (start : Inv past first) : Inv (past ++ trace step event actions first) last := by
  induction actions generalizing past first with
  | nil =>
    cases ran
    simpa [trace] using start
  | cons action actions ih =>
    obtain ⟨next,stepped,rest⟩ := run_cons.mp ran
    have later := ih rest (kept past action first next stepped start)
    simpa [trace,stepped,List.append_assoc] using later

/-- Where every step has an event that tells its action, a run is the trace of its own actions. -/
theorem trace_map {F : Type} {event : A → S → Option E} {told : E → F} {tell : A → F}
    (tells : ∀ action state, (event action state).map told = some (tell action))
    {actions : List A} {first last : S} (ran : run step actions first = some last) :
    (trace step event actions first).map told = actions.map tell := by
  induction actions generalizing first with
  | nil => rfl
  | cons action actions ih =>
    obtain ⟨next,stepped,rest⟩ := run_cons.mp ran
    obtain ⟨happened,here,same⟩ := Option.map_eq_some_iff.mp (tells action first)
    simp [trace,stepped,here,same,ih rest]

theorem trace_actions {actions : List A} {first last : S} (ran : run step actions first = some last) :
    trace step (fun action _ => some action) actions first = actions := by
  have told : (trace step (fun action _ => some action) actions first).map id = actions.map id := trace_map (fun _ _ => rfl) ran
  simpa using told

/-- Every action of a run meets a condition on the state that it is taken in. -/
def Along (step : A → S → Option S) (Met : A → S → Prop) : List A → S → Prop
  | [], _ => True
  | action :: actions, state => Met action state ∧ ∀ next ∈ step action state, Along step Met actions next

instance decidableAlong {step : A → S → Option S} {Met : A → S → Prop} [∀ action state, Decidable (Met action state)] :
    (actions : List A) → (state : S) → Decidable (Along step Met actions state)
  | [], _ => .isTrue trivial
  | action :: actions, state =>
    have (next : S) : Decidable (Along step Met actions next) := decidableAlong actions next
    inferInstanceAs (Decidable (Met action state ∧ ∀ next ∈ step action state, Along step Met actions next))

theorem along_append {Met : A → S → Prop} {actions more : List A} {first middle : S}
    (ran : run step actions first = some middle) (along : Along step Met (actions ++ more) first) :
    Along step Met actions first ∧ Along step Met more middle := by
  induction actions generalizing first with
  | nil =>
    cases ran
    exact ⟨trivial,along⟩
  | cons action actions ih =>
    obtain ⟨next,stepped,rest⟩ := run_cons.mp ran
    obtain ⟨before,after⟩ := ih rest (along.2 next stepped)
    refine ⟨⟨along.1,?_⟩,after⟩
    intro other also
    cases stepped.symm.trans also
    exact before

/-- An invariant that a step keeps only where its action meets the condition. -/
theorem run_along {Met : A → S → Prop} {Inv : S → Prop}
    (kept : ∀ action state next, step action state = some next → Met action state → Inv state → Inv next)
    {actions : List A} {first last : S} (ran : run step actions first = some last)
    (along : Along step Met actions first) (start : Inv first) : Inv last := by
  induction actions generalizing first with
  | nil =>
    cases ran
    exact start
  | cons action actions ih =>
    obtain ⟨next,stepped,rest⟩ := run_cons.mp ran
    exact ih rest (along.2 next stepped) (kept action first next stepped along.1 start)

/-- What such steps do in the states that keep the invariant holds all along the run. -/
theorem along_kept {Met Held : A → S → Prop} {Inv : S → Prop}
    (kept : ∀ action state next, step action state = some next → Met action state → Inv state → Inv next)
    (held : ∀ action state next, step action state = some next → Met action state → Inv state → Held action state)
    {actions : List A} {first last : S} (ran : run step actions first = some last)
    (along : Along step Met actions first) (start : Inv first) : Along step Held actions first := by
  induction actions generalizing first with
  | nil => trivial
  | cons action actions ih =>
    obtain ⟨next,stepped,rest⟩ := run_cons.mp ran
    refine ⟨held action first next stepped along.1 start,?_⟩
    intro other also
    cases stepped.symm.trans also
    exact ih rest (along.2 next stepped) (kept action first next stepped along.1 start)

/-- Where every step lowers a rank there are at most so many steps. -/
theorem run_bounded {Inv : S → Prop} (rank : S → Nat)
    (kept : ∀ action state next, step action state = some next → Inv state → Inv next)
    (descends : ∀ action state next, step action state = some next → Inv state → rank next < rank state)
    {actions : List A} {first last : S} (ran : run step actions first = some last) (start : Inv first) :
    actions.length + rank last ≤ rank first := by
  induction actions generalizing first with
  | nil =>
    cases ran
    simp
  | cons action actions ih =>
    obtain ⟨next,stepped,rest⟩ := run_cons.mp ran
    have lower := descends action first next stepped start
    have later := ih rest (kept action first next stepped start)
    rw [List.length_cons]
    omega

def Reachable (step : A → S → Option S) (first state : S) : Prop :=
  ∃ actions, run step actions first = some state

theorem reachable_invariant {Inv : S → Prop}
    (kept : ∀ action state next, step action state = some next → Inv state → Inv next)
    {first state : S} (reached : Reachable step first state) (start : Inv first) : Inv state := by
  obtain ⟨actions,ran⟩ := reached
  exact run_invariant kept ran start

/-- Where every state short of the goal has a step that lowers a rank, the goal can be
reached from every state. -/
theorem reaches_goal {Inv Goal : S → Prop} (rank : S → Nat)
    (kept : ∀ action state next, step action state = some next → Inv state → Inv next)
    (descends : ∀ state, Inv state → ¬Goal state → ∃ action next, step action state = some next ∧ rank next < rank state)
    {state : S} (holds : Inv state) : ∃ actions last, run step actions state = some last ∧ Inv last ∧ Goal last := by
  induction left : rank state using Nat.strongRecOn generalizing state with
  | ind bound ih =>
    by_cases reached : Goal state
    · exact ⟨[],state,rfl,holds,reached⟩
    · obtain ⟨action,next,stepped,lower⟩ := descends state holds reached
      obtain ⟨actions,last,ran,inside,goal⟩ := ih (rank next) (left ▸ lower) (kept action state next stepped holds) rfl
      exact ⟨action :: actions,last,run_cons.mpr ⟨next,stepped,ran⟩,inside,goal⟩

end Machine
