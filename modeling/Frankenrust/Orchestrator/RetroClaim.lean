import Frankenrust.Library.Tenure
import Frankenrust.Library.Threads
import Frankenrust.Orchestrator.Retro
import Mathlib.Data.Finset.Lattice.Fold
import Mathlib.Data.Int.Interval
import Mathlib.Order.Interval.Finset.Nat
import Mathlib.Order.Lattice.Nat

/-! Callers of `_claim_retro_cycle` on one directory, in steps of their own: the exclusive
creation of a report, the look at each of the other artifacts, and the give-back. -/
namespace Frankenrust.Orchestrator.Retro

inductive Claim
  | opening (cycle : Int)
  | closing (cycle : Int) (report : Path) (siblings : List Path)
  -- the siblings that are still to be looked at
  | checking (cycle : Int) (report : Path) (left : List Path)
  | unlinking (cycle : Int) (report : Path)
  | obtained (cycle : Int) (report : Path)
  | raised (cycle : Int)
  deriving DecidableEq

inductive Deed
  | created (path : Path)
  | unlinked (path : Path)
  | other
  deriving DecidableEq

def Deed.path : Deed → Option Path
  | .created path | .unlinked path => some path
  | .other => none

variable {ι : Type} [DecidableEq ι] (retroAgent : Text)

/-- One step of a caller; a call that is over takes none. -/
def claimRetroCycle (_ : ι) (_ : Unit) (files : Finset Path) : Claim → Option (Finset Path × Claim)
  | .opening cycle =>
    match retroArtifacts retroAgent cycle with
    | some (report :: siblings) =>
      if report ∈ files then some (files,.opening (cycle + 1))
      else some (insert report files,.closing cycle report siblings)
    | _ => some (files,.raised cycle)
  | .closing cycle report siblings => some (files,.checking cycle report siblings)
  | .checking cycle report (sibling :: left) =>
    if sibling ∈ files then some (files,.unlinking cycle report) else some (files,.checking cycle report left)
  | .checking cycle report [] => some (files,.obtained cycle report)
  | .unlinking cycle report => some (files.erase report,.opening (cycle + 1))
  | .obtained _ _ | .raised _ => none

def deed (i : ι) (_ : Unit) (files : Finset Path) (claim : Claim) : Option (ι × Deed) :=
  some (i,match claim with
    | .opening cycle =>
      match retroArtifacts retroAgent cycle with
      | some (report :: _) => if report ∈ files then .other else .created report
      | _ => .other
    | .unlinking _ report => .unlinked report
    | _ => .other)

/-- Every caller with the number that it wants, and what lies in the directories. -/
def begun (initial : Finset Path) (wanted : ι → Int) : Threads ι (Finset Path) Claim := ⟨initial,fun i => .opening (wanted i)⟩

namespace Claim

def cycle : Claim → Int
  | .opening cycle | .closing cycle _ _ | .checking cycle _ _ | .unlinking cycle _ | .obtained cycle _ | .raised cycle => cycle

def report : Claim → Option Path
  | .closing _ report _ | .checking _ report _ | .unlinking _ report | .obtained _ report => some report
  | .opening _ | .raised _ => none

def finished : Claim → Bool
  | .obtained _ _ | .raised _ => true
  | _ => false

/-- How many steps a call has taken for its present number, at most. -/
def taken : Claim → Nat
  | .opening _ => 0
  | .closing _ _ _ | .raised _ => 1
  | .checking _ _ left => 5 - left.length
  | .unlinking _ _ => 5
  | .obtained _ _ => 6

/-- What a call has found out about its number. -/
def Sound (retroAgent : Text) (initial : Finset Path) : Claim → Prop
  | .opening _ => True
  | .closing cycle report siblings => retroArtifacts retroAgent cycle = some (report :: siblings)
  | .checking cycle report left => ∃ checked, retroArtifacts retroAgent cycle = some (report :: (checked ++ left)) ∧
    ∀ path ∈ checked, path ∉ initial
  | .unlinking cycle report => ∃ siblings, retroArtifacts retroAgent cycle = some (report :: siblings) ∧
    ∃ path ∈ siblings, path ∈ initial
  | .obtained cycle report => ∃ siblings, retroArtifacts retroAgent cycle = some (report :: siblings) ∧
    ∀ path ∈ siblings, path ∉ initial
  | .raised cycle => str cycle = none

end Claim

/-- The later event is about the same file. -/
def Touches (first later : ι × Deed) : Prop := later.2.path = first.2.path

/-- A number that no artifact of the start reaches. -/
def ceiling (initial : Finset Path) : Nat := initial.sup fun path => 10 ^ path.name.length

/-- Who has created each report that is there, and how many steps each caller has taken. -/
structure Ghost (ι : Type) where
  owner : Path → Option ι
  steps : ι → Nat

section Invariant
variable (initial : Finset Path) (wanted : ι → Int)

structure Known (ghost : Ghost ι) (past : List (ι × Deed)) (files : Finset Path) : Prop where
  files : ∀ path, path ∈ files ↔ path ∈ initial ∨ (ghost.owner path).isSome = true
  fresh : ∀ path ∈ initial, ghost.owner path = none
  reports : ∀ path i, ghost.owner path = some i → path.directory = .logs
  standing : ∀ path i, ghost.owner path = some i → Tenure.Standing Touches past (i,.created path)
  faithful : ∀ before i path after, past = before ++ (i,.unlinked path) :: after → Tenure.Standing Touches before (i,.created path)
  steps : ∀ i, past.countP (fun event => event.1 = i) = ghost.steps i

structure Fits (ghost : Ghost ι) (i : ι) (claim : Claim) : Prop where
  owns : ∀ path, ghost.owner path = some i ↔ claim.report = some path
  sound : claim.Sound retroAgent initial
  above : wanted i ≤ claim.cycle
  -- every number that was passed over above the ceiling has gone to another caller
  passed : ∀ cycle : Int, ceiling initial < cycle → wanted i ≤ cycle → cycle < claim.cycle →
    ∃ report siblings, retroArtifacts retroAgent cycle = some (report :: siblings) ∧ (ghost.owner report).isSome = true
  steps : ghost.steps i ≤ 6 * (claim.cycle - wanted i).toNat + claim.taken

end Invariant

section Numbers
variable {retroAgent : Text} {cycle other : Int} {report path : Path} {siblings artifacts : List Path}

theorem str_injective {first second : Int} {number : Text} (one : str first = some number) (two : str second = some number) :
    first = second := by
  obtain ⟨_,rfl⟩ := str_some one
  obtain ⟨_,same⟩ := str_some two
  have digits {n m : Nat} (same : decimalText n = decimalText m) : n = m := by
    have read := congrArg (fun digits => Nat.ofDigitChars 10 digits 0) same
    simpa [decimalText] using read
  have sign {n m : Nat} : decimalText n ≠ '-' :: decimalText m := by
    intro same
    exact absurd (decimalText_digits (same ▸ List.mem_cons_self : '-' ∈ decimalText n)) (by decide)
  unfold Json.signed at same
  split at same
  · split at same
    · have magnitude := digits (List.cons_inj_right _ |>.mp same)
      omega
    · exact absurd same.symm sign
  · split at same
    · exact absurd same sign
    · have magnitude := digits same
      omega

theorem report_facts (listed : retroArtifacts retroAgent cycle = some (report :: siblings)) :
    report.directory = .logs ∧ (∀ path ∈ siblings, path.directory = .retro) ∧ siblings.length = 3 := by
  obtain ⟨number,_,same⟩ := Option.map_eq_some_iff.mp listed
  obtain ⟨rfl,rfl⟩ := List.cons.inj same
  exact ⟨rfl,by simp,rfl⟩

theorem report_injective {others : List Path} (one : retroArtifacts retroAgent cycle = some (report :: siblings))
    (two : retroArtifacts retroAgent other = some (report :: others)) : cycle = other := by
  obtain ⟨number,printed,same⟩ := Option.map_eq_some_iff.mp one
  obtain ⟨number',printed',same'⟩ := Option.map_eq_some_iff.mp two
  obtain ⟨rfl,_⟩ := List.cons.inj same
  obtain ⟨again,_⟩ := List.cons.inj same'
  rw [Path.mk.injEq,List.append_cancel_right_eq,List.append_cancel_left_eq] at again
  exact str_injective printed (again.2 ▸ printed')

/-- No artifact of the start has a number over the ceiling. -/
theorem ceiling_le {initial : Finset Path} (listed : retroArtifacts retroAgent cycle = some artifacts) (member : path ∈ artifacts)
    (there : path ∈ initial) : cycle ≤ ceiling initial := by
  obtain ⟨number,printed,rfl⟩ := Option.map_eq_some_iff.mp listed
  obtain ⟨_,rfl⟩ := str_some printed
  have inside : (decimalText cycle.natAbs).length ≤ path.name.length := by
    have signed : (decimalText cycle.natAbs).length ≤ (Json.signed cycle (decimalText cycle.natAbs)).length := by
      unfold Json.signed
      split
      · simp
      · exact Nat.le_refl _
    simp only [List.mem_cons,List.not_mem_nil,or_false] at member
    rcases member with rfl | rfl | rfl | rfl
    all_goals
      simp only [List.length_append]
      omega
  have some : 0 < path.name.length := Nat.lt_of_lt_of_le (List.length_pos_iff.mpr decimalText_ne_nil) inside
  have below : cycle.natAbs < 10 ^ path.name.length := (Nat.length_toDigits_le_iff (by decide) some).mp inside
  have top : 10 ^ path.name.length ≤ ceiling initial :=
    Finset.le_sup (f := fun path : Path => 10 ^ path.name.length) there
  omega

end Numbers

section Steps
variable {retroAgent : Text} {initial : Finset Path} {wanted : ι → Int} {ghost : Ghost ι} {past : List (ι × Deed)} {files : Finset Path}
  {i : ι} {claim next : Claim} {cycle : Int} {report : Path} {siblings : List Path}

/-- After a step of a caller, with the owners as they are then. -/
def Ghost.tick (ghost : Ghost ι) (i : ι) (owner : Path → Option ι) : Ghost ι :=
  ⟨owner,Function.update ghost.steps i (ghost.steps i + 1)⟩

/-- The history goes on: what is unlinked was created by the one who unlinks it. -/
theorem history_snoc (event : Deed) (owner : Path → Option ι) (known : Known initial ghost past files)
    (own : ∀ path, event = .unlinked path → Tenure.Standing Touches past (i,.created path)) :
    (∀ before j path after, past ++ [(i,event)] = before ++ (j,.unlinked path) :: after →
      Tenure.Standing Touches before (j,.created path)) ∧
    ∀ j, (past ++ [(i,event)]).countP (fun event => event.1 = j) = (ghost.tick i owner).steps j := by
  refine ⟨?_,?_⟩
  · intro before j path after same
    rcases Tenure.split_snoc same with ⟨_,rfl,newest⟩ | ⟨earlier,_,rfl⟩
    · cases newest
      exact own path rfl
    · exact known.faithful before j path earlier rfl
  · intro j
    rw [List.countP_append,known.steps j,Ghost.tick]
    by_cases same : i = j
    · simp [same]
    · simp [same,Ne.symm same]

theorem move_kept (known : Known initial ghost past files) (fits : Fits retroAgent initial wanted ghost i claim)
    (report : next.report = claim.report) (sound : next.Sound retroAgent initial) (above : claim.cycle ≤ next.cycle)
    (passed : ∀ cycle : Int, ceiling initial < cycle → claim.cycle ≤ cycle → cycle < next.cycle →
      ∃ report siblings, retroArtifacts retroAgent cycle = some (report :: siblings) ∧ (ghost.owner report).isSome = true)
    (taken : 6 * (next.cycle - claim.cycle) + next.taken ≥ claim.taken + (1 : Int)) :
    ∃ ghost', Known initial ghost' (past ++ [(i,Deed.other)]) files ∧ Fits retroAgent initial wanted ghost' i next ∧
      ∀ j other, j ≠ i → Fits retroAgent initial wanted ghost j other → Fits retroAgent initial wanted ghost' j other := by
  obtain ⟨faithful,steps⟩ := history_snoc (i := i) .other ghost.owner known nofun
  refine ⟨ghost.tick i ghost.owner,⟨known.files,known.fresh,known.reports,?_,faithful,steps⟩,⟨?_,sound,?_,?_,?_⟩,?_⟩
  · exact fun path j owns => Tenure.standing_longer (known.standing path j owns) nofun
  · exact report ▸ fits.owns
  · exact Int.le_trans fits.above above
  · intro cycle high enough low
    by_cases before : cycle < claim.cycle
    · exact fits.passed cycle high enough before
    · exact passed cycle high (Int.not_lt.mp before) low
  · have start := fits.above
    have bound := fits.steps
    simp only [Ghost.tick,Function.update_self]
    omega
  · intro j other apart others
    exact ⟨others.owns,others.sound,others.above,others.passed,by simpa [Ghost.tick,apart] using others.steps⟩

theorem create_kept (known : Known initial ghost past files) (fits : Fits retroAgent initial wanted ghost i (.opening cycle))
    (listed : retroArtifacts retroAgent cycle = some (report :: siblings)) (free : report ∉ files) :
    ∃ ghost', Known initial ghost' (past ++ [(i,Deed.created report)]) (insert report files) ∧
      Fits retroAgent initial wanted ghost' i (.closing cycle report siblings) ∧
      ∀ j other, j ≠ i → Fits retroAgent initial wanted ghost j other → Fits retroAgent initial wanted ghost' j other := by
  have nobody : ghost.owner report = none := by
    by_contra owned
    exact free ((known.files report).mpr (.inr (Option.isSome_iff_ne_none.mpr owned)))
  have later : report ∉ initial := fun there => free ((known.files report).mpr (.inl there))
  obtain ⟨faithful,steps⟩ := history_snoc (i := i) (.created report) (Function.update ghost.owner report (some i)) known nofun
  have kept {path : Path} {j : ι} (apart : j ≠ i) :
      Function.update ghost.owner report (some i) path = some j ↔ ghost.owner path = some j := by
    by_cases same : path = report
    · simp [same,nobody,Ne.symm apart]
    · simp [same]
  have grown {path : Path} (owned : (ghost.owner path).isSome = true) :
      (Function.update ghost.owner report (some i) path).isSome = true := by
    by_cases same : path = report
    · simp [same]
    · simpa [same] using owned
  refine ⟨ghost.tick i (Function.update ghost.owner report (some i)),⟨?_,?_,?_,?_,faithful,steps⟩,⟨?_,listed,fits.above,?_,?_⟩,?_⟩
  · intro path
    by_cases same : path = report
    · simp [same,Ghost.tick]
    · simpa [same,Ghost.tick] using known.files path
  · intro path there
    have apart : path ≠ report := fun same => later (same ▸ there)
    simpa [Ghost.tick,apart] using known.fresh path there
  · intro path j owns
    by_cases same : path = report
    · exact same ▸ (report_facts listed).1
    · exact known.reports path j (by simpa [Ghost.tick,same] using owns)
  · intro path j owns
    by_cases same : path = report
    · obtain rfl : i = j := by simpa [Ghost.tick,same] using owns
      exact same ▸ Tenure.standing_now _ _
    · refine Tenure.standing_longer (known.standing path j (by simpa [Ghost.tick,same] using owns)) ?_
      exact fun touches => same (Option.some.inj touches).symm
  · intro path
    by_cases same : path = report
    · simp [same,Ghost.tick,Claim.report]
    · simpa [same,Ne.symm same,Ghost.tick,Claim.report] using fits.owns path
  · intro number high enough low
    obtain ⟨report,siblings,made,owned⟩ := fits.passed number high enough low
    exact ⟨report,siblings,made,grown owned⟩
  · have bound := fits.steps
    simp only [Ghost.tick,Function.update_self,Claim.cycle,Claim.taken] at bound ⊢
    omega
  · intro j other apart others
    refine ⟨fun path => (kept apart).trans (others.owns path),others.sound,others.above,?_,?_⟩
    · intro number high enough low
      obtain ⟨report,siblings,made,owned⟩ := others.passed number high enough low
      exact ⟨report,siblings,made,grown owned⟩
    · simpa [Ghost.tick,apart] using others.steps

/-- The report is given back: it is the caller's own, and its number lies below the ceiling. -/
theorem unlink_kept (known : Known initial ghost past files) (fits : Fits retroAgent initial wanted ghost i (.unlinking cycle report)) :
    ∃ ghost', Known initial ghost' (past ++ [(i,Deed.unlinked report)]) (files.erase report) ∧
      Fits retroAgent initial wanted ghost' i (.opening (cycle + 1)) ∧
      ∀ j other, j ≠ i → Fits retroAgent initial wanted ghost j other → Fits retroAgent initial wanted ghost' j other := by
  have mine := (fits.owns report).mpr rfl
  have later : report ∉ initial := fun there => by simp [known.fresh report there] at mine
  obtain ⟨siblings,listed,path,among,there⟩ := fits.sound
  have low := ceiling_le listed (List.mem_cons_of_mem _ among) there
  obtain ⟨faithful,steps⟩ := history_snoc (i := i) (.unlinked report) (Function.update ghost.owner report none) known
    fun path same => Deed.unlinked.inj same ▸ known.standing report i mine
  have kept {path : Path} {j : ι} (apart : j ≠ i) :
      Function.update ghost.owner report none path = some j ↔ ghost.owner path = some j := by
    by_cases same : path = report
    · simp [same,mine,Ne.symm apart]
    · simp [same]
  have above {number : Int} (high : ceiling initial < number) {first : Path} {rest : List Path}
      (made : retroArtifacts retroAgent number = some (first :: rest)) (owned : (ghost.owner first).isSome = true) :
      (Function.update ghost.owner report none first).isSome = true := by
    have apart : first ≠ report := by
      rintro rfl
      have same := report_injective made listed
      omega
    simpa [apart] using owned
  refine ⟨ghost.tick i (Function.update ghost.owner report none),⟨?_,?_,?_,?_,faithful,steps⟩,⟨?_,trivial,?_,?_,?_⟩,?_⟩
  · intro path
    by_cases same : path = report
    · simp [same,Ghost.tick,later]
    · simpa [same,Ghost.tick] using known.files path
  · intro path there
    by_cases same : path = report
    · simp [same,Ghost.tick]
    · simpa [Ghost.tick,same] using known.fresh path there
  · intro path j owns
    by_cases same : path = report
    · simp [same,Ghost.tick] at owns
    · exact known.reports path j (by simpa [Ghost.tick,same] using owns)
  · intro path j owns
    by_cases same : path = report
    · simp [same,Ghost.tick] at owns
    · refine Tenure.standing_longer (known.standing path j (by simpa [Ghost.tick,same] using owns)) ?_
      exact fun touches => same (Option.some.inj touches).symm
  · intro path
    by_cases same : path = report
    · simp [same,Ghost.tick,Claim.report]
    · simpa [same,Ne.symm same,Ghost.tick,Claim.report] using fits.owns path
  · have start := fits.above
    simp only [Claim.cycle] at start ⊢
    omega
  · intro number high enough low'
    simp only [Claim.cycle] at low'
    obtain ⟨first,rest,made,owned⟩ := fits.passed number high enough (by simp only [Claim.cycle]; omega)
    exact ⟨first,rest,made,above high made owned⟩
  · have start := fits.above
    have bound := fits.steps
    simp only [Ghost.tick,Function.update_self,Claim.cycle,Claim.taken] at start bound ⊢
    omega
  · intro j other apart others
    refine ⟨fun path => (kept apart).trans (others.owns path),others.sound,others.above,?_,?_⟩
    · intro number high enough low'
      obtain ⟨first,rest,made,owned⟩ := others.passed number high enough low'
      exact ⟨first,rest,made,above high made owned⟩
    · simpa [Ghost.tick,apart] using others.steps

theorem claim_kept {after : Finset Path} (turned : claimRetroCycle retroAgent i () files claim = some (after,next))
    (known : Known initial ghost past files) (fits : Fits retroAgent initial wanted ghost i claim) :
    ∃ ghost', Known initial ghost' (past ++ (deed retroAgent i () files claim).toList) after ∧
      Fits retroAgent initial wanted ghost' i next ∧
      ∀ j other, j ≠ i → Fits retroAgent initial wanted ghost j other → Fits retroAgent initial wanted ghost' j other := by
  -- a step that keeps the number passes over none
  have stays (cycle number : Int) (_ : (ceiling initial : Int) < number) (above : cycle ≤ number) (below : number < cycle) :
      ∃ report siblings, retroArtifacts retroAgent number = some (report :: siblings) ∧ (ghost.owner report).isSome = true :=
    absurd below (Int.not_lt.mpr above)
  cases claim with
  | opening cycle =>
    cases listed : retroArtifacts retroAgent cycle with
    | none =>
      simp only [claimRetroCycle,listed,Option.some.injEq,Prod.mk.injEq] at turned
      obtain ⟨rfl,rfl⟩ := turned
      have event : deed retroAgent i () files (.opening cycle) = some (i,.other) := by simp [deed,listed]
      rw [event]
      refine move_kept known fits rfl (Option.map_eq_none_iff.mp listed) (Int.le_refl _) (stays cycle) ?_
      simp only [Claim.cycle,Claim.taken]
      omega
    | some artifacts =>
      obtain ⟨report,siblings,rfl⟩ : ∃ report siblings, artifacts = report :: siblings := by
        obtain ⟨number,_,rfl⟩ := Option.map_eq_some_iff.mp listed
        exact ⟨_,_,rfl⟩
      by_cases there : report ∈ files
      · simp only [claimRetroCycle,listed,there,if_true,Option.some.injEq,Prod.mk.injEq] at turned
        obtain ⟨rfl,rfl⟩ := turned
        have event : deed retroAgent i () files (.opening cycle) = some (i,.other) := by simp [deed,listed,there]
        have passed (number : Int) (high : ceiling initial < number) (above : cycle ≤ number) (below : number < cycle + 1) :
            ∃ report siblings, retroArtifacts retroAgent number = some (report :: siblings) ∧ (ghost.owner report).isSome = true := by
          obtain rfl : number = cycle := by omega
          refine ⟨report,siblings,listed,((known.files report).mp there).resolve_left fun old => ?_⟩
          have low := ceiling_le listed List.mem_cons_self old
          omega
        rw [event]
        refine move_kept known fits rfl trivial ?_ passed ?_
        · simp only [Claim.cycle]
          omega
        · simp only [Claim.cycle,Claim.taken]
          omega
      · simp only [claimRetroCycle,listed,there,if_false,Option.some.injEq,Prod.mk.injEq] at turned
        obtain ⟨rfl,rfl⟩ := turned
        have event : deed retroAgent i () files (.opening cycle) = some (i,.created report) := by simp [deed,listed,there]
        rw [event]
        exact create_kept known fits listed there
  | closing cycle report siblings =>
    cases turned
    have three := (report_facts fits.sound).2.2
    refine move_kept known fits rfl ⟨[],fits.sound,by simp⟩ (Int.le_refl _) (stays cycle) ?_
    simp only [Claim.cycle,Claim.taken]
    omega
  | checking cycle report left =>
    obtain ⟨checked,listed,absent⟩ := fits.sound
    obtain ⟨_,apart,three⟩ := report_facts listed
    rw [List.length_append] at three
    cases left with
    | nil =>
      cases turned
      refine move_kept known fits rfl ⟨checked,by simpa using listed,absent⟩ (Int.le_refl _) (stays cycle) ?_
      simp only [Claim.cycle,Claim.taken,List.length_nil]
      omega
    | cons sibling left =>
      rw [List.length_cons] at three
      by_cases there : sibling ∈ files
      · simp only [claimRetroCycle,there,if_true,Option.some.injEq,Prod.mk.injEq] at turned
        obtain ⟨rfl,rfl⟩ := turned
        have old : sibling ∈ initial := by
          refine ((known.files sibling).mp there).resolve_right fun owned => ?_
          obtain ⟨j,owns⟩ := Option.isSome_iff_exists.mp owned
          have directory := apart sibling (by simp)
          rw [known.reports sibling j owns] at directory
          cases directory
        refine move_kept known fits rfl ⟨_,listed,sibling,by simp,old⟩ (Int.le_refl _) (stays cycle) ?_
        simp only [Claim.cycle,Claim.taken,List.length_cons]
        omega
      · simp only [claimRetroCycle,there,if_false,Option.some.injEq,Prod.mk.injEq] at turned
        obtain ⟨rfl,rfl⟩ := turned
        have new : sibling ∉ initial := fun old => there ((known.files sibling).mpr (.inl old))
        refine move_kept known fits rfl ⟨checked ++ [sibling],by simpa using listed,?_⟩ (Int.le_refl _) (stays cycle) ?_
        · intro path member
          rcases List.mem_append.mp member with member | last
          · exact absent path member
          · exact List.mem_singleton.mp last ▸ new
        · simp only [Claim.cycle,Claim.taken,List.length_cons]
          omega
  | unlinking cycle report =>
    cases turned
    exact unlink_kept known fits
  | obtained _ _ => contradiction
  | raised _ => contradiction

end Steps

section Runs
variable {retroAgent : Text} {initial : Finset Path} {wanted : ι → Int} {actions : List (ι × Unit)}
  {last : Threads ι (Finset Path) Claim}

theorem run_kept (ran : Machine.run (Threads.step (claimRetroCycle retroAgent)) actions (begun initial wanted) = some last) :
    ∃ ghost, Threads.Holds (Known initial ghost) (fun _ => Fits retroAgent initial wanted ghost)
      (Machine.trace (Threads.step (claimRetroCycle retroAgent)) (Threads.observe (deed retroAgent)) actions (begun initial wanted)) last := by
  let nobody : Ghost ι := ⟨fun _ => none,fun _ => 0⟩
  have start : Threads.Holds (Known initial nobody) (fun _ => Fits retroAgent initial wanted nobody) [] (begun initial wanted) := by
    refine ⟨⟨by simp [begun,nobody],by simp [nobody],nofun,nofun,by simp,by simp [nobody]⟩,
      fun i => ⟨?_,trivial,Int.le_refl _,?_,Nat.zero_le _⟩⟩
    · simp [begun,nobody,Claim.report]
    · intro cycle _ above below
      exact absurd below (Int.not_lt.mpr above)
  have kept : ∀ past (action : ι × Unit) (state next : Threads ι (Finset Path) Claim),
      Threads.step (claimRetroCycle retroAgent) action state = some next →
      (∃ ghost, Threads.Holds (Known initial ghost) (fun _ => Fits retroAgent initial wanted ghost) past state) →
      ∃ ghost, Threads.Holds (Known initial ghost) (fun _ => Fits retroAgent initial wanted ghost)
        (past ++ (Threads.observe (deed retroAgent) action state).toList) next :=
    Threads.holds_ghost fun _ _ _ _ _ _ _ _ turned known fits => claim_kept turned known fits
  simpa using Machine.run_history kept ran ⟨_,start⟩

omit [DecidableEq ι] in
/-- The numbers between the ceiling, or what a caller wants, and what it has come to belong to
as many callers. -/
theorem cycle_bound [Fintype ι] {ghost : Ghost ι} {locals : ι → Claim}
    (fits : ∀ i, Fits retroAgent initial wanted ghost i (locals i)) (i : ι) :
    (locals i).cycle ≤ max (ceiling initial : Int) (wanted i) + Fintype.card ι + 1 := by
  have : Nonempty ι := ⟨i⟩
  have : Nonempty Path := ⟨⟨.logs,[]⟩⟩
  have owners : ∀ cycle ∈ Finset.Ioo (max (ceiling initial : Int) (wanted i)) (locals i).cycle,
      ∃ j report siblings, retroArtifacts retroAgent cycle = some (report :: siblings) ∧ (locals j).report = some report := by
    intro cycle inside
    obtain ⟨low,high⟩ := Finset.mem_Ioo.mp inside
    obtain ⟨report,siblings,listed,owned⟩ := (fits i).passed cycle (by omega) (by omega) high
    obtain ⟨j,owns⟩ := Option.isSome_iff_exists.mp owned
    exact ⟨j,report,siblings,listed,((fits j).owns report).mp owns⟩
  choose! owner report siblings listed owns using owners
  have few := Finset.card_le_card_of_injOn owner (t := Finset.univ) (fun _ _ => Finset.mem_univ _) (by
    intro first one second two same
    have reports : report first = report second :=
      Option.some.inj ((owns first one).symm.trans ((congrArg (fun j => (locals j).report) same).trans (owns second two)))
    exact report_injective (listed first one) (reports ▸ listed second two))
  rw [Int.card_Ioo,Finset.card_univ] at few
  omega

theorem taken_le (claim : Claim) : claim.taken ≤ 6 := by
  cases claim <;> simp [Claim.taken]
  omega

/-- Callers get distinct numbers, none of which had an artifact at the start; what one unlinks is
its own report; and every call is over after a number of its own steps, whatever the others do. -/
theorem retroClaims_distinct [Fintype ι]
    (ran : Machine.run (Threads.step (claimRetroCycle retroAgent)) actions (begun initial wanted) = some last) :
    (∀ i j cycle report other, last.locals i = .obtained cycle report → last.locals j = .obtained cycle other → i = j) ∧
    (∀ i cycle report, last.locals i = .obtained cycle report → wanted i ≤ cycle ∧
      ∃ artifacts, retroArtifacts retroAgent cycle = some artifacts ∧ ∀ path ∈ artifacts, path ∉ initial) ∧
    (∀ before i path after, Machine.trace (Threads.step (claimRetroCycle retroAgent)) (Threads.observe (deed retroAgent))
      actions (begun initial wanted) = before ++ (i,.unlinked path) :: after → Tenure.Standing Touches before (i,.created path)) ∧
    (∀ i, actions.count (i,()) ≤ 6 * ((ceiling initial - wanted i).toNat + Fintype.card ι + 1) + 6) ∧
    (∀ i, (last.locals i).finished = false → (Threads.step (claimRetroCycle retroAgent) (i,()) last).isSome = true) ∧
    ∀ i cycle, last.locals i = .raised cycle → str cycle = none := by
  obtain ⟨ghost,known,fits⟩ := run_kept ran
  refine ⟨?_,?_,known.faithful,?_,?_,?_⟩
  · intro i j cycle report other one two
    have first := fits i
    have second := fits j
    rw [one] at first
    rw [two] at second
    obtain ⟨_,listed,_⟩ := first.sound
    obtain ⟨_,again,_⟩ := second.sound
    obtain ⟨rfl,_⟩ := List.cons.inj (Option.some.inj (listed.symm.trans again))
    exact Option.some.inj (((first.owns report).mpr rfl).symm.trans ((second.owns report).mpr rfl))
  · intro i cycle report obtained
    have mine := fits i
    rw [obtained] at mine
    obtain ⟨siblings,listed,absent⟩ := mine.sound
    refine ⟨mine.above,_,listed,?_⟩
    intro path member there
    rcases List.mem_cons.mp member with rfl | member
    · have owns := (mine.owns path).mpr rfl
      rw [known.fresh path there] at owns
      contradiction
    · exact absent path member there
  · intro i
    have bound := (fits i).steps
    have reach := cycle_bound fits i
    have offset := taken_le (last.locals i)
    have counted : actions.count (i,()) = ghost.steps i := by
      have told : (Machine.trace (Threads.step (claimRetroCycle retroAgent)) (Threads.observe (deed retroAgent)) actions
          (begun initial wanted)).map Prod.fst = actions.map Prod.fst := Machine.trace_map (fun _ _ => rfl) ran
      have turns : (actions.map Prod.fst).countP (fun j => j = i) = actions.count (i,()) := by
        rw [List.countP_map,List.count]
        exact List.countP_congr fun action _ => by simp [Prod.ext_iff]
      rw [← known.steps i,← turns,← told,List.countP_map]
      rfl
    omega
  · intro i busy
    cases claim : last.locals i with
    | opening cycle =>
      simp only [Threads.step,claim,claimRetroCycle]
      split
      · split <;> rfl
      · rfl
    | checking cycle report left =>
      cases left with
      | nil => simp [Threads.step,claim,claimRetroCycle]
      | cons sibling left =>
        simp only [Threads.step,claim,claimRetroCycle]
        split <;> rfl
    | obtained _ _ | raised _ => simp [claim,Claim.finished] at busy
    | _ => simp [Threads.step,claim,claimRetroCycle]
  · intro i cycle raised
    have mine := (fits i).sound
    rw [raised] at mine
    exact mine

end Runs

/-- Two callers that want one number, of which there is a prompt; there is a report of the next. -/
def contested : Finset Path := {⟨.retro,"prompt.r7.md".toList⟩,⟨.logs,"retro-8.md".toList⟩}

def contest : List (Bool × Unit) := Machine.rounds [(1,false,()),(1,true,()),(10,false,()),(8,true,())]

theorem retroClaims_contested :
    ∃ last, Machine.run (Threads.step (claimRetroCycle "opencode".toList)) contest (begun contested fun _ => 7) = some last ∧
      last.locals false = .obtained 9 ⟨.logs,"retro-9.md".toList⟩ ∧ last.locals true = .obtained 10 ⟨.logs,"retro-10.md".toList⟩ ∧
      ∃ artifacts, retroArtifacts "opencode".toList 9 = some artifacts ∧ ∀ path ∈ artifacts, path ∉ contested := by
  have ran : (Machine.run (Threads.step (claimRetroCycle "opencode".toList)) contest (begun contested fun _ => 7)).map
      (fun last => (last.locals false,last.locals true)) =
      some (.obtained 9 ⟨.logs,"retro-9.md".toList⟩,.obtained 10 ⟨.logs,"retro-10.md".toList⟩) := by decide +kernel
  obtain ⟨last,ran,both⟩ := Option.map_eq_some_iff.mp ran
  obtain ⟨first,second⟩ := Prod.mk.inj both
  exact ⟨last,ran,first,second,((retroClaims_distinct ran).2.1 false 9 _ first).2⟩

end Frankenrust.Orchestrator.Retro
