import Frankenrust.Thread.Claims

/-! The number of thread slots, `resolve_max_threads` and its callers, in the widths of a 64-bit
target: `usize` is `u64` there, and `c_int` has 32 bits. -/
namespace Frankenrust.Thread
open Pool (cIntMax)

inductive MaxThreads
  | fixed (count : UInt64)
  | auto
  deriving DecidableEq

inductive ThreadError
  | invalidThreadCount (numThreads : UInt64) (maxThreads : MaxThreads)
  deriving DecidableEq

def saturatingMul (first second : UInt64) : UInt64 :=
  if first.toNat * second.toNat < UInt64.size then first * second else UInt64.ofNat (UInt64.size - 1)

/-- Division of `u64`, which panics on a zero divisor. -/
def divide (dividend divisor : UInt64) : Option UInt64 := if divisor = 0 then none else some (dividend / divisor)

def automaticMaxThreads (numThreads : UInt64) (perThreadLimit : Int64) (totalMemory : UInt64) : Option UInt64 :=
  if perThreadLimit ≤ 0 ∨ totalMemory = 0 then some (saturatingMul numThreads 2)
  else divide totalMemory perThreadLimit.toUInt64

def resolveMaxThreads (numThreads : UInt64) (requested : MaxThreads) (perThreadLimit : Int64) (totalMemory : UInt64) :
    Option UInt64 := do
  let resolved ← match requested with
    | .fixed count => some count
    | .auto => automaticMaxThreads numThreads perThreadLimit totalMemory
  return max resolved numThreads

structure PhpMainThread where
  numThreads : UInt64
  requestedMaxThreads : MaxThreads
  maxThreads : UInt64
  deriving DecidableEq

def PhpMainThread.new (numThreads : UInt64) (maxThreads : MaxThreads) : PhpMainThread where
  numThreads := numThreads
  requestedMaxThreads := maxThreads
  maxThreads := match maxThreads with
    | .fixed count => count
    | .auto => numThreads

def PhpMainThread.finalizeMaxThreads (main : PhpMainThread) (perThreadLimit : Int64) (totalMemory : UInt64) :
    Option PhpMainThread := do
  let resolved ← match main.requestedMaxThreads with
    | .fixed _ => resolveMaxThreads main.numThreads main.requestedMaxThreads 0 0
    | .auto => resolveMaxThreads main.numThreads main.requestedMaxThreads perThreadLimit totalMemory
  return { main with maxThreads := resolved }

/-- `as c_int`. -/
def asCInt (count : UInt64) : Int32 := count.toUInt32.toInt32

/-- How many cells `frankenphp_init_thread_metrics` allocates: a negative argument becomes a size
that `calloc` refuses. -/
def initThreadMetrics (maxThreads : Int32) : Nat := if 0 ≤ maxThreads then maxThreads.toInt.toNat else 0

/-- `Vec::with_capacity` for pointers panics beyond `isize::MAX` bytes. -/
def withCapacity (capacity : UInt64) : Option Unit := if 8 * capacity.toNat < 2 ^ 63 then some () else none

/-- What C was told, and the slots of the registry. -/
structure Installed where
  main : PhpMainThread
  mainArgument : Int32
  metricsArgument : Int32
  metrics : Nat
  threads : List Nat
  deriving DecidableEq

def invalidThreadCount (numThreads : UInt64) (maxThreads : MaxThreads) : Bool :=
  let fixedCountOutOfRange : Bool := match maxThreads with
    | .fixed count => count = 0 || count.toNat > cIntMax
    | .auto => false
  fixedCountOutOfRange || numThreads.toNat > cIntMax

/-- `init_php_threads` up to the boots; the inner option fails where it panics. -/
def initPhpThreads (numThreads : UInt64) (maxThreads : MaxThreads) (perThreadLimit : Int64) (totalMemory : UInt64) :
    Except ThreadError (Option Installed) :=
  if invalidThreadCount numThreads maxThreads then .error (.invalidThreadCount numThreads maxThreads)
  else .ok do
    let main ← (PhpMainThread.new numThreads maxThreads).finalizeMaxThreads perThreadLimit totalMemory
    let finalMaxThreads := main.maxThreads
    withCapacity finalMaxThreads
    return {
      main
      mainArgument := asCInt numThreads
      metricsArgument := asCInt finalMaxThreads
      metrics := initThreadMetrics (asCInt finalMaxThreads)
      threads := 0 :: List.range' 1 (finalMaxThreads.toNat - 1) }

/-- The limit as it would be with numbers of any size. -/
def exactLimit (numThreads : UInt64) (maxThreads : MaxThreads) (perThreadLimit : Int64) (totalMemory : UInt64) : Nat :=
  match maxThreads with
  | .fixed count => count.toNat
  | .auto =>
    if perThreadLimit ≤ 0 ∨ totalMemory = 0 then numThreads.toNat * 2
    else totalMemory.toNat / perThreadLimit.toInt.toNat

/-- The limit is the exact one and in range, C is told the same numbers, and its metrics cover
every slot. -/
structure Installed.Covered (installed : Installed) (numThreads : UInt64) (maxThreads : MaxThreads)
    (perThreadLimit : Int64) (totalMemory : UInt64) : Prop where
  exact : installed.main.maxThreads.toNat =
    max (exactLimit numThreads maxThreads perThreadLimit totalMemory) numThreads.toNat
  atLeast : max 1 numThreads.toNat ≤ installed.main.maxThreads.toNat
  atMost : installed.main.maxThreads.toNat ≤ cIntMax
  lossless : installed.metricsArgument.toInt = installed.main.maxThreads.toNat ∧
    installed.mainArgument.toInt = numThreads.toNat
  slots : ∀ threadIndex ∈ installed.threads, threadIndex < installed.metrics

/-- The automatic limit stays in range, and there is one thread at least. -/
def InRange (numThreads : UInt64) (maxThreads : MaxThreads) (perThreadLimit : Int64) (totalMemory : UInt64) : Prop :=
  match maxThreads with
  | .fixed _ => True
  | .auto =>
    if perThreadLimit ≤ 0 ∨ totalMemory = 0 then 1 ≤ numThreads.toNat ∧ 2 * numThreads.toNat ≤ cIntMax
    else totalMemory.toNat / perThreadLimit.toInt.toNat ≤ cIntMax ∧
      (1 ≤ numThreads.toNat ∨ perThreadLimit.toInt.toNat ≤ totalMemory.toNat)

theorem saturatingMul_toNat (first second : UInt64) :
    (saturatingMul first second).toNat = min (first.toNat * second.toNat) (UInt64.size - 1) := by
  unfold saturatingMul
  split
  next fits =>
    rw [UInt64.toNat_mul,Nat.mod_eq_of_lt fits]
    omega
  next large =>
    have top : (UInt64.ofNat (UInt64.size - 1)).toNat = UInt64.size - 1 := rfl
    omega

theorem automaticMaxThreads_exact {numThreads : UInt64} (few : numThreads.toNat ≤ cIntMax) (perThreadLimit : Int64)
    (totalMemory : UInt64) :
    ∃ resolved, automaticMaxThreads numThreads perThreadLimit totalMemory = some resolved ∧
      resolved.toNat = exactLimit numThreads .auto perThreadLimit totalMemory := by
  have top : cIntMax = 2 ^ 31 - 1 ∧ UInt64.size = 2 ^ 64 := ⟨rfl,rfl⟩
  simp only [automaticMaxThreads,exactLimit]
  split
  next =>
    have two : (2 : UInt64).toNat = 2 := rfl
    refine ⟨_,rfl,?_⟩
    rw [saturatingMul_toNat,two]
    omega
  next limited =>
    have positive := Int64.not_le.mp fun negative => limited (.inl negative)
    have exact : perThreadLimit.toUInt64.toNat = perThreadLimit.toInt.toNat :=
      Int64.toNat_toUInt64_of_le (Int64.le_of_lt positive)
    have above : 0 < perThreadLimit.toInt := Int64.lt_iff_toInt_lt.mp positive
    have divisor : perThreadLimit.toUInt64 ≠ 0 := by
      intro zero
      rw [zero] at exact
      have nothing : (0 : UInt64).toNat = 0 := rfl
      omega
    refine ⟨_,if_neg divisor,?_⟩
    rw [UInt64.toNat_div,exact]

theorem finalizeMaxThreads_exact {numThreads : UInt64} (few : numThreads.toNat ≤ cIntMax) (maxThreads : MaxThreads)
    (perThreadLimit : Int64) (totalMemory : UInt64) :
    ∃ main, (PhpMainThread.new numThreads maxThreads).finalizeMaxThreads perThreadLimit totalMemory = some main ∧
      main.maxThreads.toNat = max (exactLimit numThreads maxThreads perThreadLimit totalMemory) numThreads.toNat := by
  cases maxThreads with
  | fixed count => exact ⟨_,rfl,UInt64.toNat_max _ _⟩
  | auto =>
    obtain ⟨resolved,automatic,exact⟩ := automaticMaxThreads_exact few perThreadLimit totalMemory
    refine ⟨⟨numThreads,.auto,max resolved numThreads⟩,?_,exact ▸ UInt64.toNat_max _ _⟩
    simp [PhpMainThread.finalizeMaxThreads,PhpMainThread.new,resolveMaxThreads,automatic]

theorem asCInt_toInt {count : UInt64} (small : count.toNat ≤ cIntMax) : (asCInt count).toInt = count.toNat := by
  have top : cIntMax = 2 ^ 31 - 1 := rfl
  have narrow : count.toUInt32.toBitVec.toNat = count.toNat := by
    rw [UInt32.toNat_toBitVec,UInt64.toNat_toUInt32,Nat.mod_eq_of_lt (by omega)]
  have bits : (asCInt count).toInt = count.toUInt32.toBitVec.toInt := rfl
  rw [bits,BitVec.toInt_eq_toNat_of_lt (by omega),narrow]

theorem initThreadMetrics_asCInt {count : UInt64} (small : count.toNat ≤ cIntMax) :
    initThreadMetrics (asCInt count) = count.toNat := by
  have told := asCInt_toInt small
  have positive : 0 ≤ asCInt count := by
    rw [Int32.le_iff_toInt_le,told]
    exact Int.natCast_nonneg _
  rw [initThreadMetrics,if_pos positive,told]
  rfl

section Accepted
variable {numThreads : UInt64} {maxThreads : MaxThreads} (accepted : invalidThreadCount numThreads maxThreads = false)
include accepted

theorem accepted_counts : numThreads.toNat ≤ cIntMax ∧
    ∀ count, maxThreads = .fixed count → 1 ≤ count.toNat ∧ count.toNat ≤ cIntMax := by
  simp only [invalidThreadCount,Bool.or_eq_false_iff,decide_eq_false_iff_not,not_lt,gt_iff_lt] at accepted
  refine ⟨accepted.2,?_⟩
  rintro count rfl
  have counted := accepted.1
  simp only [Bool.or_eq_false_iff,decide_eq_false_iff_not,not_lt] at counted
  have positive : count.toNat ≠ 0 := fun zero => counted.1 (UInt64.toNat_inj.mp zero)
  omega

variable (perThreadLimit : Int64) (totalMemory : UInt64)

theorem inRange_iff : InRange numThreads maxThreads perThreadLimit totalMemory ↔
    max 1 numThreads.toNat ≤ max (exactLimit numThreads maxThreads perThreadLimit totalMemory) numThreads.toNat ∧
      max (exactLimit numThreads maxThreads perThreadLimit totalMemory) numThreads.toNat ≤ cIntMax := by
  obtain ⟨few,counted⟩ := accepted_counts accepted
  cases maxThreads with
  | fixed count =>
    have range := counted count rfl
    simp only [InRange,exactLimit,true_iff]
    omega
  | auto =>
    simp only [InRange,exactLimit]
    split
    next => omega
    next limited =>
      have positive := Int64.not_le.mp fun negative => limited (.inl negative)
      have above : 0 < perThreadLimit.toInt := Int64.lt_iff_toInt_lt.mp positive
      have some : 1 ≤ totalMemory.toNat / perThreadLimit.toInt.toNat ↔
          perThreadLimit.toInt.toNat ≤ totalMemory.toNat := Nat.div_pos_iff.trans (and_iff_right (by omega))
      omega

/-- A fixed limit is always in range, an automatic one where the quotient, or twice the number
of threads, is; and a limit in range covers the slots. -/
theorem threadLimits_covered :
    (∃ installed, initPhpThreads numThreads maxThreads perThreadLimit totalMemory = .ok (some installed) ∧
      installed.Covered numThreads maxThreads perThreadLimit totalMemory) ↔
      InRange numThreads maxThreads perThreadLimit totalMemory := by
  obtain ⟨few,_⟩ := accepted_counts accepted
  obtain ⟨main,final,exact⟩ := finalizeMaxThreads_exact few maxThreads perThreadLimit totalMemory
  rw [inRange_iff accepted,← exact]
  constructor
  · rintro ⟨installed,returned,covered⟩
    simp only [initPhpThreads,accepted,final,Bool.false_eq_true,if_false,Option.bind_eq_bind,Option.bind_some,
      Option.pure_def,Except.ok.injEq,Option.bind_eq_some_iff,Option.some.injEq] at returned
    obtain ⟨_,_,rfl⟩ := returned
    exact ⟨covered.atLeast,covered.atMost⟩
  · rintro ⟨atLeast,atMost⟩
    have top : cIntMax = 2 ^ 31 - 1 := rfl
    have fits : withCapacity main.maxThreads = some () := if_pos (by omega)
    refine ⟨⟨main,asCInt numThreads,asCInt main.maxThreads,initThreadMetrics (asCInt main.maxThreads),
      0 :: List.range' 1 (main.maxThreads.toNat - 1)⟩,?_,exact,atLeast,atMost,⟨asCInt_toInt atMost,asCInt_toInt few⟩,?_⟩
    · simp [initPhpThreads,accepted,final,fits]
    · intro threadIndex member
      simp only [List.mem_cons,List.mem_range'_1] at member
      simp only [initThreadMetrics_asCInt atMost]
      omega

end Accepted

theorem initPhpThreads_accepts (numThreads count : UInt64) :
    invalidThreadCount numThreads (.fixed count) = !Pool.accepts numThreads.toNat count.toNat := by
  have zero : count = 0 ↔ count.toNat = 0 := UInt64.toNat_inj.symm
  simp only [invalidThreadCount,Pool.accepts,zero,Bool.not_and]
  grind

/-- An unlimited interpreter and no thread, for which there is no cell; and a small limit, whose
quotient C sees as nothing at all. -/
theorem threadLimits_uncovered :
    initPhpThreads 0 .auto (-1) 0 = .ok (some ⟨⟨0,.auto,0⟩,0,0,0,[0]⟩) ∧
    resolveMaxThreads 1 .auto 4 0x1000000000 = some 0x400000000 ∧ initThreadMetrics (asCInt 0x400000000) = 0 := by
  decide +kernel

theorem threadLimits_fallback :
    (∃ installed, initPhpThreads 4 .auto (-1) 0x1000000000 = .ok (some installed) ∧
      installed.Covered 4 .auto (-1) 0x1000000000) ↔ InRange 4 .auto (-1) 0x1000000000 :=
  threadLimits_covered (by decide) (-1) 0x1000000000

end Frankenrust.Thread
