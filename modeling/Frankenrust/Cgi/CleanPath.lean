import Frankenrust.Bytes
import Frankenrust.Library.Segments
import Mathlib.Data.List.TakeWhile

/-! Lexical path cleaning, `clean_path` of `cgi.rs`.
The loop keeps its three locals; the proofs relate them to the resolved stack
of `Segments`, whose rendering the output buffer always is. -/
namespace Frankenrust.Cgi
open Segments

/-- The locals of the loop: the next byte to read, the output written so far, and
the length of the prefix which a `..` may not remove. -/
structure Cleaner where
  read : Nat
  output : Bytes
  dotdot : Nat

/-- `i == path.len() || path[i] == b'/'`. -/
def atBoundary (path : Bytes) (i : Nat) : Option Bool :=
  if i = path.length then some true else return (← path[i]?) == slash

/-- `path[read] == b'.' && (read + 1 == path.len() || path[read + 1] == b'/')`. -/
def atCurrent (path : Bytes) (read : Nat) : Option Bool := do
  if (← path[read]?) == dot then atBoundary path (read + 1) else return false

def atParent (path : Bytes) (read : Nat) : Option Bool := do
  if (← path[read]?) == dot then
    if read + 1 < path.length then
      if (← path[read + 1]?) == dot then atBoundary path (read + 2) else return false
    else return false
  else return false

/-- `while write > dotdot && output[write] != b'/' { write -= 1; }`. -/
def scanBack (output : Bytes) (dotdot : Nat) : Nat → Option Nat
  | 0 => some 0
  | write + 1 =>
    if write + 1 > dotdot then do
      if (← output[write + 1]?) != slash then scanBack output dotdot write else return write + 1
    else some (write + 1)

/-- The copying loop of one element; the first argument bounds its iterations. -/
def copyElement (path : Bytes) : Nat → Nat → Bytes → Option (Nat × Bytes)
  | 0, read, output => if read < path.length then none else some (read,output)
  | fuel + 1, read, output =>
    if read < path.length then do
      let byte ← path[read]?
      if byte != slash then copyElement path fuel (read + 1) (output ++ [byte])
      else return (read,output)
    else some (read,output)

def cleanStep (path : Bytes) (rooted : Bool) (state : Cleaner) : Option Cleaner := do
  if (← path[state.read]?) == slash then
    return { state with read := state.read + 1 }
  else if ← atCurrent path state.read then
    return { state with read := state.read + 1 }
  else if ← atParent path state.read then
    if state.output.length > state.dotdot then
      match state.output.length with
      | 0 => none
      | last + 1 =>
        let write ← scanBack state.output state.dotdot last
        return { state with read := state.read + 2, output := state.output.take write }
    else if !rooted then
      let output := (if state.output ≠ [] then state.output ++ [slash] else state.output) ++ [dot,dot]
      return ⟨state.read + 2,output,output.length⟩
    else return { state with read := state.read + 2 }
  else
    let output := if (rooted && state.output.length != 1) || (!rooted && state.output != [])
      then state.output ++ [slash] else state.output
    let (read,output) ← copyElement path path.length state.read output
    return ⟨read,output,state.dotdot⟩

def cleanLoop (path : Bytes) (rooted : Bool) : Nat → Cleaner → Option Bytes
  | 0, state => if state.read < path.length then none else some state.output
  | fuel + 1, state =>
    if state.read < path.length then do cleanLoop path rooted fuel (← cleanStep path rooted state)
    else some state.output

/-- `clean_path`: `none` where an index is out of bounds or the loop does not end
within one iteration for each byte. -/
def cleanPath (path : Bytes) : Option Bytes :=
  if path = [] then some [dot]
  else do
    let rooted := path.head? == some slash
    let output ← cleanLoop path rooted path.length
      ⟨rooted.toNat,if rooted then [slash] else [],rooted.toNat⟩
    return if output = [] then [dot] else output

def boundary : Bytes → Bool
  | [] => true
  | byte :: _ => byte == slash

theorem drop_succ {path rest : Bytes} {read : Nat} {byte : UInt8}
    (at_read : path.drop read = byte :: rest) : path.drop (read + 1) = rest := by
  rw [← List.drop_drop,at_read]
  rfl

theorem getElem?_drop {path rest : Bytes} {read : Nat} {byte : UInt8}
    (at_read : path.drop read = byte :: rest) : path[read]? = some byte := by
  have first : (path.drop read)[0]? = some byte := by simp [at_read]
  simpa using first

theorem lt_of_drop {path rest : Bytes} {read : Nat} {byte : UInt8}
    (at_read : path.drop read = byte :: rest) : read < path.length := by
  have size := congrArg List.length at_read
  simp only [List.length_drop,List.length_cons] at size
  omega

theorem atBoundary_eq {path rest : Bytes} {i : Nat} (inside : i ≤ path.length)
    (at_i : path.drop i = rest) : atBoundary path i = some (boundary rest) := by
  cases rest with
  | nil =>
    have size : i = path.length := by
      have short := List.drop_eq_nil_iff.mp at_i
      omega
    simp [atBoundary,size,boundary]
  | cons byte rest =>
    have different : i ≠ path.length := Nat.ne_of_lt (lt_of_drop at_i)
    simp [atBoundary,different,getElem?_drop at_i,boundary]

theorem atCurrent_eq {path rest : Bytes} {read : Nat} {byte : UInt8}
    (at_read : path.drop read = byte :: rest) :
    atCurrent path read = some (byte == dot && boundary rest) := by
  have next := atBoundary_eq (lt_of_drop at_read) (drop_succ at_read)
  by_cases same : byte = dot
  · simp [atCurrent,getElem?_drop at_read,same,next]
  · simp [atCurrent,getElem?_drop at_read,same]

def parentAt : Bytes → Bool
  | first :: second :: rest => first == dot && second == dot && boundary rest
  | _ => false

theorem atParent_eq {path rest : Bytes} {read : Nat} {byte : UInt8}
    (at_read : path.drop read = byte :: rest) :
    atParent path read = some (parentAt (byte :: rest)) := by
  by_cases same : byte = dot
  · have next := drop_succ at_read
    cases rest with
    | nil =>
      have short := List.drop_eq_nil_iff.mp next
      simp [atParent,getElem?_drop at_read,same,parentAt,Nat.not_lt.mpr short]
    | cons second rest =>
      have last := atBoundary_eq (lt_of_drop next) (drop_succ next)
      simp only [atParent,getElem?_drop at_read,getElem?_drop next,lt_of_drop next,same,
        bind,Option.bind,beq_self_eq_true,if_true,parentAt,Bool.true_and]
      by_cases twice : second = dot
      · simpa [twice] using last
      · simp [twice]
  · cases rest <;> simp [atParent,getElem?_drop at_read,same,parentAt]

theorem copyElement_eq (path : Bytes) (fuel read : Nat) (output rest : Bytes)
    (inside : read ≤ path.length) (at_read : path.drop read = rest) (enough : rest.length ≤ fuel) :
    copyElement path fuel read output =
      some (read + (rest.takeWhile (· != slash)).length,output ++ rest.takeWhile (· != slash)) := by
  induction fuel generalizing read output rest with
  | zero =>
    have empty := List.length_eq_zero_iff.mp (Nat.le_zero.mp enough)
    subst empty
    have short := List.drop_eq_nil_iff.mp at_read
    simp [copyElement,Nat.not_lt.mpr short]
  | succ fuel ih =>
    cases rest with
    | nil =>
      have short := List.drop_eq_nil_iff.mp at_read
      simp [copyElement,Nat.not_lt.mpr short]
    | cons byte rest =>
      have bound := lt_of_drop at_read
      simp only [copyElement,bound,if_true,getElem?_drop at_read,bind,Option.bind]
      by_cases stop : byte = slash
      · simp [stop]
      · have later := ih (read + 1) (output ++ [byte]) rest bound (drop_succ at_read)
          (by simpa using enough)
        simp [stop,later]
        omega

theorem scanBack_eq (front element : Bytes) (separator : Bytes) (dotdot : Nat)
    (plain : slash ∉ element) (some_element : element ≠ [])
    (start : separator = [slash] ∧ dotdot ≤ front.length ∨ separator = [] ∧ dotdot = front.length) :
    ∃ last, (front ++ separator ++ element).length = last + 1 ∧
      scanBack (front ++ separator ++ element) dotdot last = some front.length := by
  have size := List.length_pos_iff.mpr some_element
  refine ⟨(front ++ separator ++ element).length - 1,by simp; omega,?_⟩
  have short : separator.length ≤ 1 := by rcases start with ⟨rfl,_⟩ | ⟨rfl,_⟩ <;> simp
  have scan : ∀ write, front.length + separator.length ≤ write + 1 → front.length ≤ write →
      write < (front ++ separator ++ element).length →
      scanBack (front ++ separator ++ element) dotdot write = some front.length := by
    intro write low lower high
    induction write with
    | zero =>
      have zero : front.length = 0 := by omega
      simp [scanBack,zero]
    | succ write ih =>
      by_cases stop : write + 1 = front.length
      · rcases start with ⟨rfl,below⟩ | ⟨rfl,same⟩
        · simp [scanBack,stop]
        · simp [scanBack,← stop,same]
      · have above : write + 1 > dotdot := by
          rcases start with ⟨_,below⟩ | ⟨_,same⟩ <;> omega
        have byte : ∃ b, (front ++ separator ++ element)[write + 1]? = some b ∧ b ≠ slash := by
          have place : (front ++ separator ++ element)[write + 1]? =
              element[write + 1 - (front ++ separator).length]? := by
            apply List.getElem?_append_right
            rcases start with ⟨rfl,_⟩ | ⟨rfl,_⟩ <;> simp at low ⊢ <;> omega
          have inside : write + 1 - (front ++ separator).length < element.length := by
            simp only [List.length_append] at high ⊢
            omega
          refine ⟨element[write + 1 - (front ++ separator).length],?_,?_⟩
          · rw [place,List.getElem?_eq_getElem inside]
          · exact fun same => plain (same ▸ List.getElem_mem inside)
        obtain ⟨b,read,different⟩ := byte
        have rest := ih (by omega) (by omega) (by omega)
        simp only [scanBack,above,if_true,read]
        simpa [different] using rest
  exact scan _ (by simp; omega) (by simp; omega) (by simp; omega)

/-- What the loop keeps: the output is the rendering of the resolved stack and
`dotdot` is the length of the part of it that climbs. -/
structure Holds (rooted : Bool) (stack : List Bytes) (state : Cleaner) : Prop where
  output : state.output = render slash rooted stack
  split : ∃ climbs descent, stack = List.replicate climbs [dot,dot] ++ descent ∧
    [dot,dot] ∉ descent ∧ (rooted = true → climbs = 0) ∧
    state.dotdot = (render slash rooted (List.replicate climbs [dot,dot])).length
  good : ∀ piece ∈ stack, piece ≠ [] ∧ piece ≠ [dot] ∧ slash ∉ piece

theorem started (rooted : Bool) (stack : List Bytes) (good : ∀ piece ∈ stack, piece ≠ []) :
    ((rooted && (render slash rooted stack).length != 1) ||
      (!rooted && render slash rooted stack != [])) = decide (stack ≠ []) := by
  have grows := length_render_append slash rooted [] stack good
  rw [List.nil_append] at grows
  by_cases empty : stack = []
  · subst empty
    cases rooted <;> simp
  · have size := List.length_pos_iff.mpr empty
    cases rooted with
    | true =>
      simp only [render_nil,if_true,List.length_singleton] at grows
      have different : (render slash true stack).length ≠ 1 := by omega
      simp [different,empty]
    | false =>
      have different : render slash false stack ≠ [] := List.length_pos_iff.mp (by omega)
      simp [different,empty]

theorem render_push (stack : List Bytes) (piece : Bytes) (good : ∀ piece ∈ stack, piece ≠ []) :
    (if render slash false stack ≠ [] then render slash false stack ++ [slash]
      else render slash false stack) ++ piece = render slash false (stack ++ [piece]) := by
  have first := started false stack good
  simp only [Bool.false_and,Bool.not_false,Bool.true_and,Bool.false_or] at first
  rw [render_snoc]
  by_cases empty : stack = []
  · simp [empty]
  · have filled : render slash false stack ≠ [] := by simpa [empty] using first
    rw [if_pos filled,if_neg empty]

theorem resolveStep_climb (climbs : Nat) :
    resolveStep [dot,dot] false (List.replicate climbs [dot,dot]) [dot,dot] =
      List.replicate climbs [dot,dot] ++ [[dot,dot]] := by
  cases climbs with
  | zero => simp [resolveStep]
  | succ climbs => simp [resolveStep,List.replicate_succ']

theorem cleanStep_parent {path rest : Bytes} {rooted : Bool} {state : Cleaner}
    (at_read : path.drop state.read = dot :: dot :: rest) (ends : boundary rest = true) :
    cleanStep path rooted state =
      if state.output.length > state.dotdot then
        (scanBack state.output state.dotdot (state.output.length - 1)).map fun write =>
          { state with read := state.read + 2, output := state.output.take write }
      else if !rooted then
        let output := (if state.output ≠ [] then state.output ++ [slash] else state.output) ++ [dot,dot]
        some ⟨state.read + 2,output,output.length⟩
      else some { state with read := state.read + 2 } := by
  have here : atCurrent path state.read = some false := by
    rw [atCurrent_eq at_read]
    rfl
  have parent : atParent path state.read = some true := by
    rw [atParent_eq at_read]
    simpa [parentAt] using ends
  simp only [cleanStep,getElem?_drop at_read,here,parent,bind,Option.bind,
    show (dot == slash) = false by decide,Bool.false_eq_true,if_false,if_true]
  split
  next longer =>
    obtain ⟨last,size⟩ := Nat.exists_eq_add_of_lt (Nat.zero_lt_of_lt longer)
    rw [Nat.zero_add] at size
    rw [size,Nat.add_sub_cancel]
    dsimp only
    cases scanBack state.output state.dotdot last <;> rfl
  next => rfl

/-- Nothing but climbs is written: a rooted path stays, another one climbs once more. -/
theorem step_climb {path rest : Bytes} {rooted : Bool} {climbs : Nat} {state : Cleaner}
    (output : state.output = render slash rooted (List.replicate climbs [dot,dot]))
    (watermark : state.dotdot = (render slash rooted (List.replicate climbs [dot,dot])).length)
    (top : rooted = true → climbs = 0)
    (at_read : path.drop state.read = dot :: dot :: rest) (ends : boundary rest = true) :
    ∃ next, cleanStep path rooted state = some next ∧ next.read = state.read + 2 ∧
      Holds rooted (resolveStep [dot,dot] rooted (List.replicate climbs [dot,dot]) [dot,dot]) next := by
  have size : ¬state.output.length > state.dotdot := by
    rw [output,watermark]
    exact Nat.lt_irrefl _
  rw [cleanStep_parent at_read ends,if_neg size]
  cases rooted with
  | true =>
    have zero := top rfl
    subst zero
    exact ⟨_,rfl,rfl,by simpa [resolveStep] using output,⟨0,[],by simp [resolveStep],by simp,by simp,
      watermark⟩,by simp [resolveStep]⟩
  | false =>
    have parents : ∀ piece ∈ List.replicate (climbs + 1) [dot,dot], piece = [dot,dot] := by
      intro piece member
      exact List.eq_of_mem_replicate member
    have nonempty : ∀ piece ∈ List.replicate climbs [dot,dot], piece ≠ [] := by
      intro piece member
      rw [List.eq_of_mem_replicate member]
      exact List.cons_ne_nil _ _
    have written := render_push (List.replicate climbs [dot,dot]) [dot,dot] nonempty
    rw [← output,← List.replicate_succ'] at written
    rw [resolveStep_climb,← List.replicate_succ']
    refine ⟨_,rfl,rfl,written,⟨climbs + 1,[],?_,by simp,by simp,?_⟩,?_⟩
    · rw [List.append_nil]
    · exact congrArg List.length written
    · intro piece member
      rw [parents piece member]
      decide

theorem resolveStep_remove (rooted : Bool) (front : List Bytes) {last : Bytes} (named : last ≠ [dot,dot]) :
    resolveStep [dot,dot] rooted (front ++ [last]) [dot,dot] = front := by
  simp [resolveStep,named]

/-- Below the climbs the last element is removed from the buffer, its separator with it. -/
theorem step_remove {path rest last : Bytes} {rooted : Bool} {climbs : Nat} {front : List Bytes}
    {state : Cleaner} (output : state.output =
      render slash rooted (List.replicate climbs [dot,dot] ++ front ++ [last]))
    (watermark : state.dotdot = (render slash rooted (List.replicate climbs [dot,dot])).length)
    (element : last ≠ []) (plain : slash ∉ last) (nonempty : ∀ piece ∈ front, piece ≠ [])
    (at_read : path.drop state.read = dot :: dot :: rest) (ends : boundary rest = true) :
    cleanStep path rooted state = some { state with
      read := state.read + 2
      output := render slash rooted (List.replicate climbs [dot,dot] ++ front) } := by
  have below := length_render_append slash rooted (List.replicate climbs [dot,dot]) front nonempty
  rw [render_snoc] at output
  -- the separator is missing exactly where the element stands first
  have start : (if List.replicate climbs [dot,dot] ++ front = [] then [] else [slash]) = [slash] ∧
      state.dotdot ≤ (render slash rooted (List.replicate climbs [dot,dot] ++ front)).length ∨
    (if List.replicate climbs [dot,dot] ++ front = [] then [] else [slash]) = [] ∧
      state.dotdot = (render slash rooted (List.replicate climbs [dot,dot] ++ front)).length := by
    by_cases empty : List.replicate climbs [dot,dot] ++ front = []
    · refine .inr ⟨if_pos empty,?_⟩
      rw [watermark,empty,(List.append_eq_nil_iff.mp empty).1]
    · exact .inl ⟨if_neg empty,by omega⟩
  obtain ⟨bound,size,scanned⟩ := scanBack_eq _ last _ _ plain element start
  have longer : state.output.length > state.dotdot := by
    have filled := List.length_pos_iff.mpr element
    rw [output]
    simp only [List.length_append]
    omega
  rw [cleanStep_parent at_read ends,if_pos longer]
  simp only [output,size,Nat.add_sub_cancel,scanned,Option.map_some]
  rw [List.append_assoc,List.take_left]

theorem step_parent {path rest : Bytes} {rooted : Bool} {stack : List Bytes} {state : Cleaner}
    (holds : Holds rooted stack state) (at_read : path.drop state.read = dot :: dot :: rest)
    (ends : boundary rest = true) :
    ∃ next, cleanStep path rooted state = some next ∧ next.read = state.read + 2 ∧
      Holds rooted (resolveStep [dot,dot] rooted stack [dot,dot]) next := by
  obtain ⟨climbs,descent,rfl,descends,top,watermark⟩ := holds.split
  rcases List.eq_nil_or_concat' descent with rfl | ⟨front,last,rfl⟩
  · have output := holds.output
    rw [List.append_nil] at output ⊢
    exact step_climb output watermark top at_read ends
  · have good := holds.good
    have output := holds.output
    rw [← List.append_assoc] at good output ⊢
    have different : last ≠ [dot,dot] := by
      intro same
      exact descends (by simp [same])
    have pieces := good last (by simp)
    have nonempty : ∀ piece ∈ front, piece ≠ [] := by
      intro piece member
      exact (good piece (by simp [member])).1
    rw [resolveStep_remove rooted _ different]
    refine ⟨_,step_remove output watermark pieces.1 pieces.2.2 nonempty at_read ends,rfl,rfl,
      ⟨climbs,front,rfl,?_,top,watermark⟩,?_⟩
    · intro member
      exact descends (List.mem_append_left _ member)
    · intro piece member
      exact good piece (List.mem_append_left _ member)

theorem element_named {path rest : Bytes} {read : Nat} {byte : UInt8}
    (at_read : path.drop read = byte :: rest) (here : atCurrent path read = some false)
    (parent : atParent path read = some false) :
    (byte :: rest).takeWhile (· != slash) ≠ [dot] ∧
      (byte :: rest).takeWhile (· != slash) ≠ [dot,dot] := by
  rw [atCurrent_eq at_read] at here
  rw [atParent_eq at_read] at parent
  simp only [Option.some.injEq] at here parent
  constructor
  · intro single
    rw [List.takeWhile_cons] at single
    split at single
    next =>
      simp only [List.cons.injEq] at single
      obtain ⟨rfl,none⟩ := single
      cases rest with
      | nil => simp [boundary] at here
      | cons next rest =>
        have stop : next = slash := by simpa using none
        simp [boundary,stop] at here
    next => simp at single
  · intro double
    rw [List.takeWhile_cons] at double
    split at double
    next =>
      simp only [List.cons.injEq] at double
      obtain ⟨rfl,single⟩ := double
      cases rest with
      | nil => simp at single
      | cons next rest =>
        rw [List.takeWhile_cons] at single
        split at single
        next =>
          simp only [List.cons.injEq] at single
          obtain ⟨rfl,none⟩ := single
          cases rest with
          | nil => simp [parentAt,boundary] at parent
          | cons last rest =>
            have stop : last = slash := by simpa [List.takeWhile_cons] using none
            simp [parentAt,boundary,stop] at parent
        next => simp at single
    next => simp at double

theorem step_element {path rest : Bytes} {rooted : Bool} {stack : List Bytes} {state : Cleaner}
    {byte : UInt8} (holds : Holds rooted stack state) (at_read : path.drop state.read = byte :: rest)
    (inside : byte ≠ slash) (here : atCurrent path state.read = some false)
    (parent : atParent path state.read = some false) :
    ∃ next, cleanStep path rooted state = some next ∧
      next.read = state.read + ((byte :: rest).takeWhile (· != slash)).length ∧
      Holds rooted (stack ++ [(byte :: rest).takeWhile (· != slash)]) next := by
  have grows := started rooted stack fun piece member => (holds.good piece member).1
  have copied := copyElement_eq path path.length state.read
    (if stack ≠ [] then state.output ++ [slash] else state.output) (byte :: rest)
    (Nat.le_of_lt (lt_of_drop at_read)) at_read
    (by rw [← at_read,List.length_drop]; omega)
  have different : (byte == slash) = false := beq_eq_false_iff_ne.mpr inside
  simp only [cleanStep,getElem?_drop at_read,here,parent,bind,Option.bind,different,
    Bool.false_eq_true,if_false,holds.output,grows,decide_eq_true_eq] at copied ⊢
  rw [copied]
  obtain ⟨climbs,descent,same,descends,top,watermark⟩ := holds.split
  have element : (byte :: rest).takeWhile (· != slash) ≠ [] := by simp [inside]
  have plain : slash ∉ (byte :: rest).takeWhile (· != slash) := by
    intro member
    simpa using List.mem_takeWhile_imp member
  have named := element_named at_read here parent
  refine ⟨_,rfl,rfl,?_,⟨climbs,descent ++ [(byte :: rest).takeWhile (· != slash)],?_,?_,top,watermark⟩,?_⟩
  · rw [render_snoc]
    by_cases empty : stack = [] <;> simp [empty]
  · simp [same]
  · intro member
    rcases List.mem_append.mp member with old | new
    · exact descends old
    · exact named.2 (List.mem_singleton.mp new).symm
  · intro piece member
    rcases List.mem_append.mp member with old | new
    · exact holds.good piece old
    · rw [List.mem_singleton.mp new]
      exact ⟨element,named.1,plain⟩

theorem boundary_ends {rest : Bytes} (ends : boundary rest = true) :
    rest = [] ∨ ∃ tail, rest = slash :: tail := by
  cases rest with
  | nil => exact .inl rfl
  | cons byte tail =>
    have stop : byte = slash := by simpa [boundary] using ends
    exact .inr ⟨tail,by rw [stop]⟩

theorem dropWhile_ends (bytes : Bytes) : bytes.dropWhile (· != slash) = [] ∨
    ∃ tail, bytes.dropWhile (· != slash) = slash :: tail := by
  induction bytes with
  | nil => simp
  | cons byte bytes ih =>
    by_cases stop : byte = slash
    · exact .inr ⟨bytes,by simp [stop]⟩
    · simpa [List.dropWhile_cons,stop] using ih

/-- One iteration consumes some of the remaining bytes and resolves the components
among them onto the stack. -/
theorem cleanStep_holds {path : Bytes} {rooted : Bool} {stack : List Bytes} {state : Cleaner}
    (holds : Holds rooted stack state) (more : state.read < path.length) :
    ∃ next pieces, cleanStep path rooted state = some next ∧
      state.read < next.read ∧ next.read ≤ path.length ∧
      components slash [dot] (path.drop state.read) =
        pieces ++ components slash [dot] (path.drop next.read) ∧
      Holds rooted (pieces.foldl (resolveStep [dot,dot] rooted) stack) next := by
  obtain ⟨byte,rest,at_read⟩ := List.exists_cons_of_ne_nil
    (mt List.drop_eq_nil_iff.mp (Nat.not_le.mpr more))
  have after := drop_succ at_read
  by_cases separator : byte = slash
  · subst separator
    refine ⟨{ state with read := state.read + 1 },[],?_,Nat.lt_succ_self _,more,?_,?_⟩
    · simp [cleanStep,getElem?_drop at_read]
    · simp [at_read,after]
    · exact ⟨holds.output,holds.split,holds.good⟩
  have different : (byte == slash) = false := beq_eq_false_iff_ne.mpr separator
  cases current : byte == dot && boundary rest with
  | true =>
    have here := (atCurrent_eq at_read).trans (congrArg some current)
    obtain ⟨isDot,ends⟩ := Bool.and_eq_true_iff.mp current
    rw [beq_iff_eq] at isDot
    subst isDot
    refine ⟨{ state with read := state.read + 1 },[],?_,Nat.lt_succ_self _,more,?_,?_⟩
    · simp only [cleanStep,getElem?_drop at_read,here,bind,Option.bind,different,
        Bool.false_eq_true,if_false,if_true]
      rfl
    · rw [at_read,after]
      exact components_first [dot] rest (by decide) (boundary_ends ends)
    · exact ⟨holds.output,holds.split,holds.good⟩
  | false =>
    have here := (atCurrent_eq at_read).trans (congrArg some current)
    cases climbs : parentAt (byte :: rest) with
    | true =>
      obtain ⟨tail,rfl,rfl,ends⟩ : ∃ tail, byte = dot ∧ rest = dot :: tail ∧ boundary tail = true := by
        cases rest with
        | nil => simp [parentAt] at climbs
        | cons second tail =>
          simp only [parentAt,Bool.and_eq_true,beq_iff_eq] at climbs
          exact ⟨tail,climbs.1.1,by rw [climbs.1.2],climbs.2⟩
      obtain ⟨next,stepped,read,kept⟩ := step_parent holds at_read ends
      have later := drop_succ after
      refine ⟨next,[[dot,dot]],stepped,by omega,by have := lt_of_drop after; omega,?_,kept⟩
      rw [at_read,read,later]
      exact components_first [dot,dot] tail (by decide) (boundary_ends ends)
    | false =>
      have parent := (atParent_eq at_read).trans (congrArg some climbs)
      obtain ⟨next,stepped,read,kept⟩ := step_element holds at_read separator here parent
      have named := element_named at_read here parent
      have nonempty : (byte :: rest).takeWhile (· != slash) ≠ [] := by simp [separator]
      have plain : slash ∉ (byte :: rest).takeWhile (· != slash) := by
        intro member
        simpa using List.mem_takeWhile_imp member
      have size := List.length_pos_iff.mpr nonempty
      have whole := List.takeWhile_append_dropWhile (p := (· != slash)) (l := byte :: rest)
      have consumed : path.drop next.read = (byte :: rest).dropWhile (· != slash) := by
        rw [read,← List.drop_drop,at_read]
        have dropped := congrArg (List.drop ((byte :: rest).takeWhile (· != slash)).length) whole
        rw [List.drop_left] at dropped
        exact dropped.symm
      refine ⟨next,[(byte :: rest).takeWhile (· != slash)],stepped,by omega,?_,?_,?_⟩
      · have fits := congrArg List.length whole
        have total := congrArg List.length at_read
        simp only [List.length_append,List.length_drop] at fits total
        omega
      · rw [consumed,at_read]
        conv_lhs => rw [← whole]
        rw [components_first _ _ plain (dropWhile_ends _),if_pos ⟨nonempty,named.1⟩]
      · simpa [resolveStep_plain _ _ named.2] using kept

theorem cleanLoop_eq (path : Bytes) (rooted : Bool) (fuel : Nat) (state : Cleaner)
    (stack : List Bytes) (holds : Holds rooted stack state) (enough : path.length - state.read ≤ fuel) :
    cleanLoop path rooted fuel state = some (render slash rooted
      ((components slash [dot] (path.drop state.read)).foldl (resolveStep [dot,dot] rooted) stack)) := by
  induction fuel generalizing state stack with
  | zero =>
    have done : ¬state.read < path.length := by omega
    simp [cleanLoop,done,List.drop_eq_nil_of_le (Nat.not_lt.mp done),holds.output]
  | succ fuel ih =>
    by_cases more : state.read < path.length
    · obtain ⟨next,pieces,stepped,forward,inside,split,kept⟩ := cleanStep_holds holds more
      simp only [cleanLoop,more,if_true,stepped,bind,Option.bind]
      rw [ih next _ kept (by omega),split,List.foldl_append]
    · simp [cleanLoop,more,List.drop_eq_nil_of_le (Nat.not_lt.mp more),holds.output]

def absolute (path : Bytes) : Bool := path.head? == some slash

def pathComponents (path : Bytes) : List Bytes := components slash [dot] path

/-- The lexical meaning of a path: its components after resolving every `..`. -/
def lexical (path : Bytes) : List Bytes := resolve [dot,dot] (absolute path) (pathComponents path)

/-- The loop computes the stack resolution of the path, without panicking. -/
theorem cleanPath_eq (path : Bytes) : cleanPath path = some
    (if render slash (absolute path) (lexical path) = [] then [dot]
      else render slash (absolute path) (lexical path)) := by
  by_cases empty : path = []
  · subst empty
    decide
  · have start : Holds (absolute path) [] ⟨(absolute path).toNat,if absolute path then [slash] else [],
        (absolute path).toNat⟩ := by
      refine ⟨by simp,⟨0,[],by simp,by simp,by simp,?_⟩,by simp⟩
      cases absolute path <;> simp
    have looped := cleanLoop_eq path (absolute path) path.length _ [] start (by omega)
    have skipped : components slash [dot] (path.drop (absolute path).toNat) = pathComponents path := by
      cases root : absolute path with
      | false => rfl
      | true =>
        obtain ⟨byte,rest,rfl⟩ := List.exists_cons_of_ne_nil empty
        have same : byte = slash := by simpa [absolute] using root
        subst same
        exact (components_sep rest).symm
    simp only [cleanPath,empty,if_false,bind,Option.bind]
    rw [show (path.head? == some slash) = absolute path from rfl,looped,skipped]
    rfl

theorem lexical_good {path piece : Bytes} (member : piece ∈ lexical path) :
    piece ≠ [] ∧ piece ≠ [dot] ∧ slash ∉ piece := by
  rcases mem_resolve _ _ _ member with none | found
  · simp at none
  · exact ⟨(mem_components found).1,(mem_components found).2,components_plain found⟩

theorem pathComponents_render (rooted : Bool) (stack : List Bytes)
    (good : ∀ piece ∈ stack, piece ≠ [] ∧ piece ≠ [dot] ∧ slash ∉ piece) :
    pathComponents (render slash rooted stack) = stack := components_render stack good

theorem absolute_render (rooted : Bool) (stack : List Bytes)
    (good : ∀ piece ∈ stack, piece ≠ [] ∧ piece ≠ [dot] ∧ slash ∉ piece) :
    absolute (render slash rooted stack) = rooted := by
  cases rooted with
  | true => simp [absolute,render]
  | false =>
    cases stack with
    | nil => simp [absolute,render]
    | cons first rest =>
      obtain ⟨byte,tail,rfl⟩ := List.exists_cons_of_ne_nil (good first (by simp)).1
      have plain := (good _ (List.mem_cons_self)).2.2
      have different : byte ≠ slash := fun same => plain (by simp [same])
      cases rest <;> simp [absolute,render,different]

theorem cleanPath_lexical {path cleaned : Bytes} (ok : cleanPath path = some cleaned) :
    pathComponents cleaned = lexical path ∧ absolute cleaned = absolute path := by
  rw [cleanPath_eq,Option.some.injEq] at ok
  split at ok
  next empty =>
    -- only a relative path that resolves to nothing renders to nothing
    have stack := pathComponents_render (absolute path) (lexical path) fun _ => lexical_good
    have root := absolute_render (absolute path) (lexical path) fun _ => lexical_good
    rw [empty] at stack root
    rw [← ok,← stack,← root]
    decide
  next =>
    rw [← ok]
    exact ⟨pathComponents_render _ _ fun _ => lexical_good,absolute_render _ _ fun _ => lexical_good⟩

/-- The path that a stack resolution leaves; an empty one is `.`. -/
def reference (path : Bytes) : Bytes :=
  let resolved := render slash (absolute path) (lexical path)
  if resolved = [] then [dot] else resolved

/-- Cleaning neither panics nor loops, gives the stack resolution, and changes it no more. -/
theorem cleanPath_reference (path : Bytes) :
    cleanPath path = some (reference path) ∧ cleanPath (reference path) = some (reference path) := by
  have cleaned : cleanPath path = some (reference path) := cleanPath_eq path
  obtain ⟨pieces,rooted⟩ := cleanPath_lexical cleaned
  have resolved : lexical (reference path) = lexical path := by
    rw [lexical,rooted,pieces]
    exact resolve_self (lexical path) (resolve_resolved (pathComponents path))
  have again : reference (reference path) = reference path := by
    rw [reference,resolved,rooted]
    rfl
  refine ⟨cleaned,?_⟩
  rw [cleanPath_eq (reference path)]
  exact congrArg some again

/-- A cleaned path is the canonical rendering of its components; one without any
that is not rooted is `.`. -/
theorem cleanPath_render {path cleaned : Bytes} (ok : cleanPath path = some cleaned) :
    cleaned = render slash (absolute cleaned) (pathComponents cleaned) ∨
      cleaned = [dot] ∧ absolute cleaned = false ∧ pathComponents cleaned = [] := by
  obtain ⟨same,rooted⟩ := cleanPath_lexical ok
  rw [cleanPath_eq,Option.some.injEq] at ok
  split at ok
  next =>
    rw [← ok]
    exact .inr (by decide)
  next =>
    rw [same,rooted]
    exact .inl ok.symm

theorem mem_cleanPath {path cleaned : Bytes} {byte : UInt8} (ok : cleanPath path = some cleaned)
    (member : byte ∈ cleaned) : byte ∈ path ∨ byte = slash ∨ byte = dot := by
  rw [cleanPath_eq,Option.some.injEq] at ok
  split at ok
  next =>
    rw [← ok] at member
    exact .inr (.inr (by simpa using member))
  next =>
    rw [← ok] at member
    rcases mem_render member with same | ⟨piece,inside,found⟩
    · exact .inr (.inl same)
    · rcases mem_resolve _ _ _ inside with none | component
      · simp at none
      · exact .inl (mem_component component found)

theorem cleanPath_ne_nil {path cleaned : Bytes} (ok : cleanPath path = some cleaned) : cleaned ≠ [] := by
  rw [cleanPath_eq,Option.some.injEq] at ok
  split at ok
  next => simp [← ok]
  next filled => rwa [← ok]

end Frankenrust.Cgi
