import Frankenrust.Callbacks.Input
import Mathlib.Algebra.BigOperators.Group.List.Basic
import Mathlib.Tactic.Common

/-! Bodies read in any pieces: a script calls `go_read_post` with buffers of any sizes, and the
source answers each read in pieces of its own. -/
namespace Frankenrust.Callbacks
open Context

variable {σ : Type}

/-- A source that reports what it has written, and that has nothing more once it has ended or
failed. The body is what comes before that. -/
inductive Honest : Source → Bytes → Prop
  | ended {source : Source} (nothing : ∀ read ∈ source, read = .chunk [] ∨ read = .failed ∨ read = .interrupted) :
    Honest source []
  | chunk {bytes body : Bytes} {source : Source} (filled : bytes ≠ []) (later : Honest source body) :
    Honest (.chunk bytes :: source) (bytes ++ body)
  | interrupted {body : Bytes} {source : Source} (later : Honest source body) : Honest (.interrupted :: source) body

/-- The requests of a script in turn, with the bytes that it receives. -/
def readPosts : List Nat → Slot σ → Bytes × Slot σ
  | [], slot => ([],slot)
  | size :: sizes, slot =>
    let ((_,bytes),slot) := goReadPost size slot
    let (more,slot) := readPosts sizes slot
    (bytes ++ more,slot)

def Serves (slot : Slot σ) (body : Bytes) : Prop :=
  ∃ ctx request source, slot.ctx = some ctx ∧ ctx.responseSink = true ∧ ctx.request = some request ∧
    request.body.source = some source ∧ Honest source body

section Loop
variable {fuel size filled : Nat} {source : Source} {delivered : Bytes}

theorem fillLoop_full (full : size ≤ filled) : fillLoop fuel source size filled delivered = (filled,delivered,source) := by
  cases fuel with
  | zero => rfl
  | succ fuel => rw [fillLoop,if_neg (Nat.not_lt.mpr full)]

theorem fillLoop_count (fits : filled ≤ size) : (fillLoop fuel source size filled delivered).1 ≤ size := by
  induction fuel generalizing source filled delivered with
  | zero => exact fits
  | succ fuel ih =>
    rw [fillLoop]
    split
    · split
      · exact fits
      · exact ih (by omega)
      · exact ih fits
      · exact fits
    · exact fits

theorem fillLoop_chunk {bytes : Bytes} (filling : bytes ≠ []) (fits : bytes.length ≤ size - filled) :
    fillLoop (fuel + 1) (.chunk bytes :: source) size filled delivered =
      fillLoop fuel source size (filled + bytes.length) (delivered ++ bytes) := by
  have positive := List.length_pos_iff.mpr filling
  rw [fillLoop,if_pos (by omega),Source.read,if_pos fits]
  cases bytes with
  | nil => contradiction
  | cons byte bytes =>
    simp only [List.length_cons] at fits ⊢
    rw [Nat.min_eq_left fits]

theorem fillLoop_larger {bytes : Bytes} (room : filled < size) (larger : ¬bytes.length ≤ size - filled) :
    fillLoop (fuel + 1) (.chunk bytes :: source) size filled delivered =
      (size,delivered ++ bytes.take (size - filled),.chunk (bytes.drop (size - filled)) :: source) := by
  obtain ⟨rest,left⟩ : ∃ rest, size - filled = rest + 1 := ⟨size - filled - 1,by omega⟩
  have whole : filled + min (rest + 1) (rest + 1) = size := by omega
  rw [fillLoop,if_pos room,Source.read,if_neg larger,left]
  simp only [whole]
  exact fillLoop_full (Nat.le_refl _)

theorem fillLoop_overcount {bytes : Bytes} {extra : Nat} (room : filled < size) :
    fillLoop (fuel + 1) (.overcount bytes extra :: source) size filled delivered =
      (size,delivered ++ bytes.take (size - filled),source) := by
  have whole : filled + min (size - filled + extra + 1) (size - filled) = size := by omega
  have over_count : size - filled + 1 + extra = size - filled + extra + 1 := by omega
  rw [fillLoop,if_pos room,Source.read,over_count]
  simp only [whole]
  exact fillLoop_full (Nat.le_refl _)

theorem fillLoop_interrupted (room : filled < size) :
    fillLoop (fuel + 1) (.interrupted :: source) size filled delivered = fillLoop fuel source size filled delivered := by
  rw [fillLoop,if_pos room]
  rfl

/-- A read without data ends the loop, unless it was interrupted. -/
theorem fillLoop_stops {read : Read} (stops : read = .chunk [] ∨ read = .failed) (room : filled < size) :
    fillLoop (fuel + 1) (read :: source) size filled delivered = (filled,delivered,source) := by
  rw [fillLoop,if_pos room]
  rcases stops with rfl | rfl
  · rw [Source.read,List.length_nil,if_pos (Nat.zero_le _)]
  · rfl

/-- The rounds that `fill` is given suffice for every source. -/
theorem fillLoop_enough {more : Nat} (enough : source.length < fuel) (also : source.length < more) :
    fillLoop fuel source size filled delivered = fillLoop more source size filled delivered := by
  by_cases room : filled < size
  swap
  · rw [fillLoop_full (not_lt.mp room),fillLoop_full (not_lt.mp room)]
  induction source generalizing fuel more filled delivered with
  | nil =>
    obtain ⟨fuel,rfl⟩ := Nat.exists_eq_succ_of_ne_zero enough.ne'
    obtain ⟨more,rfl⟩ := Nat.exists_eq_succ_of_ne_zero also.ne'
    rfl
  | cons read source ih =>
    obtain ⟨fuel,rfl⟩ := Nat.exists_eq_succ_of_ne_zero (Nat.ne_zero_of_lt enough)
    obtain ⟨more,rfl⟩ := Nat.exists_eq_succ_of_ne_zero (Nat.ne_zero_of_lt also)
    have enough : source.length < fuel := Nat.lt_of_succ_lt_succ enough
    have also : source.length < more := Nat.lt_of_succ_lt_succ also
    have later {filled : Nat} {delivered : Bytes} :
        fillLoop fuel source size filled delivered = fillLoop more source size filled delivered := by
      by_cases room : filled < size
      · exact ih enough also room
      · rw [fillLoop_full (not_lt.mp room),fillLoop_full (not_lt.mp room)]
    cases read with
    | chunk bytes =>
      by_cases filling : bytes = []
      · subst filling
        rw [fillLoop_stops (.inl rfl) room,fillLoop_stops (.inl rfl) room]
      by_cases fits : bytes.length ≤ size - filled
      · rw [fillLoop_chunk filling fits,fillLoop_chunk filling fits,later]
      · rw [fillLoop_larger room fits,fillLoop_larger room fits]
    | interrupted => rw [fillLoop_interrupted room,fillLoop_interrupted room,later]
    | failed => rw [fillLoop_stops (.inr rfl) room,fillLoop_stops (.inr rfl) room]
    | overcount bytes extra => rw [fillLoop_overcount room,fillLoop_overcount room]

/-- The next part of the body, as long as the buffer, is delivered. -/
def Advances (size filled : Nat) (delivered body : Bytes) (result : Nat × Bytes × Source) : Prop :=
  ∃ left, result = (filled + min (size - filled) body.length,delivered ++ body.take (size - filled),left) ∧
    Honest left (body.drop (size - filled))

variable {body : Bytes}

theorem advances_full (full : size ≤ filled) (honest : Honest source body) :
    Advances size filled delivered body (fillLoop fuel source size filled delivered) := by
  have nothing := Nat.sub_eq_zero_of_le full
  refine ⟨source,?_,?_⟩
  · rw [fillLoop_full full,nothing]
    simp
  · rwa [nothing,List.drop_zero]

theorem advances_ended (nothing : ∀ read ∈ source, read = .chunk [] ∨ read = .failed ∨ read = .interrupted)
    (enough : source.length < fuel) : Advances size filled delivered [] (fillLoop fuel source size filled delivered) := by
  by_cases room : filled < size
  swap
  · exact advances_full (not_lt.mp room) (.ended nothing)
  induction source generalizing fuel with
  | nil =>
    obtain ⟨fuel,rfl⟩ := Nat.exists_eq_succ_of_ne_zero (Nat.ne_zero_of_lt enough)
    refine ⟨[],?_,?_⟩
    · rw [fillLoop,if_pos room]
      simp [Source.read]
    · simpa using Honest.ended nothing
  | cons read source ih =>
    obtain ⟨fuel,rfl⟩ := Nat.exists_eq_succ_of_ne_zero (Nat.ne_zero_of_lt enough)
    have later := fun other member => nothing other (List.mem_cons_of_mem read member)
    have left : Honest source (List.drop (size - filled) []) := by simpa using Honest.ended later
    rcases nothing read List.mem_cons_self with rfl | rfl | rfl
    · rw [fillLoop_stops (.inl rfl) room]
      exact ⟨source,by simp,left⟩
    · rw [fillLoop_stops (.inr rfl) room]
      exact ⟨source,by simp,left⟩
    · rw [fillLoop_interrupted room]
      exact ih later (Nat.lt_of_succ_lt_succ enough)

theorem fillLoop_honest (honest : Honest source body) (enough : source.length < fuel) :
    Advances size filled delivered body (fillLoop fuel source size filled delivered) := by
  induction honest generalizing fuel filled delivered with
  | ended nothing => exact advances_ended nothing enough
  | @chunk bytes body source filling later ih =>
    by_cases room : filled < size
    swap
    · exact advances_full (not_lt.mp room) (.chunk filling later)
    obtain ⟨fuel,rfl⟩ := Nat.exists_eq_succ_of_ne_zero (Nat.ne_zero_of_lt enough)
    have enough : source.length < fuel := Nat.lt_of_succ_lt_succ enough
    by_cases fits : bytes.length ≤ size - filled
    · rw [fillLoop_chunk filling fits]
      obtain ⟨left,result,honest⟩ := @ih fuel (filled + bytes.length) (delivered ++ bytes) enough
      have rest : size - (filled + bytes.length) = size - filled - bytes.length := by omega
      rw [rest] at result honest
      refine ⟨left,?_,?_⟩
      · rw [result,List.length_append,List.take_append,List.take_of_length_le fits,List.append_assoc]
        congr 1
        omega
      · rwa [List.drop_append,List.drop_of_length_le fits,List.nil_append]
    · rw [fillLoop_larger room fits]
      refine ⟨.chunk (bytes.drop (size - filled)) :: source,?_,?_⟩
      · rw [List.length_append,List.take_append_of_le_length (by omega)]
        congr 1
        omega
      · rw [List.drop_append_of_le_length (by omega)]
        exact .chunk (by simpa using fits) later
  | @interrupted body source later ih =>
    by_cases room : filled < size
    swap
    · exact advances_full (not_lt.mp room) (.interrupted later)
    obtain ⟨fuel,rfl⟩ := Nat.exists_eq_succ_of_ne_zero (Nat.ne_zero_of_lt enough)
    rw [fillLoop_interrupted room]
    exact ih (Nat.lt_of_succ_lt_succ enough)

end Loop

theorem fill_count (body : RequestBody) (size : Nat) : (body.fill size).1 ≤ size := by
  unfold RequestBody.fill
  split
  · exact Nat.zero_le _
  · exact fillLoop_count (Nat.zero_le size)

theorem goReadPost_count (size : Nat) (slot : Slot σ) : (goReadPost size slot).1.1 ≤ size := by
  unfold goReadPost
  split
  · exact Nat.zero_le _
  split
  · exact Nat.zero_le _
  split
  · exact Nat.zero_le _
  split
  · exact Nat.zero_le _
  next request _ => exact fill_count request.body size

section Honest
variable {slot : Slot σ} {body : Bytes}

theorem goReadPost_honest (size : Nat) (serves : Serves slot body) :
    (goReadPost size slot).1 = ((body.take size).length,body.take size) ∧
      Serves (goReadPost size slot).2 (body.drop size) := by
  obtain ⟨ctx,request,source,context,sink,asked,reads,honest⟩ := id serves
  by_cases none : size = 0
  · subst none
    simpa [goReadPost] using serves
  obtain ⟨left,filled,honest⟩ : Advances size 0 [] body (fillLoop (source.length + 1) source size 0 []) :=
    fillLoop_honest honest (Nat.lt_succ_self _)
  simp only [Nat.sub_zero,Nat.zero_add,List.nil_append] at filled honest
  have filling : request.body.fill size = (min size body.length,body.take size,⟨some left⟩) := by
    simp [RequestBody.fill,reads,filled]
  have called : goReadPost size slot = ((min size body.length,body.take size),
      { slot with ctx := some { ctx with request := some { request with body := ⟨some left⟩ } } }) := by
    simp [goReadPost,none,context,sink,asked,filling]
  rw [called,List.length_take]
  exact ⟨rfl,_,_,left,rfl,sink,rfl,rfl,honest⟩

theorem readPosts_cons (size : Nat) (sizes : List Nat) : readPosts (size :: sizes) slot =
    ((goReadPost size slot).1.2 ++ (readPosts sizes (goReadPost size slot).2).1,
      (readPosts sizes (goReadPost size slot).2).2) := rfl

theorem readPosts_honest (sizes : List Nat) (serves : Serves slot body) :
    (readPosts sizes slot).1 = body.take sizes.sum ∧ Serves (readPosts sizes slot).2 (body.drop sizes.sum) := by
  induction sizes generalizing slot body with
  | nil => simpa [readPosts] using serves
  | cons size sizes ih =>
    obtain ⟨called,next⟩ := goReadPost_honest size serves
    obtain ⟨bytes,last⟩ := ih next
    rw [List.sum_cons,← List.drop_drop]
    rw [readPosts_cons]
    refine ⟨?_,last⟩
    rw [bytes,called,List.take_add]

end Honest

/-- Whatever a source does, a call reports no more than its buffer holds. What an honest source
delivers is the body up to the sum of the buffers, however the source and the script cut it, and
a call that comes up short has delivered the last of it. -/
theorem readPosts_chunking :
    (∀ (size : Nat) (slot : Slot σ), (goReadPost size slot).1.1 ≤ size) ∧
      (∀ (source : Source) (size fuel : Nat), source.length < fuel →
        fillLoop fuel source size 0 [] = fillLoop (source.length + 1) source size 0 []) ∧
      ∀ (slot other : Slot σ) (body : Bytes), Serves slot body → Serves other body →
        (∀ sizes, (readPosts sizes slot).1 <+: body ∧ (readPosts sizes slot).1 = body.take sizes.sum) ∧
        (∀ sizes size, (goReadPost size (readPosts sizes slot).2).1.1 < size →
          (readPosts (sizes ++ [size]) slot).1 = body) ∧
        ∀ sizes others, sizes.sum = others.sum → (readPosts sizes slot).1 = (readPosts others other).1 := by
  refine ⟨goReadPost_count,fun source size fuel enough => fillLoop_enough enough (Nat.lt_succ_self _),?_⟩
  intro slot other body serves also
  refine ⟨?_,?_,?_⟩
  · intro sizes
    obtain ⟨bytes,_⟩ := readPosts_honest sizes serves
    exact ⟨bytes ▸ List.take_prefix _ _,bytes⟩
  · intro sizes size short
    obtain ⟨_,next⟩ := readPosts_honest sizes serves
    obtain ⟨called,_⟩ := goReadPost_honest size next
    obtain ⟨bytes,_⟩ := readPosts_honest (sizes ++ [size]) serves
    rw [called,List.length_take,List.length_drop] at short
    rw [bytes,List.sum_append,List.sum_singleton,List.take_of_length_le (by omega)]
  · intro sizes others same
    rw [(readPosts_honest sizes serves).1,(readPosts_honest others also).1,same]

end Frankenrust.Callbacks
