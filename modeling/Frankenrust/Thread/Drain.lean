import Mathlib.Data.List.Basic

/-! The drain channel of `thread.rs`. A generation owns the only sender of its channel,
so the channel is disconnected once that sender is dropped; channels are numbered in the
order of their creation, since the generation tag wraps. -/
namespace Frankenrust.Thread

structure DrainGeneration where
  generation : UInt64
  sender : Option Nat
  receiver : Nat
  deriving DecidableEq

structure ClosedDrainGeneration where
  generation : UInt64
  deriving DecidableEq

/-- The storage with the channels around it: how many were created, which of them have
lost their sender, and which `close` has closed. -/
structure DrainChannel where
  current : DrainGeneration
  created : Nat
  disconnected : List Nat
  closed : List Nat
  deriving DecidableEq

namespace DrainChannel

def new : DrainChannel := ⟨⟨0,some 0,0⟩,1,[],[]⟩

def receiver (drain : DrainChannel) : Nat := drain.current.receiver

def close (drain : DrainChannel) : Option ClosedDrainGeneration × DrainChannel :=
  match drain.current.sender with
  | none => (none,drain)
  | some sender => (some ⟨drain.current.generation⟩,
      { drain with
        current := { drain.current with sender := none }
        disconnected := sender :: drain.disconnected
        closed := drain.current.receiver :: drain.closed })

def replace (drain : DrainChannel) (generation : UInt64) : DrainChannel :=
  { drain with
    current := ⟨generation,some drain.created,drain.created⟩
    created := drain.created + 1
    disconnected := drain.current.sender.toList ++ drain.disconnected }

def reopen (drain : DrainChannel) (closed : ClosedDrainGeneration) : DrainChannel :=
  if drain.current.generation = closed.generation ∧ drain.current.sender = none then
    drain.replace (closed.generation + 1)
  else drain

/-- The channels that are disconnected are the closed ones, and the current one among
them exactly when it has lost its sender. -/
structure Sound (drain : DrainChannel) : Prop where
  exact : drain.disconnected = drain.closed
  fresh : drain.receiver < drain.created
  old : ∀ channel ∈ drain.closed, channel < drain.created
  held : ∀ sender, drain.current.sender = some sender → sender = drain.receiver ∧ sender ∉ drain.closed
  lost : drain.current.sender = none → drain.receiver ∈ drain.closed

theorem sound_new : Sound new :=
  ⟨rfl,by decide,fun _ member => by contradiction,fun sender holds => by cases holds; exact ⟨rfl,by decide⟩,
    fun none => by contradiction⟩

theorem close_open {drain : DrainChannel} {sender : Nat} (holds : drain.current.sender = some sender) :
    drain.close.1 = some ⟨drain.current.generation⟩ := by
  simp [close,holds]

theorem sound_close {drain : DrainChannel} (sound : Sound drain) : Sound drain.close.2 := by
  unfold close
  split
  · exact sound
  next sender holds =>
    obtain ⟨same,absent⟩ := sound.held sender holds
    have current : drain.current.receiver = sender := same.symm
    refine ⟨?_,sound.fresh,?_,fun _ none => by contradiction,fun _ => ?_⟩
    · simp [current,sound.exact]
    · intro channel member
      rcases List.mem_cons.mp member with rfl | older
      · exact sound.fresh
      · exact sound.old channel older
    · simp [receiver]

theorem sound_reopen {drain : DrainChannel} (sound : Sound drain) (closed : ClosedDrainGeneration) :
    Sound (drain.reopen closed) := by
  unfold reopen replace
  split
  next gone =>
    refine ⟨by simp [gone.2,sound.exact],by simp [receiver],fun channel member => ?_,?_,
      fun none => by contradiction⟩
    · exact Nat.lt_succ_of_lt (sound.old channel member)
    · intro sender holds
      cases holds
      exact ⟨rfl,fun member => absurd (sound.old _ member) (Nat.lt_irrefl _)⟩
  next => exact sound

end DrainChannel
end Frankenrust.Thread
