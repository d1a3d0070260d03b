import Mathlib.Data.List.Basic

/-! Histories in which something is taken and given back: an event opens a tenure, and a
later one that answers to it closes it. -/
namespace Tenure
variable {E : Type} {opens : E → Prop} {closes : E → E → Prop}

/-- The event has happened and nothing has answered to it since. -/
def Standing (closes : E → E → Prop) (events : List E) (first : E) : Prop :=
  ∃ before after, events = before ++ first :: after ∧ ∀ later ∈ after, ¬closes first later

/-- No two tenures overlap: before the next one is opened, the first has been closed. -/
def Orderly (opens : E → Prop) (closes : E → E → Prop) (events : List E) : Prop :=
  ∀ before first middle second after, events = before ++ first :: (middle ++ second :: after) →
    opens first → opens second → ∃ event ∈ middle, closes first event

theorem orderly_nil : Orderly opens closes [] := by
  intro before first middle second after same
  simp at same

theorem standing_nil {first : E} : ¬Standing closes [] first := by
  rintro ⟨before,after,same,_⟩
  simp at same

/-- An event of a longer history is the newest one, or it was there before. -/
theorem split_snoc {α : Type} {events before after : List α} {event first : α} (same : events ++ [event] = before ++ first :: after) :
    after = [] ∧ events = before ∧ event = first ∨ ∃ earlier, after = earlier ++ [event] ∧ events = before ++ first :: earlier := by
  rcases List.eq_nil_or_concat after with rfl | ⟨earlier,last,rfl⟩
  · obtain ⟨rfl,last⟩ := List.append_inj' same rfl
    exact .inl ⟨rfl,rfl,List.singleton_inj.mp last⟩
  · have split : events ++ [event] = (before ++ first :: earlier) ++ [last] := by simp [same]
    obtain ⟨rfl,rfl⟩ : events = before ++ first :: earlier ∧ event = last := by simpa using List.append_inj' split rfl
    exact .inr ⟨earlier,by simp,rfl⟩

theorem standing_snoc {events : List E} {event first : E} (standing : Standing closes (events ++ [event]) first) :
    event = first ∨ Standing closes events first ∧ ¬closes first event := by
  obtain ⟨before,after,same,kept⟩ := standing
  rcases split_snoc same with ⟨_,_,newest⟩ | ⟨earlier,rfl,rfl⟩
  · exact .inl newest
  · exact .inr ⟨⟨before,earlier,rfl,fun later member => kept later (by simp [member])⟩,kept event (by simp)⟩

theorem standing_now (events : List E) (event : E) : Standing closes (events ++ [event]) event := ⟨events,[],rfl,by simp⟩

theorem standing_longer {events : List E} {event first : E} (standing : Standing closes events first) (other : ¬closes first event) :
    Standing closes (events ++ [event]) first := by
  obtain ⟨before,after,rfl,kept⟩ := standing
  refine ⟨before,after ++ [event],by simp,?_⟩
  intro later member
  rcases List.mem_append.mp member with member | newest
  · exact kept later member
  · exact List.mem_singleton.mp newest ▸ other

theorem orderly_snoc {events : List E} {event : E} (orderly : Orderly opens closes events)
    (closed : opens event → ∀ first, opens first → ¬Standing closes events first) :
    Orderly opens closes (events ++ [event]) := by
  intro before first middle second after same opened again
  have split : events ++ [event] = (before ++ first :: middle) ++ second :: after := by simp [same]
  rcases split_snoc split with ⟨_,rfl,rfl⟩ | ⟨earlier,rfl,rfl⟩
  · -- the tenure that is opened now is the second one
    by_contra none
    exact closed again first opened ⟨before,middle,rfl,fun later member closes => none ⟨later,member,closes⟩⟩
  · exact orderly before first middle second earlier (by simp) opened again

end Tenure
