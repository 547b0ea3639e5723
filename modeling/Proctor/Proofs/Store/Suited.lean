import Proctor.Proofs.Question.Answering
import Proctor.Proofs.Store.Filed
import Proctor.Proofs.Store.Quiet

/-!
# Answers of the kinds of their slots

A slot is tagged with the kind of its question, and an answer is of the kind of the question that accepted it. The tables do not
look at either, so they keep the two together (`Suited.handle`) as long as whoever stores an answer does so.
-/

set_option autoImplicit false

namespace Proctor

/-- An answer that is stored by the access is of the kind of its slot. -/
def Access.Suits (t : Tables) : Access → Prop
  | .record a => ∀ {slot}, t.slots.get? a.slot = some slot → a.value.kind = slot.kind
  | _ => True

namespace Tables

/-- Every answer is of the kind of its slot. -/
def Suited (t : Tables) : Prop :=
  ∀ {k a slot}, t.answers.get? k = some a → t.slots.get? k = some slot → a.value.kind = slot.kind

theorem suited_empty : Suited ∅ := fun given _ => by cases given

namespace Suited

variable {t u : Tables}

theorem of_quiet (suited : t.Suited) (quiet : t.Quiet u) : u.Suited := by
  intro k a slot given held
  rw [quiet.answer held] at given
  exact suited given (quiet.slot held)

/-- New slots have no answers. -/
theorem opened (suited : t.Suited) (filed : t.Filed) (terms : Terms) (drawn : List Drawn) : (t.opened terms drawn).Suited := by
  intro k a slot given held
  obtain ⟨listed, rfl⟩ | held := filed.get?_slots_opened.1 held
  · cases (filed.get?_answers_of_mem_slotsFor listed).symm.trans given
  · exact suited given held

theorem answered (suited : t.Suited) {k : Int} (a? : Option Answer) {answers : Table Int Answer}
    (suits : ∀ a ∈ a?, ∀ {slot}, t.slots.get? k = some slot → a.value.kind = slot.kind)
    (written : ∀ j, answers.get? j = if j = k then a? else t.answers.get? j) : Suited { t with answers := answers } := by
  intro j a slot given held
  have given : answers.get? j = some a := given
  rw [written] at given
  split at given
  · rename_i here
    exact suits a given (here ▸ held)
  · exact suited given held

/-- **Accesses keep answers of the kinds of their slots.** -/
theorem handle {w : World} {q : Access} (suited : w.tables.Suited) (filed : w.tables.Filed) (suits : q.Suits w.tables) :
    (w.handle q).2.tables.Suited := by
  by_cases quiet : q.Quiet
  · exact suited.of_quiet (quiet_handle quiet w)
  cases q with
  | create terms drawn =>
    obtain ⟨_, eq⟩ | ⟨-, eq⟩ := w.tables.create_cases terms drawn
    all_goals simp only [World.handle, eq]
    · exact suited
    · exact suited.opened filed terms drawn
  | record a =>
    obtain eq | ⟨-, eq⟩ := w.tables.record_cases a
    all_goals simp only [World.handle, eq]
    · exact suited
    · refine suited.answered (some a) ?_ fun j => Table.get?_insert _ _ _ _
      rintro _ ⟨⟩
      exact suits
  | clear k now =>
    obtain eq | ⟨-, eq⟩ | ⟨-, eq⟩ := w.tables.clear_cases k now
    all_goals simp only [World.handle, eq]
    · exact suited
    · exact suited
    · exact suited.answered none (by simp) fun j => Table.get?_erase _ _ _
  | _ => exact absurd trivial quiet

end Suited

end Tables

end Proctor
