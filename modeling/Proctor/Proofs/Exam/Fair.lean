import Proctor.Exam.Operation
import Proctor.Proofs.Store.History

/-!
# What a caller has seen

What a caller has seen may be out of date when it acts. But the deadline of a session never changes,
a slot stays what it is, and what is gone does not come back. So an access that relies on what was
seen is still fair: a session is timed out only after its deadline (`Recalls.fair_markTimedOut`),
and opened only with terms and questions that fit together (`opening_of_draw`).
-/

set_option autoImplicit false

namespace Proctor

/-- The session was stored like this at some time before. -/
def Tables.Recalls (t : Tables) (s : Session) : Prop :=
  ∃ earlier : Tables, earlier.Valid ∧ earlier.find? s.id = some s ∧ earlier.Evolves t

/-- The slot was there at some time before. -/
def Tables.RecallsSlot (t : Tables) (slot : Slot) : Prop :=
  ∃ earlier : Tables, earlier.Valid ∧ earlier.slots.get? slot.id = some slot ∧ earlier.Follows t

namespace Tables

variable {t u : Tables} {s s' : Session} {slot held : Slot}

theorem Recalls.later (h : t.Recalls s) (tu : t.Evolves u) : u.Recalls s := by
  obtain ⟨earlier, valid, stored, evolves⟩ := h
  exact ⟨earlier, valid, stored, evolves.trans valid.consistent tu⟩

theorem recalls_of_stored (valid : t.Valid) {id : Int} (stored : t.find? id = some s) : t.Recalls s := by
  rw [← valid.consistent.session_id stored] at stored
  exact ⟨t, valid, stored, .refl t⟩

/-- A session that is still stored has the terms it had when it was seen. -/
theorem Recalls.terms (h : t.Recalls s) (stored : t.find? s.id = some s') : s'.toTerms = s.toTerms := by
  obtain ⟨earlier, -, stored', evolves⟩ := h
  exact (evolves.terms stored' stored).1

/-- A session that was seen after its end is stored like this. -/
theorem Recalls.stored (h : t.Recalls s) (finished : s.status ≠ .ongoing) : t.find? s.id = some s := by
  obtain ⟨earlier, -, stored, evolves⟩ := h
  exact evolves.ended stored finished

/-- A session that was seen past its deadline may be timed out, as it now stands. -/
theorem Recalls.fair_markTimedOut (h : t.Recalls s) {now : Instant} (expired : s.isExpired now) :
    (Access.markTimedOut s.id now).Fair t := by
  intro s' stored _
  rw [show s'.deadline = s.deadline from congrArg Terms.deadline (h.terms stored)]
  exact (Session.isExpired_iff.1 expired).2

theorem RecallsSlot.later (h : t.RecallsSlot slot) (tu : t.Follows u) : u.RecallsSlot slot := by
  obtain ⟨earlier, valid, held, follows⟩ := h
  exact ⟨earlier, valid, held, follows.trans valid tu⟩

/-- A slot that is still there is the one that was seen. -/
theorem RecallsSlot.eq (h : t.RecallsSlot slot) (at_slot : t.slots.get? slot.id = some held) : held = slot := by
  obtain ⟨earlier, valid, before, follows⟩ := h
  have same := follows.slot (valid.consistent.slot_le before) at_slot
  exact Option.some.inj (same.symm.trans before)

end Tables

namespace World

variable {w v : World}

theorem eq_ok_of_mapError {ε ε' α : Type} {f : ε → ε'} {r : Except ε α} {a : α} (h : r.mapError f = .ok a) : r = .ok a := by
  cases r <;> cases h
  rfl

theorem create_of_handle {terms : Terms} {drawn : List Drawn} {s : Session}
    (h : w.handle (.create terms drawn) = (.ok s, v)) : w.tables.create terms drawn = (.ok s, v.tables) :=
  Prod.ext (eq_ok_of_mapError (congrArg Prod.fst h)) (congrArg (·.2.tables) h)

theorem markTimedOut_of_handle {id : Int} {now : Instant} {s : Session}
    (h : w.handle (.markTimedOut id now) = (.ok s, v)) : w.tables.markTimedOut id now = (.ok s, v.tables) :=
  Prod.ext (eq_ok_of_mapError (congrArg Prod.fst h)) (congrArg (·.2.tables) h)

end World

namespace Exam

theorem mem_selection {t : Tables} {f : Filter} {s : Session} (listed : s ∈ t.selection f) : ∃ id, t.find? id = some s := by
  rw [Tables.selection, mem_sortBy, List.mem_filter, Table.mem_values] at listed
  exact listed.1

theorem faults_eq_nil_iff {r : Request} : r.faults = [] ↔ (1 ≤ r.minutes ∧ r.minutes ≤ 480) ∧ 1 ≤ r.count := by
  unfold Request.faults
  split <;> split <;> simp_all

/-- The terms and the drawn questions of a request within its bounds fit together. -/
theorem opening_of_draw {user : Uuid} {r : Request} {chance : Chance} {pool : List PoolEntry} {drawn : List Drawn}
    {used : Nat} (sound : r.faults = []) (fits : r.count ≤ Text.Width.signed32.greatest)
    (eq : Draw.draw pool r.count.toNat chance.words = .ok (drawn, used)) (now : Instant) :
    Opening ⟨chance.token, user, r.scope, now, r.minutes, now.deadline r.minutes⟩ drawn := by
  obtain ⟨⟨minutes_pos, minutes_le⟩, count_pos⟩ := faults_eq_nil_iff.1 sound
  obtain ⟨-, length, proper⟩ := Draw.draw_eq_ok eq
  exact { minutes_pos, minutes_le, deadline_eq := rfl, questions := proper, nonempty := by omega, length_le := by omega }

namespace Operation

/-- The numbers of an operation have the widths of the places that they are sent in. -/
def fits : Operation → Bool
  | .create _ r _ => Text.Width.signed64.holds r.scope.subject && Text.Width.signed64.holds r.scope.level &&
    r.scope.topic.all Text.Width.signed64.holds && Text.Width.signed32.holds r.minutes && Text.Width.signed32.holds r.count
  | .submit _ sequence _ => Text.Width.signed32.holds sequence
  | .clear _ sequence => Text.Width.signed32.holds sequence
  | .list f => Text.Width.signed64.holds f.page && Text.Width.signed64.holds f.perPage
  | _ => true

end Operation

end Exam

end Proctor
