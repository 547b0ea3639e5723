import Proctor.Proofs.Exam.Alone
import Proctor.Proofs.Exam.Agreement

/-!
# Answering at one instant

With nothing in between, an answer is either refused for the first of the reasons that there are for it (`World.Refused`), or it
becomes the answer of its slot, and nothing else changes. What is written to a slot (`World.Writes`) does not depend on any answers, so
it overwrites what was there, and goes together in either order with what is written to another slot.
-/

set_option autoImplicit false

namespace Proctor

namespace Tables

/-- The tables with this answer to a slot, or none. -/
def answering (t : Tables) (k : Int) (a? : Option Answer) : Tables := { t with answers := t.answers.assign k a? }

/-- The slot is the one with this number of the session with this token. -/
structure Numbers (t : Tables) (token : String) (sequence : Int) (s : Session) (slot : Slot) : Prop where
  stored : t.find? s.id = some s
  named : s.token = token
  held : t.slots.get? slot.id = some slot
  own : slot.session = s.id
  numbered : slot.sequence = sequence

variable {t : Tables} {token : String} {sequence : Int} {s : Session} {slot : Slot}

namespace Numbers

theorem slotAt? (h : t.Numbers token sequence s slot) (consistent : t.Consistent) : t.slotAt? s.id sequence = some slot :=
  (consistent.slotAt?_iff h.stored).2 ⟨consistent.mem_slotsOf_iff.2 ⟨h.held, h.own⟩, h.numbered⟩

theorem findByToken? (h : t.Numbers token sequence s slot) (consistent : t.Consistent) : t.findByToken? token = some s :=
  consistent.findByToken?_iff.2 ⟨h.stored, h.named⟩

theorem unique (h : t.Numbers token sequence s slot) (consistent : t.Consistent) {s' : Session} {slot' : Slot}
    (h' : t.Numbers token sequence s' slot') : s' = s ∧ slot' = slot := by
  obtain rfl := Option.some.inj ((h.findByToken? consistent).symm.trans (h'.findByToken? consistent))
  obtain rfl := Option.some.inj ((h.slotAt? consistent).symm.trans (h'.slotAt? consistent))
  exact ⟨rfl, rfl⟩

/-- Slots with other tokens or numbers are others. -/
theorem id_ne (h : t.Numbers token sequence s slot) {token' : String} {sequence' : Int} {s' : Session} {slot' : Slot}
    (h' : t.Numbers token' sequence' s' slot') (ne : (token, sequence) ≠ (token', sequence')) : slot'.id ≠ slot.id := by
  intro same
  obtain rfl := Option.some.inj (h'.held.symm.trans (same ▸ h.held))
  obtain rfl := Option.some.inj (h'.stored.symm.trans (h'.own ▸ h.own ▸ h.stored))
  exact ne (by rw [← h.named, ← h'.named, ← h.numbered, ← h'.numbered])

/-- Where the slot is still there, it is the same. -/
theorem later {u : Tables} (h : t.Numbers token sequence s slot) (valid : t.Valid) (follows : t.Follows u) {slot' : Slot}
    (held : u.slots.get? slot.id = some slot') : slot' = slot ∧ ∃ s', u.Numbers token sequence s' slot := by
  obtain rfl := Option.some.inj ((follows.slot (valid.consistent.slot_le h.held) held).symm.trans h.held)
  obtain ⟨s', stored⟩ := follows.valid.consistent.slot_session held
  have own := follows.valid.consistent.session_id stored
  have terms := (follows.evolves.terms (h.own ▸ h.stored) stored).1
  exact ⟨rfl, s', own ▸ stored, (congrArg Terms.token terms).trans h.named, held, own.symm, h.numbered⟩

/-- The number of a slot has the width of the place that it is sent in. -/
theorem holds (h : t.Numbers token sequence s slot) (valid : t.Valid) : Text.Width.signed32.holds sequence = true := by
  have listed : slot.sequence ∈ (t.slotsOf s.id).map (·.sequence) :=
    List.mem_map.2 ⟨slot, valid.consistent.mem_slotsOf_iff.2 ⟨h.held, h.own⟩, rfl⟩
  rw [valid.consistent.sequences h.stored, h.numbered] at listed
  obtain ⟨i, inside, rfl⟩ := List.mem_map.1 listed
  have lt := List.mem_range.1 inside
  have le : s.total ≤ 2147483647 := (valid.lawful h.stored).total_le
  have bounds : -2147483648 ≤ (i : Int) + 1 ∧ (i : Int) + 1 ≤ 2147483647 := by omega
  exact Bool.and_eq_true_iff.2 ⟨decide_eq_true bounds.1, decide_eq_true bounds.2⟩

end Numbers

end Tables

namespace World

/-- The world with this answer to a slot, or none. -/
def answering (w : World) (k : Int) (a? : Option Answer) : World := { w with tables := w.tables.answering k a? }

/-- The slot may be answered now. -/
structure OpenSlot (w : World) (token : String) (sequence : Int) (s : Session) (slot : Slot) : Prop
    extends w.tables.Numbers token sequence s slot where
  ongoing : s.status = .ongoing
  inTime : w.now ≤ s.deadline

/-- Why there is no such slot that may be answered now. -/
inductive NoSlot (w : World) (token : String) (sequence : Int) : Error → Prop where
  | unknown (nobody : ∀ id s, w.tables.find? id = some s → s.token ≠ token) : NoSlot w token sequence (.notFound .session)
  | late {s : Session} (stored : w.tables.find? s.id = some s) (named : s.token = token)
      (past : s.status = .timeout ∨ s.status = .ongoing ∧ s.deadline < w.now) :
      NoSlot w token sequence (.timeout (.since s.deadline))
  | completed {s : Session} (stored : w.tables.find? s.id = some s) (named : s.token = token) (done : s.status = .completed) :
      NoSlot w token sequence (.state (.closed .completed))
  | unnumbered {s : Session} (stored : w.tables.find? s.id = some s) (named : s.token = token) (ongoing : s.status = .ongoing)
      (inTime : w.now ≤ s.deadline)
      (nowhere : ∀ k slot, w.tables.slots.get? k = some slot → slot.session = s.id → slot.sequence ≠ sequence) :
      NoSlot w token sequence (.notFound (.sequence sequence))

/-- The slot may be answered now, and this is how its question reads the answer. -/
structure Accepts (w : World) (token : String) (sequence : Int) (payload : Json.Value) (s : Session) (slot : Slot) (q : Question)
    (value : AnswerValue) : Prop extends w.OpenSlot token sequence s slot where
  asked : w.catalog.get? slot.question = some q
  accepted : q.details.accept payload = .ok value

/-- Why an answer is refused: there is no such slot, or its question does not accept the answer. -/
inductive Refused (w : World) (token : String) (sequence : Int) (payload : Json.Value) : Error → Prop where
  | noSlot {e : Error} (no : w.NoSlot token sequence e) : Refused w token sequence payload e
  | unreadable {s : Session} {slot : Slot} {q : Question} {fault : InputFault} (opened : w.OpenSlot token sequence s slot)
      (asked : w.catalog.get? slot.question = some q) (unreadable : q.details.accept payload = .error fault) :
      Refused w token sequence payload (.input fault)

/-- What an operation writes to a slot that may be answered now, with what it gives. -/
inductive Writes (w : World) : (o : Exam.Operation) → o.Result → Int → Option Answer → Prop where
  | submit {token : String} {sequence : Int} {payload : Json.Value} {s : Session} {slot : Slot} {q : Question} {value : AnswerValue}
      (accepts : w.Accepts token sequence payload s slot q value) :
      Writes w (.submit token sequence payload) ⟨sequence, q.details.grades value, w.now⟩ slot.id
        (some ⟨slot.id, value, q.details.grades value, w.now⟩)
  | clear {token : String} {sequence : Int} {s : Session} {slot : Slot} (opened : w.OpenSlot token sequence s slot) :
      Writes w (.clear token sequence) () slot.id none

variable {w : World} {token : String} {sequence : Int} {s : Session} {slot : Slot}

theorem OpenSlot.isOpen (h : w.OpenSlot token sequence s slot) : s.isOpen w.now = true := Session.isOpen_iff.2 ⟨h.ongoing, h.inTime⟩

theorem OpenSlot.takesAnswer (h : w.OpenSlot token sequence s slot) : w.tables.takesAnswer slot.id w.now = true :=
  Tables.takesAnswer_iff.2 ⟨slot, s, h.held, h.own ▸ h.stored, h.ongoing, h.inTime⟩

end World

namespace Exam

open Call

variable {w : World} {token : String} {sequence : Int} {s : Session} {slot : Slot} {payload : Json.Value}

/-- A session that is not open has a reason for it. -/
theorem exists_noSlot (valid : w.tables.Valid) (stored : w.tables.find? s.id = some s) (named : s.token = token)
    (closed : s.isOpen w.now = false) : ∃ e, w.NoSlot token sequence e := by
  cases status : s.status with
  | ongoing =>
    have late : s.deadline < w.now := by
      by_contra inTime
      rw [Session.isOpen_iff.2 ⟨status, Instant.not_lt.1 inTime⟩] at closed
      cases closed
    exact ⟨_, .late stored named (.inr ⟨status, late⟩)⟩
  | timeout => exact ⟨_, .late stored named (.inl status)⟩
  | completed => exact ⟨_, .completed stored named status⟩
  | cancelled => exact absurd status (valid.lawful stored).not_cancelled

/-- There is a slot to be answered, or a reason why not. -/
theorem openSlot_cases (valid : w.tables.Valid) (token : String) (sequence : Int) :
    (∃ s slot, w.OpenSlot token sequence s slot) ∨ ∃ e, w.NoSlot token sequence e := by
  have consistent := valid.consistent
  cases found : w.tables.findByToken? token with
  | none =>
    refine .inr ⟨_, .unknown fun id s stored named => ?_⟩
    obtain rfl := consistent.session_id stored
    cases found.symm.trans (consistent.findByToken?_iff.2 ⟨stored, named⟩)
  | some s =>
    obtain ⟨stored, named⟩ := consistent.findByToken?_iff.1 found
    cases isOpen : s.isOpen w.now with
    | false => exact .inr (exists_noSlot valid stored named isOpen)
    | true =>
      obtain ⟨ongoing, inTime⟩ := Session.isOpen_iff.1 isOpen
      cases held : w.tables.slotAt? s.id sequence with
      | some slot =>
        obtain ⟨listed, numbered⟩ := (consistent.slotAt?_iff stored).1 held
        obtain ⟨there, own⟩ := consistent.mem_slotsOf_iff.1 listed
        exact .inl ⟨s, slot, ⟨stored, named, there, own, numbered⟩, ongoing, inTime⟩
      | none =>
        refine .inr ⟨_, .unnumbered stored named ongoing inTime fun k slot there own numbered => ?_⟩
        obtain rfl := consistent.slot_id there
        have listed := consistent.mem_slotsOf_iff.2 ⟨there, own⟩
        cases held.symm.trans ((consistent.slotAt?_iff stored).2 ⟨listed, numbered⟩)

/-- **Without a slot to be answered**, the session has been looked at in vain. -/
theorem run_openSlot_of_noSlot (valid : w.tables.Valid) {e : Error} (no : w.NoSlot token sequence e) :
    (openSlot token sequence).run World.handle w = (.error e, w.lookedAt token) := by
  have consistent := valid.consistent
  have refused {s : Session} {e : Error} (stored : w.tables.find? s.id = some s) (named : s.token = token)
      (fault : closedFault? (s.asOf w.now) = some e) :
      (openSlot token sequence).run World.handle w = (.error e, w.lookedAt token) := by
    have looked := run_look valid (consistent.findByToken?_iff.2 ⟨stored, named⟩)
    simp only [openSlot, run_bind, looked, ensureOngoing, fault, Call.ofExcept, run]
  cases no with
  | unknown nobody =>
    have absent : w.tables.findByToken? token = none := by
      refine Option.eq_none_iff_forall_ne_some.2 fun s found => ?_
      obtain ⟨stored, named⟩ := consistent.findByToken?_iff.1 found
      exact nobody _ _ stored named
    rw [openSlot, run_bind, run_look_of_none absent, World.lookedAt, Tables.lookedAt_of_none absent]
  | @late s stored named past =>
    refine refused stored named ?_
    rcases past with timeout | ⟨ongoing, late⟩
    · rw [Session.asOf_of_not_isExpired (Session.isExpired_of_finished (by simp [timeout]) w.now), closedFault?, timeout]
    · rw [Session.asOf_of_isExpired (Session.isExpired_iff.2 ⟨ongoing, late⟩)]
      rfl
  | completed stored named done =>
    refine refused stored named ?_
    rw [Session.asOf_of_not_isExpired (Session.isExpired_of_finished (by simp [done]) w.now), closedFault?, done]
  | @unnumbered s stored named ongoing inTime nowhere =>
    have found := consistent.findByToken?_iff.2 ⟨stored, named⟩
    have current : s.isExpired w.now = false := Session.isExpired_of_inTime inTime
    have absent : w.tables.slotAt? s.id sequence = none := by
      refine Option.eq_none_iff_forall_ne_some.2 fun slot held => ?_
      obtain ⟨listed, numbered⟩ := (consistent.slotAt?_iff stored).1 held
      obtain ⟨there, own⟩ := consistent.mem_slotsOf_iff.1 listed
      exact nowhere _ _ there own numbered
    rw [run_openSlot valid found (Session.isOpen_iff.2 ⟨ongoing, inTime⟩) absent, World.lookedAt_of_not_isExpired found current]

theorem run_openSlot_of_openSlot (valid : w.tables.Valid) (opened : w.OpenSlot token sequence s slot) :
    (openSlot token sequence).run World.handle w = (.ok (s, slot), w) :=
  run_openSlot valid (opened.findByToken? valid.consistent) opened.isOpen (opened.slotAt? valid.consistent)

/-- An answer that the question of the slot accepts is taken, if the question is of the kind of the slot. -/
theorem run_submit_of_accepts (valid : w.tables.Valid) {q : Question} {value : AnswerValue}
    (accepts : w.Accepts token sequence payload s slot q value) (kind : q.kind = slot.kind) :
    (submit token sequence payload).run World.handle w = (.ok ⟨sequence, q.details.grades value, w.now⟩,
      w.answering slot.id (some ⟨slot.id, value, q.details.grades value, w.now⟩)) := by
  obtain ⟨opened, asked, accepted⟩ := accepts
  have fits : q.detailsFor slot.kind = .ok q.details := Question.detailsFor_eq_ok_iff.2 ⟨kind, rfl⟩
  simp only [submit, run_bind, run_openSlot_of_openSlot valid opened, Call.ask, Call.now, run, World.handle, asked, fits, accepted,
    Call.ofExcept, Except.mapError, Tables.record, opened.takesAnswer, if_true]
  rfl

/-- **What is written** is written, and nothing else. -/
theorem run_of_writes (valid : w.tables.Valid) (stocked : w.Stocked) {o : Operation} {r : o.Result} {k : Int} {a? : Option Answer}
    (writes : w.Writes o r k a?) : o.call.run World.handle w = (.ok r, w.answering k a?) := by
  cases writes with
  | submit accepts =>
    obtain ⟨q', kept, kind⟩ := stocked.offered accepts.held
    obtain rfl := Option.some.inj (accepts.asked.symm.trans kept)
    exact run_submit_of_accepts valid accepts kind
  | @clear token sequence s slot opened =>
    simp only [Operation.call, clear, run_bind, run_openSlot_of_openSlot valid opened, Call.ask, Call.now, run, World.handle, Tables.clear,
      opened.takesAnswer, if_true]
    cases given : w.tables.answers.contains slot.id with
    | true => rfl
    | false =>
      have absent : w.tables.answers.get? slot.id = none := by simpa [Table.contains] using given
      have same : w.answering slot.id none = w := by
        rw [World.answering, Tables.answering, Table.assign_of_get? absent]
      rw [same]
      rfl

/-- **What is refused** is refused for this reason, once the session has been looked at. -/
theorem run_of_refused (valid : w.tables.Valid) (stocked : w.Stocked) {e : Error} (refused : w.Refused token sequence payload e) :
    (submit token sequence payload).run World.handle w = (.error e, w.lookedAt token) := by
  cases refused with
  | noSlot no => rw [submit, run_bind, run_openSlot_of_noSlot valid no]
  | @unreadable s slot q fault opened asked unreadable =>
    obtain ⟨q', kept, kind⟩ := stocked.offered opened.held
    obtain rfl := Option.some.inj (asked.symm.trans kept)
    have found := opened.findByToken? valid.consistent
    have current : s.isExpired w.now = false := Session.isExpired_of_inTime opened.inTime
    rw [World.lookedAt_of_not_isExpired found current]
    exact run_submit_of_unreadable valid found opened.isOpen (opened.slotAt? valid.consistent) asked
      (Question.detailsFor_eq_ok_iff.2 ⟨kind, rfl⟩) unreadable

/-- An answer is accepted, or there is a reason why not. -/
theorem accepts_cases (valid : w.tables.Valid) (stocked : w.Stocked) (token : String) (sequence : Int) (payload : Json.Value) :
    (∃ s slot q value, w.Accepts token sequence payload s slot q value) ∨ ∃ e, w.Refused token sequence payload e := by
  obtain ⟨s, slot, opened⟩ | ⟨e, no⟩ := openSlot_cases valid token sequence
  · obtain ⟨q, asked, -⟩ := stocked.offered opened.held
    cases accepted : q.details.accept payload with
    | ok value => exact .inl ⟨s, slot, q, value, opened, asked, accepted⟩
    | error fault => exact .inr ⟨_, .unreadable opened asked accepted⟩
  · exact .inr ⟨e, .noSlot no⟩

/-! ## One after the other -/

/-- The token and the number of the slot that an operation answers or clears. -/
def Operation.place? : Operation → Option (String × Int)
  | .submit token sequence _ => some (token, sequence)
  | .clear token sequence => some (token, sequence)
  | _ => none

end Exam

namespace World

open Exam

variable {w : World} {token : String} {sequence : Int} {o o' : Operation} {r : o.Result} {r' : o'.Result} {j k : Int}
  {a? b? : Option Answer}

theorem answering_answering (w : World) (k : Int) (a? b? : Option Answer) :
    (w.answering k a?).answering k b? = w.answering k b? := by
  simp only [answering, Tables.answering, Table.assign_assign]

theorem answering_comm (w : World) (ne : j ≠ k) (a? b? : Option Answer) :
    (w.answering k a?).answering j b? = (w.answering j b?).answering k a? := by
  simp only [answering, Tables.answering, Table.assign_comm ne]

theorem answering_of_get? (h : w.tables.answers.get? k = a?) : w.answering k a? = w := by
  rw [answering, Tables.answering, Table.assign_of_get? h]

/-- A slot that is not there has no answer. -/
theorem answering_of_absent (valid : w.tables.Valid) (valid' : (w.answering k a?).tables.Valid) (absent : w.tables.slots.get? k = none) :
    w.answering k a? = w := by
  have unanswered {t : Tables} (valid : t.Valid) (absent : t.slots.get? k = none) : t.answers.get? k = none := by
    refine Option.eq_none_iff_forall_ne_some.2 fun a given => ?_
    obtain ⟨slot, held⟩ := valid.consistent.answer_held given
    cases held.symm.trans absent
  have answer : (w.answering k a?).tables.answers.get? k = a? := (Table.get?_assign _ _ _ _).trans (if_pos rfl)
  rw [unanswered valid' absent] at answer
  exact answering_of_get? ((unanswered valid absent).trans answer)

/-- Whether a slot may be answered is not a matter of answers. -/
theorem openSlot_answering {s : Session} {slot : Slot} :
    (w.answering k a?).OpenSlot token sequence s slot ↔ w.OpenSlot token sequence s slot := by
  constructor <;> intro h <;> exact ⟨⟨h.stored, h.named, h.held, h.own, h.numbered⟩, h.ongoing, h.inTime⟩

/-- Nor is what an operation writes. -/
theorem writes_answering : (w.answering k a?).Writes o r j b? ↔ w.Writes o r j b? := by
  constructor
  · intro h
    cases h with
    | submit accepts => exact .submit ⟨openSlot_answering.1 accepts.toOpenSlot, accepts.asked, accepts.accepted⟩
    | clear opened => exact .clear (openSlot_answering.1 opened)
  · intro h
    cases h with
    | submit accepts => exact .submit ⟨openSlot_answering.2 accepts.toOpenSlot, accepts.asked, accepts.accepted⟩
    | clear opened => exact .clear (openSlot_answering.2 opened)

/-- The slot that is written to. -/
theorem Writes.opened (h : w.Writes o r k a?) {place : String × Int} (addressed : o.place? = some place) :
    ∃ s slot, w.OpenSlot place.1 place.2 s slot ∧ slot.id = k := by
  cases h with
  | submit accepts =>
    cases addressed
    exact ⟨_, _, accepts.toOpenSlot, rfl⟩
  | clear opened =>
    cases addressed
    exact ⟨_, _, opened, rfl⟩

/-- What is written keeps the tables valid. -/
theorem Writes.valid (h : w.Writes o r k a?) (valid : w.tables.Valid) : (w.answering k a?).tables.Valid := by
  cases h with
  | submit accepts =>
    have opened := accepts.toOpenSlot
    refine valid.change (.answered (some _) opened.held (opened.own ▸ opened.stored) opened.ongoing ?_ (Table.get?_assign _ _ · _))
    rintro _ ⟨⟩
    exact ⟨rfl, opened.inTime⟩
  | clear opened =>
    exact valid.change (.answered none opened.held (opened.own ▸ opened.stored) opened.ongoing (by simp) (Table.get?_assign _ _ · _))

theorem Stocked.answering (stocked : w.Stocked) (k : Int) (a? : Option Answer) : (w.answering k a?).Stocked :=
  ⟨stocked.keyed, stocked.offered⟩

/-- The same world at another instant. -/
theorem Stocked.at (stocked : w.Stocked) (now : Instant) : Stocked { w with now := now } := ⟨stocked.keyed, stocked.offered⟩

end World

namespace Exam

open Call

variable {w : World} {o o' : Operation} {r : o.Result} {r' : o'.Result} {place : String × Int}

/-- An operation on a slot writes there, or has looked at the session in vain. -/
theorem place_cases (valid : w.tables.Valid) (stocked : w.Stocked) (addressed : o.place? = some place) :
    (∃ r k a?, w.Writes o r k a?) ∨ ∃ e, o.call.run World.handle w = (.error e, w.lookedAt place.1) := by
  cases o with
  | submit token sequence payload =>
    cases addressed
    obtain ⟨s, slot, q, value, accepts⟩ | ⟨e, refused⟩ := accepts_cases valid stocked token sequence payload
    · exact .inl ⟨_, _, _, .submit accepts⟩
    · exact .inr ⟨e, run_of_refused valid stocked refused⟩
  | clear token sequence =>
    cases addressed
    obtain ⟨s, slot, opened⟩ | ⟨e, no⟩ := openSlot_cases valid token sequence
    · exact .inl ⟨_, _, _, .clear opened⟩
    · refine .inr ⟨e, ?_⟩
      rw [Operation.call, clear, run_bind, run_openSlot_of_noSlot valid no]
  | _ => cases addressed

theorem run_of_unwritten (valid : w.tables.Valid) (stocked : w.Stocked) (addressed : o.place? = some place)
    (unwritten : ¬∃ r k a?, w.Writes o r k a?) : (o.call.run World.handle w).2 = w.lookedAt place.1 := by
  obtain written | ⟨e, failed⟩ := place_cases valid stocked addressed
  · exact absurd written unwritten
  · rw [failed]

/-- An operation on a slot that gives a value has written there. -/
theorem exists_writes (valid : w.tables.Valid) (stocked : w.Stocked) (addressed : o.place? = some place) {u : World}
    (done : o.call.run World.handle w = (.ok r, u)) : ∃ k a?, w.Writes o r k a? ∧ u = w.answering k a? := by
  obtain ⟨r', k, a?, writes⟩ | ⟨e, failed⟩ := place_cases valid stocked addressed
  · cases done.symm.trans (run_of_writes valid stocked writes)
    exact ⟨k, a?, writes, rfl⟩
  · cases done.symm.trans failed

/-- **Writing the same once more** changes nothing. -/
theorem run_again (valid : w.tables.Valid) (stocked : w.Stocked) {k : Int} {a? : Option Answer} (writes : w.Writes o r k a?) :
    o.call.run World.handle (w.answering k a?) = (.ok r, w.answering k a?) := by
  rw [run_of_writes (writes.valid valid) (stocked.answering k a?) (World.writes_answering.2 writes), World.answering_answering]

/-- **Operations on different slots** may change places, each at its own instant. -/
theorem run_comm (valid : w.tables.Valid) (stocked : w.Stocked) {place' : String × Int} (addressed : o.place? = some place)
    (addressed' : o'.place? = some place') (ne : place ≠ place') {later : Instant} {u v : World}
    (first : o.call.run World.handle w = (.ok r, u)) (second : o'.call.run World.handle { u with now := later } = (.ok r', v)) :
    ∃ u', o'.call.run World.handle { w with now := later } = (.ok r', u') ∧
      o.call.run World.handle { u' with now := w.now } = (.ok r, { v with now := w.now }) := by
  obtain ⟨k, a?, writes, rfl⟩ := exists_writes valid stocked addressed first
  have valid' := writes.valid valid
  obtain ⟨k', b?, writes', rfl⟩ := exists_writes (w := { w.answering k a? with now := later }) valid'
    ((stocked.answering k a?).at later) addressed' second
  have before : World.Writes { w with now := later } o' r' k' b? := World.writes_answering.1 writes'
  have other : k' ≠ k := by
    obtain ⟨s, slot, opened, rfl⟩ := writes.opened addressed
    obtain ⟨s', slot', opened', rfl⟩ := before.opened addressed'
    exact opened.toNumbers.id_ne opened'.toNumbers ne
  refine ⟨_, run_of_writes (w := { w with now := later }) valid (stocked.at later) before, ?_⟩
  have after : (w.answering k' b?).Writes o r k a? := World.writes_answering.2 writes
  have moved := run_of_writes (w := w.answering k' b?) (before.valid valid) (stocked.answering k' b?) after
  rw [← World.answering_comm w other] at moved
  exact moved

end Exam

end Proctor
