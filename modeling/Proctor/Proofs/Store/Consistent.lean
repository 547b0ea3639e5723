import Proctor.Proofs.Sorting
import Proctor.Proofs.Store.Filed

/-!
# Consistent tables

The five tables are written separately but belong together: tokens and sessions name each
other, every slot has its session, every answer its slot, and the slots of a session are
numbered from 1 up to its total. `Consistent` says so, and each change of the tables keeps it
(`Consistent.change`).
-/

set_option autoImplicit false

namespace Proctor.Tables

/-- The tables fit together. -/
structure Consistent (t : Tables) : Prop where
  session_id : ∀ {id s}, t.find? id = some s → s.id = id
  session_le : ∀ {id s}, t.find? id = some s → id ≤ t.lastSession
  /-- A token is known exactly if a session has it, and then by the id of that session. -/
  token_iff : ∀ {token id}, t.tokens.get? token = some id ↔ ∃ s, t.find? id = some s ∧ s.token = token
  slot_id : ∀ {k slot}, t.slots.get? k = some slot → slot.id = k
  slot_le : ∀ {k slot}, t.slots.get? k = some slot → k ≤ t.lastSlot
  slot_session : ∀ {k slot}, t.slots.get? k = some slot → ∃ s, t.find? slot.session = some s
  total_pos : ∀ {id s}, t.find? id = some s → 1 ≤ s.total
  /-- By id, the slots of a session have the sequences 1, 2, ..., up to its total. -/
  sequences : ∀ {id s}, t.find? id = some s →
    (t.slotsOf id).map (·.sequence) = (List.range s.total.toNat).map fun i : Nat => (i : Int) + 1
  questions : ∀ {id s}, t.find? id = some s → ((t.slotsOf id).map (·.question)).Nodup
  answer_slot : ∀ {k a}, t.answers.get? k = some a → a.slot = k
  answer_held : ∀ {k a}, t.answers.get? k = some a → ∃ slot, t.slots.get? k = some slot

theorem consistent_empty : Consistent ∅ where
  session_id := fun h => by cases h
  session_le := fun h => by cases h
  token_iff := by
    intro token id
    constructor
    · intro h
      cases h
    · rintro ⟨s, h, -⟩
      cases h
  slot_id := fun h => by cases h
  slot_le := fun h => by cases h
  slot_session := fun h => by cases h
  total_pos := fun h => by cases h
  sequences := fun h => by cases h
  questions := fun h => by cases h
  answer_slot := fun h => by cases h
  answer_held := fun h => by cases h

namespace Consistent

variable {t u : Tables}

/-- Consistent tables have their rows under their ids. -/
theorem filed (h : t.Consistent) : t.Filed :=
  ⟨h.session_id, h.session_le, h.token_iff, h.slot_id, h.slot_le, h.slot_session, h.answer_slot, h.answer_held⟩

/-- The id after the last one names no session. -/
theorem find?_next (h : t.Consistent) : t.find? (t.lastSession + 1) = none := h.filed.find?_next

theorem session_ne_next (h : t.Consistent) {k : Int} {slot : Slot} (held : t.slots.get? k = some slot) :
    slot.session ≠ t.lastSession + 1 := h.filed.session_ne_next held

theorem mem_slotsOf_iff (h : t.Consistent) {id : Int} {slot : Slot} :
    slot ∈ t.slotsOf id ↔ t.slots.get? slot.id = some slot ∧ slot.session = id := by
  rw [mem_slotsOf]
  constructor
  · rintro ⟨own, k, held⟩
    rw [h.slot_id held]
    exact ⟨held, own⟩
  · rintro ⟨held, own⟩
    exact ⟨own, _, held⟩

theorem findByToken?_iff (h : t.Consistent) {token : String} {s : Session} :
    t.findByToken? token = some s ↔ t.find? s.id = some s ∧ s.token = token := h.filed.findByToken?_iff

theorem length_slotsOf (h : t.Consistent) {id : Int} {s : Session} (stored : t.find? id = some s) :
    ((t.slotsOf id).length : Int) = s.total := by
  have := congrArg List.length (h.sequences stored)
  have := h.total_pos stored
  simp at *
  omega

theorem nodup_sequences (h : t.Consistent) {id : Int} {s : Session} (stored : t.find? id = some s) :
    ((t.slotsOf id).map (·.sequence)).Nodup := by
  rw [h.sequences stored]
  refine List.nodup_range.map ?_
  intro i j eq
  dsimp only at eq
  omega

/-- Two slots of a session with the same sequence are the same. -/
theorem slot_unique (h : t.Consistent) {id : Int} {s : Session} (stored : t.find? id = some s) {a b : Slot}
    (ha : a ∈ t.slotsOf id) (hb : b ∈ t.slotsOf id) (same : a.sequence = b.sequence) : a = b :=
  List.inj_on_of_nodup_map (h.nodup_sequences stored) ha hb same

/-- A slot is found by its number. -/
theorem slotAt?_iff (h : t.Consistent) {id sequence : Int} {s : Session} {slot : Slot} (stored : t.find? id = some s) :
    t.slotAt? id sequence = some slot ↔ slot ∈ t.slotsOf id ∧ slot.sequence = sequence :=
  find?_key_eq_some_iff (h.nodup_sequences stored)

/-- By sequence, the slots of a session are in the order of their ids. -/
theorem sheet_eq (h : t.Consistent) {id : Int} {s : Session} (stored : t.find? id = some s) : t.sheet id = t.slotsOf id := by
  have numbered : ((t.slotsOf id).map (·.sequence)).Pairwise (· ≤ ·) := by
    rw [h.sequences stored]
    exact List.pairwise_map.2 (List.pairwise_lt_range.imp fun lt => by omega)
  exact sortBy_eq_self ((List.pairwise_map.1 numbered).imp fun le => decide_eq_true le)

/-- A session that is not stored has no slots. -/
theorem slotsOf_eq_nil (h : t.Consistent) {id : Int} (gone : t.find? id = none) : t.slotsOf id = [] := by
  refine List.eq_nil_iff_forall_not_mem.2 fun slot listed => ?_
  obtain ⟨held, rfl⟩ := h.mem_slotsOf_iff.1 listed
  obtain ⟨s, stored⟩ := h.slot_session held
  cases stored.symm.trans gone

/-- The answer of a slot is found among those of its session. -/
theorem find?_answersOf (h : t.Consistent) {id : Int} {slot : Slot} (listed : slot ∈ t.slotsOf id) :
    (t.answersOf id).find? (·.slot == slot.id) = t.answers.get? slot.id := by
  have only : ∀ a ∈ t.answersOf id, a.slot = slot.id → t.answers.get? slot.id = some a := by
    intro a given here
    obtain ⟨other, -, at_other⟩ := mem_answersOf.1 given
    rwa [← here, h.answer_slot at_other]
  cases first : (t.answersOf id).find? (·.slot == slot.id) with
  | some a => exact (only a (List.mem_of_find?_eq_some first) (by simpa using List.find?_some first)).symm
  | none =>
    cases given : t.answers.get? slot.id with
    | none => rfl
    | some a =>
      have here := h.answer_slot given
      exact absurd here (by simpa using List.find?_eq_none.1 first a (mem_answersOf.2 ⟨slot, listed, given⟩))

/-- A slot of another session has another id. -/
theorem id_ne_of_session_ne (h : t.Consistent) {id k : Int} {slot held : Slot} (listed : slot ∈ t.slotsOf id)
    (at_k : t.slots.get? k = some held) (ne : id ≠ held.session) : slot.id ≠ k := by
  rintro rfl
  obtain ⟨found, own⟩ := h.mem_slotsOf_iff.1 listed
  obtain rfl := Option.some.inj (at_k.symm.trans found)
  exact ne own.symm

/-- The removal of a session leaves the answers to the slots of the others. -/
theorem get?_answers_removed_of_ne (h : t.Consistent) {id other : Int} {s : Session} (ne : other ≠ id) {slot : Slot}
    (listed : slot ∈ t.slotsOf other) : (t.removed id s).answers.get? slot.id = t.answers.get? slot.id := by
  apply Option.ext
  intro a
  rw [get?_answers_removed]
  refine and_iff_left ?_
  rintro ⟨held, at_slot, rfl⟩
  exact h.id_ne_of_session_ne listed at_slot ne rfl

/-! ## A new session -/

section Opened

variable {terms : Terms} {drawn : List Drawn} {id k : Int} {slot : Slot}

theorem get?_slots_opened (h : t.Consistent) : (t.opened terms drawn).slots.get? k = some slot ↔
    (slot ∈ t.slotsFor (t.lastSession + 1) drawn ∧ slot.id = k) ∨ t.slots.get? k = some slot :=
  h.filed.get?_slots_opened

theorem slotsOf_opened_self (h : t.Consistent) :
    (t.opened terms drawn).slotsOf (t.lastSession + 1) = t.slotsFor (t.lastSession + 1) drawn :=
  h.filed.slotsOf_opened_self

theorem slotsOf_opened_of_ne (h : t.Consistent) (ne : id ≠ t.lastSession + 1) :
    (t.opened terms drawn).slotsOf id = t.slotsOf id :=
  Tables.slotsOf_opened_of_ne (fun _ _ => h.slot_le) ne

/-- A new slot has no answer. -/
theorem get?_answers_of_mem_slotsFor (h : t.Consistent) (listed : slot ∈ t.slotsFor id drawn) :
    t.answers.get? slot.id = none := h.filed.get?_answers_of_mem_slotsFor listed

end Opened

/-- A session may be opened with terms whose token is new. -/
theorem opened (h : t.Consistent) {terms : Terms} {drawn : List Drawn} (proper : Opening terms drawn)
    (fresh : t.tokens.get? terms.token = none) : (t.opened terms drawn).Consistent := by
  refine { h.filed.opened fresh with total_pos := ?_, sequences := ?_, questions := ?_ }
  · intro id s stored
    obtain ⟨-, rfl⟩ | ⟨-, stored⟩ := find?_opened_eq_some.1 stored
    · exact Int.ofNat_le.2 proper.nonempty
    · exact h.total_pos stored
  · intro id s stored
    obtain ⟨rfl, rfl⟩ | ⟨ne, stored⟩ := find?_opened_eq_some.1 stored
    · rw [h.slotsOf_opened_self, map_sequence_slotsFor]
      exact proper.questions.numbered
    · rw [h.slotsOf_opened_of_ne ne]
      exact h.sequences stored
  · intro id s stored
    obtain ⟨rfl, rfl⟩ | ⟨ne, stored⟩ := find?_opened_eq_some.1 stored
    · rw [h.slotsOf_opened_self, map_question_slotsFor]
      exact proper.questions.distinct
    · rw [h.slotsOf_opened_of_ne ne]
      exact h.questions stored

/-- A stored session may get another record with the same token and total. -/
theorem ended (h : t.Consistent) {id : Int} {s s' : Session} (stored : t.find? id = some s) (named : s'.id = s.id)
    (token : s'.token = s.token) (total : s'.total = s.total) : (t.ended id s').Consistent := by
  have before : ∀ {other r}, (t.ended id s').find? other = some r → ∃ r', t.find? other = some r' ∧ r.total = r'.total := by
    intro other r stored'
    obtain ⟨rfl, rfl⟩ | ⟨-, stored'⟩ := find?_ended_eq_some.1 stored'
    · exact ⟨s, stored, total⟩
    · exact ⟨r, stored', rfl⟩
  refine { h.filed.ended stored named token with total_pos := ?_, sequences := ?_, questions := ?_ }
  · intro other r stored'
    obtain ⟨r', earlier, total'⟩ := before stored'
    rw [total']
    exact h.total_pos earlier
  · intro other r stored'
    obtain ⟨r', earlier, total'⟩ := before stored'
    rw [total']
    exact h.sequences earlier
  · intro other r stored'
    obtain ⟨r', earlier, -⟩ := before stored'
    exact h.questions earlier

/-- A stored session may be removed with everything that belongs to it. -/
theorem removed (h : t.Consistent) {id : Int} {s : Session} (stored : t.find? id = some s) :
    (t.removed id s).Consistent := by
  refine { h.filed.removed stored with total_pos := ?_, sequences := ?_, questions := ?_ }
  · exact fun stored' => h.total_pos (find?_removed_eq_some.1 stored').2
  · intro other r stored'
    obtain ⟨ne, earlier⟩ := find?_removed_eq_some.1 stored'
    rw [slotsOf_removed_of_ne ne]
    exact h.sequences earlier
  · intro other r stored'
    obtain ⟨ne, earlier⟩ := find?_removed_eq_some.1 stored'
    rw [slotsOf_removed_of_ne ne]
    exact h.questions earlier

/-- The answer of a slot may be written or cleared. -/
theorem answered (h : t.Consistent) {k : Int} {slot : Slot} {a? : Option Answer} {answers : Table Int Answer}
    (held : t.slots.get? k = some slot) (own : ∀ a ∈ a?, a.slot = k)
    (written : ∀ j, answers.get? j = if j = k then a? else t.answers.get? j) :
    Consistent { t with answers := answers } :=
  { h.filed.answered _ held own written with total_pos := h.total_pos, sequences := h.sequences, questions := h.questions }

/-- **Consistent tables stay consistent.** -/
theorem change (h : t.Consistent) (c : Change t u) : u.Consistent := by
  cases c with
  | same => exact h
  | opened proper fresh => exact h.opened proper fresh
  | ended stored ongoing ends =>
    obtain ⟨terms, named, total, -⟩ := ends.frame
    exact h.ended stored named (congrArg Terms.token terms) total
  | removed stored ongoing => exact h.removed stored
  | answered a? held stored ongoing inTime written =>
    exact h.answered held (fun a given => (inTime a given).1) written

end Consistent

end Proctor.Tables
