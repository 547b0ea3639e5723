import Proctor.Proofs.Call.Interference
import Proctor.Proofs.Store.Rows

/-!
# Rows under their ids

Counters give out the ids of sessions and of slots, and tokens name sessions. Whatever accesses are made, in
whatever order and with whatever they bring along (`Reached`), every row stands under its own id, no id is beyond its
counter, and what a row refers to is there (`Reached.filed`). So the id that is given out next is new.
-/

set_option autoImplicit false

namespace Proctor.Tables

/-- Some session has the token. -/
def Uses (t : Tables) (token : String) : Prop := ∃ id s, t.find? id = some s ∧ s.token = token

/-- Rows stand under their own ids, and what they refer to is there. -/
structure Filed (t : Tables) : Prop where
  session_id : ∀ {id s}, t.find? id = some s → s.id = id
  session_le : ∀ {id s}, t.find? id = some s → id ≤ t.lastSession
  /-- A token is known exactly if a session has it, and then by the id of that session. -/
  token_iff : ∀ {token id}, t.tokens.get? token = some id ↔ ∃ s, t.find? id = some s ∧ s.token = token
  slot_id : ∀ {k slot}, t.slots.get? k = some slot → slot.id = k
  slot_le : ∀ {k slot}, t.slots.get? k = some slot → k ≤ t.lastSlot
  slot_session : ∀ {k slot}, t.slots.get? k = some slot → ∃ s, t.find? slot.session = some s
  answer_slot : ∀ {k a}, t.answers.get? k = some a → a.slot = k
  answer_held : ∀ {k a}, t.answers.get? k = some a → ∃ slot, t.slots.get? k = some slot

theorem filed_empty : Filed ∅ where
  session_id := fun h => by cases h
  session_le := fun h => by cases h
  token_iff := by
    intro token id
    constructor
    · intro h
      cases h
    · rintro ⟨s, h, -⟩
      cases h
  slot_id := fun h => by cases h
  slot_le := fun h => by cases h
  slot_session := fun h => by cases h
  answer_slot := fun h => by cases h
  answer_held := fun h => by cases h

namespace Filed

variable {t : Tables}

/-- The id after the last one names no session. -/
theorem find?_next (h : t.Filed) : t.find? (t.lastSession + 1) = none := by
  cases stored : t.find? (t.lastSession + 1) with
  | none => rfl
  | some s =>
    have := h.session_le stored
    omega

theorem session_ne_next (h : t.Filed) {k : Int} {slot : Slot} (held : t.slots.get? k = some slot) :
    slot.session ≠ t.lastSession + 1 := by
  obtain ⟨s, stored⟩ := h.slot_session held
  have := h.session_le stored
  omega

/-- A token is unknown if no session has it. -/
theorem get?_tokens_eq_none (h : t.Filed) {token : String} : t.tokens.get? token = none ↔ ¬t.Uses token := by
  refine ⟨fun unknown ⟨id, s, stored, named⟩ => ?_, fun unused => ?_⟩
  · cases unknown.symm.trans (h.token_iff.2 ⟨s, stored, named⟩)
  · refine Option.eq_none_iff_forall_ne_some.2 fun id known => ?_
    obtain ⟨s, stored, named⟩ := h.token_iff.1 known
    exact unused ⟨id, s, stored, named⟩

/-- By its token a session is found that has it. -/
theorem findByToken?_iff (h : t.Filed) {token : String} {s : Session} :
    t.findByToken? token = some s ↔ t.find? s.id = some s ∧ s.token = token := by
  simp only [findByToken?, Option.bind_eq_some_iff]
  constructor
  · rintro ⟨id, known, stored⟩
    obtain ⟨s', stored', rfl⟩ := h.token_iff.1 known
    obtain rfl := Option.some.inj (stored.symm.trans stored')
    rw [h.session_id stored]
    exact ⟨stored, rfl⟩
  · rintro ⟨stored, rfl⟩
    exact ⟨s.id, h.token_iff.2 ⟨s, stored, rfl⟩, stored⟩

section Opened

variable {terms : Terms} {drawn : List Drawn} {id k : Int} {slot : Slot}

theorem get?_slots_opened (h : t.Filed) : (t.opened terms drawn).slots.get? k = some slot ↔
    (slot ∈ t.slotsFor (t.lastSession + 1) drawn ∧ slot.id = k) ∨ t.slots.get? k = some slot :=
  Tables.get?_slots_opened fun _ _ => h.slot_le

theorem slotsOf_opened_self (h : t.Filed) :
    (t.opened terms drawn).slotsOf (t.lastSession + 1) = t.slotsFor (t.lastSession + 1) drawn :=
  Tables.slotsOf_opened_self (fun _ _ => h.slot_le) fun _ _ => h.session_ne_next

/-- A new slot has no answer. -/
theorem get?_answers_of_mem_slotsFor (h : t.Filed) (listed : slot ∈ t.slotsFor id drawn) :
    t.answers.get? slot.id = none := by
  apply Option.eq_none_iff_forall_ne_some.2
  intro a given
  obtain ⟨old, held⟩ := h.answer_held given
  have := h.slot_le held
  have := (bounds_of_mem_slotsFor listed).2.1
  omega

/-- A session may be opened with a new token. -/
theorem opened (h : t.Filed) (fresh : t.tokens.get? terms.token = none) : (t.opened terms drawn).Filed where
  session_id := by
    intro id s stored
    obtain ⟨rfl, rfl⟩ | ⟨-, stored⟩ := find?_opened_eq_some.1 stored
    · rfl
    · exact h.session_id stored
  session_le := by
    intro id s stored
    show id ≤ t.lastSession + 1
    obtain ⟨rfl, -⟩ | ⟨-, stored⟩ := find?_opened_eq_some.1 stored
    · exact Int.le_refl _
    · have := h.session_le stored
      omega
  token_iff := by
    intro token id
    show (t.tokens.insert terms.token (t.lastSession + 1)).get? token = some id ↔ _
    rw [Table.get?_insert]
    constructor
    · intro known
      split at known
      · rename_i same
        obtain rfl := Option.some.inj known
        exact ⟨t.opening terms drawn, by rw [find?_opened, if_pos rfl], same.symm⟩
      · obtain ⟨s, stored, named⟩ := h.token_iff.1 known
        refine ⟨s, ?_, named⟩
        rw [find?_opened, if_neg, stored]
        rintro rfl
        rw [h.find?_next] at stored
        cases stored
    · rintro ⟨s, stored, rfl⟩
      obtain ⟨rfl, rfl⟩ | ⟨-, stored⟩ := find?_opened_eq_some.1 stored
      · exact if_pos rfl
      · have known := h.token_iff.2 ⟨s, stored, rfl⟩
        rw [if_neg, known]
        intro same
        rw [same, fresh] at known
        cases known
  slot_id := by
    intro k slot held
    obtain ⟨-, named⟩ | held := h.get?_slots_opened.1 held
    · exact named
    · exact h.slot_id held
  slot_le := by
    intro k slot held
    show k ≤ t.lastSlot + drawn.length
    obtain ⟨listed, rfl⟩ | held := h.get?_slots_opened.1 held
    · exact (bounds_of_mem_slotsFor listed).2.2
    · have := h.slot_le held
      omega
  slot_session := by
    intro k slot held
    obtain ⟨listed, -⟩ | held := h.get?_slots_opened.1 held
    · exact ⟨_, by rw [find?_opened, if_pos (bounds_of_mem_slotsFor listed).1]⟩
    · obtain ⟨s, stored⟩ := h.slot_session held
      exact ⟨s, by rw [find?_opened, if_neg (h.session_ne_next held), stored]⟩
  answer_slot := by
    intro k a given
    exact h.answer_slot given
  answer_held := by
    intro k a given
    obtain ⟨slot, held⟩ := h.answer_held given
    exact ⟨slot, h.get?_slots_opened.2 (.inr held)⟩

end Opened

/-- A stored session may get another record with the same id and token. -/
theorem ended (h : t.Filed) {id : Int} {s s' : Session} (stored : t.find? id = some s) (named : s'.id = s.id)
    (token : s'.token = s.token) : (t.ended id s').Filed := by
  -- up to the record of `id`, the same sessions are stored
  have before : ∀ {other r}, (t.ended id s').find? other = some r →
      ∃ r', t.find? other = some r' ∧ r.id = r'.id ∧ r.token = r'.token := by
    intro other r stored'
    obtain ⟨rfl, rfl⟩ | ⟨-, stored'⟩ := find?_ended_eq_some.1 stored'
    · exact ⟨s, stored, named, token⟩
    · exact ⟨r, stored', rfl, rfl⟩
  have after : ∀ {other r}, t.find? other = some r → ∃ r', (t.ended id s').find? other = some r' ∧ r'.token = r.token := by
    intro other r stored'
    rw [find?_ended]
    split
    · rename_i same
      subst same
      obtain rfl := Option.some.inj (stored.symm.trans stored')
      exact ⟨s', rfl, token⟩
    · exact ⟨r, stored', rfl⟩
  constructor
  case session_id =>
    intro other r stored'
    obtain ⟨r', earlier, named', -⟩ := before stored'
    exact named'.trans (h.session_id earlier)
  case session_le =>
    intro other r stored'
    obtain ⟨r', earlier, -⟩ := before stored'
    exact h.session_le earlier
  case token_iff =>
    intro name other
    constructor
    · intro known
      obtain ⟨r, earlier, rfl⟩ := h.token_iff.1 known
      exact after earlier
    · rintro ⟨r, stored', rfl⟩
      obtain ⟨r', earlier, -, token'⟩ := before stored'
      exact h.token_iff.2 ⟨r', earlier, token'.symm⟩
  case slot_id => exact h.slot_id
  case slot_le => exact h.slot_le
  case slot_session =>
    intro k slot held
    obtain ⟨r, earlier⟩ := h.slot_session held
    obtain ⟨r', later, -⟩ := after earlier
    exact ⟨r', later⟩
  case answer_slot => exact h.answer_slot
  case answer_held => exact h.answer_held

/-- A stored session may be removed with everything that belongs to it. -/
theorem removed (h : t.Filed) {id : Int} {s : Session} (stored : t.find? id = some s) : (t.removed id s).Filed where
  session_id := fun stored' => h.session_id (find?_removed_eq_some.1 stored').2
  session_le := fun stored' => h.session_le (find?_removed_eq_some.1 stored').2
  token_iff := by
    intro token other
    show (t.tokens.erase s.token).get? token = some other ↔ _
    rw [Table.get?_erase]
    constructor
    · intro known
      split at known
      · cases known
      rename_i differs
      obtain ⟨r, earlier, rfl⟩ := h.token_iff.1 known
      refine ⟨r, ?_, rfl⟩
      rw [find?_removed, if_neg, earlier]
      rintro rfl
      rw [Option.some.inj (earlier.symm.trans stored)] at differs
      exact differs rfl
    · rintro ⟨r, stored', rfl⟩
      obtain ⟨ne, earlier⟩ := find?_removed_eq_some.1 stored'
      have known := h.token_iff.2 ⟨r, earlier, rfl⟩
      rw [if_neg, known]
      intro same
      rw [same, h.token_iff.2 ⟨s, stored, rfl⟩] at known
      exact ne (Option.some.inj known).symm
  slot_id := fun held => h.slot_id (get?_slots_removed.1 held).1
  slot_le := fun held => h.slot_le (get?_slots_removed.1 held).1
  slot_session := by
    intro k slot held
    obtain ⟨held, ne⟩ := get?_slots_removed.1 held
    obtain ⟨r, earlier⟩ := h.slot_session held
    exact ⟨r, by rw [find?_removed, if_neg ne, earlier]⟩
  answer_slot := fun given => h.answer_slot (get?_answers_removed.1 given).1
  answer_held := by
    intro k a given
    obtain ⟨given, unowned⟩ := get?_answers_removed.1 given
    obtain ⟨slot, held⟩ := h.answer_held given
    exact ⟨slot, get?_slots_removed.2 ⟨held, fun own => unowned ⟨slot, held, own⟩⟩⟩

/-- The answer of a slot may be written or cleared. -/
theorem answered (h : t.Filed) {k : Int} {slot : Slot} (a? : Option Answer) {answers : Table Int Answer}
    (held : t.slots.get? k = some slot) (own : ∀ a ∈ a?, a.slot = k)
    (written : ∀ j, answers.get? j = if j = k then a? else t.answers.get? j) : Filed { t with answers := answers } := by
  refine { h with answer_slot := ?_, answer_held := ?_ }
  · intro j a given
    rw [written] at given
    split at given
    · rename_i here
      exact here ▸ own a given
    · exact h.answer_slot given
  · intro j a given
    rw [written] at given
    split at given
    · rename_i here
      exact ⟨slot, here ▸ held⟩
    · exact h.answer_held given

/-- **Every access keeps rows under their ids**, whatever it brings along. -/
theorem handle {w : World} (h : w.tables.Filed) (q : Access) : (w.handle q).2.tables.Filed := by
  by_cases reads : q.Reads
  · rwa [World.tables_handle_of_reads reads]
  cases q with
  | create terms drawn =>
    obtain ⟨_, eq⟩ | ⟨fresh, eq⟩ := w.tables.create_cases terms drawn
    all_goals simp only [World.handle, eq]
    · exact h
    · exact h.opened fresh
  | markTimedOut id now =>
    obtain ⟨_, eq⟩ | ⟨_, _, _, eq⟩ | ⟨s, stored, _, eq⟩ := w.tables.markTimedOut_cases id now
    all_goals simp only [World.handle, eq]
    · exact h
    · exact h
    · exact h.ended stored rfl rfl
  | complete id now =>
    obtain ⟨_, eq⟩ | ⟨s, stored, _, eq⟩ := w.tables.complete_cases id now
    all_goals simp only [World.handle, eq]
    · exact h
    · exact h.ended stored rfl rfl
  | deleteOngoing id =>
    obtain ⟨_, eq⟩ | ⟨s, stored, _, eq⟩ := w.tables.deleteOngoing_cases id
    all_goals simp only [World.handle, eq]
    · exact h
    · exact h.removed stored
  | record a =>
    obtain eq | ⟨takes, eq⟩ := w.tables.record_cases a
    all_goals simp only [World.handle, eq]
    · exact h
    · obtain ⟨slot, s, held, -⟩ := takesAnswer_iff.1 takes
      refine h.answered (some a) held ?_ fun j => Table.get?_insert _ _ _ _
      rintro _ ⟨⟩
      rfl
  | clear k now =>
    obtain eq | ⟨_, eq⟩ | ⟨takes, eq⟩ := w.tables.clear_cases k now
    all_goals simp only [World.handle, eq]
    · exact h
    · exact h
    · obtain ⟨slot, s, held, -⟩ := takesAnswer_iff.1 takes
      exact h.answered none held (by simp) fun j => Table.get?_erase _ _ _
  | _ => exact absurd trivial reads

end Filed

theorem Filed.run {α : Type} {w : World} (h : w.tables.Filed) (c : Call α) : (c.run World.handle w).2.tables.Filed :=
  Call.keeps_run (p := fun w : World => w.tables.Filed) (fun q _ h => h.handle q) c h

/-- The tables that any accesses can lead to, one after the other, whatever they bring along, and whatever the catalog,
the clock and the quota are at each of them. -/
inductive Reached : Tables → Prop where
  | empty : Reached ∅
  | access (w : World) (reached : Reached w.tables) (q : Access) : Reached (w.handle q).2.tables

/-- So can whole calls. -/
theorem Reached.run {α : Type} {w : World} (reached : Reached w.tables) (c : Call α) :
    Reached (c.run World.handle w).2.tables :=
  Call.keeps_run (p := fun w : World => Reached w.tables) (fun q w reached => .access w reached q) c reached

theorem Reached.filed {t : Tables} (reached : Reached t) : t.Filed := by
  induction reached with
  | empty => exact filed_empty
  | access w reached q ih => exact ih.handle q

end Proctor.Tables
