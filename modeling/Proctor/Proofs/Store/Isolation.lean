import Proctor.Proofs.Store.Consistent

/-!
# One session among the others

All sessions share the tables. `Hosts` says of tables that came from earlier ones that nothing has
changed but what belongs to one session, and that the token of this session is not given to
another. `Shares` says that two tables hold this session alike, whatever else they hold. The end of the session, its
removal and its answers keep both.
-/

set_option autoImplicit false

namespace Proctor.Tables

variable {t t₀ u u₀ : Tables} {id k : Int} {s : Session} {slot : Slot} {token : String}

/-- Of `t`, everything that does not belong to the session `id` is in `u` as it was, and there is nothing new of that kind. -/
structure Spares (id : Int) (t u : Tables) : Prop where
  lastSession : u.lastSession = t.lastSession
  lastSlot : u.lastSlot = t.lastSlot
  session : ∀ {other}, other ≠ id → u.find? other = t.find? other
  token : ∀ {token other}, other ≠ id → (u.tokens.get? token = some other ↔ t.tokens.get? token = some other)
  slot : ∀ {k slot}, u.slots.get? k = some slot → t.slots.get? k = some slot
  slot_kept : ∀ {k slot}, t.slots.get? k = some slot → slot.session ≠ id → u.slots.get? k = some slot
  answer : ∀ {k}, t.owns id k = false → u.answers.get? k = t.answers.get? k

namespace Spares

theorem refl (id : Int) (t : Tables) : t.Spares id t where
  lastSession := rfl
  lastSlot := rfl
  session := fun _ => rfl
  token := fun _ => Iff.rfl
  slot := fun held => held
  slot_kept := fun held _ => held
  answer := fun _ => rfl

theorem not_owned (h : t₀.Spares id t) (alien : t₀.owns id k = false) : t.owns id k = false := by
  rw [← Bool.not_eq_true, owns_iff] at alien ⊢
  rintro ⟨slot, held, own⟩
  exact alien ⟨slot, h.slot held, own⟩

theorem ended (h : t₀.Spares id t) (s : Session) : t₀.Spares id (t.ended id s) where
  lastSession := h.lastSession
  lastSlot := h.lastSlot
  session := fun ne => by rw [find?_ended, if_neg ne, h.session ne]
  token := h.token
  slot := h.slot
  slot_kept := h.slot_kept
  answer := h.answer

theorem removed (h : t₀.Spares id t) (known : t.tokens.get? s.token = some id) : t₀.Spares id (t.removed id s) where
  lastSession := h.lastSession
  lastSlot := h.lastSlot
  session := fun ne => by rw [find?_removed, if_neg ne, h.session ne]
  token := by
    intro token other ne
    show (t.tokens.erase s.token).get? token = some other ↔ _
    rw [Table.get?_erase, ← h.token ne]
    split
    · rename_i same
      rw [same, known]
      simp [ne.symm]
    · exact Iff.rfl
  slot := fun held => h.slot (get?_slots_removed.1 held).1
  slot_kept := fun held ne => get?_slots_removed.2 ⟨h.slot_kept held ne, ne⟩
  answer := by
    intro k alien
    rw [← h.answer alien]
    apply Option.ext
    intro a
    rw [get?_answers_removed, ← owns_iff, h.not_owned alien]
    simp

theorem answered (h : t₀.Spares id t) (a? : Option Answer) {answers : Table Int Answer} (own : t₀.owns id k = true)
    (written : ∀ j, answers.get? j = if j = k then a? else t.answers.get? j) : t₀.Spares id { t with answers := answers } where
  lastSession := h.lastSession
  lastSlot := h.lastSlot
  session := h.session
  token := h.token
  slot := h.slot
  slot_kept := h.slot_kept
  answer := by
    intro j alien
    rw [← h.answer alien]
    refine (written j).trans (if_neg ?_)
    rintro rfl
    cases own.symm.trans alien

end Spares

/-- The tables `t₀` have become `t`, and only the session `id` was touched, whose token is `token`. -/
structure Hosts (token : String) (id : Int) (t₀ t : Tables) : Prop where
  consistent : t.Consistent
  spares : t₀.Spares id t
  named : ∀ {s}, t.find? id = some s → s.token = token
  only : ∀ {other}, t.tokens.get? token = some other → other = id

namespace Hosts

theorem refl (consistent : t.Consistent) (found : t.findByToken? token = some s) : t.Hosts token s.id t where
  consistent := consistent
  spares := .refl s.id t
  named := by
    intro r stored
    obtain ⟨stored', named⟩ := consistent.findByToken?_iff.1 found
    obtain rfl := Option.some.inj (stored'.symm.trans stored)
    exact named
  only := by
    intro other known
    obtain ⟨stored, rfl⟩ := consistent.findByToken?_iff.1 found
    exact Option.some.inj (known.symm.trans (consistent.token_iff.2 ⟨s, stored, rfl⟩))

/-- What is found by the token is this session. -/
theorem findByToken?_eq (h : t₀.Hosts token id t) : t.findByToken? token = t.find? id := by
  cases stored : t.find? id with
  | some s => exact h.consistent.findByToken?_iff.2 ⟨h.consistent.session_id stored ▸ stored, h.named stored⟩
  | none =>
    cases known : t.tokens.get? token with
    | none => simp only [findByToken?, known, Option.bind_none]
    | some other => simp only [findByToken?, known, Option.bind_some, h.only known, stored]

theorem ended (h : t₀.Hosts token id t) {s' : Session} (stored : t.find? id = some s) (same : s'.id = s.id)
    (token' : s'.token = s.token) (total : s'.total = s.total) : t₀.Hosts token id (t.ended id s') where
  consistent := h.consistent.ended stored same token' total
  spares := h.spares.ended s'
  named := by
    intro r stored'
    obtain ⟨-, rfl⟩ | ⟨ne, -⟩ := find?_ended_eq_some.1 stored'
    · rw [token', h.named stored]
    · exact absurd rfl ne
  only := h.only

theorem removed (h : t₀.Hosts token id t) (stored : t.find? id = some s) : t₀.Hosts token id (t.removed id s) where
  consistent := h.consistent.removed stored
  spares := h.spares.removed (h.consistent.token_iff.2 ⟨s, stored, rfl⟩)
  named := fun stored' => absurd rfl (find?_removed_eq_some.1 stored').1
  only := by
    intro other known
    change (t.tokens.erase s.token).get? token = some other at known
    rw [Table.get?_erase, if_neg] at known
    · exact h.only known
    · intro same
      rw [if_pos same] at known
      cases known

theorem answered (h : t₀.Hosts token id t) (a? : Option Answer) {answers : Table Int Answer} (own : t₀.owns id k = true)
    (held : t.slots.get? k = some slot) (of_slot : ∀ a ∈ a?, a.slot = k)
    (written : ∀ j, answers.get? j = if j = k then a? else t.answers.get? j) : t₀.Hosts token id { t with answers := answers } where
  consistent := h.consistent.answered held of_slot written
  spares := h.spares.answered a? own written
  named := h.named
  only := h.only

/-- A slot that was one of the session still is, if it is there. -/
theorem session_eq (h : t₀.Hosts token id t) (own : t₀.owns id k = true) (held : t.slots.get? k = some slot) : slot.session = id := by
  obtain ⟨slot', held', rfl⟩ := owns_iff.1 own
  obtain rfl := Option.some.inj ((h.spares.slot held).symm.trans held')
  rfl

/-- Slots of the session were always its own. -/
theorem owns (h : t₀.Hosts token id t) (listed : slot ∈ t.slotsOf id) : t₀.owns id slot.id = true := by
  obtain ⟨held, own⟩ := h.consistent.mem_slotsOf_iff.1 listed
  exact owns_iff.2 ⟨slot, h.spares.slot held, own⟩

/-- **A session that is gone has left no trace**: tables that have come from those with a new session, and in which only this
session was touched, are those from before it was opened as soon as they do not hold it any more; only the counters have gone on. -/
theorem eq_of_gone (consistent : t.Consistent) {terms : Terms} {drawn : List Drawn}
    (h : (t.opened terms drawn).Hosts token (t.lastSession + 1) u) (gone : u.find? (t.lastSession + 1) = none) :
    u = { t with lastSession := t.lastSession + 1, lastSlot := t.lastSlot + drawn.length } := by
  have find : ∀ id, u.find? id = t.find? id := by
    intro id
    by_cases new : id = t.lastSession + 1
    · rw [new, gone, consistent.find?_next]
    · rw [h.spares.session new, find?_opened, if_neg new]
  -- nothing that is left refers to the session
  have other : ∀ {k slot}, u.slots.get? k = some slot → slot.session ≠ t.lastSession + 1 := by
    intro k slot held own
    obtain ⟨s, stored⟩ := h.consistent.slot_session held
    rw [own, gone] at stored
    cases stored
  have tokens : u.tokens = t.tokens := by
    refine Table.ext_get? fun name => Option.ext fun id => ?_
    rw [h.consistent.token_iff, consistent.token_iff, find]
  have slots : u.slots = t.slots := by
    refine Table.ext_get? fun k => Option.ext fun slot => ⟨fun held => ?_, fun held => ?_⟩
    · obtain ⟨listed, -⟩ | before := consistent.get?_slots_opened.1 (h.spares.slot held)
      · exact absurd (bounds_of_mem_slotsFor listed).1 (other held)
      · exact before
    · exact h.spares.slot_kept (consistent.get?_slots_opened.2 (.inr held)) (consistent.session_ne_next held)
  have answers : u.answers = t.answers := by
    refine Table.ext_get? fun k => ?_
    cases owned : (t.opened terms drawn).owns (t.lastSession + 1) k with
    | false => exact h.spares.answer owned
    | true =>
      obtain ⟨slot, held, own⟩ := owns_iff.1 owned
      have now : u.answers.get? k = none := by
        refine Option.eq_none_iff_forall_ne_some.2 fun a given => ?_
        obtain ⟨slot', held'⟩ := h.consistent.answer_held given
        obtain rfl := Option.some.inj (held.symm.trans (h.spares.slot held'))
        exact other held' own
      have before : t.answers.get? k = none := by
        refine Option.eq_none_iff_forall_ne_some.2 fun a given => ?_
        obtain ⟨slot', held'⟩ := consistent.answer_held given
        obtain rfl := Option.some.inj (held.symm.trans (consistent.get?_slots_opened.2 (.inr held')))
        exact consistent.session_ne_next held' own
      rw [now, before]
  have sessions : u.sessions = t.sessions := Table.ext_get? find
  calc u = ⟨u.lastSession, u.lastSlot, u.sessions, u.tokens, u.slots, u.answers⟩ := rfl
    _ = _ := by rw [h.spares.lastSession, h.spares.lastSlot, sessions, tokens, slots, answers]; rfl

end Hosts

/-- Both hold the session `id` alike, with its slots and their answers. -/
structure Shares (id : Int) (t u : Tables) : Prop where
  session : t.find? id = u.find? id
  slots : t.slotsOf id = u.slotsOf id
  answer : ∀ {slot}, slot ∈ t.slotsOf id → t.answers.get? slot.id = u.answers.get? slot.id

namespace Shares

theorem answersOf_eq (h : t.Shares id u) : t.answersOf id = u.answersOf id := by
  unfold answersOf sheet
  rw [← h.slots]
  exact List.filterMap_congr fun slot listed => h.answer (mem_sortBy.1 listed)

theorem gradesOf_eq (h : t.Shares id u) : t.gradesOf id = u.gradesOf id := by
  unfold gradesOf
  rw [← h.slots]
  exact List.filterMap_congr fun slot listed => by rw [h.answer listed]

theorem ended (h : t.Shares id u) (s : Session) : (t.ended id s).Shares id (u.ended id s) where
  session := by rw [find?_ended, find?_ended, if_pos rfl, if_pos rfl]
  slots := h.slots
  answer := h.answer

theorem removed (consistent : (t.removed id s).Consistent) (consistent' : (u.removed id s).Consistent) :
    (t.removed id s).Shares id (u.removed id s) := by
  have gone : ∀ t : Tables, (t.removed id s).find? id = none := fun t => by rw [find?_removed, if_pos rfl]
  have none : (t.removed id s).slotsOf id = [] := consistent.slotsOf_eq_nil (gone t)
  constructor
  case session => rw [gone, gone]
  case slots => rw [none, consistent'.slotsOf_eq_nil (gone u)]
  case answer =>
    intro slot listed
    rw [none] at listed
    cases listed

theorem answered (h : t.Shares id u) (a? : Option Answer) {answers answers' : Table Int Answer}
    (written : ∀ j, answers.get? j = if j = k then a? else t.answers.get? j)
    (written' : ∀ j, answers'.get? j = if j = k then a? else u.answers.get? j) :
    Shares id { t with answers := answers } { u with answers := answers' } where
  session := h.session
  slots := h.slots
  answer := by
    intro slot listed
    show answers.get? slot.id = answers'.get? slot.id
    rw [written, written', h.answer listed]

/-- Both have the slot, or neither has it. -/
theorem slot_eq (h : t.Shares id u) (left : t₀.Hosts token id t) (right : u₀.Hosts token id u) (own : t₀.owns id k = true)
    (own' : u₀.owns id k = true) : t.slots.get? k = u.slots.get? k := by
  apply Option.ext
  intro slot
  constructor
  · intro held
    have listed : slot ∈ t.slotsOf id := mem_slotsOf.2 ⟨left.session_eq own held, k, held⟩
    rw [h.slots, right.consistent.mem_slotsOf_iff, left.consistent.slot_id held] at listed
    exact listed.1
  · intro held
    have listed : slot ∈ u.slotsOf id := mem_slotsOf.2 ⟨right.session_eq own' held, k, held⟩
    rw [← h.slots, left.consistent.mem_slotsOf_iff, right.consistent.slot_id held] at listed
    exact listed.1

/-- Both take an answer to a slot, or neither does. -/
theorem takesAnswer_eq (h : t.Shares id u) (left : t₀.Hosts token id t) (right : u₀.Hosts token id u) (own : t₀.owns id k = true)
    (own' : u₀.owns id k = true) (now : Instant) : t.takesAnswer k now = u.takesAnswer k now := by
  unfold takesAnswer
  rw [← h.slot_eq left right own own']
  cases held : t.slots.get? k with
  | none => rfl
  | some slot => simp only [Option.bind_some, left.session_eq own held, h.session]

end Shares

/-- The tables `t` and `u` have come from `t₀` and `u₀`, where only the session `id` was touched, and hold it alike. -/
structure Twins (token : String) (id : Int) (t₀ u₀ t u : Tables) : Prop where
  left : t₀.Hosts token id t
  right : u₀.Hosts token id u
  shares : t.Shares id u

namespace Twins

/-- A slot of the session belonged to it in both. -/
theorem owns (h : Twins token id t₀ u₀ t u) (listed : slot ∈ t.slotsOf id) : t₀.owns id slot.id = true ∧ u₀.owns id slot.id = true :=
  ⟨h.left.owns listed, h.right.owns (h.shares.slots ▸ listed)⟩

theorem findByToken?_eq (h : Twins token id t₀ u₀ t u) : t.findByToken? token = u.findByToken? token := by
  rw [h.left.findByToken?_eq, h.right.findByToken?_eq, h.shares.session]

theorem ended (h : Twins token id t₀ u₀ t u) {s' : Session} (stored : t.find? id = some s) (same : s'.id = s.id)
    (token' : s'.token = s.token) (total : s'.total = s.total) : Twins token id t₀ u₀ (t.ended id s') (u.ended id s') where
  left := h.left.ended stored same token' total
  right := h.right.ended (h.shares.session ▸ stored) same token' total
  shares := h.shares.ended s'

theorem markTimedOut (h : Twins token id t₀ u₀ t u) (now : Instant) :
    (t.markTimedOut id now).1 = (u.markTimedOut id now).1 ∧
      Twins token id t₀ u₀ (t.markTimedOut id now).2 (u.markTimedOut id now).2 := by
  unfold Tables.markTimedOut
  rw [← h.shares.session]
  cases stored : t.find? id with
  | none => exact ⟨rfl, h⟩
  | some s =>
    dsimp only
    split
    · exact ⟨rfl, h.ended stored rfl rfl rfl⟩
    · exact ⟨rfl, h⟩

theorem complete (h : Twins token id t₀ u₀ t u) (now : Instant) :
    (t.complete id now).1 = (u.complete id now).1 ∧ Twins token id t₀ u₀ (t.complete id now).2 (u.complete id now).2 := by
  unfold Tables.complete
  rw [← h.shares.session, ← h.shares.gradesOf_eq]
  cases stored : t.find? id with
  | none => exact ⟨rfl, h⟩
  | some s =>
    dsimp only
    split
    · exact ⟨rfl, h.ended stored rfl rfl rfl⟩
    · exact ⟨rfl, h⟩

theorem deleteOngoing (h : Twins token id t₀ u₀ t u) :
    (t.deleteOngoing id).1 = (u.deleteOngoing id).1 ∧ Twins token id t₀ u₀ (t.deleteOngoing id).2 (u.deleteOngoing id).2 := by
  unfold Tables.deleteOngoing
  rw [← h.shares.session]
  cases stored : t.find? id with
  | none => exact ⟨rfl, h⟩
  | some s =>
    dsimp only
    split
    · have left := h.left.removed stored
      have right := h.right.removed (h.shares.session ▸ stored)
      exact ⟨rfl, left, right, .removed left.consistent right.consistent⟩
    · exact ⟨rfl, h⟩

theorem answered (h : Twins token id t₀ u₀ t u) (a? : Option Answer) {answers answers' : Table Int Answer} {now : Instant}
    (own : t₀.owns id k = true ∧ u₀.owns id k = true) (takes : t.takesAnswer k now = true) (of_slot : ∀ a ∈ a?, a.slot = k)
    (written : ∀ j, answers.get? j = if j = k then a? else t.answers.get? j)
    (written' : ∀ j, answers'.get? j = if j = k then a? else u.answers.get? j) :
    Twins token id t₀ u₀ { t with answers := answers } { u with answers := answers' } := by
  obtain ⟨slot, -, held, -⟩ := takesAnswer_iff.1 takes
  have held' := held
  rw [h.shares.slot_eq h.left h.right own.1 own.2] at held'
  exact ⟨h.left.answered a? own.1 held of_slot written, h.right.answered a? own.2 held' of_slot written', h.shares.answered a? written written'⟩

theorem record (h : Twins token id t₀ u₀ t u) {a : Answer} (own : t₀.owns id a.slot = true ∧ u₀.owns id a.slot = true) :
    (t.record a).1 = (u.record a).1 ∧ Twins token id t₀ u₀ (t.record a).2 (u.record a).2 := by
  unfold Tables.record
  rw [← h.shares.takesAnswer_eq h.left h.right own.1 own.2]
  split
  · rename_i takes
    refine ⟨rfl, h.answered (some a) own takes ?_ (fun j => Table.get?_insert _ _ _ _) fun j => Table.get?_insert _ _ _ _⟩
    rintro _ ⟨⟩
    rfl
  · exact ⟨rfl, h⟩

theorem clear (h : Twins token id t₀ u₀ t u) (own : t₀.owns id k = true ∧ u₀.owns id k = true) (now : Instant) :
    (t.clear k now).1 = (u.clear k now).1 ∧ Twins token id t₀ u₀ (t.clear k now).2 (u.clear k now).2 := by
  unfold Tables.clear
  rw [← h.shares.takesAnswer_eq h.left h.right own.1 own.2]
  split
  · rename_i takes
    obtain ⟨slot, -, held, -⟩ := takesAnswer_iff.1 takes
    have listed : slot ∈ t.slotsOf id := mem_slotsOf.2 ⟨h.left.session_eq own.1 held, k, held⟩
    have same : t.answers.get? k = u.answers.get? k := h.left.consistent.slot_id held ▸ h.shares.answer listed
    unfold Table.contains
    rw [← same]
    split
    · exact ⟨rfl, h.answered none own takes (by simp) (fun j => Table.get?_erase _ _ _) fun j => Table.get?_erase _ _ _⟩
    · exact ⟨rfl, h⟩
  · exact ⟨rfl, h⟩

end Twins

end Proctor.Tables
