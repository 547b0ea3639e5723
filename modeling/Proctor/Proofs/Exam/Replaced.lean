import Proctor.Proofs.Exam.Answering

/-!
# Slots whose questions have been replaced

A slot is tagged with the kind that its question had when it was drawn. When another question takes the place of this one in the catalog, the
slot still has a question (`World.Supplied`), but perhaps not one of its kind. A sheet shows the slot with its kind and with the
content of the question that it has now (`shows_of_questions`). Whether the two kinds are the same decides if the slot can be
answered: if not, any answer is an internal error, and else none is (`run_submit_internal_iff`).
-/

set_option autoImplicit false

namespace Proctor

namespace World

/-- Every slot has a question in the catalog, and the catalog finds each question by its own id. -/
structure Supplied (w : World) : Prop where
  keyed : w.catalog.Keyed
  kept : ∀ {k slot}, w.tables.slots.get? k = some slot → ∃ q, w.catalog.get? slot.question = some q

variable {w u : World}

theorem Supplied.of_stocks (supplied : w.Supplied) (wu : w.Stocks u) : u.Supplied where
  keyed := by
    rw [wu.catalog]
    exact supplied.keyed
  kept := by
    intro k slot held
    rw [wu.catalog]
    obtain before | ⟨q, offered, -⟩ := wu.slot supplied.keyed held
    · exact supplied.kept before
    · exact ⟨q, offered⟩

/-- A question that is put in takes at most the place of another one. -/
theorem Supplied.insert (supplied : w.Supplied) (q : Question) : (w.insert q).Supplied where
  keyed := supplied.keyed.insert q
  kept := by
    intro k slot held
    obtain ⟨old, kept⟩ := supplied.kept held
    simp only [catalog_insert, Catalog.get?_insert]
    split
    · exact ⟨q, rfl⟩
    · exact ⟨old, kept⟩

/-- The slots of a session with questions, of whatever kinds. -/
theorem Supplied.questionOf (supplied : w.Supplied) {id : Int} {slot : Slot} (listed : slot ∈ (w.joined id).slots) :
    ∃ q, w.catalog.get? slot.question = some q ∧ (w.joined id).questionOf slot = .ok q := by
  obtain ⟨-, k, held⟩ := Tables.mem_slotsOf.1 (mem_sortBy.1 listed)
  obtain ⟨q, kept⟩ := supplied.kept held
  exact ⟨q, kept, Exam.questionOf_of_get? supplied.keyed listed kept⟩

end World

namespace Exam

open Call

variable {w u : World} {token : String} {sequence : Int} {s : Session} {slot : Slot} {q : Question}

/-! ## Answers -/

/-- A question of another kind does not look at the answer. -/
theorem run_submit_of_mismatch (valid : w.tables.Valid) (opened : w.OpenSlot token sequence s slot)
    (asked : w.catalog.get? slot.question = some q) (other : q.kind ≠ slot.kind) (payload : Json.Value) :
    (submit token sequence payload).run World.handle w = (.error (.internal (.kindMismatch q.id q.kind slot.kind)), w) := by
  have unfit : q.detailsFor slot.kind = .error (.internal (.kindMismatch q.id q.kind slot.kind)) := if_neg other
  simp only [submit, run_bind, run_openSlot_of_openSlot valid opened, ask, run, World.handle, asked, unfit, Call.ofExcept]

/-- **An answer is an internal error** just if its slot has a question of another kind. -/
theorem run_submit_internal_iff (valid : w.tables.Valid) (opened : w.OpenSlot token sequence s slot)
    (asked : w.catalog.get? slot.question = some q) (payload : Json.Value) (fault : InternalFault) (u : World) :
    (submit token sequence payload).run World.handle w = (.error (.internal fault), u) ↔
      q.kind ≠ slot.kind ∧ fault = .kindMismatch q.id q.kind slot.kind ∧ u = w := by
  constructor
  · intro failed
    by_cases kind : q.kind = slot.kind
    · cases read : q.details.accept payload with
      | ok value =>
        have taken := run_submit_of_accepts valid ⟨opened, asked, read⟩ kind
        cases failed.symm.trans taken
      | error unread =>
        have refused := run_submit_of_unreadable valid (opened.findByToken? valid.consistent) opened.isOpen
          (opened.slotAt? valid.consistent) asked (Question.detailsFor_eq_ok_iff.2 ⟨kind, rfl⟩) read
        cases failed.symm.trans refused
    · cases failed.symm.trans (run_submit_of_mismatch valid opened asked kind payload)
      exact ⟨kind, rfl, rfl⟩
  · rintro ⟨other, rfl, rfl⟩
    exact run_submit_of_mismatch valid opened asked other payload

/-! ## Sheets -/

/-- There is no sheet of a session that is not open. -/
theorem run_questions_of_closed (valid : w.tables.Valid) (found : w.tables.findByToken? token = some s)
    (closed : s.isOpen w.now = false) : ∃ e, (questions token).run World.handle w = (.error e, w.lookedAt token) := by
  have finished := Session.status_asOf_ne closed
  cases fault : closedFault? (s.asOf w.now) with
  | none =>
    have ensured : ensureOngoing (s.asOf w.now) = .ok () := by rw [ensureOngoing, fault]
    exact absurd (status_of_ensureOngoing ensured) finished
  | some e =>
    refine ⟨e, ?_⟩
    simp only [questions, run_bind, run_look valid found, ensureOngoing, fault, Call.ofExcept, run]

/-- **There is a sheet** of an open session, with an item for each slot. -/
theorem exists_sheet (valid : w.tables.Valid) (supplied : w.Supplied) (found : w.tables.findByToken? token = some s)
    (isOpen : s.isOpen w.now = true) : ∃ sheet, (questions token).run World.handle w = (.ok sheet, w) ∧
      (w.joined s.id).slots.mapM (w.joined s.id).sheetItem = .ok sheet.items := by
  obtain ⟨stored, rfl⟩ := valid.consistent.findByToken?_iff.1 found
  have each : ∀ slot ∈ (w.joined s.id).slots, ∃ item, (w.joined s.id).sheetItem slot = .ok item := by
    intro slot listed
    obtain ⟨q, -, told⟩ := supplied.questionOf listed
    rw [Joined.sheetItem, told]
    exact ⟨_, rfl⟩
  obtain ⟨items, made⟩ := exists_mapM_eq_ok each
  obtain ⟨left, told⟩ := run_questions_of_made valid stored isOpen made
  exact ⟨_, told, made⟩

/-- A sheet is that of an open session. -/
theorem isOpen_of_questions (valid : w.tables.Valid) {sheet : Sheet}
    (given : (questions token).run World.handle w = (.ok sheet, u)) :
    ∃ s, w.tables.findByToken? token = some s ∧ s.isOpen w.now = true := by
  cases found : w.tables.findByToken? token with
  | none =>
    have refused : (questions token).run World.handle w = (.error (.notFound .session), w) := by
      rw [questions, run_bind, run_look_of_none found]
    cases given.symm.trans refused
  | some s =>
    refine ⟨s, rfl, ?_⟩
    by_contra closed
    obtain ⟨e, refused⟩ := run_questions_of_closed valid found (Bool.eq_false_iff.2 closed)
    cases given.symm.trans refused

/-- **What a sheet shows**: each slot of the session, which may be answered, with its kind, and with the content of the question that it has now. -/
theorem shows_of_questions (valid : w.tables.Valid) (supplied : w.Supplied) {sheet : Sheet}
    (given : (questions token).run World.handle w = (.ok sheet, u)) :
    u = w ∧ ∃ s, w.tables.findByToken? token = some s ∧ s.isOpen w.now = true ∧
      sheet.items.map (·.sequence) = (List.range s.total.toNat).map (fun k : Nat => (k : Int) + 1) ∧
      ∀ item ∈ sheet.items, ∃ slot q, w.OpenSlot token item.sequence s slot ∧ w.catalog.get? slot.question = some q ∧
        item.kind = slot.kind ∧ item.content = q.content := by
  obtain ⟨s, found, isOpen⟩ := isOpen_of_questions valid given
  obtain ⟨sheet', told, made⟩ := exists_sheet valid supplied found isOpen
  cases given.symm.trans told
  have consistent := valid.consistent
  obtain ⟨stored, named⟩ := consistent.findByToken?_iff.1 found
  obtain ⟨ongoing, inTime⟩ := Session.isOpen_iff.1 isOpen
  have slots : (w.joined s.id).slots = w.tables.slotsOf s.id := consistent.sheet_eq stored
  refine ⟨rfl, s, found, isOpen, ?_, fun item listed => ?_⟩
  · rw [map_eq_of_mapM (fun _ _ => Joined.sequence_of_sheetItem) made, slots, consistent.sequences stored]
  · obtain ⟨slot, own, made⟩ := exists_of_mem_mapM made listed
    obtain ⟨q, kept, told⟩ := supplied.questionOf own
    obtain ⟨held, here⟩ := consistent.mem_slotsOf_iff.1 (slots ▸ own)
    obtain ⟨q', told', pictured⟩ := Joined.pictures_of_sheetItem made
    obtain rfl := Except.ok.inj (told.symm.trans told')
    refine ⟨slot, q, ⟨⟨stored, named, held, here, ?_⟩, ongoing, inTime⟩, kept, ?_, ?_⟩
    · exact (congrArg Outline.sequence pictured).symm
    · exact congrArg Outline.kind pictured
    · exact congrArg Outline.content pictured

end Exam

end Proctor
