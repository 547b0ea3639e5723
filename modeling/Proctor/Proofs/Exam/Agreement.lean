import Proctor.Proofs.Exam.Noticed
import Proctor.Proofs.Exam.Review
import Proctor.Proofs.Store.Suited
import Proctor.Proofs.Wire.Items

/-!
# What the views of a session have in common

A session can be looked at in three ways: `get` counts its answers, `questions` lists its items while it is
open, and `detail` lists them with their solutions when it has ended. They read the tables in different ways.
`World.Lists` says what a list of items owes to the tables, and `run_get`, `run_questions` and `run_detail` that all
three go by the same rows.
-/

set_option autoImplicit false

namespace Proctor

namespace Tables

variable {t : Tables} {id : Int} {slot : Slot}

/-- The rows of answers to the slots of a session. -/
def answerRows (t : Tables) (id : Int) : List Answer := t.answers.values.filter fun a => t.owns id a.slot

theorem length_answersOf (t : Tables) (id : Int) : (t.answersOf id).length = t.answerCount id := by
  rw [answersOf, List.length_filterMap_eq_countP, sheet, (sortBy_perm _ _).countP_eq, answerCount, ← List.countP_eq_length_filter]
  rfl

namespace Consistent

/-- The answers that are read by the slots of a session are all rows of answers to them. -/
theorem perm_answersOf (h : t.Consistent) (id : Int) : (t.answersOf id).Perm (t.answerRows id) := by
  have ids : ((t.sheet id).map (·.id)).Nodup := by
    have slots : (t.slots.values.map (·.id)).Nodup := Table.nodup_map_values fun _ _ => h.slot_id
    exact ((sortBy_perm _ _).map _).nodup_iff.2 (slots.sublist (List.filter_sublist.map _))
  have answers : (t.answersOf id).Nodup := by
    refine List.Pairwise.filterMap _ (fun slot slot' ne a given a' given' same => ne ?_) (List.pairwise_map.1 ids)
    rw [← h.answer_slot given, same, h.answer_slot given']
  have rows : (t.answerRows id).Nodup := by
    have slots : (t.answers.values.map (·.slot)).Nodup := Table.nodup_map_values fun _ _ => h.answer_slot
    exact (List.Nodup.of_map _ slots).filter _
  refine (List.perm_ext_iff_of_nodup answers rows).2 fun a => ?_
  simp only [mem_answersOf, answerRows, List.mem_filter, Table.mem_values, owns_iff]
  constructor
  · rintro ⟨slot, listed, given⟩
    obtain ⟨held, own⟩ := h.mem_slotsOf_iff.1 listed
    exact ⟨⟨_, given⟩, slot, (h.answer_slot given).symm ▸ held, own⟩
  · rintro ⟨⟨k, given⟩, slot, held, own⟩
    rw [← h.answer_slot given, ← h.slot_id held] at given
    rw [← h.slot_id held] at held
    exact ⟨slot, h.mem_slotsOf_iff.2 ⟨held, own⟩, given⟩

end Consistent

end Tables

namespace Exam

/-- What sheets and reviews tell alike of a slot. -/
structure Outline where
  sequence : Int
  kind : Kind
  content : Content
  answered : Bool

def SheetItem.outline (item : SheetItem) : Outline := ⟨item.sequence, item.kind, item.content, item.answer.isSome⟩

def ReviewItem.outline (item : ReviewItem) : Outline := ⟨item.sequence, item.kind, item.content, item.answer.isSome⟩

namespace Joined

variable {j : Joined} {slot : Slot}

/-- The outline is that of the slot, as it was joined. -/
def Pictures (j : Joined) (slot : Slot) (e : Outline) : Prop :=
  ∃ q, j.questionOf slot = .ok q ∧ e = ⟨slot.sequence, slot.kind, q.content, (j.answerOf? slot).isSome⟩

theorem pictures_of_sheetItem {item : SheetItem} (made : j.sheetItem slot = .ok item) : j.Pictures slot item.outline := by
  unfold sheetItem at made
  cases found : j.questionOf slot with
  | error e =>
    rw [found] at made
    cases made
  | ok q =>
    rw [found] at made
    cases made
    exact ⟨q, found, by simp [SheetItem.outline]⟩

theorem pictures_of_reviewItem {item : ReviewItem} (made : j.reviewItem slot = .ok item) : j.Pictures slot item.outline := by
  obtain ⟨q, found, -, rfl⟩ := exists_of_reviewItem made
  exact ⟨q, found, rfl⟩

end Joined

theorem exists_of_mem_mapM {α β : Type} {f : α → Except Error β} {l : List α} {bs : List β} (h : l.mapM f = .ok bs) {b : β}
    (made : b ∈ bs) : ∃ a ∈ l, f a = .ok b := by
  induction l generalizing bs with
  | nil =>
    cases h
    cases made
  | cons a l ih =>
    rw [List.mapM_cons] at h
    cases first : f a with
    | error e =>
      rw [first] at h
      cases h
    | ok c =>
      cases rest : l.mapM f with
      | error e =>
        rw [first, rest] at h
        cases h
      | ok others =>
        rw [first, rest] at h
        cases h
        obtain rfl | later := List.mem_cons.1 made
        · exact ⟨a, List.mem_cons_self, first⟩
        · obtain ⟨a', listed, made'⟩ := ih rest later
          exact ⟨a', List.mem_cons_of_mem a listed, made'⟩

end Exam

namespace World

open Exam

variable {w : World} {s : Session}

/-- The outlines are those of the slots of the session by their numbers, each with its question, and as many are answered as there
are rows of answers. -/
structure Lists (w : World) (s : Session) (outlines : List Outline) : Prop where
  sequences : outlines.map (·.sequence) = (List.range s.total.toNat).map fun k : Nat => (k : Int) + 1
  question : ∀ e ∈ outlines, ∃ slot q, w.tables.slotAt? s.id e.sequence = some slot ∧ w.catalog.get? slot.question = some q ∧
    e.content = q.content ∧ e.kind = q.kind ∧ e.answered = w.tables.answers.contains slot.id
  answered : outlines.countP (·.answered) = (w.tables.answerRows s.id).length

/-- What there is to an item of a review, when answers are of the kinds of their slots. -/
theorem isSome_shown (consistent : w.tables.Consistent) (suited : w.tables.Suited) {id : Int} {items : List ReviewItem}
    (made : (w.joined id).slots.mapM (w.joined id).reviewItem = .ok items) :
    ∀ item ∈ items, item.shown.isSome = item.answer.isSome := by
  intro item here
  obtain ⟨slot, listed, made⟩ := exists_of_mem_mapM made here
  obtain ⟨q, -, kind, rfl⟩ := Joined.exists_of_reviewItem made
  have own : slot ∈ w.tables.slotsOf id := mem_sortBy.1 listed
  have given : (w.joined id).answerOf? slot = w.tables.answers.get? slot.id := consistent.find?_answersOf own
  dsimp only
  rw [given]
  cases answer : w.tables.answers.get? slot.id with
  | none => rfl
  | some a =>
    have same := suited answer (consistent.mem_slotsOf_iff.1 own).1
    exact Details.isSome_present_iff.2 (same.trans kind.symm)

/-- What is made of the slots of a session, one by one. -/
theorem lists_of_mapM {ι : Type} {f : Slot → Except Error ι} {outline : ι → Outline} {items : List ι} (valid : w.tables.Valid)
    (stocked : w.Stocked) (stored : w.tables.find? s.id = some s)
    (each : ∀ slot item, f slot = .ok item → (w.joined s.id).Pictures slot (outline item))
    (made : (w.joined s.id).slots.mapM f = .ok items) : w.Lists s (items.map outline) := by
  have consistent := valid.consistent
  have slots : (w.joined s.id).slots = w.tables.slotsOf s.id := consistent.sheet_eq stored
  have answerOf? : ∀ slot ∈ w.tables.slotsOf s.id, (w.joined s.id).answerOf? slot = w.tables.answers.get? slot.id :=
    fun slot listed => consistent.find?_answersOf listed
  constructor
  · have numbers : (items.map outline).map (·.sequence) = (w.joined s.id).slots.map (·.sequence) := by
      rw [List.map_map]
      refine map_eq_of_mapM (fun slot item made => ?_) made
      obtain ⟨q, -, same⟩ := each slot item made
      exact congrArg Outline.sequence same
    rw [numbers, slots, consistent.sequences stored]
  · intro e listed
    obtain ⟨item, made', rfl⟩ := List.mem_map.1 listed
    obtain ⟨slot, listed, made'⟩ := exists_of_mem_mapM made made'
    obtain ⟨q, found, same⟩ := each slot item made'
    have own := slots ▸ listed
    obtain ⟨held, -⟩ := consistent.mem_slotsOf_iff.1 own
    obtain ⟨q', there, kind⟩ := stocked.offered held
    obtain rfl := Except.ok.inj (found.symm.trans (questionOf_of_get? stocked.keyed listed there))
    rw [same]
    exact ⟨slot, q, (consistent.slotAt?_iff stored).2 ⟨own, rfl⟩, there, rfl, kind.symm, congrArg Option.isSome (answerOf? slot own)⟩
  · have flags : (items.map outline).map (·.answered) = (w.tables.slotsOf s.id).map fun slot => w.tables.answers.contains slot.id := by
      rw [List.map_map, map_eq_of_mapM (k := fun slot => ((w.joined s.id).answerOf? slot).isSome) ?_ made, slots]
      · exact List.map_congr_left fun slot listed => congrArg Option.isSome (answerOf? slot listed)
      · intro slot item made
        obtain ⟨q, -, same⟩ := each slot item made
        exact congrArg Outline.answered same
    have counted := congrArg (List.count true) flags
    rw [List.count_eq_countP, List.count_eq_countP, List.countP_map, List.countP_map] at counted
    rw [← (consistent.perm_answersOf s.id).length_eq, Tables.length_answersOf, Tables.answerCount, ← List.countP_eq_length_filter]
    simpa [Function.comp_def] using counted

/-- To look at a session does not touch its slots and its answers. -/
theorem joined_lookedAt (w : World) (token : String) (id : Int) : (w.lookedAt token).joined id = w.joined id := by
  unfold lookedAt Tables.lookedAt
  split
  · split <;> rfl
  · rfl

theorem Stocked.lookedAt (stocked : w.Stocked) (token : String) : (w.lookedAt token).Stocked := by
  refine stocked.of_stocks (.of_slots rfl fun {k slot} held => ?_)
  unfold World.lookedAt Tables.lookedAt at held
  split at held
  · split at held <;> exact held
  · exact held

end World

namespace Exam

open Call

variable {w : World} {s : Session}

theorem run_join (w : World) (id : Int) : (join id).run World.handle w = (.ok (w.joined id), w) := rfl

theorem run_remaining (w : World) (s : Session) : ∃ left, (remaining s).run World.handle w = (.ok left, w) := by
  unfold remaining
  split
  · exact ⟨0, rfl⟩
  · exact ⟨_, rfl⟩

/-- **The state of a session** tells how many rows of answers there are. -/
theorem run_get (valid : w.tables.Valid) (stored : w.tables.find? s.id = some s) :
    ∃ shot, (get s.token).run World.handle w = (.ok shot, w.lookedAt s.token) ∧ shot.session = s.asOf w.now ∧
      shot.answered = (w.tables.answerRows s.id).length := by
  have found := valid.consistent.findByToken?_iff.2 ⟨stored, rfl⟩
  obtain ⟨left, told⟩ := run_remaining (w.lookedAt s.token) (s.asOf w.now)
  have answers : (w.lookedAt s.token).tables.answersOf (s.asOf w.now).id = w.tables.answersOf s.id := by
    rw [s.id_asOf]
    exact congrArg Joined.answers (w.joined_lookedAt s.token s.id)
  refine ⟨⟨s.asOf w.now, _, left⟩, ?_, rfl, rfl⟩
  simp only [get, run_bind, run_look valid found, ask, run, World.handle, answers, told,
    (valid.consistent.perm_answersOf s.id).length_eq]
  rfl

/-- There is a sheet of an open session if there is an item for each of its slots. -/
theorem run_questions_of_made (valid : w.tables.Valid) (stored : w.tables.find? s.id = some s) (isOpen : s.isOpen w.now = true)
    {items : List SheetItem} (made : (w.joined s.id).slots.mapM (w.joined s.id).sheetItem = .ok items) :
    ∃ left, (questions s.token).run World.handle w = (.ok ⟨s.token, s.deadline, left, items⟩, w) := by
  have found := valid.consistent.findByToken?_iff.2 ⟨stored, rfl⟩
  obtain ⟨ongoing, inTime⟩ := Session.isOpen_iff.1 isOpen
  have current : s.isExpired w.now = false := Session.isExpired_of_inTime inTime
  obtain ⟨left, told⟩ := run_remaining w s
  have looked := run_look valid found
  rw [Session.asOf_of_not_isExpired current, World.lookedAt_of_not_isExpired found current] at looked
  refine ⟨left, ?_⟩
  simp only [questions, run_bind, looked, ensureOngoing, closedFault?, ongoing, Call.ofExcept, run, run_join, made, told]
  rfl

/-- **The sheet of an open session** lists its slots. -/
theorem run_questions (valid : w.tables.Valid) (stocked : w.Stocked) (stored : w.tables.find? s.id = some s)
    (isOpen : s.isOpen w.now = true) :
    ∃ sheet, (questions s.token).run World.handle w = (.ok sheet, w.lookedAt s.token) ∧
      w.Lists s (sheet.items.map SheetItem.outline) := by
  have found := valid.consistent.findByToken?_iff.2 ⟨stored, rfl⟩
  have current : s.isExpired w.now = false := Session.isExpired_of_inTime (Session.isOpen_iff.1 isOpen).2
  obtain ⟨items, made⟩ := exists_mapM_eq_ok (stocked.whole s.id).sheetItem
  obtain ⟨left, told⟩ := run_questions_of_made valid stored isOpen made
  rw [World.lookedAt_of_not_isExpired found current]
  exact ⟨_, told, World.lists_of_mapM valid stocked stored (fun _ _ => Joined.pictures_of_sheetItem) made⟩

/-- **The review of a session that is not open** lists its slots, and counts its right answers. -/
theorem run_detail (valid : w.tables.Valid) (stocked : w.Stocked) (suited : w.tables.Suited)
    (stored : w.tables.find? s.id = some s) (closed : s.isOpen w.now = false) :
    ∃ r, (detail s.token).run World.handle w = (.ok r, w.lookedAt s.token) ∧ r.session = s.asOf w.now ∧
      w.Lists s (r.items.map ReviewItem.outline) ∧ (∀ item ∈ r.items, item.shown.isSome = item.answer.isSome) ∧
      (s.status = .completed → s.correctCount = some (r.items.countP (·.isCorrect) : Int)) := by
  have found := valid.consistent.findByToken?_iff.2 ⟨stored, rfl⟩
  have looked := run_look valid found
  have valid' := valid.lookedAt s.token w.now
  have stored' : (w.lookedAt s.token).tables.find? (s.asOf w.now).id = some (s.asOf w.now) := by
    rw [s.id_asOf]
    exact valid.find?_lookedAt found
  have finished : (s.asOf w.now).status ≠ .ongoing := Session.status_asOf_ne closed
  obtain ⟨items, shows⟩ := World.exists_shows (stocked.lookedAt s.token) stored' finished
  have made := shows.items
  dsimp only at made
  rw [s.id_asOf, World.joined_lookedAt] at made
  refine ⟨⟨s.asOf w.now, items⟩, ?_, rfl, World.lists_of_mapM valid stocked stored (fun _ _ => Joined.pictures_of_reviewItem) made,
    World.isSome_shown valid.consistent suited made, ?_⟩
  · simp only [detail, run_bind, looked, shows.status valid', if_true, run_join, s.id_asOf, World.joined_lookedAt, made]
    rfl
  · intro completed
    have same : s.asOf w.now = s := Session.asOf_of_not_isExpired (Session.isExpired_of_finished (by simp [completed]) w.now)
    have counted := shows.correctCount_eq valid'
    dsimp only at counted
    rw [same] at counted
    exact counted completed

end Exam

end Proctor
