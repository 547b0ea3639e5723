import Proctor.Proofs.Call.Coupling
import Proctor.Proofs.Question.Keyless
import Proctor.Proofs.Sorting
import Proctor.Proofs.Store.Rows

/-!
# Tables that differ in grades

When two catalogs have the same questions with other keys, grades differ, and with them the scores of
sessions that are completed. `Session.veiled` and `Answer.veiled` leave out just these, and `Tables.Alike`
says that two tables differ in nothing else. An access gives the same in both, up to what is left out
and to keys, and leaves them alike (`World.Alike.handle`).
-/

set_option autoImplicit false

namespace Proctor

/-! ## Rows -/

/-- The session without its score, if it is completed. -/
def Session.veiled (s : Session) : Session :=
  if s.status = .completed then { s with correctCount := none, score := none } else s

/-- The answer without its grade. -/
def Answer.veiled (a : Answer) : Answer := { a with isCorrect := false }

namespace Answer

variable {a b : Answer}

theorem slot_eq_of_veiled (h : a.veiled = b.veiled) : a.slot = b.slot := by
  simpa [veiled] using congrArg Answer.slot h

theorem value_eq_of_veiled (h : a.veiled = b.veiled) : a.value = b.value := by
  simpa [veiled] using congrArg Answer.value h

theorem answeredAt_eq_of_veiled (h : a.veiled = b.veiled) : a.answeredAt = b.answeredAt := by
  simpa [veiled] using congrArg Answer.answeredAt h

end Answer

namespace Session

variable {r s : Session}

@[simp] theorem id_veiled (s : Session) : s.veiled.id = s.id := by
  unfold veiled
  split <;> rfl

@[simp] theorem status_veiled (s : Session) : s.veiled.status = s.status := by
  unfold veiled
  split <;> rfl

@[simp] theorem toTerms_veiled (s : Session) : s.veiled.toTerms = s.toTerms := by
  unfold veiled
  split <;> rfl

theorem veiled_of_ne (open_ : s.status ≠ .completed) : s.veiled = s := if_neg open_

theorem id_eq_of_veiled (h : r.veiled = s.veiled) : r.id = s.id := by
  simpa using congrArg Session.id h

theorem status_eq_of_veiled (h : r.veiled = s.veiled) : r.status = s.status := by
  simpa using congrArg Session.status h

theorem toTerms_eq_of_veiled (h : r.veiled = s.veiled) : r.toTerms = s.toTerms := by
  simpa using congrArg Session.toTerms h

/-- Only sessions that are completed differ. -/
theorem eq_of_veiled (h : r.veiled = s.veiled) (open_ : r.status ≠ .completed) : r = s := by
  rw [← veiled_of_ne open_, h, veiled_of_ne]
  rwa [← status_eq_of_veiled h]

theorem isOngoing_eq_of_veiled (h : r.veiled = s.veiled) : r.isOngoing = s.isOngoing := by
  simp only [isOngoing, status_eq_of_veiled h]

theorem deadline_eq_of_veiled (h : r.veiled = s.veiled) : r.deadline = s.deadline :=
  congrArg Terms.deadline (toTerms_eq_of_veiled h)

theorem isExpired_eq_of_veiled (h : r.veiled = s.veiled) (now : Instant) : r.isExpired now = s.isExpired now := by
  simp only [isExpired, isOngoing_eq_of_veiled h, deadline_eq_of_veiled h]

theorem isOpen_eq_of_veiled (h : r.veiled = s.veiled) (now : Instant) : r.isOpen now = s.isOpen now := by
  simp only [isOpen, isOngoing_eq_of_veiled h, deadline_eq_of_veiled h]

/-- Sessions that are ongoing do not differ. -/
theorem eq_of_veiled_of_isOngoing (h : r.veiled = s.veiled) (ongoing : s.isOngoing = true) : r = s := by
  refine eq_of_veiled h ?_
  rw [status_eq_of_veiled h, isOngoing_iff.1 ongoing]
  decide

theorem veiled_completed (s : Session) (grades grades' : List Bool) (now : Instant) :
    (s.completed grades now).veiled = (s.completed grades' now).veiled := by
  simp only [veiled, completed, if_true]

end Session

/-! ## Tables -/

namespace Tables

/-- Up to grades, and to the scores of sessions that are completed, the tables are the same. -/
structure Alike (t u : Tables) : Prop where
  lastSession : t.lastSession = u.lastSession
  lastSlot : t.lastSlot = u.lastSlot
  tokens : t.tokens = u.tokens
  slots : t.slots = u.slots
  session : ∀ id, (t.find? id).map Session.veiled = (u.find? id).map Session.veiled
  answer : ∀ k, (t.answers.get? k).map Answer.veiled = (u.answers.get? k).map Answer.veiled

variable {t u : Tables} {id k : Int} {s s' : Session}

namespace Alike

theorem refl (t : Tables) : t.Alike t := ⟨rfl, rfl, rfl, rfl, fun _ => rfl, fun _ => rfl⟩

theorem slotsOf_eq (h : t.Alike u) (id : Int) : t.slotsOf id = u.slotsOf id := by
  simp only [slotsOf, h.slots]

theorem sheet_eq (h : t.Alike u) (id : Int) : t.sheet id = u.sheet id := by
  simp only [sheet, h.slotsOf_eq]

/-- A session that is stored in both. -/
theorem rel_find? (h : t.Alike u) (id : Int) : Option.Rel (fun r s : Session => r.veiled = s.veiled) (t.find? id) (u.find? id) :=
  rel_of_map_eq (h.session id)

theorem map_findByToken? (h : t.Alike u) (token : String) :
    (t.findByToken? token).map Session.veiled = (u.findByToken? token).map Session.veiled := by
  unfold findByToken?
  rw [h.tokens]
  cases u.tokens.get? token with
  | none => rfl
  | some id => exact h.session id

theorem map_answersOf (h : t.Alike u) (id : Int) : (t.answersOf id).map Answer.veiled = (u.answersOf id).map Answer.veiled := by
  simp only [answersOf, h.sheet_eq, List.map_filterMap, h.answer]

theorem map_selection (h : t.Alike u) (f : Filter) : (t.selection f).map Session.veiled = (u.selection f).map Session.veiled := by
  have wanted : wants f ∘ Session.veiled = wants f := by
    funext s
    have user : s.veiled.user = s.user := congrArg Terms.user s.toTerms_veiled
    simp only [Function.comp_apply, wants, user, Session.status_veiled]
  have order : ∀ r s : Session, comesBefore r.veiled s.veiled = comesBefore r s := by
    intro r s
    have started : ∀ s : Session, s.veiled.startedAt = s.startedAt := fun s => congrArg Terms.startedAt s.toTerms_veiled
    simp only [comesBefore, started, Session.id_veiled]
  have listed : ∀ t : Tables, (t.selection f).map Session.veiled =
      sortBy comesBefore ((t.sessions.values.map Session.veiled).filter (wants f)) := by
    intro t
    rw [selection, map_sortBy order, List.filter_map, wanted]
  rw [listed, listed, Table.map_values_congr h.session]

theorem map_list (h : t.Alike u) (f : Filter) :
    (t.list f).1.map Session.veiled = (u.list f).1.map Session.veiled ∧ (t.list f).2 = (u.list f).2 := by
  have listed := h.map_selection f
  constructor
  · simp only [list, List.map_take, List.map_drop, listed]
  · show (t.selection f).length = (u.selection f).length
    simpa using congrArg List.length listed

/-- Both take an answer to a slot, or neither does. -/
theorem takesAnswer_eq (h : t.Alike u) (k : Int) (now : Instant) : t.takesAnswer k now = u.takesAnswer k now := by
  unfold takesAnswer
  rw [h.slots]
  cases u.slots.get? k with
  | none => rfl
  | some slot =>
    have session := h.rel_find? slot.session
    simp only [Option.bind_some]
    generalize t.find? slot.session = r? at session
    generalize u.find? slot.session = s? at session
    cases session with
    | none => rfl
    | some same => simp only [Option.any_some, Session.isOpen_eq_of_veiled same]

/-! ### Writes -/

theorem opened (h : t.Alike u) (terms : Terms) (drawn : List Drawn) : (t.opened terms drawn).Alike (u.opened terms drawn) where
  lastSession := by simp only [Tables.opened, h.lastSession]
  lastSlot := by simp only [Tables.opened, h.lastSlot]
  tokens := by simp only [Tables.opened, h.tokens, h.lastSession]
  slots := by simp only [Tables.opened, slotsFor, h.slots, h.lastSession, h.lastSlot]
  session := by
    intro id
    rw [find?_opened, find?_opened, h.lastSession]
    split
    · simp only [opening, h.lastSession]
    · exact h.session id
  answer := h.answer

theorem ended (h : t.Alike u) (same : s.veiled = s'.veiled) : (t.ended id s).Alike (u.ended id s') where
  lastSession := h.lastSession
  lastSlot := h.lastSlot
  tokens := h.tokens
  slots := h.slots
  session := by
    intro other
    rw [find?_ended, find?_ended]
    split
    · exact congrArg some same
    · exact h.session other
  answer := h.answer

theorem removed (h : t.Alike u) (same : s.token = s'.token) : (t.removed id s).Alike (u.removed id s') where
  lastSession := h.lastSession
  lastSlot := h.lastSlot
  tokens := by simp only [Tables.removed, h.tokens, same]
  slots := by simp only [Tables.removed, h.slots]
  session := by
    intro other
    rw [find?_removed, find?_removed]
    split
    · rfl
    · exact h.session other
  answer := by
    intro k
    simp only [Tables.removed, Table.get?_filter, owns, h.slots]
    have given := rel_of_map_eq (h.answer k)
    generalize t.answers.get? k = a? at given
    generalize u.answers.get? k = b? at given
    cases given with
    | none => rfl
    | some same =>
      simp only [Option.filter_some]
      split
      · exact congrArg some same
      · rfl

theorem answered (h : t.Alike u) (a? b? : Option Answer) {answers answers' : Table Int Answer}
    (same : a?.map Answer.veiled = b?.map Answer.veiled) (k : Int) (written : ∀ j, answers.get? j = if j = k then a? else t.answers.get? j)
    (written' : ∀ j, answers'.get? j = if j = k then b? else u.answers.get? j) :
    Alike { t with answers := answers } { u with answers := answers' } where
  lastSession := h.lastSession
  lastSlot := h.lastSlot
  tokens := h.tokens
  slots := h.slots
  session := h.session
  answer := by
    intro j
    show (answers.get? j).map _ = (answers'.get? j).map _
    rw [written, written']
    split
    · exact same
    · exact h.answer j

end Alike

end Tables

/-! ## Worlds -/

/-- The worlds are the same up to the keys of their questions, to grades and to the scores of sessions that are completed. -/
structure World.Alike (v w : World) : Prop where
  tables : v.tables.Alike w.tables
  catalog : v.catalog.Alike w.catalog
  now : v.now = w.now
  quota : v.quota = w.quota

/-- The answers are the same up to keys, grades and scores. -/
def Access.Alike : (q : Access) → q.Answer → q.Answer → Prop
  | .findByToken _, a, b => a.map Session.veiled = b.map Session.veiled
  | .find _, a, b => a.map Session.veiled = b.map Session.veiled
  | .list _, a, b => a.1.map Session.veiled = b.1.map Session.veiled ∧ a.2 = b.2
  | .markTimedOut _ _, a, b => a.veiled = b.veiled
  | .complete _ _, a, b => a.map Session.veiled = b.map Session.veiled
  | .answersOf _, a, b => a.map Answer.veiled = b.map Answer.veiled
  | .record _, a, b => a.map Answer.veiled = b.map Answer.veiled
  | .question _, a, b => a.face = b.face
  | .questions _, a, b => a.map Question.face = b.map Question.face
  | _, a, b => a = b

namespace World.Alike

open Call

variable {v w : World}

/-- What is read is the same, up to keys, grades and scores. -/
theorem read (h : v.Alike w) {q : Access} {a b : q.Answer} (alike : q.Alike a b) :
    Agree q.Alike (.ok a) (.ok b) ∧ v.Alike w :=
  ⟨.ok alike, h⟩

/-- What a write leaves. -/
theorem wrote (h : v.Alike w) {t u : Tables} (alike : t.Alike u) : World.Alike { v with tables := t } { w with tables := u } :=
  { h with tables := alike }

theorem create (h : v.Alike w) (terms : Terms) (drawn : List Drawn) :
    Agree Eq (v.handle (.create terms drawn)).1 (w.handle (.create terms drawn)).1 ∧
      (v.handle (.create terms drawn)).2.Alike (w.handle (.create terms drawn)).2 := by
  have known : v.tables.tokens.contains terms.token = w.tables.tokens.contains terms.token := by rw [h.tables.tokens]
  simp only [handle, Tables.create, known]
  split
  · exact ⟨.error _, h⟩
  split
  · exact ⟨.error _, h⟩
  · refine ⟨.ok ?_, h.wrote (h.tables.opened terms drawn)⟩
    simp only [h.tables.lastSession]

theorem markTimedOut (h : v.Alike w) (id : Int) (now : Instant) :
    Agree (fun r s => r.veiled = s.veiled) (v.handle (.markTimedOut id now)).1 (w.handle (.markTimedOut id now)).1 ∧
      (v.handle (.markTimedOut id now)).2.Alike (w.handle (.markTimedOut id now)).2 := by
  have session := h.tables.rel_find? id
  simp only [handle, Tables.markTimedOut]
  generalize v.tables.find? id = r? at session
  generalize w.tables.find? id = s? at session
  cases session with
  | none => exact ⟨.error _, h⟩
  | @some r s same =>
    simp only [Session.isOngoing_eq_of_veiled same]
    split
    · rename_i ongoing
      obtain rfl := Session.eq_of_veiled_of_isOngoing same ongoing
      exact ⟨.ok rfl, h.wrote (h.tables.ended rfl)⟩
    · exact ⟨.ok same, h⟩

theorem complete (h : v.Alike w) (id : Int) (now : Instant) :
    Agree (fun a b => a.map Session.veiled = b.map Session.veiled) (v.handle (.complete id now)).1 (w.handle (.complete id now)).1 ∧
      (v.handle (.complete id now)).2.Alike (w.handle (.complete id now)).2 := by
  have session := h.tables.rel_find? id
  simp only [handle, Tables.complete]
  generalize v.tables.find? id = r? at session
  generalize w.tables.find? id = s? at session
  cases session with
  | none => exact ⟨.ok rfl, h⟩
  | @some r s same =>
    simp only [Session.isOpen_eq_of_veiled same]
    split
    · rename_i isOpen
      obtain rfl := Session.eq_of_veiled_of_isOngoing same (Session.isOngoing_iff.2 (Session.isOpen_iff.1 isOpen).1)
      have ends := r.veiled_completed (v.tables.gradesOf id) (w.tables.gradesOf id) now
      exact ⟨.ok (congrArg some ends), h.wrote (h.tables.ended ends)⟩
    · exact ⟨.ok rfl, h⟩

theorem deleteOngoing (h : v.Alike w) (id : Int) :
    Agree Eq (v.handle (.deleteOngoing id)).1 (w.handle (.deleteOngoing id)).1 ∧
      (v.handle (.deleteOngoing id)).2.Alike (w.handle (.deleteOngoing id)).2 := by
  have session := h.tables.rel_find? id
  simp only [handle, Tables.deleteOngoing]
  generalize v.tables.find? id = r? at session
  generalize w.tables.find? id = s? at session
  cases session with
  | none => exact ⟨.ok rfl, h⟩
  | @some r s same =>
    simp only [Session.isOngoing_eq_of_veiled same]
    split
    · exact ⟨.ok rfl, h.wrote (h.tables.removed (congrArg Terms.token (Session.toTerms_eq_of_veiled same)))⟩
    · exact ⟨.ok rfl, h⟩

/-- Answers that differ in their grades are both taken or both refused. -/
theorem record (h : v.Alike w) {a b : Answer} (same : a.veiled = b.veiled) :
    Agree (fun a b => a.map Answer.veiled = b.map Answer.veiled) (v.handle (.record a)).1 (w.handle (.record b)).1 ∧
      (v.handle (.record a)).2.Alike (w.handle (.record b)).2 := by
  have slot := Answer.slot_eq_of_veiled same
  have taken : v.tables.takesAnswer a.slot a.answeredAt = w.tables.takesAnswer b.slot b.answeredAt := by
    rw [h.tables.takesAnswer_eq, slot, Answer.answeredAt_eq_of_veiled same]
  simp only [handle, Tables.record, taken]
  split
  · refine ⟨.ok (congrArg some same), h.wrote (h.tables.answered (some a) (some b) (congrArg some same) b.slot ?_ ?_)⟩
    · exact fun j => slot ▸ Table.get?_insert _ _ _ _
    · exact fun j => Table.get?_insert _ _ _ _
  · exact ⟨.ok rfl, h⟩

theorem clear (h : v.Alike w) (slot : Int) (now : Instant) :
    Agree Eq (v.handle (.clear slot now)).1 (w.handle (.clear slot now)).1 ∧
      (v.handle (.clear slot now)).2.Alike (w.handle (.clear slot now)).2 := by
  have given : v.tables.answers.contains slot = w.tables.answers.contains slot := by
    simpa [Table.contains] using congrArg Option.isSome (h.tables.answer slot)
  simp only [handle, Tables.clear, h.tables.takesAnswer_eq, given]
  split
  · split
    · refine ⟨.ok rfl, h.wrote (h.tables.answered none none rfl slot ?_ ?_)⟩
      · exact fun j => Table.get?_erase _ _ _
      · exact fun j => Table.get?_erase _ _ _
    · exact ⟨.ok rfl, h⟩
  · exact ⟨.ok rfl, h⟩

theorem question (h : v.Alike w) (id : Int) :
    Agree (fun q r => q.face = r.face) (v.handle (.question id)).1 (w.handle (.question id)).1 ∧
      (v.handle (.question id)).2.Alike (w.handle (.question id)).2 := by
  have found := rel_of_map_eq (h.catalog.question id)
  simp only [handle]
  generalize v.catalog.get? id = q? at found
  generalize w.catalog.get? id = r? at found
  cases found with
  | none => exact ⟨.error _, h⟩
  | some same => exact ⟨.ok same, h⟩

/-- **An access gives the same**, up to keys, grades and scores. -/
theorem handle (h : v.Alike w) (q : Access) : Agree q.Alike (v.handle q).1 (w.handle q).1 ∧ (v.handle q).2.Alike (w.handle q).2 := by
  cases q with
  | now => exact h.read h.now
  | create terms drawn => exact h.create terms drawn
  | findByToken token => exact h.read (h.tables.map_findByToken? token)
  | find id => exact h.read (h.tables.session id)
  | list f => exact h.read (h.tables.map_list f)
  | markTimedOut id now => exact h.markTimedOut id now
  | complete id now => exact h.complete id now
  | deleteOngoing id => exact h.deleteOngoing id
  | sheet id => exact h.read (h.tables.sheet_eq id)
  | slotAt id sequence => exact h.read (congrArg (List.find? _) (h.tables.slotsOf_eq id))
  | answersOf id => exact h.read (h.tables.map_answersOf id)
  | record a => exact h.record rfl
  | clear slot now => exact h.clear slot now
  | hasLevel subject level => exact h.read (h.catalog.hasLevel subject level)
  | pool s => exact h.read (h.catalog.pool_eq s)
  | question id => exact h.question id
  | questions ids => exact h.read (h.catalog.map_getAll ids)
  | allowCreate user =>
    simp only [World.handle, h.quota, h.now]
    exact ⟨.ok rfl, { h with quota := rfl, now := rfl }⟩

end World.Alike

end Proctor
