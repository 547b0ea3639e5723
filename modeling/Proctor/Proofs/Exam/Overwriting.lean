import Proctor.Proofs.Exam.Answering
import Proctor.Proofs.Exam.Completing

/-!
# What hangs on an answer

Two worlds differ in the answer of one slot. Accesses that do not look at answers give the same in both (`World.handle_answering`), and
operations that look at them only show what they see. The one thing that is made of answers is the score of a session that is
completed. So after any operation the two still differ in that answer at most, unless the session of the slot has ended
(`Operation.run_answering`).
-/

set_option autoImplicit false

namespace Proctor

/-- The access does not look at answers, and does not write any. -/
def Access.Blind : Access → Prop
  | .answersOf _ => False
  | .complete _ _ => False
  | .record _ => False
  | .clear _ _ => False
  | _ => True

namespace Tables

variable {t : Tables} {k id : Int} {a? : Option Answer}

/-- The slot is there, and its session has ended. -/
def Sealed (t : Tables) (k : Int) : Prop :=
  ∃ slot s, t.slots.get? k = some slot ∧ t.find? slot.session = some s ∧ s.status ≠ .ongoing

/-- A session is removed with the answers to its slots. -/
theorem removed_answering (t : Tables) (k : Int) (a? : Option Answer) (id : Int) (s : Session) :
    (t.answering k a?).removed id s = (t.removed id s).answering k (if t.owns id k then none else a?) := by
  have answers : (t.answers.assign k a?).filter (fun slot _ => !t.owns id slot) =
      (t.answers.filter fun slot _ => !t.owns id slot).assign k (if t.owns id k then none else a?) := by
    apply Table.ext_get?
    intro j
    rw [Table.get?_filter, Table.get?_assign, Table.get?_assign, Table.get?_filter]
    split
    · rename_i here
      subst here
      cases t.owns id j <;> cases a? <;> rfl
    · rfl
  simp only [removed, answering]
  rw [← answers]
  rfl

theorem deleteOngoing_answering (t : Tables) (k : Int) (a? : Option Answer) (id : Int) :
    ∃ b?, (t.answering k a?).deleteOngoing id = ((t.deleteOngoing id).1, (t.deleteOngoing id).2.answering k b?) := by
  have stored : (t.answering k a?).find? id = t.find? id := rfl
  unfold deleteOngoing
  rw [stored]
  cases t.find? id with
  | none => exact ⟨a?, rfl⟩
  | some s =>
    dsimp only
    split
    · exact ⟨_, congrArg (true, ·) (t.removed_answering k a? id s)⟩
    · exact ⟨a?, rfl⟩

theorem create_answering (t : Tables) (k : Int) (a? : Option Answer) (terms : Terms) (drawn : List Drawn) :
    (t.answering k a?).create terms drawn = ((t.create terms drawn).1, (t.create terms drawn).2.answering k a?) := by
  have tokens : (t.answering k a?).tokens = t.tokens := rfl
  unfold create
  rw [tokens]
  split
  · rfl
  · split <;> rfl

theorem markTimedOut_answering (t : Tables) (k : Int) (a? : Option Answer) (id : Int) (now : Instant) :
    (t.answering k a?).markTimedOut id now = ((t.markTimedOut id now).1, (t.markTimedOut id now).2.answering k a?) := by
  have stored : (t.answering k a?).find? id = t.find? id := rfl
  unfold markTimedOut
  rw [stored]
  cases t.find? id with
  | none => rfl
  | some s =>
    dsimp only
    split <;> rfl

/-- The grades of another session do not change. -/
theorem gradesOf_answering (filed : t.Filed) (other : t.owns id k = false) : (t.answering k a?).gradesOf id = t.gradesOf id := by
  have slots : (t.answering k a?).slotsOf id = t.slotsOf id := rfl
  unfold gradesOf
  rw [slots]
  refine List.filterMap_congr fun slot listed => ?_
  have ne : slot.id ≠ k := by
    rintro rfl
    obtain ⟨own, j, held⟩ := mem_slotsOf.1 listed
    rw [filed.slot_id held, owns_iff.2 ⟨slot, held, own⟩] at other
    cases other
  show ((t.answers.assign k a?).get? slot.id).map _ = _
  rw [Table.get?_assign, if_neg ne]

theorem lookedAt_answering (t : Tables) (k : Int) (a? : Option Answer) (token : String) (now : Instant) :
    (t.answering k a?).lookedAt token now = (t.lookedAt token now).answering k a? := by
  have found : (t.answering k a?).findByToken? token = t.findByToken? token := rfl
  unfold lookedAt
  rw [found]
  split
  · split <;> rfl
  · rfl

end Tables

namespace World

theorem lookedAt_answering (w : World) (k : Int) (a? : Option Answer) (token : String) :
    (w.answering k a?).lookedAt token = (w.lookedAt token).answering k a? := by
  simp only [World.lookedAt, World.answering]
  rw [Tables.lookedAt_answering]

/-- **Accesses that do not look at answers.** -/
theorem handle_answering {q : Access} (blind : q.Blind) (w : World) (k : Int) (a? : Option Answer) :
    ∃ b?, (w.answering k a?).handle q = ((w.handle q).1, (w.handle q).2.answering k b?) := by
  cases q with
  | deleteOngoing id =>
    obtain ⟨b?, same⟩ := w.tables.deleteOngoing_answering k a? id
    refine ⟨b?, ?_⟩
    simp only [handle, answering, same]
  | create terms drawn =>
    refine ⟨a?, ?_⟩
    simp only [handle, answering, w.tables.create_answering]
  | markTimedOut id now =>
    refine ⟨a?, ?_⟩
    simp only [handle, answering, w.tables.markTimedOut_answering]
  | question id =>
    refine ⟨a?, ?_⟩
    simp only [handle, answering]
    split <;> rfl
  | answersOf | complete | record | clear => cases blind
  | _ => exact ⟨a?, rfl⟩

end World

namespace Exam

open Call

/-- **Calls that do not look at answers.** -/
theorem run_answering_of_only {α : Type} {c : Call α} (only : c.Only Access.Blind) (w : World) (k : Int) (a? : Option Answer) :
    ∃ b?, c.run World.handle (w.answering k a?) = ((c.run World.handle w).1, (c.run World.handle w).2.answering k b?) := by
  induction c generalizing w a? with
  | done a => exact ⟨a?, rfl⟩
  | failed e => exact ⟨a?, rfl⟩
  | step q next ih =>
    obtain ⟨b?, same⟩ := World.handle_answering only.1 w k a?
    simp only [run, same]
    cases w.handle q with
    | mk r v =>
      cases r with
      | ok answer => exact ih answer (only.2 answer) v b?
      | error e => exact ⟨b?, rfl⟩

theorem blind_find (token : String) : (find token).Only Access.Blind :=
  only_bind (only_ask.2 trivial) fun _ => only_orFail

theorem blind_observe (s : Session) : (observe s).Only Access.Blind := by
  refine only_bind (only_now.2 trivial) fun now => ?_
  split
  · exact only_ask.2 trivial
  · exact only_pure

theorem blind_look (token : String) : (look token).Only Access.Blind := only_bind (blind_find token) blind_observe

theorem blind_cancel (token : String) : (cancel token).Only Access.Blind := by
  refine only_bind (blind_look token) fun s => ?_
  split
  · refine only_bind (only_ask.2 trivial) fun deleted => ?_
    split
    · exact only_pure
    · exact only_failed
  · exact only_failed

theorem blind_list (f : Filter) : (list f).Only Access.Blind := by
  have observeAll (sessions : List Session) : (observeAll sessions).Only Access.Blind := by
    induction sessions with
    | nil => exact only_pure
    | cons s rest ih => exact only_bind (blind_observe s) fun _ => only_bind ih fun _ => only_pure
  exact only_bind (only_ask.2 trivial) fun found => only_bind (observeAll found.1) fun _ => only_pure

theorem blind_create (user : Uuid) (r : Request) (chance : Chance) : (create user r chance).Only Access.Blind :=
  (only_create user r chance).imp fun q opens => by cases q <;> first | exact trivial | exact opens

/-! ## Completing -/

variable {w : World} {token : String} {s : Session} {k : Int} {a? : Option Answer}

/-- Where nothing can be completed, the session has been looked at. -/
theorem run_complete_of_closed (valid : w.tables.Valid) (found : w.tables.findByToken? token = some s) (closed : s.isOpen w.now = false) :
    ((complete token).run World.handle w).2 = w.lookedAt token := by
  have stored := (valid.consistent.findByToken?_iff.1 found).1
  cases expired : s.isExpired w.now with
  | true =>
    rw [run_complete_of_isExpired found stored expired, World.lookedAt, Tables.lookedAt_of_isExpired found expired]
  | false =>
    rw [World.lookedAt_of_not_isExpired found expired, complete, run_bind, run_find found]
    cases status : s.status with
    | ongoing => simp [Session.isOpen_eq, expired, Session.isOngoing, status] at closed
    | completed =>
      simp only [status]
      rfl
    | timeout | cancelled =>
      simp only [status]
      rw [run_ifOngoing (by rw [closedFault?, status])]

/-- **A completion** in two worlds that differ in one answer. -/
theorem run_complete_answering (valid : w.tables.Valid) (valid' : (w.answering k a?).tables.Valid) (token : String) :
    ((complete token).run World.handle (w.answering k a?)).2 = ((complete token).run World.handle w).2.answering k a? ∨
      ((complete token).run World.handle (w.answering k a?)).2.tables.Sealed k := by
  have same : (w.answering k a?).tables.findByToken? token = w.tables.findByToken? token := rfl
  cases found : w.tables.findByToken? token with
  | none =>
    refine .inl ?_
    rw [complete, run_bind, run_bind, run_find_of_none found, run_find_of_none (same.trans found)]
  | some s =>
    cases isOpen : s.isOpen w.now with
    | false =>
      refine .inl ?_
      rw [run_complete_of_closed valid found isOpen, run_complete_of_closed valid' (same.trans found) isOpen, World.lookedAt_answering]
    | true =>
      have stored := (valid.consistent.findByToken?_iff.1 found).1
      rw [run_complete_of_isOpen found stored isOpen, run_complete_of_isOpen (same.trans found) stored isOpen]
      cases owned : w.tables.owns s.id k with
      | false =>
        have grades : (w.answering k a?).tables.gradesOf s.id = w.tables.gradesOf s.id :=
          Tables.gradesOf_answering valid.consistent.filed owned
        refine .inl ?_
        rw [grades]
        rfl
      | true =>
        obtain ⟨slot, held, own⟩ := Tables.owns_iff.1 owned
        refine .inr ⟨slot, s.completed ((w.answering k a?).tables.gradesOf s.id) w.now, held, ?_, fun ongoing => by cases ongoing⟩
        rw [own]
        exact Tables.find?_ended.trans (if_pos rfl)

/-- **An operation on a slot** in two worlds that differ in one answer. -/
theorem run_place_answering (valid : w.tables.Valid) (valid' : (w.answering k a?).tables.Valid) (stocked : w.Stocked)
    {o : Operation} {place : String × Int} (addressed : o.place? = some place) :
    ∃ b?, (o.call.run World.handle (w.answering k a?)).2 = (o.call.run World.handle w).2.answering k b? := by
  by_cases written : ∃ r j b?, w.Writes o r j b?
  · obtain ⟨r, j, b?, writes⟩ := written
    rw [run_of_writes valid stocked writes, run_of_writes valid' (stocked.answering k a?) (World.writes_answering.2 writes)]
    by_cases here : j = k
    · subst here
      exact ⟨b?, by rw [World.answering_answering, World.answering_answering]⟩
    · exact ⟨a?, World.answering_comm w here a? b?⟩
  · have unwritten : ¬∃ r j b?, (w.answering k a?).Writes o r j b? := fun ⟨r, j, b?, writes⟩ =>
      written ⟨r, j, b?, World.writes_answering.1 writes⟩
    refine ⟨a?, ?_⟩
    rw [run_of_unwritten valid stocked addressed written, run_of_unwritten valid' (stocked.answering k a?) addressed unwritten,
      World.lookedAt_answering]

namespace Operation

/-- **Any operation** in two worlds that differ in one answer: they still differ in that answer at most, or its slot is sealed. -/
theorem run_answering (valid : w.tables.Valid) (valid' : (w.answering k a?).tables.Valid) (stocked : w.Stocked) (o : Operation) :
    (∃ b?, (o.call.run World.handle (w.answering k a?)).2 = (o.call.run World.handle w).2.answering k b?) ∨
      (o.call.run World.handle (w.answering k a?)).2.tables.Sealed k := by
  have blind (only : o.call.Only Access.Blind) :
      ∃ b?, (o.call.run World.handle (w.answering k a?)).2 = (o.call.run World.handle w).2.answering k b? := by
    obtain ⟨b?, same⟩ := run_answering_of_only only w k a?
    exact ⟨b?, congrArg Prod.snd same⟩
  have views {token : String} (addressed : o.token? = some token) (view : o.isView = true) :
      (o.call.run World.handle (w.answering k a?)).2 = (o.call.run World.handle w).2.answering k a? := by
    have left := (lands_call valid' o).eq_of_forall fun _ _ same => same view
    have right := (lands_call valid o).eq_of_forall fun _ _ same => same view
    rw [addressed] at left right
    rw [left, right]
    exact w.lookedAt_answering k a? token
  cases o with
  | create user r chance => exact .inl (blind (blind_create user r chance))
  | cancel token => exact .inl (blind (blind_cancel token))
  | list f => exact .inl (blind (blind_list f))
  | get token => exact .inl ⟨a?, views rfl rfl⟩
  | questions token => exact .inl ⟨a?, views rfl rfl⟩
  | detail token => exact .inl ⟨a?, views rfl rfl⟩
  | submit token sequence payload => exact .inl (run_place_answering valid valid' stocked rfl)
  | clear token sequence => exact .inl (run_place_answering valid valid' stocked rfl)
  | complete token => exact (run_complete_answering valid valid' token).imp_left fun same => ⟨a?, same⟩

end Operation

end Exam

end Proctor
