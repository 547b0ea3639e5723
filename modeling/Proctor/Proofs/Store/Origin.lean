import Proctor.Proofs.Store.History

/-!
# Which deeds rows come from

Tables start out empty, so what is found in them was written by a deed that is in their log
(`Recorded.exists_of_holds`): a session was opened with its token, an answer was taken, and a completed
session was completed. No answer is taken for a session that has ended, so its answers were
there before (`Recorded.not_mem_of_stores`).
-/

set_option autoImplicit false

namespace Proctor

/-- The token that the access gives to a new session. -/
def Access.newToken? : Access → Option String
  | .create terms _ => some terms.token
  | _ => none

namespace Tables

/-- Answers are written beside the sessions. -/
theorem find?_record (t : Tables) (a : Answer) (id : Int) : (t.record a).2.find? id = t.find? id := by
  obtain h | ⟨-, h⟩ := t.record_cases a
  all_goals exact congrArg (fun r => r.2.find? id) h

theorem find?_clear (t : Tables) (k : Int) (now : Instant) (id : Int) : (t.clear k now).2.find? id = t.find? id := by
  obtain h | ⟨-, h⟩ | ⟨-, h⟩ := t.clear_cases k now
  all_goals exact congrArg (fun r => r.2.find? id) h

end Tables

/-- A session that there is after an access was there before with the same terms, or was opened by it on these terms. -/
theorem World.terms_handle {w : World} {q : Access} {id : Int} {s : Session} (stored : (w.handle q).2.tables.find? id = some s) :
    (∃ r, w.tables.find? id = some r ∧ r.toTerms = s.toTerms) ∨ ∃ drawn, q = .create s.toTerms drawn := by
  by_cases reads : q.Reads
  · exact .inl ⟨s, tables_handle_of_reads reads w ▸ stored, rfl⟩
  cases q with
  | create terms drawn =>
    obtain ⟨_, h⟩ | ⟨-, h⟩ := w.tables.create_cases terms drawn <;> simp only [handle, h] at stored
    · exact .inl ⟨s, stored, rfl⟩
    obtain ⟨-, rfl⟩ | ⟨-, stored⟩ := Tables.find?_opened_eq_some.1 stored
    · exact .inr ⟨drawn, rfl⟩
    · exact .inl ⟨s, stored, rfl⟩
  | markTimedOut other now =>
    obtain ⟨-, h⟩ | ⟨_, -, -, h⟩ | ⟨r, before, -, h⟩ := w.tables.markTimedOut_cases other now <;> simp only [handle, h] at stored
    · exact .inl ⟨s, stored, rfl⟩
    · exact .inl ⟨s, stored, rfl⟩
    obtain ⟨rfl, rfl⟩ | ⟨-, stored⟩ := Tables.find?_ended_eq_some.1 stored
    · exact .inl ⟨r, before, rfl⟩
    · exact .inl ⟨s, stored, rfl⟩
  | complete other now =>
    obtain ⟨-, h⟩ | ⟨r, before, -, h⟩ := w.tables.complete_cases other now <;> simp only [handle, h] at stored
    · exact .inl ⟨s, stored, rfl⟩
    obtain ⟨rfl, rfl⟩ | ⟨-, stored⟩ := Tables.find?_ended_eq_some.1 stored
    · exact .inl ⟨r, before, rfl⟩
    · exact .inl ⟨s, stored, rfl⟩
  | deleteOngoing other =>
    obtain ⟨-, h⟩ | ⟨_, -, -, h⟩ := w.tables.deleteOngoing_cases other <;> simp only [handle, h] at stored
    · exact .inl ⟨s, stored, rfl⟩
    · exact .inl ⟨s, (Tables.find?_removed_eq_some.1 stored).2, rfl⟩
  | record a => exact .inl ⟨s, (w.tables.find?_record a id).symm.trans stored, rfl⟩
  | clear k now => exact .inl ⟨s, (w.tables.find?_clear k now id).symm.trans stored, rfl⟩
  | _ => exact absurd trivial reads

namespace Deed

/-- The deed stored the answer, which the session took. -/
def Stores (d : Deed) (a : Answer) : Prop :=
  d.access = .record a ∧ d.before.tables.takesAnswer a.slot a.answeredAt = true

/-- The deed completed the session, which is `s` since then. -/
def Completes (d : Deed) (id : Int) (s : Session) : Prop :=
  ∃ now, d.access = .complete id now ∧ (d.before.tables.complete id now).1 = some s

variable {d : Deed} {id k : Int} {s : Session} {a : Answer}

theorem Completes.cases (h : d.Completes id s) : ∃ r now, d.access = .complete id now ∧ d.before.tables.find? id = some r ∧
    r.status = .ongoing ∧ now ≤ r.deadline ∧ s = r.completed (d.before.tables.gradesOf id) now ∧
    d.after.tables = d.before.tables.ended id s := by
  obtain ⟨caller, w, q⟩ := d
  obtain ⟨now, rfl, done⟩ := h
  obtain ⟨-, eq⟩ | ⟨r, stored, isOpen, eq⟩ := w.tables.complete_cases id now
  · cases (congrArg Prod.fst eq).symm.trans done
  · obtain rfl := Option.some.inj ((congrArg Prod.fst eq).symm.trans done)
    obtain ⟨ongoing, inTime⟩ := Session.isOpen_iff.1 isOpen
    exact ⟨r, now, rfl, stored, ongoing, inTime, rfl, congrArg Prod.snd eq⟩

theorem Completes.find?_after (h : d.Completes id s) : d.after.tables.find? id = some s := by
  obtain ⟨_, _, -, -, -, -, -, after⟩ := h.cases
  rw [after, Tables.find?_ended, if_pos rfl]

/-- A session that there is after a deed was there before with the same token, or was opened with it. -/
theorem token_after (stored : d.after.tables.find? id = some s) :
    (∃ r, d.before.tables.find? id = some r ∧ r.token = s.token) ∨ d.access.newToken? = some s.token := by
  obtain ⟨r, before, same⟩ | ⟨drawn, opened⟩ := World.terms_handle (w := d.before) stored
  · exact .inl ⟨r, before, congrArg Terms.token same⟩
  · exact .inr (congrArg Access.newToken? opened)

/-- An answer that there is after a deed was there before, or was stored by it. -/
theorem answer_after (consistent : d.after.tables.Consistent) (given : d.after.tables.answers.get? k = some a) :
    d.before.tables.answers.get? k = some a ∨ d.Stores a := by
  obtain ⟨slot, held⟩ := consistent.answer_held given
  by_cases writes : d.Writes k
  · obtain ⟨caller, w, q⟩ := d
    cases q with
    | record b =>
      obtain ⟨rfl, taken⟩ := writes
      obtain rfl := Option.some.inj ((get?_answers_of_record rfl taken).symm.trans given)
      exact .inr ⟨rfl, taken⟩
    | clear j now =>
      -- the slot has no answer afterwards
      obtain ⟨rfl, taken, there⟩ := writes
      have gone : (w.tables.clear j now).2.answers.get? j = none := by
        simp only [Tables.clear, show w.tables.takesAnswer j now = true from taken, if_true,
          show w.tables.answers.contains j = true from there, Table.get?_erase]
      cases gone.symm.trans given
    | _ => cases writes
  · rw [get?_answers_of_not_writes writes held] at given
    exact .inl given

/-- A session that is completed after a deed was so before, or was completed by it. -/
theorem completed_after (stored : d.after.tables.find? id = some s) (completed : s.status = .completed) :
    d.before.tables.find? id = some s ∨ d.Completes id s := by
  obtain ⟨caller, w, q⟩ := d
  by_cases reads : q.Reads
  · exact .inl (World.tables_handle_of_reads reads w ▸ stored)
  cases q with
  | create terms drawn =>
    obtain ⟨_, h⟩ | ⟨-, h⟩ := w.tables.create_cases terms drawn <;> simp only [after, World.handle, h] at stored
    · exact .inl stored
    obtain ⟨-, rfl⟩ | ⟨-, stored⟩ := Tables.find?_opened_eq_some.1 stored
    · cases completed
    · exact .inl stored
  | markTimedOut other now =>
    obtain ⟨-, h⟩ | ⟨_, -, -, h⟩ | ⟨_, -, -, h⟩ := w.tables.markTimedOut_cases other now <;>
      simp only [after, World.handle, h] at stored
    · exact .inl stored
    · exact .inl stored
    obtain ⟨-, rfl⟩ | ⟨-, stored⟩ := Tables.find?_ended_eq_some.1 stored
    · cases completed
    · exact .inl stored
  | complete other now =>
    obtain ⟨-, h⟩ | ⟨_, -, -, h⟩ := w.tables.complete_cases other now <;> simp only [after, World.handle, h] at stored
    · exact .inl stored
    obtain ⟨rfl, rfl⟩ | ⟨-, stored⟩ := Tables.find?_ended_eq_some.1 stored
    · exact .inr ⟨now, rfl, congrArg Prod.fst h⟩
    · exact .inl stored
  | deleteOngoing other =>
    obtain ⟨-, h⟩ | ⟨_, -, -, h⟩ := w.tables.deleteOngoing_cases other <;> simp only [after, World.handle, h] at stored
    · exact .inl stored
    · exact .inl (Tables.find?_removed_eq_some.1 stored).2
  | record a => exact .inl ((w.tables.find?_record a id).symm.trans stored)
  | clear j now => exact .inl ((w.tables.find?_clear j now id).symm.trans stored)
  | _ => exact absurd trivial reads

end Deed

namespace Recorded

variable {log newer older : List Deed} {t : Tables} {d e : Deed} {id k : Int} {s : Session} {a : Answer}

/-- **What holds of the tables goes back to a deed**, if it does not hold of empty ones. -/
theorem exists_of_holds {p : Tables → Prop} {did : Deed → Prop} (empty : ¬p ∅)
    (step : ∀ d : Deed, d.before.tables.Valid → d.after.tables.Valid → p d.after.tables → p d.before.tables ∨ did d)
    (h : Recorded log t) (holds : p t) : ∃ d ∈ log, did d := by
  induction h with
  | nil => exact absurd holds empty
  | @cons d older follows before ih =>
    obtain holds | made := step d before.valid follows.valid holds
    · obtain ⟨e, listed, made⟩ := ih holds
      exact ⟨e, List.mem_cons_of_mem d listed, made⟩
    · exact ⟨d, List.mem_cons_self, made⟩

/-- A token in use was given to a session by a deed. -/
theorem exists_newToken {token : String} (h : Recorded log t) (used : t.tokens.get? token = some id) :
    ∃ d ∈ log, d.access.newToken? = some token := by
  refine h.exists_of_holds (p := fun t => ∃ s, t.find? id = some s ∧ s.token = token) ?_ ?_ ?_
  · rintro ⟨s, stored, -⟩
    cases stored
  · rintro d - - ⟨s, stored, rfl⟩
    exact Deed.token_after stored
  · exact h.valid.consistent.token_iff.1 used

theorem exists_stores (h : Recorded log t) (given : t.answers.get? k = some a) : ∃ d ∈ log, d.Stores a := by
  refine h.exists_of_holds (p := fun t => t.answers.get? k = some a) (fun given => by cases given) ?_ given
  exact fun d _ valid given => Deed.answer_after valid.consistent given

theorem exists_completes (h : Recorded log t) (stored : t.find? id = some s) (completed : s.status = .completed) :
    ∃ d ∈ log, d.Completes id s := by
  refine h.exists_of_holds (p := fun t => t.find? id = some s) (fun stored => by cases stored) ?_ stored
  exact fun d _ _ stored => Deed.completed_after stored completed

/-- An answer of a session that has ended was not stored later. -/
theorem not_mem_of_stores {slot : Slot} (h : Recorded (newer ++ d :: older) t) (stored : d.after.tables.find? slot.session = some s)
    (finished : s.status ≠ .ongoing) (held : t.slots.get? a.slot = some slot) (stores : e.Stores a) : e ∉ newer := by
  intro listed
  obtain ⟨newest, between, rfl⟩ := List.append_of_mem listed
  rw [List.append_assoc, List.cons_append] at h
  obtain ⟨step, before⟩ := h.upTo.step
  obtain ⟨slot', r, held', there, ongoing, -⟩ := Tables.takesAnswer_iff.1 stores.2
  have known := before.valid.consistent.slot_le held'
  have kept := step.slot known (h.follows.slot (Int.le_trans known step.evolves.lastSlot_le) held)
  obtain rfl := Option.some.inj (held'.symm.trans kept)
  have ended := before.follows.evolves.ended stored finished
  obtain rfl := Option.some.inj (there.symm.trans ended)
  exact finished ongoing

end Recorded

end Proctor
