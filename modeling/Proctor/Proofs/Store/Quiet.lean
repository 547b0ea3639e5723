import Proctor.Proofs.Store.Rows

/-!
# Accesses that leave ongoing sessions alone

Most accesses change nothing that belongs to an ongoing session: they end sessions or remove
them, or change nothing at all. `t.Quiet u` says that the sessions that are ongoing in `u` were
the same in `t`, with the same slots and answers.
-/

set_option autoImplicit false

namespace Proctor

namespace Tables

/-- What is ongoing in `u` was so in `t`, with the same slots and answers. -/
structure Quiet (t u : Tables) : Prop where
  stored : ∀ {id s}, u.find? id = some s → ∃ r, t.find? id = some r ∧ r.token = s.token
  ongoing : ∀ {id s}, u.find? id = some s → s.status = .ongoing → t.find? id = some s
  slot : ∀ {k slot}, u.slots.get? k = some slot → t.slots.get? k = some slot
  answer : ∀ {k slot}, u.slots.get? k = some slot → u.answers.get? k = t.answers.get? k

namespace Quiet

variable {t u v : Tables} {id : Int} {s : Session}

theorem refl (t : Tables) : t.Quiet t where
  stored := fun stored => ⟨_, stored, rfl⟩
  ongoing := fun stored _ => stored
  slot := fun held => held
  answer := fun _ => rfl

theorem of_eq (h : u = t) : t.Quiet u := h ▸ refl t

theorem trans (tu : t.Quiet u) (uv : u.Quiet v) : t.Quiet v where
  stored := by
    intro id s stored
    obtain ⟨r, stored, same⟩ := uv.stored stored
    obtain ⟨q, stored, same'⟩ := tu.stored stored
    exact ⟨q, stored, same'.trans same⟩
  ongoing := fun stored ongoing => tu.ongoing (uv.ongoing stored ongoing) ongoing
  slot := fun held => tu.slot (uv.slot held)
  answer := fun held => (uv.answer held).trans (tu.answer (uv.slot held))

/-- The end of a session. -/
theorem ended {s' : Session} (stored : t.find? id = some s) (same : s'.token = s.token) (finished : s'.status ≠ .ongoing) :
    t.Quiet (t.ended id s') := by
  refine { refl t with stored := ?_, ongoing := ?_ }
  · intro other r stored'
    obtain ⟨rfl, rfl⟩ | ⟨-, stored'⟩ := find?_ended_eq_some.1 stored'
    · exact ⟨s, stored, same.symm⟩
    · exact ⟨r, stored', rfl⟩
  · intro other r stored' ongoing
    obtain ⟨rfl, rfl⟩ | ⟨-, stored'⟩ := find?_ended_eq_some.1 stored'
    · exact absurd ongoing finished
    · exact stored'

/-- The removal of a session. -/
theorem removed (t : Tables) (id : Int) (s : Session) : t.Quiet (t.removed id s) where
  stored := fun stored => ⟨_, (find?_removed_eq_some.1 stored).2, rfl⟩
  ongoing := fun stored _ => (find?_removed_eq_some.1 stored).2
  slot := fun held => (get?_slots_removed.1 held).1
  answer := by
    intro k slot held
    obtain ⟨held, other⟩ := get?_slots_removed.1 held
    apply Option.ext
    intro a
    rw [get?_answers_removed]
    refine and_iff_left ?_
    rintro ⟨slot', held', own⟩
    obtain rfl := Option.some.inj (held.symm.trans held')
    exact other own

end Quiet

variable {t : Tables}

theorem quiet_markTimedOut (id : Int) (now : Instant) : t.Quiet (t.markTimedOut id now).2 := by
  obtain ⟨_, h⟩ | ⟨_, _, _, h⟩ | ⟨s, stored, _, h⟩ := t.markTimedOut_cases id now
  · rw [h]
    exact .refl t
  · rw [h]
    exact .refl t
  · rw [h]
    exact .ended stored rfl (by simp [Session.timedOut])

theorem quiet_complete (id : Int) (now : Instant) : t.Quiet (t.complete id now).2 := by
  obtain ⟨_, h⟩ | ⟨s, stored, _, h⟩ := t.complete_cases id now
  · rw [h]
    exact .refl t
  · rw [h]
    exact .ended stored rfl (by simp [Session.completed])

theorem quiet_deleteOngoing (id : Int) : t.Quiet (t.deleteOngoing id).2 := by
  obtain ⟨_, h⟩ | ⟨s, _, _, h⟩ := t.deleteOngoing_cases id
  · rw [h]
    exact .refl t
  · rw [h]
    exact .removed t id s

end Tables

/-- The access neither opens a session nor writes an answer. -/
def Access.Quiet : Access → Prop
  | .create _ _ => False
  | .record _ => False
  | .clear _ _ => False
  | _ => True

/-- **Only openings and answers touch ongoing sessions.** -/
theorem Tables.quiet_handle {q : Access} (quiet : q.Quiet) (w : World) : w.tables.Quiet (w.handle q).2.tables := by
  by_cases reads : q.Reads
  · exact .of_eq (World.tables_handle_of_reads reads w)
  cases q with
  | create | record | clear => cases quiet
  | markTimedOut id now => exact quiet_markTimedOut id now
  | complete id now => exact quiet_complete id now
  | deleteOngoing id => exact quiet_deleteOngoing id
  | _ => exact absurd trivial reads

end Proctor
