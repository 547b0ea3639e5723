import Proctor.Proofs.Exam.Effect
import Proctor.Proofs.Exam.Fair

/-!
# Looking at a session

Who looks at a session finds it as it stands: timed out, if it is ongoing and its deadline has passed. Looking leaves the
tables `lookedAt`, in which the session is stored so and nothing else has changed, and whoever looks a second time at the same
instant finds what the first one found (`run_look_lookedAt`).
-/

set_option autoImplicit false

namespace Proctor

namespace Session

/-- The session as it is found by somebody who looks at it now. -/
def asOf (s : Session) (now : Instant) : Session := if s.isExpired now then s.timedOut now else s

theorem asOf_of_isExpired {s : Session} {now : Instant} (h : s.isExpired now = true) : s.asOf now = s.timedOut now := if_pos h

theorem asOf_of_not_isExpired {s : Session} {now : Instant} (h : s.isExpired now = false) : s.asOf now = s := by
  simp [asOf, h]

theorem isExpired_timedOut (s : Session) (now later : Instant) : (s.timedOut now).isExpired later = false := rfl

theorem isExpired_asOf (s : Session) (now : Instant) : (s.asOf now).isExpired now = false := by
  cases h : s.isExpired now with
  | true => rw [asOf_of_isExpired h, isExpired_timedOut]
  | false => rw [asOf_of_not_isExpired h, h]

theorem id_asOf (s : Session) (now : Instant) : (s.asOf now).id = s.id := by
  unfold asOf
  split <;> rfl

end Session

namespace Tables

/-- The tables after somebody has looked at the session of `token`: it is timed out if it was ongoing
past its deadline, and nothing else has changed. -/
def lookedAt (t : Tables) (token : String) (now : Instant) : Tables :=
  match t.findByToken? token with
  | some s => if s.isExpired now then t.ended s.id (s.timedOut now) else t
  | none => t

variable {t : Tables} {token : String} {now : Instant} {s : Session}

theorem lookedAt_of_none (h : t.findByToken? token = none) : t.lookedAt token now = t := by
  simp [lookedAt, h]

theorem lookedAt_of_isExpired (found : t.findByToken? token = some s) (expired : s.isExpired now = true) :
    t.lookedAt token now = t.ended s.id (s.timedOut now) := by
  simp [lookedAt, found, expired]

theorem lookedAt_of_not_isExpired (found : t.findByToken? token = some s) (current : s.isExpired now = false) :
    t.lookedAt token now = t := by
  simp [lookedAt, found, current]

namespace Valid

theorem lookedAt (valid : t.Valid) (token : String) (now : Instant) : (t.lookedAt token now).Valid := by
  cases found : t.findByToken? token with
  | none => rwa [lookedAt_of_none found]
  | some s =>
    cases expired : s.isExpired now with
    | false => rwa [lookedAt_of_not_isExpired found expired]
    | true =>
      rw [lookedAt_of_isExpired found expired]
      obtain ⟨ongoing, late⟩ := Session.isExpired_iff.1 expired
      exact valid.change (.ended (valid.consistent.findByToken?_iff.1 found).1 ongoing (.timedOut late))

/-- The session that was looked at is stored as it stands. -/
theorem find?_lookedAt (valid : t.Valid) (found : t.findByToken? token = some s) :
    (t.lookedAt token now).find? s.id = some (s.asOf now) := by
  cases expired : s.isExpired now with
  | false =>
    rw [lookedAt_of_not_isExpired found expired, Session.asOf_of_not_isExpired expired]
    exact (valid.consistent.findByToken?_iff.1 found).1
  | true => rw [lookedAt_of_isExpired found expired, Session.asOf_of_isExpired expired, find?_ended, if_pos rfl]

theorem findByToken?_lookedAt (valid : t.Valid) (found : t.findByToken? token = some s) :
    (t.lookedAt token now).findByToken? token = some (s.asOf now) := by
  refine (valid.lookedAt token now).consistent.findByToken?_iff.2 ⟨?_, ?_⟩
  · rw [Session.id_asOf]
    exact valid.find?_lookedAt found
  · have named := (valid.consistent.findByToken?_iff.1 found).2
    unfold Session.asOf
    split <;> exact named

theorem lookedAt_lookedAt (valid : t.Valid) (token : String) (now : Instant) :
    (t.lookedAt token now).lookedAt token now = t.lookedAt token now := by
  cases found : t.findByToken? token with
  | none => rw [lookedAt_of_none found, lookedAt_of_none found]
  | some s => exact lookedAt_of_not_isExpired (valid.findByToken?_lookedAt found) (s.isExpired_asOf now)

end Valid

end Tables

namespace World

/-- The world after somebody has looked at the session of `token`. -/
def lookedAt (w : World) (token : String) : World := { w with tables := w.tables.lookedAt token w.now }

/-- The session is stored like this, and its deadline has not passed unnoticed. -/
def Current (w : World) (s : Session) : Prop := w.tables.find? s.id = some s ∧ s.isExpired w.now = false

theorem lookedAt_lookedAt {w : World} (valid : w.tables.Valid) (token : String) :
    (w.lookedAt token).lookedAt token = w.lookedAt token := by
  simp only [lookedAt, valid.lookedAt_lookedAt]

theorem lookedAt_of_not_isExpired {w : World} {token : String} {s : Session} (found : w.tables.findByToken? token = some s)
    (current : s.isExpired w.now = false) : w.lookedAt token = w := by
  rw [lookedAt, Tables.lookedAt_of_not_isExpired found current]

end World

namespace Exam

open Call

variable {w : World} {token : String} {s : Session}

theorem run_find_of_none (found : w.tables.findByToken? token = none) :
    (find token).run World.handle w = (.error (.notFound .session), w) := by
  simp only [find, run_bind, ask, run, World.handle, found, orFail]

theorem run_find (found : w.tables.findByToken? token = some s) : (find token).run World.handle w = (.ok s, w) := by
  simp only [find, run_bind, ask, run, World.handle, found, orFail]

/-- A stored session whose deadline has passed is timed out. -/
theorem run_markTimedOut (stored : w.tables.find? s.id = some s) (expired : s.isExpired w.now = true) :
    (ask (.markTimedOut s.id w.now)).run World.handle w =
      (.ok (s.timedOut w.now), { w with tables := w.tables.ended s.id (s.timedOut w.now) }) := by
  have ongoing := (Session.isExpired_iff.1 expired).1
  obtain ⟨missing, -⟩ | ⟨r, stored', finished, -⟩ | ⟨r, stored', -, eq⟩ := w.tables.markTimedOut_cases s.id w.now
  · cases stored.symm.trans missing
  · obtain rfl := Option.some.inj (stored.symm.trans stored')
    exact absurd ongoing finished
  · obtain rfl := Option.some.inj (stored.symm.trans stored')
    simp only [ask, run, World.handle, eq]
    rfl

theorem run_observe_of_isExpired (stored : w.tables.find? s.id = some s) (expired : s.isExpired w.now = true) :
    (observe s).run World.handle w =
      (.ok (s.timedOut w.now), { w with tables := w.tables.ended s.id (s.timedOut w.now) }) := by
  have marked := run_markTimedOut stored expired
  simp only [observe, Call.now, run_bind, ask, run, World.handle, expired, if_true] at marked ⊢
  exact marked

theorem run_observe_of_not_isExpired (current : s.isExpired w.now = false) :
    (observe s).run World.handle w = (.ok s, w) := by
  simp only [observe, Call.now, run_bind, ask, run, World.handle, current]
  rfl

theorem run_look_of_none (found : w.tables.findByToken? token = none) :
    (look token).run World.handle w = (.error (.notFound .session), w) := by
  simp only [look, run_bind, run_find_of_none found]

/-- Looking at a session gives it as it stands. -/
theorem run_look (valid : w.tables.Valid) (found : w.tables.findByToken? token = some s) :
    (look token).run World.handle w = (.ok (s.asOf w.now), w.lookedAt token) := by
  simp only [look, run_bind, run_find found]
  cases expired : s.isExpired w.now with
  | true =>
    rw [run_observe_of_isExpired (valid.consistent.findByToken?_iff.1 found).1 expired, Session.asOf_of_isExpired expired,
      World.lookedAt, Tables.lookedAt_of_isExpired found expired]
  | false =>
    rw [run_observe_of_not_isExpired expired, Session.asOf_of_not_isExpired expired, World.lookedAt,
      Tables.lookedAt_of_not_isExpired found expired]

/-- Whoever looks a second time finds what the first one found. -/
theorem run_look_lookedAt (valid : w.tables.Valid) (token : String) :
    (look token).run World.handle (w.lookedAt token) = (look token).run World.handle w := by
  cases found : w.tables.findByToken? token with
  | none => rw [World.lookedAt, Tables.lookedAt_of_none found]
  | some s =>
    have found' : (w.lookedAt token).tables.findByToken? token = some (s.asOf w.now) := valid.findByToken?_lookedAt found
    have current : (s.asOf w.now).isExpired (w.lookedAt token).now = false := s.isExpired_asOf w.now
    rw [run_look valid found, run_look (valid.lookedAt token w.now) found', Session.asOf_of_not_isExpired current,
      World.lookedAt_lookedAt valid]

theorem run_ifOngoing {s : Session} {e : Error} (closed : closedFault? s = some e) :
    (ifOngoing s).run World.handle w = (.error e, w) := by
  simp only [ifOngoing, ensureOngoing, closed, Call.ofExcept, run_bind, run]

theorem run_finish_of_isExpired (stored : w.tables.find? s.id = some s) (expired : s.isExpired w.now = true) :
    (finish s).run World.handle w =
      (.error (.timeout (.since s.deadline)), { w with tables := w.tables.ended s.id (s.timedOut w.now) }) := by
  have asked : Call.now.run World.handle w = (.ok w.now, w) := rfl
  rw [finish, run_bind, asked]
  simp only [expired, if_true]
  rw [run_bind, run_markTimedOut stored expired]
  exact run_ifOngoing rfl

/-- A completion that comes too late times the session out. -/
theorem run_complete_of_isExpired (found : w.tables.findByToken? token = some s) (stored : w.tables.find? s.id = some s)
    (expired : s.isExpired w.now = true) : (complete token).run World.handle w =
      (.error (.timeout (.since s.deadline)), { w with tables := w.tables.ended s.id (s.timedOut w.now) }) := by
  rw [complete, run_bind, run_find found]
  simp only [(Session.isExpired_iff.1 expired).1]
  exact run_finish_of_isExpired stored expired

end Exam

end Proctor
