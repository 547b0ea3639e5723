import Proctor.Proofs.Exam.Look
import Proctor.Proofs.Store.Filed
import Proctor.Proofs.Store.Pages

/-!
# Looking at several sessions

Whoever looks at several sessions at one instant finds each of them as it stands (`run_observeAll_of_stored`), and
leaves the tables in which just these have been noticed to be late. That is what a listing does with the sessions on its page
(`run_list`). If all sessions are looked at, the tables are swept: no session is left that is ongoing past its deadline.
-/

set_option autoImplicit false

namespace Proctor

namespace Session

/-- The session as it stands, if its id is among those seen, and else as it is stored. -/
def asSeen (s : Session) (seen : Int → Bool) (now : Instant) : Session := if seen s.id then s.asOf now else s

variable (s : Session) (seen : Int → Bool) (now : Instant)

@[simp] theorem toTerms_asOf : (s.asOf now).toTerms = s.toTerms := by
  unfold asOf
  split <;> rfl

@[simp] theorem asOf_asOf : (s.asOf now).asOf now = s.asOf now := asOf_of_not_isExpired (s.isExpired_asOf now)

theorem status_asOf : (s.asOf now).status = if s.isExpired now then .timeout else s.status := by
  unfold asOf
  split <;> rfl

/-- A session that is not open is found ended. -/
theorem status_asOf_ne {s : Session} {now : Instant} (closed : s.isOpen now = false) : (s.asOf now).status ≠ .ongoing := by
  rw [isOpen_eq] at closed
  rw [status_asOf]
  cases expired : s.isExpired now with
  | true => exact fun ongoing => by cases ongoing
  | false =>
    rw [expired, Bool.not_false, Bool.and_true] at closed
    exact fun ongoing => by simp [isOngoing_iff.2 ongoing] at closed

@[simp] theorem id_asSeen : (s.asSeen seen now).id = s.id := by
  unfold asSeen
  split
  · exact s.id_asOf now
  · rfl

@[simp] theorem toTerms_asSeen : (s.asSeen seen now).toTerms = s.toTerms := by
  unfold asSeen
  split
  · exact s.toTerms_asOf now
  · rfl

@[simp] theorem asOf_asSeen : (s.asSeen seen now).asOf now = s.asOf now := by
  unfold asSeen
  split
  · exact s.asOf_asOf now
  · rfl

theorem asSeen_asSeen (more : Int → Bool) :
    (s.asSeen seen now).asSeen more now = s.asSeen (fun id => seen id || more id) now := by
  rw [asSeen, id_asSeen, asOf_asSeen]
  simp only [asSeen]
  by_cases here : seen s.id = true <;> simp [here]

end Session

namespace Tables

/-- The tables after those sessions were looked at whose ids are among `seen`. -/
def noticed (t : Tables) (seen : Int → Bool) (now : Instant) : Tables :=
  { t with sessions := t.sessions.map (·.asSeen seen now) }

/-- The tables after all sessions were looked at. -/
def swept (t : Tables) (now : Instant) : Tables := t.noticed (fun _ => true) now

variable {t : Tables} {seen more : Int → Bool} {now : Instant} {id : Int} {s : Session}

theorem find?_noticed : (t.noticed seen now).find? id = (t.find? id).map (·.asSeen seen now) :=
  Table.get?_map _ _ _

theorem noticed_eq {u : Tables} (same : ∀ id, u.find? id = (t.noticed seen now).find? id)
    (rest : { u with sessions := t.sessions } = t) : u = t.noticed seen now := by
  have sessions : u.sessions = (t.noticed seen now).sessions := Table.ext_get? same
  rw [← rest] at sessions ⊢
  cases u
  simp only [noticed] at sessions ⊢
  rw [sessions]

@[simp] theorem noticed_none : t.noticed (fun _ => false) now = t := by
  refine (noticed_eq (fun id => ?_) rfl).symm
  rw [find?_noticed]
  exact Option.map_id'.symm

/-- One after the other or all at once makes no difference. -/
theorem noticed_noticed : (t.noticed seen now).noticed more now = t.noticed (fun id => seen id || more id) now := by
  refine noticed_eq (fun id => ?_) rfl
  rw [find?_noticed, find?_noticed, find?_noticed, Option.map_map]
  congr 1
  funext s
  exact s.asSeen_asSeen seen now more

/-- It is of no account which ids without a session are among those seen. -/
theorem noticed_congr (filed : t.Filed) (same : ∀ id s, t.find? id = some s → seen id = more id) :
    t.noticed seen now = t.noticed more now := by
  refine noticed_eq (fun id => ?_) rfl
  rw [find?_noticed, find?_noticed]
  cases stored : t.find? id with
  | none => rfl
  | some s => simp only [Option.map_some, Session.asSeen, filed.session_id stored, same id s stored]

/-- A session that is timed out has been noticed. -/
theorem ended_eq_noticed (filed : t.Filed) (stored : t.find? s.id = some s) (expired : s.isExpired now = true) :
    t.ended s.id (s.timedOut now) = t.noticed (s.id == ·) now := by
  refine noticed_eq (fun id => ?_) rfl
  rw [find?_ended, find?_noticed]
  split
  · rename_i here
    simp [here, stored, Session.asSeen, Session.asOf_of_isExpired expired]
  · rename_i there
    cases stored' : t.find? id with
    | none => rfl
    | some r => simp [Session.asSeen, filed.session_id stored', Ne.symm there]

theorem noticed_of_not_isExpired (filed : t.Filed) (stored : t.find? s.id = some s) (current : s.isExpired now = false) :
    t.noticed (s.id == ·) now = t := by
  refine (noticed_eq (fun id => ?_) rfl).symm
  rw [find?_noticed]
  cases stored' : t.find? id with
  | none => rfl
  | some r =>
    rw [Option.map_some, Session.asSeen, filed.session_id stored']
    split
    · rename_i here
      rw [← beq_iff_eq.1 here, stored] at stored'
      obtain rfl := Option.some.inj stored'
      rw [Session.asOf_of_not_isExpired current]
    · rfl

/-! ## The sessions that a listing picks -/

variable {f : Filter}

theorem Filed.find?_of_mem_values (filed : t.Filed) (held : s ∈ t.sessions.values) : t.find? s.id = some s := by
  obtain ⟨id, stored⟩ := Table.mem_values.1 held
  have stored : t.find? id = some s := stored
  rwa [filed.session_id stored]

theorem Filed.nodup_selection (filed : t.Filed) (f : Filter) : ((t.selection f).map (·.id)).Nodup :=
  Tables.nodup_selection (fun stored => filed.session_id stored) f

end Tables

namespace Exam

open Call

variable {w : World} {s : Session} {sessions : List Session}

/-- Whoever looks at a session finds it as it stands. -/
theorem run_observe (filed : w.tables.Filed) (stored : w.tables.find? s.id = some s) :
    (observe s).run World.handle w = (.ok (s.asOf w.now), { w with tables := w.tables.noticed (s.id == ·) w.now }) := by
  cases expired : s.isExpired w.now with
  | true =>
    rw [run_observe_of_isExpired stored expired, Session.asOf_of_isExpired expired, Tables.ended_eq_noticed filed stored expired]
  | false =>
    rw [run_observe_of_not_isExpired expired, Session.asOf_of_not_isExpired expired,
      Tables.noticed_of_not_isExpired filed stored expired]

/-- **Whoever looks at several sessions** finds each of them as it stands, and just these have been noticed then. -/
theorem run_observeAll_of_stored (filed : w.tables.Filed) (stored : ∀ s ∈ sessions, w.tables.find? s.id = some s)
    (distinct : (sessions.map (·.id)).Nodup) :
    (observeAll sessions).run World.handle w =
      (.ok (sessions.map (·.asOf w.now)),
        { w with tables := w.tables.noticed (fun id => sessions.any (·.id == id)) w.now }) := by
  induction sessions generalizing w with
  | nil =>
    simp only [List.any_nil, Tables.noticed_none]
    rfl
  | cons s rest ih =>
    obtain ⟨other, distinct⟩ := List.nodup_cons.1 distinct
    have first := run_observe filed (stored s List.mem_cons_self)
    have filed' := filed.run (observe s)
    rw [first] at filed'
    have stored' : ∀ r ∈ rest, (w.tables.noticed (s.id == ·) w.now).find? r.id = some r := by
      intro r listed
      have ne : r.id ≠ s.id := fun same => other (List.mem_map.2 ⟨r, listed, same⟩)
      rw [Tables.find?_noticed, stored r (List.mem_cons_of_mem s listed)]
      simp [Session.asSeen, Ne.symm ne]
    rw [observeAll, run_bind, first]
    simp only [run_bind, ih filed' stored' distinct, Tables.noticed_noticed, List.any_cons]
    rfl

/-- **What a listing gives**: a page of those that are wanted as they are stored, each as it stands, and the number of all of
them. Just the sessions on the page have been looked at then. -/
theorem run_list (filed : w.tables.Filed) (f : Filter) :
    (list f).run World.handle w =
      (.ok ((w.tables.list f).1.map (·.asOf w.now), (w.tables.selection f).length),
        { w with tables := w.tables.noticed (fun id => (w.tables.list f).1.any (·.id == id)) w.now }) := by
  have page : (w.tables.list f).1.Sublist (w.tables.selection f) := (List.take_sublist _ _).trans (List.drop_sublist _ _)
  have stored : ∀ s ∈ (w.tables.list f).1, w.tables.find? s.id = some s := fun s listed =>
    filed.find?_of_mem_values (Tables.mem_selection_iff.1 (page.subset listed)).1
  have observed := run_observeAll_of_stored filed stored ((filed.nodup_selection f).sublist (page.map _))
  simp only [list, run_bind, ask, run, World.handle, observed]
  rfl

end Exam

end Proctor
