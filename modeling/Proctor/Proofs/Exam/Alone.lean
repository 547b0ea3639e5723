import Proctor.Proofs.Exam.Noticed

/-!
# Operations at one instant

What an operation does if nothing comes in between and the clock stands still. An operation that fails leaves the tables
`lookedAt`, in which just its session has been looked at (`Operation.lands_call`), and an operation cannot tell whether
somebody has looked before at the same instant (`Operation.run_call_lookedAt`).
-/

set_option autoImplicit false

namespace Proctor

/-- Answers do not touch sessions. -/
theorem Tables.Marks.find? {t u : Tables} {token : String} {sequence : Int} {right : Bool}
    (h : t.Marks token sequence right u) (id : Int) : u.find? id = t.find? id := by
  cases h
  rfl

/-- The access changes nothing at all. -/
def Access.Inert (q : Access) : Prop := ∀ w : World, (w.handle q).2 = w

namespace Exam

open Call

variable {α β : Type} {u v w : World} {token : String} {s : Session}

/-- What comes after a first part depends on what the first part gives. -/
theorem run_bind_congr {c : Call α} (same : c.run World.handle v = c.run World.handle w) (f : α → Call β) :
    (c >>= f).run World.handle v = (c >>= f).run World.handle w := by
  rw [run_bind, run_bind, same]

/-- A completion that comes too late gives the same whether somebody has looked at the session before or not. -/
theorem run_complete_lookedAt (valid : w.tables.Valid) (token : String) :
    (complete token).run World.handle (w.lookedAt token) = (complete token).run World.handle w := by
  cases found : w.tables.findByToken? token with
  | none => rw [World.lookedAt, Tables.lookedAt_of_none found]
  | some s =>
    cases expired : s.isExpired w.now with
    | false => rw [World.lookedAt_of_not_isExpired found expired]
    | true =>
      have stored := (valid.consistent.findByToken?_iff.1 found).1
      have found' : (w.lookedAt token).tables.findByToken? token = some (s.timedOut w.now) := by
        rw [← Session.asOf_of_isExpired expired]
        exact valid.findByToken?_lookedAt found
      have late : (complete token).run World.handle w = (.error (.timeout (.since s.deadline)), w.lookedAt token) := by
        rw [run_complete_of_isExpired found stored expired, World.lookedAt, Tables.lookedAt_of_isExpired found expired]
      rw [late]
      simp only [complete, run_bind, run_find found', Session.timedOut]
      exact run_ifOngoing rfl

/-- Carried out with nothing in between, the call gives a value with `mid`, or fails and leaves the world `u`. -/
def Lands (u : World) (mid : α → World → Prop) (c : Call α) (w : World) : Prop :=
  match c.run World.handle w with
  | (.ok a, v) => mid a v
  | (.error _, v) => v = u

theorem lands_bind {mid : α → World → Prop} {post : β → World → Prop} {c : Call α} {f : α → Call β}
    (first : Lands u mid c w) (second : ∀ a v, mid a v → Lands u post (f a) v) : Lands u post (c >>= f) w := by
  unfold Lands at first ⊢
  rw [run_bind]
  cases eq : c.run World.handle w with
  | mk r v =>
    rw [eq] at first
    cases r with
    | ok a => exact second a v first
    | error e => exact first

theorem Lands.eq_of_error {mid : α → World → Prop} {c : Call α} (h : Lands u mid c w) {e : Error}
    (failed : (c.run World.handle w).1 = .error e) : (c.run World.handle w).2 = u := by
  unfold Lands at h
  generalize c.run World.handle w = outcome at h failed ⊢
  obtain ⟨r, v⟩ := outcome
  obtain rfl : r = .error e := failed
  exact h

theorem Lands.eq_of_forall {mid : α → World → Prop} {c : Call α} (h : Lands u mid c w) (same : ∀ a v, mid a v → v = u) :
    (c.run World.handle w).2 = u := by
  unfold Lands at h
  generalize c.run World.handle w = outcome at h ⊢
  obtain ⟨r | a, v⟩ := outcome
  · exact h
  · exact same a v h

theorem Lands.imp {mid post : α → World → Prop} {c : Call α} (h : Lands u mid c w) (weaker : ∀ a v, mid a v → post a v) :
    Lands u post c w := by
  unfold Lands at h ⊢
  split at h
  · exact weaker _ _ h
  · exact h

/-- A first part whose result is known. -/
theorem lands_of_run {post : β → World → Prop} {c : Call α} {f : α → Call β} {a : α}
    (first : c.run World.handle w = (.ok a, v)) (second : Lands u post (f a) v) : Lands u post (c >>= f) w := by
  unfold Lands at second ⊢
  rw [run_bind, first]
  exact second

theorem lands_failed {e : Error} {mid : α → World → Prop} : Lands u mid (failed e) u := rfl

theorem lands_ofExcept {e : Except Error α} : Lands u (fun a v => v = u ∧ e = .ok a) (Call.ofExcept e) u := by
  cases e with
  | ok a => exact ⟨rfl, rfl⟩
  | error e => rfl

theorem lands_orFail {e : Error} {a? : Option α} : Lands u (fun a v => v = u ∧ a? = some a) (orFail e a?) u := by
  cases a? with
  | some a => exact ⟨rfl, rfl⟩
  | none => rfl

/-- An access that fails leaves no trace. -/
theorem lands_ask {q : Access} {mid : q.Answer → World → Prop} (h : ∀ answer v, u.handle q = (.ok answer, v) → mid answer v) :
    Lands u mid (ask q) u := by
  unfold Lands
  simp only [ask, run]
  cases eq : u.handle q with
  | mk r v =>
    cases r with
    | ok answer => exact h answer v eq
    | error e => exact World.eq_of_handle_error eq

/-- An access that changes nothing at all. -/
theorem lands_inert {q : Access} (inert : q.Inert) : Lands u (fun _ v => v = u) (ask q) u := by
  refine lands_ask fun answer v eq => ?_
  have same := inert u
  rwa [eq] at same

/-- A write that may be refused. -/
theorem lands_write (q : Access) : Lands u (fun answer v => q.Refuses answer → v = u) (ask q) u :=
  lands_ask fun _ _ eq refused => World.eq_of_refused eq refused

theorem lands_look (valid : w.tables.Valid) (token : String) :
    Lands (w.lookedAt token) (fun s v => v = w.lookedAt token ∧ v.Current s) (look token) w := by
  unfold Lands
  cases found : w.tables.findByToken? token with
  | none =>
    rw [run_look_of_none found]
    show w = w.lookedAt token
    rw [World.lookedAt, Tables.lookedAt_of_none found]
  | some s =>
    rw [run_look valid found]
    refine ⟨rfl, ?_, s.isExpired_asOf w.now⟩
    rw [Session.id_asOf]
    exact valid.find?_lookedAt found

theorem run_lookById (current : u.Current s) : (lookById s.id).run World.handle u = (.ok s, u) := by
  have found : (ask (.find s.id)).run World.handle u = (.ok (some s), u) := by
    simp only [ask, run, World.handle, current.1]
  rw [lookById, run_bind, found]
  exact run_observe_of_not_isExpired current.2

/-! ## Answering -/

theorem lands_openSlot (valid : w.tables.Valid) (token : String) (sequence : Int) :
    Lands (w.lookedAt token) (fun found v => v = w.lookedAt token ∧ v.Current found.1) (openSlot token sequence) w := by
  refine lands_bind (lands_look valid token) ?_
  rintro s _ ⟨rfl, current⟩
  refine lands_bind lands_ofExcept ?_
  rintro _ _ ⟨rfl, -⟩
  refine lands_bind (lands_inert fun _ => rfl) ?_
  rintro slot? _ rfl
  refine lands_bind lands_orFail ?_
  rintro slot _ ⟨rfl, -⟩
  exact ⟨rfl, current⟩

/-- In an open session the slot is found by its number. -/
theorem run_openSlot (valid : w.tables.Valid) (found : w.tables.findByToken? token = some s) (isOpen : s.isOpen w.now = true)
    {sequence : Int} {slot? : Option Slot} (held : w.tables.slotAt? s.id sequence = slot?) :
    (openSlot token sequence).run World.handle w =
      (match slot? with
        | some slot => .ok (s, slot)
        | none => .error (.notFound (.sequence sequence)), w) := by
  obtain ⟨ongoing, inTime⟩ := Session.isOpen_iff.1 isOpen
  have current : s.isExpired w.now = false := Session.isExpired_of_inTime inTime
  have looked := run_look valid found
  rw [Session.asOf_of_not_isExpired current, World.lookedAt_of_not_isExpired found current] at looked
  have asked : (ask (.slotAt s.id sequence)).run World.handle w = (.ok slot?, w) := by
    simp only [ask, run, World.handle, held]
  simp only [openSlot, run_bind, looked, ensureOngoing, closedFault?, ongoing, Call.ofExcept, run, asked]
  cases slot? <;> rfl

/-- An answer that cannot be read leaves no trace of an open session. -/
theorem run_submit_of_unreadable (valid : w.tables.Valid) (found : w.tables.findByToken? token = some s)
    (isOpen : s.isOpen w.now = true) {sequence : Int} {slot : Slot} (held : w.tables.slotAt? s.id sequence = some slot)
    {q : Question} (kept : w.catalog.get? slot.question = some q) {details : Details} (fits : q.detailsFor slot.kind = .ok details)
    {payload : Json.Value} {fault : InputFault} (unreadable : details.accept payload = .error fault) :
    (submit token sequence payload).run World.handle w = (.error (.input fault), w) := by
  have asked : (ask (.question slot.question)).run World.handle w = (.ok q, w) := by
    simp only [ask, run, World.handle, kept]
  simp only [submit, run_bind, run_openSlot valid found isOpen held, asked, fits, unreadable, Call.ofExcept, run, Except.mapError]

theorem lands_rejection {mid : α → World → Prop} (current : u.Current s) : Lands u mid (rejection s.id) u := by
  refine lands_of_run (run_lookById current) ?_
  split <;> exact lands_failed

theorem inert_question (id : Int) : (Access.question id).Inert := by
  intro w
  simp only [World.handle]
  split <;> rfl

theorem lands_submit (valid : w.tables.Valid) (token : String) (sequence : Int) (payload : Json.Value) :
    Lands (w.lookedAt token) (fun _ _ => True) (submit token sequence payload) w := by
  refine lands_bind (lands_openSlot valid token sequence) ?_
  rintro ⟨s, slot⟩ _ ⟨rfl, current⟩
  refine lands_bind (lands_inert (inert_question slot.question)) ?_
  rintro question _ rfl
  refine lands_bind lands_ofExcept ?_
  rintro details _ ⟨rfl, -⟩
  refine lands_bind lands_ofExcept ?_
  rintro value _ ⟨rfl, -⟩
  refine lands_bind (lands_inert (q := .now) fun _ => rfl) ?_
  rintro now _ rfl
  refine lands_bind (lands_write _) ?_
  rintro (_ | a) v refused
  · obtain rfl := refused rfl
    exact lands_rejection current
  · exact trivial

theorem lands_clear (valid : w.tables.Valid) (token : String) (sequence : Int) :
    Lands (w.lookedAt token) (fun _ _ => True) (clear token sequence) w := by
  refine lands_bind (lands_openSlot valid token sequence) ?_
  rintro ⟨s, slot⟩ _ ⟨rfl, current⟩
  refine lands_bind (lands_inert (q := .now) fun _ => rfl) ?_
  rintro now _ rfl
  refine lands_bind (lands_write _) ?_
  rintro (_ | _ | _) v refused
  · exact trivial
  · exact trivial
  · obtain rfl := refused rfl
    exact lands_rejection current

/-! ## Ending -/

theorem lands_ifOngoing : Lands u (fun _ _ => True) (ifOngoing s) u :=
  lands_bind lands_ofExcept fun _ _ _ => trivial

theorem lands_settled : Lands u (fun _ _ => True) (settled s) u := by
  unfold settled
  split
  · exact trivial
  · exact lands_failed
  · exact lands_failed

theorem run_now (w : World) : Call.now.run World.handle w = (.ok w.now, w) := rfl

theorem lands_finish (current : u.Current s) : Lands u (fun _ _ => True) (finish s) u := by
  refine lands_of_run (run_now u) ?_
  rw [if_neg (by simp [current.2])]
  refine lands_bind (lands_write _) ?_
  rintro (_ | done) v refused
  · obtain rfl := refused rfl
    exact lands_of_run (run_lookById current) lands_settled
  · exact trivial

theorem lands_complete (valid : w.tables.Valid) (token : String) :
    Lands (w.lookedAt token) (fun _ _ => True) (complete token) w := by
  cases found : w.tables.findByToken? token with
  | none =>
    unfold Lands
    rw [complete, run_bind, run_find_of_none found, World.lookedAt, Tables.lookedAt_of_none found]
  | some s =>
    have stored := (valid.consistent.findByToken?_iff.1 found).1
    cases expired : s.isExpired w.now with
    | true =>
      unfold Lands
      rw [run_complete_of_isExpired found stored expired, World.lookedAt, Tables.lookedAt_of_isExpired found expired]
    | false =>
      refine lands_of_run (run_find found) ?_
      rw [World.lookedAt_of_not_isExpired found expired]
      split
      · exact trivial
      · exact lands_finish ⟨stored, expired⟩
      · exact lands_ifOngoing

theorem lands_cancel (valid : w.tables.Valid) (token : String) :
    Lands (w.lookedAt token) (fun _ _ => True) (cancel token) w := by
  refine lands_bind (lands_look valid token) ?_
  rintro s _ ⟨rfl, -⟩
  split
  · refine lands_bind (lands_write _) ?_
    rintro (_ | _) v refused
    · obtain rfl := refused rfl
      exact lands_failed
    · exact trivial
  · exact lands_failed

/-! ## Looking -/

theorem lands_remaining : Lands u (fun _ v => v = u) (remaining s) u := by
  unfold remaining
  split
  · rfl
  · exact lands_of_run (run_now u) rfl

theorem lands_join (session : Int) : Lands u (fun _ v => v = u) (join session) u := by
  refine lands_bind (lands_inert fun _ => rfl) ?_
  rintro slots _ rfl
  refine lands_bind (lands_inert fun _ => rfl) ?_
  rintro questions _ rfl
  refine lands_bind (lands_inert fun _ => rfl) ?_
  rintro answers _ rfl
  rfl

theorem lands_get (valid : w.tables.Valid) (token : String) :
    Lands (w.lookedAt token) (fun _ v => v = w.lookedAt token) (get token) w := by
  refine lands_bind (lands_look valid token) ?_
  rintro s _ ⟨rfl, -⟩
  refine lands_bind (lands_inert fun _ => rfl) ?_
  rintro answers _ rfl
  refine lands_bind lands_remaining ?_
  rintro left _ rfl
  rfl

theorem lands_questions (valid : w.tables.Valid) (token : String) :
    Lands (w.lookedAt token) (fun _ v => v = w.lookedAt token) (questions token) w := by
  refine lands_bind (lands_look valid token) ?_
  rintro s _ ⟨rfl, -⟩
  refine lands_bind lands_ofExcept ?_
  rintro _ _ ⟨rfl, -⟩
  refine lands_bind (lands_join s.id) ?_
  rintro joined _ rfl
  refine lands_bind lands_ofExcept ?_
  rintro items _ ⟨rfl, -⟩
  refine lands_bind lands_remaining ?_
  rintro left _ rfl
  rfl

theorem lands_detail (valid : w.tables.Valid) (token : String) :
    Lands (w.lookedAt token) (fun _ v => v = w.lookedAt token) (detail token) w := by
  refine lands_bind (lands_look valid token) ?_
  rintro s _ ⟨rfl, -⟩
  split
  · refine lands_bind (lands_join s.id) ?_
    rintro joined _ rfl
    refine lands_bind lands_ofExcept ?_
    rintro items _ ⟨rfl, -⟩
    rfl
  · exact lands_failed

/-- A listing does not fail. -/
theorem lands_list (valid : w.tables.Valid) (f : Filter) : Lands w (fun _ _ => True) (list f) w := by
  unfold Lands
  rw [run_list valid.consistent.filed f]
  trivial

/-! ## Opening -/

theorem lands_create (user : Uuid) (r : Request) (chance : Chance) : Lands w (fun _ _ => True) (create user r chance) w := by
  have sound : Lands w (fun _ v => v = w) (within r.faults) w := by
    unfold within
    split
    · rfl
    · exact lands_failed
  refine lands_bind sound ?_
  rintro _ _ rfl
  refine lands_bind (lands_inert fun _ => rfl) ?_
  rintro known _ rfl
  split
  · exact lands_failed
  refine lands_bind (lands_inert fun _ => rfl) ?_
  rintro pool _ rfl
  refine lands_bind lands_ofExcept ?_
  rintro ⟨drawn, used⟩ _ ⟨rfl, -⟩
  refine lands_of_run (run_now _) ?_
  exact lands_ask (q := .create _ drawn) fun _ _ _ => trivial

namespace Operation

/-- The operation only looks at a session. -/
def isView : Operation → Bool
  | .get _ => true
  | .questions _ => true
  | .detail _ => true
  | _ => false

/-- **What an operation leaves at one instant**: if it fails, or only looks at a session, then the
session it is addressed to has been looked at, and nothing else has changed. -/
theorem lands_call (valid : w.tables.Valid) (o : Operation) :
    Lands (o.token?.elim w w.lookedAt) (fun _ v => o.isView = true → v = o.token?.elim w w.lookedAt) o.call w := by
  cases o with
  | create user r chance => exact (lands_create user r chance).imp fun _ _ _ view => by cases view
  | get token => exact (lands_get valid token).imp fun _ _ eq _ => eq
  | questions token => exact (lands_questions valid token).imp fun _ _ eq _ => eq
  | submit token sequence payload => exact (lands_submit valid token sequence payload).imp fun _ _ _ view => by cases view
  | clear token sequence => exact (lands_clear valid token sequence).imp fun _ _ _ view => by cases view
  | complete token => exact (lands_complete valid token).imp fun _ _ _ view => by cases view
  | cancel token => exact (lands_cancel valid token).imp fun _ _ _ view => by cases view
  | detail token => exact (lands_detail valid token).imp fun _ _ eq _ => eq
  | list f => exact (lands_list valid f).imp fun _ _ _ view => by cases view

/-- **An operation cannot tell whether somebody has looked** at the session before it at the same instant. -/
theorem run_call_lookedAt (valid : w.tables.Valid) {o : Operation} (addressed : o.token? = some token) :
    o.call.run World.handle (w.lookedAt token) = o.call.run World.handle w := by
  have looked := run_look_lookedAt valid token
  cases o with
  | create | list => cases addressed
  | get | questions | cancel | detail =>
    obtain rfl := Option.some.inj addressed
    exact run_bind_congr looked _
  | submit | clear =>
    obtain rfl := Option.some.inj addressed
    exact run_bind_congr (run_bind_congr looked _) _
  | complete =>
    obtain rfl := Option.some.inj addressed
    exact run_complete_lookedAt valid _

/-- An ongoing session that is stored after an operation on a session was stored like this before it. -/
theorem find?_of_ongoing {o : Operation} (addressed : o.token? = some token) {id : Int}
    (stored : (o.call.run World.handle w).2.tables.find? id = some s) (ongoing : s.status = .ongoing) :
    w.tables.find? id = some s := by
  have still : ∀ v, World.Still v v := fun _ => rfl
  have settles := Meets.run still (o.yields_call w)
  generalize (o.call.run World.handle w).1 = r, (o.call.run World.handle w).2 = v at settles stored
  cases r with
  | error e => exact Tables.Quiet.ongoing settles stored ongoing
  | ok a =>
    cases o with
    | create | list => cases addressed
    | submit | clear => exact (Tables.Marks.find? settles id).symm.trans stored
    | get | questions | cancel | detail | complete => exact Tables.Quiet.ongoing settles stored ongoing

/-- After an operation on a session, the session is not ongoing past its deadline. -/
theorem isExpired_of_run_call (valid : w.tables.Valid) {o : Operation} (addressed : o.token? = some token) {s' : Session}
    (found : w.tables.findByToken? token = some s) (stored : (o.call.run World.handle w).2.tables.find? s.id = some s') :
    s'.isExpired w.now = false := by
  rw [← run_call_lookedAt valid addressed] at stored
  by_contra expired
  have ongoing := (Session.isExpired_iff.1 (eq_true_of_ne_false expired)).1
  have same := (find?_of_ongoing addressed stored ongoing).symm.trans (valid.find?_lookedAt found)
  rw [Option.some.inj same, Session.isExpired_asOf] at expired
  exact expired rfl

end Operation

end Exam

end Proctor
