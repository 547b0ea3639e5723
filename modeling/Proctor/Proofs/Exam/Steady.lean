import Proctor.Proofs.Exam.Account
import Proctor.Proofs.Store.Orderly
import Proctor.Proofs.Store.Origin

/-!
# Operations while the clock goes on

As long as the clock does not go back, what a caller has read from it bounds what comes later. The
accesses of an operation are then `Prompt`: a write bears the instant that was read just before, an answer is
not older than its session, and a session is removed only if its deadline had not passed when the
clock was read. And the operation never comes to an internal error, but for a token that is given out twice
(`Operation.steady_call`).
-/

set_option autoImplicit false

namespace Proctor

/-- The instant that the access writes. -/
def Access.stamp? : Access → Option Instant
  | .create terms _ => some terms.startedAt
  | .markTimedOut _ t => some t
  | .complete _ t => some t
  | .record a => some a.answeredAt
  | .clear _ t => some t
  | _ => none

/-- The token that the operation gives to a new session. -/
def Exam.Operation.newToken? : Exam.Operation → Option String
  | .create _ _ chance => some chance.token
  | _ => none

/-- What is our own fault. -/
def Error.internal? : Error → Option InternalFault
  | .internal f => some f
  | _ => none

namespace View

/-- In its last deed the caller has read the clock, which showed `t`. -/
structure Read (v : View) (t : Instant) : Prop where
  last : ∃ d older, v.deeds = d :: older ∧ d.access = .now ∧ d.before.now = t
  le : t ≤ v.world.now

/-- The caller has not tried to open a session. -/
def Unopened (v : View) : Prop := ∀ d ∈ v.deeds, d.access.newToken? = none

end View

/-- The access, as the next one of an operation, goes by what the caller has seen. -/
structure Access.Prompt (o : Exam.Operation) (v : View) (q : Access) : Prop where
  stamped : ∀ t, q.stamp? = some t → v.Read t
  admitted : v.world.Admits q
  /-- A session is opened with the token of the operation, and once at most. -/
  opens : ∀ token, q.newToken? = some token → o.newToken? = some token ∧ v.Unopened
  /-- A session is removed by a cancellation, if the instant that was read is not past its deadline. -/
  removes : ∀ id, q = .deleteOngoing id → ∃ token s t, o = .cancel token ∧ v.Knows s ∧ s.token = token ∧ s.id = id ∧
    v.Read t ∧ t ≤ s.deadline

namespace View

/-- Only others have done something, and the clock has not gone back. -/
structure Waits (v u : View) : Prop extends v.Rests u where
  now_le : v.world.now ≤ u.world.now
  orderly : u.world.Orderly

/-- The caller of the operation has made an access. -/
structure Works (o : Exam.Operation) (v u : View) : Prop extends v.Grows u where
  now_le : v.world.now ≤ u.world.now
  orderly : u.world.Orderly
  did : ∃ d, u.deeds = d :: v.deeds ∧ d.before = v.world ∧ d.access.Prompt o v

/-- What holds of a view holds whatever is done, as long as the clock does not go back. -/
def Stays (inv : View → Prop) : Prop := ∀ v u : View, v.Grows u → v.world.now ≤ u.world.now → inv v → inv u

variable {v u : View}

theorem Lasting.stays {inv : View → Prop} (h : Lasting inv) : Stays inv := fun v u grows _ holds => h v u grows holds

theorem stays_le (t : Instant) : Stays fun v => t ≤ v.world.now := fun _ _ _ now_le le => Instant.le_trans le now_le

theorem Stays.and {p q : View → Prop} (hp : Stays p) (hq : Stays q) : Stays fun v => p v ∧ q v :=
  fun v u grows now_le h => ⟨hp v u grows now_le h.1, hq v u grows now_le h.2⟩

theorem Waits.trans {w : View} (valid : v.tables.Valid) (vu : v.Waits u) (uw : u.Waits w) : v.Waits w :=
  ⟨vu.toRests.trans valid uw.toRests, Instant.le_trans vu.now_le uw.now_le, uw.orderly⟩

/-- Whoever does something else has not tried to open a session either. -/
theorem Unopened.handle {i : Nat} {q : Access} {r : Except Error q.Answer} {w : View} (h : v.Unopened) (waits : v.Waits u)
    (other : q.newToken? = none) (eq : handle i q u = (r, w)) : w.Unopened := by
  cases eq
  rw [Unopened, ← waits.deeds] at h
  exact List.forall_mem_cons.2 ⟨other, h⟩

/-- What was read last stays so until the caller acts again. -/
theorem Read.waits {t : Instant} (h : v.Read t) (waits : v.Waits u) : u.Read t :=
  ⟨waits.deeds ▸ h.last, Instant.le_trans h.le waits.now_le⟩

theorem works_handle {o : Exam.Operation} {i : Nat} {q : Access} (valid : v.tables.Valid) (orderly : v.world.Orderly)
    (fair : q.Fair v.tables) (prompt : q.Prompt o v) : v.Works o (handle i q v).2 where
  toGrows := grows_handle valid fair
  now_le := Int.le_of_eq (congrArg Instant.nanos (World.now_handle v.world q).symm)
  orderly := orderly.handle valid fair prompt.admitted
  did := ⟨_, rfl, rfl, prompt⟩

end View

/-- A write to a session that bears the instant that was read just before is in order. -/
theorem View.Read.prompt {o : Exam.Operation} {v : View} {q : Access} {t : Instant} (read : v.Read t) (stamp : q.stamp? = some t)
    (admitted : v.world.Admits q) (old : q.newToken? = none) (keeps : ∀ id, q ≠ .deleteOngoing id) : q.Prompt o v where
  stamped := by
    intro t' stamp'
    obtain rfl := Option.some.inj (stamp.symm.trans stamp')
    exact read
  admitted := admitted
  opens := by
    intro token new
    cases old.symm.trans new
  removes := fun id removal => absurd removal (keeps id)

/-- A look at the tables, the catalog or the clock is always in order. -/
theorem Access.Reads.prompt {q : Access} (reads : q.Reads) (o : Exam.Operation) (v : View) : q.Prompt o v := by
  cases q with
  | create | markTimedOut | complete | deleteOngoing | record | clear => cases reads
  | _ => exact {
      stamped := fun _ h => by cases h
      admitted := trivial
      opens := fun _ h => by cases h
      removes := fun _ h => by cases h }

theorem Access.Reads.fair {q : Access} (reads : q.Reads) (t : Tables) : q.Fair t := by
  cases q with
  | create | markTimedOut | complete | deleteOngoing | record | clear => cases reads
  | _ => trivial

/-- An access is at fault for nothing but a token that a session has already. -/
theorem World.internal?_of_handle {w : World} {q : Access} {e : Error} (fair : q.Fair w.tables) (h : (w.handle q).1 = .error e) :
    e.internal? = none ∨ e = .internal .duplicateToken ∧
      ∃ token id, q.newToken? = some token ∧ w.tables.tokens.get? token = some id := by
  cases q with
  | create terms drawn =>
    have distinct : (drawn.map (·.sequence)).Nodup := by
      rw [fair.questions.numbered]
      refine List.nodup_range.map fun i j eq => ?_
      have same : (i : Int) + 1 = (j : Int) + 1 := eq
      omega
    simp only [handle, Tables.create, distinct, not_true_eq_false, if_false] at h
    split at h <;> cases h
    rename_i used
    obtain ⟨id, known⟩ := Option.isSome_iff_exists.1 used
    exact .inr ⟨rfl, terms.token, id, rfl, known⟩
  | markTimedOut id now =>
    obtain ⟨_, eq⟩ | ⟨_, _, _, eq⟩ | ⟨_, _, _, eq⟩ := w.tables.markTimedOut_cases id now <;>
      simp only [handle, eq] at h <;> cases h
    exact .inl rfl
  | question id =>
    simp only [handle] at h
    split at h <;> cases h
    exact .inl rfl
  | _ => cases h

namespace Exam

open Call

/-- In its last deed the caller has tried for the first time to open a session, with a token that a session had. -/
def Repeats (o : Operation) (v : View) : Prop :=
  ∃ d older token id, v.deeds = d :: older ∧ o.newToken? = some token ∧ d.before.tables.tokens.get? token = some id ∧
    ∀ e ∈ older, e.access.newToken? = none

/-- A value has `mid`; an error is not our fault, unless the caller was given a token that is in use. -/
def Sane {α : Type} (o : Operation) (mid : α → View → Prop) : Except Error α → View → Prop
  | .ok a, v => mid a v
  | .error e, v => e.internal? = none ∨ e = .internal .duplicateToken ∧ Repeats o v

/-- An outcome stays sane whatever others do. -/
theorem sane_of_waits {α : Type} {o : Operation} {r : Except Error α} {v u : View} (h : Sane o (fun _ _ => True) r v)
    (waits : v.Waits u) : Sane o (fun _ _ => True) r u := by
  cases r with
  | ok a => trivial
  | error e => simpa only [Sane, Repeats, waits.deeds] using h

/-- Among others, and while the clock does not go back, the call of caller `i` for the operation `o` makes prompt
accesses only and comes to no internal error. -/
abbrev Steadily {α : Type} (o : Operation) (i : Nat) (mid : α → View → Prop) (c : Call α) (v : View) : Prop :=
  c.Meets (View.handle i) View.Waits (View.Works o) (Sane o mid) v

section Rules

variable {α β : Type} {o : Operation} {i : Nat} {v : View}

theorem steady_imp {mid post : α → View → Prop} {c : Call α} (h : Steadily o i mid c v)
    (weaker : ∀ a u, mid a u → post a u) : Steadily o i post c v := by
  refine h.imp ?_
  rintro (e | a) u sane
  · exact sane
  · exact weaker a u sane

theorem steady_bind {mid : α → View → Prop} {post : β → View → Prop} {c : Call α} {f : α → Call β}
    (first : Steadily o i mid c v) (second : ∀ a u, mid a u → Steadily o i post (f a) u) : Steadily o i post (c >>= f) v :=
  meets_bind first second fun _ _ sane => sane

/-- What stays is there after the call as well. -/
theorem steady_keep {mid : α → View → Prop} {inv : View → Prop} {c : Call α} (stays : View.Stays inv) (here : inv v)
    (h : Steadily o i mid c v) : Steadily o i (fun a u => inv u ∧ mid a u) c v := by
  refine (Meets.carry h here (fun u w holds waits => stays u w waits.grows waits.now_le holds) fun u w holds works =>
    stays u w works.toGrows works.now_le holds).imp ?_
  rintro (e | a) u ⟨holds, sane⟩
  · exact sane
  · exact ⟨holds, sane⟩

theorem steady_ask {q : Access} (fair : ∀ u : View, v.Waits u → q.Fair u.tables) (prompt : ∀ u : View, v.Waits u → q.Prompt o u) :
    Steadily o i (fun answer w => ∃ u : View, v.Waits u ∧ u.Works o w ∧ View.handle i q u = (.ok answer, w)) (ask q) v := by
  intro u waits
  have works : u.Works o (View.handle i q u).2 :=
    View.works_handle waits.follows.valid waits.orderly (fair u waits) (prompt u waits)
  refine ⟨works, ?_⟩
  split
  · rename_i answer w eq
    rw [eq] at works
    exact ⟨u, waits, works, eq⟩
  · rename_i e w eq
    obtain ⟨failed, deeds⟩ := View.handle_eq eq
    obtain silent | ⟨rfl, token, id, opens, known⟩ := World.internal?_of_handle (fair u waits) (congrArg Prod.fst failed)
    · exact .inl silent
    · obtain ⟨own, first⟩ := (prompt u waits).opens token opens
      exact .inr ⟨rfl, _, _, token, id, deeds, own, known, first⟩

theorem steady_reads {q : Access} (reads : q.Reads) :
    Steadily o i (fun answer w => ∃ u : View, v.Waits u ∧ u.Works o w ∧ View.handle i q u = (.ok answer, w)) (ask q) v :=
  steady_ask (fun u _ => reads.fair u.tables) fun u _ => reads.prompt o u

/-- What is read from the clock is not before what it has shown. -/
theorem steady_now : Steadily o i (fun t u => u.Read t ∧ v.world.now ≤ t ∧ (v.Unopened → u.Unopened)) Call.now v := by
  refine steady_imp (steady_reads (q := .now) trivial) ?_
  rintro t w ⟨u, waits, -, eq⟩
  have unopened := fun unopened : v.Unopened => unopened.handle waits rfl eq
  cases eq
  exact ⟨⟨⟨_, _, rfl, rfl, rfl⟩, Instant.le_refl _⟩, waits.now_le, unopened⟩

theorem steady_ofExcept {r : Except Error α} (blameless : ∀ e, r = .error e → e.internal? = none) :
    Steadily o i (fun a u => r = .ok a ∧ u = v) (ofExcept r) v := by
  cases r with
  | ok a => exact ⟨rfl, rfl⟩
  | error e => exact .inl (blameless e rfl)

theorem steady_orFail {e : Error} {a? : Option α} (blameless : e.internal? = none) :
    Steadily o i (fun a u => a? = some a ∧ u = v) (orFail e a?) v := by
  cases a? with
  | some a => exact ⟨rfl, rfl⟩
  | none => exact .inl blameless

end Rules

variable {o : Operation} {i : Nat} {v : View}

/-! ## Finding a session -/

/-- The caller found this session, which has started by now. -/
def Sees (v : View) (s : Session) : Prop := v.Knows s ∧ s.startedAt ≤ v.world.now

theorem stays_sees (s : Session) : View.Stays fun v => Sees v s := (View.lasting_knows s).stays.and (View.stays_le s.startedAt)

theorem steady_find (token : String) (new : subject? v.deeds = none) :
    Steadily o i (fun s u => Sees u s ∧ s.token = token) (find token) v := by
  refine steady_bind (steady_reads trivial) ?_
  rintro s? w ⟨u, waits, -, eq⟩
  cases eq
  refine steady_imp (steady_orFail rfl) ?_
  rintro s _ ⟨found, rfl⟩
  have valid := waits.follows.valid
  obtain ⟨stored, named⟩ := valid.consistent.findByToken?_iff.1 found
  have subject : (subject? u.deeds).or ((u.tables.findByToken? token).map (·.id)) = some s.id := by
    rw [waits.deeds, new, show u.tables.findByToken? token = some s from found]
    rfl
  exact ⟨⟨⟨Tables.recalls_of_stored valid stored, subject⟩, waits.orderly.started stored⟩, named⟩

/-- A session that was seen past its deadline has ended when it is told of next. -/
theorem steady_markTimedOut {s : Session} {t : Instant} (seen : v.tables.Recalls s) (expired : s.isExpired t) (read : v.Read t) :
    Steadily o i (fun s' u => (u.tables.Recalls s' ∧ s'.toTerms = s.toTerms ∧ s'.id = s.id) ∧ s'.status ≠ .ongoing)
      (ask (.markTimedOut s.id t)) v := by
  refine steady_imp (steady_ask (fun x waits => (seen.later waits.follows.evolves).fair_markTimedOut expired)
    fun x waits => (read.waits waits).prompt rfl trivial rfl (by simp)) ?_
  rintro s' w ⟨x, waits, works, eq⟩
  have made : x.tables.markTimedOut s.id t = (.ok s', w.tables) := World.markTimedOut_of_handle (View.handle_eq eq).1
  have stored := Tables.find?_of_markTimedOut made
  have seen := (seen.later waits.follows.evolves).later works.follows.evolves
  have valid := works.follows.valid
  exact ⟨⟨Tables.recalls_of_stored valid stored, seen.terms stored, valid.consistent.session_id stored⟩,
    Tables.status_of_markTimedOut made⟩

/-- A session that is still ongoing when it was looked at is the same, and the clock was read before its deadline. -/
theorem steady_observe {s : Session} (seen : v.tables.Recalls s) :
    Steadily o i (fun s' u => u.tables.Recalls s' ∧ s'.toTerms = s.toTerms ∧ s'.id = s.id ∧
      (s'.status = .ongoing → s' = s ∧ ∃ t, u.Read t ∧ v.world.now ≤ t ∧ t ≤ s.deadline)) (observe s) v := by
  refine steady_bind (steady_keep (View.lasting_recalls s).stays seen steady_now) ?_
  rintro t u ⟨seen, read, later, -⟩
  split
  · rename_i expired
    refine steady_imp (steady_markTimedOut seen expired read) ?_
    rintro s' w ⟨⟨recalls, terms, same⟩, finished⟩
    exact ⟨recalls, terms, same, fun ongoing => absurd ongoing finished⟩
  · rename_i unexpired
    refine ⟨seen, rfl, rfl, fun ongoing => ⟨rfl, t, read, later, Instant.not_lt.1 fun late => ?_⟩⟩
    exact unexpired (Session.isExpired_iff.2 ⟨ongoing, late⟩)

theorem steady_look (token : String) (new : subject? v.deeds = none) :
    Steadily o i (fun s u => Sees u s ∧ s.token = token ∧ (s.status = .ongoing → ∃ t, u.Read t ∧ t ≤ s.deadline))
      (look token) v := by
  refine steady_bind (steady_find token new) ?_
  rintro s u ⟨sees, named⟩
  refine steady_imp (steady_keep (stays_sees s) sees (steady_observe sees.1.recalls)) ?_
  rintro s' w ⟨⟨known, started⟩, seen, terms, same, ongoing⟩
  refine ⟨⟨⟨seen, same ▸ known.subject⟩, ?_⟩, (congrArg Terms.token terms).trans named, ?_⟩
  · rwa [show s'.startedAt = s.startedAt from congrArg Terms.startedAt terms]
  · intro open'
    obtain ⟨rfl, t, read, -, inTime⟩ := ongoing open'
    exact ⟨t, read, inTime⟩

/-! ## Being refused -/

end Exam

/-- From this instant on, the session does not take changes. -/
def Tables.Closed (t : Tables) (id : Int) (now : Instant) : Prop :=
  id ≤ t.lastSession ∧ ∀ s, t.find? id = some s → s.isOpen now = false

namespace Tables

variable {t u : Tables} {id : Int} {now : Instant} {slot : Slot}

theorem Closed.later (h : t.Closed id now) (tu : t.Evolves u) : u.Closed id now := by
  refine ⟨Int.le_trans h.1 tu.lastSession_le, fun s stored => ?_⟩
  cases before : t.find? id with
  | none => cases (tu.gone h.1 before).symm.trans stored
  | some r =>
    obtain rfl | ⟨-, finished⟩ := tu.status before stored
    · exact h.2 s before
    · rcases finished with finished | finished <;> simp [Session.isOpen, Session.isOngoing, finished]

theorem takesAnswer_of_record {a : Answer} (h : (t.record a).1 = none) : t.takesAnswer a.slot a.answeredAt = false := by
  unfold record at h
  split at h
  · cases h
  · rename_i refused
    exact Bool.eq_false_iff.2 refused

theorem takesAnswer_of_clear {k : Int} (h : (t.clear k now).1 = .closed) : t.takesAnswer k now = false := by
  unfold clear at h
  split at h
  · split at h <;> cases h
  · rename_i refused
    exact Bool.eq_false_iff.2 refused

/-- A session that was seen and cannot be completed takes no changes. -/
theorem Recalls.closed {s : Session} (h : t.Recalls s) (refused : (t.complete s.id now).1 = none) : t.Closed s.id now := by
  obtain ⟨earlier, valid, before, evolves⟩ := h
  refine ⟨Int.le_trans (valid.consistent.session_le before) evolves.lastSession_le, ?_⟩
  obtain ⟨closed, -⟩ | ⟨_, -, -, eq⟩ := t.complete_cases s.id now
  · exact closed
  · rw [eq] at refused
    cases refused

/-- A session whose slot takes no answer does not take changes. -/
theorem RecallsSlot.closed (h : t.RecallsSlot slot) (refused : t.takesAnswer slot.id now = false) : t.Closed slot.session now := by
  obtain ⟨earlier, valid, held, follows⟩ := h
  obtain ⟨r, before⟩ := valid.consistent.slot_session held
  refine ⟨Int.le_trans (valid.consistent.session_le before) follows.evolves.lastSession_le, fun s stored => ?_⟩
  refine Bool.eq_false_iff.2 fun isOpen => ?_
  obtain ⟨ongoing, inTime⟩ := Session.isOpen_iff.1 isOpen
  have listed : slot ∈ t.slotsOf slot.session := by
    rw [follows.evolves.slots before stored]
    exact valid.consistent.mem_slotsOf_iff.2 ⟨held, rfl⟩
  have kept := (follows.valid.consistent.mem_slotsOf_iff.1 listed).1
  rw [takesAnswer_iff.2 ⟨slot, s, kept, stored, ongoing, inTime⟩] at refused
  cases refused

end Tables

namespace Exam

open Call

variable {o : Operation} {i : Nat} {v : View}

/-- The session takes no changes any more. -/
def Shut (v : View) (id : Int) : Prop := ∃ t, v.tables.Closed id t ∧ t ≤ v.world.now

theorem stays_shut (id : Int) : View.Stays fun v => Shut v id := by
  rintro v u grows now_le ⟨t, closed, le⟩
  exact ⟨t, closed.later grows.follows.evolves, Instant.le_trans le now_le⟩

/-- Whoever looks at a session that takes no changes any more finds it ended. -/
theorem steady_lookById {id : Int} (shut : Shut v id) : Steadily o i (fun s _ => s.status ≠ .ongoing) (lookById id) v := by
  refine steady_bind (steady_reads trivial) ?_
  rintro s? w ⟨u, waits, works, eq⟩
  cases eq
  refine steady_bind (steady_orFail rfl) ?_
  rintro s _ ⟨stored, rfl⟩
  have valid := waits.follows.valid
  refine steady_imp (steady_observe (Tables.recalls_of_stored valid stored)) ?_
  rintro s' w ⟨-, -, -, same⟩ ongoing
  obtain ⟨rfl, t, -, later, inTime⟩ := same ongoing
  obtain ⟨t', closed, le⟩ := stays_shut id v u waits.grows waits.now_le shut
  have isOpen := Session.isOpen_iff.2 ⟨ongoing, Instant.le_trans (Instant.le_trans le later) inTime⟩
  rw [closed.2 s' stored] at isOpen
  cases isOpen

theorem exists_of_closedFault {s : Session} (finished : s.status ≠ .ongoing) :
    ∃ e, closedFault? s = some e ∧ e.internal? = none := by
  unfold closedFault?
  split
  · rename_i ongoing
    exact absurd ongoing finished
  · exact ⟨_, rfl, rfl⟩
  · exact ⟨_, rfl, rfl⟩

theorem steady_rejection {α : Type} {mid : α → View → Prop} {id : Int} (shut : Shut v id) :
    Steadily o i mid (rejection id) v := by
  refine steady_bind (steady_lookById shut) fun s u finished => ?_
  obtain ⟨e, fault, blameless⟩ := exists_of_closedFault finished
  rw [fault]
  exact .inl blameless

theorem internal?_of_ensureOngoing {s : Session} {e : Error} (h : ensureOngoing s = .error e) : e.internal? = none := by
  unfold ensureOngoing closedFault? at h
  cases status : s.status <;> simp only [status] at h <;> cases h <;> rfl

theorem internal?_of_mapError_input {α : Type} {r : Except InputFault α} {e : Error} (h : r.mapError .input = .error e) :
    e.internal? = none := by
  cases r <;> cases h
  rfl

/-! ## Answering -/

theorem steady_openSlot (token : String) (sequence : Int) (new : subject? v.deeds = none) :
    Steadily o i (fun found u => (Sees u found.1 ∧ u.tables.RecallsSlot found.2) ∧ found.2.session = found.1.id ∧
      u.world.catalog.Offers found.2.question found.2.kind) (openSlot token sequence) v := by
  refine steady_bind (steady_look token new) ?_
  rintro s u ⟨sees, -⟩
  refine steady_bind (steady_ofExcept fun _ refused => internal?_of_ensureOngoing refused) ?_
  rintro _ _ ⟨-, rfl⟩
  refine steady_bind (steady_keep (stays_sees s) sees (steady_reads trivial)) ?_
  rintro slot? w ⟨sees, x, waits, -, eq⟩
  cases eq
  refine steady_bind (steady_orFail rfl) ?_
  rintro slot _ ⟨found, rfl⟩
  have valid := waits.follows.valid
  obtain ⟨held, own⟩ := valid.consistent.mem_slotsOf_iff.1 (List.mem_of_find?_eq_some found)
  exact ⟨⟨sees, x.tables, valid, held, .refl valid⟩, own, waits.orderly.offered held⟩

/-- An answer is not older than the session that its slot was found in. -/
theorem admits_record {u : View} {s : Session} {slot : Slot} {a : Answer} (sees : u.tables.Recalls s)
    (kept : u.tables.RecallsSlot slot) (own : slot.session = s.id) (here : a.slot = slot.id) (started : s.startedAt ≤ a.answeredAt) :
    u.world.Admits (.record a) := by
  intro held r at_slot stored
  rw [here] at at_slot
  obtain rfl := kept.eq at_slot
  rw [own] at stored
  rwa [show r.startedAt = s.startedAt from congrArg Terms.startedAt (sees.terms stored)]

theorem steady_submit (token : String) (sequence : Int) (payload : Json.Value) (new : subject? v.deeds = none) :
    Steadily o i (fun _ _ => True) (submit token sequence payload) v := by
  refine steady_bind (steady_openSlot token sequence new) ?_
  rintro ⟨s, slot⟩ u ⟨seen, own, offers⟩
  have stays := (stays_sees s).and (View.lasting_recallsSlot slot).stays
  refine steady_bind (steady_keep stays seen (steady_reads trivial)) ?_
  rintro question w ⟨seen, x, waits, -, eq⟩
  obtain ⟨q, found, kind⟩ := offers
  rw [← waits.catalog, World.get?_of_handle (View.handle_eq eq).1] at found
  obtain rfl := Option.some.inj found
  have fits : question.detailsFor slot.kind = .ok question.details := if_pos kind
  rw [fits]
  refine steady_bind (steady_ofExcept (by rintro e ⟨⟩)) ?_
  rintro details u ⟨-, rfl⟩
  refine steady_bind (steady_ofExcept fun _ refused => internal?_of_mapError_input refused) ?_
  rintro value u ⟨-, rfl⟩
  have started := seen.1.2
  refine steady_bind (steady_keep stays seen steady_now) ?_
  rintro t y ⟨seen, read, later, -⟩
  have prompt : ∀ x : View, y.Waits x → (Access.record ⟨slot.id, value, details.grades value, t⟩).Prompt o x := by
    intro x waits
    obtain ⟨sees, kept⟩ := stays y x waits.grows waits.now_le seen
    refine (read.waits waits).prompt rfl ?_ rfl (by simp)
    exact admits_record sees.1.recalls kept own rfl (Instant.le_trans started later)
  refine steady_bind (steady_ask (fun _ _ => trivial) prompt) ?_
  rintro a? w ⟨x, waits, works, eq⟩
  split
  · trivial
  · -- the slot was there when it was found, so it takes no answer because its session is over
    have refused := Tables.takesAnswer_of_record (Except.ok.inj (congrArg Prod.fst (View.handle_eq eq).1))
    have kept := (stays y x waits.grows waits.now_le seen).2
    have shut : Shut x s.id := ⟨t, own ▸ kept.closed refused, (read.waits waits).le⟩
    exact steady_rejection (stays_shut s.id x w works.toGrows works.now_le shut)

theorem steady_clear (token : String) (sequence : Int) (new : subject? v.deeds = none) :
    Steadily o i (fun _ _ => True) (clear token sequence) v := by
  refine steady_bind (steady_openSlot token sequence new) ?_
  rintro ⟨s, slot⟩ u ⟨seen, own, -⟩
  have stays := (stays_sees s).and (View.lasting_recallsSlot slot).stays
  refine steady_bind (steady_keep stays seen steady_now) ?_
  rintro t y ⟨seen, read, -, -⟩
  refine steady_bind (steady_ask (fun _ _ => trivial) fun x waits => (read.waits waits).prompt rfl trivial rfl (by simp)) ?_
  rintro removal w ⟨x, waits, works, eq⟩
  split
  · have refused := Tables.takesAnswer_of_clear (Except.ok.inj (congrArg Prod.fst (View.handle_eq eq).1))
    have kept := (stays y x waits.grows waits.now_le seen).2
    have shut : Shut x s.id := ⟨t, own ▸ kept.closed refused, (read.waits waits).le⟩
    exact steady_rejection (stays_shut s.id x w works.toGrows works.now_le shut)
  · trivial
  · trivial

/-! ## Ending -/

theorem steady_ifOngoing (s : Session) : Steadily o i (fun _ _ => True) (ifOngoing s) v :=
  steady_bind (steady_ofExcept fun _ refused => internal?_of_ensureOngoing refused) fun _ _ _ => trivial

theorem steady_settled {s : Session} (finished : s.status ≠ .ongoing) : Steadily o i (fun _ _ => True) (settled s) v := by
  obtain ⟨e, fault, blameless⟩ := exists_of_closedFault finished
  unfold settled
  rw [fault]
  split
  · trivial
  · rename_i given _
    cases given
    exact .inl blameless
  · rename_i none _
    cases none

theorem steady_finish {s : Session} (seen : v.tables.Recalls s) : Steadily o i (fun _ _ => True) (finish s) v := by
  refine steady_bind (steady_keep (View.lasting_recalls s).stays seen steady_now) ?_
  rintro t u ⟨seen, read, -, -⟩
  split
  · rename_i expired
    exact steady_bind (steady_markTimedOut seen expired read) fun s' _ _ => steady_ifOngoing s'
  refine steady_bind (steady_ask (fun _ _ => trivial) fun x waits => (read.waits waits).prompt rfl trivial rfl (by simp)) ?_
  rintro done? w ⟨x, waits, works, eq⟩
  split
  · trivial
  · have refused := Except.ok.inj (congrArg Prod.fst (View.handle_eq eq).1)
    have shut : Shut x s.id := ⟨t, (seen.later waits.follows.evolves).closed refused, (read.waits waits).le⟩
    exact steady_bind (steady_lookById (stays_shut s.id x w works.toGrows works.now_le shut)) fun _ _ finished =>
      steady_settled finished

theorem steady_complete (token : String) (new : subject? v.deeds = none) :
    Steadily o i (fun _ _ => True) (complete token) v := by
  refine steady_bind (steady_find token new) ?_
  rintro s u ⟨sees, -⟩
  split
  · trivial
  · exact steady_finish sees.1.recalls
  · exact steady_ifOngoing s

theorem steady_cancel (token : String) (new : subject? v.deeds = none) :
    Steadily (.cancel token) i (fun _ _ => True) (cancel token) v := by
  refine steady_bind (steady_look token new) ?_
  rintro s u ⟨sees, named, inTime⟩
  split
  · rename_i ongoing
    obtain ⟨t, read, inTime⟩ := inTime (Session.isOngoing_iff.1 ongoing)
    refine steady_bind (steady_ask (fun _ _ => trivial) ?_) ?_
    · intro x waits
      have known := View.lasting_knows s u x waits.grows sees.1
      exact {
        stamped := fun _ h => by cases h
        admitted := trivial
        opens := fun _ h => by cases h
        removes := by
          rintro _ ⟨⟩
          exact ⟨token, s, t, rfl, known, named, rfl, read.waits waits, inTime⟩ }
    · rintro deleted w -
      split
      · trivial
      · exact .inl rfl
  · exact .inl rfl

/-! ## Looking -/

theorem steady_remaining (s : Session) : Steadily o i (fun _ _ => True) (remaining s) v := by
  unfold remaining
  split
  · trivial
  · exact steady_bind steady_now fun _ _ _ => trivial

theorem steady_get (token : String) (new : subject? v.deeds = none) : Steadily o i (fun _ _ => True) (get token) v := by
  refine steady_bind (steady_look token new) fun s u _ => ?_
  refine steady_bind (steady_reads trivial) fun answers u _ => ?_
  exact steady_bind (steady_remaining s) fun left u _ => trivial

/-- Every slot has its question, which is of the kind that the slot is tagged with. -/
def Joined.Whole (j : Joined) : Prop := ∀ slot ∈ j.slots, ∃ q, j.questionOf slot = .ok q ∧ q.kind = slot.kind

theorem questionOf_of_get? {c : Catalog} (keyed : c.Keyed) {slots : List Slot} {answers : List Answer} {slot : Slot} {q : Question}
    (listed : slot ∈ slots) (found : c.get? slot.question = some q) :
    Joined.questionOf ⟨slots, c.getAll (slots.map (·.question)), answers⟩ slot = .ok q := by
  have held : q ∈ c.getAll (slots.map (·.question)) := by
    simp only [Catalog.getAll, List.filterMap_map, List.mem_filterMap]
    exact ⟨slot, listed, found⟩
  have only : ∀ r ∈ c.getAll (slots.map (·.question)), r.id = slot.question → r = q := by
    intro r kept same
    obtain ⟨id, -, found'⟩ := List.mem_filterMap.1 kept
    rw [← keyed id r found', same, found] at found'
    exact (Option.some.inj found').symm
  unfold Joined.questionOf
  split
  · rename_i r first
    rw [only r (List.mem_of_find?_eq_some first) (by simpa using List.find?_some first)]
  · rename_i missing
    exact absurd (keyed _ q found) (by simpa using List.find?_eq_none.1 missing q held)

theorem steady_join (session : Int) : Steadily o i (fun j _ => j.Whole) (join session) v := by
  refine steady_bind (steady_reads trivial) ?_
  rintro slots w ⟨u, waits, -, eq⟩
  cases eq
  have keyed := waits.orderly.keyed
  have offered : ∀ slot ∈ u.tables.sheet session, u.world.catalog.Offers slot.question slot.kind := by
    intro slot listed
    obtain ⟨-, k, held⟩ := Tables.mem_slotsOf.1 (mem_sortBy.1 listed)
    exact waits.orderly.offered held
  refine steady_bind (steady_reads trivial) ?_
  rintro questions w ⟨x, waits', -, eq⟩
  cases eq
  have same : x.world.catalog = u.world.catalog := waits'.catalog
  refine steady_bind (steady_reads trivial) fun answers _ _ => ?_
  intro slot listed
  obtain ⟨q, found, kind⟩ := offered slot listed
  refine ⟨q, ?_, kind⟩
  rw [same]
  exact questionOf_of_get? keyed listed found

theorem Joined.Whole.sheetItem {j : Joined} (whole : j.Whole) : ∀ slot ∈ j.slots, ∃ item, j.sheetItem slot = .ok item := by
  intro slot listed
  obtain ⟨q, found, -⟩ := whole slot listed
  rw [Joined.sheetItem, found]
  exact ⟨_, rfl⟩

theorem Joined.Whole.reviewItem {j : Joined} (whole : j.Whole) : ∀ slot ∈ j.slots, ∃ item, j.reviewItem slot = .ok item := by
  intro slot listed
  obtain ⟨q, found, kind⟩ := whole slot listed
  have fits : q.detailsFor slot.kind = .ok q.details := if_pos kind
  rw [Joined.reviewItem, found]
  change ∃ item, (q.detailsFor slot.kind >>= _) = .ok item
  rw [fits]
  exact ⟨_, rfl⟩

theorem exists_mapM_eq_ok {α β : Type} {f : α → Except Error β} {l : List α} (each : ∀ a ∈ l, ∃ b, f a = .ok b) :
    ∃ bs, l.mapM f = .ok bs := by
  induction l with
  | nil => exact ⟨[], rfl⟩
  | cons a l ih =>
    obtain ⟨⟨b, first⟩, rest⟩ := List.forall_mem_cons.1 each
    obtain ⟨bs, others⟩ := ih rest
    rw [List.mapM_cons, first, others]
    exact ⟨b :: bs, rfl⟩

theorem steady_questions (token : String) (new : subject? v.deeds = none) :
    Steadily o i (fun _ _ => True) (questions token) v := by
  refine steady_bind (steady_look token new) fun s u _ => ?_
  refine steady_bind (steady_ofExcept fun _ refused => internal?_of_ensureOngoing refused) fun _ u _ => ?_
  refine steady_bind (steady_join s.id) fun joined u whole => ?_
  obtain ⟨items, shown⟩ := exists_mapM_eq_ok whole.sheetItem
  rw [shown]
  refine steady_bind (steady_ofExcept (by rintro e ⟨⟩)) fun items u _ => ?_
  exact steady_bind (steady_remaining s) fun left u _ => trivial

theorem steady_detail (token : String) (new : subject? v.deeds = none) : Steadily o i (fun _ _ => True) (detail token) v := by
  refine steady_bind (steady_look token new) fun s u _ => ?_
  split
  · refine steady_bind (steady_join s.id) fun joined u whole => ?_
    obtain ⟨items, shown⟩ := exists_mapM_eq_ok whole.reviewItem
    rw [shown]
    exact steady_bind (steady_ofExcept (by rintro e ⟨⟩)) fun items u _ => trivial
  · exact .inl rfl

theorem steady_observeAll {sessions : List Session} (seen : ∀ s ∈ sessions, v.tables.Recalls s) :
    Steadily o i (fun _ _ => True) (observeAll sessions) v := by
  induction sessions generalizing v with
  | nil => trivial
  | cons s rest ih =>
    obtain ⟨here, others⟩ := List.forall_mem_cons.1 seen
    refine steady_bind (steady_keep (lasting_forall_recalls rest).stays others (steady_observe here)) ?_
    rintro s' u ⟨others, -⟩
    exact steady_bind (ih others) fun _ _ _ => trivial

theorem steady_list (f : Filter) : Steadily o i (fun _ _ => True) (list f) v := by
  refine steady_bind (steady_reads trivial) ?_
  rintro ⟨page, total⟩ w ⟨u, waits, -, eq⟩
  cases eq
  have seen : ∀ s ∈ (u.tables.list f).1, u.tables.Recalls s := by
    intro s onPage
    obtain ⟨id, stored⟩ := mem_selection (List.mem_of_mem_drop (List.mem_of_mem_take onPage))
    exact Tables.recalls_of_stored waits.follows.valid stored
  exact steady_bind (steady_observeAll seen) fun _ _ _ => trivial

/-! ## Opening -/

theorem internal?_of_draw {pool : List PoolEntry} {count : Nat} {words : List UInt32} {e : Error}
    (h : Draw.draw pool count words = .error e) : e.internal? = none := by
  unfold Draw.draw at h
  dsimp only at h
  split at h
  · cases h
    rfl
  split at h <;> cases h
  rfl

theorem steady_within (faults : List BoundFault) : Steadily o i (fun _ u => faults = [] ∧ u = v) (within faults) v := by
  unfold within
  split
  · rename_i none
    exact ⟨List.isEmpty_iff.1 none, rfl⟩
  · exact .inl rfl

/-- What is in a pool is on offer. -/
theorem steady_pool (scope : Scope) : Steadily o i
    (fun pool u => (∀ e ∈ pool, u.world.catalog.Offers e.question e.kind) ∧ (v.Unopened → u.Unopened)) (ask (.pool scope)) v := by
  refine steady_imp (steady_reads trivial) ?_
  rintro pool u ⟨x, waits, works, eq⟩
  refine ⟨fun e listed => ?_, fun unopened => unopened.handle waits rfl eq⟩
  obtain rfl : x.world.catalog.pool scope = pool := Except.ok.inj (congrArg Prod.fst eq)
  rw [works.catalog]
  exact waits.orderly.keyed.offers_of_mem_pool listed

/-- A session that starts at the instant that was read, with questions that are on offer, is opened in order. -/
theorem steady_open {terms : Terms} {drawn : List Drawn} (proper : Opening terms drawn) (own : o.newToken? = some terms.token)
    (unopened : v.Unopened) (read : v.Read terms.startedAt) (offered : ∀ d ∈ drawn, v.world.catalog.Offers d.question d.kind) :
    Steadily o i (fun _ _ => True) (ask (.create terms drawn)) v := by
  have prompt : ∀ u : View, v.Waits u → (Access.create terms drawn).Prompt o u := fun u waits => {
    stamped := by
      rintro _ ⟨⟩
      exact read.waits waits
    admitted := ⟨(read.waits waits).le, waits.catalog ▸ offered⟩
    opens := by
      rintro _ ⟨⟩
      rw [View.Unopened, waits.deeds]
      exact ⟨own, unopened⟩
    removes := fun _ h => by cases h }
  exact steady_imp (steady_ask (fun _ _ => proper) prompt) fun _ _ _ => trivial

theorem steady_create (user : Uuid) {r : Request} (chance : Chance) (fits : r.count ≤ Text.Width.signed32.greatest)
    (new : v.deeds = []) : Steadily (.create user r chance) i (fun _ _ => True) (create user r chance) v := by
  have unopened : v.Unopened := by simp [View.Unopened, new]
  refine steady_bind (steady_within r.faults) ?_
  rintro _ _ ⟨sound, rfl⟩
  refine steady_bind (steady_reads trivial) ?_
  rintro known u ⟨x, waits, -, eq⟩
  replace unopened := unopened.handle waits rfl eq
  split
  · exact .inl rfl
  refine steady_bind (steady_pool r.scope) ?_
  rintro pool u ⟨offered, kept⟩
  replace unopened := kept unopened
  refine steady_bind (steady_ofExcept fun _ refused => internal?_of_draw refused) ?_
  rintro ⟨drawn, used⟩ u ⟨draw, rfl⟩
  replace offered : ∀ d ∈ drawn, u.world.catalog.Offers d.question d.kind := fun d listed =>
    offered _ (Draw.mem_of_draw_eq_ok draw listed)
  have lasting := View.lasting_catalog fun c => ∀ d ∈ drawn, c.Offers d.question d.kind
  refine steady_bind (steady_keep lasting.stays offered steady_now) ?_
  rintro now y ⟨offered, read, -, kept⟩
  exact steady_open (opening_of_draw sound fits draw now) rfl (kept unopened) read offered

/-- **Operations are steady**: as long as the clock does not go back, their accesses are prompt and they come to no
internal error, except that a token may be in use. -/
theorem Operation.steady_call {o : Operation} (fits : o.fits) (new : v.deeds = []) : Steadily o i (fun _ _ => True) o.call v := by
  have subject : subject? v.deeds = none := congrArg subject? new
  cases o with
  | create user r chance =>
    have count : r.count ≤ Text.Width.signed32.greatest := by
      simp only [Operation.fits, Text.Width.holds, Bool.and_eq_true, decide_eq_true_eq] at fits
      exact fits.2.2
    exact steady_create user chance count new
  | get token => exact steady_get token subject
  | questions token => exact steady_questions token subject
  | submit token sequence payload => exact steady_submit token sequence payload subject
  | clear token sequence => exact steady_clear token sequence subject
  | complete token => exact steady_complete token subject
  | cancel token => exact steady_cancel token subject
  | detail token => exact steady_detail token subject
  | list f => exact steady_list f

end Exam

end Proctor
