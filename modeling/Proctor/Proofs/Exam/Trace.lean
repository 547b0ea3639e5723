import Proctor.Proofs.Exam.Account

/-!
# What completions and cancellations have done

A completion and a cancellation find a session, read the clock and write, each in an access of its
own. When they have ended, their deeds tell what they came to (`Operation.traces_call`). A completion gives
the completed session that its last access to the tables met, unless this access was made to time the
session out. A cancellation that gives a value has removed a session, in the access after it had read
the clock; one that fails has removed nothing.
-/

set_option autoImplicit false

namespace Proctor

/-- The last access of the caller to anything but the clock. -/
def View.last? (v : View) : Option Deed := v.deeds.find? (·.access != .now)

/-- A session that has ended stays as it is when it is timed out. -/
theorem World.handle_markTimedOut_of_finished {w : World} {id : Int} {s : Session} (stored : w.tables.find? id = some s)
    (finished : s.status ≠ .ongoing) (now : Instant) : w.handle (.markTimedOut id now) = (.ok s, w) := by
  obtain ⟨missing, -⟩ | ⟨r, found, -, eq⟩ | ⟨r, found, ongoing, -⟩ := w.tables.markTimedOut_cases id now
  · cases stored.symm.trans missing
  · obtain rfl := Option.some.inj (stored.symm.trans found)
    simp only [handle, eq]
    rfl
  · obtain rfl := Option.some.inj (stored.symm.trans found)
    exact absurd ongoing finished

namespace Exam

open Call

/-- What a completion comes to if its last access to the tables met a completed session: this very session,
or an error if the access was made to time the session out. -/
def Completes (r : Except Error Session) (v : View) : Prop :=
  ∀ id d s, subject? v.deeds = some id → v.last? = some d → d.before.tables.find? id = some s → s.status = .completed →
    r = .ok s ∨ ∃ now, d.access = .markTimedOut id now ∧ s.deadline < now ∧ r = .error (.state (.closed .completed))

/-- A cancellation that gives a value has found a session, read the clock while the deadline had not passed, and
removed the session; one that fails has removed nothing. -/
def Cancels : Except Error Unit → View → Prop
  | .ok _, v => ∃ d n f s, v.deeds = [d, n, f] ∧ f.found? = some s.id ∧ f.before.tables.find? s.id = some s ∧
      n.access = .now ∧ n.before.now ≤ s.deadline ∧ d.Removes s.id
  | .error _, v => ∀ d ∈ v.deeds, ∀ id, ¬d.Removes id

/-- Among others, the call of caller `i` makes only fair accesses and comes to an outcome with `post`. -/
abbrev Traces {α : Type} (i : Nat) (post : Except Error α → View → Prop) (c : Call α) (v : View) : Prop :=
  c.Meets (View.handle i) View.Rests View.Grows post v

variable {i : Nat} {v : View}

theorem traces_ask {q : Access} (fair : ∀ u : View, v.Rests u → q.Fair u.tables) :
    Traces i (fun r w => ∃ u : View, v.Rests u ∧ u.Grows w ∧ View.handle i q u = (r, w)) (ask q) v := by
  intro u rests
  have grows : u.Grows (View.handle i q u).2 := View.grows_handle rests.follows.valid (fair u rests)
  refine ⟨grows, ?_⟩
  split <;> rename_i eq <;> rw [eq] at grows <;> exact ⟨u, rests, grows, eq⟩

/-- What is lasting is there after the call as well, whatever it comes to. -/
theorem traces_keep {α : Type} {inv : View → Prop} {post : Except Error α → View → Prop} {c : Call α}
    (lasting : View.Lasting inv) (here : inv v) (h : Traces i post c v) : Traces i (fun r u => inv u ∧ post r u) c v :=
  h.carry here (fun u w holds rests => lasting u w rests.grows holds) fun u w holds grows => lasting u w grows holds

/-! ## Finding and observing -/

theorem traces_find (token : String) : Traces i (fun r w => ∃ u : View, v.Rests u ∧ u.Grows w ∧
    w.deeds = ⟨i, u.world, .findByToken token⟩ :: v.deeds ∧ u.tables.findByToken? token = r.toOption) (find token) v := by
  refine meets_bind (traces_ask fun _ _ => trivial) ?_ ?_
  · rintro s? w ⟨u, rests, grows, eq⟩
    cases eq
    have deeds := congrArg (List.cons ⟨i, u.world, .findByToken token⟩) rests.deeds
    cases found : u.world.tables.findByToken? token with
    | none => exact ⟨u, rests, grows, deeds, found⟩
    | some s => exact ⟨u, rests, grows, deeds, found⟩
  · rintro e w ⟨u, -, -, eq⟩
    cases eq

/-- Whoever looks at a session reads the clock, and only then times it out. -/
theorem traces_observe {s : Session} (seen : v.tables.Recalls s) :
    Traces i (fun r w => ∃ u : View, v.Rests u ∧
      (s.isExpired u.world.now = false ∧ r = .ok s ∧ w.deeds = ⟨i, u.world, .now⟩ :: v.deeds ∨
        s.isExpired u.world.now = true ∧ ∃ x : View, r = (x.world.handle (.markTimedOut s.id u.world.now)).1 ∧
          w.deeds = ⟨i, x.world, .markTimedOut s.id u.world.now⟩ :: ⟨i, u.world, .now⟩ :: v.deeds)) (observe s) v := by
  refine meets_bind (traces_ask fun _ _ => trivial) ?_ ?_
  · rintro now w ⟨u, rests, grows, eq⟩
    cases eq
    have deeds := congrArg (List.cons ⟨i, u.world, .now⟩) rests.deeds
    split
    · rename_i expired
      have recalls := (seen.later rests.follows.evolves).later grows.follows.evolves
      refine (traces_ask fun x rests => (recalls.later rests.follows.evolves).fair_markTimedOut expired).imp ?_
      rintro r w ⟨x, others, -, eq⟩
      obtain ⟨rfl, rfl⟩ := Prod.mk.inj eq
      exact ⟨u, rests, .inr ⟨expired, x, rfl, congrArg (List.cons _) (others.deeds.trans deeds)⟩⟩
    · rename_i unexpired
      exact ⟨u, rests, .inl ⟨by simpa using unexpired, rfl, deeds⟩⟩
  · rintro e w ⟨u, -, -, eq⟩
    cases eq

/-- The session of an id as it stands now: if the last access to the tables met it completed, it is given like this. -/
theorem traces_lookById (id : Int) : Traces i (fun r w => ∀ {d s}, w.last? = some d → d.before.tables.find? id = some s →
    s.status = .completed → r = .ok s) (lookById id) v := by
  refine meets_bind (traces_ask fun _ _ => trivial) ?_ ?_
  · rintro s? w ⟨u, rests, grows, eq⟩
    cases eq
    cases found : u.world.tables.find? id with
    | none =>
      intro d s last stored
      obtain rfl : _ = d := by simpa [View.last?] using last
      cases found.symm.trans stored
    | some r =>
      have valid := rests.follows.valid
      show Traces i _ (observe r) ⟨u.world, ⟨i, u.world, .find id⟩ :: u.deeds⟩
      refine Meets.imp (traces_observe ?_) ?_
      · exact Tables.recalls_of_stored valid found
      rintro r' w ⟨y, -, ⟨-, rfl, deeds⟩ | ⟨-, x, rfl, deeds⟩⟩ d s last stored completed
      · -- only the clock was read since the session was found
        obtain rfl : _ = d := by simpa [View.last?, deeds] using last
        cases found.symm.trans stored
        rfl
      · obtain rfl : _ = d := by simpa [View.last?, deeds] using last
        rw [valid.consistent.session_id found, World.handle_markTimedOut_of_finished stored (by simp [completed])]
  · rintro e w ⟨u, -, -, eq⟩
    cases eq

/-! ## Completing -/

/-- A session that has ended refuses changes with an error. -/
theorem ifOngoing_of_completed {s : Session} (completed : s.status = .completed) :
    ifOngoing s = .failed (.state (.closed .completed)) := by
  simp [ifOngoing, ensureOngoing, closedFault?, completed]
  rfl

theorem traces_ifOngoing {s : Session} {post : Except Error Session → View → Prop} (h : ∀ r, post r v) :
    Traces i post (ifOngoing s) v := by
  unfold ifOngoing
  cases ensureOngoing s with
  | ok _ => exact h _
  | error e => exact h _

/-- A completion that was not taken gives the session if it was completed meanwhile. -/
theorem traces_settled {id : Int} {s : Session} (subject : subject? v.deeds = some id)
    (seen : ∀ {d r}, v.last? = some d → d.before.tables.find? id = some r → r.status = .completed → s = r) :
    Traces i Completes (settled s) v := by
  have ofError : ∀ {e}, s.status ≠ .completed → Traces i Completes (.failed e) v := by
    intro e unfinished id d r named last stored completed
    obtain rfl := Option.some.inj (subject.symm.trans named)
    exact absurd (seen last stored completed ▸ completed) unfinished
  unfold settled
  split
  · intro id d r named last stored completed
    obtain rfl := Option.some.inj (subject.symm.trans named)
    exact .inl (congrArg _ (seen last stored completed))
  · rename_i unfinished
    exact ofError unfinished
  · rename_i unfinished
    exact ofError unfinished

/-- If the last access to the tables met the session before its end, a completion may come to anything. -/
theorem completes_of_unfinished {d : Deed} {s : Session} (subject : subject? v.deeds = some s.id) (last : v.last? = some d)
    (stored : d.before.tables.find? s.id = some s) (unfinished : s.status ≠ .completed) (r : Except Error Session) :
    Completes r v := by
  intro id d' s' named last' stored' completed
  obtain rfl := Option.some.inj (subject.symm.trans named)
  obtain rfl := Option.some.inj (last.symm.trans last')
  obtain rfl := Option.some.inj (stored.symm.trans stored')
  exact absurd completed unfinished

/-- Whoever times out a session that was completed meanwhile is refused. -/
theorem traces_timeOut {s : Session} {now : Instant} (known : v.Knows s) (expired : s.isExpired now) :
    Traces i Completes (ask (.markTimedOut s.id now) >>= ifOngoing) v := by
  have fair : ∀ x : View, v.Rests x → (Access.markTimedOut s.id now).Fair x.tables := fun x rests =>
    (known.recalls.later rests.follows.evolves).fair_markTimedOut expired
  refine meets_bind (traces_keep (View.lasting_subject s.id) known.subject (traces_ask fair)) ?_ ?_
  · rintro r w ⟨subject, x, rests, -, eq⟩
    have last : w.last? = some ⟨i, x.world, .markTimedOut s.id now⟩ := by simp [View.last?, (View.handle_eq eq).2]
    have given : ∀ {r'}, x.tables.find? s.id = some r' → r'.status = .completed → r = r' := by
      intro r' stored completed
      have same := World.handle_markTimedOut_of_finished stored (by simp [completed]) now
      exact Except.ok.inj (congrArg Prod.fst ((View.handle_eq eq).1.symm.trans same))
    by_cases completed : r.status = .completed
    · rw [ifOngoing_of_completed completed]
      intro id d s' named last' stored completed'
      obtain rfl := Option.some.inj (subject.symm.trans named)
      obtain rfl := Option.some.inj (last.symm.trans last')
      have terms := (known.recalls.later rests.follows.evolves).terms stored
      have late : s'.deadline < now := congrArg Terms.deadline terms ▸ (Session.isExpired_iff.1 expired).2
      exact .inr ⟨now, rfl, late, rfl⟩
    · refine traces_ifOngoing fun _ id d s' named last' stored completed' => ?_
      obtain rfl := Option.some.inj (subject.symm.trans named)
      obtain rfl := Option.some.inj (last.symm.trans last')
      exact absurd (given stored completed' ▸ completed') completed
  · -- only a session that is gone cannot be timed out
    rintro e w ⟨subject, x, -, -, eq⟩ id d s' named last stored completed
    obtain rfl := Option.some.inj (subject.symm.trans named)
    obtain rfl : _ = d := by simpa [View.last?, (View.handle_eq eq).2] using last
    have same := World.handle_markTimedOut_of_finished stored (by simp [completed]) now
    cases congrArg Prod.fst (same.symm.trans (View.handle_eq eq).1)

/-- Whoever completes a session that was completed meanwhile looks at it once more, and gives it. -/
theorem traces_finish {s : Session} (known : v.Knows s) : Traces i Completes (finish s) v := by
  refine meets_bind (traces_keep (View.lasting_knows s) known (traces_ask fun _ _ => trivial)) ?_ ?_
  · rintro now u ⟨known, -⟩
    split
    · rename_i expired
      exact traces_timeOut known expired
    refine meets_bind (traces_keep (View.lasting_subject s.id) known.subject (traces_ask fun x rests => trivial)) ?_ ?_
    · rintro done? w ⟨subject, x, rests, -, eq⟩
      have answer : done? = (x.tables.complete s.id now).1 :=
        (Except.ok.inj (congrArg Prod.fst (View.handle_eq eq).1)).symm
      obtain ⟨-, h⟩ | ⟨r, stored, isOpen, h⟩ := x.tables.complete_cases s.id now
      · rw [answer, h]
        refine meets_bind (traces_keep (View.lasting_subject s.id) subject (traces_lookById s.id)) ?_ ?_
        · rintro r w ⟨subject, seen⟩
          exact traces_settled subject fun last stored completed => Except.ok.inj (seen last stored completed)
        · rintro e w ⟨subject, seen⟩ id d s' named last stored completed
          obtain rfl := Option.some.inj (subject.symm.trans named)
          cases seen last stored completed
      · rw [answer, h]
        have last : w.last? = some ⟨i, x.world, .complete s.id now⟩ := by simp [View.last?, (View.handle_eq eq).2]
        have same := rests.follows.valid.consistent.session_id stored
        have ongoing := (Session.isOpen_iff.1 isOpen).1
        exact completes_of_unfinished (same ▸ subject) last (same.symm ▸ stored) (by simp [ongoing]) _
    · rintro e w ⟨-, u, -, -, eq⟩
      cases eq
  · rintro e w ⟨-, u, -, -, eq⟩
    cases eq

theorem traces_complete (token : String) (new : v.deeds = []) : Traces i Completes (complete token) v := by
  refine meets_bind (traces_find token) ?_ ?_
  · rintro s w ⟨u, rests, grows, deeds, found⟩
    have valid := rests.follows.valid
    obtain ⟨stored, -⟩ := valid.consistent.findByToken?_iff.1 found
    rw [new] at deeds
    have last : w.last? = some ⟨i, u.world, .findByToken token⟩ := by simp [View.last?, deeds]
    have subject : subject? w.deeds = some s.id := by
      rw [deeds]
      exact congrArg (Option.map _) found
    split
    · intro id d s' named last' stored' completed
      obtain rfl := Option.some.inj (subject.symm.trans named)
      obtain rfl := Option.some.inj (last.symm.trans last')
      exact .inl (congrArg _ (Option.some.inj (stored.symm.trans stored')))
    · exact traces_finish ⟨(Tables.recalls_of_stored valid stored).later grows.follows.evolves, subject⟩
    · rename_i unfinished _
      exact traces_ifOngoing (completes_of_unfinished subject last stored unfinished)
  · rintro e w ⟨u, -, -, deeds, found⟩ id d s named
    rw [deeds, new] at named
    have none : (u.tables.findByToken? token).map (·.id) = some id := named
    rw [found] at none
    cases none

/-! ## Cancelling -/

/-- Whoever looks at a session removes nothing; if it finds the session ongoing, the clock that it read last showed an
instant before the deadline. -/
theorem traces_look (token : String) (new : v.deeds = []) : Traces i (fun r w => (∀ d ∈ w.deeds, ∀ id, ¬d.Removes id) ∧
    ∀ s, r = .ok s → s.isOngoing = true → ∃ n f, w.deeds = [n, f] ∧ f.found? = some s.id ∧
      f.before.tables.find? s.id = some s ∧ n.access = .now ∧ n.before.now ≤ s.deadline) (look token) v := by
  refine meets_bind (traces_find token) ?_ ?_
  · rintro s u ⟨x, rests, grows, deeds, found⟩
    have valid := rests.follows.valid
    obtain ⟨stored, -⟩ := valid.consistent.findByToken?_iff.1 found
    rw [new] at deeds
    have named : (⟨i, x.world, .findByToken token⟩ : Deed).found? = some s.id := congrArg (Option.map _) found
    refine (traces_observe ((Tables.recalls_of_stored valid stored).later grows.follows.evolves)).imp ?_
    rintro r w ⟨y, -, ⟨unexpired, rfl, after⟩ | ⟨-, z, rfl, after⟩⟩
    · rw [after, deeds]
      refine ⟨?_, ?_⟩
      · simp [Deed.Removes]
      rintro _ ⟨⟩ ongoing
      refine ⟨_, _, rfl, named, stored, rfl, Instant.not_lt.1 fun late => ?_⟩
      simp [Session.isExpired, ongoing, late] at unexpired
    · rw [after, deeds]
      refine ⟨?_, ?_⟩
      · simp [Deed.Removes]
      · -- a session that was timed out is not ongoing
        intro s' given ongoing
        have made := World.markTimedOut_of_handle (w := z.world) (Prod.ext given rfl)
        exact absurd (Session.isOngoing_iff.1 ongoing) (Tables.status_of_markTimedOut made)
  · rintro e w ⟨x, -, -, deeds, -⟩
    rw [deeds, new]
    simp [Deed.Removes]

theorem traces_cancel (token : String) (new : v.deeds = []) : Traces i Cancels (cancel token) v := by
  refine meets_bind (traces_look token new) ?_ ?_
  · rintro s u ⟨spared, seen⟩
    split
    · rename_i ongoing
      obtain ⟨n, f, deeds, named, stored, read, inTime⟩ := seen s rfl ongoing
      refine meets_bind (traces_ask fun _ _ => trivial) ?_ ?_
      · rintro deleted w ⟨x, rests, -, eq⟩
        have removed : (x.tables.deleteOngoing s.id).1 = deleted := Except.ok.inj (congrArg Prod.fst (View.handle_eq eq).1)
        have after := (View.handle_eq eq).2
        rw [rests.deeds, deeds] at after
        split
        · rename_i done
          exact ⟨_, n, f, s, after, named, stored, read, inTime, rfl, removed.trans done⟩
        · rename_i refused
          show ∀ d ∈ w.deeds, _
          rw [after, ← deeds]
          refine List.forall_mem_cons.2 ⟨?_, spared⟩
          rintro id ⟨same, gone⟩
          cases same
          exact refused (removed.symm.trans gone)
      · rintro e w ⟨u, -, -, eq⟩
        cases eq
    · exact spared
  · rintro e w ⟨spared, -⟩
    exact spared

namespace Operation

/-- What the deeds of an operation that has ended tell of its outcome. -/
def Ends : (o : Operation) → Except Error o.Result → View → Prop
  | .complete _, r, v => Completes r v
  | .cancel _, r, v => Cancels r v
  | _, _, _ => True

/-- What the deeds of a caller tell does not change when others act. -/
theorem ends_of_rests {o : Operation} {r : Except Error o.Result} {u : View} (h : o.Ends r v) (rests : v.Rests u) : o.Ends r u := by
  cases o with
  | complete token => simpa only [Ends, Completes, View.last?, rests.deeds] using h
  | cancel token =>
    cases r with
    | ok a => simpa only [Ends, Cancels, rests.deeds] using h
    | error e => simpa only [Ends, Cancels, rests.deeds] using h
  | _ => exact trivial

/-- **The deeds of completions and cancellations tell what they came to**, whatever others do. -/
theorem traces_call {o : Operation} (fits : o.fits) (new : v.deeds = []) : Traces i o.Ends o.call v := by
  cases o with
  | complete token => exact traces_complete token new
  | cancel token => exact traces_cancel token new
  | _ => exact (accounts_call fits (congrArg subject? new)).imp fun _ _ _ => trivial

end Operation

end Exam

end Proctor
