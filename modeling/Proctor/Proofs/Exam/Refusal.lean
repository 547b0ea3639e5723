import Proctor.Proofs.Exam.Effect

/-!
# What becomes of a refused answer

`Call.Comes p n` says that a call comes to an outcome with `p` within `n` accesses of its own,
whatever it is told. An operation whose answer or removal of an answer is refused looks at the
session once more, to say why, and fails (`Operation.heeds_call`). That it gives up so soon
does not depend on what others do, as it holds for every answer that the tables could give.
-/

set_option autoImplicit false

namespace Proctor

/-- The slot that the access writes to. -/
def Access.slot? : Access → Option Int
  | .record a => some a.slot
  | .clear slot _ => some slot
  | _ => none

theorem Access.Quiet.slot?_eq_none {q : Access} (h : q.Quiet) : q.slot? = none := by
  cases q with
  | record | clear => cases h
  | _ => rfl

theorem Access.Opens.slot?_eq_none {user : Uuid} {q : Access} (h : q.Opens user) : q.slot? = none := by
  cases q with
  | record | clear => cases h
  | _ => rfl

namespace Call

variable {α β : Type}

/-- Within `n` accesses of its own the call comes to an outcome with `p`, whatever it is told. -/
def Comes (p : Except Error α → Prop) : Nat → Call α → Prop
  | _, .done a => p (.ok a)
  | _, .failed e => p (.error e)
  | 0, .step _ _ => False
  | n + 1, .step _ next => ∀ answer, (next answer).Comes p n

/-- Within `n` accesses of its own the call ends. -/
abbrev EndsWithin (n : Nat) (c : Call α) : Prop := c.Comes (fun _ => True) n

/-- Within `n` accesses of its own the call fails. -/
abbrev FailsWithin (n : Nat) (c : Call α) : Prop := c.Comes (fun r => ∃ e, r = .error e) n

theorem comes_done {p : Except Error α → Prop} {a : α} {n : Nat} : (done a).Comes p n ↔ p (.ok a) := by
  cases n <;> exact Iff.rfl

theorem comes_failed {p : Except Error α → Prop} {e : Error} {n : Nat} : (failed e).Comes p n ↔ p (.error e) := by
  cases n <;> exact Iff.rfl

theorem Comes.mono {p : Except Error α → Prop} {c : Call α} {n m : Nat} (h : c.Comes p n) (le : n ≤ m) : c.Comes p m := by
  induction c generalizing n m with
  | done a => exact comes_done.2 (comes_done.1 h)
  | failed e => exact comes_failed.2 (comes_failed.1 h)
  | step q next ih =>
    cases n with
    | zero => cases h
    | succ n =>
      obtain ⟨m, rfl⟩ := Nat.exists_eq_add_one_of_ne_zero (by omega : m ≠ 0)
      exact fun answer => ih answer (h answer) (by omega)

/-- After one access of its own the call comes to its outcome one access sooner. -/
theorem Comes.resume {p : Except Error α → Prop} {q : Access} {next : q.Answer → Call α} {n : Nat}
    (h : (step q next).Comes p (n + 1)) (failure : ∀ e, p (.error e)) (r : Except Error q.Answer) :
    (Call.resume next r).Comes p n := by
  cases r with
  | ok answer => exact h answer
  | error e => exact comes_failed.2 (failure e)

/-- The accesses of two parts add up. -/
theorem comes_bind {p : Except Error α → Prop} {r : Except Error β → Prop} {c : Call α} {f : α → Call β} {n m : Nat}
    (first : c.Comes p n) (second : ∀ a, p (.ok a) → (f a).Comes r m) (failed : ∀ e, p (.error e) → r (.error e)) :
    (c >>= f).Comes r (n + m) := by
  rw [bind_def]
  induction c generalizing n with
  | done a => exact (second a (comes_done.1 first)).mono (by omega)
  | failed e => exact comes_failed.2 (failed e (comes_failed.1 first))
  | step q next ih =>
    cases n with
    | zero => cases first
    | succ n =>
      rw [Nat.add_right_comm]
      exact fun answer => ih answer (first answer)

theorem ends_bind {c : Call α} {f : α → Call β} {n m : Nat} (first : c.EndsWithin n) (second : ∀ a, (f a).EndsWithin m) :
    (c >>= f).EndsWithin (n + m) :=
  comes_bind first (fun a _ => second a) fun _ _ => trivial

theorem ends_ask {q : Access} : (ask q).EndsWithin 1 := fun _ => trivial

theorem ends_orFail {e : Error} {a? : Option α} : (orFail e a?).EndsWithin 0 := by
  cases a? <;> exact trivial

/-- Whenever a write to a slot is refused, at most three accesses follow, and then the call fails. -/
def HeedsRefusal : Call α → Prop
  | .done _ => True
  | .failed _ => True
  | .step q next => ∀ answer, (next answer).HeedsRefusal ∧
      (q.slot?.isSome → q.Refuses answer → (next answer).FailsWithin 3)

theorem HeedsRefusal.resume {q : Access} {next : q.Answer → Call α} (h : (step q next).HeedsRefusal)
    (r : Except Error q.Answer) : (Call.resume next r).HeedsRefusal := by
  cases r with
  | ok answer => exact (h answer).1
  | error e => exact trivial

/-- A call that writes to no slot is never refused. -/
theorem heeds_of_only {c : Call α} (h : c.Only fun q => q.slot? = none) : c.HeedsRefusal := by
  induction c with
  | done a => exact trivial
  | failed e => exact trivial
  | step q next ih =>
    intro answer
    refine ⟨ih answer (h.2 answer), fun writes => ?_⟩
    rw [h.1] at writes
    cases writes

theorem heeds_of_quiet {c : Call α} (h : c.Only Access.Quiet) : c.HeedsRefusal :=
  heeds_of_only (h.imp fun _ quiet => quiet.slot?_eq_none)

theorem heeds_bind {c : Call α} {f : α → Call β} (first : c.HeedsRefusal) (second : ∀ a, (f a).HeedsRefusal) :
    (c >>= f).HeedsRefusal := by
  rw [bind_def]
  induction c with
  | done a => exact second a
  | failed e => exact trivial
  | step q next ih =>
    intro answer
    obtain ⟨rest, heeded⟩ := first answer
    refine ⟨ih answer rest, fun writes refused => ?_⟩
    refine comes_bind (m := 0) (heeded writes refused) (fun a gave => ?_) fun e _ => ⟨e, rfl⟩
    obtain ⟨e, eq⟩ := gave
    cases eq

/-- A write with what is done about its answer. -/
theorem heeds_ask_bind {q : Access} {f : q.Answer → Call β} (next : ∀ answer, (f answer).HeedsRefusal)
    (heeded : ∀ answer, q.Refuses answer → (f answer).FailsWithin 3) : (ask q >>= f).HeedsRefusal :=
  fun answer => ⟨next answer, fun _ => heeded answer⟩

end Call

namespace Exam

open Call

/-! ## Saying why -/

theorem ends_observe (s : Session) : (observe s).EndsWithin 2 := by
  refine ends_bind (n := 1) (m := 1) ends_ask fun now => ?_
  split
  · exact ends_ask
  · exact trivial

theorem ends_lookById (id : Int) : (lookById id).EndsWithin 3 :=
  ends_bind (n := 1) (m := 2) ends_ask fun _ => ends_bind (n := 0) ends_orFail ends_observe

theorem fails_rejection {α : Type} (session : Int) : (rejection (α := α) session).FailsWithin 3 := by
  refine comes_bind (m := 0) (ends_lookById session) (fun s _ => ?_) fun e _ => ⟨e, rfl⟩
  split <;> exact ⟨_, rfl⟩

/-! ## Answering -/

theorem heeds_submit (token : String) (sequence : Int) (payload : Json.Value) :
    (submit token sequence payload).HeedsRefusal := by
  refine heeds_bind (heeds_of_quiet (plain_openSlot token sequence).quiet) fun found => ?_
  refine heeds_bind (heeds_of_quiet (only_ask.2 trivial)) fun question => ?_
  refine heeds_bind (heeds_of_quiet only_ofExcept) fun details => ?_
  refine heeds_bind (heeds_of_quiet only_ofExcept) fun value => ?_
  refine heeds_bind (heeds_of_quiet (only_now.2 trivial)) fun now => ?_
  refine heeds_ask_bind (fun a? => ?_) ?_
  · cases a? with
    | some a => exact trivial
    | none => exact heeds_of_quiet (plain_rejection found.1.id).quiet
  · rintro _ rfl
    exact fails_rejection found.1.id

theorem heeds_clear (token : String) (sequence : Int) : (clear token sequence).HeedsRefusal := by
  refine heeds_bind (heeds_of_quiet (plain_openSlot token sequence).quiet) fun found => ?_
  refine heeds_bind (heeds_of_quiet (only_now.2 trivial)) fun now => ?_
  refine heeds_ask_bind (fun removal => ?_) ?_
  · cases removal with
    | closed => exact heeds_of_quiet (plain_rejection found.1.id).quiet
    | removed => exact trivial
    | absent => exact trivial
  · rintro _ rfl
    exact fails_rejection found.1.id

/-- **A refused answer is an error**, for every operation. -/
theorem Operation.heeds_call (o : Operation) : o.call.HeedsRefusal := by
  cases o with
  | create user r chance => exact heeds_of_only ((only_create user r chance).imp fun _ => Access.Opens.slot?_eq_none)
  | submit token sequence payload => exact heeds_submit token sequence payload
  | clear token sequence => exact heeds_clear token sequence
  | get token => exact heeds_of_quiet (plain_get token).quiet
  | questions token => exact heeds_of_quiet (plain_questions token).quiet
  | complete token => exact heeds_of_quiet (plain_complete token).quiet
  | cancel token => exact heeds_of_quiet (plain_cancel token).quiet
  | detail token => exact heeds_of_quiet (plain_detail token).quiet
  | list f => exact heeds_of_quiet (only_list f)

end Exam

end Proctor
