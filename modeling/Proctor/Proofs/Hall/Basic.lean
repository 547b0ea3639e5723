import Proctor.Proofs.Course.Scoring
import Proctor.Proofs.Exam.Account
import Proctor.Proofs.Exam.Refusal

/-!
# Callers at the same time

In a hall any number of callers carry out operations, one access at a time and in any order; the
clock may show anything at each access, also going backwards. The log holds all accesses, the
latest first. `Sound` is the invariant: the log accounts for the tables, and the rest of each
operation still gives a true account to its caller (`sound_play`).
-/

set_option autoImplicit false

namespace Proctor

/-- An operation with what is left of it. -/
structure Caller where
  operation : Exam.Operation
  rest : Call operation.Result

structure Hall where
  world : World
  /-- In the order in which they came. -/
  callers : List Caller
  /-- All accesses so far, the latest first. -/
  log : List Deed

namespace Hall

open Call

inductive Event where
  /-- A caller comes with an operation. -/
  | enters (o : Exam.Operation) (fits : o.fits = true)
  /-- A caller makes its next access, while the clock shows `now`. -/
  | acts (caller : Nat) (now : Instant)

def Event.isOf (i : Nat) : Event → Bool
  | .enters _ _ => false
  | .acts caller _ => caller == i

/-- What the clock shows at the event. -/
def Event.instant? : Event → Option Instant
  | .enters _ _ => none
  | .acts _ now => some now

/-- Nobody is there yet, and there are no sessions. -/
def start (catalog : Catalog) (now : Instant) (quota : Option Quota) : Hall := ⟨.start catalog now quota, [], []⟩

def tables (h : Hall) : Tables := h.world.tables

/-- The hall with a new caller. -/
def entered (h : Hall) (o : Exam.Operation) : Hall := { h with callers := h.callers ++ [⟨o, o.call⟩] }

/-- The hall after caller `i` has made its next access. -/
def acted (h : Hall) (i : Nat) (now : Instant) {o : Exam.Operation} {q : Access} (next : q.Answer → Call o.Result) : Hall :=
  let d : Deed := ⟨i, { h.world with now := now }, q⟩
  ⟨d.after, h.callers.set i ⟨o, .resume next d.outcome⟩, d :: h.log⟩

/-- Nothing happens if the caller is not there or has nothing left to do. -/
def act (h : Hall) : Event → Hall
  | .enters o _ => h.entered o
  | .acts i now =>
    match h.callers[i]? with
    | some ⟨_, .step _ next⟩ => h.acted i now next
    | _ => h

def play (h : Hall) (events : List Event) : Hall := events.foldl act h

/-- What caller `i` can see and has done. -/
def view (h : Hall) (i : Nat) : View := ⟨h.world, h.log.filter (·.caller == i)⟩

/-- The next access of caller `i`. -/
def access? (h : Hall) (i : Nat) : Option Access :=
  match h.callers[i]? with
  | some ⟨_, .step q _⟩ => some q
  | _ => none

/-- The error with which the operation of caller `i` has failed. -/
def error? (h : Hall) (i : Nat) : Option Error :=
  match h.callers[i]? with
  | some ⟨_, .failed e⟩ => some e
  | _ => none

/-- The operation of caller `i` has given a value. -/
def isDone (h : Hall) (i : Nat) : Bool :=
  match h.callers[i]? with
  | some ⟨_, .done _⟩ => true
  | _ => false

variable {h : Hall} {i j : Nat} {now : Instant} {o : Exam.Operation} {q : Access} {next : q.Answer → Call o.Result}

theorem exists_of_access? (here : h.access? i = some q) :
    ∃ (o : Exam.Operation) (next : q.Answer → Call o.Result), h.callers[i]? = some ⟨o, .step q next⟩ := by
  unfold access? at here
  split at here <;> cases here
  exact ⟨_, _, by assumption⟩

theorem exists_of_error? {e : Error} (here : h.error? i = some e) : ∃ o, h.callers[i]? = some ⟨o, .failed e⟩ := by
  unfold error? at here
  split at here <;> cases here
  exact ⟨_, by assumption⟩

/-- What an event can do. -/
theorem act_cases (h : Hall) (x : Event) :
    h.act x = h ∨ (∃ o, ∃ fits : o.fits = true, x = .enters o fits ∧ h.act x = h.entered o) ∨
      ∃ (i : Nat) (now : Instant) (o : Exam.Operation) (q : Access) (next : q.Answer → Call o.Result),
        x = .acts i now ∧ h.callers[i]? = some ⟨o, .step q next⟩ ∧ h.act x = h.acted i now next := by
  cases x with
  | enters o fits => exact .inr (.inl ⟨o, fits, rfl, rfl⟩)
  | acts i now =>
    cases here : h.callers[i]? with
    | none => exact .inl (by simp only [act, here])
    | some c =>
      obtain ⟨o, rest⟩ := c
      cases rest with
      | done a => exact .inl (by simp only [act, here])
      | failed e => exact .inl (by simp only [act, here])
      | step q next => exact .inr (.inr ⟨i, now, o, q, next, rfl, here, by simp only [act, here]⟩)

/-- A caller who is there now was there before, or has just come. -/
theorem callers_entered {c : Caller} (here : (h.entered o).callers[i]? = some c) :
    h.callers[i]? = some c ∨ i = h.callers.length ∧ c = ⟨o, o.call⟩ := by
  rcases Nat.lt_or_ge i h.callers.length with lt | le
  · exact .inl ((List.getElem?_append_left lt).symm.trans here)
  · rw [entered, List.getElem?_append_right le] at here
    obtain ⟨found, rfl⟩ := List.getElem?_eq_some_iff.1 here
    have last : i - h.callers.length < 1 := found
    exact .inr ⟨by omega, by simp⟩

theorem act_acts (here : h.callers[i]? = some ⟨o, .step q next⟩) : h.act (.acts i now) = h.acted i now next := by
  simp only [act, here]

theorem callers_acted_self (here : h.callers[i]? = some ⟨o, .step q next⟩) :
    (h.acted i now next).callers[i]? = some ⟨o, .resume next (World.handle q { h.world with now := now }).1⟩ := by
  have present := (List.getElem?_eq_some_iff.1 here).1
  exact List.getElem?_set_self present

theorem callers_acted_of_ne (ne : i ≠ j) : (h.acted i now next).callers[j]? = h.callers[j]? := List.getElem?_set_ne ne

/-- The caller who acts sees what its access gives. -/
theorem view_acted_self : (h.acted i now next).view i =
    (View.handle i q ⟨{ h.world with now := now }, (h.view i).deeds⟩).2 := by
  simp [view, acted, View.handle, Deed.after]

theorem deeds_acted_of_ne (ne : i ≠ j) : ((h.acted i now next).view j).deeds = (h.view j).deeds := by
  simp [view, acted, ne]

/-- Whatever the others do, what is left of each operation comes to an outcome with `post`. -/
def ComesTo (h : Hall) (post : (o : Exam.Operation) → Except Error o.Result → View → Prop) : Prop :=
  ∀ {i : Nat} {c : Caller}, h.callers[i]? = some c →
    c.rest.Meets (View.handle i) View.Rests View.Grows (post c.operation) (h.view i)

/-- What holds in a hall at any time. -/
structure Sound (h : Hall) : Prop where
  recorded : Recorded h.log h.tables
  caller_lt : ∀ d ∈ h.log, d.caller < h.callers.length
  accounts : ∀ {i : Nat} {c : Caller}, h.callers[i]? = some c → Exam.Accounts i c.operation.Vouches c.rest (h.view i)
  heeds : ∀ {i : Nat} {c : Caller}, h.callers[i]? = some c → c.rest.HeedsRefusal

theorem sound_start (catalog : Catalog) (now : Instant) (quota : Option Quota) : (start catalog now quota).Sound where
  recorded := .nil
  caller_lt := fun _ listed => by cases listed
  accounts := fun here => by cases here
  heeds := fun here => by cases here

namespace Sound

theorem valid (sound : h.Sound) : h.tables.Valid := sound.recorded.valid

/-- A new caller has done nothing. -/
theorem deeds_new (sound : h.Sound) : (h.view h.callers.length).deeds = [] := by
  refine List.filter_eq_nil_iff.2 fun d listed => ?_
  have := sound.caller_lt d listed
  simp only [beq_iff_eq]
  omega

/-- While only the clock moves, nothing has happened that a caller does not rely on. -/
theorem idle (sound : h.Sound) (i : Nat) (now : Instant) :
    (h.view i).Rests ⟨{ h.world with now := now }, (h.view i).deeds⟩ :=
  ⟨⟨.refl sound.valid, rfl⟩, rfl⟩

/-- An access of a caller is a step from what it sees, with the clock as it is then. -/
theorem grows_acted (sound : h.Sound) (here : h.callers[i]? = some ⟨o, .step q next⟩) (now : Instant) :
    View.Grows ⟨{ h.world with now := now }, (h.view i).deeds⟩ ((h.acted i now next).view i) := by
  rw [view_acted_self]
  exact ((sound.accounts here).resume (sound.idle i now)).1

theorem follows_acted (sound : h.Sound) (here : h.callers[i]? = some ⟨o, .step q next⟩) (now : Instant) :
    h.tables.Follows (h.acted i now next).tables :=
  (sound.grows_acted here now).follows

/-- The others have done nothing meanwhile. -/
theorem rests_acted (sound : h.Sound) (here : h.callers[i]? = some ⟨o, .step q next⟩) (now : Instant) (ne : i ≠ j) :
    (h.view j).Rests ((h.acted i now next).view j) :=
  ⟨⟨sound.follows_acted here now, (sound.grows_acted here now).catalog⟩, deeds_acted_of_ne ne⟩

/-- **What operations come to does not depend on who does what**: the caller who makes an access goes on from what the
access leaves, and the others from what they had. -/
theorem comesTo_acted (sound : h.Sound) (post : (o : Exam.Operation) → Except Error o.Result → View → Prop)
    (stable : ∀ {o r v u}, post o r v → v.Rests u → post o r u) (comes : h.ComesTo post)
    (here : h.callers[i]? = some ⟨o, .step q next⟩) (now : Instant) : (h.acted i now next).ComesTo post := by
  intro j c there
  by_cases same : i = j
  · subst same
    obtain rfl := Option.some.inj ((callers_acted_self here).symm.trans there)
    rw [view_acted_self]
    exact ((comes here).resume (sound.idle i now)).2
  · rw [callers_acted_of_ne same] at there
    have rests := sound.rests_acted here now same
    exact (comes there).stable (fun u further => rests.trans sound.valid further) fun r holds => stable holds rests

/-- What operations come to when a new one has come. -/
theorem comesTo_entered (sound : h.Sound) (post : (o : Exam.Operation) → Except Error o.Result → View → Prop) (comes : h.ComesTo post)
    (new : ∀ {i : Nat} {v : View}, v.deeds = [] → o.call.Meets (View.handle i) View.Rests View.Grows (post o) v) :
    (h.entered o).ComesTo post := by
  intro i c here
  obtain here | ⟨rfl, rfl⟩ := callers_entered here
  · exact comes here
  · exact new sound.deeds_new

theorem entered (sound : h.Sound) (fits : o.fits = true) : (h.entered o).Sound where
  recorded := sound.recorded
  caller_lt := by
    intro d listed
    have := sound.caller_lt d listed
    simp only [Hall.entered, List.length_append, List.length_singleton]
    omega
  accounts := sound.comesTo_entered (fun o => Exam.Tells o.Vouches) sound.accounts fun new =>
    Exam.Operation.accounts_call fits (congrArg subject? new)
  heeds := by
    intro i c here
    obtain here | ⟨-, rfl⟩ := callers_entered here
    · exact sound.heeds here
    · exact o.heeds_call

/-- **One access keeps the invariant.** -/
theorem acted (sound : h.Sound) (here : h.callers[i]? = some ⟨o, .step q next⟩) (now : Instant) : (h.acted i now next).Sound where
  recorded := .cons (sound.follows_acted here now) sound.recorded
  caller_lt := by
    have present := (List.getElem?_eq_some_iff.1 here).1
    simp only [Hall.acted, List.length_set]
    exact List.forall_mem_cons.2 ⟨present, sound.caller_lt⟩
  accounts := sound.comesTo_acted (fun o => Exam.Tells o.Vouches) Exam.Operation.tells_of_rests sound.accounts here now
  heeds := by
    intro j c there
    by_cases same : i = j
    · subst same
      obtain rfl := Option.some.inj ((callers_acted_self here).symm.trans there)
      exact (sound.heeds here).resume _
    · rw [callers_acted_of_ne same] at there
      exact sound.heeds there

/-- **The invariant of a step.** -/
theorem act (sound : h.Sound) (x : Event) : (h.act x).Sound ∧ h.tables.Follows (h.act x).tables := by
  obtain eq | ⟨o, fits, -, eq⟩ | ⟨i, now, o, q, next, -, here, eq⟩ := h.act_cases x
  · rw [eq]
    exact ⟨sound, .refl sound.valid⟩
  · rw [eq]
    exact ⟨sound.entered fits, .refl sound.valid⟩
  · rw [eq]
    exact ⟨sound.acted here now, sound.follows_acted here now⟩

/-- **The invariant of a run**: whatever happens, a hall stays sound, and its tables follow on those before. -/
theorem play (sound : h.Sound) (events : List Event) : (h.play events).Sound ∧ h.tables.Follows (h.play events).tables := by
  induction events generalizing h with
  | nil => exact ⟨sound, .refl sound.valid⟩
  | cons x events ih =>
    obtain ⟨sound', follows⟩ := sound.act x
    obtain ⟨sound'', follows'⟩ := ih sound'
    exact ⟨sound'', follows.trans sound.valid follows'⟩

/-- What every operation comes to that begins among others, it comes to in any run. -/
theorem comesTo_play (sound : h.Sound) (post : (o : Exam.Operation) → Except Error o.Result → View → Prop)
    (stable : ∀ {o r v u}, post o r v → v.Rests u → post o r u)
    (new : ∀ {o : Exam.Operation} {i : Nat} {v : View}, o.fits = true → v.deeds = [] →
      o.call.Meets (View.handle i) View.Rests View.Grows (post o) v)
    (comes : h.ComesTo post) (events : List Event) : (h.play events).ComesTo post := by
  induction events generalizing h with
  | nil => exact comes
  | cons x events ih =>
    refine ih (sound.act x).1 ?_
    obtain eq | ⟨o, fits, -, eq⟩ | ⟨i, now, o, q, next, -, here, eq⟩ := h.act_cases x
    · rw [eq]
      exact comes
    · rw [eq]
      exact sound.comesTo_entered post comes fun first => new fits first
    · rw [eq]
      exact sound.comesTo_acted post stable comes here now

/-- What a caller was told is a true account. -/
theorem tells (sound : h.Sound) {r : Except Error o.Result} (here : h.callers[i]? = some ⟨o, .ofExcept r⟩) :
    Exam.Tells o.Vouches r (h.view i) := by
  have account := sound.accounts here
  cases r with
  | ok a => exact account
  | error e => exact account

end Sound

/-! ## Progress of one caller -/

theorem callers_act_of_ne (ne : i ≠ j) (h : Hall) (now : Instant) : (h.act (.acts i now)).callers[j]? = h.callers[j]? := by
  obtain eq | ⟨_, _, absurd, _⟩ | ⟨i', _, o, q, next, same, -, eq⟩ := h.act_cases (.acts i now)
  · rw [eq]
  · cases absurd
  · cases same
    rw [eq, callers_acted_of_ne ne]

/-- What a caller comes to within some accesses, it comes to one access sooner after its turn, and others do not
keep it from that. -/
theorem comes_act {p : Except Error o.Result → Prop} (failure : ∀ e, p (.error e)) {rest : Call o.Result} {n : Nat}
    (here : h.callers[i]? = some ⟨o, rest⟩) (comes : rest.Comes p n) (x : Event) :
    ∃ rest', (h.act x).callers[i]? = some ⟨o, rest'⟩ ∧ rest'.Comes p (if x.isOf i then n - 1 else n) := by
  cases x with
  | enters o' fits =>
    have present := (List.getElem?_eq_some_iff.1 here).1
    exact ⟨rest, (List.getElem?_append_left present).trans here, comes⟩
  | acts j now =>
    by_cases same : j = i
    · subst same
      simp only [Event.isOf, beq_self_eq_true, if_true]
      cases rest with
      | done a => exact ⟨.done a, by simp only [act, here], comes_done.2 (comes_done.1 comes)⟩
      | failed e => exact ⟨.failed e, by simp only [act, here], comes_failed.2 (failure e)⟩
      | step q next =>
        rw [act_acts here]
        cases n with
        | zero => cases comes
        | succ n => exact ⟨_, callers_acted_self here, comes.resume failure _⟩
    · rw [callers_act_of_ne same, Event.isOf, if_neg (by simpa using same)]
      exact ⟨rest, here, comes⟩

theorem comes_play {p : Except Error o.Result → Prop} (failure : ∀ e, p (.error e)) {rest : Call o.Result} {n : Nat}
    (here : h.callers[i]? = some ⟨o, rest⟩) (comes : rest.Comes p n) (events : List Event) :
    ∃ rest', (h.play events).callers[i]? = some ⟨o, rest'⟩ ∧ rest'.Comes p (n - events.countP (·.isOf i)) := by
  induction events generalizing h rest n with
  | nil => exact ⟨rest, here, comes⟩
  | cons x events ih =>
    obtain ⟨rest', there, comes'⟩ := comes_act failure here comes x
    obtain ⟨rest'', there', comes''⟩ := ih there comes'
    refine ⟨rest'', there', ?_⟩
    rw [List.countP_cons]
    split at comes'' <;> rename_i turn
    · rwa [if_pos turn, Nat.add_comm, ← Nat.sub_sub]
    · rwa [if_neg turn]

/-! ## What a run does not change -/

theorem catalog_act (h : Hall) (x : Event) : (h.act x).world.catalog = h.world.catalog := by
  obtain eq | ⟨o, -, -, eq⟩ | ⟨i, now, o, q, next, -, -, eq⟩ := h.act_cases x
  · rw [eq]
  · rw [eq, entered]
  · rw [eq]
    exact World.catalog_handle _ q

theorem catalog_play (h : Hall) (events : List Event) : (h.play events).world.catalog = h.world.catalog := by
  induction events generalizing h with
  | nil => rfl
  | cons x events ih => exact (ih (h.act x)).trans (h.catalog_act x)

/-- Worlds follow on each other in a run. -/
theorem Sound.follows_play (sound : h.Sound) (events : List Event) : h.world.Follows (h.play events).world :=
  ⟨(sound.play events).2, h.catalog_play events⟩

/-- What a caller has done stays so. -/
theorem deeds_act (h : Hall) (x : Event) (i : Nat) : (h.view i).deeds <:+ ((h.act x).view i).deeds := by
  obtain eq | ⟨o, -, -, eq⟩ | ⟨j, now, o, q, next, -, -, eq⟩ := h.act_cases x <;> rewrite [eq]
  · exact List.suffix_rfl
  · exact List.suffix_rfl
  · exact (List.suffix_cons _ h.log).filter _

theorem deeds_play (h : Hall) (events : List Event) (i : Nat) : (h.view i).deeds <:+ ((h.play events).view i).deeds := by
  induction events generalizing h with
  | nil => exact List.suffix_rfl
  | cons x events ih => exact (h.deeds_act x i).trans (ih (h.act x))

theorem access?_of_callers (here : h.callers[i]? = some ⟨o, .step q next⟩) : h.access? i = some q := by
  simp only [access?, here]

/-- A caller has its next access before it until it has made it. -/
theorem access?_act (h : Hall) (x : Event) (waits : h.access? i = some q) :
    (h.act x).access? i = some q ∨ ∃ d ∈ ((h.act x).view i).deeds, d.access = q := by
  obtain ⟨o, next, here⟩ := exists_of_access? waits
  obtain eq | ⟨o', -, -, eq⟩ | ⟨j, now, o', q', next', -, there, eq⟩ := h.act_cases x <;> rw [eq]
  · exact .inl waits
  · have present := (List.getElem?_eq_some_iff.1 here).1
    exact .inl (access?_of_callers ((List.getElem?_append_left present).trans here))
  · by_cases same : j = i
    · subst same
      cases here.symm.trans there
      refine .inr ⟨⟨j, { h.world with now := now }, q⟩, ?_, rfl⟩
      rw [view_acted_self]
      exact List.mem_cons_self
    · exact .inl (access?_of_callers ((callers_acted_of_ne same).trans here))

/-- What is left of every operation `o` ends within so many accesses of its own. -/
def EndsWithin (h : Hall) (o : Exam.Operation) (n : Nat) : Prop :=
  ∀ {i : Nat} {rest : Call o.Result}, h.callers[i]? = some ⟨o, rest⟩ → rest.EndsWithin n

theorem EndsWithin.act {n : Nat} (ends : o.call.EndsWithin n) (ended : h.EndsWithin o n) (x : Event) : (h.act x).EndsWithin o n := by
  intro i rest here
  obtain eq | ⟨o', -, -, eq⟩ | ⟨j, now, o', q, next, -, there, eq⟩ := h.act_cases x <;> rw [eq] at here
  · exact ended here
  · obtain here | ⟨-, new⟩ := callers_entered here
    · exact ended here
    · cases new
      exact ends
  · by_cases same : j = i
    · subst same
      cases (callers_acted_self there).symm.trans here
      have left := ended there
      cases n with
      | zero => cases left
      | succ n => exact (left.resume (fun _ => trivial) _).mono (Nat.le_succ n)
    · exact ended ((callers_acted_of_ne same).symm.trans here)

theorem EndsWithin.play {n : Nat} (ends : o.call.EndsWithin n) (ended : h.EndsWithin o n) (events : List Event) :
    (h.play events).EndsWithin o n := by
  induction events generalizing h with
  | nil => exact ended
  | cons x events ih => exact ih (EndsWithin.act ends ended x)

theorem sound_play (catalog : Catalog) (now : Instant) (quota : Option Quota) (events : List Event) :
    ((start catalog now quota).play events).Sound :=
  ((sound_start catalog now quota).play events).1

namespace Sample

def starts : Hall := start Course.Sample.catalog ⟨0, false⟩ none

/-- A caller opens a session with one question, in the first four accesses of all. -/
def opens : List Event :=
  .enters Course.Sample.opens.operation Course.Sample.opens.fits :: List.replicate 4 (.acts 0 ⟨0, false⟩)

/-- A caller comes with the operation of this turn. -/
def comes (t : Turn) : Event := .enters t.operation t.fits

/-- These callers take turns, while the clock shows one nanosecond after the start. -/
def turns (callers : List Nat) : List Event := callers.map (.acts · ⟨1, false⟩)

end Sample

end Hall

end Proctor
