import Proctor.Proofs.Call.Coupling
import Proctor.Proofs.Course.Basic
import Proctor.Proofs.Store.Isolation

/-!
# Operations on one session among the others

An operation that is addressed to a token makes accesses to the session of this token only
(`Access.Within`). Such an access gives the same in any two worlds that hold this session alike, and
leaves it alike and everything else alone (`World.twins_handle`). So the whole operation does
(`Operation.isolates_call`).
-/

set_option autoImplicit false

namespace Proctor

/-- As far as it goes to the tables, the access goes to the session `id` with this token and to slots with `own` only. -/
def Access.Within (token : String) (id : Int) (own : Int → Prop) : Access → Prop
  | .now => True
  | .question _ => True
  | .questions _ => True
  | .findByToken name => name = token
  | .find other => other = id
  | .markTimedOut other _ => other = id
  | .complete other _ => other = id
  | .deleteOngoing other => other = id
  | .sheet other => other = id
  | .slotAt other _ => other = id
  | .answersOf other => other = id
  | .record a => own a.slot
  | .clear slot _ => own slot
  | _ => False

variable {token : String} {id : Int} {t₀ u₀ : Tables}

/-- **An access to one session** gives the same in two worlds that hold this session alike, and leaves it alike. -/
theorem World.twins_handle {v w : World} (catalog : v.catalog = w.catalog) (h : Tables.Twins token id t₀ u₀ v.tables w.tables)
    {q : Access} (within_ : q.Within token id fun k => t₀.owns id k = true ∧ u₀.owns id k = true)
    (clock : q = .now → v.now = w.now) :
    (v.handle q).1 = (w.handle q).1 ∧ Tables.Twins token id t₀ u₀ (v.handle q).2.tables (w.handle q).2.tables := by
  cases q with
  | now => exact ⟨congrArg Except.ok (clock rfl), h⟩
  | findByToken name =>
    obtain rfl : name = token := within_
    exact ⟨congrArg Except.ok h.findByToken?_eq, h⟩
  | find other =>
    obtain rfl : other = id := within_
    exact ⟨congrArg Except.ok h.shares.session, h⟩
  | markTimedOut other now =>
    obtain rfl : other = id := within_
    obtain ⟨same, twins⟩ := h.markTimedOut now
    exact ⟨congrArg (Except.mapError Error.notFound) same, twins⟩
  | complete other now =>
    obtain rfl : other = id := within_
    obtain ⟨same, twins⟩ := h.complete now
    exact ⟨congrArg Except.ok same, twins⟩
  | deleteOngoing other =>
    obtain rfl : other = id := within_
    obtain ⟨same, twins⟩ := h.deleteOngoing
    exact ⟨congrArg Except.ok same, twins⟩
  | sheet other =>
    obtain rfl : other = id := within_
    exact ⟨congrArg (fun slots => Except.ok (sortBy _ slots)) h.shares.slots, h⟩
  | slotAt other sequence =>
    obtain rfl : other = id := within_
    exact ⟨congrArg (fun slots : List Slot => Except.ok (slots.find? _)) h.shares.slots, h⟩
  | answersOf other =>
    obtain rfl : other = id := within_
    exact ⟨congrArg Except.ok h.shares.answersOf_eq, h⟩
  | record a =>
    obtain ⟨same, twins⟩ := h.record within_
    exact ⟨congrArg Except.ok same, twins⟩
  | clear slot now =>
    obtain ⟨same, twins⟩ := h.clear within_ now
    exact ⟨congrArg Except.ok same, twins⟩
  | question i =>
    simp only [handle, catalog]
    split
    · exact ⟨rfl, h⟩
    · exact ⟨rfl, h⟩
  | questions ids => exact ⟨by simp only [handle, catalog], h⟩
  | create | list | hasLevel | pool | allowCreate => cases within_

/-- Two worlds on their own, whose clocks show the same. They came from `t₀` and `u₀` and hold the session `id` alike. -/
structure Ticking.Twins (token : String) (id : Int) (t₀ u₀ : Tables) (v w : Ticking) : Prop where
  catalog : v.world.catalog = w.world.catalog
  clock : v.clock = w.clock
  tables : Tables.Twins token id t₀ u₀ v.world.tables w.world.tables

/-- The clock goes on in both. -/
theorem Ticking.Twins.ready {v w : Ticking} (h : Twins token id t₀ u₀ v w) (q : Access) :
    Twins token id t₀ u₀ (v.ready q) (w.ready q) := by
  cases q with
  | now => exact ⟨h.catalog, congrArg (fun clock i => clock (i + 1)) h.clock, h.tables⟩
  | _ => exact h

namespace Exam

open Call

/-- The call gives the same value, one with `told`, or the same error in any two worlds that hold the session alike,
and leaves it alike and everything else alone. -/
abbrev Isolates {α : Type} (token : String) (id : Int) (t₀ u₀ : Tables) (told : α → Prop) (c : Call α) : Prop :=
  Couples Ticking.handle (Ticking.Twins token id t₀ u₀) (fun a b => a = b ∧ told a) c c

variable {α β : Type}

theorem isolates_bind {told : α → Prop} {wide : β → Prop} {c : Call α} {f : α → Call β} (first : Isolates token id t₀ u₀ told c)
    (second : ∀ a, told a → Isolates token id t₀ u₀ wide (f a)) : Isolates token id t₀ u₀ wide (c >>= f) := by
  refine couples_bind first ?_
  rintro a _ ⟨rfl, holds⟩
  exact second a holds

theorem isolates_ofExcept (r : Except Error α) : Isolates token id t₀ u₀ (fun _ => True) (ofExcept r) :=
  couples_ofExcept (.refl (fun _ => ⟨rfl, trivial⟩) r)

theorem isolates_orFail {told : α → Prop} (e : Error) {a? : Option α} (holds : ∀ a ∈ a?, told a) :
    Isolates token id t₀ u₀ told (orFail e a?) := by
  cases a? with
  | some a => exact couples_pure ⟨rfl, holds a rfl⟩
  | none => exact couples_failed e

/-- A single access. What it gives in a world that hosts the session is known. -/
theorem isolates_ask {q : Access} {told : q.Answer → Prop}
    (within_ : q.Within token id fun k => t₀.owns id k = true ∧ u₀.owns id k = true)
    (holds : ∀ {v w : World} {a}, Tables.Twins token id t₀ u₀ v.tables w.tables → (v.handle q).1 = .ok a → told a) :
    Isolates token id t₀ u₀ told (ask q) := by
  refine couples_ask fun v w twins => ?_
  have ready : Ticking.Twins token id t₀ u₀ (v.ready q) (w.ready q) := twins.ready q
  have clock : q = .now → (v.ready q).world.now = (w.ready q).world.now := by
    rintro rfl
    exact congrFun twins.clock 0
  obtain ⟨same, tables⟩ := World.twins_handle ready.catalog ready.tables within_ clock
  refine ⟨?_, ?_, ready.clock, tables⟩
  · show Agree _ ((v.ready q).world.handle q).1 ((w.ready q).world.handle q).1
    rw [← same]
    cases given : ((v.ready q).world.handle q).1 with
    | ok a => exact .ok ⟨rfl, holds ready.tables given⟩
    | error e => exact .error e
  · show ((v.ready q).world.handle q).2.catalog = ((w.ready q).world.handle q).2.catalog
    rw [World.catalog_handle, World.catalog_handle, ready.catalog]

/-- An access that tells nothing about the session. -/
theorem isolates_ask_any {q : Access} (within_ : q.Within token id fun k => t₀.owns id k = true ∧ u₀.owns id k = true) :
    Isolates token id t₀ u₀ (fun _ => True) (ask q) :=
  isolates_ask within_ fun _ _ => trivial

/-! ## Finding the session -/

theorem isolates_find : Isolates token id t₀ u₀ (·.id = id) (find token) := by
  have asked : Isolates token id t₀ u₀ (fun s? => ∀ s ∈ s?, s.id = id) (ask (.findByToken token)) := by
    refine isolates_ask rfl ?_
    rintro v w _ twins given s rfl
    have found : v.tables.find? id = some s := by
      rw [← twins.left.findByToken?_eq]
      exact Except.ok.inj given
    exact twins.left.consistent.session_id found
  exact isolates_bind asked fun s? => isolates_orFail _

theorem isolates_markTimedOut (now : Instant) : Isolates token id t₀ u₀ (·.id = id) (ask (.markTimedOut id now)) := by
  refine isolates_ask rfl ?_
  intro v w s twins given
  have stored : (v.tables.markTimedOut id now).2.find? id = some s := by
    cases eq : v.tables.markTimedOut id now with
    | mk r t =>
      simp only [World.handle, eq] at given
      cases r with
      | ok a =>
        cases given
        exact Tables.find?_of_markTimedOut eq
      | error e => cases given
  exact (twins.markTimedOut now).2.left.consistent.session_id stored

theorem isolates_observe {s : Session} (own : s.id = id) : Isolates token id t₀ u₀ (·.id = id) (observe s) := by
  subst own
  refine isolates_bind (isolates_ask_any (q := .now) trivial) fun now _ => ?_
  split
  · exact isolates_markTimedOut now
  · exact couples_pure ⟨rfl, rfl⟩

theorem isolates_look : Isolates token id t₀ u₀ (·.id = id) (look token) := isolates_bind isolates_find fun _ => isolates_observe

theorem isolates_lookById : Isolates token id t₀ u₀ (·.id = id) (lookById id) := by
  have asked : Isolates token id t₀ u₀ (fun s? => ∀ s ∈ s?, s.id = id) (ask (.find id)) := by
    refine isolates_ask rfl ?_
    rintro v w _ twins given s rfl
    exact twins.left.consistent.session_id (Except.ok.inj given)
  exact isolates_bind asked fun s? own => isolates_bind (isolates_orFail _ own) fun _ => isolates_observe

theorem isolates_remaining (s : Session) : Isolates token id t₀ u₀ (fun _ => True) (remaining s) := by
  unfold remaining
  split
  · exact couples_pure ⟨rfl, trivial⟩
  · exact isolates_bind (isolates_ask_any (q := .now) trivial) fun _ _ => couples_pure ⟨rfl, trivial⟩

/-! ## Reading the session -/

theorem isolates_join : Isolates token id t₀ u₀ (fun _ => True) (join id) :=
  isolates_bind (isolates_ask_any rfl) fun _ _ => isolates_bind (isolates_ask_any (q := .questions _) trivial) fun _ _ =>
    isolates_bind (isolates_ask_any rfl) fun _ _ => couples_pure ⟨rfl, trivial⟩

theorem isolates_get : Isolates token id t₀ u₀ (fun _ => True) (get token) := by
  refine isolates_bind isolates_look ?_
  rintro s rfl
  exact isolates_bind (isolates_ask_any rfl) fun _ _ => isolates_bind (isolates_remaining s) fun _ _ => couples_pure ⟨rfl, trivial⟩

theorem isolates_questions : Isolates token id t₀ u₀ (fun _ => True) (questions token) := by
  refine isolates_bind isolates_look ?_
  rintro s rfl
  refine isolates_bind (isolates_ofExcept _) fun _ _ => ?_
  refine isolates_bind isolates_join fun joined _ => ?_
  refine isolates_bind (isolates_ofExcept _) fun items _ => ?_
  exact isolates_bind (isolates_remaining s) fun _ _ => couples_pure ⟨rfl, trivial⟩

theorem isolates_detail : Isolates token id t₀ u₀ (fun _ => True) (detail token) := by
  refine isolates_bind isolates_look ?_
  rintro s rfl
  split
  · refine isolates_bind isolates_join fun joined _ => ?_
    exact isolates_bind (isolates_ofExcept _) fun items _ => couples_pure ⟨rfl, trivial⟩
  · exact couples_failed _

/-! ## Answers -/

/-- The slot that is answered belonged to the session in both. -/
theorem isolates_openSlot (sequence : Int) : Isolates token id t₀ u₀
    (fun found => found.1.id = id ∧ t₀.owns id found.2.id = true ∧ u₀.owns id found.2.id = true) (openSlot token sequence) := by
  refine isolates_bind isolates_look ?_
  rintro s rfl
  refine isolates_bind (isolates_ofExcept _) fun _ _ => ?_
  have asked : Isolates token s.id t₀ u₀ (fun slot? => ∀ slot ∈ slot?, t₀.owns s.id slot.id = true ∧ u₀.owns s.id slot.id = true)
      (ask (.slotAt s.id sequence)) := by
    refine isolates_ask rfl ?_
    rintro v w _ twins given slot rfl
    exact twins.owns (List.mem_of_find?_eq_some (Except.ok.inj given))
  exact isolates_bind asked fun slot? own => isolates_bind (isolates_orFail _ own) fun slot own => couples_pure ⟨rfl, rfl, own⟩

theorem isolates_rejection {α : Type} : Isolates token id t₀ u₀ (fun _ => True) (rejection (α := α) id) := by
  refine isolates_bind isolates_lookById fun s _ => ?_
  split <;> exact couples_failed _

theorem isolates_submit (sequence : Int) (payload : Json.Value) : Isolates token id t₀ u₀ (fun _ => True) (submit token sequence payload) := by
  refine isolates_bind (isolates_openSlot sequence) ?_
  rintro ⟨s, slot⟩ ⟨rfl, own⟩
  refine isolates_bind (isolates_ask_any (q := .question _) trivial) fun question _ => ?_
  refine isolates_bind (isolates_ofExcept _) fun details _ => ?_
  refine isolates_bind (isolates_ofExcept _) fun value _ => ?_
  refine isolates_bind (isolates_ask_any (q := .now) trivial) fun now _ => ?_
  refine isolates_bind (isolates_ask_any (q := .record _) own) fun a? _ => ?_
  cases a? with
  | some a => exact couples_pure ⟨rfl, trivial⟩
  | none => exact isolates_rejection

theorem isolates_clear (sequence : Int) : Isolates token id t₀ u₀ (fun _ => True) (clear token sequence) := by
  refine isolates_bind (isolates_openSlot sequence) ?_
  rintro ⟨s, slot⟩ ⟨rfl, own⟩
  refine isolates_bind (isolates_ask_any (q := .now) trivial) fun now _ => ?_
  refine isolates_bind (isolates_ask_any (q := .clear _ _) own) fun removal _ => ?_
  cases removal with
  | closed => exact isolates_rejection
  | removed => exact couples_pure ⟨rfl, trivial⟩
  | absent => exact couples_pure ⟨rfl, trivial⟩

/-! ## The end of the session -/

theorem isolates_ifOngoing (s : Session) : Isolates token id t₀ u₀ (fun _ => True) (ifOngoing s) :=
  isolates_bind (isolates_ofExcept _) fun _ _ => couples_pure ⟨rfl, trivial⟩

theorem isolates_settled (s : Session) : Isolates token id t₀ u₀ (fun _ => True) (settled s) := by
  unfold settled
  split
  · exact couples_pure ⟨rfl, trivial⟩
  · exact couples_failed _
  · exact couples_failed _

theorem isolates_finish {s : Session} (own : s.id = id) : Isolates token id t₀ u₀ (fun _ => True) (finish s) := by
  subst own
  refine isolates_bind (isolates_ask_any (q := .now) trivial) fun now _ => ?_
  split
  · exact isolates_bind (isolates_markTimedOut now) fun s _ => isolates_ifOngoing s
  · refine isolates_bind (isolates_ask_any rfl) fun done? _ => ?_
    cases done? with
    | some done => exact couples_pure ⟨rfl, trivial⟩
    | none => exact isolates_bind isolates_lookById fun s _ => isolates_settled s

theorem isolates_complete : Isolates token id t₀ u₀ (fun _ => True) (complete token) := by
  refine isolates_bind isolates_find fun s own => ?_
  split
  · exact couples_pure ⟨rfl, trivial⟩
  · exact isolates_finish own
  · exact isolates_ifOngoing s

theorem isolates_cancel : Isolates token id t₀ u₀ (fun _ => True) (cancel token) := by
  refine isolates_bind isolates_look ?_
  rintro s rfl
  split
  · refine isolates_bind (isolates_ask_any rfl) fun deleted _ => ?_
    split
    · exact couples_pure ⟨rfl, trivial⟩
    · exact couples_failed _
  · exact couples_failed _

/-- **An operation that is addressed to a token keeps to the session of this token.** -/
theorem Operation.isolates_call {o : Operation} (addressed : o.token? = some token) :
    Isolates token id t₀ u₀ (fun _ => True) o.call := by
  cases o <;> cases addressed
  case get => exact isolates_get
  case questions => exact isolates_questions
  case submit sequence payload => exact isolates_submit sequence payload
  case clear sequence => exact isolates_clear sequence
  case complete => exact isolates_complete
  case cancel => exact isolates_cancel
  case detail => exact isolates_detail

end Exam

end Proctor
