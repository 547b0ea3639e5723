import Proctor.Proofs.Draw
import Proctor.World

/-!
# What one access can change

The tables change in five ways only: not at all, by a new session, by the end of an ongoing
session, by its removal, or by an answer to one of its slots (`Change`). `change_handle` says
that every access to a world is one of these, provided that it is `Fair`: a new session comes
with terms and questions that fit together, and a session is timed out only after its
deadline. All invariants of the tables are derived from this list.
-/

set_option autoImplicit false

namespace Proctor

theorem Session.isOngoing_iff {s : Session} : s.isOngoing = true ↔ s.status = .ongoing := by
  simp [Session.isOngoing]

theorem Session.isOpen_iff {s : Session} {now : Instant} :
    s.isOpen now = true ↔ s.status = .ongoing ∧ now ≤ s.deadline := by
  simp [Session.isOpen, Session.isOngoing]

theorem Session.isExpired_iff {s : Session} {now : Instant} :
    s.isExpired now = true ↔ s.status = .ongoing ∧ s.deadline < now := by
  simp [Session.isExpired, Session.isOngoing]

theorem Session.isExpired_of_inTime {s : Session} {now : Instant} (inTime : now ≤ s.deadline) : s.isExpired now = false := by
  simp [Session.isExpired, Instant.not_lt.2 inTime]

theorem Session.isExpired_of_finished {s : Session} (finished : s.status ≠ .ongoing) (now : Instant) : s.isExpired now = false := by
  simp [Session.isExpired, Session.isOngoing, finished]

/-- Terms and questions that a session may be opened with. -/
structure Opening (terms : Terms) (drawn : List Drawn) : Prop where
  minutes_pos : 1 ≤ terms.minutes
  minutes_le : terms.minutes ≤ 480
  deadline_eq : terms.deadline = terms.startedAt.plusMinutes terms.minutes
  questions : Draw.Proper drawn
  nonempty : 1 ≤ drawn.length
  length_le : (drawn.length : Int) ≤ Text.Width.signed32.greatest

namespace Session

/-- The session, timed out at this instant. -/
def timedOut (s : Session) (now : Instant) : Session := { s with status := .timeout, finishedAt := some now }

/-- The session, completed at this instant with the score of these grades. -/
def completed (s : Session) (grades : List Bool) (now : Instant) : Session :=
  { s with
    status := .completed
    finishedAt := some now
    correctCount := some (Score.tally grades s.total).correct
    score := some (Score.tally grades s.total).percent }

/-- How an ongoing session with these grades may end: timed out after its deadline, or completed before. -/
inductive Ends (grades : List Bool) (s : Session) : Session → Prop where
  | timedOut {now : Instant} (late : s.deadline < now) : Ends grades s (s.timedOut now)
  | completed {now : Instant} (inTime : now ≤ s.deadline) : Ends grades s (s.completed grades now)

theorem Ends.frame {grades : List Bool} {s s' : Session} (h : s.Ends grades s') :
    s'.toTerms = s.toTerms ∧ s'.id = s.id ∧ s'.total = s.total ∧ (s'.status = .completed ∨ s'.status = .timeout) := by
  cases h with
  | timedOut => exact ⟨rfl, rfl, rfl, .inr rfl⟩
  | completed => exact ⟨rfl, rfl, rfl, .inl rfl⟩

end Session

namespace Tables

/-- The session that `create` stores. -/
def opening (t : Tables) (terms : Terms) (drawn : List Drawn) : Session :=
  { terms with
    id := t.lastSession + 1
    status := .ongoing
    finishedAt := none
    total := drawn.length
    correctCount := none
    score := none }

/-- The tables with a new session. -/
def opened (t : Tables) (terms : Terms) (drawn : List Drawn) : Tables :=
  { t with
    lastSession := t.lastSession + 1
    lastSlot := t.lastSlot + drawn.length
    sessions := t.sessions.insert (t.lastSession + 1) (t.opening terms drawn)
    tokens := t.tokens.insert terms.token (t.lastSession + 1)
    slots := (t.slotsFor (t.lastSession + 1) drawn).foldl (fun slots s => slots.insert s.id s) t.slots }

/-- The tables with another record of a session that they hold. -/
def ended (t : Tables) (id : Int) (s : Session) : Tables := { t with sessions := t.sessions.insert id s }

/-- The tables without a session, its token, its slots and their answers. -/
def removed (t : Tables) (id : Int) (s : Session) : Tables :=
  { t with
    sessions := t.sessions.erase id
    tokens := t.tokens.erase s.token
    slots := t.slots.filter fun _ slot => slot.session != id
    answers := t.answers.filter fun slot _ => !t.owns id slot }

/-- The ways in which an access can change the tables. -/
inductive Change (t : Tables) : Tables → Prop where
  | same : Change t t
  | opened {terms : Terms} {drawn : List Drawn} (proper : Opening terms drawn)
      (fresh : t.tokens.get? terms.token = none) : Change t (t.opened terms drawn)
  | ended {id : Int} {s s' : Session} (stored : t.find? id = some s) (ongoing : s.status = .ongoing)
      (ends : s.Ends (t.gradesOf id) s') : Change t (t.ended id s')
  | removed {id : Int} {s : Session} (stored : t.find? id = some s) (ongoing : s.status = .ongoing) :
      Change t (t.removed id s)
  /-- The answer of one slot becomes `a?`. -/
  | answered {k : Int} {slot : Slot} {s : Session} (a? : Option Answer) {answers : Table Int Answer}
      (held : t.slots.get? k = some slot) (stored : t.find? slot.session = some s) (ongoing : s.status = .ongoing)
      (inTime : ∀ a ∈ a?, a.slot = k ∧ a.answeredAt ≤ s.deadline)
      (written : ∀ j, answers.get? j = if j = k then a? else t.answers.get? j) :
      Change t { t with answers := answers }

section Operations

variable {t : Tables}

/-- A creation is refused and leaves no trace, or stores a session with a new token. -/
theorem create_cases (t : Tables) (terms : Terms) (drawn : List Drawn) :
    (∃ fault, t.create terms drawn = (.error fault, t)) ∨
      (t.tokens.get? terms.token = none ∧ t.create terms drawn = (.ok (t.opening terms drawn), t.opened terms drawn)) := by
  unfold create
  split
  · exact .inl ⟨_, rfl⟩
  rename_i unused
  split
  · exact .inl ⟨_, rfl⟩
  · exact .inr ⟨by simpa [Table.contains] using unused, rfl⟩

/-- A session is timed out if it is ongoing, and otherwise left as it is. -/
theorem markTimedOut_cases (t : Tables) (id : Int) (now : Instant) :
    (t.find? id = none ∧ t.markTimedOut id now = (.error (.sessionId id), t)) ∨
      (∃ s, t.find? id = some s ∧ s.status ≠ .ongoing ∧ t.markTimedOut id now = (.ok s, t)) ∨
      ∃ s, t.find? id = some s ∧ s.status = .ongoing ∧
        t.markTimedOut id now = (.ok (s.timedOut now), t.ended id (s.timedOut now)) := by
  unfold markTimedOut
  cases stored : t.find? id with
  | none => exact .inl ⟨rfl, rfl⟩
  | some s =>
    by_cases ongoing : s.status = .ongoing
    · refine .inr (.inr ⟨s, rfl, ongoing, ?_⟩)
      simp only [Session.isOngoing_iff.2 ongoing, if_true]
      rfl
    · refine .inr (.inl ⟨s, rfl, ongoing, ?_⟩)
      simp only [Session.isOngoing_iff, ongoing, if_false]

/-- A completion is refused and leaves no trace, or scores a session that is open at that instant. -/
theorem complete_cases (t : Tables) (id : Int) (now : Instant) :
    ((∀ s, t.find? id = some s → s.isOpen now = false) ∧ t.complete id now = (none, t)) ∨
      ∃ s, t.find? id = some s ∧ s.isOpen now = true ∧
        t.complete id now = (some (s.completed (t.gradesOf id) now), t.ended id (s.completed (t.gradesOf id) now)) := by
  unfold complete
  cases stored : t.find? id with
  | none => exact .inl ⟨by simp, rfl⟩
  | some s =>
    cases isOpen : s.isOpen now with
    | true =>
      refine .inr ⟨s, rfl, isOpen, ?_⟩
      simp only [isOpen, if_true]
      rfl
    | false =>
      refine .inl ⟨fun s' h => Option.some.inj h ▸ isOpen, ?_⟩
      simp [isOpen]

theorem deleteOngoing_cases (t : Tables) (id : Int) :
    ((∀ s, t.find? id = some s → s.status ≠ .ongoing) ∧ t.deleteOngoing id = (false, t)) ∨
      ∃ s, t.find? id = some s ∧ s.status = .ongoing ∧ t.deleteOngoing id = (true, t.removed id s) := by
  unfold deleteOngoing
  cases stored : t.find? id with
  | none => exact .inl ⟨by simp, rfl⟩
  | some s =>
    by_cases ongoing : s.status = .ongoing
    · refine .inr ⟨s, rfl, ongoing, ?_⟩
      simp only [Session.isOngoing_iff.2 ongoing, if_true]
      rfl
    · refine .inl ⟨fun s' h => Option.some.inj h ▸ ongoing, ?_⟩
      simp only [Session.isOngoing_iff, ongoing, if_false]

/-- A slot takes an answer if its session is ongoing and not past its deadline. -/
theorem takesAnswer_iff {k : Int} {now : Instant} :
    t.takesAnswer k now = true ↔ ∃ slot s, t.slots.get? k = some slot ∧ t.find? slot.session = some s ∧
      s.status = .ongoing ∧ now ≤ s.deadline := by
  simp only [takesAnswer, Option.any_eq_true, Option.bind_eq_some_iff, Session.isOpen_iff]
  constructor
  · rintro ⟨s, ⟨slot, held, stored⟩, ongoing, inTime⟩
    exact ⟨slot, s, held, stored, ongoing, inTime⟩
  · rintro ⟨slot, s, held, stored, ongoing, inTime⟩
    exact ⟨s, ⟨slot, held, stored⟩, ongoing, inTime⟩

/-- An answer is refused and leaves no trace, or stored because its slot takes it. -/
theorem record_cases (t : Tables) (a : Answer) :
    t.record a = (none, t) ∨
      (t.takesAnswer a.slot a.answeredAt = true ∧ t.record a = (some a, { t with answers := t.answers.insert a.slot a })) := by
  unfold record
  cases takes : t.takesAnswer a.slot a.answeredAt with
  | true => exact .inr ⟨rfl, rfl⟩
  | false => exact .inl rfl

/-- A removal is refused, finds no answer, or removes the answer of a slot that takes changes. -/
theorem clear_cases (t : Tables) (k : Int) (now : Instant) :
    t.clear k now = (.closed, t) ∨ (t.answers.get? k = none ∧ t.clear k now = (.absent, t)) ∨
      (t.takesAnswer k now = true ∧ t.clear k now = (.removed, { t with answers := t.answers.erase k })) := by
  unfold clear Table.contains
  cases takes : t.takesAnswer k now with
  | false => exact .inl rfl
  | true =>
    cases given : t.answers.get? k with
    | none => exact .inr (.inl ⟨rfl, rfl⟩)
    | some a => exact .inr (.inr ⟨rfl, rfl⟩)

end Operations

end Tables

/-- The access looks at the tables only, if at all. -/
def Access.Reads : Access → Prop
  | .create _ _ => False
  | .markTimedOut _ _ => False
  | .complete _ _ => False
  | .deleteOngoing _ => False
  | .record _ => False
  | .clear _ _ => False
  | _ => True

theorem World.tables_handle_of_reads {q : Access} (reads : q.Reads) (w : World) : (w.handle q).2.tables = w.tables := by
  cases q with
  | question id =>
    simp only [World.handle]
    split <;> rfl
  | create | markTimedOut | complete | deleteOngoing | record | clear => cases reads
  | _ => rfl

/-- The access keeps to the rules that callers of the tables promise. -/
def Access.Fair (t : Tables) : Access → Prop
  | .create terms drawn => Opening terms drawn
  | .markTimedOut id ends => ∀ s, t.find? id = some s → s.status = .ongoing → s.deadline < ends
  | _ => True

namespace Tables

variable {t : Tables}

theorem change_create {terms : Terms} {drawn : List Drawn} (proper : Opening terms drawn) :
    Change t (t.create terms drawn).2 := by
  obtain ⟨_, h⟩ | ⟨fresh, h⟩ := t.create_cases terms drawn
  · rw [h]
    exact .same
  · rw [h]
    exact .opened proper fresh

theorem change_markTimedOut {id : Int} {now : Instant} (late : ∀ s, t.find? id = some s → s.status = .ongoing → s.deadline < now) :
    Change t (t.markTimedOut id now).2 := by
  obtain ⟨_, h⟩ | ⟨_, _, _, h⟩ | ⟨s, stored, ongoing, h⟩ := t.markTimedOut_cases id now
  · rw [h]
    exact .same
  · rw [h]
    exact .same
  · rw [h]
    exact .ended stored ongoing (.timedOut (late s stored ongoing))

theorem change_complete (id : Int) (now : Instant) : Change t (t.complete id now).2 := by
  obtain ⟨_, h⟩ | ⟨s, stored, isOpen, h⟩ := t.complete_cases id now
  · rw [h]
    exact .same
  · rw [h]
    obtain ⟨ongoing, inTime⟩ := Session.isOpen_iff.1 isOpen
    exact .ended stored ongoing (.completed inTime)

theorem change_deleteOngoing (id : Int) : Change t (t.deleteOngoing id).2 := by
  obtain ⟨_, h⟩ | ⟨s, stored, ongoing, h⟩ := t.deleteOngoing_cases id
  · rw [h]
    exact .same
  · rw [h]
    exact .removed stored ongoing

theorem change_record (a : Answer) : Change t (t.record a).2 := by
  obtain h | ⟨takes, h⟩ := t.record_cases a
  · rw [h]
    exact .same
  · rw [h]
    obtain ⟨slot, s, held, stored, ongoing, inTime⟩ := takesAnswer_iff.1 takes
    refine .answered (some a) held stored ongoing ?_ fun j => Table.get?_insert _ _ _ _
    rintro _ ⟨⟩
    exact ⟨rfl, inTime⟩

theorem change_clear (k : Int) (now : Instant) : Change t (t.clear k now).2 := by
  obtain h | ⟨_, h⟩ | ⟨takes, h⟩ := t.clear_cases k now
  · rw [h]
    exact .same
  · rw [h]
    exact .same
  · rw [h]
    obtain ⟨slot, s, held, stored, ongoing, inTime⟩ := takesAnswer_iff.1 takes
    refine .answered none held stored ongoing ?_ fun j => Table.get?_erase _ _ _
    simp

/-- **What one access can change.** -/
theorem change_handle {q : Access} {w : World} (fair : q.Fair w.tables) : Change w.tables (w.handle q).2.tables := by
  by_cases reads : q.Reads
  · rw [World.tables_handle_of_reads reads]
    exact .same
  cases q with
  | create terms drawn => exact change_create fair
  | markTimedOut id now => exact change_markTimedOut fair
  | complete id now => exact change_complete id now
  | deleteOngoing id => exact change_deleteOngoing id
  | record a => exact change_record a
  | clear slot now => exact change_clear slot now
  | _ => exact absurd trivial reads

end Tables

/-- The answer says that a write was refused. -/
def Access.Refuses : (q : Access) → q.Answer → Prop
  | .complete _ _, done? => done? = none
  | .deleteOngoing _, deleted => deleted = false
  | .record _, a? => a? = none
  | .clear _ _, removal => removal = .closed
  | _, _ => False

namespace World

variable {w v : World} {q : Access}

/-- An access that fails leaves no trace. -/
theorem eq_of_handle_error {e : Error} (h : w.handle q = (.error e, v)) : v = w := by
  cases q with
  | create terms drawn =>
    obtain ⟨_, eq⟩ | ⟨_, eq⟩ := w.tables.create_cases terms drawn <;> simp only [handle, eq] at h <;> cases h
    rfl
  | markTimedOut id now =>
    obtain ⟨_, eq⟩ | ⟨_, _, _, eq⟩ | ⟨_, _, _, eq⟩ := w.tables.markTimedOut_cases id now <;>
      simp only [handle, eq] at h <;> cases h
    rfl
  | question id =>
    simp only [handle] at h
    split at h <;> cases h
    rfl
  | _ => cases h

/-- A write that is refused leaves no trace. -/
theorem eq_of_refused {answer : q.Answer} (h : w.handle q = (.ok answer, v)) (refused : q.Refuses answer) : v = w := by
  cases q with
  | complete id now =>
    obtain ⟨_, eq⟩ | ⟨_, _, _, eq⟩ := w.tables.complete_cases id now <;> simp only [handle, eq] at h <;> cases h
    · rfl
    · cases refused
  | deleteOngoing id =>
    obtain ⟨_, eq⟩ | ⟨_, _, _, eq⟩ := w.tables.deleteOngoing_cases id <;> simp only [handle, eq] at h <;> cases h
    · rfl
    · cases refused
  | record a =>
    obtain eq | ⟨_, eq⟩ := w.tables.record_cases a <;> simp only [handle, eq] at h <;> cases h
    · rfl
    · cases refused
  | clear slot now =>
    obtain eq | ⟨_, eq⟩ | ⟨_, eq⟩ := w.tables.clear_cases slot now <;> simp only [handle, eq] at h <;> cases h
    · rfl
    · cases refused
    · cases refused
  | _ => cases refused

end World

end Proctor
