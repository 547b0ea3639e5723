import Proctor.Answer
import Proctor.Error
import Proctor.Session.Basic
import Proctor.Session.Paging
import Proctor.Session.Score
import Proctor.Sorting

/-!
# The tables of sessions

`Tables` holds sessions, their slots and the answers to these, each by id, and knows the
session of each token. Every operation is one step: it looks at the tables and changes them
at once. Writes that a session in its present state does not take are refused and change
nothing.
-/

set_option autoImplicit false

namespace Proctor

structure Tables where
  /-- The number of sessions ever opened, which is the id of the last one. -/
  lastSession : Int
  lastSlot : Int
  sessions : Table Int Session
  tokens : Table String Int
  slots : Table Int Slot
  answers : Table Int Answer
deriving DecidableEq

/-- What became of an answer that was to be removed. -/
inductive Removal where
  | removed
  /-- There was none. -/
  | absent
  /-- The session no longer takes changes. -/
  | closed
deriving DecidableEq

namespace Tables

def empty : Tables := ⟨0, 0, ∅, ∅, ∅, ∅⟩

instance : EmptyCollection Tables := ⟨empty⟩

/-- The slots of a session, by id. -/
def slotsOf (t : Tables) (session : Int) : List Slot := t.slots.values.filter (·.session == session)

/-- The slot is one of the session. -/
def owns (t : Tables) (session slot : Int) : Bool := (t.slots.get? slot).any (·.session == session)

def find? (t : Tables) (id : Int) : Option Session := t.sessions.get? id

def findByToken? (t : Tables) (token : String) : Option Session := (t.tokens.get? token).bind t.find?

/-- The session that a slot belongs to takes changes at this instant. -/
def takesAnswer (t : Tables) (slot : Int) (now : Instant) : Bool :=
  ((t.slots.get? slot).bind fun s => t.find? s.session).any (·.isOpen now)

/-- The slots that a session gets, numbered on from the last slot. -/
def slotsFor (t : Tables) (session : Int) (drawn : List Drawn) : List Slot :=
  drawn.zipIdx.map fun (d, i) => ⟨t.lastSlot + i + 1, session, d.question, d.sequence, d.kind⟩

/-- Opens a session with these questions; its token has to be new, and each sequence number its own. -/
def create (t : Tables) (terms : Terms) (drawn : List Drawn) : Except InternalFault Session × Tables :=
  if t.tokens.contains terms.token then (.error .duplicateToken, t)
  else if ¬(drawn.map (·.sequence)).Nodup then (.error .duplicateSequence, t)
  else
    let id := t.lastSession + 1
    let session : Session := { terms with
      id := id
      status := .ongoing
      finishedAt := none
      total := drawn.length
      correctCount := none
      score := none }
    (.ok session, { t with
      lastSession := id
      lastSlot := t.lastSlot + drawn.length
      sessions := t.sessions.insert id session
      tokens := t.tokens.insert terms.token id
      slots := (t.slotsFor id drawn).foldl (fun slots s => slots.insert s.id s) t.slots })

/-- Later sessions come first; of two that started together, the one with the greater id. -/
def comesBefore (a b : Session) : Bool :=
  decide (b.startedAt < a.startedAt) || (!decide (a.startedAt < b.startedAt) && decide (b.id ≤ a.id))

/-- The session is one that the filter wants. -/
def wants (f : Filter) (s : Session) : Bool :=
  f.user.all (· == s.user) && f.status.all (· == s.status)

/-- All sessions that the filter wants, in order. -/
def selection (t : Tables) (f : Filter) : List Session := sortBy comesBefore (t.sessions.values.filter (wants f))

/-- One page of the sessions that the filter wants, and the number of all of them. The page has to be one that sessions come
before or none (`Filter.offset?`): for the least signed 64-bit page a listing ends without a result. -/
def list (t : Tables) (f : Filter) : List Session × Nat :=
  let all := t.selection f
  ((all.drop f.offset.toNat).take f.perPage.toNat, all.length)

/-- Ends an ongoing session as timed out; one that has ended stays as it is. -/
def markTimedOut (t : Tables) (id : Int) (now : Instant) : Except Missing Session × Tables :=
  match t.find? id with
  | none => (.error (.sessionId id), t)
  | some s =>
    if s.isOngoing then
      let ended := { s with status := .timeout, finishedAt := some now }
      (.ok ended, { t with sessions := t.sessions.insert id ended })
    else (.ok s, t)

/-- The answers to the slots of a session, by slot id. -/
def gradesOf (t : Tables) (session : Int) : List Bool :=
  (t.slotsOf session).filterMap fun s => (t.answers.get? s.id).map (·.isCorrect)

/-- Ends a session that is open at this instant, with the score of its answers. -/
def complete (t : Tables) (id : Int) (now : Instant) : Option Session × Tables :=
  match t.find? id with
  | none => (none, t)
  | some s =>
    if s.isOpen now then
      let score := Score.tally (t.gradesOf id) s.total
      let ended := { s with
        status := .completed
        finishedAt := some now
        correctCount := some score.correct
        score := some score.percent }
      (some ended, { t with sessions := t.sessions.insert id ended })
    else (none, t)

/-- Removes an ongoing session with its token, its slots and their answers. -/
def deleteOngoing (t : Tables) (id : Int) : Bool × Tables :=
  match t.find? id with
  | none => (false, t)
  | some s =>
    if s.isOngoing then
      (true, { t with
        sessions := t.sessions.erase id
        tokens := t.tokens.erase s.token
        slots := t.slots.filter fun _ slot => slot.session != id
        answers := t.answers.filter fun slot _ => !t.owns id slot })
    else (false, t)

/-- The slots of a session, by sequence. -/
def sheet (t : Tables) (session : Int) : List Slot :=
  sortBy (fun a b => decide (a.sequence ≤ b.sequence)) (t.slotsOf session)

/-- The slot of a session with this sequence. -/
def slotAt? (t : Tables) (session sequence : Int) : Option Slot :=
  (t.slotsOf session).find? (·.sequence == sequence)

/-- The answers to the slots of a session, by sequence. -/
def answersOf (t : Tables) (session : Int) : List Answer :=
  (t.sheet session).filterMap fun s => t.answers.get? s.id

/-- Stores an answer in place of the one before, if the session takes it at the instant it was given. -/
def record (t : Tables) (a : Answer) : Option Answer × Tables :=
  if t.takesAnswer a.slot a.answeredAt then (some a, { t with answers := t.answers.insert a.slot a })
  else (none, t)

/-- Removes the answer of a slot, if the session takes changes at this instant. -/
def clear (t : Tables) (slot : Int) (now : Instant) : Removal × Tables :=
  if t.takesAnswer slot now then
    if t.answers.contains slot then (.removed, { t with answers := t.answers.erase slot })
    else (.absent, t)
  else (.closed, t)

/-- The number of answers to the slots of a session. -/
def answerCount (t : Tables) (session : Int) : Nat :=
  ((t.slotsOf session).filter fun s => t.answers.contains s.id).length

/-- The number of sessions. -/
def size (t : Tables) : Nat := t.sessions.size

end Tables

end Proctor
