import Proctor.Exam.Watch
import Proctor.Question.Marking

/-!
# Answering

An answer goes to a slot of an open session, is checked and graded there, and replaces the
one before. The tables take it only if the session is still open at the instant that the
answer bears; if they do not, the session is looked at once more to say why.
-/

set_option autoImplicit false

namespace Proctor.Exam

/-- What a student is told about an answer. -/
structure Receipt where
  sequence : Int
  isCorrect : Bool
  answeredAt : Instant
deriving DecidableEq

/-- The session of a token and its slot with this sequence; the session has to be ongoing. -/
def openSlot (token : String) (sequence : Int) : Call (Session × Slot) := do
  let s ← look token
  Call.ofExcept (ensureOngoing s)
  let slot ← Call.orFail (.notFound (.sequence sequence)) (← Call.ask (.slotAt s.id sequence))
  pure (s, slot)

/-- Says why a change was not taken. -/
def rejection {α : Type} (session : Int) : Call α := do
  let s ← lookById session
  match closedFault? s with
  | some e => .failed e
  | none => .failed (.internal .answerRejected)

/-- Answers the slot with this sequence. -/
def submit (token : String) (sequence : Int) (payload : Json.Value) : Call Receipt := do
  let (s, slot) ← openSlot token sequence
  let question ← Call.ask (.question slot.question)
  let details ← Call.ofExcept (question.detailsFor slot.kind)
  let value ← Call.ofExcept ((details.accept payload).mapError .input)
  let now ← Call.now
  match ← Call.ask (.record ⟨slot.id, value, details.grades value, now⟩) with
  | some a => pure ⟨sequence, a.isCorrect, a.answeredAt⟩
  | none => rejection s.id

/-- Removes the answer of the slot with this sequence; it does not matter if there is none. -/
def clear (token : String) (sequence : Int) : Call Unit := do
  let (s, slot) ← openSlot token sequence
  let now ← Call.now
  match ← Call.ask (.clear slot.id now) with
  | .closed => rejection s.id
  | .removed => pure ()
  | .absent => pure ()

end Proctor.Exam
