import Proctor.Exam.Watch
import Proctor.Question.Marking

/-!
# Looking at sessions

While a session is ongoing its sheet shows the questions and the answers so far, without any
key. When it has ended otherwise than by cancelling, its review shows each answer beside the
right one. Both join the slots of the session with the questions and the answers.
-/

set_option autoImplicit false

namespace Proctor.Exam

/-- A session with its live figures. -/
structure Snapshot where
  session : Session
  answered : Nat
  remaining : Int
deriving DecidableEq

structure SheetItem where
  sequence : Int
  kind : Kind
  content : Content
  answer : Option AnswerValue
deriving DecidableEq

structure Sheet where
  token : String
  deadline : Instant
  remaining : Int
  items : List SheetItem
deriving DecidableEq

structure ReviewItem where
  sequence : Int
  kind : Kind
  content : Content
  answer : Option Answer
  /-- The answer with its labels. -/
  shown : Option Shown
  /-- The right answer with its labels. -/
  solution : Option Shown
deriving DecidableEq

/-- The answer was given and is right. -/
def ReviewItem.isCorrect (i : ReviewItem) : Bool := i.answer.any (·.isCorrect)

structure Review where
  session : Session
  items : List ReviewItem
deriving DecidableEq

/-- The slots of a session by sequence, with the questions and the answers that belong to it. -/
structure Joined where
  slots : List Slot
  questions : List Question
  answers : List Answer
deriving DecidableEq

namespace Joined

def questionOf (j : Joined) (slot : Slot) : Except Error Question :=
  match j.questions.find? (·.id == slot.question) with
  | some q => .ok q
  | none => .error (.internal (.missingQuestion slot.question slot.sequence))

def answerOf? (j : Joined) (slot : Slot) : Option Answer := j.answers.find? (·.slot == slot.id)

def sheetItem (j : Joined) (slot : Slot) : Except Error SheetItem := do
  let q ← j.questionOf slot
  .ok ⟨slot.sequence, slot.kind, q.content, (j.answerOf? slot).map (·.value)⟩

def reviewItem (j : Joined) (slot : Slot) : Except Error ReviewItem := do
  let q ← j.questionOf slot
  let details ← q.detailsFor slot.kind
  let answer := j.answerOf? slot
  .ok ⟨slot.sequence, slot.kind, q.content, answer, answer.bind fun a => details.present a.value,
    details.present details.solution⟩

end Joined

def join (session : Int) : Call Joined := do
  let slots ← Call.ask (.sheet session)
  let questions ← Call.ask (.questions (slots.map (·.question)))
  let answers ← Call.ask (.answersOf session)
  pure ⟨slots, questions, answers⟩

/-- The session with its live figures. -/
def get (token : String) : Call Snapshot := do
  let s ← look token
  let answers ← Call.ask (.answersOf s.id)
  pure ⟨s, answers.length, ← remaining s⟩

/-- The questions of an ongoing session. -/
def questions (token : String) : Call Sheet := do
  let s ← look token
  Call.ofExcept (ensureOngoing s)
  let joined ← join s.id
  let items ← Call.ofExcept (joined.slots.mapM joined.sheetItem)
  pure ⟨s.token, s.deadline, ← remaining s, items⟩

/-- The review of a session that is completed or timed out. -/
def detail (token : String) : Call Review := do
  let s ← look token
  if s.status = .completed ∨ s.status = .timeout then
    let joined ← join s.id
    let items ← Call.ofExcept (joined.slots.mapM joined.reviewItem)
    pure ⟨s, items⟩
  else .failed (.state .noResults)

/-- Observes sessions one after the other. -/
def observeAll : List Session → Call (List Session)
  | [] => pure []
  | s :: rest => do
    let s ← observe s
    let rest ← observeAll rest
    pure (s :: rest)

/-- One page of a listing, and the number of all sessions that the filter wants. -/
def list (f : Filter) : Call (List Session × Nat) := do
  let (page, total) ← Call.ask (.list f)
  pure (← observeAll page, total)

end Proctor.Exam
