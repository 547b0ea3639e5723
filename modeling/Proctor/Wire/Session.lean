import Proctor.Exam.Viewing
import Proctor.Wire.Answer

/-!
# Sessions as JSON

A stored session shows its owner; a session that is sent to its student does not, and shows
live figures instead. Neither shows its id.
-/

set_option autoImplicit false

namespace Proctor

open Json

def Status.json (s : Status) : Value := .string s.name

namespace Session

/-- The fields that every picture of a session has. -/
def commonFields (s : Session) : List (String × Value) :=
  [("token", .string s.token), ("subject_id", .int s.scope.subject), ("level_id", .int s.scope.level),
    ("topic_id", Value.orNull .int s.scope.topic), ("status", s.status.json), ("started_at", s.startedAt.json),
    ("duration_minutes", .int s.minutes), ("deadline", s.deadline.json),
    ("finished_at", Value.orNull Instant.json s.finishedAt), ("total_questions", .int s.total),
    ("correct_count", Value.orNull .int s.correctCount), ("final_score", Value.orNull .double s.score)]

def storedFields (s : Session) : List (String × Value) := ("user_id", .string s.user.text) :: s.commonFields

def json (s : Session) : Value := .ofFields s.storedFields

/-- The stored session with its id. -/
def jsonWithId (s : Session) : Value := .ofFields (("id", .int s.id) :: s.storedFields)

/-- The session as its student sees it. -/
def reply (s : Session) (answered : Option Nat) (remaining : Int) : Value :=
  .ofFields (("time_remaining_seconds", .int remaining) :: answered.toList.map (("answered_count", .nat ·)) ++
    s.commonFields)

end Session

def Slot.json (s : Slot) : Value :=
  .ofFields
    [("id", .int s.id), ("session_id", .int s.session), ("question_id", .int s.question),
      ("sequence", .int s.sequence), ("kind", s.kind.json)]

def PoolEntry.json (e : PoolEntry) : Value := .array [.int e.question, e.kind.json]

def Drawn.json (d : Drawn) : Value := .array [.int d.sequence, .int d.question, d.kind.json]

namespace Exam

def SheetItem.json (i : SheetItem) : Value :=
  .ofFields
    [("sequence", .int i.sequence), ("kind", i.kind.json), ("content", i.content.json),
      ("is_answered", .bool i.answer.isSome), ("current_answer", Value.orNull AnswerValue.json i.answer)]

def Sheet.json (s : Sheet) : Value :=
  .ofFields
    [("token", .string s.token), ("deadline", s.deadline.json), ("time_remaining_seconds", .int s.remaining),
      ("questions", .array (s.items.map SheetItem.json))]

def ReviewItem.json (i : ReviewItem) : Value :=
  .ofFields
    [("sequence", .int i.sequence), ("kind", i.kind.json), ("question", i.content.json),
      ("student_answer", Value.orNull Shown.json i.shown), ("correct_answer", Value.orNull Shown.json i.solution),
      ("is_correct", .bool i.isCorrect), ("is_answered", .bool i.answer.isSome),
      ("answered_at", Value.orNull (fun a : Answer => a.answeredAt.json) i.answer)]

def Review.json (r : Review) : Value :=
  .ofFields
    [("token", .string r.session.token), ("status", r.session.status.json),
      ("total_questions", .int r.session.total), ("correct_count", Value.orNull .int r.session.correctCount),
      ("final_score", Value.orNull .double r.session.score),
      ("finished_at", Value.orNull Instant.json r.session.finishedAt), ("items", .array (r.items.map ReviewItem.json))]

end Exam

namespace Wire

def slotFields : List Field :=
  [.needed "id" (Reader.integer .signed64), .needed "session_id" (Reader.integer .signed64),
    .needed "question_id" (Reader.integer .signed64), .needed "sequence" (Reader.integer .signed32),
    .needed "kind" (Reader.name Kind.ofName?)]

def slot : Reader Slot := fun depth d => do
  let r ← Record.read slotFields depth d
  let id := Reader.integer .signed64
  .ok ⟨← r.get "id" id, ← r.get "session_id" id, ← r.get "question_id" id,
    ← r.get "sequence" (Reader.integer .signed32), ← r.get "kind" (Reader.name Kind.ofName?)⟩

def uuid : Reader Uuid := Reader.text Uuid.read?

def status : Reader Status := Reader.name Status.ofName?

def sessionFields : List Field :=
  [.needed "id" (Reader.integer .signed64), .needed "token" Reader.string, .needed "user_id" uuid,
    .needed "subject_id" (Reader.integer .signed64), .needed "level_id" (Reader.integer .signed64),
    .spare "topic_id" (Reader.integer .signed64), .needed "status" status, .needed "started_at" instant,
    .needed "duration_minutes" (Reader.integer .signed32), .needed "deadline" instant,
    .spare "finished_at" instant, .needed "total_questions" (Reader.integer .signed32),
    .spare "correct_count" (Reader.integer .signed32), .spare "final_score" Reader.double]

def session : Reader Session := fun depth d => do
  let r ← Record.read sessionFields depth d
  let id := Reader.integer .signed64
  let count := Reader.integer .signed32
  let scope : Scope := ⟨← r.get "subject_id" id, ← r.get "level_id" id, ← r.get? "topic_id" id⟩
  let terms : Terms :=
    ⟨← r.get "token" Reader.string, ← r.get "user_id" uuid, scope, ← r.get "started_at" instant,
      ← r.get "duration_minutes" count, ← r.get "deadline" instant⟩
  .ok ⟨terms, ← r.get "id" id, ← r.get "status" status, ← r.get? "finished_at" instant,
    ← r.get "total_questions" count, ← r.get? "correct_count" count, ← r.get? "final_score" Reader.double⟩

end Wire

end Proctor
