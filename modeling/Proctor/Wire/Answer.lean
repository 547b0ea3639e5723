import Proctor.Answer
import Proctor.Exam.Answering
import Proctor.Time.Rfc3339
import Proctor.Wire.Question

/-!
# Answers as JSON

The value of an answer is the name of an option, or an object from item ids to slot ids.
-/

set_option autoImplicit false

namespace Proctor

open Json

def Instant.json (t : Instant) : Value := .string (Rfc3339.zulu t)

def AnswerValue.json : AnswerValue → Value
  | .option picked => picked.json
  | .placement p => Placement.json p

def Answer.json (a : Answer) : Value :=
  .ofFields
    [("session_question_id", .int a.slot), ("value", a.value.json), ("is_correct", .bool a.isCorrect),
      ("answered_at", a.answeredAt.json)]

def Placed.json (p : Placed) : Value :=
  .ofFields
    [("item_id", .int p.item.id), ("item", .string p.item.label), ("slot_id", .int p.slot),
      ("slot", Value.orNull .string p.label)]

def Shown.json : Shown → Value
  | .option picked text => .ofFields [("option", picked.json), ("text", .string text)]
  | .placements placed => .array (placed.map Placed.json)

def Exam.Receipt.json (r : Exam.Receipt) : Value :=
  .ofFields [("sequence", .int r.sequence), ("is_correct", .bool r.isCorrect), ("answered_at", r.answeredAt.json)]

namespace Wire

def instant : Reader Instant := Reader.text Rfc3339.read

/-- The name of an option, or a placement without entries. -/
def answerValue : Reader AnswerValue := fun depth d => do
  isValue depth d
  match bufferedName Choice.ofName? depth d, nothing depth d with
  | .ok picked, _ => .ok (.option picked)
  | .error _, .ok _ => .ok (.placement ∅)
  | .error _, .error _ => .error .mismatch

def answerFields : List Field :=
  [.needed "session_question_id" (Reader.integer .signed64), .needed "value" answerValue,
    .needed "is_correct" Reader.bool, .needed "answered_at" instant]

def answer : Reader Answer := fun depth d => do
  let r ← Record.read answerFields depth d
  .ok ⟨← r.get "session_question_id" (Reader.integer .signed64), ← r.get "value" answerValue,
    ← r.get "is_correct" Reader.bool, ← r.get "answered_at" instant⟩

end Wire

end Proctor
