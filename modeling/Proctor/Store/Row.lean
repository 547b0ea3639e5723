import Proctor.Answer
import Proctor.Error
import Proctor.Session.Basic

/-!
# Rows of a database

A row holds names as text. It becomes a session, a slot or an answer if the text names what
it should; an answer has an option or a placement, never both and never neither.
-/

set_option autoImplicit false

namespace Proctor

structure SessionRow extends Terms where
  id : Int
  status : String
  finishedAt : Option Instant
  total : Int
  correctCount : Option Int
  score : Option Float

structure SlotRow where
  id : Int
  session : Int
  question : Int
  sequence : Int
  kind : String

structure AnswerRow where
  slot : Int
  option : Option String
  placement : Option Placement
  isCorrect : Bool
  answeredAt : Instant

def SessionRow.session (r : SessionRow) : Except Error Session :=
  match Status.ofName? r.status with
  | some status => .ok { r with status := status }
  | none => .error (.internal (.unreadable (Status.unknown r.status)))

def SlotRow.slot (r : SlotRow) : Except Error Slot :=
  match Kind.ofName? r.kind with
  | some kind => .ok { r with kind := kind }
  | none => .error (.internal (.unreadable (Kind.unknown r.kind)))

/-- The selection of an answer row. -/
def AnswerRow.value (r : AnswerRow) : Except Error AnswerValue :=
  match r.option, r.placement with
  | some text, none =>
    match Choice.read text with
    | .ok option => .ok (.option option)
    | .error normal => .error (.internal (.unreadable (Choice.unknown normal)))
  | none, some p => .ok (.placement p)
  | _, _ => .error (.internal (.selections r.slot))

def AnswerRow.answer (r : AnswerRow) : Except Error Answer := do
  .ok ⟨r.slot, ← r.value, r.isCorrect, r.answeredAt⟩

end Proctor
