import Proctor.Exam.Opening
import Proctor.Json.Embedded
import Proctor.Wire.Session

/-!
# Requests and acknowledgements as JSON

What a caller sends to open a session or to answer, and the short reply to a call that has
nothing else to say.
-/

set_option autoImplicit false

namespace Proctor

open Json

/-- A call was carried out, and perhaps what the session has become. -/
structure Ack where
  ok : Bool
  status : Option Status
deriving DecidableEq

def Ack.json (a : Ack) : Value :=
  .ofFields (("ok", .bool a.ok) :: a.status.toList.map fun s => ("status", s.json))

def Request.json (r : Request) : Value :=
  .ofFields
    [("subject_id", .int r.scope.subject), ("level_id", .int r.scope.level),
      ("topic_id", Value.orNull .int r.scope.topic), ("duration_minutes", .int r.minutes),
      ("question_count", .int r.count)]

namespace Wire

def requestFields : List Field :=
  [.needed "subject_id" (Reader.integer .signed64), .needed "level_id" (Reader.integer .signed64),
    .spare "topic_id" (Reader.integer .signed64), .needed "duration_minutes" (Reader.integer .signed32),
    .needed "question_count" (Reader.integer .signed32)]

def request : Reader Request := fun depth d => do
  let r ← Record.read requestFields depth d
  let id := Reader.integer .signed64
  .ok ⟨⟨← r.get "subject_id" id, ← r.get "level_id" id, ← r.get? "topic_id" id⟩,
    ← r.get "duration_minutes" (Reader.integer .signed32), ← r.get "question_count" (Reader.integer .signed32)⟩

/-- The answer in a submission, whatever it is. -/
def submission : Reader Value := fun depth d => do
  let r ← Record.read [.needed "answer" Reader.any] depth d
  r.get "answer" Reader.any

def ack : Reader Ack := fun depth d => do
  let r ← Record.read [.needed "ok" Reader.bool, .spare "status" status] depth d
  .ok ⟨← r.get "ok" Reader.bool, ← r.get? "status" status⟩

end Wire

end Proctor
