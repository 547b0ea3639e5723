import Proctor.Call
import Proctor.Exam.Operation
import Proctor.Wire.Request

/-!
# Accesses and operations as JSON

What single accesses and whole operations give; sessions are shown with their ids here.
-/

set_option autoImplicit false

namespace Proctor

open Json

def Removal.name : Removal → String
  | .removed => "removed"
  | .absent => "absent"
  | .closed => "session_closed"

/-- Sessions of a listing with their number. -/
def sessionsJson (sessions : List Session) (total : Nat) : Value :=
  .ofFields [("sessions", .array (sessions.map Session.jsonWithId)), ("total", .nat total)]

/-- What an access gives, as JSON. -/
def Access.json : (q : Access) → q.Answer → Value
  | .now, t => Instant.json t
  | .create _ _, s => Session.jsonWithId s
  | .findByToken _, s => Value.orNull Session.jsonWithId s
  | .find _, s => Value.orNull Session.jsonWithId s
  | .list _, r => sessionsJson r.1 r.2
  | .markTimedOut _ _, s => Session.jsonWithId s
  | .complete _ _, s => Value.orNull Session.jsonWithId s
  | .deleteOngoing _, b => .bool b
  | .sheet _, slots => .array (List.map Slot.json slots)
  | .slotAt _ _, s => Value.orNull Slot.json s
  | .answersOf _, answers => .array (List.map Answer.json answers)
  | .record _, a => Value.orNull Answer.json a
  | .clear _ _, r => .string (Removal.name r)
  | .hasLevel _ _, b => .bool b
  | .pool _, entries => .array (List.map PoolEntry.json entries)
  | .question _, q => Question.json q
  | .questions _, qs => .array (List.map Question.json qs)
  | .allowCreate _, b => .bool b

/-- The reply to an operation that gives nothing else. -/
def doneJson : Value := .string "ok"

def Exam.Snapshot.json (s : Exam.Snapshot) : Value :=
  .ofFields
    [("session", s.session.jsonWithId), ("answered_count", .nat s.answered),
      ("time_remaining_seconds", .int s.remaining)]

/-- What an operation gives, as JSON. -/
def Exam.Operation.json : (o : Exam.Operation) → o.Result → Value
  | .create _ _ _, s => Session.jsonWithId s
  | .get _, s => Exam.Snapshot.json s
  | .questions _, s => Exam.Sheet.json s
  | .submit _ _ _, r => Exam.Receipt.json r
  | .clear _ _, _ => doneJson
  | .complete _, s => Session.jsonWithId s
  | .cancel _, _ => doneJson
  | .detail _, r => Exam.Review.json r
  | .list _, r => sessionsJson r.1 r.2

end Proctor
