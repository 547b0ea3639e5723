import Proctor.Question.Basic
import Proctor.Session.Status
import Proctor.Time.Instant
import Proctor.Uuid

/-!
# Sessions

The `Terms` of a session are fixed when it opens; its state, its end and its score are
written as it goes on. A session has numbered slots, each with one question.
-/

set_option autoImplicit false

namespace Proctor

/-- What a session is opened with and never changes. -/
structure Terms where
  token : String
  user : Uuid
  scope : Scope
  startedAt : Instant
  minutes : Int
  deadline : Instant
deriving DecidableEq

structure Session extends Terms where
  id : Int
  status : Status
  finishedAt : Option Instant
  total : Int
  correctCount : Option Int
  score : Option Float
deriving DecidableEq

/-- The place of one question in a session. -/
structure Slot where
  id : Int
  session : Int
  question : Int
  sequence : Int
  kind : Kind
deriving DecidableEq

/-- A question that may be drawn. -/
structure PoolEntry where
  question : Int
  kind : Kind
deriving DecidableEq

/-- A question with its number in a session that is not stored yet. -/
structure Drawn where
  sequence : Int
  question : Int
  kind : Kind
deriving DecidableEq

/-- The end of a session that starts now. -/
def Instant.deadline (start : Instant) (minutes : Int) : Instant := start.plusMinutes minutes

namespace Session

def isOngoing (s : Session) : Bool := s.status == .ongoing

/-- The session is ongoing although its deadline has passed. -/
def isExpired (s : Session) (now : Instant) : Bool := s.isOngoing && decide (s.deadline < now)

/-- The session is ongoing and its deadline has not passed. -/
def isOpen (s : Session) (now : Instant) : Bool := s.isOngoing && decide (now ≤ s.deadline)

theorem isOpen_eq (s : Session) (now : Instant) : s.isOpen now = (s.isOngoing && !s.isExpired now) := by
  unfold isOpen isExpired
  by_cases h : now ≤ s.deadline
  · have : ¬s.deadline < now := Instant.not_lt.2 h
    cases s.isOngoing <;> simp [h, this]
  · have : s.deadline < now := Int.not_le.1 h
    cases s.isOngoing <;> simp [h, this]

end Session

end Proctor
