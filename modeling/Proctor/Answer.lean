import Proctor.Question.Basic
import Proctor.Time.Instant

/-!
# Answers

An answer is an option of a choice or a placement of the items of a matching, with the grade
it got when it was given.
-/

set_option autoImplicit false

namespace Proctor

inductive AnswerValue where
  | option (option : Choice)
  | placement (p : Placement)
deriving DecidableEq

/-- The current answer of a slot; a slot without one is not answered. -/
structure Answer where
  slot : Int
  value : AnswerValue
  isCorrect : Bool
  answeredAt : Instant
deriving DecidableEq

end Proctor
