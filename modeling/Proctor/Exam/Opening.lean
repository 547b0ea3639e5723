import Proctor.Exam.Watch

/-!
# Opening a session

A session is opened for a user with questions drawn from a scope. Nothing is stored unless
the bounds hold, the scope exists, the pool is large enough and the token is new; this is
also the order in which these are looked at.
-/

set_option autoImplicit false

namespace Proctor

/-- What a user asks for. -/
structure Request where
  scope : Scope
  minutes : Int
  count : Int
deriving DecidableEq

/-- What opening a session takes beside the request: a new token and random words for the draw. -/
structure Chance where
  token : String
  words : List UInt32
deriving DecidableEq

/-- The bounds that the request breaks. -/
def Request.faults (r : Request) : List BoundFault :=
  (if 1 ≤ r.minutes ∧ r.minutes ≤ 480 then [] else [.duration]) ++ (if 1 ≤ r.count then [] else [.questionCount])

namespace Exam

/-- Fails if bounds are broken. -/
def within (faults : List BoundFault) : Call Unit :=
  if faults.isEmpty then pure () else .failed (.input (.outOfBounds faults))

/-- Opens a session. -/
def create (user : Uuid) (r : Request) (chance : Chance) : Call Session := do
  within r.faults
  if !(← Call.ask (.hasLevel r.scope.subject r.scope.level)) then
    Call.failed (.input (.outsideScope r.scope.subject r.scope.level))
  else
    let pool ← Call.ask (.pool r.scope)
    let (drawn, _) ← Call.ofExcept (Draw.draw pool r.count.toNat chance.words)
    let now ← Call.now
    Call.ask (.create ⟨chance.token, user, r.scope, now, r.minutes, now.deadline r.minutes⟩ drawn)

end Exam

end Proctor
