import Proctor.Call

/-!
# Keeping the time

Nobody watches the deadlines. A session whose deadline has passed is ended when somebody next
looks at it, by `Exam.observe`; this holds whatever becomes of the rest of the call.
-/

set_option autoImplicit false

namespace Proctor.Exam

/-- The session of a token. -/
def find (token : String) : Call Session := do
  Call.orFail (.notFound .session) (← Call.ask (.findByToken token))

/-- The session as it stands now, after it was ended if its deadline has passed. -/
def observe (s : Session) : Call Session := do
  let now ← Call.now
  if s.isExpired now then Call.ask (.markTimedOut s.id now) else pure s

/-- Why a session does not take changes, if it does not. -/
def closedFault? (s : Session) : Option Error :=
  match s.status with
  | .ongoing => none
  | .timeout => some (.timeout (.since s.deadline))
  | status => some (.state (.closed status))

/-- Refuses a session that is not ongoing. -/
def ensureOngoing (s : Session) : Except Error Unit :=
  match closedFault? s with
  | none => .ok ()
  | some e => .error e

/-- The whole seconds that are left; the clock is asked only about an ongoing session. -/
def remaining (s : Session) : Call Int := do
  if s.status.isTerminal then pure 0 else pure (s.deadline.secondsUntil (← Call.now))

/-- The session of a token as it stands now. -/
def look (token : String) : Call Session := do observe (← find token)

/-- The session of an id as it stands now. -/
def lookById (id : Int) : Call Session := do
  observe (← Call.orFail (.notFound .session) (← Call.ask (.find id)))

end Proctor.Exam
