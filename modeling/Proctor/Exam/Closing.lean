import Proctor.Exam.Watch

/-!
# Ending a session

A session is completed with its score, or cancelled, which removes it. Completing a completed
session gives its result again. Whoever comes too late is told how the session ended.
-/

set_option autoImplicit false

namespace Proctor.Exam

/-- The session, unless it is one that does not take changes. -/
def ifOngoing (s : Session) : Call Session := do
  Call.ofExcept (ensureOngoing s)
  pure s

/-- The result of a session that did not take the completion. -/
def settled (s : Session) : Call Session :=
  match s.status, closedFault? s with
  | .completed, _ => pure s
  | _, some e => .failed e
  | _, none => .failed (.internal .completionRejected)

/-- Completes an ongoing session. -/
def finish (s : Session) : Call Session := do
  let now ← Call.now
  if s.isExpired now then ifOngoing (← Call.ask (.markTimedOut s.id now))
  else
    match ← Call.ask (.complete s.id now) with
    | some done => pure done
    | none => settled (← lookById s.id)

def complete (token : String) : Call Session := do
  let s ← find token
  match s.status with
  | .completed => pure s
  | .ongoing => finish s
  | _ => ifOngoing s

/-- Removes an ongoing session. -/
def cancel (token : String) : Call Unit := do
  let s ← look token
  if s.isOngoing then
    if ← Call.ask (.deleteOngoing s.id) then pure () else .failed (.state .alreadyLeft)
  else .failed (.state (.notCancellable s.status))

end Proctor.Exam
