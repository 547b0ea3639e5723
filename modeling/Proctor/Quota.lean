import Proctor.Table
import Proctor.Time.Instant
import Proctor.Uuid

/-!
# The quota of sessions

A user may open at most `limit` sessions in a window of time. The window starts with the
first session and ends when it is as old as `window`; then the next session starts a new one.
Windows that have ended are dropped, for all users, whenever anybody asks.
-/

set_option autoImplicit false

namespace Proctor

/-- The sessions that a user has opened since the start of the window. -/
structure Window where
  start : Instant
  count : Nat
deriving DecidableEq

structure Quota where
  limit : Nat
  /-- The length of a window in nanoseconds. -/
  window : Int
  windows : Table Uuid Window
deriving DecidableEq

namespace Quota

/-- The longest length of a window, in seconds. -/
def longest : Int := 9223372036854775

/-- A quota with a limit of at least one and a window of at least one second. The seconds are
taken as a signed 64-bit number; lengths beyond `longest` are no window. -/
def ofSeconds? (limit seconds : Nat) : Option Quota :=
  let signed := (max seconds 1 : Int).bmod 0x10000000000000000
  if -longest ≤ signed ∧ signed ≤ longest then some ⟨max limit 1, signed * Instant.nanosPerSecond, ∅⟩
  else none

/-- The window has not ended. -/
def runs (q : Quota) (now : Instant) (w : Window) : Bool := decide (now.nanos - w.start.nanos < q.window)

/-- Asks for one more session of a user. -/
def allow (q : Quota) (user : Uuid) (now : Instant) : Bool × Quota :=
  let running := q.windows.filter fun _ w => q.runs now w
  let w := (running.get? user).getD ⟨now, 0⟩
  if w.count < q.limit then (true, { q with windows := running.insert user ⟨w.start, w.count + 1⟩ })
  else (false, { q with windows := running.insert user w })

/-- Asks a quota that may be absent; without one everything is allowed. -/
def ask (q : Option Quota) (user : Uuid) (now : Instant) : Bool × Option Quota :=
  match q with
  | none => (true, none)
  | some q => ((q.allow user now).1, some (q.allow user now).2)

end Quota

end Proctor
