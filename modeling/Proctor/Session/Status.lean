/-!
# The state of a session

A session starts `ongoing` and leaves this state once, for good.
-/

set_option autoImplicit false

namespace Proctor

inductive Status where
  | ongoing
  | completed
  | timeout
  | cancelled
deriving DecidableEq

namespace Status

def name : Status → String
  | .ongoing => "ongoing"
  | .completed => "completed"
  | .timeout => "timeout"
  | .cancelled => "cancelled"

def ofName? : String → Option Status
  | "ongoing" => some .ongoing
  | "completed" => some .completed
  | "timeout" => some .timeout
  | "cancelled" => some .cancelled
  | _ => none

/-- What is said of a text that names no status. -/
def unknown (text : String) : String := "unknown session status '" ++ text ++ "'"

def isTerminal (s : Status) : Bool := s != .ongoing

theorem ofName?_name (s : Status) : ofName? s.name = some s := by
  cases s <;> rfl

end Status

end Proctor
