import Proctor.Json.Reading

/-!
# Values that may turn out unreadable

Where a value may as well be unreadable, its reader gives up at the first fault, and reading
goes on from there. That is behind the value if the fault showed at its very end: nothing
followed the fault, and each bracket that was open could be closed. A reader that gave up
inside the value has brackets or a quote ahead that close nothing, so the whole text
cannot be read any more.
-/

set_option autoImplicit false

namespace Proctor.Json

/-- Where the reader of a value stands afterwards. -/
inductive Attempt where
  /-- Behind the value, which it has read. -/
  | done
  /-- Behind the value, which it could not read. -/
  | behind
  /-- Inside the value. -/
  | inside
deriving DecidableEq

namespace Draft

mutual

/-- Tries to read a well-formed draft that lies `depth` brackets deep. -/
def attempt (depth : Nat) : Draft → Attempt
  | .null => .done
  | .bool _ => .done
  | .number n => if n.number?.isSome then .done else if n.endsEarly then .inside else .behind
  | .string (.ok _) => .done
  | .string (.error .late) => .behind
  | .string (.error .early) => .inside
  | .array items _ => if depth < deepest then attemptItems (depth + 1) items else .inside
  | .object fields _ => if depth < deepest then attemptFields (depth + 1) fields else .inside
  | .broken => .inside

/-- Tries to read the items of an array up to its end. -/
def attemptItems (depth : Nat) : List Draft → Attempt
  | [] => .done
  | d :: rest =>
    match attempt depth d with
    | .done => attemptItems depth rest
    | .behind => if rest.isEmpty then .behind else .inside
    | .inside => .inside

/-- Tries to read the fields of an object up to its end; a key that has no text stands before a colon. -/
def attemptFields (depth : Nat) : List (Option String × Draft) → Attempt
  | [] => .done
  | (none, _) :: _ => .inside
  | (some _, d) :: rest =>
    match attempt depth d with
    | .done => attemptFields depth rest
    | .behind => if rest.isEmpty then .behind else .inside
    | .inside => .inside

end

end Draft

/-- A value that may be unreadable as long as its reader gets behind it; `f` takes what it has read. -/
def Reader.tried {α : Type} (r : Reader α) (f : Option α → Except Fault Unit) : Nat → Draft → Except Fault Unit :=
  fun depth d =>
    match d.attempt depth with
    | .done => f (r depth d).toOption
    | .behind => f none
    | .inside => .error .malformed

/-- The attempt at a text that is one value. -/
def attemptAt (text : String) : Attempt := (Draft.read (Text.symbols text)).1.attempt 0

example : attemptAt "[1,\"a\"]" = .done := by decide +kernel
example : attemptAt "\"\\ud800\"" = .behind ∧ attemptAt "\"\\udc00\"" = .inside := by decide +kernel
example : attemptAt "[1,\"\\ud800\"]" = .behind ∧ attemptAt "[\"\\ud800\",1]" = .inside := by decide +kernel

end Proctor.Json
