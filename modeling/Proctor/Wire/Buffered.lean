import Proctor.Json.Reading

/-!
# Values that are read twice

Where the shape of a value is not known beforehand, the whole value is read as JSON first and
taken apart afterwards. Then an enumerated name may also be an object with this name as its
only key and `null` in it, and an object whose keys are numbers has to be empty: the keys of
the first reading are texts.
-/

set_option autoImplicit false

namespace Proctor.Wire

open Json

/-- The draft is a value. -/
def isValue : Nat → Draft → Except Fault Unit := fun depth d => (d.toValue depth).map fun _ => ()

/-- One of some names, or an object with the name as its only key and `null` in it. -/
def bufferedName {α : Type} (f : String → Option α) : Reader α := fun _ d =>
  match d with
  | .string (.ok s) => (f s).elim (.error .mismatch) .ok
  | .object [(some s, .null)] _ => (f s).elim (.error .mismatch) .ok
  | d => .error d.wrongKind

/-- The same for a name that is part of a larger value; in the object may also be an empty one. -/
def innerName {α : Type} (f : String → Option α) : Reader α := fun depth d =>
  match d with
  | .object [(some s, .object [] _)] _ => (f s).elim (.error .mismatch) .ok
  | d => bufferedName f depth d

/-- An object without fields. -/
def nothing : Reader Unit := fun _ d =>
  match d with
  | .object [] true => .ok ()
  | d => .error d.wrongKind

/-- The record, and its other fields as they stand. -/
def recordAndRest (fields : List Field) : Reader (Record × List (Option String × Draft)) := fun depth d =>
  match d with
  | .object entries closed =>
    if depth < deepest then do
      let seen ← Record.walk fields (depth + 1) (isValue (depth + 1)) [] entries
      if closed then do
        Record.complete fields seen
        .ok (⟨depth + 1, seen⟩, entries.filter fun e => !fields.any (some ·.name == e.1))
      else .error .malformed
    else .error .malformed
  | d => .error d.wrongKind

/-- The record of fields that were read before; others do not matter. -/
def recordOf (fields : List Field) (depth : Nat) (entries : List (Option String × Draft)) : Except Fault Record := do
  let seen ← Record.walk fields depth (fun _ => .ok ()) [] entries
  Record.complete fields seen
  .ok ⟨depth, seen⟩

/-- The one field with this name among fields that were read before, and the others. -/
def tag (name : String) (entries : List (Option String × Draft)) :
    Except Fault (Draft × List (Option String × Draft)) :=
  match entries.filter (·.1 == some name) with
  | [(_, d)] => .ok (d, entries.filter (·.1 != some name))
  | _ => .error .mismatch

end Proctor.Wire
