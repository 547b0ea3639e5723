import Proctor.Error
import Proctor.Http.Message
import Proctor.Text.Percent

/-!
# Routes

A path has segments with slashes between them and names a resource if they match it exactly.
A segment may stand for a parameter, which is decoded afterwards; the last segment of a path
must not be empty then.
-/

set_option autoImplicit false

namespace Proctor.Http

/-- What a path names; parameters as they stand in the path. -/
inductive Resource where
  | health
  | sessions
  | listing
  | session (token : List Char)
  | questions (token : List Char)
  | answer (token sequence : List Char)
  | completion (token : List Char)
  | review (token : List Char)
deriving DecidableEq

/-- The resource of the segments below the sessions. -/
def Resource.below : List (List Char) → Option Resource
  | [token] => if token.isEmpty then none else some (.session token)
  | [token, verb] =>
    if verb = "questions".toList then some (.questions token)
    else if verb = "complete".toList then some (.completion token)
    else if verb = "detail".toList then some (.review token)
    else none
  | [token, verb, sequence] =>
    if verb = "answers".toList ∧ !sequence.isEmpty then some (.answer token sequence) else none
  | _ => none

/-- The resource of the segments of a path. -/
def Resource.ofSegments (segments : List (List Char)) : Option Resource :=
  match segments with
  | [a] => if a = "health".toList then some .health else none
  | [a, b] => if a = "api".toList ∧ b = "sessions".toList then some .sessions else none
  | a :: b :: c :: rest =>
    if a = "api".toList ∧ b = "admin".toList ∧ c = "sessions".toList ∧ rest.isEmpty then some .listing
    else if a = "api".toList ∧ b = "sessions".toList then below (c :: rest)
    else none
  | _ => none

/-- The resource of a path. -/
def Resource.ofPath (path : List Char) : Option Resource :=
  match splitAll '/' path with
  | [] :: segments => ofSegments segments
  | _ => none

/-- The resource can be asked for with `GET`. -/
def Resource.isShown : Resource → Bool
  | .sessions | .answer _ _ | .completion _ => false
  | .health | .listing | .session _ | .questions _ | .review _ => true

/-- The text of a parameter. -/
def parameter (cs : List Char) : Except Error String :=
  match Text.Percent.decode? cs with
  | some s => .ok s
  | none => .error (.input .url)

/-- The number of a parameter. -/
def sequenceParameter (cs : List Char) : Except Error Int := do
  match Text.Integer.read? .signed32 (← parameter cs) with
  | some n => .ok n
  | none => .error (.input .url)

end Proctor.Http
