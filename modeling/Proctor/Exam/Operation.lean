import Proctor.Exam.Answering
import Proctor.Exam.Closing
import Proctor.Exam.Opening
import Proctor.Exam.Viewing

/-!
# The operations on sessions

An `Operation` is one of the things that can be done with sessions, with everything that the
caller brings along; `Operation.call` is the call that does it.
-/

set_option autoImplicit false

namespace Proctor.Exam

inductive Operation where
  | create (user : Uuid) (r : Request) (chance : Chance)
  | get (token : String)
  | questions (token : String)
  | submit (token : String) (sequence : Int) (payload : Json.Value)
  | clear (token : String) (sequence : Int)
  | complete (token : String)
  | cancel (token : String)
  | detail (token : String)
  | list (f : Filter)

namespace Operation

/-- What an operation gives. -/
abbrev Result : Operation → Type
  | .create _ _ _ => Session
  | .get _ => Snapshot
  | .questions _ => Sheet
  | .submit _ _ _ => Receipt
  | .clear _ _ => Unit
  | .complete _ => Session
  | .cancel _ => Unit
  | .detail _ => Review
  | .list _ => List Session × Nat

def call : (o : Operation) → Call o.Result
  | .create user r chance => Exam.create user r chance
  | .get token => Exam.get token
  | .questions token => Exam.questions token
  | .submit token sequence payload => Exam.submit token sequence payload
  | .clear token sequence => Exam.clear token sequence
  | .complete token => Exam.complete token
  | .cancel token => Exam.cancel token
  | .detail token => Exam.detail token
  | .list f => Exam.list f

/-- The session token that an operation is addressed to. -/
def token? : Operation → Option String
  | .create _ _ _ => none
  | .get token => some token
  | .questions token => some token
  | .submit token _ _ => some token
  | .clear token _ => some token
  | .complete token => some token
  | .cancel token => some token
  | .detail token => some token
  | .list _ => none

end Operation

end Proctor.Exam
