import Proctor.Exam.Answering
import Proctor.Exam.Closing
import Proctor.Exam.Opening
import Proctor.Exam.Viewing
import Proctor.Http.Bearer
import Proctor.Http.MediaType
import Proctor.Http.Query
import Proctor.Http.Route
import Proctor.Wire.Request

/-!
# The HTTP service

Opening and listing sessions needs a bearer token, which is looked at before anything else of
the request; every other request is addressed by the token of its session. The path of a
request is looked at before its body. `HEAD` is `GET` without the body of the reply, but no
method where there is no `GET`.
-/

set_option autoImplicit false

namespace Proctor.Http

/-- Reads the value that the body of a request begins with. -/
def bodyOf {α : Type} (m : Message) (r : Json.Reader α) : Except Error α :=
  if (m.contentType.bind visible?).any MediaType.isJson then
    match Json.readStart r m.body with
    | .ok a => .ok a
    | .error .malformed => .error (.input .bodySyntax)
    | .error .mismatch => .error (.input .bodyShape)
  else .error (.input .contentType)

def openSession (c : Claims) (chance : Chance) (m : Message) : Call Reply := do
  let request ← Call.ofExcept (bodyOf m Wire.request)
  let user ← Call.ofExcept c.user
  if ← Call.ask (.allowCreate user) then
    let s ← Exam.create user request chance
    pure ⟨201, some (s.reply (some 0) (← Exam.remaining s))⟩
  else .failed (.quota .tooMany)

/-- Each session with the time it has left. -/
def withRemaining : List Session → Call (List Json.Value)
  | [] => pure []
  | s :: rest => do
    let left ← Exam.remaining s
    pure (s.reply none left :: (← withRemaining rest))

def listSessions (m : Message) : Call Reply := do
  let f ← Call.ofExcept (Query.filter m.pathAndQuery.2)
  let (sessions, total) ← Exam.list f
  let items ← withRemaining sessions
  pure (.ok (.ofFields
    [("items", .array items), ("total", .nat total), ("page", .int f.page), ("per_page", .int f.perPage),
      ("total_pages", .int (pageCount total f.perPage))]))

def showSession (token : List Char) : Call Reply := do
  let shot ← Exam.get (← Call.ofExcept (parameter token))
  pure (.ok (shot.session.reply (some shot.answered) shot.remaining))

def cancelSession (token : List Char) : Call Reply := do
  Exam.cancel (← Call.ofExcept (parameter token))
  pure (.ok (Ack.json ⟨true, some .cancelled⟩))

def showQuestions (token : List Char) : Call Reply := do
  pure (.ok (← Exam.questions (← Call.ofExcept (parameter token))).json)

def submitAnswer (token sequence : List Char) (m : Message) : Call Reply := do
  let token ← Call.ofExcept (parameter token)
  let sequence ← Call.ofExcept (sequenceParameter sequence)
  let answer ← Call.ofExcept (bodyOf m Wire.submission)
  pure (.ok (← Exam.submit token sequence answer).json)

def clearAnswer (token sequence : List Char) : Call Reply := do
  let token ← Call.ofExcept (parameter token)
  let sequence ← Call.ofExcept (sequenceParameter sequence)
  Exam.clear token sequence
  pure (.ok (Ack.json ⟨true, none⟩))

def completeSession (token : List Char) : Call Reply := do
  let s ← Exam.complete (← Call.ofExcept (parameter token))
  pure (.ok (s.reply none 0))

def showReview (token : List Char) : Call Reply := do
  pure (.ok (← Exam.detail (← Call.ofExcept (parameter token))).json)

/-- The reply to a request for a resource that has no such method. -/
def notAllowed : Call Reply := pure (.bare 405)

/-- Carries out a method on a resource; `check` decides about bearer tokens. -/
def act (check : String → Option Claims) (chance : Chance) (m : Message) (method : String) (r : Resource) :
    Call Reply :=
  match r with
  | .health => if method = "GET" then pure (.ok (.ofFields [("status", .string "ok")])) else notAllowed
  | .sessions => do
    let claims ← Call.ofExcept (Bearer.authenticate check m.authorization)
    if method = "POST" then openSession claims chance m else notAllowed
  | .listing => do
    let claims ← Call.ofExcept (Bearer.authenticate check m.authorization)
    if !claims.isAdmin then Call.failed (.forbidden .adminOnly)
    else if method = "GET" then listSessions m
    else notAllowed
  | .session token =>
    if method = "GET" then showSession token
    else if method = "DELETE" then cancelSession token
    else notAllowed
  | .questions token => if method = "GET" then showQuestions token else notAllowed
  | .answer token sequence =>
    if method = "PUT" then submitAnswer token sequence m
    else if method = "DELETE" then clearAnswer token sequence
    else notAllowed
  | .completion token => if method = "POST" then completeSession token else notAllowed
  | .review token => if method = "GET" then showReview token else notAllowed

/-- The request asks for the reply to `GET` without its body. -/
def asksForHead (m : Message) : Bool :=
  m.method = "HEAD" ∧ (Resource.ofPath m.pathAndQuery.1).any Resource.isShown

/-- The call that a request asks for. `OPTIONS` is answered on every path. -/
def callOf (check : String → Option Claims) (chance : Chance) (m : Message) : Call Reply :=
  if m.method = "OPTIONS" then pure (.bare 200)
  else
    match Resource.ofPath m.pathAndQuery.1 with
    | none => pure (.bare 404)
    | some r => act check chance m (if asksForHead m then "GET" else m.method) r

/-- The reply to a request, carried out with the given handler. -/
def serve {σ : Type} (handle : Call.Handler σ) (check : String → Option Claims) (chance : Chance) (m : Message)
    (s : σ) : Reply × σ :=
  let (outcome, s) := (callOf check chance m).run handle s
  let reply := Reply.ofExcept outcome
  (if asksForHead m then reply.withoutBody else reply, s)

end Proctor.Http
