import Proctor.Json.Complaint
import Proctor.Question.Kind
import Proctor.Session.Status
import Proctor.Text.Integer
import Proctor.Time.Rfc3339

/-!
# Why a request is refused

An `Error` is a cause, sorted into classes; the wording of every cause is in its class's
`message`. A cause that is known only by its text is an `other`. `code` names the class for
machines, `describe` for people; over HTTP the message is sent with the class's status, except
that the causes on our own side stay hidden.
-/

set_option autoImplicit false

namespace Proctor

/-- A number of a request that lies outside its bounds. -/
inductive BoundFault where
  | duration
  | questionCount
  | page
  | perPage
deriving DecidableEq

def BoundFault.message : BoundFault → String
  | .duration => "duration_minutes: Duration must be between 1 and 480 minutes"
  | .questionCount => "question_count: At least one question is required"
  | .page => "page: Validation error: range"
  | .perPage => "per_page: Validation error: range"

/-- Why something that the caller sent is not acceptable. -/
inductive InputFault where
  | choiceWanted
  | unknownChoice (normal : String)
  | placementsWanted
  | badItem (key : String)
  | slotNotWhole (item : Int)
  | unknownItem (item : Int)
  | unknownSlot (slot : Int)
  | placedTwice (item : Int)
  | emptyDraw
  | outOfBounds (faults : List BoundFault)
  | outsideScope (subject level : Int)
  | contentType
  | bodySyntax
  | bodyShape
  | url
  | query
  | other (text : String)
deriving DecidableEq

def InputFault.message : InputFault → String
  | .choiceWanted => "Single-choice answer must be one of \"A\", \"B\", \"C\", \"D\""
  | .unknownChoice normal => Choice.unknown normal
  | .placementsWanted => "Drag-drop answer must be an object of item id to slot id"
  | .badItem key => "'" ++ key ++ "' is not a valid item id"
  | .slotNotWhole item => "Slot for item " ++ Text.Integer.text item ++ " must be an integer id"
  | .unknownItem item => "Unknown item id " ++ Text.Integer.text item
  | .unknownSlot slot => "Unknown slot id " ++ Text.Integer.text slot
  | .placedTwice item => "Item " ++ Text.Integer.text item ++ " is placed twice"
  | .emptyDraw => "Question count must be at least 1"
  | .outOfBounds faults => "\n".intercalate (faults.map BoundFault.message)
  | .outsideScope subject level =>
    "Level " ++ Text.Integer.text level ++ " does not belong to subject " ++ Text.Integer.text subject
  | .contentType => "Expected request with \x60Content-Type: application/json\x60"
  | .bodySyntax => "Failed to parse the request body as JSON"
  | .bodyShape => "Failed to deserialize the JSON body into the target type"
  | .url => "Invalid URL"
  | .query => "Failed to deserialize query string"
  | .other text => text

/-- What was looked for and is not there. -/
inductive Missing where
  | session
  | sessionId (id : Int)
  | question (id : Int)
  | sequence (n : Int)
  | resource
  | other (text : String)
deriving DecidableEq

def Missing.message : Missing → String
  | .session => "Session not found"
  | .sessionId id => "Session " ++ Text.Integer.text id ++ " not found"
  | .question id => "Question " ++ Text.Integer.text id ++ " not found"
  | .sequence n => "Session has no question with sequence " ++ Text.Integer.text n
  | .resource => "Resource not found"
  | .other text => text

/-- Why a session in its present state cannot do what is asked. -/
inductive StateFault where
  | closed (status : Status)
  | notCancellable (status : Status)
  | alreadyLeft
  | noResults
  | other (text : String)
deriving DecidableEq

def StateFault.message : StateFault → String
  | .closed status => "Session is " ++ status.name ++ " and no longer accepts changes"
  | .notCancellable status => "Only ongoing sessions can be cancelled; this one is " ++ status.name
  | .alreadyLeft => "Session left the ongoing state before it could be cancelled"
  | .noResults => "Results are available once the session is completed or timed out"
  | .other text => text

/-- A deadline that has passed. -/
inductive Overdue where
  | since (deadline : Instant)
  | other (text : String)
deriving DecidableEq

def Overdue.message : Overdue → String
  | .since deadline => "Session deadline passed at " ++ Rfc3339.numeric deadline
  | .other text => text

/-- A quota that is used up. -/
inductive QuotaFault where
  | tooMany
  | other (text : String)
deriving DecidableEq

def QuotaFault.message : QuotaFault → String
  | .tooMany => "Too many sessions started recently; try again later"
  | .other text => text

/-- Why a caller is not known. -/
inductive AccessFault where
  | missingHeader
  | malformedHeader
  | otherScheme
  | badToken
  | badSubject
  | other (text : String)
deriving DecidableEq

def AccessFault.message : AccessFault → String
  | .missingHeader => "Missing authorization header"
  | .malformedHeader => "Malformed authorization header"
  | .otherScheme => "Unsupported authorization scheme"
  | .badToken => "Invalid or expired token"
  | .badSubject => "Token subject is not a user id"
  | .other text => text

/-- Why a known caller may not do something. -/
inductive Forbidden where
  | adminOnly
  | other (text : String)
deriving DecidableEq

def Forbidden.message : Forbidden → String
  | .adminOnly => "Administrator role required"
  | .other text => text

/-- What is wrong with the settings. -/
inductive SettingFault where
  | missing (name : String)
  | invalid (name : String) (fault : Text.IntegerFault)
  | setTwice
  | other (text : String)
deriving DecidableEq

def SettingFault.message : SettingFault → String
  | .missing name => "Missing environment variable: " ++ name
  | .invalid name fault => "Invalid value for " ++ name ++ ": " ++ fault.message
  | .setTwice => "Configuration has already been initialized"
  | .other text => text

/-- What the database reports. -/
inductive DatabaseFault where
  | unreachable
  | noColumn (name : String)
  | poolClosed
  | poolTimedOut
deriving DecidableEq

def DatabaseFault.message : DatabaseFault → String
  | .unreachable => "error communicating with database"
  | .noColumn name => "no column found for name: " ++ name
  | .poolClosed => "attempted to acquire a connection on a closed pool"
  | .poolTimedOut => "pool timed out while waiting for an open connection"

/-- A migration that was applied and is no longer known. -/
structure MigrationFault where
  version : Int
deriving DecidableEq

def MigrationFault.message (f : MigrationFault) : String :=
  "migration " ++ Text.Integer.text f.version ++
    " was previously applied but is missing in the resolved migrations"

/-- What should not have happened. -/
inductive InternalFault where
  | duplicateToken
  | duplicateSequence
  | kindMismatch (question : Int) (kind slot : Kind)
  | missingQuestion (question sequence : Int)
  | answerRejected
  | completionRejected
  | selections (slot : Int)
  /-- A stored text names nothing that it could. -/
  | unreadable (text : String)
  | other (text : String)
deriving DecidableEq

def InternalFault.message : InternalFault → String
  | .duplicateToken => "duplicate session token"
  | .duplicateSequence => "duplicate sequence in session questions"
  | .kindMismatch question kind slot =>
    "question " ++ Text.Integer.text question ++ " is " ++ kind.name ++ " but its session slot is tagged " ++ slot.name
  | .missingQuestion question sequence =>
    "question " ++ Text.Integer.text question ++ " assigned at sequence " ++ Text.Integer.text sequence ++
      " is missing from the catalog"
  | .answerRejected => "Answer write was rejected for an ongoing session"
  | .completionRejected => "Completion write was rejected"
  | .selections slot =>
    "answer row for session question " ++ Text.Integer.text slot ++ " must hold exactly one selection"
  | .unreadable text => text
  | .other text => text

inductive Error where
  | setting (f : SettingFault)
  | input (f : InputFault)
  | notFound (m : Missing)
  | state (f : StateFault)
  | timeout (o : Overdue)
  | insufficientPool (requested available : Nat)
  | quota (f : QuotaFault)
  | unauthorized (f : AccessFault)
  | forbidden (f : Forbidden)
  | database (f : DatabaseFault)
  | migration (f : MigrationFault)
  | json (c : Json.Complaint)
  | internal (f : InternalFault)
deriving DecidableEq

namespace Error

/-- The name of the class, for machines. -/
def code : Error → String
  | .setting _ => "config_error"
  | .input _ => "invalid_input"
  | .notFound _ => "not_found"
  | .state _ => "invalid_state"
  | .timeout _ => "session_timeout"
  | .insufficientPool _ _ => "insufficient_pool"
  | .quota _ => "quota_exceeded"
  | .unauthorized _ => "unauthorized"
  | .forbidden _ => "forbidden"
  | .database _ => "database_error"
  | .migration _ => "database_error"
  | .json _ => "invalid_json"
  | .internal _ => "internal_error"

/-- What is said of the cause itself. -/
def message : Error → String
  | .setting f => f.message
  | .input f => f.message
  | .notFound m => m.message
  | .state f => f.message
  | .timeout o => o.message
  | .insufficientPool requested available =>
    "requested " ++ Text.Integer.text requested ++ ", available " ++ Text.Integer.text available
  | .quota f => f.message
  | .unauthorized f => f.message
  | .forbidden f => f.message
  | .database f => f.message
  | .migration f => f.message
  | .json c => c.message
  | .internal f => f.message

/-- The name of the class, for people. -/
def title : Error → String
  | .setting _ => "Configuration error"
  | .input _ => "Invalid input"
  | .notFound _ => "Not found"
  | .state _ => "Invalid state"
  | .timeout _ => "Session timed out"
  | .insufficientPool _ _ => "Insufficient question pool"
  | .quota _ => "Quota exceeded"
  | .unauthorized _ => "Unauthorized"
  | .forbidden _ => "Forbidden"
  | .database _ => "Database error"
  | .migration _ => "Migration error"
  | .json _ => "JSON error"
  | .internal _ => "Internal error"

/-- The class and the cause. -/
def describe (e : Error) : String := e.title ++ ": " ++ e.message

/-- The HTTP status of the class. -/
def httpStatus : Error → Nat
  | .input _ => 400
  | .json _ => 400
  | .unauthorized _ => 401
  | .forbidden _ => 403
  | .notFound _ => 404
  | .state _ => 409
  | .timeout _ => 410
  | .insufficientPool _ _ => 422
  | .quota _ => 429
  | .setting _ => 500
  | .database _ => 500
  | .migration _ => 500
  | .internal _ => 500

/-- What is sent to the caller: nothing about causes on our own side. -/
def publicMessage (e : Error) : String :=
  match e with
  | .insufficientPool _ _ => e.describe
  | e => if e.httpStatus = 500 then "An unexpected error occurred" else e.message

/-- The cause of a database failure: a row that is not there is something not found. -/
def ofDatabase : Option DatabaseFault → Error
  | none => .notFound .resource
  | some f => .database f

end Error

end Proctor
