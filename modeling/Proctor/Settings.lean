import Proctor.Error
import Proctor.Text.Blank

/-!
# Settings

The settings come from named texts of the environment. Three of them have to be there; the
numbers have defaults. They are looked at in the order of the fields, and set once.
-/

set_option autoImplicit false

namespace Proctor

structure Settings where
  serverAddress : String
  databaseUrl : String
  secret : String
  maxConnections : Int
  createLimit : Int
  createWindow : Int
  jsonLogs : Bool
deriving DecidableEq

/-- The named texts that a process is started with. -/
abbrev Environment := String → Option String

namespace Settings

/-- The names that are looked at. -/
def names : List String :=
  ["SERVER_ADDRESS", "DATABASE_URL", "JWT_SECRET", "DATABASE_MAX_CONNECTIONS", "SESSION_CREATE_LIMIT",
    "SESSION_CREATE_WINDOW_SECS", "LOG_FORMAT"]

def required (env : Environment) (name : String) : Except Error String :=
  match env name with
  | some text => .ok text
  | none => .error (.setting (.missing name))

/-- A number with a default. -/
def number (env : Environment) (name : String) (w : Text.Width) (default : Int) : Except Error Int :=
  match env name with
  | none => .ok default
  | some text =>
    match Text.Integer.read w text.toList with
    | .ok n => .ok n
    | .error fault => .error (.setting (.invalid name fault))

def read (env : Environment) : Except Error Settings := do
  let serverAddress ← required env "SERVER_ADDRESS"
  let databaseUrl ← required env "DATABASE_URL"
  let secret ← required env "JWT_SECRET"
  let maxConnections ← number env "DATABASE_MAX_CONNECTIONS" .unsigned32 20
  let createLimit ← number env "SESSION_CREATE_LIMIT" .unsigned32 10
  let createWindow ← number env "SESSION_CREATE_WINDOW_SECS" .unsigned64 3600
  .ok ⟨serverAddress, databaseUrl, secret, maxConnections, createLimit, createWindow,
    (env "LOG_FORMAT").any (Text.sameIgnoringCase · "json")⟩

/-- Reads the settings and sets them, unless they are set; what is set stays. -/
def set (env : Environment) (current : Option Settings) : Except Error Settings := do
  let s ← read env
  match current with
  | none => .ok s
  | some _ => .error (.setting .setTwice)

/-- What is said when settings are wanted before they are set. -/
def unset : String := "Configuration has not been initialized"

end Settings

end Proctor
