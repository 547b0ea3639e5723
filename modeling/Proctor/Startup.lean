import Proctor.Quota
import Proctor.Settings

/-!
# Starting up

A start reads the settings and then needs the database. Without a database every start fails,
and the reason is one line of text and an exit code. With one, the settings also say how many
sessions each user may open.
-/

set_option autoImplicit false

namespace Proctor.Startup

/-- Why a start without a database fails. -/
def failure (env : Environment) : Error :=
  match Settings.read env with
  | .ok _ => .database .unreachable
  | .error e => e

/-- The line that is written about a failed start; what the database itself reports is left out. -/
def line (e : Error) : String :=
  "Error: " ++ match e with
    | .database _ => e.title
    | e => e.describe

def exitCode : UInt32 := 1

/-- The quota that the settings ask for, if their window is one. -/
def quota? (s : Settings) : Option Quota := Quota.ofSeconds? s.createLimit.toNat s.createWindow.toNat

end Proctor.Startup
