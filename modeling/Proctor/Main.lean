import Proctor.Startup

/-!
# The command line

The program reads its settings from the environment. It has no database to talk to, so every
start ends with the line that says why.
-/

set_option autoImplicit false

def main : IO UInt32 := do
  let pairs ← Proctor.Settings.names.mapM fun name => do return (name, ← IO.getEnv name)
  let env : Proctor.Environment := fun name => (pairs.find? (·.1 == name)).bind (·.2)
  IO.eprintln (Proctor.Startup.line (Proctor.Startup.failure env))
  return Proctor.Startup.exitCode
