import GhostText.Notice
import GhostText.Text.Upper

namespace GhostText.Log

-- Without the wish for detail the notices for debugging are left out.
def kept (verbose : Bool) (n : Notice) : Bool :=
  verbose || n.level ≠ .debug

structure Setup where
  verbose : Bool
  level   : Nat
deriving DecidableEq, Repr

def levels : List (String × Nat) :=
  [("CRITICAL", 50), ("FATAL", 50), ("ERROR", 40), ("WARN", 30), ("WARNING", 30), ("INFO", 20), ("DEBUG", 10),
   ("NOTSET", 0)]

inductive SetupError
  | unknownLevel (name : Text)

def SetupError.message : SetupError → Text
  | unknownLevel name => "Unknown level: ".toList ++ name.quoted

-- Verbosity and level from environment variables. Detail is off unless it is asked for.
def Setup.ofEnvironment (env : List (Text × Text)) : Except SetupError Setup :=
  let verbose := env.lookup "AUTOTAB_VERBOSE".toList = some ['1']
  let default := if verbose then "DEBUG" else "INFO"
  let name := Text.upper ((env.lookup "AUTOTAB_LOGGING_LEVEL".toList).getD default.toList)
  match levels.find? (·.1.toList = name) with
  | some (_, level) => .ok { verbose, level }
  | none => .error (.unknownLevel name)

def root : Text :=
  "autotab".toList

-- Every logger lives below the root.
def loggerName (name : Text) : Text :=
  if name = root || (root ++ ['.']).isPrefixOf name then name else root ++ '.' :: name

end GhostText.Log
