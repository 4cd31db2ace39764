import GhostText.Replay.CommandLine

namespace GhostText.Main

def usage : String :=
  "usage: ghosttext [-h] [--ground FILE | --example python|js] [--debounce-ms MS] [--no-accept] [-v]"

def environment : BaseIO (List (Text × Text)) :=
  Settings.Field.all.filterMapM fun f => do
    let name := Settings.variableName f
    let value ← IO.getEnv (String.ofList name)
    return value.map fun v => (name, v.toList)

def refuse (code : UInt32) (message : String) : IO UInt32 := do
  IO.eprintln message
  return code

def explain : Replay.Refusal → String
  | .noText     => "no text to type"
  | .settings c => String.ofList (Replay.complain c)
  | .replay e   => e.message

def replay (o : Replay.Options) : IO UInt32 := do
  let ground ← o.ground.mapM fun path => IO.FS.readFile (String.ofList (Replay.normalPath path))
  match Replay.conduct o (← environment) (ground.map String.toList) with
  | (.error e, _) => refuse 1 (explain e)
  | (.ok lines, _) =>
    lines.forM IO.println
    return 0

def run (arguments : List String) : IO UInt32 := do
  match Replay.CommandLine.read (arguments.map String.toList) with
  | .error .usage => refuse 2 usage
  | .error .help =>
    IO.println usage
    return 0
  | .ok o =>
    try replay o
    catch e => refuse 1 (toString e)

end GhostText.Main

def main (arguments : List String) : IO UInt32 :=
  GhostText.Main.run arguments
