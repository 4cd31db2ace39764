import GhostText.Number.Fixed
import GhostText.Replay.Typing

namespace GhostText.Replay

namespace Report

def escape : Char :=
  '\x1b'

def coloured (colour : String) (s : String) : String :=
  s!"{escape}[{colour}m" ++ s ++ s!"{escape}[0m"

def grey : String := "90"
def green : String := "32"
def red : String := "31"

def eventLine (label colour : String) (typed : Nat) (text : Text) : String :=
  coloured grey ("[" ++ label ++ " " ++ padLeft 5 (toString typed) ++ "]") ++ " " ++
    coloured colour (String.ofList text.quoted)

def event : Event → String
  | .accepted typed text => eventLine "accept" green typed text
  | .rejected typed text => eventLine "reject" red typed text

-- The columns of the table: width, heading and cell.
def columns (o : Tally) : List (Nat × String × String) :=
  [(7, "chars", toString o.totalChars),
   (7, "typed", toString o.keystrokes),
   (8, "accepted", toString o.acceptedChars),
   (10, "coverage %", fixed 1 (o.coverage * 100.0)),
   (6, "shown", toString o.shown),
   (8, "requests", toString o.requests),
   (10, "cache hits", toString o.cacheHits),
   (10, "total ms", fixed 1 o.elapsed)]

def row (cells : List (Nat × String)) : String :=
  String.intercalate "  " (cells.map fun (width, cell) => padLeft width cell)

def table (o : Tally) : List String :=
  let heading := row ((columns o).map fun (width, heading, _) => (width, heading))
  [heading, String.ofList (List.replicate heading.length '-'),
   row ((columns o).map fun (width, _, cell) => (width, cell))]

end Report

def report (verbose : Bool) (o : Tally) : List String :=
  (if verbose then o.events.map Report.event else []) ++ Report.table o

end GhostText.Replay
