import GhostText.Text.Lines

namespace GhostText

structure Position where
  line   : Int
  column : Int
deriving DecidableEq, Repr

-- The nearest number between zero and a limit.
def clamp (limit : Nat) (i : Int) : Nat :=
  min i.toNat limit

-- The column that stands for the end of a line, whatever its length.
def endOfLine : Int :=
  Nat.pow 2 63 - 1

structure Span where
  start : Position
  stop  : Position
deriving DecidableEq, Repr

namespace Span

def empty (p : Position) : Span :=
  ⟨p, p⟩

def isEmpty (s : Span) : Bool :=
  s.start = s.stop

end Span

namespace Text

-- Each line before the wanted one counts with its line feed.
def offsetIn : List Text → Nat → Int → Nat
  | line :: next :: more, n + 1, column => line.length + 1 + offsetIn (next :: more) n column
  | line :: _, _, column => clamp line.length column
  | [], _, _ => 0

-- A position outside the text stands for the nearest one inside it.
def offsetAt (t : Text) (p : Position) : Nat :=
  offsetIn (lines t) p.line.toNat p.column

def positionAt (t : Text) (offset : Int) : Position :=
  let before := t.take (clamp t.length offset)
  ⟨breaks before, (lastLine before).length⟩

end Text
end GhostText
