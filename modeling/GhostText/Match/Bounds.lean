import GhostText.Text.Lines
import GhostText.Text.Bound
import GhostText.Text.Search

namespace GhostText

-- Line and column in the predicted text, and the flat index of the same place.
structure Bounds where
  line   : Nat
  column : Nat
  index  : Nat
deriving DecidableEq, Repr

namespace Bounds

def noNewTyping : Bounds :=
  ⟨0, 0, 0⟩

inductive Verdict
  | apart
  | beforeFirstLine
  | afterLastLine (line lines : Nat)
  | lostColumn
  | found (bounds : Bounds)
deriving DecidableEq, Repr

def Verdict.bounds? : Verdict → Option Bounds
  | .found b => some b
  | _        => none

-- The flat index of a column in a line. It is not checked against the text.
def flatIndex (t : Text) (line column : Int) : Int :=
  (Text.unlines (Bound.upTo line (Text.lines t))).length + (if 0 < line then 1 else 0) + column

-- Where the line typed so far ends within a candidate line. Blanks at the end of the typed line count only if the
-- candidate has them too.
def columnAfter? (typed candidate : Text) : Option Nat :=
  match Text.find? typed candidate with
  | some i => some (i + typed.length)
  | none =>
    let typed := Text.trimRight isBlank typed
    (Text.find? typed candidate).map (· + typed.length)

-- Is the current text, given in normal form, a first part of the stored text with the insertion after it?
-- They are taken joined, so that a blank at the end of the stored text counts, and apart, so that it need not.
def continues (current stored insertion : Text) : Bool :=
  (Text.normalForm stored).length ≤ current.length &&
    (current.isPrefixOf (Text.normalForm (stored ++ insertion)) ||
      current.isPrefixOf (Text.normalForm stored ++ Text.normalForm insertion))

def locate (before stored insertion : Text) (line : Nat) : Verdict :=
  match (Text.lines insertion)[line]? with
  | none => .afterLastLine line (Text.lines insertion).length
  | some middle =>
    let typed := Text.trimLeft isBlank (Text.lastLine before)
    let known := if line = 0 then Text.trimLeft isBlank (Text.lastLine stored) else []
    match columnAfter? typed (known ++ middle) with
    | none => .lostColumn
    | some column =>
      let column := column - known.length
      .found ⟨line, column, (flatIndex insertion line column).toNat⟩

-- A prediction applies as long as the text before the cursor, in normal form, is a first part of the text it was made
-- for followed by the predicted text. The bounds tell where in the predicted text the part begins that is not typed.
def judge (before stored insertion : Text) : Verdict :=
  let current := Text.normalForm before
  if !continues current stored insertion then .apart
  else
    let line : Int := (Text.breaks current : Int) - Text.breaks (Text.normalForm stored)
    if line < 0 then .beforeFirstLine else locate before stored insertion line.toNat

def match? (before stored insertion : Text) : Option Bounds :=
  (judge before stored insertion).bounds?

end Bounds
end GhostText
