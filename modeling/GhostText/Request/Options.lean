import GhostText.Buffer.Cursor
import GhostText.Prediction.Kind
import GhostText.Text.Bound

namespace GhostText

-- How many lines before and after the cursor the model sees.
structure Window where
  before : Int := 25
  after  : Int := 25
deriving DecidableEq, Repr

namespace Window

-- The last lines. A bound of zero keeps them all.
def lastLines (w : Window) (t : Text) : List Text :=
  Bound.since (-w.before) (Text.lines t)

def firstLines (w : Window) (t : Text) : List Text :=
  Bound.upTo w.after (Text.lines t)

end Window

structure Options where
  kind     : Kind
  generate : Bool := true
  before   : Text
  after    : Text
  stops    : List Text
deriving DecidableEq, Repr

namespace Options

-- The longest rest of a line that is written anew together with the line.
def shortTail : Nat := 3

def lineBreaks : List Text :=
  [['\r', '\n'], ['\n']]

def blankLine : List Text :=
  [['\n', '\n']]

-- The lines below the cursor's, with the break that leads to them.
def below : List Text → Text
  | [] => []
  | ls => '\n' :: Text.unlines ls

def of (c : Cursor) (justAccepted : Bool) (w : Window) : Options :=
  let before := Text.unlines (w.lastLines c.before)
  let after := Text.unlines (w.firstLines c.after)
  let tail := (Text.squeeze c.right).length
  if justAccepted && tail = 0 then
    { kind := .continueBelow, before := before ++ ['\n'], after, stops := blankLine }
  else if Text.allBlank c.left && Text.allBlank c.right then
    { kind := .fillLine, before, after, stops := lineBreaks }
  else if 0 < tail && tail ≤ shortTail then
    { kind := .redoSuffix, before, after := below (w.firstLines c.after).tail, stops := lineBreaks }
  else if !(Text.squeeze c.left).isEmpty then
    { kind := .fillLine, before, after, stops := lineBreaks }
  else
    { kind := .doNotPredict, generate := false, before, after, stops := [] }

end Options
end GhostText
