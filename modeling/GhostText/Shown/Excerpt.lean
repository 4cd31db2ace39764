import GhostText.Buffer.Cursor
import GhostText.Prediction.Basic
import GhostText.Shown.Brackets
import GhostText.Shown.Repeat
import GhostText.Text.Search

namespace GhostText

-- Which generated lines are taken for repeats of lines below the cursor, and of how many of those.
structure RepeatRule where
  lines : Int := 10
  like  : Repeat.Likeness := fun line known => line = known

namespace Excerpt

-- Brackets and quotes at which a completion in the middle of a line can meet the rest of it.
def meetingChars : List Char :=
  ['{', '}', '(', ')', '[', ']', '<', '>', '\x60', '\x27', '\x22']

-- The blank to the left of the cursor is not inserted twice.
def skipTypedSpace (left text : Text) (start : Int) : Int :=
  match left.getLast? with
  | none => start
  | some c =>
    let rest := Bound.since start text
    let spaces := rest.length - (Text.trimLeft isSpaceOrTab rest).length
    if isSpaceOrTab c && spaces < rest.length then start + spaces else start

-- On a blank line the completion does not open with further blank lines.
def skipBlankLines (c : Cursor) (text : Text) (start : Int) : Int :=
  if Text.allBlank c.left && Text.allBlank c.right then
    let rest := Bound.since start text
    start + (rest.length - (Text.trimLeft (· = '\n') rest).length)
  else start

def firstIndex (c : Cursor) (text : Text) (typed : Int) : Int :=
  skipBlankLines c text (skipTypedSpace c.left text typed)

-- Where the first character of the rest of the line occurs last in the window.
def meeting? (c : Cursor) (kind : Kind) (text : Text) (start : Int) : Option Int :=
  if kind = .fillLine then
    match Text.trimLeft isBlank c.right with
    | [] => none
    | first :: _ => (Text.findLast? first (Bound.since start text)).map (start + ·)
  else none

def stopAtMeeting (c : Cursor) (kind : Kind) (text : Text) (start stop : Int) : Int :=
  match meeting? c kind text start with
  | none => stop
  | some i => if ((Bound.at? i text).map meetingChars.contains).getD false then min stop i else stop

-- At the end of a line that is not blank one line is enough.
def stopAtLineEnd (c : Cursor) (text : Text) (start stop : Int) : Int :=
  let rest := Bound.since start text
  if !Text.allBlank c.left && Text.allBlank c.right && !Text.allBlank (Text.firstLine rest) then
    if rest.contains '\n' then min stop (start + (Text.firstLine rest).length) else stop
  else stop

def lastIndex (c : Cursor) (kind : Kind) (text : Text) (start : Int) : Int :=
  stopAtLineEnd c text start (stopAtMeeting c kind text start text.length)

-- Collapse the spaces and tabs at the edges, to one space in front and at most one at the end.
def edgeSpaces (keepTrailing : Bool) (t : Text) : Text :=
  let core := Text.trim isSpaceOrTab t
  if core.isEmpty then []
  else
    let leading := if (t.head?.map isSpaceOrTab).getD false then [' '] else []
    let trailing := if keepTrailing && (t.getLast?.map isSpaceOrTab).getD false then [' '] else []
    leading ++ core ++ trailing

end Excerpt

structure Excerpt where
  start    : Int
  stop     : Int
  -- the generated line at which the window was cut, and the line it repeats
  repeated : Option (Nat × Text) := none
  text     : Text
deriving Repr

namespace Excerpt

-- A bound that lies too far before the text makes the meeting point fall outside it.
def inRange (c : Cursor) (kind : Kind) (text : Text) (typed : Int) : Bool :=
  match meeting? c kind text (firstIndex c text typed) with
  | none => true
  | some i => (Bound.at? i text).isSome

def of (rule : RepeatRule) (p : Prediction) (c : Cursor) (typed : Int) : Excerpt :=
  let text := p.insertText
  let first := firstIndex c text typed
  let last := lastIndex c p.kind text first
  let window := Bound.between first last text
  let repeated := if p.kind = .continueBelow then Repeat.find? rule.like window c.afterLines rule.lines else none
  let kept := if p.kind = .continueBelow then Repeat.cut rule.like window c.afterLines rule.lines else window
  let keepTrailing := !Text.allBlank c.right && p.kind ≠ .redoSuffix
  { start := first, stop := last, repeated, text := edgeSpaces keepTrailing (Brackets.cut kept c.before) }

end Excerpt
end GhostText
