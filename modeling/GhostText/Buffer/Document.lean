import GhostText.Buffer.Cursor
import GhostText.Text.Bound

namespace GhostText

-- An editor's buffer. Its lines end in line feeds only, whatever is put into it.
structure Document where
  text : Text
deriving DecidableEq, Repr

namespace Document

def ofText (t : Text) : Document :=
  ⟨Text.normalizeBreaks t⟩

def empty : Document :=
  ⟨[]⟩

def lineCount (d : Document) : Nat :=
  Text.breaks d.text + 1

-- Lines may be counted from the end, with negative numbers.
def lineAt? (d : Document) (line : Int) : Option Text :=
  Bound.at? line (Text.lines d.text)

def offsetAt (d : Document) (p : Position) : Nat :=
  Text.offsetAt d.text p

def positionAt (d : Document) (offset : Int) : Position :=
  Text.positionAt d.text offset

def cursorAt (d : Document) (p : Position) : Cursor :=
  Cursor.ofText d.text (d.offsetAt p)

-- Replace a span by a text, and give the position after the new text. A span that ends before it starts is empty.
def edit (d : Document) (s : Span) (t : Text) : Document × Position :=
  let start := d.offsetAt s.start
  let stop := max start (d.offsetAt s.stop)
  let new := Text.normalizeBreaks t
  let d' : Document := ⟨d.text.take start ++ new ++ d.text.drop stop⟩
  (d', d'.positionAt (start + new.length))

def insert (d : Document) (p : Position) (t : Text) : Document × Position :=
  d.edit (.empty p) t

end Document
end GhostText
