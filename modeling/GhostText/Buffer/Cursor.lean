import GhostText.Buffer.Position

namespace GhostText

structure Cursor where
  before : Text
  after  : Text
  left   : Text := Text.lastLine before
  right  : Text := Text.firstLine after
deriving DecidableEq, Repr

namespace Cursor

def beforeLines (c : Cursor) : List Text :=
  c.before.lines

def afterLines (c : Cursor) : List Text :=
  c.after.lines

def position (c : Cursor) : Position :=
  ⟨Text.breaks c.before, c.left.length⟩

-- A cursor between the two characters of one line break stands after it.
def skipBreak (t : Text) (offset : Nat) : Nat :=
  if 0 < offset && t[offset - 1]? = some '\r' && t[offset]? = some '\n' then offset + 1 else offset

def ofText (t : Text) (offset : Int) : Cursor :=
  let offset := skipBreak t (clamp t.length offset)
  { before := Text.normalizeBreaks (t.take offset), after := Text.normalizeBreaks (t.drop offset) }

end Cursor
end GhostText
