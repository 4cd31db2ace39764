import GhostText.Text.Search

namespace GhostText
namespace Fence

def mark : Text :=
  ['\x60', '\x60', '\x60']

-- The text without its last character, if that is a line feed.
def dropFinalBreak (t : Text) : Text :=
  if t.getLast? = some '\n' then t.dropLast else t

-- What stands between the line that opens a fence and the next fence. A fence that is never closed lasts to the end.
def body (t : Text) : Text :=
  let inside := (t.dropWhile (· ≠ '\n')).drop 1
  match Text.find? mark inside with
  | some i => dropFinalBreak (inside.take i)
  | none   => inside

-- Only an answer that starts with a fence is unwrapped.
def unwrap (t : Text) : Text :=
  let start := Text.trimLeft isBlank t
  if mark.isPrefixOf start then body start else t

end Fence

namespace Answer

def spaceIf (b : Bool) : Text :=
  if b then [' '] else []

def cleaned (t : Text) : Text :=
  let code := Fence.unwrap t
  if Text.allBlank code then []
  else
    spaceIf (code.head? = some ' ') ++ Text.trim isBlank code ++ spaceIf (code.getLast? = some ' ')

end Answer
end GhostText
