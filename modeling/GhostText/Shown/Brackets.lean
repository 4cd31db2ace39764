import GhostText.Text.Blank

namespace GhostText.Brackets

def isOpener (c : Char) : Bool :=
  c = '(' || c = '[' || c = '{'

-- The opener that a closer belongs to.
def opener? : Char → Option Char
  | ')' => some '('
  | ']' => some '['
  | '}' => some '{'
  | _   => none

-- Read a character that is already in the buffer. A closer that matches nothing is ignored.
def read (openers : List Char) (c : Char) : List Char :=
  if isOpener c then c :: openers
  else match opener? c, openers with
    | some o, top :: rest => if top = o then rest else openers
    | _, _ => openers

-- The openers left open by a text, innermost first.
def openers (t : Text) : List Char :=
  t.foldl read []

-- The text before the first closer that does not match the innermost opener.
def balancedPart : List Char → Text → Text
  | _, [] => []
  | openers, c :: rest =>
    if isOpener c then c :: balancedPart (c :: openers) rest
    else match opener? c with
      | none => c :: balancedPart openers rest
      | some o =>
        match openers with
        | [] => []
        | top :: more => if top = o then c :: balancedPart more rest else []

def cut (t before : Text) : Text :=
  balancedPart (openers before) t

end GhostText.Brackets
