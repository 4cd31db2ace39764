namespace GhostText

abbrev Text := List Char

-- Is the number in one of the closed ranges?
def inRanges (ranges : List (Nat × Nat)) (n : Nat) : Bool :=
  ranges.any fun r => r.1 ≤ n && n ≤ r.2

-- The space separators of Unicode, and the control characters that separate fields, lines or paragraphs.
def blankRanges : List (Nat × Nat) :=
  [(0x09, 0x0D), (0x1C, 0x20), (0x85, 0x85), (0xA0, 0xA0), (0x1680, 0x1680), (0x2000, 0x200A),
   (0x2028, 0x2029), (0x202F, 0x202F), (0x205F, 0x205F), (0x3000, 0x3000)]

def isBlank (c : Char) : Bool :=
  inRanges blankRanges c.toNat

-- Spaces and tabs are the blanks that stay on one line of code.
def isSpaceOrTab (c : Char) : Bool :=
  c = ' ' || c = '\t'

namespace Text

def trimLeft (p : Char → Bool) (t : Text) : Text :=
  t.dropWhile p

def trimRight (p : Char → Bool) (t : Text) : Text :=
  (t.reverse.dropWhile p).reverse

def trim (p : Char → Bool) (t : Text) : Text :=
  trimRight p (trimLeft p t)

-- The text without any blank character.
def squeeze (t : Text) : Text :=
  t.filter fun c => !isBlank c

def allBlank (t : Text) : Bool :=
  t.all isBlank

end Text
end GhostText
