import GhostText.Text.Blank
import GhostText.Number.Fixed

namespace GhostText.Text

-- The edit distance of two texts is the least number of characters to insert, delete or replace.

-- The distances of one more character of the first text to every prefix of the second.
def nextDistances (c : Char) (left : Nat) : Text → List Nat → List Nat
  | d :: rest, diagonal :: above :: row =>
    let here := if c = d then diagonal else 1 + min diagonal (min left above)
    here :: nextDistances c here rest (above :: row)
  | _, _ => []

def distanceRow (t : Text) : Text → Nat → List Nat → List Nat
  | [], _, row => row
  | c :: rest, n, row => distanceRow t rest (n + 1) ((n + 1) :: nextDistances c (n + 1) t row)

def distance (s t : Text) : Nat :=
  ((distanceRow t s 0 (List.range (t.length + 1))).getLast?).getD 0

def similarity (s t : Text) : Float :=
  let longer := max s.length t.length
  if longer = 0 then 1.0 else 1.0 - nearestNat (distance s t) / nearestNat longer

end GhostText.Text
