import GhostText.Text.Word

namespace GhostText

namespace Integer

-- The blanks that may stand around a number. The control characters that separate fields are none of them.
def isEdge (c : Char) : Bool :=
  isBlank c && !(0x1C ≤ c.toNat && c.toNat ≤ 0x1F)

-- More digits are not read, leading zeros included.
def mostDigits : Nat :=
  4300

-- The number of a text that starts with a digit, added to what was read before.
def digits? (n : Nat) : Text → Option Nat
  | [] => some n
  | '_' :: c :: rest => (digitValue? c).bind fun d => digits? (10 * n + d) rest
  | c :: rest => (digitValue? c).bind fun d => digits? (10 * n + d) rest

def unsigned? : Text → Option Nat
  | [] => none
  | '_' :: _ => none
  | t => if mostDigits < (t.filter (· ≠ '_')).length then none else digits? 0 t

end Integer

-- Digits of any script, a sign, blanks around, and single low lines between digits.
def integer? (t : Text) : Option Int :=
  match Text.trim Integer.isEdge t with
  | '-' :: t => (Integer.unsigned? t).map fun n => -(n : Int)
  | '+' :: t => (Integer.unsigned? t).map Int.ofNat
  | t => (Integer.unsigned? t).map Int.ofNat

end GhostText
