import GhostText.Number.Fixed
import GhostText.Text.Blank

namespace GhostText.Json

-- The digits, shifted by a power of ten.
structure Decimal where
  negative : Bool
  digits   : Nat
  shift    : Int
deriving DecidableEq, Repr

-- The nearest double. A shift far beyond the range of doubles is not computed.
def Decimal.toFloat (d : Decimal) : Float :=
  let size : Int := (Nat.toDigits 10 d.digits).length + d.shift
  let magnitude : Float :=
    if d.digits = 0 || size < -400 then 0.0
    else if 400 < size then 1.0 / 0.0
    else Float.ofScientific d.digits (d.shift < 0) d.shift.natAbs
  if d.negative then -magnitude else magnitude

-- A number with a fraction or an exponent is a double, any other one a whole number.
inductive Number
  | whole (i : Int)
  | decimal (d : Decimal)
deriving DecidableEq, Repr

namespace Number

def toFloat : Number → Float
  | whole i   => nearestInt i
  | decimal d => d.toFloat

-- Does a whole number fit into 64 bits, with a sign or without?
def isWord (i : Int) : Bool :=
  -(Nat.pow 2 63 : Int) ≤ i && i < Nat.pow 2 64

-- Beyond 64 bits a whole number counts as a double, unless a whole number is asked for.
def widened : Number → Number
  | whole i   => if isWord i then whole i else decimal ⟨i < 0, i.natAbs, 0⟩
  | decimal d => decimal d

-- Only whole numbers of at most 4300 characters are read, a sign included.
def isTooLong : Int → Bool
  | .ofNat n   => Nat.pow 10 4300 ≤ n
  | .negSucc n => Nat.pow 10 4299 ≤ n + 1

def isDigit (c : Char) : Bool :=
  '0' ≤ c && c ≤ '9'

def value (digits : Text) : Nat :=
  digits.foldl (fun n c => 10 * n + (c.toNat - 48)) 0

-- At least one digit, and what follows.
def digits? (t : Text) : Option (Text × Text) :=
  let digits := t.takeWhile isDigit
  if digits.isEmpty then none else some (digits, t.drop digits.length)

-- The whole part has no zero in front of another digit.
def whole? (t : Text) : Option (Text × Text) := do
  let (digits, rest) ← digits? t
  if digits.length ≠ 1 && digits.head? = some '0' then none else some (digits, rest)

-- A part that is left out is none; a part that is begun must be completed.
def fraction? : Text → Option (Option Text × Text)
  | '.' :: t => do
    let (digits, rest) ← digits? t
    some (some digits, rest)
  | t => some (none, t)

def exponent? : Text → Option (Option Int × Text)
  | [] => some (none, [])
  | c :: t =>
    if c = 'e' || c = 'E' then do
      let (sign, t) : Int × Text := match t with
        | '-' :: t => (-1, t)
        | '+' :: t => (1, t)
        | t => (1, t)
      let (digits, rest) ← digits? t
      some (some (sign * value digits), rest)
    else some (none, c :: t)

-- A number at the front of a text, and what follows.
def read? (t : Text) : Option (Number × Text) := do
  let (negative, t) := match t with
    | '-' :: t => (true, t)
    | t => (false, t)
  let (digits, t) ← whole? t
  let (fraction, t) ← fraction? t
  let (exponent, t) ← exponent? t
  match fraction, exponent with
  | none, none =>
    let n : Int := value digits
    return (whole (if negative then -n else n), t)
  | _, _ =>
    let places := fraction.getD []
    return (decimal ⟨negative, value (digits ++ places), exponent.getD 0 - places.length⟩, t)

-- A text that is a number and nothing else.
def ofText? (t : Text) : Option Number :=
  match read? t with
  | some (n, []) => some n
  | _ => none

end Number
end GhostText.Json

namespace GhostText

-- An object keeps its members in the order in which they are written, repeated keys included.
inductive Json
  | null
  | bool (b : Bool)
  | number (n : Json.Number)
  | text (t : Text)
  | array (items : List Json)
  | object (members : List (Text × Json))
deriving Inhabited

namespace Json

-- The last member with a key.
def member? (key : Text) (members : List (Text × Json)) : Option Json :=
  (members.reverse.find? (·.1 = key)).map (·.2)

end Json
end GhostText
