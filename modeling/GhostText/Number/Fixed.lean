namespace GhostText

-- The double nearest to a whole number, a tie going to the even significand.
-- Beyond 64 bits the low bits only tell whether a tie is broken, so they are folded into one bit.
def nearestNat (n : Nat) : Float :=
  if n < Nat.pow 2 64 then n.toUInt64.toFloat
  else
    let shift := n.log2 - 62
    let head := n >>> shift
    let head := if head <<< shift = n then head else head ||| 1
    head.toUInt64.toFloat.scaleB shift

def nearestInt (i : Int) : Float :=
  if i < 0 then -nearestNat i.natAbs else nearestNat i.natAbs

-- The quotient rounded to the nearest whole number, a half to the even neighbour.
def roundDiv (num den : Nat) : Nat :=
  let q := num / den
  let r := num % den
  if 2 * r < den || (2 * r = den && q % 2 = 0) then q else q + 1

namespace Fixed

-- A finite double is its significand times a power of two.
def fraction (bits : UInt64) : Nat :=
  bits.toNat % Nat.pow 2 52

def biasedExponent (bits : UInt64) : Nat :=
  bits.toNat / Nat.pow 2 52 % Nat.pow 2 11

def significand (bits : UInt64) : Nat :=
  if biasedExponent bits = 0 then fraction bits else Nat.pow 2 52 + fraction bits

def exponent (bits : UInt64) : Int :=
  (max (biasedExponent bits) 1 : Nat) - 1075

def isNegative (bits : UInt64) : Bool :=
  bits.toNat / Nat.pow 2 63 = 1

-- The magnitude in units of the last place.
def scaled (places : Nat) (bits : UInt64) : Nat :=
  let n := significand bits * Nat.pow 10 places
  let e := exponent bits
  if 0 ≤ e then n * Nat.pow 2 e.toNat else roundDiv n (Nat.pow 2 (-e).toNat)

def digits (places n : Nat) : String :=
  let whole := toString (n / Nat.pow 10 places)
  if places = 0 then whole
  else
    let rest := toString (n % Nat.pow 10 places)
    whole ++ "." ++ String.ofList (List.replicate (places - rest.length) '0') ++ rest

end Fixed

-- The exact value of a double, rounded to a number of places.
def fixed (places : Nat) (x : Float) : String :=
  if x.isNaN then "nan"
  else
    let sign := if Fixed.isNegative x.toBits then "-" else ""
    if x.isInf then sign ++ "inf" else sign ++ Fixed.digits places (Fixed.scaled places x.toBits)

-- Text moved to the right of a column.
def padLeft (width : Nat) (s : String) : String :=
  String.ofList (List.replicate (width - s.length) ' ') ++ s

end GhostText
