import GhostText.Text.Blank

namespace GhostText
namespace Text

-- Where the needle first occurs. The empty needle occurs at the front.
def find? (needle : Text) : Text → Option Nat
  | [] => if needle.isEmpty then some 0 else none
  | c :: rest =>
    if needle.isPrefixOf (c :: rest) then some 0
    else (find? needle rest).map (· + 1)

-- Where the character occurs last.
def findLast? (x : Char) : Text → Option Nat
  | [] => none
  | c :: rest =>
    match findLast? x rest with
    | some i => some (i + 1)
    | none => if c = x then some 0 else none

-- The text up to and with the last occurrence of the character, or nothing if it does not occur.
def throughLast (x : Char) (t : Text) : Text :=
  t.take (match findLast? x t with | some i => i + 1 | none => 0)

end Text

-- How much of one text is found in another, in order but not side by side.
namespace Subsequence

-- The first part of `wanted` that is found when each character is taken where it first occurs.
def greedy : Text → Text → Text
  | c :: rest, w :: wanted => if c = w then w :: greedy rest wanted else greedy rest (w :: wanted)
  | _, _ => []

def holds (t wanted : Text) : Bool :=
  greedy t wanted = wanted

def lastFound? (t wanted : Text) : Option Char :=
  (greedy t wanted).getLast?

end Subsequence
end GhostText
