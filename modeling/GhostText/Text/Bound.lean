namespace GhostText.Bound

-- How many elements lie before the bound.
def resolve (size : Nat) (bound : Int) : Nat :=
  if bound < 0 then (bound + size).toNat else min bound.toNat size

def upTo (bound : Int) (xs : List α) : List α :=
  xs.take (resolve xs.length bound)

def since (bound : Int) (xs : List α) : List α :=
  xs.drop (resolve xs.length bound)

def between (start stop : Int) (xs : List α) : List α :=
  (upTo stop xs).drop (resolve xs.length start)

-- A single element is found only if its index lies in the list.
def at? (i : Int) (xs : List α) : Option α :=
  if 0 ≤ i then xs[i.toNat]?
  else if 0 ≤ i + xs.length then xs[(i + xs.length).toNat]? else none

-- What an index can fail to name.
inductive Absent
  | element
  | character
deriving DecidableEq, Repr

def Absent.message : Absent → String
  | element   => "list index out of range"
  | character => "string index out of range"

theorem resolve_of_nonneg {size : Nat} {bound : Int} (h : 0 ≤ bound) :
    resolve size bound = min bound.toNat size := by
  unfold resolve; split <;> omega

theorem upTo_of_nonneg {bound : Int} (h : 0 ≤ bound) (xs : List α) : upTo bound xs = xs.take bound.toNat := by
  rw [upTo, resolve_of_nonneg h, ← List.take_eq_take_min]

end GhostText.Bound
