import GhostText.Text.Blank

namespace GhostText.Text

-- Every line break becomes a single line feed.
def normalizeBreaks : Text → Text
  | [] => []
  | '\r' :: '\n' :: rest => '\n' :: normalizeBreaks rest
  | c :: rest => (if c = '\r' then '\n' else c) :: normalizeBreaks rest

def lines : Text → List Text
  | [] => [[]]
  | c :: rest =>
    if c = '\n' then [] :: lines rest
    else match lines rest with
      | [] => [[c]]
      | line :: more => (c :: line) :: more

def unlines : List Text → Text
  | [] => []
  | [line] => line
  | line :: next :: more => line ++ '\n' :: unlines (next :: more)

def breaks (t : Text) : Nat :=
  t.count '\n'

def firstLine (t : Text) : Text :=
  t.takeWhile (· ≠ '\n')

def lastLine (t : Text) : Text :=
  (t.reverse.takeWhile (· ≠ '\n')).reverse

theorem lines_ne_nil (t : Text) : lines t ≠ [] := by
  cases t
  case nil  => simp [lines]
  case cons =>
    simp only [lines]
    split
    case isTrue  => simp
    case isFalse => split <;> simp

theorem unlines_cons {ls : List Text} (line : Text) (h : ls ≠ []) :
    unlines (line :: ls) = line ++ '\n' :: unlines ls := by
  cases ls
  case nil  => exact absurd rfl h
  case cons => rfl

theorem unlines_lines (t : Text) : unlines (lines t) = t := by
  induction t
  case nil             => rfl
  case cons c rest ih =>
    simp only [lines]
    split
    case isTrue h =>
      rw [unlines_cons _ (lines_ne_nil rest), ih, h]
      rfl
    case isFalse  =>
      split
      case h_1 h => exact absurd h (lines_ne_nil rest)
      case h_2 line more h =>
        rw [h] at ih
        cases more <;> simp_all [unlines]

-- Drop the blanks at the start of each line. A run of them may take in whole lines.
def dropIndents (lineStart : Bool) : Text → Text
  | [] => []
  | c :: rest =>
    if lineStart && isBlank c then dropIndents true rest
    else c :: dropIndents (c = '\n') rest

-- Drop the blanks at the end, but leave one line feed if there were any among them.
def trimEnd (t : Text) : Text :=
  let core := trimRight isBlank t
  if (t.drop core.length).contains '\n' then core ++ ['\n'] else core

-- The form of a text in which indentation, blank lines and trailing blanks do not count.
def normalForm (t : Text) : Text :=
  dropIndents true (trimEnd t)

end GhostText.Text
