import GhostText.Text.Bound
import GhostText.Text.Lines

namespace GhostText.Repeat

-- Decides whether a generated line is close enough to a line of the buffer.
abbrev Likeness := Text → Text → Bool

-- Lines are close enough when what they score reaches a least score.
def reaching [LE α] [DecidableLE α] (score : Text → Text → α) (least : α) : Likeness :=
  fun line known => least ≤ score line known

-- The lines worth comparing with, trimmed.
def candidates (known : List Text) (limit : Int) : List Text :=
  ((Bound.upTo limit known).map (Text.trim isBlank)).filter (!·.isEmpty)

-- What a generated line repeats, if anything.
def repeated? (like : Likeness) (candidates : List Text) (line : Text) : Option Text :=
  let line := Text.trim isBlank line
  if line.isEmpty then none
  else candidates.find? fun known => known.isPrefixOf line || like line known

-- The first line that is a repeat: its number and what it repeats.
def first? (like : Likeness) (candidates : List Text) : List Text → Nat → Option (Nat × Text)
  | [], _ => none
  | line :: more, n =>
    match repeated? like candidates line with
    | some known => some (n, known)
    | none => first? like candidates more (n + 1)

def find? (like : Likeness) (t : Text) (known : List Text) (limit : Int) : Option (Nat × Text) :=
  first? like (candidates known limit) (Text.lines t) 0

-- The lines before the first repeat, or the whole text.
def cut (like : Likeness) (t : Text) (known : List Text) (limit : Int) : Text :=
  match find? like t known limit with
  | some (n, _) => Text.unlines ((Text.lines t).take n)
  | none => t

end GhostText.Repeat
