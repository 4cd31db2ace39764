import GhostText.Shown.Excerpt

namespace GhostText

structure Completion where
  text       : Text
  span       : Span
  prediction : Option Int := none
deriving DecidableEq, Repr

namespace Completion

-- What becomes of the rest of the line when it is written anew: all of it is replaced if its characters occur in
-- the new text, else the part up to the last character that does, else as many characters as there are.
inductive Redo
  | wholeLine
  | through (last : Char)
  | none
deriving DecidableEq, Repr

def Redo.of (old new : Text) : Redo :=
  let wanted := Text.squeeze old
  let generated := Text.squeeze new
  if Subsequence.holds generated wanted then .wholeLine
  else match Subsequence.lastFound? generated wanted with
    | some c => .through c
    | Option.none => .none

def redo (text : Text) (p : Prediction) (c : Cursor) (pos : Position) : Completion :=
  let upTo (n : Nat) : Span := ⟨pos, ⟨pos.line, pos.column + n⟩⟩
  match Redo.of c.right p.insertText with
  | .wholeLine => { text, span := ⟨pos, ⟨pos.line, endOfLine⟩⟩, prediction := p.id }
  | .through last =>
    { text := text.throughLast last, span := upTo (c.right.throughLast last).length, prediction := p.id }
  | .none => { text, span := upTo c.right.length, prediction := p.id }

def ofExcerpt (e : Excerpt) (p : Prediction) (c : Cursor) (pos : Position) : Completion :=
  if p.kind = .redoSuffix then redo e.text p c pos
  else { text := e.text, span := .empty pos, prediction := p.id }

-- The completion for a prediction whose text is typed up to an index.
def of (rule : RepeatRule) (p : Prediction) (c : Cursor) (pos : Position) (typed : Int) : Completion :=
  ofExcerpt (Excerpt.of rule p c typed) p c pos

end Completion
end GhostText
