import GhostText.Buffer.Document
import GhostText.Hints.ObjectAccess
import GhostText.Hints.Provider

namespace GhostText

structure Hints where
  -- what is known so far, in order
  found  : List Text
  -- what closes the list
  recent : List Text
deriving DecidableEq, Repr

namespace Hints

-- The hints in the text alone. A line far above the first one does not exist.
def inText (t : Text) (pos : Position) : Except Bound.Absent Hints := do
  let lines := Text.lines t
  let line := min pos.line (lines.length - 1)
  match Bound.at? line lines with
  | none => .error .element
  | some current =>
    let found ← objectAccess (Bound.upTo pos.column current) lines line
    let recent ← recentVariables lines line
    return { found, recent }

def add (h : Hints) (more : List Text) : Hints :=
  { h with found := h.found ++ more }

-- One hint a line, the recent variables last.
def render (h : Hints) : Text :=
  Text.unlines (h.found ++ titled "Recent variables:" h.recent)

-- What a provider adds, and its failure if it has none to give.
def ask (h : Hints) (f : LanguageFeatures) (p : Provider) : Hints × Option Fault :=
  match p.consult f with
  | .ok more => (h.add more, none)
  | .error e => (h, some e)

-- All hints, and the providers that failed.
def gather (t : Text) (pos : Position) (f : Option LanguageFeatures) :
    Except Bound.Absent (Text × List (Provider × Fault)) := do
  let h ← inText t pos
  match f with
  | none => return (h.render, [])
  | some f =>
    let (h, failed) := Provider.all.foldl (fun (h, failed) p =>
      match h.ask f p with
      | (h, none) => (h, failed)
      | (h, some e) => (h, failed ++ [(p, e)])) (h, [])
    return (h.render, failed)

end Hints
end GhostText
