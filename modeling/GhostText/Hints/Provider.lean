import GhostText.Model.Fault

namespace GhostText

structure CompletionItem where
  label    : Text
  detail   : Text := []
  isMethod : Bool := false
deriving Repr

structure LanguageFeatures where
  hover       : Except Fault Text := .ok []
  completions : Except Fault (List CompletionItem) := .ok []
  definitions : Except Fault (List Text) := .ok []
  -- how long each provider takes to answer, if it takes any time
  delay       : Option Nat := none

namespace Hints

inductive Provider
  | hover
  | completions
  | definitions
deriving DecidableEq, Repr

-- In the order in which they are asked.
def Provider.all : List Provider :=
  [.hover, .completions, .definitions]

def Provider.name : Provider → String
  | hover       => "hover"
  | completions => "completion"
  | definitions => "definition"

def isAccessor (i : CompletionItem) : Bool :=
  "get".toList.isPrefixOf i.label || "set".toList.isPrefixOf i.label

def describeItem (plain : Text) (i : CompletionItem) : Text :=
  "  - ".toList ++ i.label ++ (if i.detail.isEmpty then plain else ": ".toList ++ i.detail)

def titled (title : String) (entries : List Text) : List Text :=
  if entries.isEmpty then [] else title.toList :: entries

-- Accessors come first, then other methods.
def describeCompletions (items : List CompletionItem) : List Text :=
  let accessors := (items.filter isAccessor).take 10
  let methods := (items.filter fun i => i.isMethod && !isAccessor i).take 5
  titled "Available getters/setters:" (accessors.map (describeItem "()".toList)) ++
    titled "Other methods:" (methods.map (describeItem []))

def separated (separator : Text) : List Text → Text
  | [] => []
  | [t] => t
  | t :: more => t ++ separator ++ separated separator more

-- The hints a provider gives, or its failure.
def Provider.consult (f : LanguageFeatures) : Provider → Except Fault (List Text)
  | .hover => f.hover.map fun hover => if hover.isEmpty then [] else [hover]
  | .completions => f.completions.map describeCompletions
  | .definitions => f.definitions.map fun places =>
    if places.isEmpty then [] else ["Definitions: ".toList ++ separated ", ".toList places]

end Hints
end GhostText
