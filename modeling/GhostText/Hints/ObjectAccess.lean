import GhostText.Hints.Declarations

namespace GhostText.Hints

-- The name that stands at the end of a text, blanks aside.
def trailingName? (t : Text) : Option Text :=
  let name := ((Text.trimRight isBlank t).reverse.takeWhile isWord).reverse
  if name.isEmpty then none else some name

-- The name before the last dot. A dot at the very start has none.
def objectBefore? (before : Text) : Option Text := do
  let dot ← Text.findLast? '.' before
  if dot = 0 then none else trailingName? (before.take dot)

-- A type, the given name and an equals sign.
def typeOf? (name t : Text) : Option Text := do
  let (type, rest) ← type? t
  let rest ← blanks? rest
  if name.isPrefixOf rest && assigned (rest.drop name.length) then some type else none

-- The type with which a line declares the name, wherever on the line.
def declaredType? (name : Text) : Text → Option Text
  | [] => none
  | c :: rest => typeOf? name (c :: rest) <|> declaredType? name rest

def describeObject (name : Text) (near : List Text) : List Text :=
  let accessing := "Accessing object: ".toList ++ name
  match near.findSome? (declaredType? name) with
  | none => [accessing]
  | some type =>
    [accessing, name ++ " is type: ".toList ++ type] ++
      (if isDataClass type then [type ++ " has getter/setter methods for its fields".toList] else [])

def objectAccess (before : Text) (lines : List Text) (line : Int) : Except Bound.Absent (List Text) :=
  match objectBefore? before with
  | none => .ok []
  | some name => (above 50 lines line).map (describeObject name)

end GhostText.Hints
