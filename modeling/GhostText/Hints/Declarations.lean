import GhostText.Text.Bound
import GhostText.Text.Search
import GhostText.Text.Word

namespace GhostText.Hints

-- Each reader gives what it has read and the rest of the text.

def word? (t : Text) : Option (Text × Text) :=
  let word := t.takeWhile isWord
  if word.isEmpty then none else some (word, t.drop word.length)

def blanks (t : Text) : Text :=
  Text.trimLeft isBlank t

def blanks? (t : Text) : Option Text :=
  match t with
  | c :: rest => if isBlank c then some (blanks rest) else none
  | [] => none

-- Type arguments in angle brackets, up to the first bracket that closes.
def arguments? : Text → Option (Text × Text)
  | '<' :: rest =>
    let inside := rest.takeWhile (· ≠ '>')
    match rest.drop inside.length with
    | close :: more => if inside.isEmpty then none else some ('<' :: inside ++ [close], more)
    | [] => none
  | _ => none

def type? (t : Text) : Option (Text × Text) := do
  let (name, rest) ← word? t
  match arguments? rest with
  | some (arguments, more) => some (name ++ arguments, more)
  | none => some (name, rest)

-- An equals sign, maybe after blanks.
def assigned (t : Text) : Bool :=
  (blanks t).head? = some '='

-- A type, a name and an equals sign.
def typedName? (t : Text) : Option (Text × Text) := do
  let (type, rest) ← type? t
  let (name, rest) ← word? (← blanks? rest)
  if assigned rest then some (type, name) else none

-- A declaration that starts with the type. It may be marked final.
def typeFirst? (line : Text) : Option (Text × Text) :=
  let t := blanks line
  let marked : Option (Text × Text) := do
    if "final".toList.isPrefixOf t then typedName? (← blanks? (t.drop 5)) else none
  marked <|> typedName? t

-- An equals sign somewhere on the rest of the line.
def equalsAhead (t : Text) : Bool :=
  (t.takeWhile (· ≠ '\n')).contains '='

-- The type after a colon. It is given up, arguments first, where no equals sign would be left after it.
def annotation? (t : Text) : Option Text :=
  match blanks t with
  | ':' :: rest => do
    let (name, more) ← word? (blanks rest)
    let full := do
      let (arguments, more) ← arguments? more
      if equalsAhead more then some (name ++ arguments) else none
    full <|> if equalsAhead more then some name else none
  | _ => none

def keywords : List Text :=
  ["const".toList, "let".toList, "var".toList]

-- A declaration that starts with a keyword: the name, and the type if it is given.
def keywordFirst? (line : Text) : Option (Text × Option Text) := do
  let t := blanks line
  let keyword ← keywords.find? (·.isPrefixOf t)
  let (name, rest) ← word? (← blanks? (t.drop keyword.length))
  match annotation? rest with
  | some type => some (name, some type)
  | none => if equalsAhead rest then some (name, none) else none

-- Classes that only carry data, told by the end of their name.
def isDataClass (type : Text) : Bool :=
  ["VO", "DTO", "Model", "Entity"].any (·.toList.isSuffixOf type)

-- Words that stand in front of a name but are no types.
def notTypes : List Text :=
  "return".toList :: keywords

def describeTyped (type name : Text) : Text :=
  "  - ".toList ++ name ++ ": ".toList ++ type ++
    (if isDataClass type then " (has getters/setters)".toList else [])

def variablesIn (line : Text) : List Text :=
  let typed := match typeFirst? line with
    | some (type, name) => if notTypes.contains type then [] else [describeTyped type name]
    | none => []
  let keyword := match keywordFirst? line with
    | some (name, type) => ["  - ".toList ++ name ++ ": ".toList ++ type.getD "any".toList]
    | none => []
  typed ++ keyword

-- Up to `reach` lines above a line, nearest first. A line that lies beyond the last one has nothing above it to
-- look at.
def above (reach : Nat) (lines : List Text) (line : Int) : Except Bound.Absent (List Text) :=
  if lines.length < line then .error .element
  else .ok ((lines.take line.toNat).drop (line.toNat - reach)).reverse

def recentVariables (lines : List Text) (line : Int) : Except Bound.Absent (List Text) :=
  (above 20 lines line).map fun near => (near.flatMap variablesIn).take 10

end GhostText.Hints
