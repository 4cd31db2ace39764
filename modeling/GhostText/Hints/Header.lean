import GhostText.Text.Search

namespace GhostText.Header

def opening : Text :=
  "/* Context Information:\n".toList

def closing : Text :=
  "\n*/\n\n".toList

def attach (before hints : Text) : Text :=
  if hints.isEmpty then before else opening ++ hints ++ closing ++ before

-- Everything after the first closing line, if the text starts with a header.
def detach (t : Text) : Text :=
  if opening.isPrefixOf t then
    match Text.find? closing t with
    | some i => t.drop (i + closing.length)
    | none   => t
  else t

end GhostText.Header
