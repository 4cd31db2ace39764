import GhostText.Text.Quoted

namespace GhostText

inductive Fault
  -- a request that a model provider could not serve
  | request (message : Text) (provider : Option Text)
  -- anything else, with the name of its sort
  | unexpected (sort : Text) (message : Text)
deriving DecidableEq, Repr

namespace Fault

-- A time that cannot be reckoned in seconds.
def endless : Fault :=
  .unexpected "OverflowError".toList "int too large to convert to float".toList

def message : Fault → Text
  | request message (some provider) =>
    if provider.isEmpty then message else '[' :: provider ++ "] ".toList ++ message
  | request message none => message
  | unexpected _ message => message

-- The sort together with the quoted message.
def describe : Fault → Text
  | request message _ => "RequestError(".toList ++ message.quoted ++ [')']
  | unexpected sort message => sort ++ '(' :: message.quoted ++ [')']

end Fault
end GhostText
