namespace GhostText

inductive Kind
  | fillLine
  | redoSuffix
  | continueBelow
  | doNotPredict
deriving DecidableEq, Repr

namespace Kind

def name : Kind → String
  | fillLine      => "single-line-fill-middle"
  | redoSuffix    => "single-line-redo-suffix"
  | continueBelow => "multi-line-start-on-next-line"
  | doNotPredict  => "do-not-predict"

def all : List Kind :=
  [fillLine, redoSuffix, continueBelow, doNotPredict]

end Kind

inductive Failure
  | error
  | timeout
  | cancelled
deriving DecidableEq, Repr

inductive Outcome
  | success
  | failure (cause : Failure)
deriving DecidableEq, Repr

namespace Outcome

def name : Outcome → String
  | success            => "success"
  | failure .error     => "error"
  | failure .timeout   => "timeout"
  | failure .cancelled => "cancelled"

def all : List Outcome :=
  [success, failure .error, failure .timeout, failure .cancelled]

end Outcome

inductive Status
  | pending
  | finished
  | failed
deriving DecidableEq, Repr

def Status.name : Status → String
  | pending  => "pending"
  | finished => "finished"
  | failed   => "error"

end GhostText
