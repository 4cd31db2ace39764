import GhostText.Prediction.Kind
import GhostText.Number.Fixed
import GhostText.Text.Bound
import GhostText.Text.Lines
import GhostText.Text.Quoted
import GhostText.Text.Search

namespace GhostText

-- Times are counted in whole milliseconds. In seconds they are doubles.
def seconds (ms : Int) : Float :=
  nearestInt ms / 1000.0

-- A time beyond the range of doubles cannot be reckoned in seconds.
def seconds? (ms : Int) : Option Float :=
  if (nearestInt ms).isInf then none else some (seconds ms)

structure RequestResult where
  outcome : Outcome
  text    : Text := []
  message : Text := []
deriving DecidableEq, Repr

def RequestResult.ok (r : RequestResult) : Bool :=
  r.outcome = .success

inductive Stage
  | pending
  | finished (text : Text) (time : Int)
  | failed (cause : Failure) (message : Text) (time : Int)
deriving DecidableEq, Repr

-- One request for a completion and what has become of it. It is settled once, if at all.
structure Prediction where
  id         : Int
  -- the text around the cursor when the request was made
  before     : Text
  after      : Text := []
  kind       : Kind
  createdAt  : Int := 0
  stage      : Stage := .pending
  rawText    : Text := []
  breaksRead : Nat := 0
deriving DecidableEq, Repr

namespace Prediction

def status (p : Prediction) : Status :=
  match p.stage with
  | .pending      => .pending
  | .finished ..  => .finished
  | .failed ..    => .failed

def isPending (p : Prediction) : Bool :=
  p.stage = .pending

def insertText (p : Prediction) : Text :=
  match p.stage with
  | .finished text _ => text
  | _                => []

def result? (p : Prediction) : Option RequestResult :=
  match p.stage with
  | .pending                => none
  | .finished text _        => some { outcome := .success, text }
  | .failed cause message _ => some { outcome := .failure cause, message }

def completedAt? (p : Prediction) : Option Int :=
  match p.stage with
  | .pending         => none
  | .finished _ time => some time
  | .failed _ _ time => some time

-- The milliseconds from creation to completion, reckoned in seconds.
def latency? (p : Prediction) : Option Float :=
  p.completedAt?.map fun time => (seconds time - seconds p.createdAt) * 1000.0

-- A settled prediction takes no further result.
def finish? (p : Prediction) (text : Text) (time : Int) : Option Prediction :=
  if p.isPending then some { p with stage := .finished text time } else none

def fail? (p : Prediction) (cause : Failure) (message : Text) (time : Int) : Option Prediction :=
  if p.isPending then some { p with stage := .failed cause message time } else none

-- Everything before the last line break. Without a line break the last character goes.
def dropLastBreak (t : Text) : Text :=
  match Text.findLast? '\n' t with
  | some i => t.take i
  | none   => t.dropLast

-- Take in a chunk of the answer. Once there are more line breaks than the budget allows, the text is cut back to
-- the last of them and nothing more should be read.
def read (p : Prediction) (chunk : Text) (budget : Int) : Prediction × Bool :=
  let raw := p.rawText ++ chunk
  let breaks := p.breaksRead + Text.breaks chunk
  if budget < breaks then ({ p with rawText := dropLastBreak raw, breaksRead := breaks }, true)
  else ({ p with rawText := raw, breaksRead := breaks }, false)

end Prediction

-- What is wrong with a demand on a prediction.
inductive PredictionError
  | needsFailure
  | unknownOutcome (name : Text)
  | unknownKind (name : Text)

namespace PredictionError

def message : PredictionError → Text
  | needsFailure        => "fail() needs a non-success outcome".toList
  | unknownOutcome name => name.quoted ++ " is not a valid RequestOutcome".toList
  | unknownKind name    => name.quoted ++ " is not a valid PredictionKind".toList

end PredictionError

def Kind.ofName (name : Text) : Except PredictionError Kind :=
  match Kind.all.find? (·.name.toList = name) with
  | some kind => .ok kind
  | none      => .error (.unknownKind name)

def Outcome.ofName (name : Text) : Except PredictionError Outcome :=
  match Outcome.all.find? (·.name.toList = name) with
  | some outcome => .ok outcome
  | none         => .error (.unknownOutcome name)

-- A prediction can only be failed for a cause.
def Outcome.cause : Outcome → Except PredictionError Failure
  | .success       => .error .needsFailure
  | .failure cause => .ok cause

end GhostText
