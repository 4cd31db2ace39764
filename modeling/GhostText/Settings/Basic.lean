import GhostText.Prediction.Basic
import GhostText.Request.Options

namespace GhostText

structure Settings where
  enabled       : Bool := true
  -- times in milliseconds
  debounce      : Int := 500
  timeout       : Int := 60000
  acceptWindow  : Int := 500
  -- bounds for each document
  cacheSize     : Int := 20
  pendingLimit  : Int := 2
  -- lines that the model sees
  linesBefore   : Int := 25
  linesAfter    : Int := 25
  -- the shape of an answer
  breakBudget   : Int := 10
  repeatLines   : Int := 10
  repeatScore   : Float := 90.0
  useHints      : Bool := true

namespace Settings

def window (s : Settings) : Window :=
  { before := s.linesBefore, after := s.linesAfter }

inductive Shape
  | bool
  | int
  | float
deriving DecidableEq, Repr

namespace Shape

def Value : Shape → Type
  | bool  => Bool
  | int   => Int
  | float => Float

def name : Shape → String
  | bool  => "bool"
  | int   => "int"
  | float => "float"

end Shape

inductive Field
  | enabled
  | debounce
  | timeout
  | acceptWindow
  | cacheSize
  | pendingLimit
  | linesBefore
  | linesAfter
  | breakBudget
  | repeatLines
  | repeatScore
  | useHints
deriving DecidableEq, Repr

namespace Field

-- In the order in which the environment is searched.
def all : List Field :=
  [enabled, debounce, timeout, acceptWindow, cacheSize, pendingLimit, linesBefore, linesAfter, breakBudget,
   repeatLines, repeatScore, useHints]

def name : Field → String
  | enabled      => "enabled"
  | debounce     => "debounce_ms"
  | timeout      => "timeout_ms"
  | acceptWindow => "accept_window_ms"
  | cacheSize    => "max_cache_size"
  | pendingLimit => "max_pending_requests"
  | linesBefore  => "max_prefix_lines"
  | linesAfter   => "max_suffix_lines"
  | breakBudget  => "max_streamed_newlines"
  | repeatLines  => "suffix_dedup_lines"
  | repeatScore  => "suffix_dedup_score"
  | useHints     => "include_related_context"

def ofName? (name : Text) : Option Field :=
  all.find? (·.name.toList = name)

def shape : Field → Shape
  | enabled | useHints => .bool
  | repeatScore        => .float
  | _                  => .int

end Field

def get (s : Settings) : (f : Field) → f.shape.Value
  | .enabled      => s.enabled
  | .debounce     => s.debounce
  | .timeout      => s.timeout
  | .acceptWindow => s.acceptWindow
  | .cacheSize    => s.cacheSize
  | .pendingLimit => s.pendingLimit
  | .linesBefore  => s.linesBefore
  | .linesAfter   => s.linesAfter
  | .breakBudget  => s.breakBudget
  | .repeatLines  => s.repeatLines
  | .repeatScore  => s.repeatScore
  | .useHints     => s.useHints

def set (s : Settings) : (f : Field) → f.shape.Value → Settings
  | .enabled, v      => { s with enabled := v }
  | .debounce, v     => { s with debounce := v }
  | .timeout, v      => { s with timeout := v }
  | .acceptWindow, v => { s with acceptWindow := v }
  | .cacheSize, v    => { s with cacheSize := v }
  | .pendingLimit, v => { s with pendingLimit := v }
  | .linesBefore, v  => { s with linesBefore := v }
  | .linesAfter, v   => { s with linesAfter := v }
  | .breakBudget, v  => { s with breakBudget := v }
  | .repeatLines, v  => { s with repeatLines := v }
  | .repeatScore, v  => { s with repeatScore := v }
  | .useHints, v     => { s with useHints := v }

-- What is wrong with settings, or with the data from which they should be made.
inductive Complaint
  | noCacheRoom
  | noPendingRoom
  | negative (field : Field)
  | noTimeout
  | noWindow
  | scoreOutOfRange
  | unknownField (name : Text)
  | wrongShape (field : Field) (given : String)
  | numberTooLarge (field : Option Field)
  | wholeTooLarge (field : Field)
  | notAnObject (given : String)
  | malformed
deriving DecidableEq, Repr

-- Malformed data has no message of its own.
def Complaint.message? : Complaint → Option Text
  | noCacheRoom => some "Cache size must be greater than 0".toList
  | noPendingRoom => some "max_pending_requests must be greater than 0".toList
  | negative f => some s!"{f.name} must not be negative".toList
  | noTimeout => some "timeout_ms must be greater than 0".toList
  | noWindow => some "context windows must hold at least one line".toList
  | scoreOutOfRange => some "suffix_dedup_score must be within [0, 100]".toList
  | unknownField name => some ("Object contains unknown field `".toList ++ name ++ "`".toList)
  | wrongShape f given => some s!"Expected `{f.shape.name}`, got `{given}` - at `$.{f.name}`".toList
  | numberTooLarge none => some "Number out of range".toList
  | numberTooLarge (some f) => some s!"Number out of range - at `$.{f.name}`".toList
  | wholeTooLarge f => some s!"Integer value out of range - at `$.{f.name}`".toList
  | notAnObject given => some s!"Expected `object`, got `{given}`".toList
  | malformed => none

-- The first thing that is wrong with the values.
def complaint? (s : Settings) : Option Complaint :=
  if s.cacheSize ≤ 0 then some .noCacheRoom
  else if s.pendingLimit ≤ 0 then some .noPendingRoom
  else if s.debounce < 0 then some (.negative .debounce)
  else if s.timeout < 0 then some (.negative .timeout)
  else if s.acceptWindow < 0 then some (.negative .acceptWindow)
  else if s.timeout = 0 then some .noTimeout
  else if s.linesBefore ≤ 0 || s.linesAfter ≤ 0 then some .noWindow
  else if !(0.0 ≤ s.repeatScore && s.repeatScore ≤ 100.0) then some .scoreOutOfRange
  else none

def Valid (s : Settings) : Prop :=
  s.complaint? = none

def check (s : Settings) : Except Complaint Settings :=
  match s.complaint? with
  | some c => .error c
  | none => .ok s

end Settings
end GhostText
