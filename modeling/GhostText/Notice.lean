import GhostText.Hints.Provider
import GhostText.Match.Bounds
import GhostText.Number.Fixed
import GhostText.Prediction.Basic
import GhostText.Shown.Completion

namespace GhostText

inductive Level
  | debug
  | info
  | warning
  | error
deriving DecidableEq, Repr

def Level.name : Level → String
  | debug   => "DEBUG"
  | info    => "INFO"
  | warning => "WARNING"
  | error   => "ERROR"

inductive Notice
  | started (backend : String)
  | callFailed (uri : Text)
  | cacheHit (id : Int) (status : Status)
  | tooManyPending (id : Int)
  | requested (id : Int) (kind : Kind)
  | prefixTail (text : Text)
  | suffixHead (text : Text)
  | budgetSpent (id : Int)
  | raised (backend : String) (fault : Fault)
  | finishedIn (id : Int) (latency : Float)
  | cancelled (id : Int)
  | failed (id : Int) (outcome : Outcome) (message : Text)
  | accepted (id : Int)
  | lateResult (id : Int) (status : Status)
  | lateFailure (id : Int) (status : Status) (outcome : Outcome)
  | matched (id : Int) (verdict : Bounds.Verdict)
  | repeated (line : Nat) (known : Text)
  | shown (id : Int) (excerpt : Excerpt)
  | providerFailed (provider : Hints.Provider) (fault : Fault)
  -- only the end of the tail is told
  | unknownPlace (tail : Text)

namespace Notice

def level : Notice → Level
  | started _                     => .info
  | callFailed _                  => .error
  | raised _ _                    => .warning
  | failed _ _ _                  => .info
  | providerFailed _ _            => .warning
  | matched _ .beforeFirstLine    => .error
  | matched _ (.afterLastLine ..) => .warning
  | matched _ .lostColumn         => .warning
  | _                             => .debug

-- The part of the engine that speaks.
def source : Notice → String
  | lateResult .. | lateFailure .. => "prediction"
  | matched ..                     => "matchup"
  | repeated .. | shown ..         => "postprocess"
  | providerFailed ..              => "related_context"
  | unknownPlace _                 => "static"
  | _                              => "service"

def text (t : Text) : String :=
  String.ofList t

def message : Notice → String
  | started backend => s!"Initialized AutocompleteService (backend={backend})"
  | callFailed uri => s!"autocomplete failed for {text uri}"
  | cacheHit id status => s!"cache hit: prediction {id} ({status.name})"
  | tooManyPending id => s!"too many pending requests; cancelling prediction {id}"
  | requested id kind => s!"starting autocomplete {id} ({kind.name})"
  | prefixTail t => s!"  model prefix tail: {text t.quoted}"
  | suffixHead t => s!"  model suffix head: {text t.quoted}"
  | budgetSpent id => s!"prediction {id} hit the newline budget"
  | raised backend fault => s!"backend {backend} raised {text fault.describe}"
  | finishedIn id latency => s!"prediction {id} finished in {fixed 0 latency}ms"
  | cancelled id => s!"prediction {id} cancelled"
  | failed id outcome t => s!"prediction {id} failed ({outcome.name}): {text t}"
  | accepted id => s!"accepted prediction {id}"
  | lateResult id status => s!"prediction {id} already {status.name}; ignoring result"
  | lateFailure id status outcome => s!"prediction {id} already {status.name}; ignoring {outcome.name}"
  | matched _ .apart => ""
  | matched id .beforeFirstLine => s!"matchup for prediction {id}: no line found"
  | matched id (.afterLastLine line lines) =>
    s!"matchup for prediction {id}: line {line} outside the {lines}-line prediction"
  | matched id .lostColumn =>
    s!"matchup for prediction {id}: found character with negative index; this should never happen"
  | matched id (.found b) =>
    s!"matchup for prediction {id}: line={b.line} char={b.column} index={b.index}"
  | repeated line known => s!"generated line {line} repeats suffix line {text known.quoted}"
  | shown id e =>
    s!"postprocess prediction {id}: window=[" ++ s!"{e.start}, {e.stop}) -> {text e.text.quoted}"
  | providerFailed provider fault => s!"{provider.name} provider failed: {text fault.message}"
  | unknownPlace t => s!"oracle: prefix tail {text (Text.quoted (Bound.since (-40) t))} not found in ground truth"

end Notice

-- A prediction that does not match is no news.
def Bounds.Verdict.notices (id : Int) : Verdict → List Notice
  | .apart => []
  | v => [.matched id v]

def Excerpt.notices (id : Int) (e : Excerpt) : List Notice :=
  (e.repeated.map fun (line, known) => Notice.repeated line known).toList ++ [.shown id e]

end GhostText
