import GhostText.Number.Total
import GhostText.Service.Editor

namespace GhostText.Replay

def uri : Text :=
  "replay://document".toList

-- A completion that was shown, and how much of the text was typed then.
inductive Event
  | accepted (typed : Nat) (text : Text)
  | rejected (typed : Nat) (text : Text)
deriving DecidableEq, Repr

def Event.accepted? : Event → Option Text
  | .accepted _ text => some text
  | .rejected .. => none

def Event.rejected? : Event → Option Text
  | .accepted .. => none
  | .rejected _ text => some text

structure Typist where
  service    : Service
  position   : Position := ⟨0, 0⟩
  typed      : Nat := 0
  keystrokes : Nat := 0
  -- the number of completions shown, and what became of each, the last one first
  shown      : Nat := 0
  events     : List Event := []

-- What a call has for the typist to see. A completion without text is not shown.
def shown? (s : Service) (c : Nat) : Option Completion :=
  match s.answer? c with
  | some (completion :: _) => if completion.text.isEmpty then none else some completion
  | _ => none

namespace Typist

def start (s : Service) : Typist :=
  { service := s.openBuffer uri [] }

-- Ask for a completion and wait for the answer.
def ask (t : Typist) : Typist × Option Completion :=
  let s := (t.service.provide uri t.position).exhaust
  ({ t with service := s }, shown? s t.service.calls.size)

def edit (t : Typist) (span : Span) (text : Text) : Typist :=
  let (s, position) := t.service.edit uri span text
  { t with service := s, position := position.getD t.position, typed := t.typed + text.length }

def press (t : Typist) (c : Char) : Typist :=
  let t := t.edit (.empty t.position) [c]
  { t with keystrokes := t.keystrokes + 1 }

def reject (t : Typist) (completion : Completion) : Typist :=
  { t with events := .rejected t.typed completion.text :: t.events }

-- Insert a completion, and tell the service that it is no longer shown.
def accept (t : Typist) (completion : Completion) : Typist :=
  let t := t.edit completion.span completion.text
  let (s, _) := t.service.free uri t.position (some completion.prediction.toList)
  { t with service := s, events := .accepted t.typed completion.text :: t.events }

-- A completion is taken if it inserts just what comes next.
def agrees (completion : Completion) (rest : Text) : Bool :=
  completion.span.isEmpty && !completion.text.isEmpty && completion.text.isPrefixOf rest

theorem length_pos_of_agrees {completion : Completion} {rest : Text} (h : agrees completion rest) :
    0 < completion.text.length := by
  simp only [agrees, Bool.and_eq_true, Bool.not_eq_true', List.isEmpty_eq_false_iff] at h
  exact List.length_pos_iff.mpr h.1.2

-- Go on with what is shown, if anything is, before a character and more text. The text that is left is the result.
def goOn (accepting : Bool) (t : Typist) (shown : Option Completion) (c : Char) (more : Text) : Typist × Text :=
  match shown with
  | none => (t.press c, more)
  | some completion =>
    let t := { t with shown := t.shown + 1 }
    if accepting ∧ agrees completion (c :: more) then
      (t.accept completion, (c :: more).drop completion.text.length)
    else ((t.reject completion).press c, more)

theorem length_goOn_lt (accepting : Bool) (t : Typist) (shown : Option Completion) (c : Char) (more : Text) :
    (goOn accepting t shown c more).2.length < (c :: more).length := by
  unfold goOn
  split
  case h_1 => simp
  case h_2 =>
    split
    case isFalse  => simp
    case isTrue h =>
      have := length_pos_of_agrees h.2
      simp only [List.length_drop, List.length_cons]
      omega

def type (accepting : Bool) (t : Typist) (rest : Text) : Typist :=
  match rest with
  | [] => t
  | c :: more =>
    let (t, shown) := t.ask
    let next := t.goOn accepting shown c more
    type accepting next.1 next.2
termination_by rest.length
decreasing_by exact length_goOn_lt ..

end Typist

-- What came of typing a text.
structure Tally where
  keystrokes : Nat
  shown      : Nat
  events     : List Event
  requests   : Nat
  cacheHits  : Nat
  -- milliseconds on the service's clock
  time       : Nat
deriving DecidableEq, Repr

namespace Tally

def acceptedTexts (o : Tally) : List Text :=
  o.events.filterMap (·.accepted?)

def rejectedTexts (o : Tally) : List Text :=
  o.events.filterMap (·.rejected?)

def acceptedChars (o : Tally) : Nat :=
  total (o.acceptedTexts.map List.length)

def accepted (o : Tally) : Nat :=
  o.acceptedTexts.length

def rejected (o : Tally) : Nat :=
  o.rejectedTexts.length

def totalChars (o : Tally) : Nat :=
  o.keystrokes + o.acceptedChars

-- The part of the text that completions have typed.
def coverage (o : Tally) : Float :=
  if o.totalChars = 0 then 0.0 else nearestNat o.acceptedChars / nearestNat o.totalChars

-- The milliseconds passed, reckoned in seconds.
def elapsed (o : Tally) : Float :=
  (seconds o.time - seconds 0) * 1000.0

end Tally

-- The buffer does not hold the text in the end.
inductive ReplayError
  | diverged

def ReplayError.message : ReplayError → String
  | diverged => "document diverged from ground truth - bug in simulator logic"

def run (settings : Service.Setup) (backend : Backend) (accepting : Bool) (truth : Text) :
    Except ReplayError Tally × Array Notice :=
  let t := (Typist.start (.start settings backend none)).type accepting truth
  let s := t.service.dispose.settle 0
  let tally : Tally :=
    { keystrokes := t.keystrokes, shown := t.shown, events := t.events.reverse, requests := s.stats.requests,
      cacheHits := s.stats.cacheHits, time := s.now }
  let result := match s.buffer? uri with
    | some (_, document) => if document.text = truth then .ok tally else .error .diverged
    | none => .error .diverged
  (result, s.notices)

end GhostText.Replay
