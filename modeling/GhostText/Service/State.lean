import GhostText.Buffer.Document
import GhostText.Cache
import GhostText.Hints.Gather
import GhostText.Model.Backend
import GhostText.Notice
import GhostText.Request.Options
import GhostText.Settings.Basic

namespace GhostText

namespace Service

-- What the service keeps for a document while it is open.
structure Session where
  -- the ids of the predictions that are kept, the one set longest ago first
  cache      : Cache Nat Unit
  -- counts the calls that have come to wait for the end of typing
  generation : Nat := 0
  lastAccept : Option Nat := none

-- How far the reading of an answer has come.
inductive Reading
  | queued
  -- for the model to begin its answer, or to go on with what is left of it; `woken` once a turn is due
  | waiting (woken : Bool) (rest? : Option Delivery)
  -- with the fault that ended it, if one did
  | ended (fault : Option Fault)

-- How far a request has come. It has its answer read in turns of their own, and watches over them.
inductive Watch
  | queued
  -- until the reading ends, the time is over or the request is cancelled; `woken` once a turn is due
  | watching (woken : Bool)
  -- until the reading has stopped as it was told to, or the request is cancelled
  | stopping (woken : Bool)
  | ended
deriving DecidableEq

structure Dispatch where
  -- the call that sent the request, and the session it belongs to
  call       : Nat
  session    : Nat
  prediction : Prediction
  request    : FillRequest
  watch      : Watch := .queued
  reading    : Reading := .queued
  cancelled  : Bool := false

-- Where a call stands. Its cursor is the one it was made with.
inductive Stage
  | queued
  | debouncing (session : Nat) (cursor : Cursor) (generation : Nat) (justAccepted : Bool)
  | gathering (session : Nat) (cursor : Cursor) (options : Options) (hints : Hints) (unasked : List Hints.Provider)
  | awaiting (session : Nat) (cursor : Cursor) (id : Nat) (own : Bool)
  | answered (completions : List Completion)
  | cancelled

structure Call where
  uri      : Text
  buffer   : Nat
  position : Position
  stage    : Stage := .queued

-- What an alarm is set for.
inductive Bell
  | call (c : Nat)
  | answer (r : Nat)
  | deadline (r : Nat)
deriving DecidableEq, Repr

structure Alarm where
  due  : Nat
  bell : Bell
deriving DecidableEq, Repr

-- In which order alarms ring that are due at one time. Nothing can be relied on but that each of them rings once.
structure Chime where
  order : Nat → List Alarm → List Alarm
  perm  : ∀ time alarms, (order time alarms).Perm alarms

-- In the order in which they were set.
def Chime.inTurn : Chime where
  order := fun _ alarms => alarms
  perm  := fun _ alarms => .refl alarms

-- The settings, together with what is decided elsewhere: how alike two lines must be for a least score, and how the
-- alarms ring.
structure Setup extends Settings where
  likeness : Float → Repeat.Likeness := fun _ line known => line = known
  chime    : Chime := .inTurn

def Setup.repeatRule (s : Setup) : RepeatRule :=
  { lines := s.repeatLines, like := s.likeness s.repeatScore }

inductive Turn
  | startCall (c : Nat)
  | resumeCall (c : Nat)
  | startRequest (r : Nat)
  | resumeRequest (r : Nat)
  | startReading (r : Nat)
  | resumeReading (r : Nat)
  -- a request learns that the reading has ended
  | readingOver (r : Nat)
  -- a result reaches a call that awaits it
  | relay (c : Nat)
  -- a cancelled request has come to its end
  | retire (r : Nat)
  | ring (b : Bell)
deriving DecidableEq, Repr

structure Stats where
  requests       : Nat := 0
  cacheHits      : Nat := 0
  debounced      : Nat := 0
  evictedPending : Nat := 0
  accepted       : Nat := 0
  internalErrors : Nat := 0
  success        : Nat := 0
  error          : Nat := 0
  timeout        : Nat := 0
  cancelled      : Nat := 0
deriving DecidableEq, Repr

namespace Stats

def count (s : Stats) : Outcome → Stats
  | .success            => { s with success := s.success + 1 }
  | .failure .error     => { s with error := s.error + 1 }
  | .failure .timeout   => { s with timeout := s.timeout + 1 }
  | .failure .cancelled => { s with cancelled := s.cancelled + 1 }

def entries (s : Stats) : List (String × Nat) :=
  [("requests", s.requests), ("cache_hits", s.cacheHits), ("debounced", s.debounced),
   ("evicted_pending", s.evictedPending), ("accepted", s.accepted), ("internal_errors", s.internalErrors),
   ("success", s.success), ("error", s.error), ("timeout", s.timeout), ("cancelled", s.cancelled)]

end Stats
end Service

open Service

-- Calls and requests do not run side by side. Each moves in turns: a turn is due at once and waits in a queue, or an
-- alarm makes it due at a later time.
structure Service where
  settings   : Setup
  features   : Option LanguageFeatures := none
  backend    : Backend
  now        : Nat := 0
  -- the editor's buffers, and which one is open under a name
  buffers    : Array Document := #[]
  opened     : List (Text × Nat) := []
  sessions   : Array Session := #[]
  -- the session of each document, in the order in which they came to be
  current    : List (Text × Nat) := []
  dispatches : Array Dispatch := #[]
  calls      : Array Call := #[]
  ready      : List Turn := []
  -- in the order in which they were set
  alarms     : List Alarm := []
  stats      : Stats := {}
  notices    : Array Notice := #[]

namespace Service

def note (s : Service) (n : Notice) : Service :=
  { s with notices := s.notices.push n }

def noteAll (s : Service) (ns : List Notice) : Service :=
  ns.foldl note s

def start (settings : Setup) (backend : Backend) (features : Option LanguageFeatures) : Service :=
  note { settings, backend, features } (.started backend.name)

def queue (s : Service) (t : Turn) : Service :=
  { s with ready := s.ready ++ [t] }

def setAlarm (s : Service) (delay : Nat) (b : Bell) : Service :=
  { s with alarms := s.alarms ++ [⟨s.now + delay, b⟩] }

def dropAlarm (s : Service) (b : Bell) : Service :=
  { s with alarms := s.alarms.filter (·.bell ≠ b) }

-- Resume a call after a delay. After no time at all other turns that are due still come first.
def resumeAfter (s : Service) (delay : Nat) (c : Nat) : Service :=
  if delay = 0 then s.queue (.resumeCall c) else s.setAlarm delay (.call c)

def setCall (s : Service) (c : Nat) (stage : Stage) : Service :=
  { s with calls := s.calls.modify c ({ · with stage }) }

def answer (s : Service) (c : Nat) (completions : List Completion) : Service :=
  s.setCall c (.answered completions)

def addDispatch (s : Service) (d : Dispatch) : Service :=
  { s with dispatches := s.dispatches.push d }

def setDispatch (s : Service) (r : Nat) (d : Dispatch) : Service :=
  { s with dispatches := s.dispatches.setIfInBounds r d }

def setSession (s : Service) (i : Nat) (session : Session) : Service :=
  { s with sessions := s.sessions.setIfInBounds i session }

def count (s : Service) (f : Stats → Stats) : Service :=
  { s with stats := f s.stats }

def prediction? (s : Service) (id : Nat) : Option Prediction :=
  s.dispatches[id]?.map (·.prediction)

def stage? (s : Service) (c : Nat) : Option Stage :=
  s.calls[c]?.map (·.stage)

-- The predictions of a session, oldest first.
def predictionsIn (s : Service) (session : Session) : List (Nat × Prediction) :=
  session.cache.keys.filterMap fun id => (s.prediction? id).map (id, ·)

def session? (s : Service) (uri : Text) : Option Nat :=
  s.current.lookup uri

def predictionsOf (s : Service) (uri : Text) : List Prediction :=
  match (s.session? uri).bind (s.sessions[·]?) with
  | none => []
  | some session => (s.predictionsIn session).map (·.2)

variable {s : Service}

theorem noteAll_eq (s : Service) (ns : List Notice) :
    s.noteAll ns = { s with notices := s.notices ++ ns.toArray } := by
  induction ns generalizing s
  case nil          => simp [noteAll]
  case cons n ns ih =>
    have : s.noteAll (n :: ns) = (s.note n).noteAll ns := rfl
    rw [this, ih]
    simp [note]

@[simp] theorem calls_note (x : Notice) : (s.note x).calls = s.calls := rfl
@[simp] theorem calls_noteAll (ns : List Notice) : (s.noteAll ns).calls = s.calls := by rw [noteAll_eq]
@[simp] theorem calls_count (f : Stats → Stats) : (s.count f).calls = s.calls := rfl
@[simp] theorem calls_queue (t : Turn) : (s.queue t).calls = s.calls := rfl
@[simp] theorem calls_setAlarm (delay : Nat) (x : Bell) : (s.setAlarm delay x).calls = s.calls := rfl
@[simp] theorem calls_dropAlarm (x : Bell) : (s.dropAlarm x).calls = s.calls := rfl
@[simp] theorem calls_setSession (i : Nat) (x : Session) : (s.setSession i x).calls = s.calls := rfl
@[simp] theorem calls_addDispatch (d : Dispatch) : (s.addDispatch d).calls = s.calls := rfl
@[simp] theorem calls_setDispatch (r : Nat) (d : Dispatch) : (s.setDispatch r d).calls = s.calls := rfl

@[simp] theorem dispatches_note (x : Notice) : (s.note x).dispatches = s.dispatches := rfl
@[simp] theorem dispatches_noteAll (ns : List Notice) : (s.noteAll ns).dispatches = s.dispatches := by
  rw [noteAll_eq]

end Service
end GhostText
