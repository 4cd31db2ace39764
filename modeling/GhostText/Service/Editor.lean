import GhostText.Service.Work

namespace GhostText.Service

-- A new buffer under a name. The service is not told.
def openBuffer (s : Service) (uri : Text) (t : Text) : Service :=
  { s with
    buffers := s.buffers.push (Document.ofText t)
    opened := (uri, s.buffers.size) :: s.opened.filter (·.1 ≠ uri) }

def buffer? (s : Service) (uri : Text) : Option (Nat × Document) := do
  let b ← s.opened.lookup uri
  let document ← s.buffers[b]?
  return (b, document)

def edit (s : Service) (uri : Text) (span : Span) (t : Text) : Service × Option Position :=
  match s.buffer? uri with
  | none => (s, none)
  | some (b, document) =>
    let (document, cursor) := document.edit span t
    ({ s with buffers := s.buffers.setIfInBounds b document }, some cursor)

-- Ask for a completion. The number of the call is the number of calls before it.
def provide (s : Service) (uri : Text) (position : Position) : Service :=
  match s.buffer? uri with
  | none => s
  | some (b, _) =>
    let c := s.calls.size
    { s with calls := s.calls.push { uri, buffer := b, position } }.queue (.startCall c)

-- Take a question back. It has no effect on a call that is over.
def cancelCall (s : Service) (c : Nat) : Service × Bool :=
  match s.stage? c with
  | none | some (.answered _) | some .cancelled => (s, false)
  | some _ => ((s.dropAlarm (.call c)).setCall c .cancelled, true)

-- Does the text typed so far consist of the prediction, blanks aside?
def isAccepted (typed : Text) (p : Prediction) : Bool :=
  p.status = .finished && Text.squeeze (p.before ++ p.insertText) = typed

def accept (s : Service) (i : Nat) (id : Nat) (p : Prediction) : Service :=
  let s := s.note (.accepted p.id)
  match s.sessions[i]? with
  | none => s
  | some session => (s.setSession i { session with lastAccept := some s.now }).forget i id

-- Completions are no longer shown. Those that are now in the buffer are accepted, and leave the cache. If it is
-- known which were shown, no others are considered.
def free (s : Service) (uri : Text) (position : Position) (shown : Option (List Int)) : Service × List Int :=
  match s.session? uri, s.buffer? uri with
  | some i, some (_, document) =>
    match s.sessions[i]? with
    | none => (s, [])
    | some session =>
      let typed := Text.squeeze (document.cursorAt position).before
      let taken := (s.predictionsIn session).filter fun (_, p) =>
        shown.all (·.contains p.id) && isAccepted typed p
      let s := taken.foldl (fun s (id, p) => s.accept i id p) s
      (s.count fun n => { n with accepted := n.accepted + taken.length }, taken.map (·.2.id))
  | _, _ => (s, [])

-- The session of a document ends, and with it all of its requests.
def close (s : Service) (uri : Text) : Service :=
  match s.session? uri with
  | none => s
  | some i =>
    let s := { s with current := s.current.filter (·.1 ≠ uri) }
    s.withCache i fun cache s => cache.clear disposal s

def dispose (s : Service) : Service :=
  (s.current.map (·.1)).foldl close s

-- How long the model takes to begin its answer to later requests.
def setDelay (s : Service) (delay : Option Nat) : Service :=
  { s with backend := { s.backend with delay } }

def answer? (s : Service) (c : Nat) : Option (List Completion) :=
  match s.stage? c with
  | some (.answered completions) => some completions
  | _ => none

end GhostText.Service
