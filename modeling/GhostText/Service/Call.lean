import GhostText.Hints.Header
import GhostText.Service.Request

namespace GhostText.Service

-- A prediction that leaves a cache is of no more use, so its request is cancelled.
def disposal : Cache.Hook Nat Unit Service Empty :=
  fun id _ s => (s.cancelRequest id, none)

-- Change the cache of a session, and whatever its entries bring with them when they leave.
def withCache (s : Service) (i : Nat)
    (change : Cache Nat Unit → Service → Cache.Outcome Nat Unit Service Empty) : Service :=
  match s.sessions[i]? with
  | none => s
  | some session =>
    let o := change session.cache s
    o.state.setSession i { session with cache := o.cache }

def keep (s : Service) (i id : Nat) : Service :=
  s.withCache i fun cache s => cache.set disposal s id ()

def forget (s : Service) (i id : Nat) : Service :=
  s.withCache i fun cache s => cache.delete disposal s id

def sessionFor (s : Service) (uri : Text) : Service × Nat :=
  match s.session? uri with
  | some i => (s, i)
  | none =>
    let session : Session := { cache := { maxSize := s.settings.cacheSize.toNat } }
    ({ s with sessions := s.sessions.push session, current := s.current ++ [(uri, s.sessions.size)] },
     s.sessions.size)

-- The first prediction that applies to the text before the cursor. What the others missed by is noted.
def findMatch (before : Text) : List (Nat × Prediction) → Option (Nat × Prediction × Bounds) × List Notice
  | [] => (none, [])
  | (id, p) :: rest =>
    let verdict := Bounds.judge before p.before p.insertText
    match verdict.bounds? with
    | some b => (some (id, p, b), verdict.notices p.id)
    | none =>
      let (found, notices) := findMatch before rest
      (found, verdict.notices p.id ++ notices)

-- Answer with the part of a prediction that is not typed yet.
def complete (s : Service) (c : Nat) (call : Call) (cursor : Cursor) (p : Prediction) (b : Bounds) : Service :=
  let rule := s.settings.repeatRule
  let s := s.noteAll ((Excerpt.of rule p cursor b.index).notices p.id)
  s.answer c [Completion.of rule p cursor call.position b.index]

def serveCached (s : Service) (c : Nat) (call : Call) (i : Nat) (cursor : Cursor) (id : Nat) (p : Prediction)
    (b : Bounds) : Service :=
  let s := s.count fun n => { n with cacheHits := n.cacheHits + 1 }
  let s := s.note (.cacheHit p.id p.status)
  match p.status with
  | .finished => s.complete c call cursor p b
  | .pending  => s.setCall c (.awaiting i cursor id false)
  | .failed   => s.answer c []

def failCall (s : Service) (c : Nat) (call : Call) : Service :=
  let s := s.note (.callFailed call.uri)
  let s := s.count fun n => { n with internalErrors := n.internalErrors + 1 }
  s.answer c []

-- Was something accepted a short time ago? The times are compared in seconds.
def justAccepted? (s : Service) (session : Session) : Option Bool :=
  (seconds? s.settings.acceptWindow).map fun window =>
    match session.lastAccept with
    | none => false
    | some time => seconds s.now - seconds time < window

-- Wait for the end of typing. The call fails if the time to wait cannot be reckoned.
def debounce (s : Service) (c : Nat) (call : Call) (i : Nat) (session : Session) (cursor : Cursor)
    (accepted : Bool) : Service :=
  let generation := session.generation + 1
  let s := s.setSession i { session with generation }
  if (seconds? s.settings.debounce).isNone then s.failCall c call
  else (s.setCall c (.debouncing i cursor generation accepted)).resumeAfter s.settings.debounce.toNat c

-- Look for a prediction that applies, and wait for the end of typing if there is none.
def seek (s : Service) (c : Nat) (call : Call) : Service :=
  let (s, i) := s.sessionFor call.uri
  match s.buffers[call.buffer]?, s.sessions[i]? with
  | some document, some session =>
    let cursor := document.cursorAt call.position
    let (found, notices) := findMatch cursor.before (s.predictionsIn session)
    let s := s.noteAll notices
    match found with
    | some (id, p, b) => s.serveCached c call i cursor id p b
    | none =>
      match s.justAccepted? session with
      | some accepted => s.debounce c call i session cursor accepted
      | none => s.failCall c call
  | _, _ => s

-- A call that was taken back before its first turn does nothing.
def startCall (s : Service) (c : Nat) (call : Call) : Service :=
  match call.stage with
  | .queued => if s.settings.enabled then s.seek c call else s.answer c []
  | _ => s

-- With as many requests running as are allowed, the oldest makes room.
def enforceLimit (s : Service) (i : Nat) : Service :=
  match s.sessions[i]? with
  | none => s
  | some session =>
    match (s.predictionsIn session).filter (·.2.isPending) with
    | [] => s
    | (oldest, p) :: others =>
      if s.settings.pendingLimit ≤ (others.length + 1 : Nat) then
        let s := (s.note (.tooManyPending p.id)).forget i oldest
        s.count fun n => { n with evictedPending := n.evictedPending + 1 }
      else s

-- Send a request to the model, and await its result.
def dispatch (s : Service) (c : Nat) (i : Nat) (cursor : Cursor) (o : Options) (before : Text) : Service :=
  let id := s.dispatches.size
  let p : Prediction :=
    { id, before := cursor.before, after := cursor.after, kind := o.kind, createdAt := s.now }
  let request : FillRequest := { before, after := o.after, stops := o.stops }
  let s := s.noteAll
    [.requested id o.kind, .prefixTail (Bound.since (-80) before), .suffixHead (Bound.upTo 80 o.after)]
  let s := s.addDispatch { call := c, session := i, prediction := p, request }
  let s := (s.queue (.startRequest id)).keep i id
  let s := s.count fun n => { n with requests := n.requests + 1 }
  s.setCall c (.awaiting i cursor id true)

def dispatchHinted (s : Service) (c : Nat) (i : Nat) (cursor : Cursor) (o : Options) (h : Hints) : Service :=
  s.dispatch c i cursor o (Header.attach o.before h.render)

-- What a provider adds to the hints. If it fails, that is noted and the others are still asked.
def ask (s : Service) (f : LanguageFeatures) (h : Hints) (p : Hints.Provider) : Service × Hints :=
  let (h, failed) := h.ask f p
  (s.noteAll (failed.map (Notice.providerFailed p ·)).toList, h)

-- Ask the providers that are left, each after the time it takes, and then send the request.
def gather (s : Service) (c : Nat) (i : Nat) (cursor : Cursor) (o : Options) (h : Hints) :
    List Hints.Provider → Service
  | [] => s.dispatchHinted c i cursor o h
  | p :: rest =>
    match s.features with
    | none => s.dispatchHinted c i cursor o h
    | some f =>
      match f.delay with
      | none => let (s, h) := s.ask f h p; s.gather c i cursor o h rest
      | some delay => (s.setCall c (.gathering i cursor o h (p :: rest))).resumeAfter delay c

def request (s : Service) (c : Nat) (call : Call) (i : Nat) (cursor : Cursor) (o : Options) : Service :=
  if !o.generate then s.answer c []
  else if !s.settings.useHints then s.dispatch c i cursor o o.before
  else
    match s.buffers[call.buffer]? with
    | none => s
    | some document =>
      match Hints.inText document.text call.position with
      | .error _ => s.failCall c call
      | .ok h => s.gather c i cursor o h Hints.Provider.all

-- Only the last call that came to wait goes on.
def endDebounce (s : Service) (c : Nat) (call : Call) (i : Nat) (cursor : Cursor) (generation : Nat)
    (accepted : Bool) : Service :=
  match s.sessions[i]? with
  | none => s
  | some session =>
    if session.generation ≠ generation then
      (s.count fun n => { n with debounced := n.debounced + 1 }).answer c []
    else
      let s := s.enforceLimit i
      s.request c call i cursor (Options.of cursor accepted s.settings.window)

def askNext (s : Service) (c : Nat) (i : Nat) (cursor : Cursor) (o : Options) (h : Hints) :
    List Hints.Provider → Service
  | [] => s.dispatchHinted c i cursor o h
  | p :: rest =>
    match s.features with
    | none => s.dispatchHinted c i cursor o h
    | some f => let (s, h) := s.ask f h p; s.gather c i cursor o h rest

-- The result of the prediction that the call awaited. A text that arrived after the call had found the prediction
-- must be matched again.
def deliver (s : Service) (c : Nat) (call : Call) (i : Nat) (cursor : Cursor) (id : Nat) (own : Bool) : Service :=
  match s.prediction? id with
  | none => s
  | some p =>
    match p.result? with
    | none => s
    | some result =>
      if !result.ok then (s.forget i id).answer c []
      else if own then s.complete c call cursor p .noNewTyping
      else
        let verdict := Bounds.judge cursor.before p.before p.insertText
        let s := s.noteAll (verdict.notices p.id)
        match verdict.bounds? with
        | some b => s.complete c call cursor p b
        | none => s.answer c []

def resumeCall (s : Service) (c : Nat) (call : Call) : Service :=
  match call.stage with
  | .debouncing i cursor generation accepted => s.endDebounce c call i cursor generation accepted
  | .gathering i cursor o h unasked => s.askNext c i cursor o h unasked
  | .awaiting i cursor id own => s.deliver c call i cursor id own
  | _ => s

def relay (s : Service) (c : Nat) (call : Call) : Service :=
  match call.stage with
  | .awaiting .. => s.queue (.resumeCall c)
  | _ => s

end GhostText.Service
