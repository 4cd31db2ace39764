import GhostText.Answer
import GhostText.Service.State

namespace GhostText.Service

def awaits (s : Service) (r c : Nat) : Bool :=
  match s.stage? c with
  | some (.awaiting _ _ id _) => id = r
  | _ => false

-- The calls that await a prediction learn of its result, in the order in which they were made.
def relayAll (s : Service) (r : Nat) : Service :=
  { s with ready := s.ready ++ ((List.range s.calls.size).filter (s.awaits r)).map .relay }

def outcomeNotice (p : Prediction) : Option Notice :=
  match p.stage with
  | .pending => none
  | .finished .. => some (.finishedIn p.id (p.latency?.getD 0.0))
  | .failed .cancelled _ _ => some (.cancelled p.id)
  | .failed cause message _ => some (.failed p.id (.failure cause) message)

-- The request is over and its prediction settled.
def conclude (s : Service) (r : Nat) (d : Dispatch) (p : Prediction) : Service :=
  let s := s.setDispatch r { d with prediction := p, watch := .ended }
  let s := (s.dropAlarm (.deadline r)).relayAll r
  match p.result? with
  | none => s
  | some result => (s.count (·.count result.outcome)).noteAll (outcomeNotice p).toList

def fail (s : Service) (r : Nat) (d : Dispatch) (cause : Failure) (message : Text) : Service :=
  match d.prediction.fail? cause message s.now with
  | some p => s.conclude r d p
  | none => s.conclude r d d.prediction

-- The text to keep. What continues on the next line begins with the break that leads there.
def storedText (p : Prediction) : Text :=
  let t := Answer.cleaned p.rawText
  if p.kind = .continueBelow then '\n' :: t else t

def finish (s : Service) (r : Nat) (d : Dispatch) : Service :=
  match d.prediction.finish? (storedText d.prediction) s.now with
  | some p => s.conclude r d p
  | none => s.conclude r d d.prediction

-- A fault that the model does not report as such is noted.
def failWith (s : Service) (r : Nat) (d : Dispatch) : Fault → Service
  | .request message provider => s.fail r d .error (Fault.request message provider).message
  | fault => (s.note (.raised s.backend.name fault)).fail r d .error fault.describe

def endReading (s : Service) (r : Nat) (d : Dispatch) (fault : Option Fault) : Service :=
  (s.setDispatch r { d with reading := .ended fault }).queue (.readingOver r)

-- Wait for the model. After no time at all other turns that are due still come first.
def pauseReading (s : Service) (r : Nat) (d : Dispatch) (rest? : Option Delivery) : Nat → Service
  | 0 => (s.setDispatch r { d with reading := .waiting true rest? }).queue (.resumeReading r)
  | pause => (s.setDispatch r { d with reading := .waiting false rest? }).setAlarm pause (.answer r)

-- Read one chunk and leave the others to later turns.
def readDelivery (s : Service) (r : Nat) (d : Dispatch) : Delivery → Service
  | ⟨[], fault⟩ => s.endReading r d fault
  | ⟨chunk :: rest, fault⟩ =>
    match d.prediction.read chunk.text s.settings.breakBudget with
    | (p, true) => (s.note (.budgetSpent p.id)).endReading r { d with prediction := p } none
    | (p, false) => s.pauseReading r { d with prediction := p } (some ⟨rest, fault⟩) chunk.pause

def receiveAnswer (s : Service) (r : Nat) (d : Dispatch) : Service :=
  let missed := (s.backend.answers.missed? d.request).map (Notice.unknownPlace ·)
  let (delivery, backend) := s.backend.answer d.request
  ({ s with backend }.noteAll missed.toList).readDelivery r d delivery

-- Wait for the model to begin its answer.
def awaitAnswer (s : Service) (r : Nat) (d : Dispatch) : Option Nat → Service
  | none => s.receiveAnswer r d
  | some delay => s.pauseReading r d none delay

-- Hand the request to the model.
def startReading (s : Service) (r : Nat) (d : Dispatch) : Service :=
  match d.reading with
  | .queued => { s with backend := s.backend.receive d.request }.awaitAnswer r d s.backend.delay
  | _ => s

-- A reading that has to stop tells the model so, which gives up at once.
def giveUp (s : Service) (r : Nat) (d : Dispatch) : Service :=
  { s with backend := s.backend.giveUp }.endReading r d none

-- A reading still goes on while the request watches over it.
def Dispatch.goesOn (d : Dispatch) : Bool :=
  match d.watch with
  | .watching _ => true
  | _ => false

def resumeReading (s : Service) (r : Nat) (d : Dispatch) : Service :=
  match d.reading with
  | .waiting true none => if d.goesOn then s.receiveAnswer r d else s.giveUp r d
  | .waiting true (some rest) => if d.goesOn then s.readDelivery r d rest else s.giveUp r d
  | _ => s

-- Let a reading that waits for the model take its next turn now.
def wake (s : Service) (r : Nat) (d : Dispatch) : Service :=
  match d.reading with
  | .waiting false rest? =>
    ((s.setDispatch r { d with reading := .waiting true rest? }).dropAlarm (.answer r)).queue (.resumeReading r)
  | _ => s.setDispatch r d

-- From here on the time for the request runs.
def watchOver (s : Service) (r : Nat) (d : Dispatch) : Service :=
  let s := (s.setAlarm s.settings.timeout.toNat (.deadline r)).setDispatch r { d with watch := .watching false }
  s.queue (.startReading r)

-- A request that was cancelled before its first turn is never sent, nor is one if the time allowed for it cannot
-- be reckoned.
def startRequest (s : Service) (r : Nat) (d : Dispatch) : Service :=
  match d.watch with
  | .queued =>
    if d.cancelled then (s.setDispatch r { d with watch := .ended }).queue (.retire r)
    else if (seconds? s.settings.timeout).isNone then s.failWith r d .endless
    else s.watchOver r d
  | _ => s

-- The prediction has the result of the reading.
def settleRead (s : Service) (r : Nat) (d : Dispatch) : Option Fault → Service
  | none => s.finish r d
  | some fault => s.failWith r d fault

-- The prediction fails for want of a result. If the request was cancelled, that counts and not the deadline.
def settleUnread (s : Service) (r : Nat) (d : Dispatch) : Service :=
  if d.cancelled then (s.fail r d .cancelled "Aborted autocomplete".toList).queue (.retire r)
  else s.fail r d .timeout "Timeout receiving message to LLM.".toList

-- What has been read counts, even if the request has been cancelled or its time is over by now. A reading that has
-- not ended is told to stop.
def resumeRequest (s : Service) (r : Nat) (d : Dispatch) : Service :=
  match d.watch with
  | .watching true =>
    match d.reading with
    | .ended fault => s.settleRead r d fault
    | _ => s.wake r { d with watch := .stopping false }
  | .stopping true => s.settleUnread r d
  | _ => s

-- Whoever still awaits the prediction of a cancelled request learns of it here, if not before.
def retire (s : Service) (r : Nat) (d : Dispatch) : Service :=
  match d.prediction.fail? .cancelled "Aborted autocomplete".toList s.now with
  | some p => (s.setDispatch r { d with prediction := p }).relayAll r
  | none => s.note (.lateFailure d.prediction.id d.prediction.status (.failure .cancelled))

-- Let a request take its next turn now, unless one is due already.
def rouse (s : Service) (r : Nat) (d : Dispatch) : Service :=
  match d.watch with
  | .watching false => (s.setDispatch r { d with watch := .watching true }).queue (.resumeRequest r)
  | .stopping false => (s.setDispatch r { d with watch := .stopping true }).queue (.resumeRequest r)
  | _ => s.setDispatch r d

-- Ask a request to stop, if it still runs.
def cancelRequest (s : Service) (r : Nat) : Service :=
  match s.dispatches[r]? with
  | none => s
  | some d =>
    if d.prediction.isPending && d.watch ≠ .ended then s.rouse r { d with cancelled := true } else s

-- The time for a request is over. One that has told the reading to stop is not concerned any more.
def expire (s : Service) (r : Nat) : Service :=
  match s.dispatches[r]? with
  | none => s
  | some d => if d.watch = .watching false then s.rouse r d else s

def answerComes (s : Service) (r : Nat) : Service :=
  match s.dispatches[r]? with
  | none => s
  | some d => s.wake r d

variable {s : Service}

@[simp] theorem calls_relayAll (r : Nat) : (s.relayAll r).calls = s.calls := rfl

@[simp] theorem calls_rouse (r : Nat) (d : Dispatch) : (s.rouse r d).calls = s.calls := by
  unfold rouse
  split <;> simp

@[simp] theorem calls_cancelRequest (r : Nat) : (s.cancelRequest r).calls = s.calls := by
  unfold cancelRequest
  split
  case h_1 => rfl
  case h_2 => split <;> simp

end GhostText.Service
