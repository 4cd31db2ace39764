import GhostText.Number.Total
import GhostText.Prediction.Basic

namespace GhostText

-- How a waiter looks from outside.
inductive Waiter
  | pending
  | cancelled
  | obtained (result : RequestResult)
deriving DecidableEq, Repr

-- A request that is attached to a prediction and does nothing but last for a day.
structure Attached where
  stop      : Nat
  cancelled : Bool := false
deriving DecidableEq, Repr

-- The milliseconds of a day.
def Attached.length : Nat :=
  86400000

-- The result that the waiters share, or those who listen for it.
inductive Future
  | unset (listeners : List Nat)
  | set (result : RequestResult)
deriving DecidableEq, Repr

inductive Wait
  -- has not begun yet, and may have been asked to stop before
  | queued (stopped : Bool)
  | listening
  -- is about to go on, with a result or to stop
  | roused (result? : Option RequestResult)
  | cancelled
  | obtained (result : RequestResult)
deriving DecidableEq, Repr

namespace Wait

def seen : Wait → Waiter
  | .cancelled  => .cancelled
  | .obtained r => .obtained r
  | _           => .pending

-- Is it over, or going to be, without a result?
def leaves : Wait → Bool
  | .queued stopped => stopped
  | .roused result? => result?.isNone
  | .cancelled      => true
  | _               => false

end Wait

namespace Watched

inductive Turn
  | start (t : Nat)
  | relay (t : Nat)
  | resume (t : Nat)
deriving DecidableEq, Repr

-- A waiter that is told of the result takes another turn to go on with it.
def Turn.work : Turn → Nat
  | .relay _ => 2
  | _        => 1

end Watched

-- A prediction with those who wait for its result. They share one future, which is made when the first of them has to
-- wait, and each of them listens to it in a way of its own. Nothing happens to those who wait but in turns of a queue.
structure Watched where
  prediction : Prediction
  future     : Option Future := none
  waits      : Array Wait := #[]
  names      : List (Text × Nat) := []
  ready      : List Watched.Turn := []
  attached   : Option Attached := none
  now        : Nat := 0

namespace Watched

def queue (w : Watched) (t : Turn) : Watched :=
  { w with ready := w.ready ++ [t] }

def setWait (w : Watched) (t : Nat) (x : Wait) : Watched :=
  { w with waits := w.waits.setIfInBounds t x }

-- The prediction has changed. If it has a result now, those who listen for it will be told.
def resolve (w : Watched) (p : Prediction) : Watched :=
  match w.future, p.result? with
  | some (.unset listeners), some r =>
    { w with prediction := p, future := some (.set r), ready := w.ready ++ listeners.map .relay }
  | _, _ => { w with prediction := p }

def finish (w : Watched) (text : Text) (time : Int) : Watched × Bool :=
  match w.prediction.finish? text time with
  | some p => (w.resolve p, true)
  | none => (w, false)

-- Success is no way to fail, whether the prediction is settled or not.
def fail (w : Watched) (outcome : Outcome) (message : Text) (time : Int) :
    Except PredictionError (Watched × Bool) := do
  let cause ← outcome.cause
  match w.prediction.fail? cause message time with
  | some p => return (w.resolve p, true)
  | none => return (w, false)

def read (w : Watched) (chunk : Text) (budget : Int) : Watched × Bool :=
  let (p, full) := w.prediction.read chunk budget
  ({ w with prediction := p }, full)

-- The request is asked to stop while it lasts, if there is a result to wait for. The prediction stays as it is.
def cancel (w : Watched) : Watched :=
  match w.attached with
  | none => w
  | some a =>
    if w.prediction.isPending && w.now < a.stop then { w with attached := some { a with cancelled := true } } else w

def attach (w : Watched) : Watched :=
  { w with attached := some { stop := w.now + Attached.length } }

def put (name : Text) (t : Nat) (names : List (Text × Nat)) : List (Text × Nat) :=
  names.filter (·.1 ≠ name) ++ [(name, t)]

-- A new waiter, which begins in a turn of its own.
def wait (w : Watched) (name : Text) : Watched :=
  { w with
    waits := w.waits.push (.queued false)
    names := put name w.waits.size w.names
    ready := w.ready ++ [.start w.waits.size] }

-- Only somebody who still waits can stop waiting. Somebody who listens goes on in a new turn, and somebody who is
-- about to begin or to go on stops in the turn that has been given to him.
def stop (w : Watched) (t : Nat) : Watched × Bool :=
  match w.waits[t]? with
  | some (.queued _) => (w.setWait t (.queued true), true)
  | some .listening  => ((w.setWait t (.roused none)).queue (.resume t), true)
  | some (.roused _) => (w.setWait t (.roused none), true)
  | _                => (w, false)

def cancelWait (w : Watched) (name : Text) : Watched × Bool :=
  match w.names.lookup name with
  | some t => w.stop t
  | none   => (w, false)

-- A late waiter finds the result. Any other one listens to the future, which the first of them makes.
def start (w : Watched) (t : Nat) : Wait → Watched
  | .queued true  => w.setWait t .cancelled
  | .queued false =>
    match w.prediction.result?, w.future with
    | some r, _                     => w.setWait t (.obtained r)
    | none, some (.set r)           => w.setWait t (.obtained r)
    | none, some (.unset listeners) =>
      { w.setWait t .listening with future := some (.unset (listeners ++ [t])) }
    | none, none                    => { w.setWait t .listening with future := some (.unset [t]) }
  | _ => w

-- Nobody is told who has gone away in the meantime.
def relay (w : Watched) (t : Nat) (x : Wait) : Watched :=
  match x, w.future with
  | .listening, some (.set r) => (w.setWait t (.roused (some r))).queue (.resume t)
  | _, _                      => w

-- Somebody who stops waiting does not listen any more. The future is not his to cancel.
def resume (w : Watched) (t : Nat) : Wait → Watched
  | .roused (some r) => w.setWait t (.obtained r)
  | .roused none     =>
    match w.future with
    | some (.unset listeners) =>
      { w.setWait t .cancelled with future := some (.unset (listeners.filter (· ≠ t))) }
    | _ => w.setWait t .cancelled
  | _ => w

def withWait (w : Watched) (t : Nat) (f : Wait → Watched) : Watched :=
  match w.waits[t]? with
  | some x => f x
  | none   => w

def takeTurn (w : Watched) : Turn → Watched
  | .start t  => w.withWait t (w.start t)
  | .relay t  => w.withWait t (w.relay t)
  | .resume t => w.withWait t (w.resume t)

def step (w : Watched) : Watched :=
  match w.ready with
  | []        => w
  | t :: rest => { w with ready := rest }.takeTurn t

-- How many turns are left at most.
def work (w : Watched) : Nat :=
  total (w.ready.map Turn.work)

def run : Nat → Watched → Watched
  | 0, w     => w
  | n + 1, w => run n w.step

-- Everything that is ready happens.
def settle (w : Watched) : Watched :=
  run w.work w

def advance (w : Watched) (ms : Nat) : Watched :=
  { w.settle with now := w.now + ms }

def seen? (w : Watched) (t : Nat) : Option Waiter :=
  w.waits[t]?.map Wait.seen

def waiters (w : Watched) : List (Text × Waiter) :=
  w.names.filterMap fun (name, t) => (w.seen? t).map fun x => (name, x)

end Watched
end GhostText
