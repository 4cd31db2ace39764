import GhostText.Number.Total
import GhostText.Service.Run

namespace GhostText.Service

-- The end of a request is told to every call, each time in two turns.
def tellingWork (calls : Nat) : Nat :=
  2 * calls

def Turn.work (calls : Nat) : Turn → Nat
  | .relay _ | .ring _ => 2
  | .retire _ => tellingWork calls + 1
  | _ => 1

def alarmWork : Nat :=
  3

-- What a request leads to once it ends: its result is told, and told again after a cancellation.
def endingWork (calls : Nat) : Nat :=
  tellingWork calls + (tellingWork calls + 1)

-- A request takes a turn to be told that it should stop the reading, and another one when that has stopped.
def Watch.work (calls : Nat) : Watch → Nat
  | .ended          => 0
  | .stopping true  => endingWork calls
  | .stopping false => endingWork calls + 1
  | .watching true  => endingWork calls + 1
  | .watching false => endingWork calls + 2
  | .queued         => endingWork calls + 3 + alarmWork

-- What waiting for the model leads to: for each chunk an alarm may be set and a turn more be due, and one turn tells of
-- the end. An answer that has not begun has no more chunks than the longest.
def Reading.pauseWork (longest : Nat) : Option Delivery → Nat
  | some rest => (alarmWork + 1) * rest.chunks.length + 1
  | none      => (alarmWork + 1) * longest + 2

def Reading.work (longest : Nat) : Reading → Nat
  | .ended _             => 0
  | .waiting true rest?  => pauseWork longest rest?
  | .waiting false rest? => pauseWork longest rest? + 1
  | .queued              => pauseWork longest none + 1 + alarmWork

def Dispatch.work (calls longest : Nat) (d : Dispatch) : Nat :=
  d.watch.work calls + d.reading.work longest

-- A call can send one request, and has to wait for the end of typing and for each provider before.
def Stage.work (calls longest : Nat) : Stage → Nat
  | .answered _ | .cancelled | .awaiting .. => 0
  | .gathering _ _ _ _ unasked => alarmWork * unasked.length + sending
  | .debouncing .. => alarmWork * (Hints.Provider.all.length + 1) + sending
  | .queued => alarmWork * (Hints.Provider.all.length + 2) + sending
where
  sending : Nat := Watch.work calls .queued + Reading.work longest .queued + 1

-- The work with weights for so many calls and for answers of so many chunks.
def workAt (calls longest : Nat) (s : Service) : Nat :=
  total (s.ready.map (Turn.work calls)) + alarmWork * s.alarms.length +
    total (s.calls.toList.map (Stage.work calls longest ·.stage)) +
    total (s.dispatches.toList.map (Dispatch.work calls longest))

def longest (s : Service) : Nat :=
  s.backend.answers.longest

-- How much the service has left to do. Every step lowers it.
def work (s : Service) : Nat :=
  s.workAt s.calls.size s.longest

-- Everything that is due within the given time happens, and the clock ends up just there.
def settle (s : Service) (ms : Nat) : Service :=
  (run s.work (some (s.now + ms)) s).advanceTo (s.now + ms)

-- Everything that is still to come happens.
def exhaust (s : Service) : Service :=
  run s.work none s

end GhostText.Service
