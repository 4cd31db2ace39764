import GhostText.Service.Call

namespace GhostText.Service

def ring (s : Service) : Bell → Service
  | .call c     => s.queue (.resumeCall c)
  | .answer r   => s.answerComes r
  | .deadline r => s.expire r

def withCall (s : Service) (c : Nat) (f : Call → Service) : Service :=
  match s.calls[c]? with
  | some call => f call
  | none => s

def withDispatch (s : Service) (r : Nat) (f : Dispatch → Service) : Service :=
  match s.dispatches[r]? with
  | some d => f d
  | none => s

def takeTurn (s : Service) : Turn → Service
  | .startCall c     => s.withCall c (s.startCall c)
  | .resumeCall c    => s.withCall c (s.resumeCall c)
  | .relay c         => s.withCall c (s.relay c)
  | .startRequest r  => s.withDispatch r (s.startRequest r)
  | .resumeRequest r => s.withDispatch r (s.resumeRequest r)
  | .startReading r  => s.withDispatch r (s.startReading r)
  | .resumeReading r => s.withDispatch r (s.resumeReading r)
  | .readingOver r   => s.withDispatch r (s.rouse r)
  | .retire r        => s.withDispatch r (s.retire r)
  | .ring b          => s.ring b

-- The time of the next alarm.
def nextAlarm? (s : Service) : Option Nat :=
  (s.alarms.map (·.due)).min?

-- The turns in which the alarms ring that are due at a time.
def rings (s : Service) (time : Nat) : List Turn :=
  (s.settings.chime.order time (s.alarms.filter (·.due ≤ time))).map fun a => .ring a.bell

-- In whatever order they ring.
@[simp] theorem mem_rings_iff {s : Service} {time : Nat} {t : Turn} :
    t ∈ s.rings time ↔ ∃ a, (a ∈ s.alarms ∧ a.due ≤ time) ∧ .ring a.bell = t := by
  simp [rings, (s.settings.chime.perm time _).mem_iff]

-- Go on to a time and let the alarms that are due then ring.
def advanceTo (s : Service) (time : Nat) : Service :=
  { s with
    now := max s.now time
    ready := s.ready ++ s.rings time
    alarms := s.alarms.filter (time < ·.due) }

-- The next thing to happen, no later than a limit if there is one.
def step? (s : Service) (limit : Option Nat) : Option Service :=
  match s.ready with
  | t :: rest => some ({ s with ready := rest }.takeTurn t)
  | [] =>
    match s.nextAlarm? with
    | none => none
    | some time => if limit.all (time ≤ ·) then some (s.advanceTo time) else none

-- Take so many steps, or as many as there are.
def run : Nat → Option Nat → Service → Service
  | 0, _, s => s
  | fuel + 1, limit, s =>
    match s.step? limit with
    | none => s
    | some s => run fuel limit s

end GhostText.Service
