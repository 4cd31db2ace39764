import GhostText.Proofs.Service.Requests

namespace GhostText

-- How the prediction was settled.
def Prediction.outcome? (p : Prediction) : Option Outcome :=
  p.result?.map (·.outcome)

namespace Service

-- What is left once a turn of a request is over.
structure Deed where
  dispatch : Dispatch
  backend  : Backend
  -- is whoever awaits the prediction told of its result
  tells    : Bool := false
  -- the turns that are queued after those
  turns    : List Turn := []
  counted? : Option Outcome := none
  -- the delay of the alarm that is set, and what it is for
  set?     : Option (Nat × Bell) := none
  dropped? : Option Bell := none

def perform (s : Service) (r : Nat) (e : Deed) : Service :=
  { s with
    backend    := e.backend
    dispatches := s.dispatches.setIfInBounds r e.dispatch
    ready      := s.ready ++ ((if e.tells then s.told r else []) ++ e.turns)
    alarms     := e.dropped?.elim s.alarms (fun b => s.alarms.filter (·.bell ≠ b)) ++
      (e.set?.map fun x => ⟨s.now + x.1, x.2⟩).toList
    stats      := e.counted?.elim s.stats s.stats.count }

-- How a turn settles a prediction that is pending, and the turns that are queued then.
inductive Resolves (s : Service) (r : Nat) (d : Dispatch) : Turn → GhostText.Stage → List Turn → Prop
  | endless (hw : d.watch = .queued) (hc : d.cancelled = false) (message : Text) :
    Resolves s r d (.startRequest r) (.failed .error message s.now) []
  | read (hw : d.watch = .watching true) (hr : d.reading = .ended none) :
    Resolves s r d (.resumeRequest r) (.finished (storedText d.prediction) s.now) []
  | fault {fault : Fault} (hw : d.watch = .watching true) (hr : d.reading = .ended (some fault)) (message : Text) :
    Resolves s r d (.resumeRequest r) (.failed .error message s.now) []
  | cancelled (hw : d.watch = .stopping true) (message : Text) :
    Resolves s r d (.resumeRequest r) (.failed .cancelled message s.now) [.retire r]
  | late (hw : d.watch = .stopping true) (message : Text) :
    Resolves s r d (.resumeRequest r) (.failed .timeout message s.now) []

-- What a turn has to read, and the backend when it is known.
inductive Hears (s : Service) (r : Nat) (d : Dispatch) : Turn → Delivery → Backend → Prop
  | atOnce (hr : d.reading = .queued) (hb : s.backend.delay = none) :
    Hears s r d (.startReading r) ((s.backend.receive d.request).answer d.request).1
      ((s.backend.receive d.request).answer d.request).2
  | atLast (hr : d.reading = .waiting true none) :
    Hears s r d (.resumeReading r) (s.backend.answer d.request).1 (s.backend.answer d.request).2
  | rest {rest : Delivery} (hr : d.reading = .waiting true (some rest)) :
    Hears s r d (.resumeReading r) rest s.backend

-- How a reading comes to wait for the model, and what wakes it.
inductive Pauses (r : Nat) (rest? : Option Delivery) : Reading → List Turn → Option (Nat × Bell) → Prop
  | others : Pauses r rest? (.waiting true rest?) [.resumeReading r] none
  | delayed (delay : Nat) : Pauses r rest? (.waiting false rest?) [] (some (delay, .answer r))

-- What a turn makes of what it has to read.
inductive Reads (budget : Int) (r : Nat) (p : Prediction) :
    Delivery → Prediction → Reading → List Turn → Option (Nat × Bell) → Prop
  | nothing (fault : Option Fault) : Reads budget r p ⟨[], fault⟩ p (.ended fault) [.readingOver r] none
  | enough {p' : Prediction} {chunk : Chunk} (rest : List Chunk) (fault : Option Fault)
    (h : p.read chunk.text budget = (p', true)) :
    Reads budget r p ⟨chunk :: rest, fault⟩ p' (.ended none) [.readingOver r] none
  | chunk {p' : Prediction} {chunk : Chunk} {rest : List Chunk} {fault : Option Fault} {x : Reading} {q : List Turn}
    {set? : Option (Nat × Bell)} (h : p.read chunk.text budget = (p', false))
    (hw : Pauses r (some ⟨rest, fault⟩) x q set?) : Reads budget r p ⟨chunk :: rest, fault⟩ p' x q set?

inductive Does (s : Service) (r : Nat) : Turn → Dispatch → Deed → Prop
  | idle {t : Turn} {d : Dispatch} (h : ¬t.isDue d) : Does s r t d { dispatch := d, backend := s.backend }
  | unsent {d : Dispatch} (hw : d.watch = .queued) (hc : d.cancelled = true) :
    Does s r (.startRequest r) d
      { dispatch := { d with watch := .ended }, backend := s.backend, turns := [.retire r] }
  | watch {d : Dispatch} (hw : d.watch = .queued) (hc : d.cancelled = false) :
    Does s r (.startRequest r) d
      { dispatch := { d with watch := .watching false }, backend := s.backend, turns := [.startReading r],
        set? := some (s.settings.timeout.toNat, .deadline r) }
  | settle {t : Turn} {d : Dispatch} {stage : GhostText.Stage} {q : List Turn} (h : Resolves s r d t stage q)
    (hp : d.prediction.isPending = true) :
    Does s r t d
      { dispatch := { d with prediction := { d.prediction with stage }, watch := .ended }, backend := s.backend,
        tells := true, turns := q, counted? := ({ d.prediction with stage } : Prediction).outcome?,
        dropped? := some (.deadline r) }
  | wait {d : Dispatch} {x : Reading} {q : List Turn} {set? : Option (Nat × Bell)} (hr : d.reading = .queued)
    (hw : Pauses r none x q set?) :
    Does s r (.startReading r) d
      { dispatch := { d with reading := x }, backend := s.backend.receive d.request, turns := q, set? }
  | read {t : Turn} {d : Dispatch} {delivery : Delivery} {b : Backend} {p : Prediction} {x : Reading}
    {q : List Turn} {set? : Option (Nat × Bell)} (hh : Hears s r d t delivery b)
    (hr : Reads s.settings.breakBudget r d.prediction delivery p x q set?) :
    Does s r t d { dispatch := { d with prediction := p, reading := x }, backend := b, turns := q, set? }
  | giveUp {d : Dispatch} {rest? : Option Delivery} (hr : d.reading = .waiting true rest?) :
    Does s r (.resumeReading r) d
      { dispatch := { d with reading := .ended none }, backend := s.backend.giveUp, turns := [.readingOver r] }
  | rouse {t : Turn} {d : Dispatch} (ht : t = .readingOver r ∨ t = .ring (.deadline r))
    (hw : d.watch = .watching false) :
    Does s r t d
      { dispatch := { d with watch := .watching true }, backend := s.backend, turns := [.resumeRequest r] }
  | rouseStopping {d : Dispatch} (hw : d.watch = .stopping false) :
    Does s r (.readingOver r) d
      { dispatch := { d with watch := .stopping true }, backend := s.backend, turns := [.resumeRequest r] }
  | stop {d : Dispatch} (hw : d.watch = .watching true) (hr : ∀ rest?, d.reading ≠ .waiting false rest?) :
    Does s r (.resumeRequest r) d { dispatch := { d with watch := .stopping false }, backend := s.backend }
  | stopWaiting {d : Dispatch} {rest? : Option Delivery} (hw : d.watch = .watching true)
    (hr : d.reading = .waiting false rest?) :
    Does s r (.resumeRequest r) d
      { dispatch := { d with watch := .stopping false, reading := .waiting true rest? }, backend := s.backend,
        turns := [.resumeReading r], dropped? := some (.answer r) }
  | retire {d : Dispatch} (hp : d.prediction.isPending = true) (message : Text) :
    Does s r (.retire r) d
      { dispatch := { d with prediction := { d.prediction with stage := .failed .cancelled message s.now } },
        backend := s.backend, tells := true }
  | wake {d : Dispatch} {rest? : Option Delivery} (hr : d.reading = .waiting false rest?) :
    Does s r (.ring (.answer r)) d
      { dispatch := { d with reading := .waiting true rest? }, backend := s.backend, turns := [.resumeReading r],
        dropped? := some (.answer r) }

variable {s s' : Service} {r : Nat} {t : Turn} {d : Dispatch}

theorem Pauses.turns {rest? : Option Delivery} {x : Reading} {q : List Turn} {set? : Option (Nat × Bell)}
    (h : Pauses r rest? x q set?) : (∀ t ∈ q, t = .resumeReading r) ∧ ∀ a ∈ set?, a.2 = .answer r := by
  cases h <;> simp

theorem Reads.turns {budget : Int} {p p' : Prediction} {delivery : Delivery} {x : Reading} {q : List Turn}
    {set? : Option (Nat × Bell)} (h : Reads budget r p delivery p' x q set?) :
    (∀ t ∈ q, t = .resumeReading r ∨ t = .readingOver r) ∧ ∀ a ∈ set?, a.2 = .answer r := by
  cases h
  case chunk hw => exact ⟨fun t ht => .inl (hw.turns.1 t ht), hw.turns.2⟩
  all_goals simp

-- A turn of a request queues turns of that request, apart from those of the calls that await it.
theorem Does.turns {e : Deed} (h : Does s r t d e) : ∀ t' ∈ e.turns, t'.request? = some r := by
  cases h
  case settle hs => cases hs <;> simp [Turn.request?]
  case wait hw _ => intro t' ht; rw [hw.turns.1 t' ht]; rfl
  case read hr _ => intro t' ht; rcases hr.turns.1 t' ht with rfl | rfl <;> rfl
  all_goals simp [Turn.request?]

-- The alarms it sets and drops are those of the request.
theorem Does.bells {e : Deed} (h : Does s r t d e) :
    (∀ b ∈ e.dropped?, b = .answer r ∨ b = .deadline r) ∧ ∀ x ∈ e.set?, x.2 = .answer r ∨ x.2 = .deadline r := by
  cases h
  case wait hw _ => exact ⟨by simp, fun x hx => .inl (hw.turns.2 x hx)⟩
  case read hr _ => exact ⟨by simp, fun x hx => .inl (hr.turns.2 x hx)⟩
  all_goals simp

-- The turn does one of these, and something may be noted.
def Performs (r : Nat) (t : Turn) (d : Dispatch) (s s' : Service) : Prop :=
  ∃ e, Does s r t d e ∧ s' = { s.perform r e with notices := s'.notices }

namespace Performs

theorem of_does {e : Deed} (h : Does s r t d e) (hs : s' = { s.perform r e with notices := s'.notices }) :
    Performs r t d s s' :=
  ⟨e, h, hs⟩

theorem idle_set (h : ¬t.isDue d) : Performs r t d s (s.setDispatch r d) :=
  of_does (.idle h) (by simp [perform, setDispatch])

theorem idle (hs : s.dispatches[r]? = some d) (h : ¬t.isDue d) : Performs r t d s s := by
  have := idle_set (s := s) (r := r) h
  rwa [setDispatch_self hs] at this

-- What is noted before and after does not matter, and neither do the turns that come last.
theorem conclude {stage : GhostText.Stage} {q : List Turn} (h : Resolves s r d t stage q)
    (hp : d.prediction.isPending = true) (before : List Notice)
    (hs : s' = { ((s.noteAll before).conclude r d { d.prediction with stage }) with
      ready := ((s.noteAll before).conclude r d { d.prediction with stage }).ready ++ q }) : Performs r t d s s' := by
  have hr : ∃ result, ({ d.prediction with stage } : Prediction).result? = some result := by
    cases h <;> exact ⟨_, rfl⟩
  obtain ⟨result, hr⟩ := hr
  refine of_does (.settle h hp) ?_
  rw [hs]
  simp only [Service.conclude, hr, noteAll_eq, perform, Prediction.outcome?, Option.map_some]
  simp [setDispatch, dropAlarm, relayAll, Service.count]
  rfl

theorem fail {cause : Failure} {message : Text} {q : List Turn}
    (h : Resolves s r d t (.failed cause message s.now) q) (hp : d.prediction.isPending = true) (before : List Notice)
    (hs : s' = { ((s.noteAll before).fail r d cause message) with
      ready := ((s.noteAll before).fail r d cause message).ready ++ q }) : Performs r t d s s' := by
  refine conclude h hp before ?_
  have hn : (s.noteAll before).now = s.now := by rw [noteAll_eq]
  simpa only [Service.fail, Prediction.fail?, hp, if_true, hn] using hs

theorem finish (h : Resolves s r d t (.finished (storedText d.prediction) s.now) [])
    (hp : d.prediction.isPending = true) : Performs r t d s (s.finish r d) := by
  refine conclude h hp [] ?_
  simp [Service.finish, Prediction.finish?, hp, noteAll]

theorem failWith (h : ∀ message, Resolves s r d t (.failed .error message s.now) [])
    (hp : d.prediction.isPending = true) (fault : Fault) : Performs r t d s (s.failWith r d fault) := by
  simp only [Service.failWith]
  split
  case h_1 message provider => exact fail (h (Fault.request message provider).message) hp [] (by simp [noteAll])
  case h_2                  => exact fail (h fault.describe) hp [.raised s.backend.name fault] (by simp [noteAll])

theorem readDelivery {b : Backend} {delivery : Delivery} (h : Hears s r d t delivery b) (before : List Notice) :
    Performs r t d s ((({ s with backend := b } : Service).noteAll before).readDelivery r d delivery) := by
  rw [noteAll_eq]
  simp only [Service.readDelivery]
  split
  case h_1 fault =>
    exact of_does (.read h (.nothing fault)) (by simp [endReading, perform, setDispatch, queue])
  case h_2 chunk rest fault =>
    split
    case h_1 p hr =>
      exact of_does (.read h (.enough rest fault hr)) (by simp [endReading, perform, setDispatch, queue, note])
    case h_2 p hr =>
      simp only [pauseReading]
      split
      case h_1 => exact of_does (.read h (.chunk hr .others)) (by simp [perform, setDispatch, queue])
      case h_2 => exact of_does (.read h (.chunk hr (.delayed chunk.pause))) (by simp [perform, setDispatch, setAlarm])

theorem receiveAnswer {b : Backend} (h : Hears s r d t (b.answer d.request).1 (b.answer d.request).2) :
    Performs r t d s (({ s with backend := b } : Service).receiveAnswer r d) :=
  readDelivery h _

theorem startReading (hs : s.dispatches[r]? = some d) : Performs r (.startReading r) d s (s.startReading r d) := by
  simp only [Service.startReading]
  split
  case h_2 hd => exact idle hs (by simpa [Turn.isDue] using hd)
  case h_1 hd =>
    simp only [awaitAnswer]
    split
    case h_1 hb      => exact receiveAnswer (.atOnce hd hb)
    case h_2 delay _ =>
      simp only [pauseReading]
      split
      case h_1 => exact of_does (.wait hd .others) (by simp [perform, setDispatch, queue])
      case h_2 => exact of_does (.wait hd (.delayed delay)) (by simp [perform, setDispatch, setAlarm])

theorem giveUp {rest? : Option Delivery} (hr : d.reading = .waiting true rest?) :
    Performs r (.resumeReading r) d s (s.giveUp r d) :=
  of_does (.giveUp hr) (by simp [Service.giveUp, endReading, perform, setDispatch, queue])

theorem resumeReading (hs : s.dispatches[r]? = some d) :
    Performs r (.resumeReading r) d s (s.resumeReading r d) := by
  simp only [Service.resumeReading]
  split
  case h_1 hd =>
    split
    case isTrue  => exact receiveAnswer (.atLast hd)
    case isFalse => exact giveUp hd
  case h_2 rest hd =>
    split
    case isTrue  => exact readDelivery (.rest hd) []
    case isFalse => exact giveUp hd
  case h_3 hnone hsome => exact idle hs (Turn.not_isDue_resumeReading hnone hsome)

variable (hp : d.watch ≠ .ended → d.prediction.isPending = true)
include hp

theorem startRequest (hs : s.dispatches[r]? = some d) : Performs r (.startRequest r) d s (s.startRequest r d) := by
  simp only [Service.startRequest]
  split
  case h_2 hw => exact idle hs (by simpa [Turn.isDue] using hw)
  case h_1 hw =>
    split
    case isTrue hc => exact of_does (.unsent hw hc) (by simp [perform, setDispatch, queue])
    case isFalse hc =>
      split
      case isTrue  => exact failWith (.endless hw (by simpa using hc)) (hp (by simp [hw])) _
      case isFalse =>
        exact of_does (.watch hw (by simpa using hc)) (by simp [watchOver, perform, setDispatch, queue, setAlarm])

theorem resumeRequest (hs : s.dispatches[r]? = some d) :
    Performs r (.resumeRequest r) d s (s.resumeRequest r d) := by
  simp only [Service.resumeRequest]
  split
  case h_3 h₁ h₂ => exact idle hs (by simpa [Turn.isDue] using ⟨h₁, h₂⟩)
  case h_1 hw =>
    have hp := hp (by simp [hw])
    split
    case h_1 fault hr =>
      cases fault
      case none => exact finish (.read hw hr) hp
      case some => exact failWith (.fault hw hr) hp _
    case h_2 he =>
      simp only [Service.wake]
      split
      case h_1 hr => exact of_does (.stopWaiting hw hr) (by simp [perform, setDispatch, queue, dropAlarm])
      case h_2 hr => exact of_does (.stop hw hr) (by simp [perform, setDispatch])
  case h_2 hw =>
    have hp := hp (by simp [hw])
    simp only [settleUnread]
    split
    case isTrue  => exact fail (.cancelled hw "Aborted autocomplete".toList) hp [] (by simp [noteAll, queue])
    case isFalse => exact fail (.late hw "Timeout receiving message to LLM.".toList) hp [] (by simp [noteAll])

omit hp

theorem rouse (ht : t = .readingOver r ∨ t = .ring (.deadline r) ∧ d.watch = .watching false) :
    Performs r t d s (s.rouse r d) := by
  simp only [Service.rouse]
  split
  case h_1 hw => exact of_does (.rouse (ht.imp id (·.1)) hw) (by simp [perform, setDispatch, queue])
  case h_2 hw =>
    obtain rfl : t = .readingOver r := ht.resolve_right (by simp [hw])
    exact of_does (.rouseStopping hw) (by simp [perform, setDispatch, queue])
  case h_3 h₁ h₂ =>
    obtain rfl : t = .readingOver r := ht.resolve_right (fun h => h₁ h.2)
    exact idle_set (by simpa [Turn.isDue] using ⟨h₁, h₂⟩)

theorem retire (hs : s.dispatches[r]? = some d) : Performs r (.retire r) d s (s.retire r d) := by
  simp only [Service.retire, Prediction.fail?]
  by_cases hp : d.prediction.isPending = true
  case pos =>
    refine of_does (.retire hp "Aborted autocomplete".toList) ?_
    simp only [hp, if_true, perform]
    simp [setDispatch, relayAll]
    rfl
  case neg =>
    have hd : s.dispatches.setIfInBounds r d = s.dispatches := congrArg (·.dispatches) (setDispatch_self hs)
    exact of_does (.idle (by simpa [Turn.isDue] using hp)) (by simp [hp, note, perform, hd])

theorem expire (hs : s.dispatches[r]? = some d) : Performs r (.ring (.deadline r)) d s (s.expire r) := by
  simp only [Service.expire, hs]
  split
  case isTrue hw  => exact rouse (.inr ⟨rfl, hw⟩)
  case isFalse hw => exact idle hs hw

theorem answerComes (hs : s.dispatches[r]? = some d) : Performs r (.ring (.answer r)) d s (s.answerComes r) := by
  simp only [Service.answerComes, hs, Service.wake]
  split
  case h_1 hr => exact of_does (.wake hr) (by simp [perform, setDispatch, dropAlarm, queue])
  case h_2 hr => exact idle_set (by simpa [Turn.isDue] using hr)

-- No request that has not ended has its result.
theorem takeTurn (ht : t.request? = some r) (hs : s.dispatches[r]? = some d)
    (hp : d.watch ≠ .ended → d.prediction.isPending = true) : Performs r t d s (s.takeTurn t) := by
  cases t
  case ring b =>
    cases b
    case call c => simp [Turn.request?] at ht
    all_goals obtain rfl := Option.some.inj ht
    case answer   => exact answerComes hs
    case deadline => exact expire hs
  all_goals simp only [Turn.request?, reduceCtorEq, Option.some.injEq] at ht
  all_goals
    subst ht
    simp only [Service.takeTurn, withDispatch, hs]
  case startRequest  => exact startRequest hp hs
  case resumeRequest => exact resumeRequest hp hs
  case startReading  => exact startReading hs
  case resumeReading => exact resumeReading hs
  case readingOver   => exact rouse (.inl rfl)
  case retire        => exact retire hs

end Performs
end Service
end GhostText
