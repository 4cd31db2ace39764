import GhostText.Proofs.Service.Runs

namespace GhostText.Service

variable {s s' s'' : Service} {q q' : List Turn} {c r : Nat}

-- The second state is the first with some turns queued. The clock and the alarms, the backend, and what is only
-- noted or counted may differ, and so may the buffers.
structure Extends (q : List Turn) (s s' : Service) : Prop where
  settings   : s'.settings = s.settings
  sessions   : s'.sessions = s.sessions
  current    : s'.current = s.current
  dispatches : s'.dispatches = s.dispatches
  calls      : s'.calls = s.calls
  ready      : s'.ready = s.ready ++ q

namespace Extends

theorem refl (s : Service) : Extends [] s s :=
  ⟨rfl, rfl, rfl, rfl, rfl, by simp⟩

theorem trans (h₁ : Extends q s s') (h₂ : Extends q' s' s'') : Extends (q ++ q') s s'' where
  settings   := h₂.settings.trans h₁.settings
  sessions   := h₂.sessions.trans h₁.sessions
  current    := h₂.current.trans h₁.current
  dispatches := h₂.dispatches.trans h₁.dispatches
  calls      := h₂.calls.trans h₁.calls
  ready      := by rw [h₂.ready, h₁.ready, List.append_assoc]

theorem note (s : Service) (n : Notice) : Extends [] s (s.note n) :=
  ⟨rfl, rfl, rfl, rfl, rfl, by simp [Service.note]⟩

theorem noteAll (s : Service) (ns : List Notice) : Extends [] s (s.noteAll ns) := by
  rw [noteAll_eq]
  exact ⟨rfl, rfl, rfl, rfl, rfl, by simp⟩

theorem count (s : Service) (f : Stats → Stats) : Extends [] s (s.count f) :=
  ⟨rfl, rfl, rfl, rfl, rfl, by simp [Service.count]⟩

theorem cacheHit (s : Service) (p : Prediction) :
    Extends [] s ((s.count fun n => { n with cacheHits := n.cacheHits + 1 }).note (.cacheHit p.id p.status)) :=
  (count s _).trans (note _ _)

theorem setAlarm (s : Service) (delay : Nat) (b : Bell) : Extends [] s (s.setAlarm delay b) :=
  ⟨rfl, rfl, rfl, rfl, rfl, by simp [Service.setAlarm]⟩

theorem dropAlarm (s : Service) (b : Bell) : Extends [] s (s.dropAlarm b) :=
  ⟨rfl, rfl, rfl, rfl, rfl, by simp [Service.dropAlarm]⟩

theorem setBackend (s : Service) (b : Backend) : Extends [] s { s with backend := b } :=
  ⟨rfl, rfl, rfl, rfl, rfl, by simp⟩

theorem queue (s : Service) (t : Turn) : Extends [t] s (s.queue t) :=
  ⟨rfl, rfl, rfl, rfl, rfl, rfl⟩

theorem setDispatch (h : Extends q s s') (r : Nat) (d : Dispatch) :
    Extends q (s.setDispatch r d) (s'.setDispatch r d) where
  settings   := h.settings
  sessions   := h.sessions
  current    := h.current
  dispatches := by simp [Service.setDispatch, h.dispatches]
  calls      := h.calls
  ready      := h.ready

end Extends

-- The turns in which the calls that await a prediction learn of its result.
def told (s : Service) (r : Nat) : List Turn :=
  ((List.range s.calls.size).filter (s.awaits r)).map .relay

theorem lt_size_of_stage? {stage : Stage} (h : s.stage? c = some stage) : c < s.calls.size := by
  obtain ⟨_, hc, _⟩ := Option.map_eq_some_iff.mp h
  exact (Array.getElem?_eq_some_iff.mp hc).1

theorem told_congr (h : s'.calls = s.calls) (r : Nat) : s'.told r = s.told r := by
  have : s'.awaits r = s.awaits r := by
    funext c
    simp only [awaits, stage?, h]
  rw [told, told, this, h]

theorem awaits_iff : s.awaits r c = true ↔ ∃ i cursor own, s.stage? c = some (.awaiting i cursor r own) := by
  unfold awaits
  split <;> simp_all

theorem relay_mem_told_iff : .relay c ∈ s.told r ↔ s.awaits r c = true := by
  simp only [told, List.mem_map, List.mem_filter, List.mem_range, Turn.relay.injEq, exists_eq_right,
    and_iff_right_iff_imp]
  intro h
  obtain ⟨_, _, _, h⟩ := awaits_iff.mp h
  exact lt_size_of_stage? h

namespace Turn

-- The request that a turn is one of.
def request? : Turn → Option Nat
  | .startRequest r | .resumeRequest r | .startReading r | .resumeReading r | .readingOver r | .retire r => some r
  | .ring (.answer r) | .ring (.deadline r) => some r
  | _ => none

-- A turn of a call, or one that an alarm makes due.
def Outer (t : Turn) : Prop :=
  t.request? = none ∨ ∃ b, t = .ring b

-- Is there something left to do in the turn?
def isDue (d : Dispatch) : Turn → Prop
  | .startRequest _     => d.watch = .queued
  | .resumeRequest _    => d.watch = .watching true ∨ d.watch = .stopping true
  | .startReading _     => d.reading = .queued
  | .resumeReading _    => ∃ rest?, d.reading = .waiting true rest?
  | .readingOver _      => d.watch = .watching false ∨ d.watch = .stopping false
  | .retire _           => d.prediction.isPending = true
  | .ring (.answer _)   => ∃ rest?, d.reading = .waiting false rest?
  | .ring (.deadline _) => d.watch = .watching false
  | _                   => False

theorem not_isDue_resumeReading {d : Dispatch} (h : d.reading ≠ .waiting true none)
    (hsome : ∀ rest, d.reading ≠ .waiting true (some rest)) : ¬isDue d (.resumeReading r) := by
  rintro ⟨rest?, hr⟩
  cases rest?
  case none      => exact h hr
  case some rest => exact hsome rest hr

end Turn

-- How a turn of a request changes it, and the turns that are queued then. Whoever awaits its prediction is told of
-- the result.
inductive Life (r : Nat) (told : List Turn) : Turn → Dispatch → Dispatch → List Turn → Prop
  | idle {t : Turn} {d : Dispatch} (h : ¬t.isDue d) : Life r told t d d []
  | unsent {d : Dispatch} (hw : d.watch = .queued) (hc : d.cancelled = true) :
    Life r told (.startRequest r) d { d with watch := .ended } [.retire r]
  | watch {d : Dispatch} (hw : d.watch = .queued) (hc : d.cancelled = false) :
    Life r told (.startRequest r) d { d with watch := .watching false } [.startReading r]
  | settle {t : Turn} {d : Dispatch} {p : Prediction} {q : List Turn}
    (ht : t = .startRequest r ∨ t = .resumeRequest r) (hp : p.isPending = false)
    (hd : d.prediction.isPending = false → p = d.prediction) (hq : q = [] ∨ q = [.retire r]) :
    Life r told t d { d with prediction := p, watch := .ended } (told ++ q)
  | wait {t : Turn} {d : Dispatch} {p : Prediction} (ht : t = .startReading r ∨ t = .resumeReading r) (hd : t.isDue d)
    (hg : d.reading = .queued ∨ d.goesOn = true) (hp : p.stage = d.prediction.stage) (woken : Bool)
    (rest? : Option Delivery) :
    Life r told t d { d with prediction := p, reading := .waiting woken rest? }
      (if woken then [.resumeReading r] else [])
  | ended {t : Turn} {d : Dispatch} {p : Prediction} (ht : t = .startReading r ∨ t = .resumeReading r) (hd : t.isDue d)
    (hp : p.stage = d.prediction.stage) (fault : Option Fault) :
    Life r told t d { d with prediction := p, reading := .ended fault } [.readingOver r]
  | rouse {t : Turn} {d : Dispatch} (ht : t = .readingOver r ∨ t = .ring (.deadline r))
    (hw : d.watch = .watching false) :
    Life r told t d { d with watch := .watching true } [.resumeRequest r]
  | rouseStopping {d : Dispatch} (hw : d.watch = .stopping false) :
    Life r told (.readingOver r) d { d with watch := .stopping true } [.resumeRequest r]
  | stop {d : Dispatch} (hw : d.watch = .watching true) (hr : ∀ rest?, d.reading ≠ .waiting false rest?)
    (he : ∀ fault, d.reading ≠ .ended fault) :
    Life r told (.resumeRequest r) d { d with watch := .stopping false } []
  | stopWaiting {d : Dispatch} {rest? : Option Delivery} (hw : d.watch = .watching true)
    (hr : d.reading = .waiting false rest?) :
    Life r told (.resumeRequest r) d { d with watch := .stopping false, reading := .waiting true rest? }
      [.resumeReading r]
  | retire {d : Dispatch} {p : Prediction} (hd : d.prediction.isPending = true) (hp : p.isPending = false) :
    Life r told (.retire r) d { d with prediction := p } told
  | wake {d : Dispatch} {rest? : Option Delivery} (hr : d.reading = .waiting false rest?) :
    Life r told (.ring (.answer r)) d { d with reading := .waiting true rest? } [.resumeReading r]

theorem setDispatch_self {d : Dispatch} (h : s.dispatches[r]? = some d) : s.setDispatch r d = s := by
  obtain ⟨hr, he⟩ := Array.getElem?_eq_some_iff.mp h
  simp [setDispatch, Array.setIfInBounds, hr, ← he]

-- The second state is the first after a turn of a request.
def Lives (r : Nat) (t : Turn) (d : Dispatch) (s s' : Service) : Prop :=
  ∃ d' q, Life r (s.told r) t d d' q ∧ Extends q (s.setDispatch r d') s'

namespace Lives

variable {d d₀ : Dispatch} {p : Prediction} {t : Turn}

theorem idle_set (h : ¬t.isDue d) : Lives r t d s (s.setDispatch r d) :=
  ⟨d, [], .idle h, .refl _⟩

theorem idle (hs : s.dispatches[r]? = some d) (h : ¬t.isDue d) : Lives r t d s s := by
  have := idle_set (s := s) (r := r) h
  rwa [setDispatch_self hs] at this

-- What is noted before does not matter.
theorem of_extends (h₁ : Extends [] s s') (h₂ : Lives r t d s' s'') : Lives r t d s s'' := by
  obtain ⟨d', q, hl, he⟩ := h₂
  exact ⟨d', q, told_congr h₁.calls r ▸ hl, (h₁.setDispatch r d').trans he⟩

theorem conclude (ht : t = .startRequest r ∨ t = .resumeRequest r) (hq : q = [] ∨ q = [.retire r])
    (hp : p.isPending = false) (hd : d.prediction.isPending = false → p = d.prediction)
    (h : Extends q (s.conclude r d p) s') : Lives r t d s s' := by
  refine ⟨_, _, .settle ht hp hd hq, ?_⟩
  apply Extends.trans ?_ h
  have hr : Extends (s.told r) (s.setDispatch r { d with prediction := p, watch := .ended })
      (((s.setDispatch r { d with prediction := p, watch := .ended }).dropAlarm (.deadline r)).relayAll r) :=
    ⟨rfl, rfl, rfl, rfl, rfl, rfl⟩
  simp only [Service.conclude]
  split
  case h_1 => exact hr
  case h_2 => simpa using hr.trans ((Extends.count _ _).trans (.noteAll _ _))

theorem fail (ht : t = .startRequest r ∨ t = .resumeRequest r) (hq : q = [] ∨ q = [.retire r]) {cause : Failure}
    {message : Text} (h : Extends q (s.fail r d cause message) s') : Lives r t d s s' := by
  simp only [Service.fail, Prediction.fail?] at h
  by_cases hp : d.prediction.isPending = true
  case pos => exact conclude ht hq rfl (by simp [hp]) (by simpa [hp] using h)
  case neg => exact conclude ht hq (by simpa using hp) (fun _ => rfl) (by simpa [hp] using h)

theorem finish (ht : t = .startRequest r ∨ t = .resumeRequest r) : Lives r t d s (s.finish r d) := by
  simp only [Service.finish, Prediction.finish?]
  by_cases hp : d.prediction.isPending = true
  case pos => simpa [hp] using conclude ht (.inl rfl) (by simp [Prediction.isPending]) (by simp [hp]) (.refl _)
  case neg => simpa [hp] using conclude ht (.inl rfl) (by simpa using hp) (fun _ => rfl) (.refl _)

theorem failWith (ht : t = .startRequest r ∨ t = .resumeRequest r) (fault : Fault) :
    Lives r t d s (s.failWith r d fault) := by
  simp only [Service.failWith]
  split
  case h_1 => exact fail ht (.inl rfl) (.refl _)
  case h_2 => exact of_extends (.note s _) (fail ht (.inl rfl) (.refl _))

theorem endReading (ht : t = .startReading r ∨ t = .resumeReading r) (hd : t.isDue d)
    (hp : p.stage = d.prediction.stage) (fault : Option Fault) :
    Lives r t d s (s.endReading r { d with prediction := p } fault) :=
  ⟨_, _, .ended ht hd hp fault, .queue _ _⟩

theorem pauseReading (ht : t = .startReading r ∨ t = .resumeReading r) (hd : t.isDue d)
    (hg : d.reading = .queued ∨ d.goesOn = true) (hp : p.stage = d.prediction.stage) (rest? : Option Delivery)
    (pause : Nat) :
    Lives r t d s (s.pauseReading r { d with prediction := p } rest? pause) := by
  simp only [Service.pauseReading]
  split
  case h_1 => exact ⟨_, _, .wait ht hd hg hp true rest?, .queue _ _⟩
  case h_2 => exact ⟨_, _, .wait ht hd hg hp false rest?, .setAlarm _ _ _⟩

theorem readDelivery (ht : t = .startReading r ∨ t = .resumeReading r) (hd : t.isDue d)
    (hg : d.reading = .queued ∨ d.goesOn = true) (delivery : Delivery) :
    Lives r t d s (s.readDelivery r d delivery) := by
  have hs (chunk : Text) : (d.prediction.read chunk s.settings.breakBudget).1.stage = d.prediction.stage := by
    simp only [Prediction.read]
    split <;> rfl
  simp only [Service.readDelivery]
  split
  case h_1 fault => exact endReading ht hd rfl fault
  case h_2 chunk rest fault =>
    split
    case h_1 p hr =>
      have hp : p.stage = d.prediction.stage := by simpa [hr] using hs chunk.text
      exact of_extends (.note s _) (endReading ht hd hp none)
    case h_2 p hr =>
      have hp : p.stage = d.prediction.stage := by simpa [hr] using hs chunk.text
      exact pauseReading ht hd hg hp (some ⟨rest, fault⟩) chunk.pause

theorem receiveAnswer (ht : t = .startReading r ∨ t = .resumeReading r) (hd : t.isDue d)
    (hg : d.reading = .queued ∨ d.goesOn = true) : Lives r t d s (s.receiveAnswer r d) := by
  simp only [Service.receiveAnswer]
  have he := (Extends.setBackend s (s.backend.answer d.request).2).trans
    (.noteAll _ ((s.backend.answers.missed? d.request).map (Notice.unknownPlace ·)).toList)
  exact of_extends he (readDelivery ht hd hg _)

theorem giveUp (ht : t = .startReading r ∨ t = .resumeReading r) (hd : t.isDue d) :
    Lives r t d s (s.giveUp r d) :=
  of_extends (.setBackend s _) (endReading ht hd rfl none)

theorem awaitAnswer (hd : d.reading = .queued) (delay : Option Nat) :
    Lives r (.startReading r) d s (s.awaitAnswer r d delay) := by
  simp only [Service.awaitAnswer]
  split
  case h_1       => exact receiveAnswer (.inl rfl) hd (.inl hd)
  case h_2 delay => exact pauseReading (.inl rfl) hd (.inl hd) rfl none delay

theorem startReading (hs : s.dispatches[r]? = some d) : Lives r (.startReading r) d s (s.startReading r d) := by
  simp only [Service.startReading]
  split
  case h_1 hd => exact of_extends (.setBackend s _) (awaitAnswer hd _)
  case h_2 hd => exact idle hs (by simpa [Turn.isDue] using hd)

theorem resumeReading (hs : s.dispatches[r]? = some d) : Lives r (.resumeReading r) d s (s.resumeReading r d) := by
  simp only [Service.resumeReading]
  split
  case h_1 hd =>
    split
    case isTrue hg => exact receiveAnswer (.inr rfl) ⟨_, hd⟩ (.inr hg)
    case isFalse   => exact giveUp (.inr rfl) ⟨_, hd⟩
  case h_2 rest hd =>
    split
    case isTrue hg => exact readDelivery (.inr rfl) ⟨_, hd⟩ (.inr hg) rest
    case isFalse   => exact giveUp (.inr rfl) ⟨_, hd⟩
  case h_3 hnone hsome => exact idle hs (Turn.not_isDue_resumeReading hnone hsome)

theorem startRequest (hs : s.dispatches[r]? = some d) : Lives r (.startRequest r) d s (s.startRequest r d) := by
  simp only [Service.startRequest]
  split
  case h_1 hw =>
    split
    case isTrue hc => exact ⟨_, _, .unsent hw hc, .queue _ _⟩
    case isFalse hc =>
      split
      case isTrue  => exact failWith (.inl rfl) _
      case isFalse =>
        have hs := (Extends.setAlarm s s.settings.timeout.toNat (.deadline r)).setDispatch r
          { d with watch := .watching false }
        exact ⟨_, _, .watch hw (by simpa using hc), hs.trans (.queue _ _)⟩
  case h_2 hw => exact idle hs (by simpa [Turn.isDue] using hw)

theorem resumeRequest (hs : s.dispatches[r]? = some d) : Lives r (.resumeRequest r) d s (s.resumeRequest r d) := by
  simp only [Service.resumeRequest]
  split
  case h_1 hw =>
    split
    case h_1 fault _ =>
      cases fault
      case none => exact finish (.inr rfl)
      case some => exact failWith (.inr rfl) _
    case h_2 he =>
      simp only [Service.wake]
      split
      case h_1 hr => exact ⟨_, _, .stopWaiting hw hr, (Extends.dropAlarm _ _).trans (.queue _ _)⟩
      case h_2 hr => exact ⟨_, _, .stop hw hr he, .refl _⟩
  case h_2 hw =>
    simp only [Service.settleUnread]
    split
    case isTrue  => exact fail (.inr rfl) (.inr rfl) (.queue _ _)
    case isFalse => exact fail (.inr rfl) (.inl rfl) (.refl _)
  case h_3 h₁ h₂ => exact idle hs (by simpa [Turn.isDue] using ⟨h₁, h₂⟩)

theorem rouse (ht : t = .readingOver r ∨ t = .ring (.deadline r) ∧ d.watch = .watching false) :
    Lives r t d s (s.rouse r d) := by
  simp only [Service.rouse]
  split
  case h_1 hw => exact ⟨_, _, .rouse (ht.imp id (·.1)) hw, .queue _ _⟩
  case h_2 hw =>
    obtain rfl : t = .readingOver r := ht.resolve_right (by simp [hw])
    exact ⟨_, _, .rouseStopping hw, .queue _ _⟩
  case h_3 h₁ h₂ =>
    obtain rfl : t = .readingOver r := ht.resolve_right (fun h => h₁ h.2)
    exact idle_set (by simpa [Turn.isDue] using ⟨h₁, h₂⟩)

theorem expire (hs : s.dispatches[r]? = some d) : Lives r (.ring (.deadline r)) d s (s.expire r) := by
  simp only [Service.expire, hs]
  split
  case isTrue hw  => exact rouse (.inr ⟨rfl, hw⟩)
  case isFalse hw => exact idle hs hw

theorem answerComes (hs : s.dispatches[r]? = some d) : Lives r (.ring (.answer r)) d s (s.answerComes r) := by
  simp only [Service.answerComes, hs, Service.wake]
  split
  case h_1 hr => exact ⟨_, _, .wake hr, (Extends.dropAlarm _ _).trans (.queue _ _)⟩
  case h_2 hr => exact idle_set (by simpa [Turn.isDue] using hr)

theorem retire (hs : s.dispatches[r]? = some d) : Lives r (.retire r) d s (s.retire r d) := by
  simp only [Service.retire, Prediction.fail?]
  by_cases hp : d.prediction.isPending = true
  case pos => simpa [hp] using ⟨_, _, .retire hp rfl, ⟨rfl, rfl, rfl, rfl, rfl, rfl⟩⟩
  case neg => simpa [hp] using of_extends (.note s _) (idle hs (by simpa [Turn.isDue] using hp))

theorem takeTurn (ht : t.request? = some r) (hs : s.dispatches[r]? = some d) :
    Lives r t d s (s.takeTurn t) := by
  cases t
  case ring b =>
    cases b
    case call c => simp [Turn.request?] at ht
    all_goals obtain rfl := Option.some.inj ht
    case answer   => exact answerComes hs
    case deadline => exact expire hs
  all_goals simp only [Turn.request?, reduceCtorEq, Option.some.injEq] at ht
  all_goals
    subst ht
    simp only [Service.takeTurn, withDispatch, hs]
  case startRequest  => exact startRequest hs
  case resumeRequest => exact resumeRequest hs
  case startReading  => exact startReading hs
  case resumeReading => exact resumeReading hs
  case readingOver   => exact rouse (.inl rfl)
  case retire        => exact retire hs

end Lives

theorem takeTurn_of_none {t : Turn} (ht : t.request? = some r) (hs : s.dispatches[r]? = none) :
    s.takeTurn t = s := by
  cases t
  case ring b => cases b <;> simp_all [Turn.request?, takeTurn, ring, answerComes, expire]
  all_goals simp_all [Turn.request?, takeTurn, withDispatch]

end GhostText.Service
