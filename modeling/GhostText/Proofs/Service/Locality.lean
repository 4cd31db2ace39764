import GhostText.Proofs.Service.Stopping
import GhostText.Service.Editor

namespace GhostText

-- The prediction as it was when the request was made.
def Prediction.asked (p : Prediction) : Prediction :=
  { p with stage := .pending, rawText := [], breaksRead := 0 }

-- What may become of a prediction: it is settled once.
structure Prediction.Ages (p p' : Prediction) : Prop where
  asked   : p'.asked = p.asked
  settled : p.isPending = false → p'.stage = p.stage

namespace Prediction.Ages

variable {p p' p'' : Prediction}

theorem refl (p : Prediction) : Ages p p :=
  ⟨rfl, fun _ => rfl⟩

theorem isPending (h : Ages p p') (hp : p.isPending = false) : p'.isPending = false := by
  rwa [Prediction.isPending, h.settled hp, ← Prediction.isPending]

theorem trans (h₁ : Ages p p') (h₂ : Ages p' p'') : Ages p p'' where
  asked   := h₂.asked.trans h₁.asked
  settled := fun hp => (h₂.settled (h₁.isPending hp)).trans (h₁.settled hp)

theorem finish {text : Text} {time : Int} (h : p.finish? text time = some p') : Ages p p' := by
  simp only [finish?] at h
  split at h
  case isFalse   => simp at h
  case isTrue hp =>
    obtain rfl := Option.some.inj h
    exact ⟨rfl, fun hn => by simp [hp] at hn⟩

theorem fail {cause : Failure} {message : Text} {time : Int} (h : p.fail? cause message time = some p') :
    Ages p p' := by
  simp only [fail?] at h
  split at h
  case isFalse   => simp at h
  case isTrue hp =>
    obtain rfl := Option.some.inj h
    exact ⟨rfl, fun hn => by simp [hp] at hn⟩

theorem read (p : Prediction) (chunk : Text) (budget : Int) : Ages p (p.read chunk budget).1 := by
  simp only [Prediction.read]
  split <;> exact ⟨rfl, fun _ => rfl⟩

theorem before (h : Ages p p') : p'.before = p.before :=
  congrArg (·.before) h.asked

variable (h : Ages p p') (hp : p.isPending = false)
include h hp

theorem status : p'.status = p.status := by
  rw [Prediction.status, h.settled hp, Prediction.status]

theorem insertText : p'.insertText = p.insertText := by
  rw [Prediction.insertText, h.settled hp, Prediction.insertText]

-- A settled prediction is shown as before.
theorem completion (rule : RepeatRule) (c : Cursor) (pos : Position) (typed : Int) :
    Completion.of rule p' c pos typed = Completion.of rule p c pos typed := by
  have he : p' = { p with rawText := p'.rawText, breaksRead := p'.breaksRead } := by
    have ha := h.asked
    have hs := h.settled hp
    cases p
    cases p'
    simp_all [Prediction.asked]
  rw [he]
  rfl

end Prediction.Ages

theorem Prediction.isPending_of_status {p : Prediction} (h : p.status ≠ .pending) : p.isPending = false := by
  cases hs : p.stage <;> simp_all [status, isPending]

namespace Service

variable {s s' s'' : Service} {c i r : Nat} {d : Dispatch} {p : Prediction}

-- The session in which a call waits.
def Stage.session? : Stage → Option Nat
  | .debouncing i .. | .gathering i .. | .awaiting i .. => some i
  | _ => none

-- Turns are queued, but none that starts a call.
def StartsNone (s s' : Service) : Prop :=
  ∃ q, s'.ready = s.ready ++ q ∧ ∀ c, .startCall c ∉ q

theorem StartsNone.of_eq (h : s'.ready = s.ready) : StartsNone s s' :=
  ⟨[], by simp [h]⟩

theorem StartsNone.trans (h₁ : StartsNone s s') (h₂ : StartsNone s' s'') : StartsNone s s'' := by
  obtain ⟨q, hq, hn⟩ := h₁
  obtain ⟨q', hq', hn'⟩ := h₂
  exact ⟨q ++ q', by rw [hq', hq, List.append_assoc], fun c => by simp [hn c, hn' c]⟩

theorem StartsNone.count_startCall (h : StartsNone s s') (c : Nat) :
    s'.ready.count (.startCall c) = s.ready.count (.startCall c) := by
  obtain ⟨q, hq, hn⟩ := h
  rw [hq, List.count_append, List.count_eq_zero.mpr (hn c), Nat.add_zero]

-- Nothing changes but one call, one session, and the requests as they go on. No call is started.
structure Within (c i : Nat) (s s' : Service) : Prop where
  settings   : s'.settings = s.settings
  buffers    : s'.buffers = s.buffers
  opened     : s'.opened = s.opened
  current    : s'.current = s.current
  calls      : ∀ k : Nat, s'.calls[k]? = s.calls[k]? ∨ k = c ∧
    ∃ stage : Stage, (∀ j ∈ stage.session?, j = i) ∧ s'.calls[k]? = s.calls[k]?.map ({ · with stage })
  sessions   : ∀ j : Nat, j ≠ i → s'.sessions[j]? = s.sessions[j]?
  size       : s'.sessions.size = s.sessions.size
  dispatches : ∀ (r : Nat) (d : Dispatch), s.dispatches[r]? = some d →
    ∃ d' : Dispatch, s'.dispatches[r]? = some d' ∧ d'.call = d.call ∧ d.prediction.Ages d'.prediction
  sent       : ∀ (r : Nat) (d : Dispatch), s'.dispatches[r]? = some d → s.dispatches[r]? = none →
    d.call = c ∧ d.prediction.id = r
  ready      : StartsNone s s'

-- The request may come to be this.
def Becomes (s : Service) (r : Nat) (d : Dispatch) : Prop :=
  ∃ d₀ : Dispatch, s.dispatches[r]? = some d₀ ∧ d.call = d₀.call ∧ d₀.prediction.Ages d.prediction

namespace Becomes

theorem refl (h : s.dispatches[r]? = some d) : s.Becomes r d :=
  ⟨d, h, rfl, .refl _⟩

variable (h : s.Becomes r d)
include h

theorem ages (ha : d.prediction.Ages p) : s.Becomes r { d with prediction := p } := by
  obtain ⟨d₀, h₀, hc₀, ha₀⟩ := h
  exact ⟨d₀, h₀, hc₀, ha₀.trans ha⟩

theorem watch (w : Watch) : s.Becomes r { d with watch := w } :=
  h

theorem reading (x : Reading) : s.Becomes r { d with reading := x } :=
  h

theorem cancelled (b : Bool) : s.Becomes r { d with cancelled := b } :=
  h

end Becomes

namespace Within

theorem refl (s : Service) : Within c i s s where
  settings   := rfl
  buffers    := rfl
  opened     := rfl
  current    := rfl
  calls      := fun _ => .inl rfl
  sessions   := fun _ _ => rfl
  size       := rfl
  dispatches := fun _ d hd => ⟨d, hd, rfl, .refl _⟩
  sent       := fun _ _ hd hn => by simp [hn] at hd
  ready      := .of_eq rfl

theorem trans (h₁ : Within c i s s') (h₂ : Within c i s' s'') : Within c i s s'' where
  settings   := h₂.settings.trans h₁.settings
  buffers    := h₂.buffers.trans h₁.buffers
  opened     := h₂.opened.trans h₁.opened
  current    := h₂.current.trans h₁.current
  calls      := fun k => by
    rcases h₂.calls k with he₂ | ⟨hk, stage, hi, he₂⟩
    case inl => exact he₂ ▸ h₁.calls k
    case inr =>
      refine .inr ⟨hk, stage, hi, ?_⟩
      rcases h₁.calls k with he₁ | ⟨_, _, _, he₁⟩ <;> rw [he₂, he₁]
      case inr => rw [Option.map_map]; rfl
  sessions   := fun j hj => (h₂.sessions j hj).trans (h₁.sessions j hj)
  size       := h₂.size.trans h₁.size
  dispatches := fun r d hd => by
    obtain ⟨d', hd', hc, ha⟩ := h₁.dispatches r d hd
    obtain ⟨d'', hd'', hc', ha'⟩ := h₂.dispatches r d' hd'
    exact ⟨d'', hd'', hc'.trans hc, ha.trans ha'⟩
  sent       := fun r d hd hn => by
    cases hd' : s'.dispatches[r]?
    case none    => exact h₂.sent r d hd hd'
    case some d' =>
      obtain ⟨hc, hid⟩ := h₁.sent r d' hd' hn
      obtain ⟨d'', hd'', hc', ha⟩ := h₂.dispatches r d' hd'
      obtain rfl := Option.some.inj (hd ▸ hd'')
      exact ⟨hc'.trans hc, (congrArg (·.id) ha.asked).trans hid⟩
  ready      := h₁.ready.trans h₂.ready

-- Some turns are queued, and no call, session or request changes.
theorem of_eq (h₁ : s'.settings = s.settings) (h₂ : s'.buffers = s.buffers) (h₃ : s'.opened = s.opened)
    (h₄ : s'.current = s.current) (h₅ : s'.calls = s.calls) (h₆ : s'.sessions = s.sessions)
    (h₇ : s'.dispatches = s.dispatches) (h₈ : StartsNone s s') : Within c i s s' where
  settings   := h₁
  buffers    := h₂
  opened     := h₃
  current    := h₄
  calls      := fun _ => .inl (by rw [h₅])
  sessions   := fun _ _ => by rw [h₆]
  size       := by rw [h₆]
  dispatches := fun _ d hd => ⟨d, h₇ ▸ hd, rfl, .refl _⟩
  sent       := fun _ _ hd hn => by simp [← h₇, hd] at hn
  ready      := h₈

theorem note (s : Service) (n : Notice) : Within c i s (s.note n) :=
  of_eq rfl rfl rfl rfl rfl rfl rfl (.of_eq rfl)

theorem noteAll (s : Service) (ns : List Notice) : Within c i s (s.noteAll ns) := by
  rw [noteAll_eq]
  exact of_eq rfl rfl rfl rfl rfl rfl rfl (.of_eq rfl)

theorem count (s : Service) (f : Stats → Stats) : Within c i s (s.count f) :=
  of_eq rfl rfl rfl rfl rfl rfl rfl (.of_eq rfl)

theorem setAlarm (s : Service) (delay : Nat) (b : Bell) : Within c i s (s.setAlarm delay b) :=
  of_eq rfl rfl rfl rfl rfl rfl rfl (.of_eq rfl)

theorem dropAlarm (s : Service) (b : Bell) : Within c i s (s.dropAlarm b) :=
  of_eq rfl rfl rfl rfl rfl rfl rfl (.of_eq rfl)

theorem setBackend (s : Service) (b : Backend) : Within c i s { s with backend := b } :=
  of_eq rfl rfl rfl rfl rfl rfl rfl (.of_eq rfl)

theorem queue (s : Service) (t : Turn) (ht : ∀ k, t ≠ .startCall k) : Within c i s (s.queue t) :=
  of_eq rfl rfl rfl rfl rfl rfl rfl ⟨[t], rfl, fun k => by simpa using (ht k).symm⟩

theorem relayAll (s : Service) (r : Nat) : Within c i s (s.relayAll r) :=
  of_eq rfl rfl rfl rfl rfl rfl rfl ⟨_, rfl, fun k => by simp⟩

theorem resumeAfter (s : Service) (delay k : Nat) : Within c i s (s.resumeAfter delay k) := by
  simp only [Service.resumeAfter]
  split
  case isTrue  => exact queue s _ (by simp)
  case isFalse => exact setAlarm s _ _

theorem setCall {stage : Stage} (hi : ∀ j ∈ stage.session?, j = i) : Within c i s (s.setCall c stage) where
  settings   := rfl
  buffers    := rfl
  opened     := rfl
  current    := rfl
  calls      := fun k => by
    rw [Service.setCall, Array.getElem?_modify]
    split
    case isTrue hk  => exact .inr ⟨hk.symm, stage, hi, rfl⟩
    case isFalse    => exact .inl rfl
  sessions   := fun _ _ => rfl
  size       := rfl
  dispatches := fun _ d hd => ⟨d, hd, rfl, .refl _⟩
  sent       := fun _ _ hd hn => by simp [Service.setCall, hn] at hd
  ready      := .of_eq rfl

theorem setSession (session : Session) : Within c i s (s.setSession i session) where
  settings   := rfl
  buffers    := rfl
  opened     := rfl
  current    := rfl
  calls      := fun _ => .inl rfl
  sessions   := fun j hj => by simp [Service.setSession, Ne.symm hj]
  size       := by simp [Service.setSession]
  dispatches := fun _ d hd => ⟨d, hd, rfl, .refl _⟩
  sent       := fun _ _ hd hn => by simp [Service.setSession, hn] at hd
  ready      := .of_eq rfl

theorem addDispatch (hc : d.call = c) (hid : d.prediction.id = s.dispatches.size) :
    Within c i s (s.addDispatch d) where
  settings   := rfl
  buffers    := rfl
  opened     := rfl
  current    := rfl
  calls      := fun _ => .inl rfl
  sessions   := fun _ _ => rfl
  size       := rfl
  dispatches := fun r d' hd => by
    have hlt := (Array.getElem?_eq_some_iff.mp hd).1
    exact ⟨d', by simp [Service.addDispatch, Array.getElem?_push, Nat.ne_of_lt hlt, hd], rfl, .refl _⟩
  sent       := fun r d' hd hn => by
    rw [Service.addDispatch, Array.getElem?_push] at hd
    split at hd
    case isTrue hr => exact Option.some.inj hd ▸ ⟨hc, hr ▸ hid⟩
    case isFalse   => simp [hn] at hd
  ready      := .of_eq rfl

theorem setDispatch (h : s.Becomes r d) : Within c i s (s.setDispatch r d) where
  settings   := rfl
  buffers    := rfl
  opened     := rfl
  current    := rfl
  calls      := fun _ => .inl rfl
  sessions   := fun _ _ => rfl
  size       := rfl
  dispatches := fun j d' hd => by
    obtain ⟨d₀, h, hc, ha⟩ := h
    have hlt := (Array.getElem?_eq_some_iff.mp h).1
    by_cases hj : r = j
    case neg => exact ⟨d', by simp [Service.setDispatch, hj, hd], rfl, .refl _⟩
    case pos =>
      subst hj
      obtain rfl := Option.some.inj (h ▸ hd)
      exact ⟨d, by simp [Service.setDispatch, hlt], hc, ha⟩
  sent       := fun j d' hd hn => by
    rw [Service.setDispatch, Array.getElem?_setIfInBounds] at hd
    split at hd
    case isFalse   => simp [hn] at hd
    case isTrue hj =>
      obtain ⟨_, h, _⟩ := h
      simp [← hj, h] at hn
  ready      := .of_eq rfl

theorem conclude (h : s.Becomes r d) (ha : d.prediction.Ages p) : Within c i s (s.conclude r d p) := by
  have hs : Within c i s (((s.setDispatch r { d with prediction := p, watch := .ended }).dropAlarm
      (.deadline r)).relayAll r) := by
    exact trans (trans (setDispatch ((h.ages ha).watch _)) (dropAlarm _ _)) (relayAll _ r)
  simp only [Service.conclude]
  split
  case h_1 => exact hs
  case h_2 => exact hs.trans ((count _ _).trans (noteAll _ _))

theorem fail (h : s.Becomes r d) (cause : Failure) (message : Text) : Within c i s (s.fail r d cause message) := by
  simp only [Service.fail]
  split
  case h_1 hp => exact conclude h (.fail hp)
  case h_2    => exact conclude h (.refl _)

theorem finish (h : s.Becomes r d) : Within c i s (s.finish r d) := by
  simp only [Service.finish]
  split
  case h_1 hp => exact conclude h (.finish hp)
  case h_2    => exact conclude h (.refl _)

theorem failWith (h : s.Becomes r d) (fault : Fault) : Within c i s (s.failWith r d fault) := by
  simp only [Service.failWith]
  split
  case h_1 => exact fail h _ _
  case h_2 =>
    refine (note s _).trans (fail ?_ _ _)
    exact h

theorem endReading (h : s.Becomes r d) (fault : Option Fault) : Within c i s (s.endReading r d fault) :=
  trans (setDispatch (h.reading _)) (queue _ _ (by simp))

theorem pauseReading (h : s.Becomes r d) (rest? : Option Delivery) (pause : Nat) :
    Within c i s (s.pauseReading r d rest? pause) := by
  simp only [Service.pauseReading]
  split
  case h_1 => exact trans (setDispatch (h.reading _)) (queue _ _ (by simp))
  case h_2 => exact trans (setDispatch (h.reading _)) (setAlarm _ _ _)

theorem readDelivery (h : s.Becomes r d) (delivery : Delivery) : Within c i s (s.readDelivery r d delivery) := by
  simp only [Service.readDelivery]
  split
  case h_1 => exact endReading h _
  case h_2 chunk rest fault =>
    have ha := Prediction.Ages.read d.prediction chunk.text s.settings.breakBudget
    split
    case h_1 p hp =>
      rw [hp] at ha
      refine (note s _).trans (endReading ?_ none)
      exact h.ages ha
    case h_2 p hp =>
      rw [hp] at ha
      exact pauseReading (h.ages ha) _ _

theorem receiveAnswer (h : s.Becomes r d) : Within c i s (s.receiveAnswer r d) := by
  simp only [Service.receiveAnswer]
  refine ((setBackend s (s.backend.answer d.request).2).trans (noteAll _ _)).trans (readDelivery ?_ _)
  rwa [Becomes, dispatches_noteAll]

theorem awaitAnswer (h : s.Becomes r d) (delay : Option Nat) : Within c i s (s.awaitAnswer r d delay) := by
  simp only [Service.awaitAnswer]
  split
  case h_1 => exact receiveAnswer h
  case h_2 => exact pauseReading h none _

theorem startReading (h : s.Becomes r d) : Within c i s (s.startReading r d) := by
  simp only [Service.startReading]
  split
  case h_1 =>
    refine (setBackend s _).trans (awaitAnswer ?_ _)
    exact h
  case h_2 => exact refl s

theorem giveUp (h : s.Becomes r d) : Within c i s (s.giveUp r d) := by
  refine (setBackend s _).trans (endReading ?_ none)
  exact h

theorem resumeReading (h : s.Becomes r d) : Within c i s (s.resumeReading r d) := by
  simp only [Service.resumeReading]
  split
  case h_1 => split <;> first | exact receiveAnswer h | exact giveUp h
  case h_2 => split <;> first | exact readDelivery h _ | exact giveUp h
  case h_3 => exact refl s

theorem wake (h : s.Becomes r d) : Within c i s (s.wake r d) := by
  simp only [Service.wake]
  split
  case h_1 => exact trans (trans (setDispatch (h.reading _)) (dropAlarm _ _)) (queue _ _ (by simp))
  case h_2 => exact setDispatch h

theorem rouse (h : s.Becomes r d) : Within c i s (s.rouse r d) := by
  simp only [Service.rouse]
  split
  case h_1 => exact trans (setDispatch (h.watch _)) (queue _ _ (by simp))
  case h_2 => exact trans (setDispatch (h.watch _)) (queue _ _ (by simp))
  case h_3 => exact setDispatch h

theorem startRequest (h : s.Becomes r d) : Within c i s (s.startRequest r d) := by
  simp only [Service.startRequest]
  split
  case h_2 => exact refl s
  case h_1 =>
    split
    case isTrue  => exact trans (setDispatch (h.watch _)) (queue _ _ (by simp))
    case isFalse =>
      split
      case isTrue  => exact failWith h _
      case isFalse => exact (setAlarm s _ _).trans (trans (setDispatch (h.watch _)) (queue _ _ (by simp)))

theorem resumeRequest (h : s.Becomes r d) : Within c i s (s.resumeRequest r d) := by
  simp only [Service.resumeRequest]
  split
  case h_1 =>
    split
    case h_1 fault _ =>
      cases fault
      case none => exact finish h
      case some => exact failWith h _
    case h_2 => exact wake (h.watch _)
  case h_2 =>
    simp only [Service.settleUnread]
    split
    case isTrue  => exact (fail h _ _).trans (queue _ _ (by simp))
    case isFalse => exact fail h _ _
  case h_3 => exact refl s

theorem retire (h : s.Becomes r d) : Within c i s (s.retire r d) := by
  simp only [Service.retire]
  split
  case h_1 hp =>
    exact trans (setDispatch (h.ages (.fail hp))) (relayAll _ r)
  case h_2    => exact note s _

theorem cancelRequest (s : Service) (r : Nat) : Within c i s (s.cancelRequest r) := by
  simp only [Service.cancelRequest]
  split
  case h_1      => exact refl s
  case h_2 d hd =>
    split
    case isTrue  => exact rouse ((Becomes.refl hd).cancelled true)
    case isFalse => exact refl s

theorem expire (s : Service) (r : Nat) : Within c i s (s.expire r) := by
  simp only [Service.expire]
  split
  case h_1      => exact refl s
  case h_2 d hd =>
    split
    case isTrue  => exact rouse (.refl hd)
    case isFalse => exact refl s

theorem answerComes (s : Service) (r : Nat) : Within c i s (s.answerComes r) := by
  simp only [Service.answerComes]
  split
  case h_1      => exact refl s
  case h_2 d hd => exact wake (.refl hd)

theorem withDispatch {f : Dispatch → Service} (hf : ∀ d, s.Becomes r d → Within c i s (f d)) :
    Within c i s (s.withDispatch r f) := by
  simp only [Service.withDispatch]
  split
  case h_1 hd => exact hf _ (.refl hd)
  case h_2    => exact refl s

-- A turn of a request changes no call and no session.
theorem takeTurn_of_request {t : Turn} (h : t.request? = some r) : Within c i s (s.takeTurn t) := by
  cases t
  case ring b =>
    cases b
    case call     => simp [Turn.request?] at h
    case answer   => exact answerComes s _
    case deadline => exact expire s _
  case startRequest  => exact withDispatch fun _ => startRequest
  case resumeRequest => exact withDispatch fun _ => resumeRequest
  case startReading  => exact withDispatch fun _ => startReading
  case resumeReading => exact withDispatch fun _ => resumeReading
  case readingOver   => exact withDispatch fun _ => rouse
  case retire        => exact withDispatch fun _ => retire
  all_goals simp [Turn.request?] at h

variable {call : Call} {cursor : Cursor}

theorem stopAll (s : Service) (ks : List Nat) : Within c i s (s.stopAll ks) := by
  induction ks generalizing s
  case nil          => exact refl s
  case cons k ks ih => exact (cancelRequest s k).trans (ih _)

theorem withCache {change : Cache Nat Unit → Service → Cache.Outcome Nat Unit Service Empty}
    (h : ∀ cache, Within c i s (change cache s).state) : Within c i s (s.withCache i change) := by
  simp only [Service.withCache]
  split
  case h_1 => exact refl s
  case h_2 => exact (h _).trans (setSession _)

theorem keep (s : Service) (i id : Nat) : Within c i s (s.keep i id) := by
  apply withCache
  intro cache
  rcases Cache.state_set disposal cache s id () with h | ⟨k, _, h⟩ <;> rw [h]
  case inl => exact refl s
  case inr => exact cancelRequest s k

theorem forget (s : Service) (i id : Nat) : Within c i s (s.forget i id) := by
  apply withCache
  intro cache
  rcases Cache.state_delete disposal cache s id with h | ⟨k, _, h⟩ <;> rw [h]
  case inl => exact refl s
  case inr => exact cancelRequest s k

theorem answer (s : Service) (c : Nat) (completions : List Completion) : Within c i s (s.answer c completions) :=
  setCall (by simp [Stage.session?])

theorem complete (s : Service) (c : Nat) (call : Call) (cursor : Cursor) (p : Prediction) (b : Bounds) :
    Within c i s (s.complete c call cursor p b) :=
  (noteAll s _).trans (answer _ c _)

theorem failCall (s : Service) (c : Nat) (call : Call) : Within c i s (s.failCall c call) :=
  (note s _).trans ((count _ _).trans (answer _ c []))

theorem serveCached (id : Nat) (p : Prediction) (b : Bounds) :
    Within c i s (s.serveCached c call i cursor id p b) := by
  simp only [Service.serveCached]
  split
  case h_1 => exact trans (trans (count s _) (note _ _)) (complete _ c call cursor p b)
  case h_2 => exact trans (trans (count s _) (note _ _)) (setCall (by simp [Stage.session?]))
  case h_3 => exact trans (trans (count s _) (note _ _)) (answer _ c [])

theorem debounce {session : Session} {accepted : Bool} :
    Within c i s (s.debounce c call i session cursor accepted) := by
  simp only [Service.debounce]
  split
  case isTrue  => exact trans (setSession _) (failCall _ c call)
  case isFalse => exact trans (trans (setSession _) (setCall (by simp [Stage.session?]))) (resumeAfter _ _ _)

theorem enforceLimit (s : Service) (i : Nat) : Within c i s (s.enforceLimit i) := by
  simp only [Service.enforceLimit]
  split
  case h_1 => exact refl s
  case h_2 =>
    split
    case h_1 => exact refl s
    case h_2 =>
      split
      case isTrue  => exact (note s _).trans ((forget _ i _).trans (count _ _))
      case isFalse => exact refl s

theorem dispatch (s : Service) (c i : Nat) (cursor : Cursor) (o : Options) (before : Text) :
    Within c i s (s.dispatch c i cursor o before) := by
  simp only [Service.dispatch]
  refine trans ?_ (setCall (by simp [Stage.session?]))
  have hq (u : Service) : Within c i u (u.queue (.startRequest s.dispatches.size)) := queue u _ (by simp)
  refine trans (trans (trans (trans (noteAll s _) (addDispatch rfl ?_)) (hq _)) (keep _ i _)) (count _ _)
  rw [dispatches_noteAll]

theorem gather {o : Options} (h : Hints) (unasked : List Hints.Provider) :
    Within c i s (s.gather c i cursor o h unasked) := by
  induction unasked generalizing s h
  case nil => exact dispatch s c i cursor o _
  case cons p rest ih =>
    simp only [Service.gather]
    split
    case h_1 => exact dispatch s c i cursor o _
    case h_2 =>
      split
      case h_1 => exact (noteAll s _).trans (ih _)
      case h_2 => exact trans (setCall (by simp [Stage.session?])) (resumeAfter _ _ _)

theorem request {o : Options} : Within c i s (s.request c call i cursor o) := by
  simp only [Service.request]
  split
  case isTrue => exact answer s c []
  case isFalse =>
    split
    case isTrue  => exact dispatch s c i cursor o _
    case isFalse =>
      split
      case h_1 => exact refl s
      case h_2 =>
        split
        case h_1 => exact failCall s c call
        case h_2 => exact gather _ _

theorem endDebounce {generation : Nat} {accepted : Bool} :
    Within c i s (s.endDebounce c call i cursor generation accepted) := by
  simp only [Service.endDebounce]
  split
  case h_1 => exact refl s
  case h_2 =>
    split
    case isTrue  => exact (count s _).trans (answer _ c [])
    case isFalse => exact (enforceLimit s i).trans request

theorem askNext {o : Options} {h : Hints} {unasked : List Hints.Provider} :
    Within c i s (s.askNext c i cursor o h unasked) := by
  simp only [Service.askNext]
  split
  case h_1 => exact dispatch s c i cursor o _
  case h_2 =>
    split
    case h_1 => exact dispatch s c i cursor o _
    case h_2 => exact (noteAll s _).trans (gather _ _)

theorem deliver {id : Nat} {own : Bool} : Within c i s (s.deliver c call i cursor id own) := by
  simp only [Service.deliver]
  split
  case h_1 => exact refl s
  case h_2 =>
    split
    case h_1 => exact refl s
    case h_2 =>
      split
      case isTrue  => exact (forget s i id).trans (answer _ c [])
      case isFalse =>
        split
        case isTrue  => exact complete s c call cursor _ _
        case isFalse =>
          split
          case h_1 => exact trans (noteAll s _) (complete _ c call cursor _ _)
          case h_2 => exact trans (noteAll s _) (answer _ c [])

-- The first turn of a call, once its document has a session.
theorem seek (s : Service) (c : Nat) (call : Call) :
    Within c (s.sessionFor call.uri).2 (s.sessionFor call.uri).1 (s.seek c call) := by
  simp only [Service.seek]
  generalize s.sessionFor call.uri = x
  split
  case h_2 => exact refl _
  case h_1 =>
    split
    case h_1 => exact trans (noteAll _ _) (serveCached _ _ _)
    case h_2 =>
      split
      case h_1 => exact trans (noteAll _ _) debounce
      case h_2 => exact trans (noteAll _ _) (failCall _ c call)

-- A turn of a call that waits.
theorem resumeCall (hi : ∀ j ∈ call.stage.session?, j = i) : Within c i s (s.resumeCall c call) := by
  simp only [Service.resumeCall]
  split
  case h_4 => exact refl s
  case h_1 j _ _ _ hs =>
    obtain rfl : j = i := hi j (by simp [hs, Stage.session?])
    exact endDebounce
  case h_2 j _ _ _ _ hs =>
    obtain rfl : j = i := hi j (by simp [hs, Stage.session?])
    exact askNext
  case h_3 j _ _ _ hs =>
    obtain rfl : j = i := hi j (by simp [hs, Stage.session?])
    exact deliver

theorem clear (s : Service) (i : Nat) : Within c i s (s.withCache i fun cache s => cache.clear disposal s) := by
  apply withCache
  intro cache
  simp only [Cache.clear, dispose_eq]
  exact stopAll s _

theorem accept (s : Service) (i id : Nat) (p : Prediction) : Within c i s (s.accept i id p) := by
  simp only [Service.accept]
  split
  case h_1 => exact note s _
  case h_2 => exact trans (trans (note s _) (setSession _)) (forget _ i id)

theorem acceptAll (s : Service) (i : Nat) (taken : List (Nat × Prediction)) :
    Within c i s (taken.foldl (fun s x => s.accept i x.1 x.2) s) := by
  induction taken generalizing s
  case nil            => exact refl s
  case cons x rest ih => exact (accept s i x.1 x.2).trans (ih _)

theorem free {uri : Text} (position : Position) (shown : Option (List Int)) (h : s.session? uri = some i) :
    Within c i s (s.free uri position shown).1 := by
  simp only [Service.free, h]
  split
  case h_2          => exact refl s
  case h_1 j _ _ hj _ =>
    obtain rfl := Option.some.inj hj
    split
    case h_1 => exact refl s
    case h_2 =>
      dsimp only
      exact trans (acceptAll s _ _) (count _ _)

end Within

-- How far a turn reaches: it is of no call, or a call that has not had its first turn seeks a prediction or is
-- refused, or one that waits goes on.
inductive Extent (s : Service) : Turn → Service → Prop
  | aside {t : Turn} {s' : Service} (h : ∀ c i, Within c i s s') : Extent s t s'
  | refuse {c : Nat} {call : Call} (hc : s.calls[c]? = some call) (hq : call.stage = .queued)
    (he : s.settings.enabled = false) : Extent s (.startCall c) (s.answer c [])
  | seek {c : Nat} {call : Call} (hc : s.calls[c]? = some call) (hq : call.stage = .queued)
    (he : s.settings.enabled = true) : Extent s (.startCall c) (s.seek c call)
  | resume {c i : Nat} {call : Call} (hc : s.calls[c]? = some call) (hi : call.stage.session? = some i) :
    Extent s (.resumeCall c) (s.resumeCall c call)

theorem resumeCall_of_session?_eq_none {call : Call} (h : call.stage.session? = none) : s.resumeCall c call = s := by
  cases hs : call.stage <;> simp_all [Stage.session?, resumeCall]

theorem extent_takeTurn (s : Service) (t : Turn) : Extent s t (s.takeTurn t) := by
  have hrequest {t : Turn} {r : Nat} (h : t.request? = some r) : Extent s t (s.takeTurn t) :=
    .aside fun _ _ => .takeTurn_of_request h
  have hrefl {t : Turn} : Extent s t s := .aside fun _ _ => .refl s
  cases t
  case startCall c =>
    simp only [takeTurn, withCall]
    split
    case h_2      => exact hrefl
    case h_1 hc =>
      simp only [startCall]
      split
      case h_2    => exact hrefl
      case h_1 hq =>
        split
        case isTrue he  => exact .seek hc hq he
        case isFalse he => exact .refuse hc hq (by simpa using he)
  case resumeCall c =>
    simp only [takeTurn, withCall]
    split
    case h_2           => exact hrefl
    case h_1 call hc =>
      cases hi : call.stage.session?
      case none => rw [resumeCall_of_session?_eq_none hi]; exact hrefl
      case some => exact .resume hc hi
  case relay c =>
    simp only [takeTurn, withCall]
    split
    case h_2 => exact hrefl
    case h_1 =>
      simp only [relay]
      split
      case h_1 => exact .aside fun _ _ => .queue s _ (by simp)
      case h_2 => exact hrefl
  case ring b =>
    cases b
    case call c   => exact .aside fun _ _ => .queue s _ (by simp)
    case answer   => exact hrequest rfl
    case deadline => exact hrequest rfl
  all_goals exact hrequest rfl

-- What no turn changes, and the calls other than the one it is a turn of. No call is started.
structure Fixed (c : Nat) (s s' : Service) : Prop where
  settings : s'.settings = s.settings
  buffers  : s'.buffers = s.buffers
  opened   : s'.opened = s.opened
  calls    : ∀ k, k ≠ c → s'.calls[k]? = s.calls[k]?
  ready    : StartsNone s s'

theorem Within.fixed (h : Within c i s s') : Fixed c s s' :=
  ⟨h.settings, h.buffers, h.opened, fun k hk => (h.calls k).resolve_right fun h => hk h.1, h.ready⟩

theorem Fixed.trans (h₁ : Fixed c s s') (h₂ : Fixed c s' s'') : Fixed c s s'' where
  settings := h₂.settings.trans h₁.settings
  buffers  := h₂.buffers.trans h₁.buffers
  opened   := h₂.opened.trans h₁.opened
  calls    := fun k hk => (h₂.calls k hk).trans (h₁.calls k hk)
  ready    := h₁.ready.trans h₂.ready

theorem fixed_sessionFor (s : Service) (c : Nat) (uri : Text) : Fixed c s (s.sessionFor uri).1 := by
  simp only [sessionFor]
  split <;> exact ⟨rfl, rfl, rfl, fun _ _ => rfl, .of_eq rfl⟩

theorem fixed_seek (s : Service) (c : Nat) (call : Call) : Fixed c s (s.seek c call) :=
  (fixed_sessionFor s c call.uri).trans (Within.seek s c call).fixed

theorem fixed_takeTurn (s : Service) {t : Turn} (ht : ∀ k, t = .startCall k ∨ t = .resumeCall k → k = c) :
    Fixed c s (s.takeTurn t) := by
  generalize hs : s.takeTurn t = s'
  cases hs ▸ extent_takeTurn s t
  case aside h      => exact (h c 0).fixed
  case refuse    => exact ht _ (.inl rfl) ▸ (Within.answer (i := 0) s _ []).fixed
  case seek      => exact ht _ (.inl rfl) ▸ fixed_seek s _ _
  case resume hi => exact ht _ (.inr rfl) ▸ (Within.resumeCall fun j hj => Option.some.inj (hj ▸ hi)).fixed

theorem exists_fixed_takeTurn (s : Service) (t : Turn) : ∃ c, Fixed c s (s.takeTurn t) := by
  cases t
  case startCall c  => exact ⟨c, fixed_takeTurn s (by simp)⟩
  case resumeCall c => exact ⟨c, fixed_takeTurn s (by simp)⟩
  all_goals exact ⟨0, fixed_takeTurn s (by simp)⟩

theorem ready_takeTurn (s : Service) (t : Turn) : s.ready <+: (s.takeTurn t).ready := by
  obtain ⟨_, hf⟩ := exists_fixed_takeTurn s t
  obtain ⟨q, hq, _⟩ := hf.ready
  exact hq ▸ List.prefix_append _ _

end Service
end GhostText
