import GhostText.Service.Work

namespace GhostText.Service

variable {s s' s'' : Service} {l a b a' b' : Nat}

-- From the first state to the second the work falls by `a` and grows by `b`, with weights for answers of `l` chunks.
-- The clock stands still.
structure Shifts (l : Nat) (s s' : Service) (a b : Nat) : Prop where
  now     : s'.now = s.now
  size    : s'.calls.size = s.calls.size
  longest : s'.longest ≤ s.longest
  work    : s'.workAt s.calls.size l + a ≤ s.workAt s.calls.size l + b

namespace Shifts

theorem refl (l : Nat) (s : Service) (a : Nat) : Shifts l s s a a :=
  ⟨rfl, rfl, Nat.le_refl _, Nat.le_refl _⟩

theorem trans (h₁ : Shifts l s s' a b) (h₂ : Shifts l s' s'' a' b') : Shifts l s s'' (a + a') (b + b') where
  now     := h₂.now.trans h₁.now
  size    := h₂.size.trans h₁.size
  longest := Nat.le_trans h₂.longest h₁.longest
  work    := by
    have := h₂.work
    rw [h₁.size] at this
    have := h₁.work
    omega

theorem weaken (h : Shifts l s s' a b) (hab : a' + b ≤ a + b') : Shifts l s s' a' b' where
  now     := h.now
  size    := h.size
  longest := h.longest
  work    := by have := h.work; omega

theorem of_eq (hn : s'.now = s.now) (hr : s'.ready = s.ready) (ha : s'.alarms = s.alarms)
    (hc : s'.calls = s.calls) (hd : s'.dispatches = s.dispatches) (hl : s'.longest ≤ s.longest) :
    Shifts l s s' 0 0 where
  now     := hn
  size    := by rw [hc]
  longest := hl
  work    := by simp [workAt, hr, ha, hc, hd]

theorem note (s : Service) (n : Notice) : Shifts l s (s.note n) 0 0 :=
  of_eq rfl rfl rfl rfl rfl (Nat.le_refl _)

theorem noteAll (s : Service) (ns : List Notice) : Shifts l s (s.noteAll ns) 0 0 := by
  rw [noteAll_eq]
  exact of_eq rfl rfl rfl rfl rfl (Nat.le_refl _)

theorem count (s : Service) (f : Stats → Stats) : Shifts l s (s.count f) 0 0 :=
  of_eq rfl rfl rfl rfl rfl (Nat.le_refl _)

theorem setSession (s : Service) (i : Nat) (session : Session) : Shifts l s (s.setSession i session) 0 0 :=
  of_eq rfl rfl rfl rfl rfl (Nat.le_refl _)

theorem queue (s : Service) (t : Turn) : Shifts l s (s.queue t) 0 (t.work s.calls.size) where
  now     := rfl
  size    := rfl
  longest := Nat.le_refl _
  work    := by
    simp only [workAt, Service.queue, List.map_append, total_append, List.map_cons, List.map_nil, total]
    omega

theorem setAlarm (s : Service) (delay : Nat) (x : Bell) : Shifts l s (s.setAlarm delay x) 0 alarmWork where
  now     := rfl
  size    := rfl
  longest := Nat.le_refl _
  work    := by
    simp only [workAt, Service.setAlarm, List.length_append, List.length_cons, List.length_nil, alarmWork]
    omega

theorem dropAlarm (s : Service) (x : Bell) : Shifts l s (s.dropAlarm x) 0 0 where
  now     := rfl
  size    := rfl
  longest := Nat.le_refl _
  work    := by
    have := List.length_filter_le (·.bell ≠ x) s.alarms
    simp only [workAt, Service.dropAlarm, alarmWork]
    omega

theorem resumeAfter (s : Service) (delay c : Nat) : Shifts l s (s.resumeAfter delay c) 0 alarmWork := by
  simp only [Service.resumeAfter]
  split
  case isTrue  => exact (queue s _).weaken (by simp [Turn.work, alarmWork])
  case isFalse => exact setAlarm s _ _

theorem setCall {c : Nat} {call : Call} (h : s.calls[c]? = some call) (stage : Stage) :
    Shifts l s (s.setCall c stage) (call.stage.work s.calls.size l) (stage.work s.calls.size l) where
  now     := rfl
  size    := by simp [Service.setCall]
  longest := Nat.le_refl _
  work    := by
    have hl : s.calls.toList[c]? = some call := by simpa using h
    have := total_map_modify (fun x : Call => x.stage.work s.calls.size l) ({ · with stage }) hl
    dsimp only at this
    simp only [workAt, Service.setCall, Array.toList_modify]
    omega

theorem setDispatch {r : Nat} {d : Dispatch} (h : s.dispatches[r]? = some d) (d' : Dispatch) :
    Shifts l s (s.setDispatch r d') (d.work s.calls.size l) (d'.work s.calls.size l) where
  now     := rfl
  size    := rfl
  longest := Nat.le_refl _
  work    := by
    have hl : s.dispatches.toList[r]? = some d := by simpa using h
    have := total_map_set (Dispatch.work s.calls.size l) d' hl
    simp only [workAt, Service.setDispatch, Array.toList_setIfInBounds]
    omega

theorem relayAll (s : Service) (r : Nat) : Shifts l s (s.relayAll r) 0 (tellingWork s.calls.size) where
  now     := rfl
  size    := rfl
  longest := Nat.le_refl _
  work    := by
    have hf := List.length_filter_le (s.awaits r) (List.range s.calls.size)
    simp only [List.length_range] at hf
    simp only [workAt, Service.relayAll, List.map_append, List.map_map, total_append, tellingWork]
    rw [total_map_const (n := 2) (Turn.work s.calls.size ∘ Turn.relay) fun _ => rfl]
    omega

variable {n r : Nat} {d d₀ : Dispatch} {p : Prediction}

theorem conclude (h : s.dispatches[r]? = some d) :
    Shifts l s (s.conclude r d p) (d.watch.work s.calls.size) (tellingWork s.calls.size) := by
  have hs := ((setDispatch (l := l) h { d with prediction := p, watch := .ended }).trans
    (dropAlarm _ (.deadline r))).trans (relayAll _ r)
  simp only [Service.conclude]
  split
  case h_1 => exact hs.weaken (by simp [Dispatch.work, Watch.work]; omega)
  case h_2 => exact ((hs.trans (count _ _)).trans (noteAll _ _)).weaken (by simp [Dispatch.work, Watch.work]; omega)

theorem fail (h : s.dispatches[r]? = some d) (cause : Failure) (message : Text) :
    Shifts l s (s.fail r d cause message) (d.watch.work s.calls.size) (tellingWork s.calls.size) := by
  simp only [Service.fail]
  split <;> exact conclude h

theorem finish (h : s.dispatches[r]? = some d) :
    Shifts l s (s.finish r d) (d.watch.work s.calls.size) (tellingWork s.calls.size) := by
  simp only [Service.finish]
  split <;> exact conclude h

theorem failWith (h : s.dispatches[r]? = some d) (fault : Fault) :
    Shifts l s (s.failWith r d fault) (d.watch.work s.calls.size) (tellingWork s.calls.size) := by
  simp only [Service.failWith]
  split
  case h_1 => exact fail h _ _
  case h_2 => exact ((note s _).trans (fail (by simpa using h) _ _)).weaken (by simp)

theorem endReading (h : s.dispatches[r]? = some d₀) (hw : d.watch = d₀.watch) (fault : Option Fault) :
    Shifts l s (s.endReading r d fault) (d₀.reading.work l) 1 :=
  ((setDispatch h _).trans (queue _ _)).weaken
    (by simp only [Dispatch.work, Reading.work, Turn.work, hw]; omega)

theorem pauseReading (h : s.dispatches[r]? = some d₀) (hw : d.watch = d₀.watch) (rest? : Option Delivery)
    (pause : Nat) :
    Shifts l s (s.pauseReading r d rest? pause) (d₀.reading.work l)
      (Reading.pauseWork l rest? + 1 + alarmWork) := by
  simp only [Service.pauseReading]
  split
  case h_1 =>
    exact ((setDispatch h _).trans (queue _ _)).weaken
      (by simp only [Dispatch.work, Reading.work, Turn.work, hw]; omega)
  case h_2 =>
    exact ((setDispatch h _).trans (setAlarm _ _ _)).weaken
      (by simp only [Dispatch.work, Reading.work, hw]; omega)

-- What is left after a chunk has one chunk less.
theorem readDelivery (h : s.dispatches[r]? = some d) (delivery : Delivery) :
    Shifts l s (s.readDelivery r d delivery) (d.reading.work l) (Reading.pauseWork l (some delivery)) := by
  simp only [Service.readDelivery]
  split
  case h_1 => exact (endReading h rfl _).weaken (by simp [Reading.pauseWork])
  case h_2 chunk rest fault =>
    split
    case h_1 p _ =>
      have hs := note (l := l) s (.budgetSpent p.id)
      have he := endReading (l := l) (s := s.note (.budgetSpent p.id)) (d := { d with prediction := p }) h rfl none
      exact (hs.trans he).weaken (by simp only [Reading.pauseWork]; omega)
    case h_2 p _ =>
      have hp := pauseReading (l := l) (d := { d with prediction := p }) h rfl (some ⟨rest, fault⟩) chunk.pause
      exact hp.weaken (by simp only [Reading.pauseWork, List.length_cons, Nat.mul_succ]; omega)

-- Whatever the backend becomes, as long as no answers of more chunks come of it.
theorem setBackend (s : Service) {b : Backend} (h : b.answers.longest ≤ s.longest) :
    Shifts l s { s with backend := b } 0 0 :=
  of_eq rfl rfl rfl rfl rfl h

theorem receiveAnswer (h : s.dispatches[r]? = some d) (hl : s.longest ≤ l) :
    Shifts l s (s.receiveAnswer r d) (d.reading.work l) (Reading.pauseWork l none) := by
  have hb : (s.backend.answer d.request).2.answers.longest ≤ s.longest := s.backend.longest_answer_le _
  have hc : (s.backend.answer d.request).1.chunks.length ≤ l :=
    Nat.le_trans (s.backend.length_answer_le d.request) hl
  simp only [Service.receiveAnswer]
  generalize ((s.backend.answers.missed? d.request).map _).toList = notices
  have hs : Shifts l s _ 0 0 := (setBackend s hb).trans (noteAll _ notices)
  have hm := Nat.mul_le_mul_left (alarmWork + 1) hc
  exact (hs.trans (readDelivery (by simpa using h) _)).weaken (by simp only [Reading.pauseWork]; omega)

theorem awaitAnswer (h : s.dispatches[r]? = some d) (hl : s.longest ≤ l) (delay : Option Nat) :
    Shifts l s (s.awaitAnswer r d delay) (d.reading.work l) (Reading.pauseWork l none + 1 + alarmWork) := by
  simp only [Service.awaitAnswer]
  split
  case h_1 => exact (receiveAnswer h hl).weaken (by omega)
  case h_2 => exact pauseReading h rfl none _

theorem startReading (h : s.dispatches[r]? = some d) (hl : s.longest ≤ l) : Shifts l s (s.startReading r d) 0 0 := by
  simp only [Service.startReading]
  split
  case h_1 hq =>
    have hs := setBackend (l := l) (b := s.backend.receive d.request) s (Nat.le_refl _)
    have ha := awaitAnswer (s := { s with backend := s.backend.receive d.request }) h hl s.backend.delay
    exact (hs.trans ha).weaken (by simp [hq, Reading.work])
  case h_2 => exact refl l s 0

theorem giveUp (h : s.dispatches[r]? = some d) : Shifts l s (s.giveUp r d) (d.reading.work l) 1 :=
  ((setBackend (b := s.backend.giveUp) s (Nat.le_refl _)).trans (endReading (by exact h) rfl none)).weaken (by omega)

theorem one_le_pauseWork (l : Nat) (rest? : Option Delivery) : 1 ≤ Reading.pauseWork l rest? := by
  cases rest? <;> simp only [Reading.pauseWork] <;> omega

theorem resumeReading (h : s.dispatches[r]? = some d) (hl : s.longest ≤ l) :
    Shifts l s (s.resumeReading r d) 0 0 := by
  simp only [Service.resumeReading]
  split
  case h_1 hp =>
    split
    case isTrue  => exact (receiveAnswer h hl).weaken (by simp [hp, Reading.work])
    case isFalse => exact (giveUp h).weaken (by simp [hp, Reading.work, one_le_pauseWork])
  case h_2 rest hp =>
    split
    case isTrue  => exact (readDelivery h rest).weaken (by simp [hp, Reading.work])
    case isFalse => exact (giveUp h).weaken (by simp [hp, Reading.work, one_le_pauseWork])
  case h_3 => exact refl l s 0

theorem wake (h : s.dispatches[r]? = some d₀) (hr : d.reading = d₀.reading) :
    Shifts l s (s.wake r d) (d₀.watch.work s.calls.size) (d.watch.work s.calls.size) := by
  simp only [Service.wake]
  split
  case h_1 rest? hw =>
    exact (((setDispatch h _).trans (dropAlarm _ _)).trans (queue _ _)).weaken
      (by simp only [Dispatch.work, ← hr, hw, Reading.work, Turn.work]; omega)
  case h_2 => exact (setDispatch h _).weaken (by simp only [Dispatch.work, hr]; omega)

theorem watchOver (h : s.dispatches[r]? = some d) :
    Shifts l s (s.watchOver r d) (d.watch.work s.calls.size) (Watch.queued.work s.calls.size) :=
  (((setAlarm s _ _).trans (setDispatch (by exact h) _)).trans (queue _ _)).weaken
    (by simp only [Dispatch.work, Watch.work, Turn.work, calls_setAlarm]; omega)

theorem startRequest (h : s.dispatches[r]? = some d) : Shifts l s (s.startRequest r d) 0 0 := by
  simp only [Service.startRequest]
  split
  case h_1 hq =>
    split
    case isTrue  =>
      exact ((setDispatch h _).trans (queue _ _)).weaken
        (by simp only [Dispatch.work, hq, Watch.work, Turn.work, endingWork, calls_setDispatch]; omega)
    case isFalse =>
      split
      case isTrue  => exact (failWith h _).weaken (by simp only [hq, Watch.work, endingWork]; omega)
      case isFalse => exact (watchOver h).weaken (by simp [hq])
  case h_2 => exact refl l s 0

theorem settleRead (h : s.dispatches[r]? = some d) (fault : Option Fault) :
    Shifts l s (s.settleRead r d fault) (d.watch.work s.calls.size) (tellingWork s.calls.size) := by
  simp only [Service.settleRead]
  split
  case h_1 => exact finish h
  case h_2 => exact failWith h _

theorem settleUnread (h : s.dispatches[r]? = some d) :
    Shifts l s (s.settleUnread r d) (d.watch.work s.calls.size) (endingWork s.calls.size) := by
  simp only [Service.settleUnread]
  split
  case isTrue =>
    have hf := fail (l := l) h .cancelled "Aborted autocomplete".toList
    have := hf.size
    exact (hf.trans (queue _ _)).weaken (by simp only [this, Turn.work, endingWork]; omega)
  case isFalse => exact (fail h _ _).weaken (by simp only [endingWork]; omega)

theorem resumeRequest (h : s.dispatches[r]? = some d) : Shifts l s (s.resumeRequest r d) 0 0 := by
  simp only [Service.resumeRequest]
  split
  case h_1 hw =>
    split
    case h_1 => exact (settleRead h _).weaken (by simp only [hw, Watch.work, endingWork]; omega)
    case h_2 =>
      have hs := wake (l := l) (d := { d with watch := .stopping false }) h rfl
      exact hs.weaken (by simp [hw, Watch.work])
  case h_2 hw => exact (settleUnread h).weaken (by simp [hw, Watch.work])
  case h_3 => exact refl l s 0

theorem retire (h : s.dispatches[r]? = some d) : Shifts l s (s.retire r d) 0 (tellingWork s.calls.size) := by
  simp only [Service.retire]
  split
  case h_1 => exact ((setDispatch h _).trans (relayAll _ _)).weaken (by simp [Dispatch.work])
  case h_2 => exact (note s _).weaken (by omega)

theorem rouse (h : s.dispatches[r]? = some d₀) (hw : d.watch = d₀.watch) (hr : d.reading = d₀.reading) :
    Shifts l s (s.rouse r d) 0 0 := by
  simp only [Service.rouse]
  split
  case h_1 hq =>
    exact ((setDispatch h _).trans (queue _ _)).weaken
      (by simp only [Dispatch.work, ← hw, hq, hr, Watch.work, Turn.work]; omega)
  case h_2 hq =>
    exact ((setDispatch h _).trans (queue _ _)).weaken
      (by simp only [Dispatch.work, ← hw, hq, hr, Watch.work, Turn.work]; omega)
  case h_3 => exact (setDispatch h _).weaken (by simp only [Dispatch.work, hw, hr]; omega)

theorem cancelRequest (s : Service) (r : Nat) : Shifts l s (s.cancelRequest r) 0 0 := by
  simp only [Service.cancelRequest]
  split
  case h_1 => exact refl l s 0
  case h_2 d h =>
    split
    case isTrue  => exact rouse h rfl rfl
    case isFalse => exact refl l s 0

theorem expire (s : Service) (r : Nat) : Shifts l s (s.expire r) 0 0 := by
  simp only [Service.expire]
  split
  case h_1 => exact refl l s 0
  case h_2 d h =>
    split
    case isTrue  => exact rouse h rfl rfl
    case isFalse => exact refl l s 0

theorem answerComes (s : Service) (r : Nat) : Shifts l s (s.answerComes r) 0 0 := by
  simp only [Service.answerComes]
  split
  case h_1 => exact refl l s 0
  case h_2 d h => exact (wake h rfl).weaken (by omega)

theorem withCache {i : Nat} {change : Cache Nat Unit → Service → Cache.Outcome Nat Unit Service Empty}
    (h : ∀ c, (change c s).state = s ∨ ∃ id, (change c s).state = s.cancelRequest id) :
    Shifts l s (s.withCache i change) 0 0 ∧ (s.withCache i change).calls = s.calls := by
  simp only [Service.withCache]
  split
  case h_1 => exact ⟨refl l s 0, rfl⟩
  case h_2 session _ =>
    cases h session.cache
    case inl h =>
      rw [h]
      exact ⟨setSession s _ _, rfl⟩
    case inr h =>
      obtain ⟨id, h⟩ := h
      rw [h]
      exact ⟨(cancelRequest s id).trans (setSession _ _ _), by simp⟩

theorem keep (s : Service) (i id : Nat) :
    Shifts l s (s.keep i id) 0 0 ∧ (s.keep i id).calls = s.calls :=
  withCache fun c => (c.state_set disposal s id ()).imp_right fun ⟨k, _, h⟩ => ⟨k, h⟩

theorem forget (s : Service) (i id : Nat) :
    Shifts l s (s.forget i id) 0 0 ∧ (s.forget i id).calls = s.calls :=
  withCache fun c => (c.state_delete disposal s id).imp_right fun ⟨k, _, h⟩ => ⟨k, h⟩

theorem sessionFor (s : Service) (uri : Text) :
    Shifts l s (s.sessionFor uri).1 0 0 ∧ (s.sessionFor uri).1.calls = s.calls := by
  simp only [Service.sessionFor]
  split
  case h_1 => exact ⟨refl l s 0, rfl⟩
  case h_2 => exact ⟨of_eq rfl rfl rfl rfl rfl (Nat.le_refl _), rfl⟩

theorem enforceLimit (s : Service) (i : Nat) :
    Shifts l s (s.enforceLimit i) 0 0 ∧ (s.enforceLimit i).calls = s.calls := by
  simp only [Service.enforceLimit]
  split
  case h_1 => exact ⟨refl l s 0, rfl⟩
  case h_2 =>
    split
    case h_1 => exact ⟨refl l s 0, rfl⟩
    case h_2 oldest p _ _ =>
      split
      case isTrue =>
        have hf := forget (l := l) (s.note (.tooManyPending p.id)) i oldest
        exact ⟨((note s _).trans hf.1).trans (count _ _), by simp [hf.2]⟩
      case isFalse => exact ⟨refl l s 0, rfl⟩

variable {c i : Nat} {call : Call} {cursor : Cursor} {o : Options}

theorem answer (h : s.calls[c]? = some call) (completions : List Completion) :
    Shifts l s (s.answer c completions) (call.stage.work s.calls.size l) 0 :=
  (setCall h _).weaken (by simp [Stage.work])

theorem complete (h : s.calls[c]? = some call) (p : Prediction) (x : Bounds) :
    Shifts l s (s.complete c call cursor p x) (call.stage.work s.calls.size l) 0 := by
  simp only [Service.complete]
  exact ((noteAll s _).trans (answer (by simpa using h) _)).weaken (by simp)

theorem addDispatch (s : Service) (d : Dispatch) :
    Shifts l s (s.addDispatch d) 0 (d.work s.calls.size l) where
  now     := rfl
  size    := rfl
  longest := Nat.le_refl _
  work    := by
    simp only [workAt, Service.addDispatch, Array.toList_push, List.map_append, total_append,
      List.map_cons, List.map_nil, total]
    omega

theorem dispatch (h : s.calls[c]? = some call) (before : Text) :
    Shifts l s (s.dispatch c i cursor o before) (call.stage.work s.calls.size l)
      (Stage.work.sending s.calls.size l) := by
  simp only [Service.dispatch]
  generalize [Notice.requested _ _, _, _] = notices
  generalize hd : ({ call := c, session := i, prediction := _, request := _ } : Dispatch) = d
  have hq : d.work s.calls.size l = Watch.queued.work s.calls.size + Reading.queued.work l := by rw [← hd]; rfl
  have hs := ((noteAll (l := l) s notices).trans (addDispatch _ d)).trans (queue _ (.startRequest s.dispatches.size))
  have hc : (((s.noteAll notices).addDispatch d).queue (.startRequest s.dispatches.size)).calls = s.calls := by simp
  generalize ((s.noteAll notices).addDispatch d).queue (.startRequest s.dispatches.size) = s' at hs hc ⊢
  have hk := keep (l := l) s' i s.dispatches.size
  have hk' : (s'.keep i s.dispatches.size).calls[c]? = some call := by rw [hk.2, hc]; exact h
  refine (((hs.trans hk.1).trans (count _ _)).trans (setCall (by simpa using hk') _)).weaken ?_
  simp [hk.2, hc, hq, Stage.work, Stage.work.sending, Turn.work]

theorem failCall (h : s.calls[c]? = some call) :
    Shifts l s (s.failCall c call) (call.stage.work s.calls.size l) 0 := by
  simp only [Service.failCall]
  exact (((note s _).trans (count _ _)).trans (answer (by simpa using h) [])).weaken (by simp)

theorem ask (s : Service) (f : LanguageFeatures) (x : Hints) (p : Hints.Provider) :
    Shifts l s (s.ask f x p).1 0 0 ∧ (s.ask f x p).1.calls = s.calls :=
  ⟨noteAll s _, calls_noteAll _⟩

theorem gather (h : s.calls[c]? = some call) (x : Hints) (unasked : List Hints.Provider) :
    Shifts l s (s.gather c i cursor o x unasked) (call.stage.work s.calls.size l)
      (alarmWork * (unasked.length + 1) + Stage.work.sending s.calls.size l) := by
  induction unasked generalizing s x
  case nil => exact (dispatch h _).weaken (by simp only [alarmWork]; omega)
  case cons p rest ih =>
    simp only [Service.gather]
    split
    case h_1 => exact (dispatch h _).weaken (by omega)
    case h_2 f _ =>
      split
      case h_1 =>
        have ha := ask (l := l) s f x p
        have hc : (s.ask f x p).1.calls[c]? = some call := by rw [ha.2]; exact h
        exact (ha.1.trans (ih hc _)).weaken (by rw [ha.2]; simp only [List.length_cons, alarmWork]; omega)
      case h_2 => exact ((setCall h _).trans (resumeAfter _ _ _)).weaken (by simp [Stage.work, Nat.mul_add]; omega)

theorem request (h : s.calls[c]? = some call)
    (hw : call.stage.work s.calls.size l ≤
      alarmWork * (Hints.Provider.all.length + 1) + Stage.work.sending s.calls.size l) :
    Shifts l s (s.request c call i cursor o) (call.stage.work s.calls.size l)
      (alarmWork * (Hints.Provider.all.length + 1) + Stage.work.sending s.calls.size l) := by
  simp only [Service.request]
  split
  case isTrue  => exact (answer h []).weaken (by omega)
  case isFalse =>
    split
    case isTrue  => exact (dispatch h _).weaken (by omega)
    case isFalse =>
      split
      case h_1 => exact (refl l s 0).weaken (by omega)
      case h_2 =>
        split
        case h_1 => exact (failCall h).weaken (by omega)
        case h_2 => exact gather h _ _

theorem endDebounce {generation : Nat} {accepted : Bool} (h : s.calls[c]? = some call)
    (hw : call.stage.work s.calls.size l =
      alarmWork * (Hints.Provider.all.length + 1) + Stage.work.sending s.calls.size l) :
    Shifts l s (s.endDebounce c call i cursor generation accepted) 0 0 := by
  simp only [Service.endDebounce]
  split
  case h_1 => exact refl l s 0
  case h_2 =>
    split
    case isTrue  => exact ((count s _).trans (answer (by simpa using h) [])).weaken (by simp)
    case isFalse =>
      have he := enforceLimit (l := l) s i
      have hc : (s.enforceLimit i).calls[c]? = some call := by rw [he.2]; exact h
      exact (he.1.trans (request hc (by rw [he.2]; omega))).weaken (by rw [he.2]; omega)

theorem askNext {unasked : List Hints.Provider} {x : Hints} (h : s.calls[c]? = some call)
    (hw : call.stage.work s.calls.size l = alarmWork * unasked.length + Stage.work.sending s.calls.size l) :
    Shifts l s (s.askNext c i cursor o x unasked) 0 0 := by
  simp only [Service.askNext]
  split
  case h_1 => exact (dispatch h _).weaken (by omega)
  case h_2 =>
    split
    case h_1 => exact (dispatch h _).weaken (by omega)
    case h_2 p rest _ f _ =>
      have ha := ask (l := l) s f x p
      have hc : (s.ask f x p).1.calls[c]? = some call := by rw [ha.2]; exact h
      exact (ha.1.trans (gather hc _ _)).weaken (by rw [ha.2]; simp only [List.length_cons] at hw ⊢; omega)

theorem deliver {id : Nat} {own : Bool} (h : s.calls[c]? = some call) :
    Shifts l s (s.deliver c call i cursor id own) 0 0 := by
  simp only [Service.deliver]
  split
  case h_1 => exact refl l s 0
  case h_2 =>
    split
    case h_1 => exact refl l s 0
    case h_2 =>
      split
      case isTrue =>
        have hf := forget (l := l) s i id
        exact (hf.1.trans (answer (by rw [hf.2]; exact h) [])).weaken (by omega)
      case isFalse =>
        split
        case isTrue  => exact (complete h _ _).weaken (by omega)
        case isFalse =>
          split
          case h_1 => exact ((noteAll s _).trans (complete (by simpa using h) _ _)).weaken (by omega)
          case h_2 => exact ((noteAll s _).trans (answer (by simpa using h) [])).weaken (by omega)

theorem resumeCall (h : s.calls[c]? = some call) : Shifts l s (s.resumeCall c call) 0 0 := by
  simp only [Service.resumeCall]
  split
  case h_1 hs => exact endDebounce h (by simp [hs, Stage.work])
  case h_2 hs => exact askNext h (by simp [hs, Stage.work])
  case h_3 => exact deliver h
  case h_4 => exact refl l s 0

theorem debounce {session : Session} {accepted : Bool} (h : s.calls[c]? = some call) :
    Shifts l s (s.debounce c call i session cursor accepted) (call.stage.work s.calls.size l)
      (alarmWork * (Hints.Provider.all.length + 2) + Stage.work.sending s.calls.size l) := by
  simp only [Service.debounce]
  generalize hx : ({ session with generation := session.generation + 1 } : Session) = x
  have hs := setSession (l := l) s i x
  split
  case isTrue  => exact (hs.trans (failCall (s := s.setSession i x) h)).weaken (by simp)
  case isFalse =>
    have hd := setCall (l := l) (s := s.setSession i x) h (.debouncing i cursor (session.generation + 1) accepted)
    exact ((hs.trans hd).trans (resumeAfter _ _ _)).weaken (by simp [Stage.work, Nat.mul_add]; omega)

theorem serveCached {id : Nat} {p : Prediction} {x : Bounds} (h : s.calls[c]? = some call) :
    Shifts l s (s.serveCached c call i cursor id p x) (call.stage.work s.calls.size l) 0 := by
  have hs := (count (l := l) s fun n => { n with cacheHits := n.cacheHits + 1 }).trans
    (note _ (.cacheHit p.id p.status))
  simp only [Service.serveCached]
  split
  case h_1 => exact (hs.trans (complete (by simpa using h) _ _)).weaken (by simp)
  case h_2 => exact (hs.trans (setCall (by simpa using h) _)).weaken (by simp [Stage.work])
  case h_3 => exact (hs.trans (answer (by simpa using h) [])).weaken (by simp)

theorem startCall (h : s.calls[c]? = some call) : Shifts l s (s.startCall c call) 0 0 := by
  simp only [Service.startCall]
  split
  case h_1 hq =>
    split
    case isTrue =>
      unfold Service.seek
      have hf := sessionFor (l := l) s call.uri
      have hw : call.stage.work s.calls.size l =
          alarmWork * (Hints.Provider.all.length + 2) + Stage.work.sending s.calls.size l := by
        rw [hq]; rfl
      have hc : (s.sessionFor call.uri).1.calls[c]? = some call := by rw [hf.2]; exact h
      dsimp only
      split
      case h_1 =>
        split
        case h_1 => exact ((hf.1.trans (noteAll _ _)).trans (serveCached (by simpa using hc))).weaken (by omega)
        case h_2 =>
          split
          case h_1 =>
            exact ((hf.1.trans (noteAll _ _)).trans (debounce (by simpa using hc))).weaken (by simp [hf.2, hw])
          case h_2 => exact ((hf.1.trans (noteAll _ _)).trans (failCall (by simpa using hc))).weaken (by omega)
      case h_2 => exact hf.1
    case isFalse => exact (answer h []).weaken (by omega)
  case h_2 => exact refl l s 0

theorem relay (s : Service) (c : Nat) (call : Call) : Shifts l s (s.relay c call) 0 1 := by
  simp only [Service.relay]
  split
  case h_1 => exact queue s _
  case h_2 => exact (refl l s 0).weaken (by omega)

theorem ring (s : Service) (x : Bell) : Shifts l s (s.ring x) 0 1 := by
  simp only [Service.ring]
  split
  case h_1 => exact queue s _
  case h_2 => exact (answerComes s _).weaken (by omega)
  case h_3 => exact (expire s _).weaken (by omega)

theorem withCall {f : Call → Service} (hf : ∀ call, s.calls[c]? = some call → Shifts l s (f call) 0 b) :
    Shifts l s (s.withCall c f) 0 b := by
  simp only [Service.withCall]
  split
  case h_1 h => exact hf _ h
  case h_2 => exact (refl l s 0).weaken (by omega)

theorem withDispatch {f : Dispatch → Service}
    (hf : ∀ d, s.dispatches[r]? = some d → Shifts l s (f d) 0 b) : Shifts l s (s.withDispatch r f) 0 b := by
  simp only [Service.withDispatch]
  split
  case h_1 h => exact hf _ h
  case h_2 => exact (refl l s 0).weaken (by omega)

-- A turn leads to less than it weighs.
theorem takeTurn (hl : s.longest ≤ l) (t : Turn) : Shifts l s (s.takeTurn t) 1 (t.work s.calls.size) := by
  cases t
  case startCall c     => exact (withCall fun _ h => startCall h).weaken (by simp [Turn.work])
  case resumeCall c    => exact (withCall fun _ h => resumeCall h).weaken (by simp [Turn.work])
  case startRequest r  => exact (withDispatch fun _ h => startRequest h).weaken (by simp [Turn.work])
  case resumeRequest r => exact (withDispatch fun _ h => resumeRequest h).weaken (by simp [Turn.work])
  case startReading r  => exact (withDispatch fun _ h => startReading h hl).weaken (by simp [Turn.work])
  case resumeReading r => exact (withDispatch fun _ h => resumeReading h hl).weaken (by simp [Turn.work])
  case readingOver r   => exact (withDispatch fun _ h => rouse h rfl rfl).weaken (by simp [Turn.work])
  case relay c         => exact (withCall fun call _ => relay s c call).weaken (by simp [Turn.work])
  case retire r        => exact (withDispatch fun _ h => retire h).weaken (by simp [Turn.work]; omega)
  case ring x          => exact (ring s x).weaken (by simp [Turn.work])

end Shifts

end GhostText.Service
