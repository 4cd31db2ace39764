import GhostText.Proofs.Service.Renaming
import GhostText.Proofs.Service.Closing
import GhostText.Proofs.Service.Strokes

namespace GhostText

-- What is answered does not depend on the requests before.
def Answers.Steady (a : Answers) : Prop :=
  ∀ r, (a.next r).2 = a

namespace Service

variable {ρ ρ' : Renaming} {uri : Text} {s s' t t' : Service} {b c i j k r : Nat}

-- The clocks agree. The calls, sessions, requests and buffers that are known are those of the document, and none of
-- them has to do with one that is not known.
structure Mirrors (ρ : Renaming) (uri : Text) (s t : Service) : Prop where
  settings   : t.settings = s.settings
  -- otherwise the alarms for other documents could change the order of those for this one
  inTurn     : s.settings.chime = .inTurn
  features   : t.features = s.features
  backend    : t.backend = { s.backend with received := t.backend.received, givenUp := t.backend.givenUp }
  steady     : s.backend.answers.Steady
  now        : t.now = s.now
  buffers    : Linked ρ.buffer (· = ·) s.buffers t.buffers
  sessions   : Linked ρ.session (Session.Same ρ) s.sessions t.sessions
  dispatches : Linked ρ.number (Dispatch.Same ρ) s.dispatches t.dispatches
  calls      : Linked ρ.call (fun x y => x.uri = uri ∧ x.Same ρ y) s.calls t.calls
  opened     : Option.Rel (ρ.buffer · = some ·) (s.opened.lookup uri) (t.opened.lookup uri)
  current    : Option.Rel (ρ.session · = some ·) (s.session? uri) (t.session? uri)
  order      : Embeds (ρ.call · = some ·) (Foreign ρ.call s.calls.size) (List.range s.calls.size)
    (List.range t.calls.size)
  ready      : Embeds (Turn.Same ρ) (Turn.Strange ρ s.calls.size s.dispatches.size) s.ready t.ready
  alarms     : Embeds (Alarm.Same ρ) (fun a => a.bell.Strange ρ s.calls.size s.dispatches.size) s.alarms t.alarms
  -- the other calls are for other documents
  others     : ∀ (c : Nat) (call : Call), s.calls[c]? = some call → ρ.call c = none →
    call.uri ≠ uri ∧ ∀ i ∈ call.stage.session?, Foreign ρ.session s.sessions.size i
  kept       : ∀ i, ρ.session i = none → ∀ k ∈ s.kept i, Foreign ρ.number s.dispatches.size k
  homes      : ∀ uri' ≠ uri, ∀ i, s.session? uri' = some i → Foreign ρ.session s.sessions.size i
  places     : ∀ uri' ≠ uri, ∀ b, s.opened.lookup uri' = some b → Foreign ρ.buffer s.buffers.size b
  alone      : ∀ uri' ≠ uri, t.session? uri' = none
  ahead      : ∀ a ∈ t.alarms, t.now ≤ a.due

theorem Bell.Same.eq_iff {b₁ b₂ b₁' b₂' : Bell} (h₁ : b₁.Same ρ b₁') (h₂ : b₂.Same ρ b₂')
    (hc : ∀ i i' j, ρ.call i = some j → ρ.call i' = some j → i = i')
    (hn : ∀ i i' j, ρ.number i = some j → ρ.number i' = some j → i = i') : b₁ = b₂ ↔ b₁' = b₂' := by
  cases h₁ <;> cases h₂ <;> simp only [reduceCtorEq, Bell.call.injEq, Bell.answer.injEq, Bell.deadline.injEq] <;> grind

namespace Mirrors

variable (h : Mirrors ρ uri s t)
include h

theorem noteAll (ns ns' : List Notice) : Mirrors ρ uri (s.noteAll ns) (t.noteAll ns') := by
  rw [noteAll_eq, noteAll_eq]
  exact { h with }

theorem note (n n' : Notice) : Mirrors ρ uri (s.note n) (t.note n') :=
  h.noteAll [n] [n']

theorem count (f g : Stats → Stats) : Mirrors ρ uri (s.count f) (t.count g) :=
  { h with }

theorem queue {x y : Turn} (hxy : x.Same ρ y) : Mirrors ρ uri (s.queue x) (t.queue y) :=
  { h with ready := h.ready.append (.single hxy) }

theorem setAlarm (delay : Nat) {x y : Bell} (hxy : x.Same ρ y) :
    Mirrors ρ uri (s.setAlarm delay x) (t.setAlarm delay y) :=
  { h with
    alarms := h.alarms.append (.single ⟨by rw [h.now], hxy⟩)
    ahead  := fun a ha => by
      rcases List.mem_append.mp ha with ha | ha
      case inl => exact h.ahead a ha
      case inr => exact List.mem_singleton.mp ha ▸ Nat.le_add_right _ _ }

theorem dropAlarm {x y : Bell} (hxy : x.Same ρ y) : Mirrors ρ uri (s.dropAlarm x) (t.dropAlarm y) :=
  { h with
    alarms := h.alarms.filter fun a a' ha => by
      have := ha.bell.eq_iff hxy h.calls.distinct h.dispatches.distinct
      simp [this]
    ahead  := fun a ha => h.ahead a (List.mem_filter.mp ha).1 }

theorem resumeAfter (hc : ρ.call c = some k) (delay : Nat) :
    Mirrors ρ uri (s.resumeAfter delay c) (t.resumeAfter delay k) := by
  simp only [Service.resumeAfter]
  split
  case isTrue  => exact h.queue (.resumeCall hc)
  case isFalse => exact h.setAlarm delay (.call hc)

theorem setCall (hc : ρ.call c = some k) {x y : Stage} (hxy : x.Same ρ y) :
    Mirrors ρ uri (s.setCall c x) (t.setCall k y) :=
  { h with
    calls  := by
      refine h.calls.modify hc (a := ({ · with stage := x })) (b := ({ · with stage := y })) fun _ _ _ hs => ?_
      exact ⟨hs.1, { hs.2 with stage := hxy }⟩
    order  := by simpa [Service.setCall] using h.order
    ready  := by simpa [Service.setCall] using h.ready
    alarms := by simpa [Service.setCall] using h.alarms
    others := fun c' call hc' hn => by
      have hne : c ≠ c' := by
        rintro rfl
        simp [hc] at hn
      exact h.others c' call (by simpa [Service.setCall, Array.getElem?_modify, hne] using hc') hn }

theorem setSession (hi : ρ.session i = some j) {x y : Session} (hxy : x.Same ρ y) :
    Mirrors ρ uri (s.setSession i x) (t.setSession j y) :=
  { h with
    sessions := h.sessions.set hi hxy
    others   := by simpa [Service.setSession] using h.others
    homes    := by simpa [Service.setSession, Service.session?] using h.homes
    kept     := fun i' hn => by
      have hne : i ≠ i' := by
        rintro rfl
        simp [hi] at hn
      simpa [Service.setSession, Service.kept, Array.getElem?_setIfInBounds, hne] using h.kept i' hn }

theorem setDispatch (hr : ρ.number r = some k) {d d' : Dispatch} (hd : d.Same ρ d') :
    Mirrors ρ uri (s.setDispatch r d) (t.setDispatch k d') :=
  { h with
    dispatches := h.dispatches.set hr hd
    ready      := by simpa [Service.setDispatch] using h.ready
    alarms     := by simpa [Service.setDispatch] using h.alarms
    kept       := by simpa [Service.setDispatch, Service.kept] using h.kept }

-- A call awaits a request that is known if it does so under the other numbers.
theorem awaits (hr : ρ.number r = some k) (hc : ρ.call c = some j) : s.awaits r c = t.awaits k j := by
  obtain ⟨x, y, hx, hy, _, hxy⟩ := h.calls.found c j hc
  have hs := hxy.stage
  simp only [Service.awaits, stage?, hx, hy, Option.map_some]
  generalize x.stage = xs, y.stage = ys at hs
  cases hs
  case awaiting hr' =>
    have := h.dispatches.distinct
    grind
  all_goals rfl

theorem relayAll (hr : ρ.number r = some k) : Mirrors ρ uri (s.relayAll r) (t.relayAll k) :=
  { h with
    ready := h.ready.append ((h.order.filter fun _ _ hc => h.awaits hr hc).map (fun _ _ => .relay) fun _ hc => hc) }

theorem cancelRequest (hr : ρ.number r = some k) : Mirrors ρ uri (s.cancelRequest r) (t.cancelRequest k) := by
  obtain ⟨d, d', hd, hd', hdd⟩ := h.dispatches.found r k hr
  have hpend : d'.prediction.isPending = d.prediction.isPending := by
    obtain ⟨_, _, hp⟩ := hdd.prediction
    rw [hp]
    rfl
  have hset (w : Watch) : Mirrors ρ uri (s.setDispatch r { d with cancelled := true, watch := w })
      (t.setDispatch k { d' with cancelled := true, watch := w }) :=
    h.setDispatch hr { hdd with watch := rfl, cancelled := rfl }
  simp only [Service.cancelRequest, hd, hd', hpend, hdd.watch, Service.rouse]
  split
  case isFalse => exact h
  case isTrue  =>
    split
    case h_1 => exact (hset (.watching true)).queue (.resumeRequest hr)
    case h_2 => exact (hset (.stopping true)).queue (.resumeRequest hr)
    case h_3 => exact h.setDispatch hr { hdd with watch := rfl, cancelled := rfl }

section Growing

variable {calls numbers : Nat} (hρ : ρ.Grows ρ') (hc : ∀ c, Foreign ρ.call s.calls.size c → Foreign ρ'.call calls c)
  (hn : ∀ r, Foreign ρ.number s.dispatches.size r → Foreign ρ'.number numbers r)
include hρ hc hn

theorem ready_mono : Embeds (Turn.Same ρ') (Turn.Strange ρ' calls numbers) s.ready t.ready :=
  h.ready.mono (fun _ _ hx => hx.mono hρ) fun _ hx => hx.mono hc hn

theorem alarms_mono : Embeds (Alarm.Same ρ') (fun a => a.bell.Strange ρ' calls numbers) s.alarms t.alarms :=
  h.alarms.mono (fun _ _ ha => ha.mono hρ) fun _ ha => ha.mono hc hn

end Growing

omit h in
theorem lookup_append_self {l : List (Text × Nat)} (hl : l.lookup uri = none) (uri' : Text) (n : Nat) :
    (l ++ [(uri, n)]).lookup uri' = if uri' = uri then some n else l.lookup uri' := by
  rw [List.lookup_append]
  by_cases hu : uri' = uri
  case pos => simp [hu, hl]
  case neg => simp [hu, List.lookup_cons, beq_eq_false_iff_ne.mpr hu]

-- A session is opened in both, and becomes known.
theorem openSession (hs : s.session? uri = none) (ht : t.session? uri = none) {x y : Session} (hxy : x.Same ρ y) :
    Mirrors (ρ.learnSession s.sessions.size t.sessions.size) uri
      { s with sessions := s.sessions.push x, current := s.current ++ [(uri, s.sessions.size)] }
      { t with sessions := t.sessions.push y, current := t.current ++ [(uri, t.sessions.size)] } := by
  have hρ := Renaming.Grows.learnSession h.sessions.next t.sessions.size
  have hforeign {i : Nat} (hi : Foreign ρ.session s.sessions.size i) :
      Foreign (learn ρ.session s.sessions.size t.sessions.size) (s.sessions.push x).size i := by
    rw [Array.size_push]
    exact hi.learn
  exact
    { h with
      sessions   := (h.sessions.mono fun _ _ hx => hx.mono hρ).push (hxy.mono hρ)
      dispatches := h.dispatches.mono fun _ _ hd => hd.mono hρ
      calls      := h.calls.mono fun _ _ hc => ⟨hc.1, hc.2.mono hρ⟩
      current    := by
        simp only [Service.session?, lookup_append_self hs, lookup_append_self ht, if_true]
        exact .some (learn_self ..)
      ready      := h.ready_mono hρ (fun _ => id) fun _ => id
      alarms     := h.alarms_mono hρ (fun _ => id) fun _ => id
      others     := fun c call hc hn =>
        ⟨(h.others c call hc hn).1, fun i hi => hforeign ((h.others c call hc hn).2 i hi)⟩
      kept       := fun i hi k hk => by
        have hne : i ≠ s.sessions.size := by
          rintro rfl
          simp [Renaming.learnSession, learn_self] at hi
        refine h.kept i ((learn_of_ne hne).symm.trans hi) k ?_
        simpa [Service.kept, Array.getElem?_push, hne] using hk
      homes      := fun uri' hu i hi => by
        simp only [Service.session?, lookup_append_self hs, hu, if_false] at hi
        exact hforeign (h.homes uri' hu i hi)
      alone      := fun uri' hu => by
        simp only [Service.session?, lookup_append_self ht, hu, if_false]
        exact h.alone uri' hu }

theorem sessionFor : ∃ ρ', ρ.Grows ρ' ∧ Mirrors ρ' uri (s.sessionFor uri).1 (t.sessionFor uri).1 ∧
    ρ'.session (s.sessionFor uri).2 = some (t.sessionFor uri).2 := by
  have hcur := h.current
  cases hs : s.session? uri <;> cases ht : t.session? uri <;> rw [hs, ht] at hcur
  case some.some i j =>
    cases hcur
    case some hi =>
      exact ⟨ρ, .refl ρ, by simpa only [Service.sessionFor, hs, ht] using h, by simpa [Service.sessionFor, hs, ht]⟩
  case none.none =>
    simp only [Service.sessionFor, hs, ht]
    refine ⟨_, .learnSession h.sessions.next _, h.openSession hs ht ⟨?_, .nil, rfl, rfl⟩, learn_self ..⟩
    rw [h.settings]
  all_goals cases hcur

-- A request is made in both, and becomes known.
theorem addDispatch {d d' : Dispatch} (hd : d.Same (ρ.learnNumber s.dispatches.size t.dispatches.size) d') :
    Mirrors (ρ.learnNumber s.dispatches.size t.dispatches.size) uri (s.addDispatch d) (t.addDispatch d') := by
  have hρ := Renaming.Grows.learnNumber h.dispatches.next t.dispatches.size
  have hforeign {r : Nat} (hr : Foreign ρ.number s.dispatches.size r) :
      Foreign (learn ρ.number s.dispatches.size t.dispatches.size) (s.dispatches.push d).size r := by
    rw [Array.size_push]
    exact hr.learn
  exact
    { h with
      sessions   := h.sessions.mono fun _ _ hx => hx.mono hρ
      dispatches := (h.dispatches.mono fun _ _ hd => hd.mono hρ).push hd
      calls      := h.calls.mono fun _ _ hc => ⟨hc.1, hc.2.mono hρ⟩
      ready      := h.ready_mono hρ (fun _ => id) fun _ => hforeign
      alarms     := h.alarms_mono hρ (fun _ => id) fun _ => hforeign
      kept       := fun i hi k hk => hforeign (h.kept i hi k hk) }

-- A call is made in both, and becomes known.
theorem addCall {x y : Call} (hu : x.uri = uri) (hxy : x.Same ρ y) :
    Mirrors (ρ.learnCall s.calls.size t.calls.size) uri { s with calls := s.calls.push x }
      { t with calls := t.calls.push y } := by
  have hρ := Renaming.Grows.learnCall h.calls.next t.calls.size
  have hforeign {c : Nat} (hc : Foreign ρ.call s.calls.size c) :
      Foreign (learn ρ.call s.calls.size t.calls.size) (s.calls.push x).size c := by
    rw [Array.size_push]
    exact hc.learn
  exact
    { h with
      sessions   := h.sessions.mono fun _ _ hx => hx.mono hρ
      dispatches := h.dispatches.mono fun _ _ hd => hd.mono hρ
      calls      := (h.calls.mono fun _ _ hc => ⟨hc.1, hc.2.mono hρ⟩).push ⟨hu, hxy.mono hρ⟩
      order      := by
        simp only [Array.size_push, List.range_succ]
        refine (h.order.mono (hρ.call) fun _ hc => ?_).append (.single (learn_self ..))
        exact hc.learn
      ready      := h.ready_mono hρ (fun _ => hforeign) fun _ => id
      alarms     := h.alarms_mono hρ (fun _ => hforeign) fun _ => id
      others     := fun c call hc hn => by
        have hne : c ≠ s.calls.size := by
          rintro rfl
          simp [Renaming.learnCall, learn_self] at hn
        exact h.others c call (by simpa [Array.getElem?_push, hne] using hc) ((learn_of_ne hne).symm.trans hn) }

-- A buffer is opened in both, and becomes known.
theorem openBuffer (text : Text) :
    Mirrors (ρ.learnBuffer s.buffers.size t.buffers.size) uri (s.openBuffer uri text) (t.openBuffer uri text) := by
  have hρ := Renaming.Grows.learnBuffer h.buffers.next t.buffers.size
  exact
    { h with
      buffers    := h.buffers.push rfl
      sessions   := h.sessions.mono fun _ _ hx => hx.mono hρ
      dispatches := h.dispatches.mono fun _ _ hd => hd.mono hρ
      calls      := h.calls.mono fun _ _ hc => ⟨hc.1, hc.2.mono hρ⟩
      opened     := by
        simp only [Service.openBuffer, List.lookup_cons_self]
        exact .some (learn_self ..)
      ready      := h.ready_mono hρ (fun _ => id) fun _ => id
      alarms     := h.alarms_mono hρ (fun _ => id) fun _ => id
      places     := fun uri' hu b hb => by
        simp only [Service.openBuffer, List.lookup_cons, beq_eq_false_iff_ne.mpr hu, Closes.lookup_filter hu] at hb
        rw [Service.openBuffer, Array.size_push]
        exact (h.places uri' hu b hb).learn }

end Mirrors
end Service
end GhostText
