import GhostText.Proofs.Service.Closing
import GhostText.Proofs.Service.Failures
import GhostText.Proofs.Service.Lasting
import GhostText.Proofs.Service.Spacing

namespace GhostText.Service

variable {s s' t : Service} {uri : Text} {c c' i k r time : Nat} {cursor : Cursor} {generation : Nat} {accepted : Bool}
  {call : Call} {o : Options} {e : Event}

-- Something lets the call go on by that time.
def Beat.Wakes (time : Nat) (x : Beat) : Prop :=
  (∃ a ∈ x.alarms, a.due ≤ time) ∨ x.turns ≠ []

theorem Beat.Wakes.mono {time' : Nat} {x : Beat} (h : x.Wakes time) (ht : time ≤ time') : x.Wakes time' :=
  h.imp_left fun ⟨a, ha, hd⟩ => ⟨a, ha, Nat.le_trans hd ht⟩

theorem Beat.wakes_resumeAfter (x : Beat) (delay c : Nat) : (x.resumeAfter delay c).Wakes (x.now + delay) := by
  simp only [Beat.resumeAfter]
  split
  case isTrue  => exact .inr (by simp)
  case isFalse => exact .inl ⟨⟨x.now + delay, .call c⟩, by simp, Nat.le_refl _⟩

-- Whoever is to go on by now has done so, once the service has nothing to do.
theorem Settled.not_wakes (h : s.Settled) (ht : time ≤ s.now) : ¬(s.beat c).Wakes time := by
  rintro (⟨a, ha, hd⟩ | hn)
  case inl =>
    have := h.2 a (List.mem_filter.mp ha).1
    omega
  case inr => exact hn (by simp [beat, h.1])

-- Every call has the buffer for which it was made.
def Buffered (s : Service) : Prop :=
  ∀ (c : Nat) (call : Call), s.calls[c]? = some call → call.buffer < s.buffers.size

theorem Buffered.after (h : s.Buffered) (he : Sparing uri s e) : (s.after e).Buffered := by
  have hl := lasts_after he
  intro c call hc
  cases hc' : s.calls[c]?
  case none       => exact hl.made c call hc hc'
  case some call' =>
    obtain ⟨_, hc''⟩ := hl.calls c call' hc'
    obtain rfl := Option.some.inj (hc.symm.trans hc'')
    exact Nat.lt_of_lt_of_le (h c call' hc') hl.buffers

theorem Lands.request (hf : s.features = none) (hc : s.stage? c ≠ none) (hb : call.buffer < s.buffers.size)
    {session : Session} (hi : s.sessions[i]? = some session) :
    (s.request c call i cursor o).Lands c call.position := by
  have hdispatch (before : Text) : (s.dispatch c i cursor o before).Lands c call.position :=
    ⟨.awaiting i cursor s.dispatches.size true, trivial, (Posts.dispatch hc hi before).stage⟩
  simp only [Service.request, Array.getElem?_eq_getElem hb]
  split
  case isTrue  => exact answer_nil hc _
  case isFalse =>
    split
    case isTrue  => exact hdispatch _
    case isFalse =>
      split
      case h_1 => exact failCall hc call
      case h_2 => rw [gather_of_features_eq_none hf]; exact hdispatch _

-- A call that goes on does not wait any more.
theorem Lands.endDebounce (hs : s.Sound) (hf : s.features = none) (hb : call.buffer < s.buffers.size)
    (hc : s.stage? c = some (.debouncing i cursor generation accepted)) :
    (s.endDebounce c call i cursor generation accepted).Lands c call.position := by
  obtain ⟨session, hi, _⟩ := hs.homed c _ hc
  have hne : s.stage? c ≠ none := by simp [hc]
  simp only [Service.endDebounce, hi]
  split
  case isTrue  => exact answer_nil hne _
  case isFalse =>
    obtain ⟨_, hi', _⟩ := session_enforceLimit hi
    have hst : (s.enforceLimit i).stage? c = s.stage? c := by rw [stage?, calls_enforceLimit, stage?]
    refine request ?_ (hst ▸ hne) ?_ hi'
    case refine_1 => exact (congrArg Beat.features (beat_enforceLimit (c := c))).trans hf
    case refine_2 => exact (Within.enforceLimit (c := c) s i).buffers ▸ hb

theorem wakes_advance (time' : Nat) (h : (s.beat c).Wakes time) : ((s.advanceTo time').beat c).Wakes time := by
  rcases h with ⟨a, ha, hd⟩ | hn
  case inr =>
    obtain ⟨t, ht⟩ := List.exists_mem_of_ne_nil _ hn
    refine .inr (List.ne_nil_of_mem (a := t) ?_)
    simp only [beat, advanceTo, List.mem_filter, List.mem_append] at ht ⊢
    exact ⟨.inl ht.1, ht.2⟩
  case inl =>
    simp only [beat, List.mem_filter, decide_eq_true_eq] at ha
    by_cases hdue : a.due ≤ time'
    case neg =>
      refine .inl ⟨a, ?_, hd⟩
      simp only [beat, advanceTo, List.mem_filter, decide_eq_true_eq]
      exact ⟨⟨ha.1, by omega⟩, ha.2⟩
    case pos =>
      refine .inr (List.ne_nil_of_mem (a := .ring a.bell) ?_)
      simp only [beat, advanceTo, List.mem_filter, List.mem_append, mem_rings_iff, decide_eq_true_eq]
      exact ⟨.inr ⟨a, ⟨ha.1, hdue⟩, rfl⟩, .inr (by rw [ha.2])⟩

-- A turn in which the call does not go on itself.
theorem wakes_takeTurn {turn : Turn} {rest : List Turn} (hf : s.features = none)
    (hc : s.stage? c = some (.debouncing i cursor generation accepted)) (hr : s.ready = turn :: rest)
    (ht : turn ≠ .resumeCall c) (h : (s.beat c).Wakes time) :
    (({ s with ready := rest }.takeTurn turn).beat c).Wakes time := by
  obtain ⟨call, hcall, hst⟩ := Option.map_eq_some_iff.mp hc
  by_cases hring : turn = .ring (.call c)
  case pos =>
    subst hring
    exact .inr (by simp [takeTurn, ring, beat, queue])
  case neg =>
    have hp : ({ s with ready := rest } : Service).beat c = s.beat c := by simp [beat, hr, ht, hring]
    rw [← hp] at h
    by_cases hstart : turn = .startCall c
    case pos =>
      subst hstart
      simpa only [takeTurn, withCall, hcall, startCall, hst] using h
    case neg =>
      by_cases hrelay : turn = .relay c
      case pos =>
        subst hrelay
        simpa only [takeTurn, withCall, hcall, relay, hst] using h
      case neg => exact (beat_takeTurn (s := { s with ready := rest }) hf hstart hrelay hring).symm ▸ h

-- As long as the call waits, what is to let it go on stays.
theorem wakes_after (hu : s.Unaided) (hb : s.Buffered)
    (hc : s.stage? c = some (.debouncing i cursor generation accepted)) (hc' : (s.after e).stage? c = s.stage? c)
    (h : (s.beat c).Wakes time) : ((s.after e).beat c).Wakes time := by
  have hself (he : (s.after e).beat c = s.beat c) : ((s.after e).beat c).Wakes time := he ▸ h
  cases e
  case turn =>
    simp only [after, takeNext] at hc' ⊢
    split at hc'
    case h_1           => exact h
    case h_2 t rest hr =>
      refine wakes_takeTurn hu.features hc hr ?_ h
      rintro rfl
      obtain ⟨call, hcall, hst⟩ := Option.map_eq_some_iff.mp hc
      have hlands := Lands.endDebounce (s := { s with ready := rest }) hu.sound.popped hu.features (hb c call hcall) hc
      obtain ⟨stage, hl, hst'⟩ := hlands.settles
      simp only [takeTurn, withCall, hcall, resumeCall, hst, hst', hc, Option.some.injEq] at hc'
      subst hc'
      exact hl
  case cancel k =>
    simp only [after, cancelCall] at hc' ⊢
    split at hc'
    case h_4 hk =>
      by_cases hkc : k = c
      case neg => rw [beat_setCall, beat_dropAlarm (by simpa using hkc)]; exact h
      case pos =>
        subst hkc
        rw [stage?_cancel hk, if_pos rfl, hc] at hc'
        simp at hc'
    all_goals exact h
  case edit uri span x =>
    simp only [after, edit]
    split <;> exact h
  case provide uri position =>
    simp only [after, provide]
    split
    case h_1 => exact h
    case h_2 => rw [beat_queue (by simp) (by simp)]; exact h
  case advance time'           => exact wakes_advance time' h
  case free uri position shown => exact hself (beat_free uri position shown)
  case close uri               => exact hself (beat_close uri)
  case dispose                 => exact hself beat_dispose
  case assist                  => exact h
  all_goals exact hself rfl

-- The call waits for the end of typing.
def Debounces (s : Service) (c : Nat) : Prop :=
  ∃ i cursor generation accepted, s.stage? c = some (.debouncing i cursor generation accepted)

instance : Decidable (s.Debounces c) :=
  match hc : s.stage? c with
  | some (.debouncing i cursor generation accepted) => .isTrue ⟨i, cursor, generation, accepted, hc⟩
  | none | some .queued | some (.gathering ..) | some (.awaiting ..) | some (.answered _) | some .cancelled =>
    .isFalse (by simp [Debounces, hc])

-- The call is one for the document.
def Concerns (s : Service) (uri : Text) (c : Nat) : Prop :=
  ∃ call : Call, s.calls[c]? = some call ∧ call.uri = uri

instance : Decidable (s.Concerns uri c) :=
  decidable_of_iff (s.calls[c]?.map (·.uri) = some uri) Option.map_eq_some_iff

namespace Lasts

variable {uri' : Text}

theorem stage?_ne_none (h : Lasts uri s s') (hc : s.stage? c ≠ none) : s'.stage? c ≠ none := by
  obtain ⟨stage, hc⟩ := Option.ne_none_iff_exists'.mp hc
  obtain ⟨call, hcall, _⟩ := Option.map_eq_some_iff.mp hc
  obtain ⟨_, hcall'⟩ := h.calls c call hcall
  simp [stage?, hcall']

theorem concerns_of_stage? (h : Lasts uri s s') (hs : s.stage? c ≠ none) (hc : s'.Concerns uri' c) :
    s.Concerns uri' c := by
  obtain ⟨stage, hs⟩ := Option.ne_none_iff_exists'.mp hs
  obtain ⟨call, hcall, _⟩ := Option.map_eq_some_iff.mp hs
  obtain ⟨_, hc'⟩ := h.calls c call hcall
  obtain ⟨call', hcall', hu⟩ := hc
  obtain rfl := Option.some.inj (hcall'.symm.trans hc')
  exact ⟨call, hcall, hu⟩

end Lasts

-- What is always true of a document that is not closed: its calls wait in its session, and no longer than they have to.
structure Housed (uri : Text) (s : Service) : Prop where
  spaced   : s.Spaced
  buffered : s.Buffered
  wakeful  : ∀ c, s.Debounces c → (s.beat c).Wakes (s.now + s.settings.debounce.toNat)
  waiting  : ∀ c i cursor generation accepted, s.stage? c = some (.debouncing i cursor generation accepted) →
    s.Concerns uri c → s.session? uri = some i
  sent     : ∀ (r : Nat) (d : Dispatch), s.dispatches[r]? = some d →
    s.stage? d.call ≠ none ∧ (s.Concerns uri d.call → s.session? uri = some d.session)

namespace Housed

variable {settings : Setup} {backend : Backend}

theorem start : Housed uri (start settings backend none) := by
  refine ⟨.start, ?_, ?_, ?_, ?_⟩ <;> simp [Buffered, Debounces, stage?, Service.start, note]

variable (h : Housed uri s)
include h

-- A call that comes to wait has set itself an alarm.
theorem wakeful_after (e : Event) (hc : (s.after e).Debounces c) :
    ((s.after e).beat c).Wakes ((s.after e).now + (s.after e).settings.debounce.toNat) := by
  obtain ⟨i, cursor, generation, accepted, hc⟩ := hc
  have hhappens := h.spaced.unaided.happens e
  rcases hhappens.debouncing hc with hc' | ⟨_, _, hw⟩
  case inl =>
    refine (wakes_after h.spaced.unaided h.buffered hc' (hc.trans hc'.symm) (h.wakeful c ⟨_, _, _, _, hc'⟩)).mono ?_
    rw [hhappens.settings]
    exact Nat.add_le_add_right hhappens.now _
  case inr =>
    rw [hw.beat, hw.settings, hw.now]
    exact Beat.wakes_resumeAfter _ _ c

theorem waiting_after (he : Sparing uri s e)
    (hc : (s.after e).stage? c = some (.debouncing i cursor generation accepted)) (hu : (s.after e).Concerns uri c) :
    (s.after e).session? uri = some i := by
  have hl := lasts_after he
  rcases (h.spaced.unaided.happens e).debouncing hc with hc' | ⟨_, _, hw⟩
  case inl =>
    exact hl.session? i (h.waiting c i cursor generation accepted hc' (hl.concerns_of_stage? (by simp [hc']) hu))
  case inr =>
    have hq : s.stage? c = some .queued := hw.queued
    obtain ⟨call, hcall, hi⟩ := hw.own
    obtain ⟨call', hcall', rfl⟩ := hl.concerns_of_stage? (by simp [hq]) hu
    obtain rfl := Option.some.inj (hcall.symm.trans hcall')
    exact hi

theorem sent_after (he : Sparing uri s e) {d : Dispatch} (hd : (s.after e).dispatches[r]? = some d) :
    (s.after e).stage? d.call ≠ none ∧
      ((s.after e).Concerns uri d.call → (s.after e).session? uri = some d.session) := by
  have hl := lasts_after he
  have hkeep (h₀ : (s.after e).dispatches[r]?.map Dispatch.made = s.dispatches[r]?.map Dispatch.made) :
      (s.after e).stage? d.call ≠ none ∧
        ((s.after e).Concerns uri d.call → (s.after e).session? uri = some d.session) := by
    obtain ⟨d₀, hd₀, hcall, hsession, _⟩ := exists_of_made h₀ hd
    obtain ⟨hne, hi⟩ := h.sent r d₀ hd₀
    rw [hcall] at hne hi
    exact ⟨hl.stage?_ne_none hne, fun hu => hsession ▸ hl.session? _ (hi (hl.concerns_of_stage? hne hu))⟩
  have hhappens := h.spaced.unaided.happens e
  generalize s.after e = s' at hd hl hhappens hkeep ⊢
  cases hhappens
  case ease he => exact hkeep (he.dispatches r)
  case wait hw => exact hkeep (by rw [hw.dispatches])
  case post c i _ _ hr hlatest hp =>
    by_cases hnew : r = s.dispatches.size
    case neg => exact hkeep (hp.old r hnew)
    case pos =>
      obtain ⟨d', hd', hcall, hsession, _⟩ := hp.new
      obtain rfl := Option.some.inj (hd'.symm.trans (hnew ▸ hd))
      rw [hcall, hsession]
      obtain ⟨_, _, _, hc⟩ := hlatest
      refine ⟨by simp [hp.stage], fun hu => hl.session? i (h.waiting c _ _ _ _ hc (hl.concerns_of_stage? ?_ hu))⟩
      simp [hc]

theorem after (he : Sparing uri s e) : Housed uri (s.after e) where
  spaced   := h.spaced.after e
  buffered := h.buffered.after he
  wakeful  := fun _ => h.wakeful_after e
  waiting  := fun _ _ _ _ _ => h.waiting_after he
  sent     := fun _ _ => h.sent_after he

end Housed

-- Another call of its session has come to wait after the call, which finds that out by the time.
inductive Overtaken (c time : Nat) (s : Service) : Prop
  | waiting {i generation : Nat} {cursor : Cursor} {accepted : Bool} {session : Session}
    (hc : s.stage? c = some (.debouncing i cursor generation accepted)) (hi : s.sessions[i]? = some session)
    (hg : generation < session.generation) (hw : (s.beat c).Wakes time) : Overtaken c time s
  | answered (hc : s.stage? c = some (.answered [])) : Overtaken c time s
  | cancelled (hc : s.stage? c = some .cancelled) : Overtaken c time s

namespace Overtaken

theorem spent (h : Overtaken c time s) : s.Spent c := by
  cases h
  case answered hc  => exact .of_answered hc
  case cancelled hc => exact ⟨by simp [hc], by simp [hc], by simp [Sending, hc]⟩
  case waiting session hc hi hg _ =>
    refine ⟨by simp [hc], by simp [hc], fun j hs => ?_⟩
    rcases hs with ⟨_, _, _, _, hs⟩ | ⟨_, _, x, hx, hs⟩
    case inl => simp [hc] at hs
    case inr =>
      rw [hc, Option.some.injEq, Stage.debouncing.injEq] at hs
      obtain ⟨rfl, _, rfl, _⟩ := hs
      obtain rfl := Option.some.inj (hi.symm.trans hx)
      exact Nat.lt_irrefl _ hg

theorem after (h : Overtaken c time s) (hu : s.Unaided) (hb : s.Buffered) (e : Event) :
    Overtaken c time (s.after e) := by
  cases h
  case answered hc  => exact .answered (stage?_after_of_over hc trivial e)
  case cancelled hc => exact .cancelled (stage?_after_of_over hc trivial e)
  case waiting i generation cursor accepted session hc hi hg hw =>
    by_cases hst : (s.after e).stage? c = s.stage? c
    case pos =>
      obtain ⟨session', hi', hg'⟩ := (hu.happens e).sessions i session hi
      exact .waiting (hst.trans hc) hi' (Nat.lt_of_lt_of_le hg hg') (wakes_after hu hb hc hst hw)
    case neg =>
      generalize hs' : s.after e = s' at hst
      cases hs' ▸ befalls_after c e
      case spare hs  => exact absurd hs.stage? hst
      case make hn _ => simp [stage?, hn] at hc
      case cancel    => exact .cancelled (by rw [stage?_cancel hc, if_pos rfl])
      case turn rest _ ht =>
        have hp : ({ s with ready := rest } : Service).stage? c = some (.debouncing i cursor generation accepted) := hc
        rcases ht with rfl | rfl
        case inl =>
          rw [takeTurn_startCall_of_ne_queued (by simp [hp])] at hst
          exact absurd rfl hst
        case inr =>
          obtain ⟨call, hcall, hstage⟩ := Option.map_eq_some_iff.mp hc
          refine .answered ?_
          simp only [takeTurn, withCall, hcall, resumeCall, hstage, endDebounce, hi]
          rw [if_pos (Nat.ne_of_gt hg)]
          have hne : s.stage? c ≠ none := by simp [hc]
          exact stage?_answer hne []

theorem reaches (h : Overtaken c time s) (hs : Housed uri s) (ht : Run (Sparing uri) s t) : Overtaken c time t := by
  have : Housed uri t ∧ Overtaken c time t := by
    induction ht
    case refl           => exact ⟨hs, h⟩
    case step _ _ _ he ih => exact ⟨ih.1.after he, ih.2.after ih.1.spaced.unaided ih.1.buffered _⟩
  exact this.2

end Overtaken

-- A request is sent when the clock says so.
theorem Happens.createdAt (h : Happens s s') {d : Dispatch} (hd : s'.dispatches[r]? = some d)
    (hr : s.dispatches.size ≤ r) : d.prediction.createdAt = s.now := by
  have hold (h₀ : s'.dispatches[r]?.map Dispatch.made = s.dispatches[r]?.map Dispatch.made) :
      d.prediction.createdAt = s.now := by
    obtain ⟨d₀, hd₀, _⟩ := exists_of_made h₀ hd
    have := (Array.getElem?_eq_some_iff.mp hd₀).1
    omega
  cases h
  case ease he => exact hold (he.dispatches r)
  case wait hw => exact hold (by rw [hw.dispatches])
  case post hp =>
    by_cases hnew : r = s.dispatches.size
    case neg => exact hold (hp.old r hnew)
    case pos =>
      obtain ⟨d', hd', _, _, _, hat⟩ := hp.new
      obtain rfl := Option.some.inj (hd'.symm.trans (hnew ▸ hd))
      exact hat

-- The other call comes to wait in the same session, while the first one still waits.
theorem Housed.overtaken (h : Housed uri s) (he : Sparing uri s e) (hu : s.Concerns uri c) (hc : s.Debounces c)
    (hu' : (s.after e).Concerns uri c') (hn : ¬s.Debounces c') (hc' : (s.after e).Debounces c') :
    (s.after e).Debounces c ∧ Overtaken c (s.now + s.settings.debounce.toNat) (s.after e) := by
  have hl := lasts_after he
  have hwakes := h.wakeful c hc
  obtain ⟨i, cursor, generation, accepted, hc⟩ := hc
  obtain ⟨j, _, _, _, hc'⟩ := hc'
  rcases (h.spaced.unaided.happens e).debouncing hc' with hc'' | ⟨rest, _, hw⟩
  case inl => exact absurd ⟨_, _, _, _, hc''⟩ hn
  case inr =>
    have hcc : c ≠ c' := by
      rintro rfl
      exact hn ⟨_, _, _, _, hc⟩
    have hst : (s.after e).stage? c = s.stage? c := hw.others c hcc
    have hi := hl.session? i (h.waiting c i cursor generation accepted hc hu)
    obtain rfl : i = j := Option.some.inj (hi.symm.trans ((h.after he).waiting c' j _ _ _ hc' hu'))
    obtain ⟨x, hx, hg⟩ := h.spaced.unaided.sound.homed c _ hc
    obtain ⟨y, hy, hg'⟩ := hw.sessions i x hx
    rw [if_pos rfl] at hg'
    have hwakes' := wakes_after h.spaced.unaided h.buffered hc hst hwakes
    exact ⟨⟨_, _, _, _, hst.trans hc⟩, .waiting (hst.trans hc) hy (by omega) hwakes'⟩

-- A call that waits has sent no request.
theorem Accounted.unsent (h : Accounted none s) (hc : s.Debounces c) : s.Unsent c := by
  rintro r d hd rfl
  obtain ⟨_, _, _, _, hc⟩ := hc
  obtain ⟨_, _, ⟨_, _, hs⟩ | hs | ⟨⟨_, hs⟩, _⟩⟩ := h.sent r d hd <;> simp [hc] at hs

variable {settings : Setup} {backend : Backend}

theorem Housed.run (h : Run (Sparing uri) (Service.start settings backend none) s) :
    Housed uri s ∧ s.settings = settings := by
  induction h
  case refl             => exact ⟨.start, rfl⟩
  case step e _ he ih => exact ⟨ih.1.after he, (ih.1.spaced.unaided.happens e).settings.trans ih.2⟩

-- While the document is not closed, a call that another one follows before it goes on sends no request. Unless it is
-- cancelled it is answered with nothing, in the time that it has to wait. Any two requests for the document are sent at
-- least that time apart.
theorem requests_apart (h : Run (Sparing uri) (start settings backend none) s) :
    (∀ c c' e t, s.Concerns uri c → s.Debounces c → Sparing uri s e → (s.after e).Concerns uri c' → ¬s.Debounces c' →
      (s.after e).Debounces c' → Run (Sparing uri) (s.after e) t →
        (∀ (r : Nat) (d : Dispatch), t.dispatches[r]? = some d → d.call ≠ c) ∧
        (t.Debounces c ∨ t.stage? c = some (.answered []) ∨ t.stage? c = some .cancelled) ∧
        (t.Settled → s.now + settings.debounce.toNat ≤ t.now → ¬t.Debounces c)) ∧
    (∀ (e : Event) (r : Nat) (d : Dispatch), (s.after e).dispatches[r]? = some d → s.dispatches.size ≤ r →
      d.prediction.createdAt = s.now) ∧
    ∀ (r r' : Nat) (d d' : Dispatch), s.dispatches[r]? = some d → s.dispatches[r']? = some d' → r ≠ r' →
      s.Concerns uri d.call → s.Concerns uri d'.call →
        settings.debounce ≤ (d.prediction.createdAt - d'.prediction.createdAt).natAbs := by
  obtain ⟨hh, hsettings⟩ := Housed.run h
  refine ⟨fun c c' e t hu hc he hu' hn hc' ht => ?_, fun e r d hd hr => ?_, fun r r' d d' hd hd' hr hu hu' => ?_⟩
  case refine_1 =>
    obtain ⟨hstays, hs⟩ := hh.overtaken he hu hc hu' hn hc'
    have hunsent := (Accounted.reaches (h.reaches.after e)).unsent hstays
    have hsince := Since.reaches (hh.after he).spaced.unaided.sound ht.reaches
    have hover := hs.reaches (hh.after he) ht
    refine ⟨fun r d hd hdc => ?_, ?_, fun hset htime => ?_⟩
    case refine_1 =>
      by_cases hr : r < (s.after e).dispatches.size
      case neg => exact hsince.sent r d hd (Nat.not_lt.mp hr) (hdc ▸ hs.spent)
      case pos =>
        obtain ⟨d', hd', hdc', _⟩ := hsince.dispatches r _ (Array.getElem?_eq_getElem hr)
        obtain rfl := Option.some.inj (hd.symm.trans hd')
        exact hunsent r _ (Array.getElem?_eq_getElem hr) (hdc'.symm.trans hdc)
    case refine_2 =>
      cases hover
      case waiting hc _ _ _ => exact .inl ⟨_, _, _, _, hc⟩
      case answered hc      => exact .inr (.inl hc)
      case cancelled hc     => exact .inr (.inr hc)
    case refine_3 =>
      rintro ⟨_, _, _, _, hd⟩
      cases hover
      case waiting hw   => exact hset.not_wakes (hsettings ▸ htime) hw
      case answered hc  => simp [hc] at hd
      case cancelled hc => simp [hc] at hd
  case refine_2 => exact (hh.spaced.unaided.happens e).createdAt hd hr
  case refine_3 =>
    have hi := (hh.sent r d hd).2 hu
    have hi' := (hh.sent r' d' hd').2 hu'
    exact hsettings ▸ hh.spaced.apart r r' d d' hd hd' hr (Option.some.inj (hi.symm.trans hi'))

theorem Sparing.settle (s : Service) (ms : Nat) : Run (Sparing uri) s (s.settle ms) :=
  .settle (fun _ => ⟨nofun, nofun⟩) (fun _ _ _ => ⟨nofun, nofun⟩) s ms

theorem Run.spare (h : Run (Sparing uri) s t) (e : Event) (hc : e ≠ .close uri) (hd : e ≠ .dispose) :
    Run (Sparing uri) s (t.after e) :=
  .step h ⟨hc, hd⟩

-- While a call waits, another one is made.
def typedOn : Service :=
  let s := (start { debounce := 10, useHints := false } lateBackend none).after (.openBuffer ['a'] "x = ".toList)
  ((s.after (.provide ['a'] ⟨0, 4⟩)).settle 5).after (.provide ['a'] ⟨0, 4⟩)

theorem run_typedOn : Run (Sparing ['a']) (start { debounce := 10, useHints := false } lateBackend none) typedOn :=
  let hopened := Run.refl.spare (.openBuffer ['a'] "x = ".toList) nofun nofun
  let hwaits := (hopened.spare (.provide ['a'] ⟨0, 4⟩) nofun nofun).trans (Sparing.settle _ 5)
  hwaits.spare (.provide ['a'] ⟨0, 4⟩) nofun nofun

-- The second call has sent its request, and after a third one there are two.
def sentOn : Service :=
  (typedOn.after .turn).settle 10

def sentTwice : Service :=
  (sentOn.after (.provide ['a'] ⟨0, 1⟩)).settle 10

theorem run_sentOn : Run (Sparing ['a']) (typedOn.after .turn) sentOn :=
  Sparing.settle _ 10

theorem run_sentTwice : Run (Sparing ['a']) (start { debounce := 10, useHints := false } lateBackend none) sentTwice :=
  let hsent := (run_typedOn.spare .turn nofun nofun).trans run_sentOn
  (hsent.spare (.provide ['a'] ⟨0, 1⟩) nofun nofun).trans (Sparing.settle _ 10)

theorem requests_apart_sentTwice :
    (typedOn.Debounces 0 ∧ (typedOn.after .turn).Debounces 1 ∧ (∀ d ∈ sentOn.dispatches.toList, d.call ≠ 0) ∧
      sentOn.answer? 0 = some []) ∧
    sentTwice.dispatches.toList.map (fun d => (d.call, d.prediction.createdAt)) = [(1, 15), (2, 25)] ∧
      ∀ d d', sentTwice.dispatches[0]? = some d → sentTwice.dispatches[1]? = some d' →
        10 ≤ (d.prediction.createdAt - d'.prediction.createdAt).natAbs := by
  have hc : typedOn.Debounces 0 := by decide +kernel
  have hc' : (typedOn.after .turn).Debounces 1 := by decide +kernel
  obtain ⟨hunsent, hover, hpast⟩ := (requests_apart run_typedOn).1 0 1 .turn sentOn (by decide +kernel) hc
    ⟨nofun, nofun⟩ (by decide +kernel) (by decide +kernel) hc' run_sentOn
  refine ⟨⟨hc, hc', fun d hd => ?_, ?_⟩, by decide +kernel, fun d d' hd hd' => ?_⟩
  case refine_1 =>
    obtain ⟨r, hr⟩ := List.mem_iff_getElem?.mp hd
    exact hunsent r d (by simpa using hr)
  case refine_2 =>
    rcases hover with hn | ha | hn
    case inl       => exact absurd hn (hpast (settled_settle _ 10) (by decide +kernel))
    case inr.inl   => simp [answer?, ha]
    case inr.inr   =>
      have : sentOn.answer? 0 ≠ none := by decide +kernel
      simp [answer?, hn] at this
  case refine_3 =>
    have hcalls : sentTwice.dispatches.toList.map (·.call) = [1, 2] := by decide +kernel
    have hcall {r : Nat} {d : Dispatch} (hd : sentTwice.dispatches[r]? = some d) : [1, 2][r]? = some d.call := by
      rw [← hcalls, List.getElem?_map, Array.getElem?_toList, hd, Option.map_some]
    have h₁ : d.call = 1 := (Option.some.inj (hcall hd)).symm
    have h₂ : d'.call = 2 := (Option.some.inj (hcall hd')).symm
    have := (requests_apart run_sentTwice).2.2 0 1 d d' hd hd' (by decide) (by rw [h₁]; decide +kernel)
      (by rw [h₂]; decide +kernel)
    exact Int.ofNat_le.mp this

end GhostText.Service
