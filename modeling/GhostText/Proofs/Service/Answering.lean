import GhostText.Proofs.Service.Deadlines
import GhostText.Proofs.Service.Debounce

namespace GhostText.Service

variable {s : Service} {rest : List Turn} {turn : Turn} {uri : Text} {c i r : Nat} {position : Position} {call : Call}
  {cursor : Cursor} {session : Session} {own accepted : Bool} {e : Event}

-- The call has had its first turn and was not taken back. What it is answered with begins at the position.
def Stage.Begun (position : Position) : Stage → Prop
  | .queued | .cancelled => False
  | .answered l          => ∀ x ∈ l, x.span.start = position
  | _                    => True

def Begun (s : Service) (c : Nat) (position : Position) : Prop :=
  ∃ stage, stage.Begun position ∧ s.stage? c = some stage

namespace Begun

theorem of_lands (h : s.Lands c position) : s.Begun c position := by
  obtain ⟨stage, hl, hst⟩ := h
  refine ⟨stage, ?_, hst⟩
  cases stage <;> first | exact hl | exact hl.elim

theorem debounce (h : s.stage? c ≠ none) : (s.debounce c call i session cursor accepted).Begun c call.position := by
  simp only [Service.debounce]
  split
  case isTrue  => exact of_lands (.failCall h call)
  case isFalse =>
    obtain ⟨_, he⟩ := Stands.resumeAfter
      ((s.setSession i { session with generation := session.generation + 1 }).setCall c
        (.debouncing i cursor (session.generation + 1) accepted)) s.settings.debounce.toNat c
    exact ⟨.debouncing i cursor (session.generation + 1) accepted, trivial,
      (he.stage? c).trans ((stage?_setCall (s := s.setSession i _) h _ c).trans (if_pos rfl))⟩

theorem seek (ho : s.Owned) (hb : call.buffer < s.buffers.size) (h : s.stage? c ≠ none) :
    (s.seek c call).Begun c call.position := by
  have hi := session?_sessionFor s call.uri call.uri
  rw [if_pos rfl] at hi
  obtain ⟨session, hi⟩ := (ho.sessionFor call.uri).exists_session hi
  have hopens := Opens.sessionFor s call.uri
  have hbuffers := (fixed_sessionFor s c call.uri).buffers
  simp only [Service.seek]
  generalize s.sessionFor call.uri = x at hi hopens hbuffers ⊢
  rw [stage?, ← hopens.calls, ← stage?] at h
  simp only [hbuffers, Array.getElem?_eq_getElem hb, hi]
  rw [← (Extends.noteAll x.1 (findMatch _ (x.1.predictionsIn session)).2).stage?] at h
  split
  case h_1 => exact of_lands (.serveCached h)
  case h_2 =>
    split
    case h_1 => exact debounce h
    case h_2 => exact of_lands (.failCall h call)

theorem deliver (h : s.Begun c call.position) : (s.deliver c call i cursor r own).Begun c call.position := by
  have hne : s.stage? c ≠ none := by
    obtain ⟨_, _, hst⟩ := h
    simp [hst]
  simp only [Service.deliver]
  split
  case h_1      => exact h
  case h_2 p hp =>
    split
    case h_1 => exact h
    case h_2 =>
      refine of_lands ?_
      split
      case isTrue  => exact .answer_nil (by rwa [stage?, calls_forget, ← stage?]) _
      case isFalse =>
        split
        case isTrue  => exact .complete hne p _
        case isFalse =>
          have he := Extends.noteAll s ((Bounds.judge cursor.before p.before p.insertText).notices p.id)
          rw [← he.stage? c] at hne
          split
          case h_1 => exact .complete hne p _
          case h_2 => exact .answer_nil hne _

theorem startCall (ho : s.Owned) (hb : call.buffer < s.buffers.size) (hc : s.calls[c]? = some call)
    (hq : call.stage = .queued) : (s.startCall c call).Begun c call.position := by
  have h : s.stage? c ≠ none := by simp [stage?, hc]
  simp only [Service.startCall, hq]
  split
  case isTrue  => exact seek ho hb h
  case isFalse => exact of_lands (.answer_nil h _)

theorem resumeCall (hu : s.Unaided) (hb : call.buffer < s.buffers.size) (hc : s.calls[c]? = some call)
    (h : call.stage.Begun call.position) : (s.resumeCall c call).Begun c call.position := by
  have hst : s.stage? c = some call.stage := by simp [stage?, hc]
  have hself : s.Begun c call.position := ⟨call.stage, h, hst⟩
  simp only [Service.resumeCall]
  split
  case h_1 hw => exact of_lands (.endDebounce hu.sound hu.features hb (hw ▸ hst))
  case h_2 hg => exact absurd (hg ▸ hst) (hu.direct _ _ _ _ _ _)
  case h_3    => exact deliver hself
  case h_4    => exact hself

-- A turn of the call itself, the first one or a later one.
theorem takeTurn (hu : s.Unaided) (ho : s.Owned) (hb : call.buffer < s.buffers.size) (hc : s.calls[c]? = some call)
    (h : turn = .startCall c ∧ call.stage = .queued ∨
      (turn = .startCall c ∨ turn = .resumeCall c) ∧ call.stage.Begun call.position) :
    (s.takeTurn turn).Begun c call.position := by
  have hst : s.stage? c = some call.stage := by simp [stage?, hc]
  rcases h with ⟨rfl, hq⟩ | ⟨rfl | rfl, hx⟩
  case inl     => simpa only [Service.takeTurn, withCall, hc] using startCall ho hb hc hq
  case inr.inr => simpa only [Service.takeTurn, withCall, hc] using resumeCall hu hb hc hx
  case inr.inl =>
    rw [takeTurn_startCall_of_ne_queued fun hq => by rw [Option.some.inj (hst.symm.trans hq)] at hx; exact hx]
    exact ⟨call.stage, hx, hst⟩

end Begun

-- A call waits for its first turn or has had it.
def Attentive (s : Service) : Prop :=
  ∀ (c : Nat) (call : Call), s.calls[c]? = some call →
    call.stage = .queued ∧ .startCall c ∈ s.ready ∨ call.stage.Begun call.position

namespace Attentive

theorem takeTurn (h : s.Attentive) (hu : s.Unaided) (ho : s.Owned) (hb : s.Buffered) (hr : s.ready = turn :: rest) :
    ({ s with ready := rest }.takeTurn turn).Attentive := by
  have hopped : ({ s with ready := rest } : Service).Owned :=
    ho.of_eq rfl rfl rfl rfl fun _ hc => hr ▸ List.mem_cons_of_mem _ hc
  have hready := ready_takeTurn { s with ready := rest } turn
  have hlasts : Lasts [] { s with ready := rest } _ := .takeTurn { s with ready := rest } turn
  intro c call' hc'
  by_cases ht : turn = .startCall c ∨ turn = .resumeCall c
  case neg =>
    rw [not_or] at ht
    rw [(spares_takeTurn _ ht.1 ht.2).own] at hc'
    refine (h c call' hc').imp_left fun ⟨hq, hm⟩ => ⟨hq, hready.mem ?_⟩
    rw [hr] at hm
    exact (List.mem_cons.mp hm).resolve_left (Ne.symm ht.1)
  case pos =>
    cases hc : s.calls[c]?
    case none      => rcases ht with rfl | rfl <;> simp [Service.takeTurn, withCall, hc] at hc'
    case some call =>
      obtain ⟨stage, hst⟩ := hlasts.calls c call hc
      obtain rfl := Option.some.inj (hc'.symm.trans hst)
      have hbegun (hturn : turn = .startCall c ∧ call.stage = .queued ∨
          (turn = .startCall c ∨ turn = .resumeCall c) ∧ call.stage.Begun call.position) :
          stage.Begun call.position := by
        obtain ⟨x, hx, hstage⟩ :=
          Begun.takeTurn (s := { s with ready := rest }) hu.popped hopped (hb c call hc) hc hturn
        obtain rfl : stage = x := by simpa [stage?, hc'] using hstage
        exact hx
      rcases h c call hc with ⟨hq, hm⟩ | hx
      case inr => exact .inr (hbegun (.inr ⟨ht, hx⟩))
      case inl =>
        rcases ht with rfl | rfl
        case inl => exact .inr (hbegun (.inl ⟨rfl, hq⟩))
        case inr =>
          -- to be woken before the first turn does nothing
          simp only [Service.takeTurn, withCall, hc, Service.resumeCall, hq, Option.some.injEq] at hc' ⊢
          exact .inl ⟨(congrArg Call.stage hc').symm.trans hq, by simpa [hr] using hm⟩

theorem after (h : s.Attentive) (hu : s.Unaided) (ho : s.Owned) (hb : s.Buffered) (he : ∀ k, e ≠ .cancel k) :
    (s.after e).Attentive := by
  have hother (hs : ∀ c, Spares c s (s.after e)) (hm : Moves 0 s (s.after e)) : (s.after e).Attentive := by
    intro c call hc
    rw [(hs c).own] at hc
    exact (h c call hc).imp_left fun ⟨hq, hr⟩ => ⟨hq, hm.frame.ready.mem hr⟩
  cases e
  case turn =>
    simp only [Service.after, takeNext]
    split
    case h_1    => exact h
    case h_2 hr => exact h.takeTurn hu ho hb hr
  case provide uri position =>
    simp only [Service.after, Service.provide]
    split
    case h_1 => exact h
    case h_2 =>
      intro c call hc
      simp only [queue, Array.getElem?_push] at hc ⊢
      split at hc
      case isTrue hnew => obtain rfl := Option.some.inj hc; exact .inl ⟨rfl, by simp [hnew]⟩
      case isFalse     => exact (h c call hc).imp_left fun ⟨hq, hr⟩ => ⟨hq, List.mem_append_left _ hr⟩
  case cancel k => exact absurd rfl (he k)
  all_goals
    exact hother (fun _ => spares_after (by simp) (by simp) (by simp)) (moves_after (by simp) (by simp) (by simp))

end Attentive

-- The document is not closed and no question taken back, and the clock does not go on while a turn is due.
def Patient (uri : Text) (s : Service) (e : Event) : Prop :=
  Sparing uri s e ∧ Timely s e ∧ ∀ k, e ≠ .cancel k

variable {settings : Setup} {backend : Backend} {features : Option LanguageFeatures}

theorem Attentive.run (h : Run (Patient uri) (start settings backend none) s) : s.Attentive := by
  induction h
  case refl           => simp [Attentive, start, note]
  case step hr he ih =>
    have hh := (Housed.run (hr.mono fun _ _ he => he.1)).1
    exact ih.after hh.spaced.unaided (.reaches hr.reaches) hh.buffered he.2.2

-- With no turn due and no alarm set every request is over, and has been told to those that awaited it.
theorem not_awaiting_of_idle (h : Run Timely (start settings backend features) s) (hr : s.ready = [])
    (ha : s.alarms = []) : ¬s.Awaiting c r := by
  rintro ⟨i, cursor, own, hc⟩
  have haccounted := Accounted.reaches h.reaches
  obtain ⟨d, hd, _⟩ := haccounted.awaited c i r cursor own hc
  have hp : d.prediction.isPending = true := by
    rw [← Bool.not_eq_false]
    intro hp
    have := haccounted.told c r d (by simp) ⟨i, cursor, own, hc⟩ hd hp
    simp [hr] at this
  have htended := hr ▸ (Attended.reaches h.reaches).tended r d hd
  have hwatch : d.watch = .watching false := htended.ended_or_watching.resolve_left fun hw => by
    simp [(Tallied.reaches h.reaches).isPending_of_ended hr (Array.mem_of_getElem? hd) hw] at hp
  rcases (Punctual.reaches h r d hd).watched hwatch with hm | ⟨due, hm, _⟩
  case inl => simp [hr] at hm
  case inr => simp [ha] at hm

theorem answered_of_idle (h : Run (Patient uri) (start settings backend none) s) (hr : s.ready = [])
    (ha : s.alarms = []) (hc : s.calls[c]? = some call) : ∃ l, s.answer? c = some l := by
  have hh := (Housed.run (h.mono fun _ _ he => he.1)).1
  have hst : s.stage? c = some call.stage := by simp [stage?, hc]
  have hbegun : call.stage.Begun call.position := (Attentive.run h c call hc).resolve_left fun hq => by simp [hr] at hq
  cases hstage : call.stage <;> rw [hstage] at hbegun hst
  case queued     => exact hbegun.elim
  case cancelled  => exact hbegun.elim
  case answered l => exact ⟨l, by simp [answer?, hst]⟩
  case gathering  => exact absurd hst (hh.spaced.unaided.direct _ _ _ _ _ _)
  case awaiting   =>
    exact absurd ⟨_, _, _, hst⟩ (not_awaiting_of_idle (c := c) (h.mono fun _ _ he => he.2.1) hr ha)
  case debouncing =>
    rcases hh.wakeful c ⟨_, _, _, _, hst⟩ with ⟨a, hm, _⟩ | hn
    case inl => simp [beat, ha] at hm
    case inr => exact absurd (by simp [beat, hr]) hn

theorem Patient.exhaust (s : Service) : Run (Patient uri) s s.exhaust :=
  .exhaust (fun _ => ⟨⟨nofun, nofun⟩, trivial, nofun⟩) (fun _ _ hr => ⟨⟨nofun, nofun⟩, hr, nofun⟩) s

-- So what was asked is answered once nothing is left to do.
theorem answered_exhaust (h : Run (Patient uri) (start settings backend none) s) (hc : s.calls[c]? = some call) :
    ∃ l, s.exhaust.answer? c = some l := by
  have hrun : Run (Patient uri) s s.exhaust := Patient.exhaust s
  obtain ⟨hr, ha⟩ := settled_exhaust s
  obtain ⟨_, hc'⟩ := (Lasts.run (hrun.mono fun _ _ he => he.1)).calls c call hc
  exact answered_of_idle (h.trans hrun) hr ha hc'

-- The completions are for the position that was asked about.
theorem start_span_of_answer? (h : Run (Patient uri) (start settings backend none) s) (hc : s.calls[c]? = some call)
    {l : List Completion} (hl : s.answer? c = some l) : ∀ x ∈ l, x.span.start = call.position := by
  have hst : call.stage = .answered l := by
    simp only [answer?, stage?, hc, Option.map_some] at hl
    cases hstage : call.stage <;> simp_all
  simpa [hst, Stage.Begun] using Attentive.run h c call hc

end GhostText.Service
