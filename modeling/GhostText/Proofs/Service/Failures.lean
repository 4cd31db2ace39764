import GhostText.Proofs.Service.Turns

namespace GhostText.Service

variable {s s' : Service} {x : Option Nat} {c i r : Nat} {d : Dispatch}

-- The call has waited for the prediction. Unless it was cancelled it still does, or the prediction has its text or
-- is not kept any more.
def Waited (s : Service) (r c : Nat) : Prop :=
  ∃ d : Dispatch, s.dispatches[r]? = some d ∧
    ((∃ cursor own, s.stage? c = some (.awaiting d.session cursor r own)) ∨ s.stage? c = some .cancelled ∨
      (∃ completions, s.stage? c = some (.answered completions)) ∧
        (d.prediction.status = .finished ∨ r ∉ s.kept d.session))

-- A call other than the exempt one that awaits a settled prediction is told so.
structure Accounted (x : Option Nat) (s : Service) : Prop where
  sound   : s.Sound
  awaited : ∀ (c i r : Nat) (cursor : Cursor) (own : Bool), s.stage? c = some (.awaiting i cursor r own) →
    ∃ d : Dispatch, s.dispatches[r]? = some d ∧ d.session = i
  told    : ∀ (c r : Nat) (d : Dispatch), some c ≠ x → s.Awaiting c r → s.dispatches[r]? = some d →
    d.prediction.isPending = false → .relay c ∈ s.ready ∨ .resumeCall c ∈ s.ready
  sent    : ∀ (r : Nat) (d : Dispatch), s.dispatches[r]? = some d → s.Waited r d.call

-- A call that waits does not move before it has an answer.
theorem Next.of_waited {stage : Stage} (h : Next s c stage) (hw : s.Waited r c) :
    ∃ completions, stage = .answered completions ∧
      ∃ d : Dispatch, s.dispatches[r]? = some d ∧ (d.prediction.status = .finished ∨ r ∉ s.kept d.session) := by
  obtain ⟨d, hd, hw⟩ := hw
  cases h
  case debounce hc _ => simp [hc] at hw
  case join hc _ _ _ => simp [hc] at hw
  case answer hc _ =>
    refine ⟨_, rfl, d, hd, ?_⟩
    simp only [Answerable] at hc
    rcases hw with ⟨_, _, hs⟩ | hs | ⟨⟨_, hs⟩, _⟩ <;> rw [hs] at hc
    case inl => simpa [prediction?, hd] using hc
    all_goals contradiction

namespace Waited

theorem move (h : s.Waited r c) {c' : Nat} (hm : Move c' s s') : s'.Waited r c := by
  cases hm.stage? c
  case inr hn =>
    obtain ⟨hc, stage, hn, hs⟩ := hn
    obtain ⟨completions, hst, d, hd, hk⟩ := hn.of_waited (hc ▸ h)
    obtain ⟨d', hd', _, hi, hp⟩ := hm.frame.exists_dispatch hd
    refine ⟨d', hd', .inr (.inr ⟨⟨completions, hst ▸ hs⟩, ?_⟩)⟩
    rw [hi, hp]
    exact hk.imp_right fun hk hk' => hk ((hm.frame.kept _).mem hk')
  case inl hs =>
    obtain ⟨d, hd, hw⟩ := h
    obtain ⟨d', hd', _, hi, hp⟩ := hm.frame.exists_dispatch hd
    refine ⟨d', hd', ?_⟩
    rw [hi, hp, hs]
    exact hw.imp_right fun hw => hw.imp_right fun hw =>
      ⟨hw.1, hw.2.imp_right fun hk hk' => hk ((hm.frame.kept _).mem hk')⟩

theorem moves (h : s.Waited r c) {c' : Nat} (hm : Moves c' s s') : s'.Waited r c := by
  induction hm
  case refl         => exact h
  case tail _ hm ih => exact ih.move hm

-- A call that sends a request has not waited for any.
theorem not_sending (h : s.Waited r c) : ¬s.Sending c i := by
  intro hc
  obtain ⟨d, _, hw⟩ := h
  rcases hc with ⟨_, _, _, _, hc⟩ | ⟨_, _, _, _, hc⟩ <;> simp [hc] at hw

theorem send (h : s.Waited r c) {c' : Nat} (hs : Send c' s s') : s'.Waited r c := by
  cases hs
  case gather i hc cursor o y unasked =>
    have hne : c ≠ c' := by rintro rfl; exact h.not_sending hc
    have hst := stage?_setCall hc.stage?_ne_none (.gathering i cursor o y unasked) c
    rw [if_neg hne] at hst
    obtain ⟨d, hd, hw⟩ := h
    exact ⟨d, hd, by rw [hst]; exact hw⟩
  case send i session d' hc hi hd' cursor =>
    have hne : c ≠ c' := by rintro rfl; exact h.not_sending hc
    obtain ⟨d, hd, hw⟩ := h
    have hlt := (Array.getElem?_eq_some_iff.mp hd).1
    refine ⟨d, by rw [getElem?_dispatches_send, if_neg (Nat.ne_of_lt hlt), hd], ?_⟩
    rw [stage?_send hc.stage?_ne_none, if_neg hne, kept_send hi]
    refine hw.imp_right fun hw => hw.imp_right fun hw => ⟨hw.1, hw.2.imp_right fun hk => ?_⟩
    split
    case isFalse     => exact hk
    case isTrue hij  => simpa [hij, Nat.ne_of_lt hlt] using hk

theorem sends (h : s.Waited r c) {c' : Nat} (hs : Sends c' s s') : s'.Waited r c :=
  hs.keeps (P := fun u => u.Waited r c) (fun _ _ hp => hp.move) (fun _ _ hp => hp.send) h

theorem lives (h : s.Waited r c) {r' : Nat} {t : Turn} (hd : s.dispatches[r']? = some d) (hl : Lives r' t d s s') :
    s'.Waited r c := by
  obtain ⟨_, hsess, hcalls⟩ := hl.sessions_calls
  have hst : s'.stage? c = s.stage? c := by rw [stage?, hcalls, stage?]
  have hk (i : Nat) : s'.kept i = s.kept i := by rw [kept, hsess, kept]
  obtain ⟨d', q, hlife, _, hdisp⟩ := hl.exists_life hd
  obtain ⟨x, hx, hw⟩ := h
  by_cases hr : r' = r
  case neg => exact ⟨x, by rw [hdisp, if_neg hr, hx], by rw [hst, hk]; exact hw⟩
  case pos =>
    subst hr
    obtain rfl := Option.some.inj (hd ▸ hx)
    obtain ⟨_, hi, hp⟩ := hlife.ages
    refine ⟨d', by rw [hdisp, if_pos rfl], ?_⟩
    rw [hst, hi, hk]
    refine hw.imp_right fun hw => hw.imp_right fun hw => ⟨hw.1, hw.2.imp_left fun hf => ?_⟩
    have hs : d.prediction.isPending = false := by
      cases hst : d.prediction.stage <;> simp_all [Prediction.status, Prediction.isPending]
    rw [Prediction.status, hp hs]
    exact hf

theorem takes (h : s.Waited r c) {t : Turn} (ht : Takes s t s') : s'.Waited r c := by
  rcases ht.sends_or_lives with ⟨⟨c', h'⟩, _⟩ | ⟨r', d, _, hd, h'⟩
  case inl => exact h.sends h'
  case inr => exact h.lives hd h'

theorem acts (h : s.Waited r c) (ha : Acts s s') : s'.Waited r c := by
  cases ha
  case moves h' => exact h.moves h'
  case provide call hc =>
    obtain ⟨d, hd, hw⟩ := h
    have hne : c ≠ s.calls.size := by
      intro hc'
      have : s.stage? c = none := by simp [stage?, hc']
      simp [this] at hw
    exact ⟨d, hd, by rw [stage?_provide, if_neg hne]; exact hw⟩
  case cancel c' stage hc ha hn =>
    obtain ⟨d, hd, hw⟩ := h
    refine ⟨d, hd, ?_⟩
    rw [stage?_cancel hc]
    split
    case isTrue  => exact .inr (.inl rfl)
    case isFalse => exact hw

theorem after (h : s.Waited r c) (hs : s.Sound) (e : Event) : (s.after e).Waited r c := by
  rcases hs.after_cases e with ha | ⟨t, rest, _, _, ht⟩
  case inl => exact h.acts ha
  case inr =>
    have hp : ({ s with ready := rest } : Service).Waited r c := h
    exact hp.takes ht

end Waited
namespace Accounted

theorem start {settings : Setup} {backend : Backend} {features : Option LanguageFeatures} :
    Accounted none (Service.start settings backend features) := by
  constructor
  case sound => exact .start
  all_goals simp [Service.start, note, stage?]

theorem move (h : Accounted x s) (hm : Move c s s') : Accounted x s' where
  sound   := h.sound.move hm
  awaited := fun c' i r cursor own hs => by
    obtain ⟨d, hd, hi⟩ : ∃ d : Dispatch, s.dispatches[r]? = some d ∧ d.session = i := by
      cases hm.stage? c'
      case inl he => exact h.awaited c' i r cursor own (he ▸ hs)
      case inr he =>
        obtain ⟨_, _, hn, he⟩ := he
        obtain rfl := Option.some.inj (he ▸ hs)
        cases hn
        case join hi hp => exact h.sound.kept i r (mem_kept_of_mem_predictionsIn hi hp).1
    obtain ⟨d', hd', _, hi', _⟩ := hm.frame.exists_dispatch hd
    exact ⟨d', hd', hi'.trans hi⟩
  told    := fun c' r d hc ha hd hp => by
    obtain ⟨d', hd', _, _, hp'⟩ := hm.frame.symm_dispatch hd
    rw [hp'] at hp
    obtain ⟨i, cursor, own, hs⟩ := ha
    cases hm.stage? c'
    case inl he =>
      have ht := h.told c' r d' hc ⟨i, cursor, own, he ▸ hs⟩ hd' hp
      exact ht.imp (hm.frame.ready.mem ·) (hm.frame.ready.mem ·)
    case inr he =>
      obtain ⟨_, _, hn, he⟩ := he
      obtain rfl := Option.some.inj (he ▸ hs)
      cases hn
      case join hw hi hq =>
        have := (mem_kept_of_mem_predictionsIn hi hq).2
        rw [prediction?, hd', Option.map_some, Option.some.injEq] at this
        simp [this, hw] at hp
  sent    := fun r d hd => by
    obtain ⟨d', hd', hcall, _⟩ := hm.frame.symm_dispatch hd
    exact hcall ▸ (h.sent r d' hd').move hm

theorem moves (h : Accounted x s) (hm : Moves c s s') : Accounted x s' := by
  induction hm
  case refl         => exact h
  case tail _ hm ih => exact ih.move hm

theorem send (h : Accounted x s) (hs : Send c s s') : Accounted x s' := by
  have hsound := h.sound.send hs
  cases hs
  case gather i hc cursor o y unasked =>
    have hst := stage?_setCall hc.stage?_ne_none (.gathering i cursor o y unasked)
    constructor
    case sound => exact hsound
    case sent  => exact fun r d hd => (h.sent r d hd).send (.gather hc cursor o y unasked)
    case awaited =>
      intro c' i' r cursor' own hs
      rw [hst] at hs
      split at hs
      case isTrue  => simp at hs
      case isFalse => exact h.awaited c' i' r cursor' own hs
    case told =>
      rintro c' r d hx ⟨i', cursor', own, hs⟩ hd hp
      rw [hst] at hs
      split at hs
      case isTrue  => simp at hs
      case isFalse => exact h.told c' r d hx ⟨i', cursor', own, hs⟩ hd hp
  case send i session d₀ hc hi hd₀ cursor =>
    have hst (c' : Nat) : (s.send c i session d₀ cursor).stage? c' =
        if c' = c then some (.awaiting i cursor s.dispatches.size true) else s.stage? c' :=
      stage?_send hc.stage?_ne_none c'
    have hdisp := fun r => getElem?_dispatches_send s c i r session d₀ cursor
    constructor
    case sound => exact hsound
    case awaited =>
      intro c' i' r cursor' own hs
      rw [hst] at hs
      rw [hdisp]
      split at hs
      case isTrue =>
        simp only [Option.some.injEq, Stage.awaiting.injEq] at hs
        exact ⟨d₀, if_pos hs.2.2.1.symm, hd₀.session.trans hs.1⟩
      case isFalse =>
        obtain ⟨d, hd, hi'⟩ := h.awaited c' i' r cursor' own hs
        have hlt := (Array.getElem?_eq_some_iff.mp hd).1
        exact ⟨d, by rw [if_neg (Nat.ne_of_lt hlt), hd], hi'⟩
    case told =>
      rintro c' r d hx ⟨i', cursor', own, hs⟩ hd hp
      rw [hst] at hs
      rw [hdisp] at hd
      split at hd
      case isTrue => simp [← Option.some.inj hd, hd₀.pending] at hp
      case isFalse hr =>
        split at hs
        case isTrue =>
          simp only [Option.some.injEq, Stage.awaiting.injEq] at hs
          exact absurd hs.2.2.1.symm hr
        case isFalse =>
          have := h.told c' r d hx ⟨i', cursor', own, hs⟩ hd hp
          exact this.imp (List.mem_append_left _ ·) (List.mem_append_left _ ·)
    case sent =>
      intro r d hd
      have hd' := hd
      rw [hdisp] at hd'
      split at hd'
      case isFalse => exact (h.sent r d hd').send (.send hc hi hd₀ cursor)
      case isTrue hr =>
        obtain rfl := Option.some.inj hd'
        refine ⟨d₀, hd, .inl ⟨cursor, true, ?_⟩⟩
        rw [hst, hd₀.call, if_pos rfl, hd₀.session, hr]

theorem sends (h : Accounted x s) (hs : Sends c s s') : Accounted x s' :=
  hs.keeps (fun _ _ => move) (fun _ _ => send) h

end Accounted

-- When a prediction is settled, everybody who awaits it is told.
theorem Life.tells {told q : List Turn} {t : Turn} {d d' : Dispatch} (h : Life r told t d d' q)
    (hp : d'.prediction.isPending = false) : d.prediction.isPending = false ∨ ∀ t ∈ told, t ∈ q := by
  cases h
  case settle     => exact .inr fun t ht => List.mem_append_left _ ht
  case retire     => exact .inr fun t ht => ht
  case wait hs _  => exact .inl (by simpa [Prediction.isPending, hs] using hp)
  case ended hs _ => exact .inl (by simpa [Prediction.isPending, hs] using hp)
  all_goals exact .inl hp

namespace Accounted

theorem lives (h : Accounted x s) {t : Turn} (hd : s.dispatches[r]? = some d) (hl : Lives r t d s s') :
    Accounted x s' := by
  obtain ⟨_, hsess, hcalls⟩ := hl.sessions_calls
  have hst (c : Nat) : s'.stage? c = s.stage? c := by rw [stage?, hcalls, stage?]
  obtain ⟨d', q, hlife, hready, hdisp⟩ := hl.exists_life hd
  constructor
  case sound => exact h.sound.lives hd hl
  case awaited =>
    intro c i j cursor own hs
    obtain ⟨y, hy, hi⟩ := h.awaited c i j cursor own (hst c ▸ hs)
    rw [hdisp]
    split
    case isFalse => exact ⟨y, hy, hi⟩
    case isTrue hr =>
      obtain rfl := hr
      obtain rfl := Option.some.inj (hd ▸ hy)
      exact ⟨d', rfl, hlife.ages.2.1.trans hi⟩
  case told =>
    rintro c j y hx ⟨i, cursor, own, hs⟩ hy hp
    rw [hst] at hs
    rw [hdisp] at hy
    rw [hready]
    have hold {y : Dispatch} (hy : s.dispatches[j]? = some y) (hp : y.prediction.isPending = false) :
        .relay c ∈ s.ready ++ q ∨ .resumeCall c ∈ s.ready ++ q :=
      (h.told c j y hx ⟨i, cursor, own, hs⟩ hy hp).imp (List.mem_append_left _ ·) (List.mem_append_left _ ·)
    split at hy
    case isFalse => exact hold hy hp
    case isTrue hr =>
      obtain rfl := hr
      obtain rfl := Option.some.inj hy
      cases hlife.tells hp
      case inl hp' => exact hold hd hp'
      case inr ht  =>
        left
        have ha : s.awaits r c = true := awaits_iff.mpr ⟨i, cursor, own, hs⟩
        exact List.mem_append_right _ (ht _ (relay_mem_told_iff.mpr ha))
  case sent =>
    intro j y hy
    rw [hdisp] at hy
    split at hy
    case isFalse => exact (h.sent j y hy).lives hd hl
    case isTrue hr =>
      obtain rfl := hr
      obtain rfl := Option.some.inj hy
      exact hlife.ages.1 ▸ (h.sent r d hd).lives hd hl

-- The turn that leaves the queue is missed only by the call it is for.
theorem popped (h : Accounted none s) {t : Turn} {rest : List Turn} (hr : s.ready = t :: rest)
    (hx : ∀ c, t = .relay c ∨ t = .resumeCall c → some c = x ∨ ∀ r, ¬s.Awaiting c r) :
    Accounted x { s with ready := rest } where
  sound   := h.sound.popped
  awaited := h.awaited
  sent    := h.sent
  told    := fun c r d hc ha hd hp => by
    have ht := h.told c r d (by simp) ha hd hp
    have hne : t ≠ .relay c ∧ t ≠ .resumeCall c := by
      rw [← not_or]
      intro h
      exact (hx c h).elim hc (fun hn => hn r ha)
    simp only [hr, List.mem_cons] at ht
    exact ht.imp (·.resolve_left hne.1.symm) (·.resolve_left hne.2.symm)

-- A call that has been told, or awaits nothing settled, need not be exempt.
theorem of_told (h : Accounted (some c) s)
    (hc : ∀ r, s.Awaiting c r → ∀ d : Dispatch, s.dispatches[r]? = some d → d.prediction.isPending = false →
      .relay c ∈ s.ready ∨ .resumeCall c ∈ s.ready) : Accounted none s where
  sound   := h.sound
  awaited := h.awaited
  sent    := h.sent
  told    := fun c' r d _ ha hd hp => by
    by_cases hcc : c' = c
    case pos => exact hcc ▸ hc r (hcc ▸ ha) d hd hp
    case neg => exact h.told c' r d (by simpa using hcc) ha hd hp

theorem turn (h : Accounted none s) {t : Turn} {rest : List Turn} (hr : s.ready = t :: rest)
    (ht : Takes { s with ready := rest } t s') : Accounted none s' := by
  have hn (hx : ∀ c, t = .relay c ∨ t = .resumeCall c → ∀ r, ¬s.Awaiting c r) :
      Accounted none { s with ready := rest } := h.popped hr fun c hc => .inr (hx c hc)
  cases ht
  case start h' => exact (hn (by simp)).moves h'
  case pass c i generation cursor accepted hc h' =>
    have hs := hn fun c' hc' r hr => by
      obtain ⟨_, _, _, ha⟩ := hr
      obtain rfl : c = c' := by simpa using hc'
      exact absurd (ha ▸ hc : some _ = some _) (by simp)
    cases h'
    case inl h' => exact hs.moves h'
    case inr h' => exact (hs.moves (Moves.enforceLimit (c := 0) _ i)).sends h'
  case goOn c i cursor o y unasked hc h' =>
    have hs := hn fun c' hc' r hr => by
      obtain ⟨_, _, _, ha⟩ := hr
      obtain rfl : c = c' := by simpa using hc'
      exact absurd (ha ▸ hc : some _ = some _) (by simp)
    exact hs.sends h'
  case deliver c r hc h' ha =>
    have hs : Accounted (some c) s' := (h.popped hr (x := some c) (by simp)).moves h'
    apply hs.of_told
    rintro r' ⟨i, cursor, own, hs'⟩ d hd hp
    rcases ha with ⟨_, ha⟩ | ⟨he, ha⟩
    case inl => simp [ha] at hs'
    case inr =>
      subst he
      obtain rfl : r = r' := hc.unique ⟨i, cursor, own, hs'⟩
      have := ha d.prediction (by simp [prediction?, hd])
      simp [this] at hp
  case relay c =>
    have hs : Accounted (some c) ({ s with ready := rest } : Service) := h.popped hr (by simp)
    apply (hs.move (c := c) (.resume _ c)).of_told
    intro _ _ _ _ _
    right
    simp [queue]
  case ring c => exact (hn (by simp)).move (c := c) (.resume _ c)
  case stray c hc ht =>
    apply hn
    intro c' hc' r ha
    obtain rfl : c = c' := by rcases ht with rfl | rfl <;> simpa using hc'
    exact hc r ha
  case live r d hd ht h' =>
    apply Accounted.lives ?_ hd h'
    exact hn fun c hc => by rcases hc with rfl | rfl <;> simp [Turn.request?] at ht
  case none r hd ht =>
    exact hn fun c hc => by rcases hc with rfl | rfl <;> simp [Turn.request?] at ht

theorem acts (h : Accounted none s) (ha : Acts s s') : Accounted none s' := by
  have hsound := h.sound.acts ha
  cases ha
  case moves h' => exact h.moves h'
  case provide call hc =>
    have hold {c i r : Nat} {cursor : Cursor} {own : Bool}
        (hs : ({ s with calls := s.calls.push call }.queue (.startCall s.calls.size)).stage? c =
          some (.awaiting i cursor r own)) : s.stage? c = some (.awaiting i cursor r own) := by
      rw [stage?_provide] at hs
      split at hs
      case isTrue  => simp [hc] at hs
      case isFalse => exact hs
    constructor
    case sound   => exact hsound
    case awaited => exact fun c i r cursor own hs => h.awaited c i r cursor own (hold hs)
    case sent    => exact fun r d hd => (h.sent r d hd).acts (.provide call hc)
    case told    =>
      rintro c r d hx ⟨i, cursor, own, hs⟩ hd hp
      have := h.told c r d hx ⟨i, cursor, own, hold hs⟩ hd hp
      exact this.imp (List.mem_append_left _ ·) (List.mem_append_left _ ·)
  case cancel c stage hc ha hn =>
    have hold {c' i r : Nat} {cursor : Cursor} {own : Bool}
        (hs : ((s.dropAlarm (.call c)).setCall c .cancelled).stage? c' = some (.awaiting i cursor r own)) :
        s.stage? c' = some (.awaiting i cursor r own) := by
      rw [stage?_cancel hc] at hs
      split at hs
      case isTrue  => simp at hs
      case isFalse => exact hs
    constructor
    case sound   => exact hsound
    case awaited => exact fun c i r cursor own hs => h.awaited c i r cursor own (hold hs)
    case sent    => exact fun r d hd => (h.sent r d hd).acts (.cancel hc ha hn)
    case told    =>
      rintro c r d hx ⟨i, cursor, own, hs⟩ hd hp
      exact h.told c r d hx ⟨i, cursor, own, hold hs⟩ hd hp

theorem after (h : Accounted none s) (e : Event) : Accounted none (s.after e) := by
  rcases h.sound.after_cases e with ha | ⟨t, rest, _, hr, ht⟩
  case inl => exact h.acts ha
  case inr => exact h.turn hr ht

theorem reaches {settings : Setup} {backend : Backend} {features : Option LanguageFeatures}
    (h : (Service.start settings backend features).Reaches s) : Accounted none s :=
  h.induct start fun _ e hs => hs.after e

end Accounted

theorem Waited.reaches (h : s.Waited r c) (hs : Accounted none s) (ht : s.Reaches s') : s'.Waited r c := by
  have := ht.induct (P := fun t => t.Waited r c ∧ Accounted none t) ⟨h, hs⟩
    fun t e ht => ⟨ht.1.after ht.2.sound e, ht.2.after e⟩
  exact this.1

-- Once nothing is left to do, a call that has waited for a kept prediction without a text was cancelled.
theorem Waited.cancelled (h : s.Waited r c) (hs : Accounted none s) (hset : s.Settled) (hk : r ∈ s.kept i)
    (hp : ∀ p ∈ s.prediction? r, p.status = .failed) : s.stage? c = some .cancelled := by
  obtain ⟨d, hd, hw⟩ := h
  have hp := hp d.prediction (by simp [prediction?, hd])
  obtain ⟨d', hd', hi⟩ := hs.sound.kept i r hk
  obtain rfl := Option.some.inj (hd ▸ hd')
  rcases hw with ⟨cursor, own, hw⟩ | hw | ⟨_, hf | hf⟩
  case inl =>
    have hpend : d.prediction.isPending = false := by
      cases hst : d.prediction.stage <;> simp_all [Prediction.status, Prediction.isPending]
    have := hs.told c r d (by simp) ⟨_, cursor, own, hw⟩ hd hpend
    simp [hset.1] at this
  case inr.inl         => exact hw
  case inr.inr.inl     => simp [hf] at hp
  case inr.inr.inr     => exact absurd (hi ▸ hk) hf

variable {call : Call} {cursor : Cursor} {session : Session}

-- A hit that has not failed is never answered with nothing.
theorem stage?_serveCached {id : Nat} {p : Prediction} {b : Bounds} (hc : s.stage? c ≠ none)
    (hp : p.status ≠ .failed) :
    (s.serveCached c call i cursor id p b).stage? c ≠ some (.answered []) := by
  have hs {u : Service} (hu : u.calls = s.calls) {stage : Stage} (hst : stage ≠ .answered []) :
      (u.setCall c stage).stage? c ≠ some (.answered []) := by
    rw [stage?_setCall (by rwa [stage?, hu]), if_pos rfl]
    simpa using hst
  simp only [serveCached]
  split
  case h_1 => exact hs (by simp) (by simp)
  case h_2 => exact hs (by simp) (by simp)
  case h_3 => contradiction

theorem stage?_debounce {accepted : Bool} (hc : s.stage? c ≠ none) :
    (s.debounce c call i session cursor accepted).stage? c ≠ some (.answered []) ∨
      s.stats.internalErrors < (s.debounce c call i session cursor accepted).stats.internalErrors := by
  simp only [debounce]
  split
  case isTrue  => exact .inr (Nat.lt_succ_self _)
  case isFalse =>
    left
    have hr {u : Service} {delay : Nat} : (u.resumeAfter delay c).stage? c = u.stage? c := by
      simp only [resumeAfter]
      split <;> rfl
    rw [hr, stage?_setCall (by exact hc), if_pos rfl]
    simp

theorem sessionFor_spec (s : Service) (uri : Text) :
    (s.sessionFor uri).1.calls = s.calls ∧ (s.sessionFor uri).1.stats = s.stats ∧
      ∀ session, (s.sessionFor uri).1.sessions[(s.sessionFor uri).2]? = some session →
        (∃ i : Nat, s.session? uri = some i ∧ s.sessions[i]? = some session ∧
          (s.sessionFor uri).1.predictionsIn session = s.predictionsIn session) ∨
        (s.sessionFor uri).1.predictionsIn session = [] := by
  simp only [sessionFor]
  split
  case h_1 i hi => exact ⟨rfl, rfl, fun session hs => .inl ⟨i, hi, hs, rfl⟩⟩
  case h_2 hn =>
    refine ⟨rfl, rfl, fun session hs => .inr ?_⟩
    simp only [Array.getElem?_push, if_true, Option.some.injEq] at hs
    simp [← hs, predictionsIn, Cache.keys]

theorem stage?_seek {u : Service} (hc : s.stage? c = some .queued) (hu : u = s.seek c call)
    (hk : ∀ (i : Nat) (session : Session), s.session? call.uri = some i → s.sessions[i]? = some session →
      ∀ x ∈ s.predictionsIn session, x.2.status ≠ .failed) :
    u.stage? c ≠ some (.answered []) ∨ s.stats.internalErrors < u.stats.internalErrors := by
  obtain ⟨hcalls, hstats, hsess⟩ := sessionFor_spec s call.uri
  simp only [seek] at hu
  rw [stage?, ← hcalls, ← stage?] at hc
  rw [← hstats]
  generalize s.sessionFor call.uri = x at hu hc hsess ⊢
  split at hu
  case h_2 => exact .inl (by simp [hu, hc])
  case h_1 document session _ hi =>
    have hne (ns : List Notice) : (x.1.noteAll ns).stage? c ≠ none := by
      rw [stage?, calls_noteAll, ← stage?, hc]
      simp
    have hst (ns : List Notice) : (x.1.noteAll ns).stats = x.1.stats := by rw [noteAll_eq]
    split at hu
    case h_1 id p b hf =>
      have hp : (id, p) ∈ x.1.predictionsIn session := Moves.mem_of_findMatch hf
      rw [hu]
      refine .inl (stage?_serveCached (hne _) ?_)
      rcases hsess session hi with ⟨j, hj, hs, he⟩ | he
      case inl => exact hk j session hj hs _ (he ▸ hp)
      case inr => simp [he] at hp
    case h_2 =>
      split at hu
      case h_1 => exact hu ▸ hst _ ▸ stage?_debounce (hne _)
      case h_2 => exact .inr (by rw [hu, ← hst]; exact Nat.lt_succ_self _)

-- If no failed prediction is kept for its document, a call that is answered with nothing at once was not asked for,
-- or an error has been counted.
theorem enabled_or_error_of_answered_nil (hc : s.calls[c]? = some call) (hq : call.stage = .queued)
    (hk : ∀ (i : Nat) (session : Session), s.session? call.uri = some i → s.sessions[i]? = some session →
      ∀ x ∈ s.predictionsIn session, x.2.status ≠ .failed)
    (ha : (s.startCall c call).stage? c = some (.answered [])) :
    s.settings.enabled = false ∨ s.stats.internalErrors < (s.startCall c call).stats.internalErrors := by
  simp only [startCall, hq] at ha ⊢
  by_cases he : s.settings.enabled = true
  case neg => exact .inl (by simpa using he)
  case pos =>
    rw [if_pos he] at ha ⊢
    have hs : s.stage? c = some .queued := by simp [stage?, hc, hq]
    have := stage?_seek hs rfl hk
    exact .inr (this.resolve_left (fun h => h ha))

-- In a settled state a failed prediction is kept only if every call that has waited for it was cancelled, the one that
-- sent the request among them. If no call was cancelled, the next one is therefore not answered from such a prediction.
theorem cancelled_of_failed_kept {settings : Setup} {backend : Backend} {features : Option LanguageFeatures}
    (hs : (start settings backend features).Reaches s) (hset : s.Settled) :
    (∀ (i : Nat) (session : Session), s.sessions[i]? = some session →
      ∀ x ∈ s.predictionsIn session, x.2.status = .failed →
        (∃ d : Dispatch, s.dispatches[x.1]? = some d ∧ s.stage? d.call = some .cancelled) ∧
        ∀ (t : Service) (c : Nat), (start settings backend features).Reaches t → t.Reaches s → t.Awaiting c x.1 →
          s.stage? c = some .cancelled) ∧
    ((∀ c, s.stage? c ≠ some .cancelled) → ∀ (uri : Text) (position : Position),
      ((s.after (.provide uri position)).after .turn).stage? s.calls.size = some (.answered []) →
        s.settings.enabled = false ∨
          s.stats.internalErrors < ((s.after (.provide uri position)).after .turn).stats.internalErrors) := by
  have hacc := Accounted.reaches hs
  have hfail {i : Nat} {session : Session} {x : Nat × Prediction} (hi : s.sessions[i]? = some session)
      (hx : x ∈ s.predictionsIn session) (hf : x.2.status = .failed) {c : Nat} (hw : s.Waited x.1 c) :
      s.stage? c = some .cancelled := by
    obtain ⟨hk, hp⟩ := mem_kept_of_mem_predictionsIn hi hx
    exact hw.cancelled hacc hset hk fun p hp' => by
      obtain rfl := Option.some.inj (hp ▸ hp')
      exact hf
  have hsent {i : Nat} {session : Session} {x : Nat × Prediction} (hi : s.sessions[i]? = some session)
      (hx : x ∈ s.predictionsIn session) (hf : x.2.status = .failed) :
      ∃ d : Dispatch, s.dispatches[x.1]? = some d ∧ s.stage? d.call = some .cancelled := by
    obtain ⟨hk, _⟩ := mem_kept_of_mem_predictionsIn hi hx
    obtain ⟨d, hd, _⟩ := hacc.sound.kept i x.1 hk
    exact ⟨d, hd, hfail hi hx hf (hacc.sent x.1 d hd)⟩
  constructor
  case left =>
    intro i session hi x hx hf
    refine ⟨hsent hi hx hf, ?_⟩
    rintro t c ht hts ⟨j, cursor, own, ha⟩
    have htacc := Accounted.reaches ht
    obtain ⟨d, hd, hj⟩ := htacc.awaited c j x.1 cursor own ha
    have hw : t.Waited x.1 c := ⟨d, hd, .inl ⟨cursor, own, hj ▸ ha⟩⟩
    exact hfail hi hx hf (hw.reaches htacc hts)
  case right =>
    intro hn uri position ha
    simp only [after, provide] at ha ⊢
    split at ha
    case h_1 => simp [takeNext, hset.1, stage?] at ha
    case h_2 b _ _ =>
      simp only [takeNext, queue, hset.1, List.nil_append, takeTurn, withCall, Array.getElem?_push, if_true] at ha ⊢
      refine enabled_or_error_of_answered_nil (by simp) rfl ?_ ha
      intro i session _ hi x hx hf
      obtain ⟨d, _, hc⟩ := hsent hi hx hf
      exact hn d.call hc

def failingOnce : Backend :=
  { answers := .inTurn [.fault (.request "down".toList none), .text "foo".toList], delay := some 10 }

-- The call that sent a request is cancelled, and then the request fails.
def failedAlone : Service :=
  let s := (start { debounce := 0, useHints := false } failingOnce none).openBuffer ['a'] "x = ".toList
  (((s.provide ['a'] ⟨0, 4⟩).settle 0).cancelCall 0).1.settle 20

theorem reaches_failedAlone :
    (start { debounce := 0, useHints := false } failingOnce none).Reaches failedAlone := by
  apply Reaches.trans ?_ (.settle _ 20)
  apply Reaches.after ?_ (.cancel 0)
  apply Reaches.trans ?_ (.settle _ 0)
  exact ((Reaches.refl _).after (.openBuffer ['a'] "x = ".toList)).after (.provide ['a'] ⟨0, 4⟩)

theorem cancelled_of_failed_kept_failedAlone :
    (start { debounce := 0, useHints := false } failingOnce none).Reaches failedAlone ∧ failedAlone.Settled ∧
      ∃ d : Dispatch, failedAlone.dispatches[0]? = some d ∧ failedAlone.stage? d.call = some .cancelled := by
  refine ⟨reaches_failedAlone, settled_settle _ 20, ?_⟩
  have hk : (failedAlone.sessions[0]?.any fun session =>
      (failedAlone.predictionsIn session).any fun x => x.2.status = .failed && x.1 = 0) = true := by
    decide +kernel
  simp only [Option.any_eq_true, List.any_eq_true, Bool.and_eq_true, decide_eq_true_eq] at hk
  obtain ⟨session, hi, x, hx, hf, h0⟩ := hk
  obtain ⟨d, hd, _⟩ := ((cancelled_of_failed_kept reaches_failedAlone (settled_settle _ 20)).1 0 session hi x hx hf).1
  exact ⟨d, h0 ▸ hd, ‹_›⟩

-- The failed prediction is kept for the open document, and the next call is answered from it, without a request.
theorem failed_kept_failedAlone :
    (start { debounce := 0, useHints := false } failingOnce none).Reaches failedAlone ∧ failedAlone.Settled ∧
      (failedAlone.predictionsOf ['a']).map (·.status) = [.failed] ∧
      ((failedAlone.provide ['a'] ⟨0, 4⟩).settle 20).answer? 1 = some [] ∧
      ((failedAlone.provide ['a'] ⟨0, 4⟩).settle 20).dispatches.size = 1 :=
  ⟨reaches_failedAlone, settled_settle _ 20, by decide +kernel, by decide +kernel, by decide +kernel⟩

end GhostText.Service
