import GhostText.Proofs.Service.Waiting

namespace GhostText.Service

variable {s s' : Service} {c i r : Nat} {cursor : Cursor} {session : Session} {time : Int}

namespace Beat

variable {x y : Beat}

-- Nothing lets the call go on.
structure Idle (x : Beat) : Prop where
  alarms : x.alarms = []
  turns  : x.turns = []

-- Nothing lets the call go on before the time.
structure Rests (time : Int) (x : Beat) : Prop where
  alarms : ∀ a ∈ x.alarms, time ≤ a.due
  turns  : x.turns ≠ [] → time ≤ x.now

theorem Calm.idle (h : x.Calm y) (hx : x.Idle) : y.Idle where
  alarms := List.eq_nil_iff_forall_not_mem.mpr fun a ha => by simpa [hx.alarms] using h.alarms a ha
  turns  := Classical.byContradiction fun ht => by
    rcases h.turns ht with ht | ⟨a, ha, _⟩
    case inl => exact ht hx.turns
    case inr => simp [hx.alarms] at ha

theorem Calm.rests (h : x.Calm y) (hn : x.now ≤ y.now) (hx : x.Rests time) : y.Rests time where
  alarms := fun a ha => hx.alarms a (h.alarms a ha)
  turns  := fun ht => by
    rcases h.turns ht with ht | ⟨a, ha, hd⟩
    case inl => have := hx.turns ht; omega
    case inr => have := hx.alarms a ha; omega

theorem Idle.resumeAfter {delay : Nat} (h : x.Idle) (c : Nat) (ht : time ≤ x.now + delay) :
    (x.resumeAfter delay c).Rests time := by
  simp only [Beat.resumeAfter]
  split
  case isTrue hd => exact ⟨by simp [h.alarms], fun _ => by simpa [hd] using ht⟩
  case isFalse   => exact ⟨by simpa [h.alarms] using ht, fun hn => absurd h.turns hn⟩

end Beat

-- The call is yet to have its first turn, or to be made.
def Unstarted (s : Service) (c : Nat) : Prop :=
  ∀ stage, s.stage? c = some stage → stage = .queued

theorem Unstarted.early (h : s.Unstarted c) : s.Early c := by
  rintro stage hc hl
  obtain rfl := h stage hc
  exact hl

theorem Eases.unstarted (h : Eases s s') (hc : s'.Unstarted c) : s.Unstarted c := by
  intro stage hst
  rcases h.stages c with hs | ⟨hs, _⟩ | ⟨late, hl, hs⟩
  case inl     => exact hc stage (hs ▸ hst)
  case inr.inl => simp [hs] at hst
  case inr.inr => exact absurd hl (hc.early late hs)

theorem exists_of_made {x y : Option Dispatch} {d : Dispatch} (h : x.map Dispatch.made = y.map Dispatch.made)
    (hx : x = some d) : ∃ d₀ : Dispatch, y = some d₀ ∧ d₀.call = d.call ∧ d₀.session = d.session ∧
      d₀.prediction.createdAt = d.prediction.createdAt := by
  rw [hx, Option.map_some, eq_comm, Option.map_eq_some_iff] at h
  obtain ⟨d₀, hy, hm⟩ := h
  exact ⟨d₀, hy, congrArg (·.1) hm, congrArg (·.2.1) hm, congrArg (·.2.2.createdAt) hm⟩

-- The latest call that waits goes on no sooner after any request of its session than it has to wait.
structure Spaced (s : Service) : Prop where
  unaided : s.Unaided
  counted : s.Counted
  idle    : ∀ c, s.Unstarted c → (s.beat c).Idle
  past    : ∀ (r : Nat) (d : Dispatch), s.dispatches[r]? = some d → d.prediction.createdAt ≤ s.now
  apart   : ∀ (r r' : Nat) (d d' : Dispatch), s.dispatches[r]? = some d → s.dispatches[r']? = some d' → r ≠ r' →
    d.session = d'.session → s.settings.debounce ≤ (d.prediction.createdAt - d'.prediction.createdAt).natAbs
  rests   : ∀ c i cursor, s.Latest c i cursor → ∀ (r : Nat) (d : Dispatch), s.dispatches[r]? = some d →
    d.session = i → (s.beat c).Rests (d.prediction.createdAt + s.settings.debounce)

namespace Spaced

theorem ease (h : s.Spaced) (he : Eases s s') (hu : s'.Unaided) (hc : s'.Counted) : s'.Spaced where
  unaided := hu
  counted := hc
  idle    := fun c hq => (he.calm c hq.early).idle (h.idle c (he.unstarted hq))
  past    := fun r d hd => by
    obtain ⟨d₀, hd₀, _, _, ht⟩ := exists_of_made (he.dispatches r) hd
    have hp := h.past r d₀ hd₀
    have hn := he.now
    omega
  apart   := fun r r' d d' hd hd' hr hs => by
    obtain ⟨d₀, hd₀, _, hs₀, ht⟩ := exists_of_made (he.dispatches r) hd
    obtain ⟨d₁, hd₁, _, hs₁, ht'⟩ := exists_of_made (he.dispatches r') hd'
    rw [he.settings, ← ht, ← ht']
    exact h.apart r r' d₀ d₁ hd₀ hd₁ hr (by rw [hs₀, hs₁, hs])
  rests   := fun c i cursor hl r d hd hs => by
    obtain ⟨d₀, hd₀, _, hs₀, ht⟩ := exists_of_made (he.dispatches r) hd
    rw [he.settings, ← ht]
    refine (he.calm c ?_).rests he.now (h.rests c i cursor (he.latest h.unaided.sound hl) r d₀ hd₀ (hs₀.trans hs))
    intro stage hstage
    obtain ⟨_, _, _, hst⟩ := hl
    obtain rfl := Option.some.inj (hst.symm.trans hstage)
    exact id

-- The call has nothing else to go by, so it rests as long as it has to wait.
theorem wait (h : s.Spaced) (hw : Waits c i cursor s s') (hu : s'.Unaided) (hc : s'.Counted) : s'.Spaced := by
  have hidle : (s.beat c).Idle := h.idle c fun stage hst => Option.some.inj (hst.symm.trans hw.queued)
  refine ⟨hu, hc, fun k hk => ?_, ?_, ?_, fun k j cursor' hl r d hd hs => ?_⟩
  case refine_1 =>
    have hkc : k ≠ c := by
      rintro rfl
      obtain ⟨_, _, _, hst⟩ := hw.latest
      cases hk _ hst
    rw [hw.beats k hkc]
    exact h.idle k fun stage hst => hk stage (hw.others k hkc ▸ hst)
  case refine_2 => rw [hw.dispatches, hw.now]; exact h.past
  case refine_3 => rw [hw.dispatches, hw.settings]; exact h.apart
  case refine_4 =>
    rw [hw.dispatches] at hd
    rw [hw.settings]
    rcases hw.latest_cases h.unaided.sound hl with ⟨rfl, _, _⟩ | ⟨hkc, hl⟩
    case inr => exact hw.beats k hkc ▸ h.rests k j cursor' hl r d hd hs
    case inl =>
      rw [hw.beat]
      have hp := h.past r d hd
      have hb : (s.beat k).now = s.now := rfl
      exact hidle.resumeAfter k (by omega)

-- The latest call goes on to send its request.
theorem post (h : s.Spaced) (hl : s.Latest c i cursor)
    (ht : ∀ (r : Nat) (d : Dispatch), s.dispatches[r]? = some d → d.session = i →
      d.prediction.createdAt + s.settings.debounce ≤ s.now)
    (hp : Posts c i cursor s s') (hu : s'.Unaided) (hc : s'.Counted) : s'.Spaced := by
  -- a request is the new one or was there before
  have hcases {r : Nat} {d : Dispatch} (hd : s'.dispatches[r]? = some d) :
      (r = s.dispatches.size ∧ d.session = i ∧ d.prediction.createdAt = s.now) ∨ ∃ d₀ : Dispatch,
        s.dispatches[r]? = some d₀ ∧ d₀.session = d.session ∧ d₀.prediction.createdAt = d.prediction.createdAt := by
    by_cases hr : r = s.dispatches.size
    case pos =>
      obtain ⟨x, hx, _, hs, _, hx'⟩ := hp.new
      obtain rfl := Option.some.inj (hx ▸ hr ▸ hd)
      exact .inl ⟨hr, hs, hx'⟩
    case neg =>
      obtain ⟨d₀, hd₀, _, hs, hat⟩ := exists_of_made (hp.old r hr) hd
      exact .inr ⟨d₀, hd₀, hs, hat⟩
  refine ⟨hu, hc, fun k hk => ?_, fun r d hd => ?_, fun r r' d d' hd hd' hr hs => ?_,
    fun k j cursor' hl' r d hd hs => ?_⟩
  case refine_1 =>
    rw [hp.beats k]
    refine h.idle k fun stage hst => ?_
    by_cases hkc : k = c
    case pos =>
      subst hkc
      cases hk _ hp.stage
    case neg => exact hk stage (hp.others k hkc ▸ hst)
  case refine_2 =>
    rw [hp.now]
    rcases hcases hd with ⟨_, _, hat⟩ | ⟨d₀, hd₀, _, hat⟩
    case inl => exact Int.le_of_eq hat
    case inr => exact hat ▸ h.past r d₀ hd₀
  case refine_3 =>
    rw [hp.settings]
    rcases hcases hd with ⟨hr₀, hs₀, hat⟩ | ⟨d₀, hd₀, hs₀, hat⟩ <;>
      rcases hcases hd' with ⟨hr₁, hs₁, hat'⟩ | ⟨d₁, hd₁, hs₁, hat'⟩
    case inl.inl => exact absurd (hr₀.trans hr₁.symm) hr
    case inl.inr =>
      have := ht r' d₁ hd₁ (by rw [hs₁, ← hs, hs₀])
      omega
    case inr.inl =>
      have := ht r d₀ hd₀ (by rw [hs₀, hs, hs₁])
      omega
    case inr.inr =>
      rw [← hat, ← hat']
      exact h.apart r r' d₀ d₁ hd₀ hd₁ hr (by rw [hs₀, hs₁, hs])
  case refine_4 =>
    obtain ⟨_, hji, hl'⟩ := hp.latest h.unaided.sound h.counted hl hl'
    rw [hp.beats k, hp.settings]
    rcases hcases hd with ⟨_, hs₀, _⟩ | ⟨d₀, hd₀, hs₀, hat⟩
    case inl => exact absurd (hs.symm.trans hs₀) hji
    case inr => exact hat ▸ h.rests k j cursor' hl' r d₀ hd₀ (hs₀.trans hs)

theorem after (h : s.Spaced) (e : Event) : (s.after e).Spaced := by
  have hu := h.unaided.after e
  have hc := h.counted.after h.unaided e
  generalize hs' : s.after e = s' at hu hc
  have hpopped {t : Turn} {rest : List Turn} (hr : s.ready = t :: rest) : ({ s with ready := rest } : Service).Spaced :=
    h.ease (.popped hr) h.unaided.popped h.counted
  cases hs' ▸ h.unaided.happens e
  case ease he      => exact h.ease he hu hc
  case wait rest hr hw => exact (hpopped hr).wait hw hu hc
  case post hr hl hp =>
    refine (hpopped hr).post hl (fun r d hd hs => ?_) hp hu hc
    exact (h.rests _ _ _ hl r d hd hs).turns (by simp [beat, hr])

theorem start {settings : Setup} {backend : Backend} : (start settings backend none).Spaced := by
  refine ⟨.start, .run (Reaches.refl _), fun c _ => ?_, ?_, ?_, ?_⟩
  case refine_1 => exact ⟨rfl, rfl⟩
  all_goals simp [Service.start, note]

end Spaced
end GhostText.Service
