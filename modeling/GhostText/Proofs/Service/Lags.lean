import GhostText.Proofs.Service.Outside

namespace GhostText.Service

variable {ρ ρ' : Renaming} {uri : Text} {s s' t t' u : Service} {limit : Option Nat}

-- Steps beyond the last one change nothing.
theorem run_eq_of_finished {m n : Nat} (hm : (run m limit s).step? limit = none)
    (hn : (run n limit s).step? limit = none) : run m limit s = run n limit s := by
  induction m generalizing n s
  case zero =>
    cases n
    case zero   => rfl
    case succ n => simp only [run] at hm ⊢; rw [hm]
  case succ m ih =>
    cases n
    case zero   => simp only [run] at hn ⊢; rw [hn]
    case succ n =>
      cases hs : s.step? limit
      case none   => simp only [run, hs]
      case some u =>
        simp only [run, hs] at hm hn ⊢
        exact ih hm hn

structure Lags (ρ : Renaming) (uri : Text) (s t : Service) : Prop where
  mirrors : Mirrors ρ uri s { t with now := s.now }
  now     : t.now ≤ s.now
  waits   : t.ready ≠ [] → t.now = s.now

namespace Lags

theorem of_mirrors (h : Mirrors ρ uri s t) : Lags ρ uri s t where
  mirrors := by
    have : { t with now := s.now } = t := by rw [← h.now]
    rwa [this]
  now     := Nat.le_of_eq h.now
  waits   := fun _ => h.now

theorem ready_eq_nil (h : Lags ρ uri s t) (hs : s.ready = []) : t.ready = [] := by
  have hr := h.mirrors.ready
  rw [hs] at hr
  dsimp only at hr
  generalize t.ready = ys at hr ⊢
  cases hr
  rfl

-- An alarm that is set in the one service is set in the other.
theorem exists_alarm (h : Lags ρ uri s t) {a : Alarm} (ha : a ∈ t.alarms) : ∃ a' ∈ s.alarms, a.due = a'.due := by
  obtain ⟨a', ha', hs⟩ := h.mirrors.alarms.exists_of_mem ha
  exact ⟨a', ha', hs.due⟩

-- A turn is taken in both, or it is one of others.
theorem takeTurn (h : Lags ρ uri s t) (hf : s.Fitted) (ha : s.Attended) {x : Turn} {rest : List Turn}
    (hr : s.ready = x :: rest) : ∃ ρ' t', ρ.Grows ρ' ∧ Lags ρ' uri ({ s with ready := rest }.takeTurn x) t' ∧
      (t' = t ∨ t.step? limit = some t') := by
  have hready := h.mirrors.ready
  rw [hr] at hready
  dsimp only at hready
  generalize hy : t.ready = ys at hready
  cases hready
  case both y ys hxy hrest =>
    have hnow := h.waits (by simp [hy])
    have hpop : Mirrors ρ uri { s with ready := rest } { t with ready := ys } := by
      have : { t with now := s.now } = t := by rw [← hnow]
      exact { (this ▸ h.mirrors) with ready := hrest }
    obtain ⟨ρ', hρ, h'⟩ := hpop.takeTurn hxy
    exact ⟨ρ', _, hρ, of_mirrors h', .inr (by simp only [step?, hy])⟩
  case other hx hrest =>
    have hpop : Mirrors ρ uri { s with ready := rest } { t with now := s.now } :=
      { h.mirrors with ready := hy ▸ hrest }
    have hturn := hpop.takeTurn_other (fun c stage => hf c stage) (fun r d hd => (ha.tended r d hd).pending) hx
    have hnow : s.now = ({ s with ready := rest }.takeTurn x).now := hturn.now
    exact ⟨ρ, t, .refl ρ, ⟨hnow ▸ hturn, hnow ▸ h.now, hnow ▸ h.waits⟩, .inl rfl⟩

-- The clock goes on to the next alarm, in both if it is one that is known.
theorem advanceTo (h : Lags ρ uri s t) (hr : s.ready = []) {time : Nat} (hn : s.nextAlarm? = some time)
    (hl : limit.all (time ≤ ·) = true) :
    ∃ t', Lags ρ uri (s.advanceTo time) t' ∧ (t' = t ∨ t.step? limit = some t') := by
  have hmin := List.min?_eq_some_iff.1 hn
  have hready := h.ready_eq_nil hr
  have hadv := h.mirrors.advanceTo time
  have hle (a : Alarm) (ha : a ∈ t.alarms) : time ≤ a.due := by
    obtain ⟨a', ha', hd⟩ := h.exists_alarm ha
    exact hd ▸ hmin.2 _ (List.mem_map_of_mem ha')
  by_cases hdue : ∃ a ∈ t.alarms, a.due ≤ time
  case pos =>
    obtain ⟨a, ha, hd⟩ := hdue
    have hat : a.due = time := Nat.le_antisymm hd (hle a ha)
    have hnext : t.nextAlarm? = some time := by
      rw [nextAlarm?, List.min?_eq_some_iff]
      exact ⟨hat ▸ List.mem_map_of_mem ha, fun d hd => by
        obtain ⟨a', ha', rfl⟩ := List.mem_map.mp hd
        exact hle a' ha'⟩
    have hnow : s.now ≤ time := hat ▸ h.mirrors.ahead a ha
    have ht : max t.now time = max s.now time := by
      have := h.now
      omega
    refine ⟨t.advanceTo time, of_mirrors ?_, .inr ?_⟩
    case refine_1 =>
      simp only [Service.advanceTo, ht]
      exact hadv
    case refine_2 => simp only [step?, hready, hnext, hl, if_true]
  case neg =>
    refine ⟨t, ⟨?_, ?_, fun hne => absurd hready hne⟩, .inl rfl⟩
    case refine_2 => exact Nat.le_trans h.now (Nat.le_max_left _ _)
    case refine_1 =>
      have hkeep : t.alarms.filter (time < ·.due) = t.alarms :=
        List.filter_eq_self.mpr fun a ha => by simpa using fun hd => hdue ⟨a, ha, hd⟩
      have hring : ({ t with now := s.now } : Service).rings time = [] :=
        rings_eq_nil fun a ha => Nat.lt_of_not_le fun hd => hdue ⟨a, ha, hd⟩
      simpa only [Service.advanceTo, hkeep, hring, List.append_nil] using hadv

variable {settings : Setup} {backend : Backend} {features : Option LanguageFeatures}

theorem step? (h : Lags ρ uri s t) (hs : (start settings backend features).Reaches s)
    (hstep : s.step? limit = some s') :
    ∃ ρ' t', ρ.Grows ρ' ∧ Lags ρ' uri s' t' ∧ (t' = t ∨ t.step? limit = some t') := by
  simp only [Service.step?] at hstep
  split at hstep
  case h_1 x rest hr =>
    obtain rfl := Option.some.inj hstep
    exact h.takeTurn (.reaches hs) (.reaches hs) hr
  case h_2 hr =>
    split at hstep
    case h_1         => contradiction
    case h_2 time hn =>
      split at hstep
      case isFalse   => contradiction
      case isTrue hl =>
        obtain rfl := Option.some.inj hstep
        obtain ⟨t', ht, hstep⟩ := h.advanceTo hr hn hl
        exact ⟨ρ, t', .refl ρ, ht, hstep⟩

-- The other service takes some of the steps.
theorem run (h : Lags ρ uri s t) (hs : (start settings backend features).Reaches s) (limit : Option Nat) (fuel : Nat) :
    ∃ ρ' m, ρ.Grows ρ' ∧ Lags ρ' uri (Service.run fuel limit s) (Service.run m limit t) := by
  induction fuel generalizing ρ s t
  case zero         => exact ⟨ρ, 0, .refl ρ, h⟩
  case succ fuel ih =>
    simp only [Service.run]
    cases hstep : s.step? limit
    case none    => exact ⟨ρ, 0, .refl ρ, h⟩
    case some s' =>
      have hs' : (start settings backend features).Reaches s' :=
        hs.trans (Run.step? (fun _ => trivial) (fun _ _ _ => trivial) hstep)
      obtain ⟨ρ₁, t', hρ₁, h', ht⟩ := h.step? hs hstep
      obtain ⟨ρ₂, m, hρ₂, h''⟩ := ih h' hs'
      rcases ht with rfl | ht
      case inl => exact ⟨ρ₂, m, hρ₁.trans hρ₂, h''⟩
      case inr => exact ⟨ρ₂, m + 1, hρ₁.trans hρ₂, by simpa only [Service.run, ht] using h''⟩

-- When the one has nothing left to do, nor has the other.
theorem finished (h : Lags ρ uri s t) (hs : s.step? limit = none) : t.step? limit = none := by
  rw [step?_eq_none_iff] at hs ⊢
  obtain ⟨hr, hn, hl⟩ := hs
  refine ⟨h.ready_eq_nil hr, fun hlimit => List.eq_nil_iff_forall_not_mem.mpr fun a ha => ?_, fun time ht a ha => ?_⟩
  case refine_1 =>
    obtain ⟨a', ha', _⟩ := h.exists_alarm ha
    rw [hn hlimit] at ha'
    exact List.not_mem_nil ha'
  case refine_2 =>
    obtain ⟨a', ha', hd⟩ := h.exists_alarm ha
    exact hd ▸ hl time ht a' ha'

end Lags

theorem Mirrors.settle {settings : Setup} {backend : Backend} {features : Option LanguageFeatures}
    (h : Mirrors ρ uri s t) (hs : (start settings backend features).Reaches s) (ms : Nat) :
    ∃ ρ', ρ.Grows ρ' ∧ Mirrors ρ' uri (s.settle ms) (t.settle ms) := by
  obtain ⟨ρ', m, hρ, hlag⟩ := (Lags.of_mirrors h).run hs (some (s.now + ms)) s.work
  have hrun : Service.run m (some (s.now + ms)) t = Service.run t.work (some (s.now + ms)) t :=
    run_eq_of_finished (hlag.finished (step?_run_eq_none _ (Nat.le_refl _))) (step?_run_eq_none _ (Nat.le_refl _))
  have hnow := now_run_le s.work (Nat.le_add_right s.now ms)
  have hadv := hlag.mirrors.advanceTo (s.now + ms)
  have hlate := hlag.now
  refine ⟨ρ', hρ, ?_⟩
  simp only [Service.settle, h.now, ← hrun]
  have hmax : max (Service.run m (some (s.now + ms)) t).now (s.now + ms) =
      max (Service.run s.work (some (s.now + ms)) s).now (s.now + ms) := by
    omega
  simp only [Service.advanceTo] at hadv ⊢
  rw [hmax]
  exact hadv

end GhostText.Service
