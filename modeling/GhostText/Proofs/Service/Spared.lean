import GhostText.Proofs.Service.Course

namespace GhostText.Service

variable {s s' s'' : Service} {c i k r : Nat} {p : Prediction}

-- The call stays where it is, and every request goes on as it was made.
structure Spares (c : Nat) (s s' : Service) : Prop where
  own        : s'.calls[c]? = s.calls[c]?
  dispatches : ∀ (r : Nat) (d : Dispatch), s.dispatches[r]? = some d →
    ∃ d' : Dispatch, s'.dispatches[r]? = some d' ∧ d'.call = d.call ∧ d.prediction.Ages d'.prediction

namespace Spares

theorem of_eq (hc : s'.calls[c]? = s.calls[c]?) (hd : s'.dispatches = s.dispatches) : Spares c s s' where
  own        := hc
  dispatches := fun _ d h => ⟨d, hd ▸ h, rfl, .refl _⟩

theorem refl (s : Service) : Spares c s s :=
  of_eq rfl rfl

theorem trans (h₁ : Spares c s s') (h₂ : Spares c s' s'') : Spares c s s'' where
  own        := h₂.own.trans h₁.own
  dispatches := fun r d hd => by
    obtain ⟨d', hd', hc, ha⟩ := h₁.dispatches r d hd
    obtain ⟨d'', hd'', hc', ha'⟩ := h₂.dispatches r d' hd'
    exact ⟨d'', hd'', hc'.trans hc, ha.trans ha'⟩

theorem within (hw : Within k i s s') (hne : c ≠ k) : Spares c s s' where
  own        := (hw.calls c).resolve_right fun h => hne h.1
  dispatches := hw.dispatches

theorem sessionFor (s : Service) (uri : Text) : Spares c s (s.sessionFor uri).1 := by
  simp only [Service.sessionFor]
  split <;> exact of_eq rfl rfl

theorem close (s : Service) (uri : Text) : Spares c s (s.close uri) := by
  simp only [Service.close]
  split
  case h_1     => exact refl s
  case h_2 i _ =>
    have hs : Spares c s { s with current := s.current.filter (·.1 ≠ uri) } := of_eq rfl rfl
    exact hs.trans (within (.clear _ i) (Nat.ne_of_lt (Nat.lt_succ_self c)))

theorem dispose (s : Service) : Spares c s s.dispose := by
  simp only [Service.dispose]
  generalize s.current.map (·.1) = uris
  induction uris generalizing s
  case nil              => exact refl s
  case cons uri uris ih => exact (close s uri).trans (ih _)

variable (h : Spares c s s')
include h

theorem stage? : s'.stage? c = s.stage? c := by
  rw [Service.stage?, h.own, Service.stage?]

theorem prediction? (hp : s.prediction? r = some p) : ∃ p', s'.prediction? r = some p' ∧ p.Ages p' := by
  obtain ⟨d, hd, rfl⟩ := Option.map_eq_some_iff.mp hp
  obtain ⟨d', hd', _, ha⟩ := h.dispatches r d hd
  exact ⟨d'.prediction, by simp [Service.prediction?, hd'], ha⟩

end Spares

theorem spares_takeTurn (s : Service) {t : Turn} (hs : t ≠ .startCall c) (hr : t ≠ .resumeCall c) :
    Spares c s (s.takeTurn t) := by
  generalize hs' : s.takeTurn t = s'
  cases hs' ▸ extent_takeTurn s t
  case aside hw    => exact .within (hw (c + 1) 0) (Nat.ne_of_lt (Nat.lt_succ_self c))
  case refuse k _ _ _ _ => exact .within (.answer (i := 0) s k []) fun h => hs (by rw [h])
  case seek k call _ _ _ =>
    exact (Spares.sessionFor s call.uri).trans (.within (.seek s k call) fun h => hs (by rw [h]))
  case resume k i call _ hi =>
    exact .within (.resumeCall fun j hj => Option.some.inj (hj ▸ hi)) fun h => hr (by rw [h])

-- A turn of a call that is over does nothing.
theorem takeTurn_of_over {t : Turn} {stage : Stage} (hc : s.stage? c = some stage) (ho : stage.Over)
    (ht : t = .startCall c ∨ t = .resumeCall c) : s.takeTurn t = s := by
  obtain ⟨call, hcall, hst⟩ := Option.map_eq_some_iff.mp hc
  rcases ht with rfl | rfl
  case inl =>
    refine takeTurn_startCall_of_ne_queued fun hq => ?_
    obtain rfl := Option.some.inj (hc.symm.trans hq)
    exact ho
  case inr =>
    simp only [takeTurn, withCall, hcall]
    exact resumeCall_of_session?_eq_none (Stage.session?_of_over (hst ▸ ho))

-- What an event is to a call.
inductive Befalls (c : Nat) (s : Service) : Service → Prop
  | spare {s' : Service} (h : Spares c s s') : Befalls c s s'
  | turn {t : Turn} {rest : List Turn} (hr : s.ready = t :: rest) (ht : t = .startCall c ∨ t = .resumeCall c) :
    Befalls c s ({ s with ready := rest }.takeTurn t)
  | make {call : Call} (hc : c = s.calls.size) (hq : call.stage = .queued) :
    Befalls c s ({ s with calls := s.calls.push call }.queue (.startCall c))
  | cancel (ho : ∀ stage, s.stage? c = some stage → ¬stage.Over) :
    Befalls c s ((s.dropAlarm (.call c)).setCall c .cancelled)

-- No call is made, taken back or given its turn.
theorem spares_after {e : Event} (ht : e ≠ .turn) (hp : ∀ uri position, e ≠ .provide uri position)
    (hk : ∀ k, e ≠ .cancel k) : Spares c s (s.after e) := by
  cases e
  case turn                  => contradiction
  case provide uri position  => exact absurd rfl (hp uri position)
  case cancel k              => exact absurd rfl (hk k)
  case edit uri span t =>
    simp only [after, edit]
    split <;> exact .of_eq rfl rfl
  case free uri position shown =>
    cases hi : s.session? uri
    case none   => simpa [after, free, hi] using Spares.refl s
    case some i => exact .within (.free position shown hi) (Nat.ne_of_lt (Nat.lt_succ_self c))
  case close uri => exact .close s uri
  case dispose   => exact .dispose s
  all_goals exact .of_eq rfl rfl

theorem befalls_after (c : Nat) (e : Event) : Befalls c s (s.after e) := by
  cases e
  case turn =>
    simp only [after, takeNext]
    split
    case h_1            => exact .spare (.refl s)
    case h_2 t rest hr =>
      by_cases ht : t = .startCall c ∨ t = .resumeCall c
      case pos => exact .turn hr ht
      case neg =>
        rw [not_or] at ht
        have hs : Spares c s { s with ready := rest } := .of_eq rfl rfl
        exact .spare (hs.trans (spares_takeTurn _ ht.1 ht.2))
  case provide uri position =>
    simp only [after, provide]
    split
    case h_1 => exact .spare (.refl s)
    case h_2 =>
      by_cases hc : c = s.calls.size
      case pos => subst hc; exact .make rfl rfl
      case neg => exact .spare (.of_eq (by simp [queue, Array.getElem?_push, hc]) rfl)
  case cancel k =>
    simp only [after, cancelCall]
    split
    case h_4 stage h₁ h₂ hst =>
      by_cases hk : k = c
      case pos =>
        subst hk
        refine .cancel fun x hx ho => ?_
        obtain rfl := Option.some.inj (hst.symm.trans hx)
        cases stage <;> simp_all [Stage.Over]
      case neg => exact .spare (.of_eq (by simp [setCall, dropAlarm, Array.getElem?_modify, hk]) rfl)
    all_goals exact .spare (.refl s)
  all_goals exact .spare (spares_after (by simp) (by simp) (by simp))

-- A call that is over stays as it is.
theorem stage?_after_of_over {stage : Stage} (hc : s.stage? c = some stage) (ho : stage.Over) (e : Event) :
    (s.after e).stage? c = some stage := by
  generalize hs' : s.after e = s'
  cases hs' ▸ befalls_after c e
  case spare hs       => exact hs.stage?.trans hc
  case make hn _      => simp [stage?, hn] at hc
  case cancel hn      => exact absurd ho (hn stage hc)
  case turn rest _ ht => rw [takeTurn_of_over (s := { s with ready := rest }) hc ho ht]; exact hc

end GhostText.Service
