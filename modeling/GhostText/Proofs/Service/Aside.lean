import GhostText.Proofs.Service.Owners

namespace GhostText.Service

variable {s s' s'' : Service} {uri : Text} {c i k : Nat} {e : Event}

-- Turns are taken, the clock goes on, and those the service works with may begin to behave otherwise.
def Passing (_ : Service) : Event → Prop
  | .turn | .advance _ | .serve _ | .assist _ => True
  | _ => False

theorem Passing.settle (s : Service) (ms : Nat) : Run Passing s (s.settle ms) :=
  .settle (fun _ => trivial) (fun _ _ _ => trivial) s ms

def Stage.Over : Stage → Prop
  | .answered _ | .cancelled => True
  | _ => False

-- No other call for the document goes on.
def Alone (s : Service) (uri : Text) (c : Nat) : Prop :=
  ∀ (k : Nat) (call : Call), s.calls[k]? = some call → call.uri = uri → k = c ∨ call.stage.Over

-- The document and its session are left alone, and so is the call.
structure Aside (uri : Text) (c : Nat) (s s' : Service) : Prop where
  settings   : s'.settings = s.settings
  buffers    : s'.buffers = s.buffers
  opened     : s'.opened = s.opened
  session?   : s'.session? uri = s.session? uri
  sessions   : ∀ i, s.session? uri = some i → s'.sessions[i]? = s.sessions[i]?
  own        : s'.calls[c]? = s.calls[c]?
  calls      : ∀ k : Nat, s'.calls[k]? = s.calls[k]? ∨
    ∃ call : Call, s.calls[k]? = some call ∧ call.uri ≠ uri ∧ ∃ stage, s'.calls[k]? = some { call with stage }
  dispatches : ∀ (r : Nat) (d : Dispatch), s.dispatches[r]? = some d →
    ∃ d' : Dispatch, s'.dispatches[r]? = some d' ∧ d'.call = d.call ∧ d.prediction.Ages d'.prediction
  sent       : ∀ (r : Nat) (d : Dispatch), s'.dispatches[r]? = some d → s.dispatches[r]? = none → d.call ≠ c
  started    : s'.ready.count (.startCall c) = s.ready.count (.startCall c)

namespace Aside

theorem refl (s : Service) : Aside uri c s s where
  settings   := rfl
  buffers    := rfl
  opened     := rfl
  session?   := rfl
  sessions   := fun _ _ => rfl
  own        := rfl
  calls      := fun _ => .inl rfl
  dispatches := fun _ d hd => ⟨d, hd, rfl, .refl _⟩
  sent       := fun _ _ hd hn => by simp [hn] at hd
  started    := rfl

theorem trans (h₁ : Aside uri c s s') (h₂ : Aside uri c s' s'') : Aside uri c s s'' where
  settings   := h₂.settings.trans h₁.settings
  buffers    := h₂.buffers.trans h₁.buffers
  opened     := h₂.opened.trans h₁.opened
  session?   := h₂.session?.trans h₁.session?
  sessions   := fun i hi => (h₂.sessions i (h₁.session? ▸ hi)).trans (h₁.sessions i hi)
  own        := h₂.own.trans h₁.own
  calls      := fun k => by
    rcases h₂.calls k with he₂ | ⟨call, hk, hu, stage, he₂⟩
    case inl => exact he₂ ▸ h₁.calls k
    case inr =>
      rcases h₁.calls k with he₁ | ⟨call', hk', hu', stage', he₁⟩
      case inl => exact .inr ⟨call, he₁ ▸ hk, hu, stage, he₂⟩
      case inr =>
        obtain rfl := Option.some.inj (hk ▸ he₁)
        exact .inr ⟨call', hk', hu', stage, he₂⟩
  dispatches := fun r d hd => by
    obtain ⟨d', hd', hc, ha⟩ := h₁.dispatches r d hd
    obtain ⟨d'', hd'', hc', ha'⟩ := h₂.dispatches r d' hd'
    exact ⟨d'', hd'', hc'.trans hc, ha.trans ha'⟩
  sent       := fun r d hd hn => by
    cases hd' : s'.dispatches[r]?
    case none    => exact h₂.sent r d hd hd'
    case some d' =>
      obtain ⟨d'', hd'', hc', _⟩ := h₂.dispatches r d' hd'
      obtain rfl := Option.some.inj (hd ▸ hd'')
      exact hc' ▸ h₁.sent r d' hd' hn
  started    := h₂.started.trans h₁.started

-- A turn of a call for another document.
theorem within (hw : Within k i s s') (hi : s.session? uri ≠ some i) (hne : k ≠ c)
    (hk : ∀ call, s.calls[k]? = some call → call.uri ≠ uri) : Aside uri c s s' where
  settings   := hw.settings
  buffers    := hw.buffers
  opened     := hw.opened
  session?   := hw.session? uri
  sessions   := fun j hj => hw.sessions j fun hji => hi (hji ▸ hj)
  own        := (hw.calls c).resolve_right fun h => hne h.1.symm
  calls      := fun j => by
    rcases hw.calls j with he | ⟨rfl, stage, _, he⟩
    case inl => exact .inl he
    case inr =>
      cases hj : s.calls[j]?
      case none      => exact .inl (by rw [he, hj, Option.map_none])
      case some call => exact .inr ⟨call, rfl, hk call hj, stage, by rw [he, hj, Option.map_some]⟩
  dispatches := hw.dispatches
  sent       := fun r d hd hn => (hw.sent r d hd hn).1 ▸ hne
  started    := hw.ready.count_startCall c

theorem sessionFor (ho : s.Owned) {uri' : Text} (hu : uri' ≠ uri) : Aside uri c s (s.sessionFor uri').1 := by
  have hs := session?_sessionFor s uri' uri
  rw [if_neg hu.symm] at hs
  cases hs' : s.session? uri'
  case some j => rw [sessionFor_of_some hs']; exact refl s
  case none   =>
    have hsessions (i : Nat) (hi : s.session? uri = some i) : (s.sessionFor uri').1.sessions[i]? = s.sessions[i]? := by
      have hlt := ho.lt_size uri i hi
      simp [Service.sessionFor, hs', Array.getElem?_push, Nat.ne_of_lt hlt]
    constructor
    case session? => exact hs
    case sessions => exact hsessions
    case dispatches =>
      intro r d hd
      exact ⟨d, by simpa [Service.sessionFor, hs'] using hd, rfl, .refl _⟩
    case sent =>
      intro r d hd hn
      simp [Service.sessionFor, hs', hn] at hd
    case calls => exact fun k => .inl (by simp [Service.sessionFor, hs'])
    all_goals simp [Service.sessionFor, hs']

-- Turns become due, but none in which a call is asked for.
theorem of_ready (h : s'.ready.count (.startCall c) = s.ready.count (.startCall c)) (he : s' = { s with
    ready := s'.ready, now := s'.now, alarms := s'.alarms, backend := s'.backend, features := s'.features }) :
    Aside uri c s s' := by
  rw [he]
  exact { refl s with started := h }

theorem alone (h : Aside uri c s s') (ha : s.Alone uri c) : s'.Alone uri c := by
  intro k call hk hu
  rcases h.calls k with he | ⟨call', hk', hu', stage, he⟩
  case inl => exact ha k call (he ▸ hk) hu
  case inr =>
    obtain rfl := Option.some.inj (hk ▸ he)
    exact absurd hu hu'

end Aside

-- With no other call for the document, a turn is the call's own or leaves it aside.
theorem Owned.takeTurn_aside (ho : s.Owned) (ha : s.Alone uri c) (t : Turn) (hs : t ≠ .startCall c)
    (hr : t ≠ .resumeCall c) : Aside uri c s (s.takeTurn t) := by
  -- a call that goes on and is not the one is for another document
  have hother {k : Nat} {call : Call} (hk : s.calls[k]? = some call) (hkc : k ≠ c) (hst : ¬call.stage.Over) :
      call.uri ≠ uri := fun hu => ((ha k call hk hu).resolve_left hkc |> hst)
  have hfree : s.session? uri ≠ some s.sessions.size := fun hi => by
    have := ho.lt_size uri _ hi
    omega
  generalize hs' : s.takeTurn t = s'
  cases hs' ▸ extent_takeTurn s t
  case aside hw =>
    refine .within (hw (s.calls.size + c + 1) s.sessions.size) hfree (by omega) fun call hk => ?_
    rw [Array.getElem?_eq_none (by omega)] at hk
    contradiction
  case refuse k call hk hq _ =>
    have hne : k ≠ c := by rintro rfl; exact hs rfl
    refine .within (.answer s k []) hfree hne fun call' hk' => ?_
    obtain rfl := Option.some.inj (hk ▸ hk')
    exact hother hk hne (by simp [hq, Stage.Over])
  case seek k call hk hq _ =>
    have hne : k ≠ c := by rintro rfl; exact hs rfl
    have hu : call.uri ≠ uri := hother hk hne (by simp [hq, Stage.Over])
    refine (Aside.sessionFor ho hu).trans (.within (.seek s k call) ?_ hne fun call' hk' => ?_)
    case refine_1 =>
      intro hi
      have hi' := session?_sessionFor s call.uri call.uri
      rw [if_pos rfl] at hi'
      exact hu ((ho.sessionFor call.uri).distinct _ _ _ hi' hi)
    case refine_2 =>
      rw [(Shifts.sessionFor (l := 0) s call.uri).2] at hk'
      obtain rfl := Option.some.inj (hk ▸ hk')
      exact hu
  case resume k i call hk hi =>
    have hne : k ≠ c := by rintro rfl; exact hr rfl
    have hu : call.uri ≠ uri := hother hk hne fun hst => by
      cases hst' : call.stage <;> simp_all [Stage.Over, Stage.session?]
    refine .within (.resumeCall fun j hj => Option.some.inj (hj ▸ hi)) (fun h => ?_) hne fun call' hk' => ?_
    case refine_1 => exact hu ((ho.calls k call hk i hi).2 uri h).symm
    case refine_2 => exact Option.some.inj (hk ▸ hk') ▸ hu

-- What can happen for the document while the editor does nothing.
theorem Owned.aside_or_own (ho : s.Owned) (ha : s.Alone uri c) (he : Passing s e) :
    Aside uri c s (s.after e) ∨
      ∃ t rest, e = .turn ∧ s.ready = t :: rest ∧ (t = .startCall c ∨ t = .resumeCall c) ∧
        s.after e = { s with ready := rest }.takeTurn t := by
  cases e
  case turn =>
    simp only [Service.after, takeNext]
    split
    case h_1           => exact .inl (.refl s)
    case h_2 t rest hr =>
      by_cases ht : t = .startCall c ∨ t = .resumeCall c
      case pos => exact .inr ⟨t, rest, trivial, hr, ht, rfl⟩
      case neg =>
        rw [not_or] at ht
        have ho' : ({ s with ready := rest } : Service).Owned :=
          ho.of_eq rfl rfl rfl rfl fun c hc => hr ▸ List.mem_cons_of_mem t hc
        refine .inl (.trans (.of_ready ?_ rfl) (ho'.takeTurn_aside ha t ht.1 ht.2))
        simp [hr, ht.1]
  case advance time =>
    refine .inl (.of_ready ?_ rfl)
    simp [Service.after, advanceTo, List.count_eq_zero]
  case serve b   => exact .inl (.of_ready rfl rfl)
  case assist f  => exact .inl (.of_ready rfl rfl)
  all_goals exact False.elim he

end GhostText.Service
