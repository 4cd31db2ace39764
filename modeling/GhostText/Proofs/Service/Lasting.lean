import GhostText.Proofs.Service.Spared

namespace GhostText.Service

variable {s s' s'' : Service} {uri : Text} {c i k : Nat} {call : Call} {e : Event}

-- The document is not closed.
def Sparing (uri : Text) (_ : Service) (e : Event) : Prop :=
  e ≠ .close uri ∧ e ≠ .dispose

-- The document stays in its session, and the calls stay what they were made as.
structure Lasts (uri : Text) (s s' : Service) : Prop where
  session? : ∀ i, s.session? uri = some i → s'.session? uri = some i
  buffers  : s.buffers.size ≤ s'.buffers.size
  calls    : ∀ (c : Nat) (call : Call), s.calls[c]? = some call → ∃ stage, s'.calls[c]? = some { call with stage }
  made     : ∀ (c : Nat) (call : Call), s'.calls[c]? = some call → s.calls[c]? = none → call.buffer < s'.buffers.size

namespace Lasts

theorem of_eq (hu : s'.session? uri = s.session? uri) (hb : s.buffers.size ≤ s'.buffers.size)
    (hc : s'.calls = s.calls) : Lasts uri s s' where
  session? := fun _ hi => hu.trans hi
  buffers  := hb
  calls    := fun _ call h => ⟨call.stage, hc ▸ h⟩
  made     := fun _ _ h hn => by simp [hc, hn] at h

theorem refl (s : Service) : Lasts uri s s :=
  of_eq rfl (Nat.le_refl _) rfl

theorem trans (h₁ : Lasts uri s s') (h₂ : Lasts uri s' s'') : Lasts uri s s'' where
  session? := fun i hi => h₂.session? i (h₁.session? i hi)
  buffers  := Nat.le_trans h₁.buffers h₂.buffers
  calls    := fun c call hc => by
    obtain ⟨stage, hc'⟩ := h₁.calls c call hc
    exact h₂.calls c { call with stage } hc'
  made     := fun c call hc hn => by
    cases hc' : s'.calls[c]?
    case none       => exact h₂.made c call hc hc'
    case some call' =>
      obtain ⟨_, hc''⟩ := h₂.calls c call' hc'
      obtain rfl := Option.some.inj (hc.symm.trans hc'')
      exact Nat.lt_of_lt_of_le (h₁.made c call' hc' hn) h₂.buffers

theorem within (hw : Within k i s s') : Lasts uri s s' where
  session? := fun _ hi => (hw.session? uri).trans hi
  buffers  := Nat.le_of_eq (congrArg Array.size hw.buffers).symm
  calls    := fun c call hc => by
    rcases hw.calls c with he | ⟨_, stage, _, he⟩
    case inl => exact ⟨call.stage, he ▸ hc⟩
    case inr => exact ⟨stage, by rw [he, hc, Option.map_some]⟩
  made     := fun c call hc hn => by
    rcases hw.calls c with he | ⟨_, _, _, he⟩ <;> simp [he, hn] at hc

theorem setCall (s : Service) (c : Nat) (stage : Stage) : Lasts uri s (s.setCall c stage) where
  session? := fun _ => id
  buffers  := Nat.le_refl _
  calls    := fun k call hk => by
    by_cases hck : c = k
    case pos => exact ⟨stage, by simp [Service.setCall, Array.getElem?_modify, hck, hk]⟩
    case neg => exact ⟨call.stage, by simp [Service.setCall, Array.getElem?_modify, hck, hk]⟩
  made     := fun k call hk hn => by simp [Service.setCall, Array.getElem?_modify, hn] at hk

theorem sessionFor (s : Service) (uri' : Text) : Lasts uri s (s.sessionFor uri').1 where
  session? := fun i hi => by
    rw [session?_sessionFor]
    split
    case isFalse   => exact hi
    case isTrue hu => rw [sessionFor_of_some (hu ▸ hi)]
  buffers  := Nat.le_of_eq (congrArg Array.size (fixed_sessionFor s 0 uri').buffers).symm
  calls    := fun c call hc => ⟨call.stage, (Shifts.sessionFor (l := 0) s uri').2 ▸ hc⟩
  made     := fun c call hc hn => by simp [(Shifts.sessionFor (l := 0) s uri').2, hn] at hc

theorem takeTurn (s : Service) (t : Turn) : Lasts uri s (s.takeTurn t) := by
  generalize hs : s.takeTurn t = s'
  cases hs ▸ extent_takeTurn s t
  case aside hw         => exact within (hw 0 0)
  case refuse k _ _ _ _ => exact within (.answer (i := 0) s k [])
  case seek k call _ _ _ => exact (sessionFor s call.uri).trans (within (.seek s k call))
  case resume hi        => exact within (.resumeCall fun j hj => Option.some.inj (hj ▸ hi))

theorem close (s : Service) {uri' : Text} (h : uri' ≠ uri) : Lasts uri s (s.close uri') := by
  simp only [Service.close]
  split
  case h_1   => exact refl s
  case h_2 i _ =>
    have hs : Lasts uri s { s with current := s.current.filter (·.1 ≠ uri') } :=
      of_eq (Closes.lookup_filter h.symm s.current) (Nat.le_refl _) rfl
    exact hs.trans (within (.clear (c := 0) _ i))

end Lasts

theorem lasts_after (he : Sparing uri s e) : Lasts uri s (s.after e) := by
  cases e
  case turn =>
    simp only [after, takeNext]
    split
    case h_1           => exact .refl s
    case h_2 t rest hr =>
      have hs : Lasts uri s { s with ready := rest } := .of_eq rfl (Nat.le_refl _) rfl
      exact hs.trans (.takeTurn _ t)
  case openBuffer => exact .of_eq rfl (by simp [after, openBuffer]) rfl
  case edit       =>
    simp only [after, edit]
    split
    case h_1 => exact .refl s
    case h_2 => exact .of_eq rfl (by simp) rfl
  case provide uri' position =>
    simp only [after, provide]
    split
    case h_1           => exact .refl s
    case h_2 b _ hb =>
      have hlt := (Array.getElem?_eq_some_iff.mp (buffer?_eq_some_iff.mp hb).2).1
      refine ⟨fun _ => id, Nat.le_refl _, fun c call hc => ⟨call.stage, ?_⟩, fun c call hc hn => ?_⟩
      case refine_1 =>
        have hlt := (Array.getElem?_eq_some_iff.mp hc).1
        simpa [queue, Array.getElem?_push, Nat.ne_of_lt hlt] using hc
      case refine_2 =>
        simp only [queue, Array.getElem?_push] at hc
        split at hc
        case isTrue  => exact Option.some.inj hc ▸ hlt
        case isFalse => simp [hn] at hc
  case cancel c =>
    simp only [after, cancelCall]
    split
    case h_4 =>
      have hs : Lasts uri s (s.dropAlarm (.call c)) := .of_eq rfl (Nat.le_refl _) rfl
      exact hs.trans (.setCall _ c .cancelled)
    all_goals exact .refl s
  case free uri' position shown =>
    cases hi : s.session? uri'
    case none   => simpa [after, free, hi] using Lasts.refl s
    case some i => exact .within (.free (c := 0) position shown hi)
  case close uri' => exact .close s fun h => he.1 (by rw [h])
  case dispose    => exact absurd rfl he.2
  all_goals exact .of_eq rfl (Nat.le_refl _) rfl

theorem Lasts.run (h : Run (Sparing uri) s s') : Lasts uri s s' := by
  induction h
  case refl       => exact .refl s
  case step he ih => exact ih.trans (lasts_after he)

end GhostText.Service
