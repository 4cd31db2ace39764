import GhostText.Proofs.Service.MirroredCalls
import GhostText.Proofs.Service.Owners

namespace GhostText

open Service

variable {ρ ρ' : Renaming}

namespace Service

variable {uri : Text} {s t : Service} {c i j k r : Nat}

namespace Mirrors

variable (h : Mirrors ρ uri s t)
include h

theorem buffer? : Option.Rel (fun a b => ρ.buffer a.1 = some b.1 ∧ a.2 = b.2) (s.buffer? uri) (t.buffer? uri) := by
  have ho := h.opened
  simp only [Service.buffer?]
  generalize s.opened.lookup uri = x at ho ⊢
  generalize t.opened.lookup uri = y at ho ⊢
  cases ho
  case none => exact .none
  case some hb =>
    obtain ⟨document, _, hs, ht, rfl⟩ := h.buffers.found _ _ hb
    simp only [Option.bind_eq_bind, Option.bind_some, hs, ht]
    exact .some ⟨hb, rfl⟩

theorem edit (span : Span) (text : Text) : Mirrors ρ uri (s.edit uri span text).1 (t.edit uri span text).1 := by
  have hb := h.buffer?
  simp only [Service.edit]
  generalize s.buffer? uri = x at hb ⊢
  generalize t.buffer? uri = y at hb ⊢
  cases hb
  case none => exact h
  case some x y hxy =>
    obtain ⟨b, document⟩ := x
    obtain ⟨b', document'⟩ := y
    obtain ⟨hb, rfl⟩ : ρ.buffer b = some b' ∧ document = document' := hxy
    exact
      { h with
        buffers := h.buffers.set hb rfl
        places  := by simpa using h.places }

theorem provide (position : Position) :
    ∃ ρ', ρ.Grows ρ' ∧ Mirrors ρ' uri (s.provide uri position) (t.provide uri position) := by
  have hb := h.buffer?
  simp only [Service.provide]
  generalize s.buffer? uri = x at hb ⊢
  generalize t.buffer? uri = y at hb ⊢
  cases hb
  case none => exact ⟨ρ, .refl ρ, h⟩
  case some x y hxy =>
    have hcall : Call.Same ρ { uri, buffer := x.1, position } { uri, buffer := y.1, position } :=
      ⟨rfl, hxy.1, rfl, .queued⟩
    exact ⟨_, .learnCall h.calls.next _, (h.addCall rfl hcall).queue (.startCall (learn_self ..))⟩

theorem cancelCall (hc : ρ.call c = some k) : Mirrors ρ uri (s.cancelCall c).1 (t.cancelCall k).1 := by
  obtain ⟨x, y, hx, hy, _, hxy⟩ := h.calls.found c k hc
  have hs := hxy.stage
  have hcancel := (h.dropAlarm (.call hc)).setCall hc .cancelled
  simp only [Service.cancelCall, stage?, hx, hy, Option.map_some]
  generalize x.stage = xs at hs ⊢
  generalize y.stage = ys at hs ⊢
  cases hs
  case answered  => exact h
  case cancelled => exact h
  all_goals exact hcancel

theorem accept (hi : ρ.session i = some j) (hr : ρ.number r = some k) (p q : Prediction) :
    Mirrors ρ uri (s.accept i r p) (t.accept j k q) := by
  have hn := h.note (.accepted p.id) (.accepted q.id)
  obtain ⟨x, y, hx, hy, hxy⟩ := hn.sessions.found i j hi
  simp only [Service.accept, hx, hy, hn.now]
  refine (hn.setSession hi ?_).forget hi hr
  exact { hxy with lastAccept := rfl }

theorem acceptAll (hi : ρ.session i = some j) {xs ys : List (Nat × Prediction)}
    (hxy : List.Forall₂ (Named ρ) xs ys) : Mirrors ρ uri (xs.foldl (fun s x => s.accept i x.1 x.2) s)
      (ys.foldl (fun s x => s.accept j x.1 x.2) t) := by
  induction hxy generalizing s t
  case nil           => exact h
  case cons hab _ ih => exact ih (h.accept hi hab.1 _ _)

-- The same completions are said to be shown.
theorem free (position : Position) {shown shown' : Option (List Int)}
    (hs : ∀ x y, ρ.id? x = some y → shown.all (·.contains x) = shown'.all (·.contains y)) :
    Mirrors ρ uri (s.free uri position shown).1 (t.free uri position shown').1 ∧
      List.Forall₂ (ρ.id? · = some ·) (s.free uri position shown).2 (t.free uri position shown').2 := by
  have hb := h.buffer?
  have hcur := h.current
  simp only [Service.free]
  generalize s.buffer? uri = x at hb ⊢
  generalize t.buffer? uri = y at hb ⊢
  generalize s.session? uri = i at hcur ⊢
  generalize t.session? uri = j at hcur ⊢
  cases hcur
  case none => exact ⟨h, .nil⟩
  case some i j hi =>
    cases hb
    case none => exact ⟨h, .nil⟩
    case some x y hxy =>
      obtain ⟨b, document⟩ := x
      obtain ⟨b', document'⟩ := y
      obtain ⟨-, rfl⟩ : ρ.buffer b = some b' ∧ document = document' := hxy
      obtain ⟨x, y, hx, hy, hxy⟩ := h.sessions.found i j hi
      simp only [hx, hy]
      generalize Text.squeeze (document.cursorAt position).before = typed
      have htaken : List.Forall₂ (Named ρ)
          ((s.predictionsIn x).filter fun x => shown.all (·.contains x.2.id) && isAccepted typed x.2)
          ((t.predictionsIn y).filter fun x => shown'.all (·.contains x.2.id) && isAccepted typed x.2) := by
        refine List.rel_filter (fun a b hab => ?_) (h.predictionsIn hxy)
        have hacc : isAccepted typed b.2 = isAccepted typed a.2 := by
          simp only [isAccepted, hab.2.status, hab.2.before, hab.2.insertText]
        simp only [hacc, hs _ _ hab.2.id?]
      refine ⟨(h.acceptAll hi htaken).count _ _, ?_⟩
      rw [List.forall₂_map_left_iff, List.forall₂_map_right_iff]
      exact htaken.imp fun _ _ hab => hab.2.id?

theorem close : Mirrors ρ uri (s.close uri) (t.close uri) := by
  have hcur := h.current
  have hclosed : Mirrors ρ uri { s with current := s.current.filter (·.1 ≠ uri) }
      { t with current := t.current.filter (·.1 ≠ uri) } :=
    { h with
      current := by
        simp only [session?, Closes.lookup_filter_self]
        exact .none
      homes   := fun uri' hu => by
        simp only [session?, Closes.lookup_filter hu]
        exact h.homes uri' hu
      alone   := fun uri' hu => by
        simp only [session?, Closes.lookup_filter hu]
        exact h.alone uri' hu }
  simp only [Service.close]
  generalize s.session? uri = i at hcur ⊢
  generalize t.session? uri = j at hcur ⊢
  cases hcur
  case none    => exact h
  case some hi => exact hclosed.clear hi

theorem setDelay (delay : Option Nat) : Mirrors ρ uri (s.setDelay delay) (t.setDelay delay) := by
  refine { h with backend := ?_ }
  simp only [Service.setDelay]
  rw [h.backend]

-- The same predictions are kept for the document.
theorem predictionsOf : List.Forall₂ (Prediction.Same ρ) (s.predictionsOf uri) (t.predictionsOf uri) := by
  have hcur := h.current
  simp only [Service.predictionsOf]
  generalize s.session? uri = i at hcur ⊢
  generalize t.session? uri = j at hcur ⊢
  cases hcur
  case none    => exact .nil
  case some hi =>
    obtain ⟨x, y, hx, hy, hxy⟩ := h.sessions.found _ _ hi
    simp only [Option.bind_some, hx, hy]
    rw [List.forall₂_map_left_iff, List.forall₂_map_right_iff]
    exact (h.predictionsIn hxy).imp fun _ _ hab => hab.2

end Mirrors
end Service
end GhostText
