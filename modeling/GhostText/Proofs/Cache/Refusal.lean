import GhostText.Proofs.Cache.Disposal

namespace GhostText.Cache

section

variable {κ υ σ ε : Type} {hook : Hook κ υ σ ε} {s : σ} {e : ε}

theorem dispose_append (hook : Hook κ υ σ ε) (front back : List (κ × υ)) (s : σ) :
    dispose hook (front ++ back) s =
      match dispose hook front s with
      | (s', none)   => dispose hook back s'
      | (s', some e) => (s', some e) := by
  induction front generalizing s
  case nil => rfl
  case cons x rest ih =>
    rcases hx : hook x.1 x.2 s with ⟨s', _ | e⟩
    case none => simpa [dispose, hx] using ih s'
    case some => simp [dispose, hx]

-- The entries are shown in their order, and the first refusal is the last that is heard of the hook.
theorem dispose_refused_iff {entries : List (κ × υ)} :
    (dispose hook entries s).2 = some e ↔
      ∃ front k v back s', entries = front ++ (k, v) :: back ∧ dispose hook front s = (s', none) ∧
        (hook k v s').2 = some e := by
  constructor
  case mp =>
    intro h
    induction entries generalizing s
    case nil => simp [dispose] at h
    case cons x rest ih =>
      obtain ⟨k, v⟩ := x
      rcases hx : hook k v s with ⟨s₁, _ | e₁⟩
      case some => exact ⟨[], k, v, rest, s, rfl, rfl, by simpa [dispose, hx] using h⟩
      case none =>
        simp only [dispose, hx] at h
        obtain ⟨front, k', v', back, s', rfl, hfront, hk⟩ := ih h
        exact ⟨(k, v) :: front, k', v', back, s', rfl, by simpa [dispose, hx] using hfront, hk⟩
  case mpr =>
    rintro ⟨front, k, v, back, s', rfl, hfront, hk⟩
    rw [dispose_append, hfront]
    rcases hx : hook k v s' with ⟨s'', refused⟩
    obtain rfl : refused = some e := by simpa [hx] using hk
    simp [dispose, hx]

end

variable {κ υ σ τ ε δ : Type} [DecidableEq κ] {hook : Hook κ υ σ ε} {calm : Hook κ υ τ δ} {c : Cache κ υ} {s : σ}
  {op : Op κ υ} {n : Nat}

theorem Sound.run (hn : 0 < n) (h : Sound n c) (hook : Hook κ υ σ ε) (s : σ) (ops : List (Op κ υ)) :
    Sound n (run hook c s ops).1 := by
  induction ops generalizing c s
  case nil             => exact h
  case cons op rest ih => exact ih (h.perform hn hook s op) _

theorem refused_perform_eq (hn : c.keys.Nodup) (hook : Hook κ υ σ ε) (s : σ) (op : Op κ υ) :
    (c.perform hook s op).refused = (dispose hook (c.leaving op) s).2 := by
  rw [perform_eq_dispose hn]
  rcases dispose hook (c.leaving op) s with ⟨s', _ | e⟩ <;> rfl

theorem cache_perform_of_refused (hn : c.keys.Nodup) (h : (c.perform hook s op).refused ≠ none) :
    (c.perform hook s op).cache = c := by
  rw [perform_eq_dispose hn] at h ⊢
  rcases hd : dispose hook (c.leaving op) s with ⟨s', _ | e⟩
  case none => simp [hd] at h
  case some => rfl

theorem cache_perform_of_not_refused (hn : c.keys.Nodup) (hc : Tolerant calm) (t : τ)
    (h : (c.perform hook s op).refused = none) : (c.perform hook s op).cache = (c.perform calm t op).cache := by
  rw [perform_eq hc hn]
  rw [perform_eq_dispose hn] at h ⊢
  rcases hd : dispose hook (c.leaving op) s with ⟨s', _ | e⟩
  case none => rfl
  case some => simp [hd] at h

-- However a cache was used before, an operation is refused just if the hook refuses an entry that would leave, after it
-- has consented to those before it. The operation then changes no entry, and otherwise it does what it does with a hook
-- that never refuses.
theorem cache_perform {size : Int} (hsize : 0 < size) (hc : Tolerant calm) (hook : Hook κ υ σ ε) (s : σ) (t : τ)
    (ops : List (Op κ υ)) (op : Op κ υ) :
    ∃ c, ofSize? size = some c ∧
      let x := run hook c s ops
      let out := x.1.perform hook x.2 op
      (∀ e, out.refused = some e ↔ ∃ front k v back s', x.1.leaving op = front ++ (k, v) :: back ∧
        dispose hook front x.2 = (s', none) ∧ (hook k v s').2 = some e) ∧
      (out.refused ≠ none → out.cache = x.1) ∧
      (out.refused = none → out.cache = (x.1.perform calm t op).cache) := by
  have hn : 0 < size.toNat := by omega
  have hsound : Sound size.toNat (⟨size.toNat, []⟩ : Cache κ υ) := ⟨rfl, Nat.zero_le _, List.nodup_nil⟩
  have hnodup := (hsound.run hn hook s ops).nodup
  refine ⟨⟨size.toNat, []⟩, if_pos hsize, fun e => ?_, cache_perform_of_refused hnodup,
    cache_perform_of_not_refused hnodup hc t⟩
  rw [refused_perform_eq hnodup]
  exact dispose_refused_iff

-- Counts what it gets to see, and does not let go of one key.
def clinging : Hook Nat Nat Nat String :=
  fun k _ seen => (seen + 1, if k = 1 then some "no" else none)

-- One entry has had to leave, and another one could not.
def contested : List (Op Nat Nat) :=
  [.set 0 10, .set 2 12, .set 1 11, .delete 1]

-- A clear is refused at the second entry, so the first one is still there, and can be deleted.
theorem cache_perform_clinging :
    (0 : Int) < 2 ∧ Tolerant recording ∧ ∃ c, ofSize? 2 = some c ∧
      let x := run clinging c 0 contested
      x = (⟨2, [(2, 12), (1, 11)]⟩, 2) ∧
      (x.1.perform clinging x.2 .clear).refused = some "no" ∧ (x.1.perform clinging x.2 .clear).state = 4 ∧
      (x.1.perform clinging x.2 .clear).cache = x.1 ∧
      (x.1.perform clinging x.2 (.delete 2)).cache = (x.1.perform recording [] (.delete 2)).cache := by
  have hh : Tolerant recording := fun _ _ _ => rfl
  obtain ⟨c, hc, -, hrefused, -⟩ :=
    cache_perform (by decide : (0 : Int) < 2) hh clinging 0 [] contested .clear
  obtain ⟨c', hc', -, -, hagreed⟩ :=
    cache_perform (by decide : (0 : Int) < 2) hh clinging 0 [] contested (.delete 2)
  obtain rfl : c = ⟨2, []⟩ := (Option.some.inj hc).symm
  obtain rfl : c' = ⟨2, []⟩ := (Option.some.inj hc').symm
  exact ⟨by decide, hh, _, hc, rfl, rfl, rfl, hrefused (by decide), hagreed rfl⟩

end GhostText.Cache
