import GhostText.Proofs.Text.Content
import GhostText.Shown.Brackets

namespace GhostText.Brackets

open Text

variable {s t : Text} {stack : List Char} {c : Char}

theorem not_bracket_of_isBlank (h : isBlank c = true) : isOpener c = false ∧ opener? c = none := by
  constructor
  case left =>
    rw [← Bool.not_eq_true]
    intro ho
    have hc : c = '(' ∨ c = '[' ∨ c = '{' := by simpa [isOpener, or_assoc] using ho
    rcases hc with rfl | rfl | rfl <;> exact absurd h (by decide)
  case right =>
    simp only [opener?]
    split
    case h_4 => rfl
    all_goals exact absurd h (by decide)

theorem read_of_isBlank (h : isBlank c = true) : read stack c = stack := by
  obtain ⟨ho, hc⟩ := not_bracket_of_isBlank h
  simp [read, ho, hc]

theorem foldl_read_squeeze (t : Text) : (squeeze t).foldl read stack = t.foldl read stack := by
  induction t generalizing stack
  case nil => rfl
  case cons c t ih =>
    by_cases h : isBlank c = true
    case pos => simpa [squeeze, h, read_of_isBlank] using ih
    case neg => simpa [squeeze, h] using ih

-- A character that is no closer, or closes the innermost opener.
def Matches (stack : List Char) (c : Char) : Prop :=
  ∀ o ∈ opener? c, o ∈ stack.head?

theorem balancedPart_cons_of_matches (h : Matches stack c) (t : Text) :
    balancedPart stack (c :: t) = c :: balancedPart (read stack c) t := by
  by_cases ho : isOpener c = true
  case pos => simp [balancedPart, read, ho]
  case neg =>
    cases hc : opener? c
    case none   => simp [balancedPart, read, ho, hc]
    case some o =>
      obtain ⟨more, rfl⟩ := List.head?_eq_some_iff.mp (h o hc)
      simp [balancedPart, read, ho, hc]

theorem isOpener_of_opener?_ne_none (h : opener? c ≠ none) : isOpener c = false := by
  simp only [opener?] at h
  split at h
  case h_4 => exact absurd rfl h
  all_goals rfl

theorem balancedPart_cons_of_not_matches (h : ¬Matches stack c) (t : Text) : balancedPart stack (c :: t) = [] := by
  obtain ⟨o, hc, ho⟩ : ∃ o, opener? c = some o ∧ o ∉ stack.head? := by simpa [Matches] using h
  have hopener : isOpener c = false := isOpener_of_opener?_ne_none (by simp [hc])
  cases stack
  case nil           => simp [balancedPart, hopener, hc]
  case cons top more =>
    have ht : top ≠ o := by simpa using ho
    simp [balancedPart, hopener, hc, ht]

-- A character is cut off together with all that follows it, or it is kept and the rest is cut with what it leaves open.
theorem balancedPart_cons (stack : List Char) (c : Char) :
    (∀ t, balancedPart stack (c :: t) = []) ∨
      ∀ t, balancedPart stack (c :: t) = c :: balancedPart (read stack c) t := by
  by_cases h : Matches stack c
  case pos => exact .inr (balancedPart_cons_of_matches h)
  case neg => exact .inl (balancedPart_cons_of_not_matches h)

theorem balancedPart_isPrefix (stack : List Char) (t : Text) : balancedPart stack t <+: t := by
  induction t generalizing stack
  case nil => exact List.prefix_refl _
  case cons c t ih =>
    cases balancedPart_cons stack c
    case inl h => exact h t ▸ List.nil_prefix
    case inr h => exact h t ▸ List.cons_prefix_cons.mpr ⟨rfl, ih _⟩

theorem balancedPart_cons_of_isBlank (h : isBlank c = true) (stack : List Char) (t : Text) :
    balancedPart stack (c :: t) = c :: balancedPart stack t := by
  obtain ⟨ho, hc⟩ := not_bracket_of_isBlank h
  simp [balancedPart, ho, hc]

theorem squeeze_balancedPart (stack : List Char) (t : Text) :
    squeeze (balancedPart stack t) = balancedPart stack (squeeze t) := by
  induction t generalizing stack
  case nil => rfl
  case cons c t ih =>
    by_cases hb : isBlank c = true
    case pos =>
      rw [balancedPart_cons_of_isBlank hb]
      simpa [squeeze, hb] using ih stack
    case neg =>
      have hs (t : Text) : squeeze (c :: t) = c :: squeeze t := by simp [squeeze, hb]
      cases balancedPart_cons stack c
      case inl h => rw [h, hs, h, squeeze_nil]
      case inr h => rw [h, hs, hs, h, ih]

-- After a piece that is kept the rest is cut with what the piece leaves open.
theorem balancedPart_append (h : s <+: balancedPart stack (s ++ t)) :
    balancedPart stack (s ++ t) = s ++ balancedPart (s.foldl read stack) t := by
  induction s generalizing stack
  case nil => rfl
  case cons c s ih =>
    rw [List.cons_append] at h ⊢
    cases balancedPart_cons stack c
    case inl hc => simp [hc] at h
    case inr hc =>
      rw [hc] at h ⊢
      rw [ih (List.cons_prefix_cons.mp h).2]
      rfl

end GhostText.Brackets
