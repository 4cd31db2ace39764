import GhostText.Proofs.Match.Placement
import GhostText.Proofs.Text.NormalForm

namespace GhostText

open Text

namespace Bounds

variable {before stored : Text}

-- Texts that agree in normal form have the same on their last lines, but for blanks at the edges.
theorem trim_lastLine_isPrefix (h : normalForm before = normalForm stored) (line : Text) :
    trim isBlank (lastLine before) <+: trimLeft isBlank (lastLine stored) ++ line := by
  rw [← lastLine_normalForm, h, lastLine_normalForm]
  exact (trimRight_isPrefix _).trans (List.prefix_append _ _)

-- Whatever its text, a prediction applies to every text that agrees in normal form with the one it was made for.
theorem match?_ne_none_of_normalForm_eq (h : normalForm before = normalForm stored) (insertion : Text) :
    match? before stored insertion ≠ none := by
  obtain ⟨line, more, hl⟩ := List.exists_cons_of_ne_nil (lines_ne_nil insertion)
  rw [match?_ne_none_iff, h, Nat.sub_self]
  exact ⟨by simp [continues], Nat.le_refl _, line, by simp [hl], (trim_lastLine_isPrefix h line).isInfix⟩

-- One without a text applies to no others.
theorem match?_nil_ne_none_iff : match? before stored [] ≠ none ↔ normalForm before = normalForm stored := by
  constructor
  case mpr => exact fun h => match?_ne_none_of_normalForm_eq h []
  case mp  =>
    intro h
    obtain ⟨b, hb⟩ := Option.ne_none_iff_exists'.mp h
    obtain ⟨_, _, hp⟩ := exists_placed_of_match? hb
    have hc := hp.continues
    simp only [continues, List.append_nil, Bool.and_eq_true, decide_eq_true_eq, Bool.or_eq_true,
      List.isPrefixOf_iff_prefix] at hc
    obtain ⟨hlen, hpre | hpre⟩ := hc
    case inl => exact hpre.eq_of_length_le hlen
    case inr =>
      have hn : normalForm [] = [] := rfl
      rw [hn, List.append_nil] at hpre
      exact hpre.eq_of_length_le hlen

end Bounds
end GhostText
