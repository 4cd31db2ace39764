import GhostText.Hints.Header
import GhostText.Proofs.Text.Search

namespace GhostText.Header

open Text

variable {before hints t : Text}

theorem detach_of_find? {i : Nat} (h : opening <+: t) (hi : find? closing t = some i) :
    detach t = t.drop (i + closing.length) := by
  simp [detach, h, hi]

theorem detach_eq_self_iff : detach t = t ↔ ¬(opening <+: t ∧ closing <:+: t) := by
  by_cases ho : opening <+: t
  case neg => simp [detach, ho]
  case pos =>
    cases hf : find? closing t
    case none =>
      have hn : ¬closing <:+: t := by rw [← find?_ne_none_iff, hf]; simp
      simp [detach, hf, hn]
    case some i =>
      have hc : closing <:+: t := by rw [← find?_ne_none_iff, hf]; simp
      have hne : detach t ≠ t := by
        intro he
        have := congrArg List.length (detach_of_find? ho hf ▸ he)
        have := add_length_le_of_find? hf
        have : closing.length = 5 := rfl
        rw [List.length_drop] at *
        omega
      simp [hne, ho, hc]

-- A text in front of the closing line hides it if, with one more line break, it holds such a line itself.
theorem exists_closing_iff (t before : Text) :
    (∃ j < t.length, closing <+: (t ++ (closing ++ before)).drop j) ↔ closing <:+: t ++ ['\n'] := by
  constructor
  case mp =>
    rintro ⟨j, hj, hp⟩
    rw [List.drop_append_of_le_length (Nat.le_of_lt hj)] at hp
    have hne : t.drop j ≠ [] := by simpa using hj
    -- no closing line begins with an earlier part of one, but for its last character
    have hc : closing <+: t.drop j ++ ['\n'] := by
      generalize t.drop j = s at hp hne
      match s with
      | [_] | [_, _] | [_, _, _] => simp [closing] at hp
      | [_, _, _, _] | _ :: _ :: _ :: _ :: _ :: _ => simpa [closing] using hp
    refine hc.isInfix.trans ⟨t.take j, [], ?_⟩
    rw [List.append_nil, ← List.append_assoc, List.take_append_drop]
  case mpr =>
    rintro ⟨front, back, he⟩
    have hlen := congrArg List.length he
    have hc : closing.length = 5 := rfl
    simp only [List.length_append, List.length_singleton] at hlen
    refine ⟨front.length, by omega, ?_⟩
    have hall : t ++ (closing ++ before) = front ++ (closing ++ (back ++ ("*/\n\n".toList ++ before))) := by
      have : closing ++ before = ['\n'] ++ ("*/\n\n".toList ++ before) := rfl
      rw [this, ← List.append_assoc, ← he]
      simp
    rw [hall, List.drop_left]
    exact List.prefix_append _ _

-- The hints have a line that closes the comment, with an empty line after it.
def Closes (hints : Text) : Prop :=
  ["*/".toList, []] <:+: lines hints

instance (hints : Text) : Decidable (Closes hints) :=
  inferInstanceAs (Decidable (_ <:+: _))

theorem closes_iff (hints : Text) : Closes hints ↔ closing <:+: opening ++ hints ++ ['\n'] := by
  have ht : (lines (opening ++ hints)).tail = lines hints := by
    have ho : opening = "/* Context Information:".toList ++ ['\n'] := by decide
    rw [ho, List.append_assoc, List.singleton_append, lines_append_lineFeed, lines_of_not_mem (by decide)]
    rfl
  have hc : closing = '\n' :: (unlines ["*/".toList, []] ++ ['\n']) := rfl
  rw [Closes, ← ht, hc]
  exact infix_tail_lines_iff (List.cons_ne_nil _ _) (by decide)

theorem attach_of_ne_nil (h : hints ≠ []) (before : Text) :
    attach before hints = opening ++ hints ++ (closing ++ before) := by
  simp [attach, h]

theorem detach_attach_nil_iff : detach (attach before []) = before ↔ ¬(opening <+: before ∧ closing <:+: before) :=
  detach_eq_self_iff

-- Hints can be taken off whatever stands behind them, or else they never can.
theorem detach_attach_iff (h : hints ≠ []) (before : Text) : detach (attach before hints) = before ↔ ¬Closes hints := by
  rw [attach_of_ne_nil h, closes_iff, ← exists_closing_iff _ before]
  generalize hfront : opening ++ hints = front
  have ho : opening <+: front ++ (closing ++ before) := by
    rw [← hfront, List.append_assoc]
    exact List.prefix_append _ _
  have hc : closing <+: (front ++ (closing ++ before)).drop front.length := by
    rw [List.drop_left]
    exact List.prefix_append _ _
  obtain ⟨i, hi⟩ : ∃ i, find? closing (front ++ (closing ++ before)) = some i :=
    Option.ne_none_iff_exists'.mp (find?_ne_none_iff.mpr (hc.isInfix.trans (List.drop_suffix _ _).isInfix))
  rw [detach_of_find? ho hi]
  obtain ⟨hp, hfirst⟩ := find?_eq_some_iff.mp hi
  have hle : i ≤ front.length := Nat.le_of_not_lt fun hlt => hfirst _ hlt hc
  constructor
  case mp =>
    rintro he ⟨j, hj, hpj⟩
    have hij : i ≤ j := Nat.le_of_not_lt fun hlt => hfirst j hlt hpj
    have := congrArg List.length he
    simp only [List.length_drop, List.length_append] at this
    omega
  case mpr =>
    intro hn
    obtain rfl : i = front.length := Nat.le_antisymm hle (Nat.le_of_not_lt fun hlt => hn ⟨i, hlt, hp⟩)
    rw [← List.append_assoc, ← List.length_append, List.drop_left]

end GhostText.Header
