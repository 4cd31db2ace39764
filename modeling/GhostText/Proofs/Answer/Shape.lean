import GhostText.Answer
import GhostText.Proofs.Request.Stops
import GhostText.Proofs.Text.Trim

namespace GhostText

open Text

variable {k : Kind} {t u core : Text}

namespace Text

theorem trim_isInfix (p : Char → Bool) (t : Text) : trim p t <:+: t :=
  (trimRight_isPrefix _).isInfix.trans (List.dropWhile_suffix p).isInfix

end Text

namespace Fence

theorem dropFinalBreak_isPrefix (t : Text) : dropFinalBreak t <+: t := by
  unfold dropFinalBreak
  split
  case isTrue  => exact List.dropLast_prefix t
  case isFalse => exact List.prefix_rfl

theorem body_isPrefix (t : Text) : body t <+: (t.dropWhile (· ≠ '\n')).drop 1 := by
  simp only [body]
  split
  case h_1 i _ => exact (dropFinalBreak_isPrefix _).trans (List.take_prefix i _)
  case h_2     => exact List.prefix_rfl

theorem body_isInfix (t : Text) : body t <:+: t :=
  (body_isPrefix t).isInfix.trans ((List.drop_suffix 1 _).trans (List.dropWhile_suffix _)).isInfix

theorem unwrap_isInfix (t : Text) : unwrap t <:+: t := by
  simp only [unwrap]
  split
  case isTrue  => exact (body_isInfix _).trans (List.dropWhile_suffix _).isInfix
  case isFalse => exact List.infix_rfl

end Fence

namespace Answer

-- Nothing, or a text without blanks at its edges and with no more than a space added on each side.
def Snug (t : Text) : Prop :=
  t = [] ∨ ∃ (left right : Bool) (core : Text), t = spaceIf left ++ core ++ spaceIf right ∧ core ≠ [] ∧
    (∀ c ∈ core.head?, isBlank c = false) ∧ ∀ c ∈ core.getLast?, isBlank c = false

-- No blank comes first, but for a single space.
def Edged (t : Text) : Prop :=
  ∃ core, (∀ c ∈ core.head?, isBlank c = false) ∧ (t = core ∨ t = ' ' :: core)

theorem Snug.edged (h : Snug t) : Edged t := by
  rcases h with rfl | ⟨left, right, core, rfl, hn, hh, _⟩
  case inl => exact ⟨[], by simp, .inl rfl⟩
  case inr =>
    refine ⟨core ++ spaceIf right, by rwa [List.head?_append_of_ne_nil _ hn], ?_⟩
    rw [List.append_assoc]
    cases left
    case false => exact .inl rfl
    case true  => exact .inr rfl

-- What is kept of an answer between its edges occurs in it.
theorem cleaned_cases (t : Text) :
    cleaned t = [] ∨ ∃ (left right : Bool) (core : Text), cleaned t = spaceIf left ++ core ++ spaceIf right ∧
      core <:+: t ∧ core ≠ [] ∧ (∀ c ∈ core.head?, isBlank c = false) ∧ ∀ c ∈ core.getLast?, isBlank c = false := by
  simp only [cleaned]
  split
  case isTrue     => exact .inl rfl
  case isFalse hb =>
    exact .inr ⟨_, _, _, rfl, (trim_isInfix _ _).trans (Fence.unwrap_isInfix t), mt trim_eq_nil_iff.mp hb,
      head?_trim _ _, getLast?_trimRight _ _⟩

theorem snug_cleaned (t : Text) : Snug (cleaned t) := by
  rcases cleaned_cases t with h | ⟨left, right, core, h, _, hc⟩
  case inl => exact .inl h
  case inr => exact .inr ⟨left, right, core, h, hc⟩

theorem edged_cleaned (t : Text) : Edged (cleaned t) :=
  (snug_cleaned t).edged

theorem not_mem_cleaned (h : '\n' ∉ t) : '\n' ∉ cleaned t := by
  have hs (b : Bool) : '\n' ∉ spaceIf b := by cases b <;> decide
  rcases cleaned_cases t with he | ⟨left, right, core, he, hi, _⟩ <;> rw [he]
  case inl => exact List.not_mem_nil
  case inr =>
    have hc : '\n' ∉ core := fun hm => h (hi.subset hm)
    simp [hs, hc]

-- The spaces at the edges are no part of a pair of line breaks.
theorem infix_of_infix_spaceIf {left right : Bool} (h : ['\n', '\n'] <:+: spaceIf left ++ core ++ spaceIf right) :
    ['\n', '\n'] <:+: core := by
  have h : ['\n', '\n'] <:+: spaceIf left ++ core := by
    cases right
    case false => simpa [spaceIf] using h
    case true  =>
      simp only [spaceIf, if_true] at h
      rcases List.infix_concat_iff.mp h with hs | hi
      case inl =>
        obtain ⟨a, ha⟩ := hs
        simpa using congrArg List.getLast? ha
      case inr => exact hi
  cases left
  case false => simpa [spaceIf] using h
  case true  =>
    rcases List.infix_cons_iff.mp h with hp | hi
    case inl => simp at hp
    case inr => exact hi

theorem head?_cleaned (t : Text) : (cleaned t).head? ≠ some '\n' := by
  obtain ⟨core, hc, he⟩ := edged_cleaned t
  rcases he with he | he <;> rw [he]
  case inl => exact fun h => absurd (hc '\n' h) (by decide)
  case inr => simp

theorem not_infix_cleaned (h : ¬['\n', '\n'] <:+: t) : ¬['\n', '\n'] <:+: '\n' :: cleaned t := by
  intro hi
  rcases List.infix_cons_iff.mp hi with hp | hi
  case inl =>
    obtain ⟨u, hu⟩ := (List.cons_prefix_cons.mp hp).2
    exact head?_cleaned t (by simp [← hu])
  case inr =>
    rcases cleaned_cases t with he | ⟨left, right, core, he, hcore, _⟩ <;> rw [he] at hi
    case inl => simp at hi
    case inr => exact h ((infix_of_infix_spaceIf hi).trans hcore)

end Answer

-- What a text of the kind looks like. One that continues below begins with the break that leads there.
def Kind.Shaped : Kind → Text → Prop
  | .continueBelow, t => ∃ u, t = '\n' :: u ∧ u.head? ≠ some '\n' ∧ ¬['\n', '\n'] <:+: t ∧ Answer.Snug u
  | .doNotPredict, _  => True
  | _, t              => '\n' ∉ t ∧ Answer.Snug t

theorem Kind.Allows.shaped (h : k.Allows t) :
    k.Shaped (if k = .continueBelow then '\n' :: Answer.cleaned t else Answer.cleaned t) := by
  cases k
  case fillLine      => exact ⟨Answer.not_mem_cleaned (h.not_mem_break (.inl rfl)), Answer.snug_cleaned t⟩
  case redoSuffix    => exact ⟨Answer.not_mem_cleaned (h.not_mem_break (.inr rfl)), Answer.snug_cleaned t⟩
  case doNotPredict  => trivial
  case continueBelow =>
    have hn : ¬['\n', '\n'] <:+: t := h _ (by simp [Kind.stops, Options.blankLine])
    exact ⟨_, rfl, Answer.head?_cleaned t, Answer.not_infix_cleaned hn, Answer.snug_cleaned t⟩

end GhostText
