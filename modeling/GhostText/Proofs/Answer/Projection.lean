import GhostText.Proofs.Answer.Fence
import GhostText.Proofs.Text.NormalForm

namespace GhostText

open Text

variable {t core : Text}

namespace Fence

theorem not_infix_body (t : Text) : ¬mark <:+: body t := by
  simp only [body]
  split
  case h_1 hf =>
    have hn : mark ≠ [] := by decide
    exact fun hi => not_infix_take_of_find? hn hf (hi.trans (dropFinalBreak_isPrefix _).isInfix)
  case h_2 hf => exact fun hi => find?_ne_none_iff.mpr hi hf

theorem Opens.isInfix (h : Opens t) : mark <:+: t := by
  obtain ⟨w, rest, -, rfl⟩ := h
  exact List.infix_append w mark rest

theorem not_opens_unwrap (t : Text) : ¬Opens (unwrap t) := by
  by_cases h : Opens t
  case pos =>
    rw [unwrap_of_opens h]
    exact fun ho => not_infix_body _ ho.isInfix
  case neg => rwa [unwrap_of_not_opens h]

end Fence

namespace Answer

open Fence

-- What is kept of an answer that holds something, the spaces at its edges aside.
structure Core (core : Text) : Prop where
  ne_nil : core ≠ []
  head   : ∀ c ∈ core.head?, isBlank c = false
  last   : ∀ c ∈ core.getLast?, isBlank c = false
  plain  : ¬mark <+: core

def Clean (t : Text) : Prop :=
  t = [] ∨ ∃ (left right : Bool) (core : Text), Core core ∧ t = spaceIf left ++ core ++ spaceIf right

theorem core_trim (hb : ¬allBlank t = true) (hf : ¬Opens t) : Core (trim isBlank t) where
  ne_nil := mt trim_eq_nil_iff.mp hb
  head   := head?_trim _ _
  last   := getLast?_trimRight _ _
  plain  := fun hp => hf (opens_iff.mpr (hp.trans (trimRight_isPrefix _)))

theorem clean_cleaned (t : Text) : Clean (cleaned t) := by
  simp only [cleaned]
  split
  case isTrue     => exact .inl rfl
  case isFalse hb => exact .inr ⟨_, _, _, core_trim hb (not_opens_unwrap t), rfl⟩

theorem allBlank_spaceIf (b : Bool) : allBlank (spaceIf b) = true := by
  cases b <;> rfl

namespace Core

variable (left right : Bool)

theorem trimLeft_eq (h : Core core) :
    trimLeft isBlank (spaceIf left ++ core ++ spaceIf right) = core ++ spaceIf right := by
  have hhead : ∀ c ∈ (core ++ spaceIf right).head?, isBlank c = false := by
    rw [List.head?_append_of_ne_nil _ h.ne_nil]
    exact h.head
  rw [List.append_assoc, trimLeft_append_of_blank _ (squeeze_eq_nil_iff.mpr (allBlank_spaceIf left)),
    trimLeft_eq_self hhead]

theorem trim_eq (h : Core core) : trim isBlank (spaceIf left ++ core ++ spaceIf right) = core := by
  rw [trim, h.trimLeft_eq, trimRight_append_of_blank _ (allBlank_spaceIf right), trimRight_eq_self h.last]

-- The space behind the core does not make a fence of it.
theorem not_opens (h : Core core) : ¬Opens (spaceIf left ++ core ++ spaceIf right) := by
  rw [opens_iff, h.trimLeft_eq]
  cases right
  case false => simpa [spaceIf] using h.plain
  case true  => exact fun hp => h.plain (isPrefix_of_append_cons hp (by decide))

theorem head?_iff (h : Core core) : (spaceIf left ++ core ++ spaceIf right).head? = some ' ' ↔ left = true := by
  cases left
  case true  => simp [spaceIf]
  case false =>
    have hspace : core.head? ≠ some ' ' := fun hs => absurd (h.head ' ' hs) (by decide)
    simp [spaceIf, List.head?_append_of_ne_nil _ h.ne_nil, hspace]

theorem getLast?_iff (h : Core core) : (spaceIf left ++ core ++ spaceIf right).getLast? = some ' ' ↔ right = true := by
  cases right
  case true  => simp [spaceIf]
  case false =>
    have hspace : core.getLast? ≠ some ' ' := fun hs => absurd (h.last ' ' hs) (by decide)
    simp [spaceIf, List.getLast?_append_of_ne_nil _ h.ne_nil, hspace]

theorem cleaned_eq (h : Core core) :
    cleaned (spaceIf left ++ core ++ spaceIf right) = spaceIf left ++ core ++ spaceIf right := by
  have hb : ¬allBlank (spaceIf left ++ core ++ spaceIf right) = true := by
    rw [← trim_eq_nil_iff, h.trim_eq]
    exact h.ne_nil
  simp only [cleaned, unwrap_of_not_opens (h.not_opens left right), h.trim_eq, h.head?_iff, h.getLast?_iff]
  rw [if_neg hb, Bool.decide_eq_true, Bool.decide_eq_true]

end Core

theorem cleaned_eq_self_iff : cleaned t = t ↔ Clean t := by
  constructor
  case mp  => exact fun h => h ▸ clean_cleaned t
  case mpr =>
    rintro (rfl | ⟨left, right, core, h, rfl⟩)
    case inl => rfl
    case inr => exact h.cleaned_eq left right

-- A cleaned answer is clean, and just the clean texts stay as they are when they are cleaned, so that to clean an
-- answer once more changes nothing.
theorem cleaned_cleaned (t : Text) :
    cleaned (cleaned t) = cleaned t ∧ Clean (cleaned t) ∧ ∀ u, cleaned u = u ↔ Clean u :=
  ⟨cleaned_eq_self_iff.mpr (clean_cleaned t), clean_cleaned t, fun _ => cleaned_eq_self_iff⟩

-- Spaces at the edges of what a fence encloses are kept, and between a fence and one right below it there is nothing.
example : cleaned "\x60\x60\x60\n a \n\x60\x60\x60\nb".toList = " a ".toList ∧
    cleaned " \x60\x60\x60x\n\x60\x60\x60y\n".toList = [] := by decide

end Answer
end GhostText
