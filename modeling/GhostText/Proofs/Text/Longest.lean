import Mathlib.Data.List.Infix
import GhostText.Text.Blank

namespace GhostText.Text

variable {P Q : Text → Prop} {s t x : Text}

structure LongestPart (P : Text → Prop) (s t : Text) : Prop where
  isPrefix : s <+: t
  holds    : P s
  longest  : ∀ x, x <+: t → P x → x <+: s

namespace LongestPart

theorem isPrefix_of_imp (h : LongestPart P s t) (hx : LongestPart Q x t) (hPQ : ∀ u, P u → Q u) : s <+: x :=
  hx.longest s h.isPrefix (hPQ s h.holds)

theorem eq_of_iff (h : LongestPart P s t) (hx : LongestPart Q x t) (hPQ : ∀ u, P u ↔ Q u) : s = x :=
  (h.isPrefix_of_imp hx fun u => (hPQ u).mp).eq_of_length_le (hx.isPrefix_of_imp h fun u => (hPQ u).mpr).length_le

theorem eq_self_iff (h : LongestPart P s t) : s = t ↔ P t := by
  constructor
  case mp  => rintro rfl; exact h.holds
  case mpr => exact fun ht => h.isPrefix.eq_of_length_le (h.longest t List.prefix_rfl ht).length_le

end LongestPart
end GhostText.Text
