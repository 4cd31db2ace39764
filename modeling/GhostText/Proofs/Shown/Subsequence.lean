import GhostText.Proofs.Text.Longest
import GhostText.Text.Search

namespace GhostText.Subsequence

open Text

variable {t wanted v : Text}

theorem greedy_isPrefix (t wanted : Text) : greedy t wanted <+: wanted := by
  fun_induction greedy t wanted
  case case1 ih => exact List.cons_prefix_cons.mpr ⟨rfl, ih⟩
  case case2 ih => exact ih
  case case3    => exact List.nil_prefix

theorem greedy_sublist (t wanted : Text) : (greedy t wanted).Sublist t := by
  fun_induction greedy t wanted
  case case1 ih => exact ih.cons_cons _
  case case2 ih => exact ih.cons _
  case case3    => exact List.nil_sublist _

-- No longer part is found when the characters are taken elsewhere.
theorem isPrefix_greedy (hv : v <+: wanted) (ht : v.Sublist t) : v <+: greedy t wanted := by
  fun_induction greedy t wanted generalizing v
  case case1 c rest wanted ih =>
    cases v
    case nil      => exact List.nil_prefix
    case cons d v =>
      obtain ⟨rfl, hrest⟩ := List.cons_prefix_cons.mp hv
      exact List.cons_prefix_cons.mpr ⟨rfl, ih hrest (List.cons_sublist_cons.mp ht)⟩
  case case2 c rest w wanted hne ih =>
    cases v
    case nil      => exact List.nil_prefix
    case cons d v =>
      obtain ⟨rfl, -⟩ := List.cons_prefix_cons.mp hv
      refine ih hv ?_
      cases ht
      case cons h => exact h
      case cons_cons => exact absurd rfl hne
  case case3 t wanted h =>
    cases v
    case nil => exact List.nil_prefix
    case cons d v =>
      cases t
      case nil => simp at ht
      case cons =>
        obtain ⟨r, rfl⟩ := hv
        exact absurd rfl (h _ _ _ _ rfl)

theorem isPrefix_greedy_iff (hv : v <+: wanted) : v <+: greedy t wanted ↔ v.Sublist t :=
  ⟨fun h => h.sublist.trans (greedy_sublist t wanted), isPrefix_greedy hv⟩

theorem longestPart_greedy (t wanted : Text) : LongestPart (List.Sublist · t) (greedy t wanted) wanted :=
  ⟨greedy_isPrefix t wanted, greedy_sublist t wanted, fun _ => isPrefix_greedy⟩

theorem holds_iff : holds t wanted = true ↔ wanted.Sublist t := by
  rw [holds, decide_eq_true_iff]
  exact (longestPart_greedy t wanted).eq_self_iff

-- A text is found just if it is a subsequence, and the last character found is that of its longest first part that is
-- one.
theorem longest_lastFound? (t wanted : Text) :
    (holds t wanted = true ↔ wanted.Sublist t) ∧
      ∃ found, LongestPart (List.Sublist · t) found wanted ∧ lastFound? t wanted = found.getLast? :=
  ⟨holds_iff, greedy t wanted, longestPart_greedy t wanted, rfl⟩

end GhostText.Subsequence
