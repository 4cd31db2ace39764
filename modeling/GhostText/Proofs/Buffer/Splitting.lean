import GhostText.Proofs.Buffer.Positions
import GhostText.Proofs.Text.NormalForm

namespace GhostText

namespace Text

variable {s t : Text} {c : Char}

-- The two characters of a line break made one.
def joinPairs : Text → Text
  | [] => []
  | '\r' :: '\n' :: rest => '\n' :: joinPairs rest
  | c :: rest => c :: joinPairs rest

-- Joining the pairs first and replacing the carriage returns that are left comes to the same.
theorem normalizeBreaks_eq_map (t : Text) :
    normalizeBreaks t = (joinPairs t).map fun c => if c = '\r' then '\n' else c := by
  fun_induction normalizeBreaks t
  case case1          => rfl
  case case2 rest ih  => simp [joinPairs, ih]
  case case3 c rest h ih =>
    rw [ih, joinPairs, List.map_cons]
    exact h

theorem normalizeBreaks_cons (h : c = '\r' → t.head? ≠ some '\n') :
    normalizeBreaks (c :: t) = (if c = '\r' then '\n' else c) :: normalizeBreaks t := by
  rw [normalizeBreaks]
  rintro rest rfl rfl
  exact h rfl rfl

-- A text may be normalised in two parts unless they part a pair.
theorem normalizeBreaks_append (h : s.getLast? = some '\r' → t.head? ≠ some '\n') :
    normalizeBreaks (s ++ t) = normalizeBreaks s ++ normalizeBreaks t := by
  fun_induction normalizeBreaks s
  case case1 => rfl
  case case2 rest ih =>
    have hr : rest.getLast? = some '\r' → t.head? ≠ some '\n' := fun hl => h (by simp [List.getLast?_cons, hl])
    rw [List.cons_append, List.cons_append, normalizeBreaks, ih hr, List.cons_append]
  case case3 c rest hn ih =>
    have hr : rest.getLast? = some '\r' → t.head? ≠ some '\n' := fun hl => h (by simp [List.getLast?_cons, hl])
    have hc : c = '\r' → (rest ++ t).head? ≠ some '\n' := by
      rintro rfl
      cases rest
      case nil       => exact h rfl
      case cons d rest => exact fun hd => hn rest rfl (by simpa using hd)
    rw [List.cons_append, normalizeBreaks_cons hc, ih hr, List.cons_append]

-- A carriage return at the end stands for the whole pair already.
theorem normalizeBreaks_concat_lineFeed (h : s.getLast? = some '\r') :
    normalizeBreaks (s ++ ['\n']) = normalizeBreaks s := by
  obtain ⟨front, rfl⟩ := List.getLast?_eq_some_iff.mp h
  have hfront (t : Text) :
      normalizeBreaks (front ++ '\r' :: t) = normalizeBreaks front ++ normalizeBreaks ('\r' :: t) :=
    normalizeBreaks_append (by simp)
  rw [List.append_assoc, List.singleton_append, hfront, hfront]
  rfl

end Text

open Text

namespace Cursor

variable {t : Text} {n : Nat}

-- A cursor that would part a pair stands behind it.
theorem skipBreak_cases (hn : n ≤ t.length) :
    skipBreak t n = n ∧ ((t.take n).getLast? = some '\r' → (t.drop n).head? ≠ some '\n') ∨
      skipBreak t n = n + 1 ∧ (t.take n).getLast? = some '\r' ∧ t.take (n + 1) = t.take n ++ ['\n'] := by
  have hlast (h : 0 < n) : (t.take n).getLast? = t[n - 1]? := by
    rw [List.getLast?_eq_getElem?, List.length_take_of_le hn, List.getElem?_take_of_lt (by omega)]
  simp only [skipBreak, Bool.and_eq_true, decide_eq_true_eq]
  split
  case isTrue h =>
    obtain ⟨⟨hpos, hreturn⟩, hfeed⟩ := h
    refine .inr ⟨rfl, (hlast hpos).trans hreturn, ?_⟩
    rw [List.take_add_one, hfeed]
    rfl
  case isFalse h =>
    refine .inl ⟨rfl, fun hreturn hfeed => h ?_⟩
    have hpos : 0 < n := Nat.pos_of_ne_zero (by rintro rfl; simp at hreturn)
    rw [List.head?_drop] at hfeed
    exact ⟨⟨hpos, (hlast hpos).symm.trans hreturn⟩, hfeed⟩

-- A cursor between what stands before an offset of a text and all the rest of it, as whole lines.
structure Divides (c : Cursor) (t : Text) (n : Nat) : Prop where
  before        : c.before = normalizeBreaks (t.take n)
  whole         : c.before ++ c.after = normalizeBreaks t
  plain         : '\r' ∉ c.before ∧ '\r' ∉ c.after
  unlinesBefore : unlines c.beforeLines = c.before
  unlinesAfter  : unlines c.afterLines = c.after
  left          : c.beforeLines.getLast? = some c.left ∧ '\n' ∉ c.left ∧ c.left <:+ c.before
  right         : c.afterLines.head? = some c.right ∧ '\n' ∉ c.right ∧ c.right <+: c.after

theorem before_ofText_eq (t : Text) (offset : Int) :
    (ofText t offset).before = normalizeBreaks (t.take (clamp t.length offset)) := by
  simp only [ofText]
  rcases skipBreak_cases (clamp_le t.length offset) with ⟨hn, -⟩ | ⟨hn, hreturn, htake⟩
  case inl => rw [hn]
  case inr => rw [hn, htake, normalizeBreaks_concat_lineFeed hreturn]

theorem before_append_after (t : Text) (offset : Int) :
    (ofText t offset).before ++ (ofText t offset).after = normalizeBreaks t := by
  simp only [ofText]
  have hsplit : ∀ n, ((t.take n).getLast? = some '\r' → (t.drop n).head? ≠ some '\n') →
      normalizeBreaks (t.take n) ++ normalizeBreaks (t.drop n) = normalizeBreaks t := by
    intro n h
    rw [← normalizeBreaks_append h, List.take_append_drop]
  rcases skipBreak_cases (clamp_le t.length offset) with ⟨hn, h⟩ | ⟨hn, -, htake⟩
  case inl => rw [hn, hsplit _ h]
  case inr => rw [hn, hsplit _ (by simp [htake])]

-- Wherever a cursor is put into a text, nothing is lost of it, and its two halves are normalised as the whole would be,
-- in one pass or in two.
theorem divides_ofText (t : Text) (offset : Int) :
    (ofText t offset).Divides t (clamp t.length offset) ∧
      normalizeBreaks t = (joinPairs t).map fun c => if c = '\r' then '\n' else c := by
  refine ⟨?_, normalizeBreaks_eq_map t⟩
  constructor
  case before        => exact before_ofText_eq t offset
  case whole         => exact before_append_after t offset
  case plain         => exact ⟨carriageReturn_not_mem_normalizeBreaks _, carriageReturn_not_mem_normalizeBreaks _⟩
  case unlinesBefore => exact unlines_lines _
  case unlinesAfter  => exact unlines_lines _
  case left          => exact ⟨getLast?_lines _, lineFeed_not_mem_lastLine _, lastLine_isSuffix _⟩
  case right         => exact ⟨head?_lines _, lineFeed_not_mem_firstLine _, List.takeWhile_prefix _⟩

-- The offset lies within a pair, behind a carriage return that stands for a line break of its own.
example : ofText "a\r\r\nb\r".toList 3 = { before := "a\n\n".toList, after := "b\n".toList } := by decide

end Cursor
end GhostText
