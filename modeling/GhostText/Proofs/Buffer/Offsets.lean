import Mathlib.Data.Prod.Lex
import GhostText.Proofs.Buffer.Edits

namespace GhostText

-- Positions are read line by line, and on a line from left to right.
def Position.order (p : Position) : ℤ ×ₗ ℤ :=
  toLex (p.line, p.column)

theorem Position.order_lt_iff {p q : Position} :
    p.order < q.order ↔ p.line < q.line ∨ p.line = q.line ∧ p.column < q.column :=
  Prod.Lex.toLex_lt_toLex

namespace Text

variable {s t x : Text} {n : Nat}

theorem positionAt_eq (h : n ≤ t.length) : positionAt t n = ⟨breaks (t.take n), (lastLine (t.take n)).length⟩ := by
  rw [positionAt, clamp_natCast h]

-- What is read on leads to a later line, or to a later column of the same one.
theorem breaks_or_lastLine_append (s : Text) (h : x ≠ []) :
    breaks s < breaks (s ++ x) ∨
      breaks s = breaks (s ++ x) ∧ (lastLine s).length < (lastLine (s ++ x)).length := by
  rw [breaks_append]
  by_cases hm : '\n' ∈ x
  case pos =>
    have : 0 < breaks x := List.count_pos_iff.mpr hm
    omega
  case neg =>
    have := List.length_pos_iff.mpr h
    rw [breaks_of_not_mem hm, lastLine_append_of_not_mem s hm, List.length_append]
    omega

theorem order_positionAt_lt {m : Nat} (hmn : m < n) (hn : n ≤ t.length) :
    (positionAt t m).order < (positionAt t n).order := by
  obtain ⟨x, hx⟩ : t.take m <+: t.take n := List.take_prefix_take_left hmn.le
  have hne : x ≠ [] := by
    rintro rfl
    have := congrArg List.length hx
    rw [List.append_nil, List.length_take_of_le hn, List.length_take_of_le (hmn.le.trans hn)] at this
    exact hmn.ne this
  have hlt := breaks_or_lastLine_append (t.take m) hne
  rw [hx] at hlt
  rw [positionAt_eq (hmn.le.trans hn), positionAt_eq hn, Position.order_lt_iff]
  dsimp only
  exact_mod_cast hlt

-- A column of a line that starts behind some text.
theorem positionAt_of_line {before row after : Text} (hrow : '\n' ∉ row) (hlast : lastLine before = [])
    (hn : n ≤ row.length) : positionAt (before ++ row ++ after) (before.length + n : Nat) = ⟨breaks before, n⟩ := by
  have hm : '\n' ∉ row.take n := fun h => hrow (List.mem_of_mem_take h)
  have hsplit : before ++ row ++ after = before ++ row.take n ++ (row.drop n ++ after) := by
    rw [← List.append_assoc, List.append_assoc before (row.take n), List.take_append_drop]
  have hlength : before.length + n = (before ++ row.take n).length := by
    rw [List.length_append, List.length_take_of_le hn]
  have hbreaks : breaks (before ++ row.take n) = breaks before := by
    rw [breaks_append, breaks_of_not_mem hm, Nat.add_zero]
  rw [hsplit, hlength, positionAt_append, hbreaks, lastLine_append_of_not_mem before hm, hlast, List.nil_append,
    List.length_take_of_le hn]

-- The offset of a position leads back to the nearest position inside the text.
theorem positionAt_offsetAt (t : Text) (p : Position) :
    ∃ row, (lines t)[clamp ((lines t).length - 1) p.line]? = some row ∧
      positionAt t (offsetAt t p) = ⟨clamp ((lines t).length - 1) p.line, clamp row.length p.column⟩ := by
  obtain ⟨before, row, after, ht, hget, hbreaks, hlast, hoffset⟩ := exists_line_offsetAt t p.line
  refine ⟨row, hget, ?_⟩
  rw [hoffset p.column, ← hbreaks]
  conv => lhs; rw [ht]
  exact positionAt_of_line (lineFeed_not_mem_of_mem_lines (List.mem_of_getElem? hget)) hlast (clamp_le _ _)

-- Every offset is found again by its position, and positions come in the order of their offsets. Every position, also
-- one outside the text, is found again on the nearest line that exists, in the nearest column of that line.
theorem positionAt_strictMono_inverse (t : Text) :
    (∀ n ≤ t.length, offsetAt t (positionAt t n) = n) ∧
      (∀ m n : Nat, m < n → n ≤ t.length → (positionAt t m).order < (positionAt t n).order) ∧
      ∀ p, ∃ row, (lines t)[clamp ((lines t).length - 1) p.line]? = some row ∧
        positionAt t (offsetAt t p) = ⟨clamp ((lines t).length - 1) p.line, clamp row.length p.column⟩ :=
  ⟨fun _ h => offsetAt_positionAt h, fun _ _ hmn hn => order_positionAt_lt hmn hn, positionAt_offsetAt t⟩

-- The end of the first line, the empty line behind it, and a position that lies outside the text twice over.
theorem positionAt_strictMono_inverse_three :
    let t := "ab\n\ncde".toList
    3 ≤ t.length ∧ offsetAt t (positionAt t 3) = 3 ∧ 2 < 3 ∧ (positionAt t 2).order < (positionAt t 3).order ∧
      (∃ row, (lines t)[clamp ((lines t).length - 1) 7]? = some row ∧
        positionAt t (offsetAt t ⟨7, 5⟩) = ⟨clamp ((lines t).length - 1) 7, clamp row.length 5⟩) ∧
      positionAt t 2 = ⟨0, 2⟩ ∧ positionAt t 3 = ⟨1, 0⟩ ∧ positionAt t (offsetAt t ⟨7, 5⟩) = ⟨2, 3⟩ := by
  intro t
  obtain ⟨hback, hmono, hnear⟩ := positionAt_strictMono_inverse t
  have hlength : 3 ≤ t.length := by decide
  have hlt : 2 < 3 := by decide
  exact ⟨hlength, hback 3 hlength, hlt, hmono 2 3 hlt hlength, hnear ⟨7, 5⟩, by decide, by decide, by decide⟩

end Text
end GhostText
