import GhostText.Proofs.Buffer.Positions
import GhostText.Proofs.Match.Soundness

namespace GhostText

open Text

namespace Bounds

variable {before stored insertion t middle : Text} {b : Bounds} {n column : Nat}

theorem positionAt_flatIndex (h : (lines t)[n]? = some middle) (hc : column ≤ middle.length) :
    positionAt t (flatIndex t n column).toNat = ⟨n, column⟩ := by
  obtain ⟨hl, hle⟩ := lines_take_flatIndex h hc
  have hn := (List.getElem?_eq_some_iff.mp h).1
  have hbreaks : breaks (t.take (flatIndex t n column).toNat) = n := by
    have := length_lines (t.take (flatIndex t n column).toNat)
    rw [hl, List.length_append, List.length_take_of_le (Nat.le_of_lt hn)] at this
    simpa using this.symm
  have hlast : lastLine (t.take (flatIndex t n column).toNat) = middle.take column := by
    rw [← lines_getLast]
    simp [hl]
  rw [positionAt, clamp_natCast hle, hbreaks, hlast, List.length_take_of_le hc]

theorem offsetAt_flatIndex (h : (lines t)[n]? = some middle) (hc : column ≤ middle.length) :
    offsetAt t ⟨n, column⟩ = (flatIndex t n column).toNat := by
  rw [← positionAt_flatIndex h hc, offsetAt_positionAt (lines_take_flatIndex h hc).2]

-- A match lies on a line of the prediction, and its index is the offset of its line and column.
theorem position_of_match? (h : match? before stored insertion = some b) :
    ∃ line, (lines insertion)[b.line]? = some line ∧ b.column ≤ line.length ∧ b.index ≤ insertion.length ∧
      offsetAt insertion ⟨b.line, b.column⟩ = b.index ∧ positionAt insertion b.index = ⟨b.line, b.column⟩ := by
  obtain ⟨middle, e, hp⟩ := exists_placed_of_match? h
  have hc := take_column_le hp
  have hi := hp.index
  refine ⟨middle, hp.line, hc, ?_, ?_, ?_⟩
  case refine_1 => rw [hi]; exact (lines_take_flatIndex hp.line hc).2
  case refine_2 => rw [hi]; exact offsetAt_flatIndex hp.line hc
  case refine_3 => rw [hi]; exact positionAt_flatIndex hp.line hc

-- The typed line ends with blanks that the prediction does not have there.
theorem position_of_match?_trailing_blanks :
    match? "if ok:\n  a  ".toList "if ok:".toList "\n    a = 1\n".toList = some ⟨1, 5, 6⟩ ∧
      ∃ line, (lines "\n    a = 1\n".toList)[1]? = some line ∧ 5 ≤ line.length ∧ 6 ≤ "\n    a = 1\n".toList.length ∧
        offsetAt "\n    a = 1\n".toList ⟨1, 5⟩ = 6 ∧ positionAt "\n    a = 1\n".toList 6 = ⟨1, 5⟩ :=
  have h : match? "if ok:\n  a  ".toList "if ok:".toList "\n    a = 1\n".toList = some ⟨1, 5, 6⟩ := by decide
  ⟨h, position_of_match? h⟩

end Bounds
end GhostText
