import GhostText.Proofs.Buffer.Edits

namespace GhostText.Document

variable {d : Document}

theorem Made.inserted (h : Made d) (p : Position) (t : Text) : Made (d.insert p t).1 :=
  h.edited (.empty p) t

-- Where the part of the buffer ends that an edit takes out.
def takenTo (d : Document) (s : Span) : Nat :=
  max (d.offsetAt s.start) (d.offsetAt s.stop)

def taken (d : Document) (s : Span) : Text :=
  (d.text.take (d.takenTo s)).drop (d.offsetAt s.start)

-- The span of the edited buffer that the new text fills.
def filled (d : Document) (s : Span) (t : Text) : Span :=
  ⟨(d.edit s t).1.positionAt (d.offsetAt s.start), (d.edit s t).2⟩

theorem offsetAt_start_le_takenTo (d : Document) (s : Span) : d.offsetAt s.start ≤ d.takenTo s :=
  Nat.le_max_left _ _

theorem takenTo_le (d : Document) (s : Span) : d.takenTo s ≤ d.text.length :=
  Nat.max_le.mpr ⟨d.offsetAt_le s.start, d.offsetAt_le s.stop⟩

theorem length_taken (d : Document) (s : Span) : d.offsetAt s.start + (d.taken s).length = d.takenTo s := by
  rw [taken, List.length_drop, List.length_take_of_le (d.takenTo_le s)]
  exact Nat.add_sub_of_le (d.offsetAt_start_le_takenTo s)

-- What stands before the edit, what it takes out, and what stands behind it are the whole buffer.
theorem take_append_taken (d : Document) (s : Span) :
    d.text.take (d.offsetAt s.start) ++ d.taken s ++ d.text.drop (d.takenTo s) = d.text := by
  have htake : d.text.take (d.offsetAt s.start) = (d.text.take (d.takenTo s)).take (d.offsetAt s.start) := by
    rw [List.take_take, Nat.min_eq_left (d.offsetAt_start_le_takenTo s)]
  rw [htake, taken, List.take_append_drop, List.take_append_drop]

theorem carriageReturn_not_mem_taken (h : '\r' ∉ d.text) (s : Span) : '\r' ∉ d.taken s :=
  fun hm => h (List.mem_of_mem_take (List.mem_of_mem_drop hm))

theorem text_edit (d : Document) (s : Span) (t : Text) :
    (d.edit s t).1.text = d.text.take (d.offsetAt s.start) ++ Text.normalizeBreaks t ++ d.text.drop (d.takenTo s) :=
  rfl

theorem take_text_edit (d : Document) (s : Span) (t : Text) :
    (d.edit s t).1.text.take (d.offsetAt s.start) = d.text.take (d.offsetAt s.start) := by
  rw [text_edit, List.append_assoc, List.take_left' (List.length_take_of_le (d.offsetAt_le s.start))]

theorem drop_text_edit (d : Document) (s : Span) (t : Text) :
    (d.edit s t).1.text.drop (d.offsetAt s.start + (Text.normalizeBreaks t).length) = d.text.drop (d.takenTo s) := by
  rw [text_edit, List.drop_left' (length_take_append d s.start _)]

theorem offsetAt_start_le_edit (d : Document) (s : Span) (t : Text) :
    d.offsetAt s.start ≤ (d.edit s t).1.text.length := by
  rw [text_edit, List.append_assoc, List.length_append, List.length_take_of_le (d.offsetAt_le s.start)]
  exact Nat.le_add_right _ _

-- An edit does not move the place where it starts.
theorem positionAt_start_edit (d : Document) (s : Span) (t : Text) :
    (d.edit s t).1.positionAt (d.offsetAt s.start) = d.positionAt (d.offsetAt s.start) := by
  simp only [positionAt, Text.positionAt, Text.clamp_natCast (d.offsetAt_start_le_edit s t),
    Text.clamp_natCast (d.offsetAt_le s.start), take_text_edit]

theorem offsetAt_filled_start (d : Document) (s : Span) (t : Text) :
    (d.edit s t).1.offsetAt (d.filled s t).start = d.offsetAt s.start :=
  Text.offsetAt_positionAt (d.offsetAt_start_le_edit s t)

theorem takenTo_filled (d : Document) (s : Span) (t : Text) :
    (d.edit s t).1.takenTo (d.filled s t) = d.offsetAt s.start + (Text.normalizeBreaks t).length := by
  rw [takenTo, offsetAt_filled_start, filled, offsetAt_edit]
  exact Nat.max_eq_right (Nat.le_add_right _ _)

theorem text_edit_filled (h : '\r' ∉ d.text) (s : Span) (t : Text) :
    ((d.edit s t).1.edit (d.filled s t) (d.taken s)).1.text = d.text := by
  rw [text_edit, offsetAt_filled_start, takenTo_filled, take_text_edit, drop_text_edit,
    Text.normalizeBreaks_eq_self (carriageReturn_not_mem_taken h s), take_append_taken]

theorem position_edit_filled (h : '\r' ∉ d.text) (s : Span) (t : Text) :
    ((d.edit s t).1.edit (d.filled s t) (d.taken s)).2 = d.positionAt (d.takenTo s) := by
  have hwhole := Text.positionAt_append (d.text.take (d.offsetAt s.start) ++ d.taken s) (d.text.drop (d.takenTo s))
  rw [take_append_taken, length_take_append, length_taken] at hwhole
  rw [position_edit, offsetAt_filled_start, take_text_edit,
    Text.normalizeBreaks_eq_self (carriageReturn_not_mem_taken h s), ← hwhole]
  rfl

-- Whatever a buffer has been through, it holds no carriage return, and the next edit can be taken back: what was taken
-- out is put in place of the new text, which leads to where it ended before.
theorem edit_filled_taken (h : d.Made) (s : Span) (t : Text) :
    '\r' ∉ d.text ∧ (d.filled s t).start = d.positionAt (d.offsetAt s.start) ∧
      (d.edit s t).1.edit (d.filled s t) (d.taken s) = (d, d.positionAt (d.takenTo s)) := by
  have hplain := h.carriageReturn_not_mem
  have htext := text_edit_filled hplain s t
  exact ⟨hplain, d.positionAt_start_edit s t, Prod.ext (congrArg Document.mk htext) (position_edit_filled hplain s t)⟩

-- Opened and edited with line breaks of each kind, the last time by a span that ends before it starts.
def rewritten : Document :=
  ((((ofText "ab\r\ncd".toList).insert ⟨1, 1⟩ "\r".toList).1).edit ⟨⟨1, 0⟩, ⟨0, 1⟩⟩ "\r\n\r".toList).1

-- The next edit ends on a line that does not exist.
theorem edit_filled_taken_rewritten :
    rewritten.Made ∧ rewritten.text = "ab\n\n\nc\nd".toList ∧
      (rewritten.edit ⟨⟨1, 0⟩, ⟨7, 0⟩⟩ "x\ry".toList).1.text = "ab\nx\nyd".toList ∧
      (rewritten.edit ⟨⟨1, 0⟩, ⟨7, 0⟩⟩ "x\ry".toList).1.edit ⟨⟨1, 0⟩, ⟨2, 1⟩⟩ "\n\nc\n".toList =
        (rewritten, ⟨4, 0⟩) := by
  have h : rewritten.Made := .edited (.inserted (.opened _) _ _) _ _
  have hundo := (edit_filled_taken h ⟨⟨1, 0⟩, ⟨7, 0⟩⟩ "x\ry".toList).2.2
  have hfilled : rewritten.filled ⟨⟨1, 0⟩, ⟨7, 0⟩⟩ "x\ry".toList = ⟨⟨1, 0⟩, ⟨2, 1⟩⟩ := by decide
  have htaken : rewritten.taken ⟨⟨1, 0⟩, ⟨7, 0⟩⟩ = "\n\nc\n".toList := by decide
  have hcursor : rewritten.positionAt (rewritten.takenTo ⟨⟨1, 0⟩, ⟨7, 0⟩⟩) = ⟨4, 0⟩ := by decide
  rw [hfilled, htaken, hcursor] at hundo
  exact ⟨h, by decide, by decide, hundo⟩

end GhostText.Document
