import GhostText.Proofs.Buffer.Edits
import GhostText.Shown.Completion

namespace GhostText.Completion

open Text

variable {d : Document} {rule : RepeatRule} {p : Prediction} {c : Cursor} {pos : Position} {typed : Int}

theorem span_of_kind_ne (h : p.kind ≠ .redoSuffix) : (of rule p c pos typed).span = .empty pos := by
  simp [of, ofExcerpt, h]

theorem start_span (rule : RepeatRule) (p : Prediction) (c : Cursor) (pos : Position) (typed : Int) :
    (of rule p c pos typed).span.start = pos := by
  by_cases hk : p.kind = .redoSuffix
  case neg => rw [span_of_kind_ne hk]; rfl
  case pos =>
    simp only [of, ofExcerpt, hk, if_true, redo]
    split <;> rfl

-- Whatever is replaced is on the line of the cursor.
theorem line_stop_span (rule : RepeatRule) (p : Prediction) (c : Cursor) (pos : Position) (typed : Int) :
    (of rule p c pos typed).span.stop.line = pos.line := by
  by_cases hk : p.kind = .redoSuffix
  case neg => rw [span_of_kind_ne hk]; rfl
  case pos =>
    simp only [of, ofExcerpt, hk, if_true, redo]
    split <;> rfl

-- The text is put in at the cursor. No more than the rest of the line is taken away for it, and nothing if that is not
-- written anew.
theorem text_edit_span (h : d.Made) (rule : RepeatRule) (p : Prediction) (pos : Position) (typed : Int) :
    let c := d.cursorAt pos
    let shown := of rule p c pos typed
    let front := c.before ++ normalizeBreaks shown.text
    ∃ taken tail, c.after = taken ++ tail ∧ taken <+: c.right ∧ (p.kind ≠ .redoSuffix → taken = []) ∧
      d.edit shown.span shown.text = (⟨front ++ tail⟩, ⟨breaks front, (lastLine front).length⟩) := by
  intro c shown front
  have hstart : shown.span.start = pos := start_span ..
  have hline : shown.span.stop.line = shown.span.start.line := by rw [hstart]; exact line_stop_span ..
  obtain ⟨taken, hn, hempty, htail⟩ := d.exists_taken_of_line hline
  have hafter : c.after = d.text.drop (d.offsetAt shown.span.start) := by
    rw [hstart]
    exact Document.after_cursorAt h.carriageReturn_not_mem pos
  have hfront : front = d.text.take (d.offsetAt shown.span.start) ++ normalizeBreaks shown.text := by
    rw [hstart, ← Document.before_cursorAt h.carriageReturn_not_mem pos]
  refine ⟨taken, _, hafter.trans htail, ?_, ?_, ?_⟩
  case refine_1 => exact isPrefix_firstLine ⟨_, (hafter.trans htail).symm⟩ hn
  case refine_2 =>
    intro hk
    have hspan : shown.span = .empty pos := span_of_kind_ne hk
    exact hempty (by rw [hspan]; rfl)
  case refine_3 =>
    rw [hfront, ← Document.position_edit]
    rfl

-- The closing bracket is written anew, the semicolon behind it stays.
def parentheses : Document :=
  .ofText "x = foo();\r\ny".toList

def arguments : Prediction :=
  { id := 0, before := "x = foo(".toList, kind := .redoSuffix, stage := .finished "a, b)".toList 0 }

theorem text_edit_span_parentheses :
    parentheses.Made ∧
      let c := parentheses.cursorAt ⟨0, 8⟩
      let shown := of {} arguments c ⟨0, 8⟩ 0
      let front := c.before ++ normalizeBreaks shown.text
      parentheses.edit shown.span shown.text = (⟨"x = foo(a, b);\ny".toList⟩, ⟨0, 13⟩) ∧
        ∃ taken tail, c.after = taken ++ tail ∧ taken <+: c.right ∧ (arguments.kind ≠ .redoSuffix → taken = []) ∧
          parentheses.edit shown.span shown.text = (⟨front ++ tail⟩, ⟨breaks front, (lastLine front).length⟩) :=
  have h : parentheses.Made := .opened _
  ⟨h, by decide +kernel, text_edit_span h {} arguments ⟨0, 8⟩ 0⟩

end GhostText.Completion
