import GhostText.Proofs.Buffer.Positions
import GhostText.Proofs.Text.Ending

namespace GhostText

namespace Text

variable {s t : Text} {ls : List Text}

-- All columns of a line lie in one piece of the text. A line that does not exist stands for the last one.
theorem exists_line_unlines (hls : ls ≠ []) (h : ∀ l ∈ ls, '\n' ∉ l) (n : Nat) :
    ∃ before line after, unlines ls = before ++ line ++ after ∧ ls[min n (ls.length - 1)]? = some line ∧
      breaks before = min n (ls.length - 1) ∧ lastLine before = [] ∧
      ∀ column, offsetIn ls n column = before.length + clamp line.length column := by
  induction ls generalizing n
  case nil => contradiction
  case cons line ls ih =>
    have hline := h line List.mem_cons_self
    cases ls
    case nil => exact ⟨[], line, [], by simp [unlines], by simp, by simp [breaks], rfl, fun _ => by simp [offsetIn]⟩
    case cons next more =>
      cases n
      case zero =>
        exact ⟨[], line, '\n' :: unlines (next :: more), rfl, by simp, rfl, rfl, fun _ => by simp [offsetIn]⟩
      case succ n =>
        obtain ⟨before, row, after, hu, hrow, hbreaks, hlast, hoffset⟩ :=
          ih (List.cons_ne_nil _ _) (fun l hl => h l (List.mem_cons_of_mem _ hl)) n
        have hmin : min (n + 1) ((line :: next :: more).length - 1) = min n ((next :: more).length - 1) + 1 := by
          simp only [List.length_cons]
          omega
        refine ⟨line ++ '\n' :: before, row, after, by simp [unlines, hu], ?_, ?_, ?_, fun column => ?_⟩
        case refine_1 => rw [hmin, List.getElem?_cons_succ, hrow]
        case refine_2 =>
          rw [breaks_append, breaks_of_not_mem hline, breaks_cons, if_pos rfl, hbreaks, hmin, Nat.zero_add]
        case refine_3 => rw [lastLine_append_of_mem _ List.mem_cons_self, lastLine_cons_lineFeed, hlast]
        case refine_4 =>
          rw [offsetIn, hoffset, List.length_append, List.length_cons]
          omega

theorem exists_line_offsetAt (t : Text) (line : Int) :
    ∃ before row after, t = before ++ row ++ after ∧ (lines t)[clamp ((lines t).length - 1) line]? = some row ∧
      breaks before = clamp ((lines t).length - 1) line ∧ lastLine before = [] ∧
      ∀ column, offsetAt t ⟨line, column⟩ = before.length + clamp row.length column := by
  have := exists_line_unlines (lines_ne_nil t) (fun l hl => lineFeed_not_mem_of_mem_lines (t := t) hl) line.toNat
  rwa [unlines_lines] at this

theorem isPrefix_firstLine (h : s <+: t) (hs : '\n' ∉ s) : s <+: firstLine t := by
  obtain ⟨r, rfl⟩ := h
  have hs : ∀ c ∈ s, decide (c ≠ '\n') = true := fun c hc => by simpa using fun he : c = '\n' => hs (he ▸ hc)
  rw [firstLine, List.takeWhile_append_of_pos hs]
  exact List.prefix_append _ _

theorem positionAt_append (s t : Text) : positionAt (s ++ t) s.length = ⟨breaks s, (lastLine s).length⟩ := by
  have : s.length ≤ (s ++ t).length := by simp
  rw [positionAt, clamp_natCast this, List.take_left]

end Text

namespace Document

variable {d : Document} {s : Span}

-- A buffer as it can come to be: opened with a text, whatever ends its lines, and edited since.
inductive Made : Document → Prop
  | opened (t : Text) : Made (ofText t)
  | edited {d : Document} (h : Made d) (s : Span) (t : Text) : Made (d.edit s t).1

theorem Made.carriageReturn_not_mem (h : Made d) : '\r' ∉ d.text := by
  induction h
  case opened t      => exact Text.carriageReturn_not_mem_normalizeBreaks t
  case edited s t ih => exact carriageReturn_not_mem_edit ih s t

theorem after_cursorAt (h : '\r' ∉ d.text) (p : Position) : (d.cursorAt p).after = d.text.drop (d.offsetAt p) := by
  simp only [cursorAt, Cursor.ofText, Text.clamp_natCast (d.offsetAt_le p), Cursor.skipBreak_eq_self h]
  exact Text.normalizeBreaks_eq_self fun hm => h (List.mem_of_mem_drop hm)

-- What an edit takes away follows its start on the same line.
theorem exists_taken_of_line (d : Document) (h : s.stop.line = s.start.line) :
    ∃ taken, '\n' ∉ taken ∧ (s.stop = s.start → taken = []) ∧
      d.text.drop (d.offsetAt s.start) = taken ++ d.text.drop (max (d.offsetAt s.start) (d.offsetAt s.stop)) := by
  obtain ⟨before, row, after, ht, hget, -, -, hoffset⟩ := Text.exists_line_offsetAt d.text s.start.line
  have hrow : '\n' ∉ row := Text.lineFeed_not_mem_of_mem_lines (List.mem_of_getElem? hget)
  have hstart : d.offsetAt s.start = before.length + clamp row.length s.start.column := hoffset s.start.column
  have hstop : d.offsetAt s.stop = before.length + clamp row.length s.stop.column := by
    rw [← hoffset s.stop.column, ← h]
    rfl
  have hdrop {n : Nat} (hn : n ≤ row.length) : d.text.drop (before.length + n) = row.drop n ++ after := by
    rw [ht, ← List.drop_drop, List.append_assoc, List.drop_left, List.drop_append_of_le_length hn]
  refine ⟨(row.drop (clamp row.length s.start.column)).take
    (clamp row.length s.stop.column - clamp row.length s.start.column), ?_, ?_, ?_⟩
  case refine_1 => exact fun hm => hrow (List.mem_of_mem_drop (List.mem_of_mem_take hm))
  case refine_2 =>
    intro he
    rw [he, Nat.sub_self, List.take_zero]
  case refine_3 =>
    have hmax : max (d.offsetAt s.start) (d.offsetAt s.stop) = before.length +
        (clamp row.length s.start.column + (clamp row.length s.stop.column - clamp row.length s.start.column)) := by
      omega
    have hle := Text.clamp_le row.length s.start.column
    have hle' := Text.clamp_le row.length s.stop.column
    rw [hmax, hstart, hdrop hle, hdrop (by omega), ← List.append_assoc, List.drop_take_append_drop]

-- The position that an edit leads to is the end of what it puts in.
theorem position_edit (d : Document) (s : Span) (t : Text) :
    (d.edit s t).2 = ⟨Text.breaks (d.text.take (d.offsetAt s.start) ++ Text.normalizeBreaks t),
      (Text.lastLine (d.text.take (d.offsetAt s.start) ++ Text.normalizeBreaks t)).length⟩ := by
  rw [← Text.positionAt_append, length_take_append]
  rfl

end Document
end GhostText
