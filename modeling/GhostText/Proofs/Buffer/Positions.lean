import GhostText.Buffer.Document
import GhostText.Proofs.Text.Content

namespace GhostText

namespace Text

variable {s t : Text}

theorem normalizeBreaks_eq_self (h : '\r' ∉ t) : normalizeBreaks t = t := by
  fun_induction normalizeBreaks t
  case case1      => rfl
  case case2      => simp at h
  case case3 c rest _ ih =>
    simp only [List.mem_cons, not_or] at h
    rw [ih h.2, if_neg (Ne.symm h.1)]

theorem carriageReturn_not_mem_normalizeBreaks (t : Text) : '\r' ∉ normalizeBreaks t := by
  fun_induction normalizeBreaks t
  case case1      => simp
  case case2 ih   => simpa using ih
  case case3 ih   =>
    simp only [List.mem_cons, not_or]
    refine ⟨?_, ih⟩
    split
    case isTrue    => simp
    case isFalse h => exact Ne.symm h

-- Line breaks are blank, however they are written.
theorem squeeze_normalizeBreaks (t : Text) : squeeze (normalizeBreaks t) = squeeze t := by
  have hr : isBlank '\r' = true := by decide
  fun_induction normalizeBreaks t
  case case1         => rfl
  case case2 ih      => simpa [squeeze, hr] using ih
  case case3 c _ _ ih =>
    by_cases hc : c = '\r'
    case pos => simpa [squeeze, hc, hr] using ih
    case neg => cases hb : isBlank c <;> simpa [squeeze, hc, hb] using ih

theorem clamp_le (limit : Nat) (i : Int) : clamp limit i ≤ limit :=
  Nat.min_le_right _ _

theorem clamp_natCast {limit n : Nat} (h : n ≤ limit) : clamp limit n = n := by
  simp [clamp, h]

theorem offsetIn_le (ls : List Text) (n : Nat) (column : Int) : offsetIn ls n column ≤ (unlines ls).length := by
  fun_induction offsetIn ls n column
  case case1 ih => simp only [unlines, List.length_append, List.length_cons]; omega
  case case2 line more _ _ _ =>
    have hl : line.length ≤ (unlines (line :: more)).length := by
      cases more <;> simp [unlines]
    exact (clamp_le _ _).trans hl
  case case3    => simp

theorem offsetAt_le (t : Text) (p : Position) : offsetAt t p ≤ t.length := by
  have := offsetIn_le (lines t) p.line.toNat p.column
  rwa [unlines_lines] at this

-- Counting the lines and columns of a first part leads to its end.
theorem offsetIn_lines_append (s t : Text) :
    offsetIn (lines (s ++ t)) (breaks s) (lastLine s).length = s.length := by
  induction s
  case nil =>
    obtain ⟨line, more, hl⟩ := List.exists_cons_of_ne_nil (lines_ne_nil t)
    simp [hl, breaks, lastLine, offsetIn, clamp]
  case cons c s ih =>
    obtain ⟨line, more, hl⟩ := List.exists_cons_of_ne_nil (lines_ne_nil (s ++ t))
    by_cases hc : c = '\n'
    case pos =>
      subst hc
      simp only [List.cons_append, lines_cons_lineFeed, lastLine_cons_lineFeed, hl] at ih ⊢
      simp [breaks, offsetIn] at ih ⊢
      omega
    case neg =>
      have hlines : lines (c :: s ++ t) = (c :: line) :: more := by simp [lines_cons_of_ne hc, hl]
      have hbreaks : breaks (c :: s) = breaks s := by simp [breaks, hc]
      rw [hlines, hbreaks]
      by_cases hm : '\n' ∈ s
      case neg =>
        have hs : '\n' ∉ c :: s := by simp [hm, Ne.symm hc]
        have hb : breaks s = 0 := List.count_eq_zero.mpr hm
        rw [hb, hl, lastLine_of_not_mem hm] at ih
        rw [hb, lastLine_of_not_mem hs]
        have hle : s.length ≤ line.length := by
          cases more <;> simp only [offsetIn] at ih <;> exact ih ▸ clamp_le _ _
        cases more <;> exact clamp_natCast (by simpa using hle)
      case pos =>
        obtain ⟨n, hb⟩ : ∃ n, breaks s = n + 1 := Nat.exists_eq_succ_of_ne_zero (List.count_pos_iff.mpr hm).ne'
        obtain ⟨next, rest, hmore⟩ : ∃ next rest, more = next :: rest := by
          have hlen := length_lines (s ++ t)
          rw [hl, breaks, List.count_append, ← breaks, hb] at hlen
          exact List.exists_cons_of_ne_nil fun hn => by simp [hn] at hlen
        rw [lastLine_cons_of_mem c hm]
        rw [hl, hb, hmore, offsetIn] at ih
        rw [hb, hmore, offsetIn, List.length_cons, List.length_cons]
        omega

theorem offsetAt_positionAt {n : Nat} (h : n ≤ t.length) : offsetAt t (positionAt t n) = n := by
  have := offsetIn_lines_append (t.take n) (t.drop n)
  rw [List.take_append_drop, List.length_take_of_le h] at this
  simpa [offsetAt, positionAt, clamp_natCast h] using this

end Text

namespace Cursor

theorem skipBreak_eq_self {t : Text} (h : '\r' ∉ t) (offset : Nat) : skipBreak t offset = offset := by
  have hn : t[offset - 1]? ≠ some '\r' := fun he => h (List.mem_of_getElem? he)
  simp [skipBreak, hn]

theorem before_ofText {t : Text} {n : Nat} (h : '\r' ∉ t) (hn : n ≤ t.length) : (ofText t n).before = t.take n := by
  simp only [ofText, Text.clamp_natCast hn, skipBreak_eq_self h]
  exact Text.normalizeBreaks_eq_self fun hm => h (List.mem_of_mem_take hm)

end Cursor

namespace Document

variable {d : Document}

theorem carriageReturn_not_mem_edit (h : '\r' ∉ d.text) (s : Span) (t : Text) : '\r' ∉ (d.edit s t).1.text := by
  simp only [edit, List.mem_append, not_or]
  exact ⟨⟨fun hm => h (List.mem_of_mem_take hm), Text.carriageReturn_not_mem_normalizeBreaks t⟩,
    fun hm => h (List.mem_of_mem_drop hm)⟩

theorem offsetAt_le (d : Document) (p : Position) : d.offsetAt p ≤ d.text.length :=
  Text.offsetAt_le d.text p

theorem before_cursorAt (h : '\r' ∉ d.text) (p : Position) : (d.cursorAt p).before = d.text.take (d.offsetAt p) :=
  Cursor.before_ofText h (d.offsetAt_le p)

theorem text_insert (d : Document) (p : Position) (t : Text) :
    (d.insert p t).1.text = d.text.take (d.offsetAt p) ++ Text.normalizeBreaks t ++ d.text.drop (d.offsetAt p) := by
  simp [insert, edit, Span.empty]

theorem length_take_append (d : Document) (p : Position) (t : Text) :
    (d.text.take (d.offsetAt p) ++ t).length = d.offsetAt p + t.length := by
  rw [List.length_append, List.length_take_of_le (d.offsetAt_le p)]

-- The position that an edit leads to is found again behind its new text.
theorem offsetAt_edit (d : Document) (s : Span) (t : Text) :
    (d.edit s t).1.offsetAt (d.edit s t).2 = d.offsetAt s.start + (Text.normalizeBreaks t).length := by
  apply Text.offsetAt_positionAt
  simp only [edit]
  rw [List.length_append, length_take_append]
  exact Nat.le_add_right _ _

-- After a text is put in, the cursor sees it behind what it saw before.
theorem before_cursorAt_insert (h : '\r' ∉ d.text) (p : Position) (t : Text) :
    ((d.insert p t).1.cursorAt (d.insert p t).2).before = (d.cursorAt p).before ++ Text.normalizeBreaks t := by
  have hpos : (d.insert p t).1.offsetAt (d.insert p t).2 = d.offsetAt p + (Text.normalizeBreaks t).length :=
    offsetAt_edit d (.empty p) t
  have hr : '\r' ∉ (d.insert p t).1.text := carriageReturn_not_mem_edit h _ t
  rw [before_cursorAt hr, hpos, text_insert, List.take_left' (length_take_append d p _), before_cursorAt h]

-- At the end of a buffer the text is appended.
theorem insert_positionAt_length (d : Document) {t : Text} (h : '\r' ∉ t) :
    d.insert (d.positionAt d.text.length) t =
      (⟨d.text ++ t⟩, (⟨d.text ++ t⟩ : Document).positionAt (d.text ++ t).length) := by
  have hoffset : d.offsetAt (d.positionAt d.text.length) = d.text.length :=
    Text.offsetAt_positionAt (Nat.le_refl _)
  simp [insert, edit, Span.empty, hoffset, Text.normalizeBreaks_eq_self h]

end Document
end GhostText
