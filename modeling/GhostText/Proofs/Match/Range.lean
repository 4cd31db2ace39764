import GhostText.Prediction.Basic
import GhostText.Proofs.Match.Soundness
import GhostText.Proofs.Text.NormalForm

namespace GhostText

open Text

namespace Text

variable {s t r : Text}

theorem getElem?_lines_breaks (t : Text) : (lines t)[breaks t]? = some (lastLine t) := by
  have := getElem?_lines_append t []
  rwa [List.append_nil, firstLine, List.takeWhile_nil, List.append_nil] at this

theorem breaks_concat (t : Text) : breaks (t ++ ['\n']) = breaks t + 1 := by
  simp [breaks]

theorem breaks_le_of_isPrefix (h : s <+: t) : breaks s ≤ breaks t :=
  h.sublist.count_le '\n'

-- If a line ends a text and is all there is of that line in a longer one, only blanks can follow on the line.
theorem squeeze_eq_nil_of_isPrefix (h : s ++ r <+: t) (hm : '\n' ∉ r)
    (hc : (content t)[breaks s]? = some (squeeze (lastLine s))) : squeeze r = [] := by
  obtain ⟨l, hl, hp⟩ := lines_isPrefix h
  have hb : breaks (s ++ r) = breaks s := by simp [breaks, List.count_eq_zero.mpr hm]
  have hs : squeeze l = squeeze (lastLine s) := by
    rw [hb] at hl
    simpa [content, hl] using hc
  have := (squeeze_isPrefix hp).length_le
  rw [lastLine_append_of_not_mem s hm, squeeze_append, hs, List.length_append] at this
  exact List.length_eq_zero_iff.mp (by omega)

end Text

namespace Bounds

variable {before stored insertion : Text} {n : Nat}

-- The text a prediction was made for ends with blank lines. What is typed of them is the line feed that they leave in
-- normal form, since nothing else can stand there without blanks at its end.
theorem lineFeed_mem_of_joined {core r : Text} (hs : normalForm stored = core ++ ['\n'])
    (h : normalForm before <+: normalForm (stored ++ insertion)) (hr : core ++ r = normalForm before) (hne : r ≠ []) :
    '\n' ∈ r := by
  by_contra hm
  have hc : (content (normalForm (stored ++ insertion)))[breaks core]? = some (squeeze (lastLine core)) := by
    have hd : (content (core ++ ['\n'])).dropLast = content core := by
      rw [content, lines_append_lineFeed, List.map_append]
      exact List.dropLast_concat
    have hl : breaks core < (content core).length := by simp [content, length_lines]
    rw [content_joined, hs, hd, List.getElem?_append_left hl, content, List.getElem?_map, getElem?_lines_breaks]
    rfl
  have hb := squeeze_eq_nil_iff.mp (squeeze_eq_nil_of_isPrefix (hr ▸ h) hm hc)
  obtain ⟨front, c, rfl⟩ := List.eq_nil_or_concat r |>.resolve_left hne
  rw [List.concat_eq_append] at *
  have hblank : isBlank c = true := List.all_eq_true.mp hb c (by simp)
  obtain rfl := getLast?_normalForm before c (by rw [← hr]; simp) hblank
  exact hm (by simp)

theorem breaks_stored_le (h : continues (normalForm before) stored insertion = true) :
    breaks (normalForm stored) ≤ breaks (normalForm before) := by
  obtain ⟨hlen, hj | ha⟩ := isPrefix_of_continues h
  case inr => exact breaks_le_of_isPrefix (List.prefix_of_prefix_length_le (List.prefix_append _ _) ha hlen)
  case inl =>
    have hcore : dropIndents true (trimRight isBlank stored) <+: normalForm (stored ++ insertion) :=
      dropIndents_isPrefix ((trimRight_isPrefix_append stored insertion).trans (trimRight_isPrefix_trimEnd _)) true
    have hp := List.prefix_of_prefix_length_le hcore hj
      ((dropIndents_trimRight_isPrefix stored).length_le.trans hlen)
    rcases normalForm_cases stored with hs | hs
    case inl => rw [hs]; exact breaks_le_of_isPrefix hp
    case inr =>
      obtain ⟨r, hr⟩ := hp
      have hne : r ≠ [] := by
        rintro rfl
        rw [List.append_nil] at hr
        rw [hs, ← hr, List.length_append, List.length_singleton] at hlen
        omega
      have hm : 0 < breaks r := List.count_pos_iff.mpr (lineFeed_mem_of_joined hs hj hr hne)
      rw [hs, breaks_concat, ← hr, breaks, breaks, List.count_append]
      exact Nat.add_le_add_left hm _

-- As many lines at most are typed as the prediction has line feeds.
theorem line_lt_length (h : continues (normalForm before) stored insertion = true)
    (hn : breaks (normalForm before) = breaks (normalForm stored) + n) : n < (lines insertion).length := by
  have hlen : (content insertion).length = (lines insertion).length := List.length_map _
  have hpos := List.length_pos_iff.mpr (lines_ne_nil insertion)
  have hle (l : List Text) : (l.filter (· ≠ [])).length ≤ l.length := List.length_filter_le _ _
  have hne := onto_ne_nil (squeeze (lastLine stored)) (content_ne_nil insertion)
  rcases (isPrefix_of_continues h).2 with hj | ha
  case inl =>
    have := (newLines hj hn (content_joined stored insertion) (condense_ne_nil hne)).2
    rw [dropLast_condense] at this
    have := this.trans (hle _)
    rw [List.length_dropLast, length_onto] at this
    omega
  case inr =>
    have := (newLines ha hn (content_apart stored insertion)
      (onto_ne_nil _ (condense_ne_nil (content_ne_nil insertion)))).2
    rw [dropLast_onto, length_onto, dropLast_condense] at this
    have := this.trans (hle _)
    rw [List.length_dropLast] at this
    omega

theorem judge_of_continues (h : continues (normalForm before) stored insertion = true)
    (hn : breaks (normalForm before) = breaks (normalForm stored) + n) :
    judge before stored insertion = locate before stored insertion n := by
  have hd : (breaks (normalForm before) : Int) - breaks (normalForm stored) = n := by omega
  have hnn : ¬(n : Int) < 0 := by omega
  simp [judge, h, hd, hnn]

-- All that can go wrong is that the typed line is not found on its line.
theorem judge_cases (h : continues (normalForm before) stored insertion = true) :
    judge before stored insertion = .lostColumn ∨ ∃ b, judge before stored insertion = .found b := by
  obtain ⟨n, hn⟩ := Nat.exists_eq_add_of_le (breaks_stored_le h)
  rw [judge_of_continues h hn]
  simp only [locate, List.getElem?_eq_getElem (line_lt_length h hn)]
  split
  case h_1 => exact .inl rfl
  case h_2 => exact .inr ⟨_, rfl⟩

theorem line_of_continues {p : Prediction} (h : continues (normalForm before) p.before p.insertText = true) :
    let line : Int := breaks (normalForm before) - breaks (normalForm p.before)
    0 ≤ line ∧ line < (lines p.insertText).length ∧
      judge before p.before p.insertText ≠ .beforeFirstLine ∧
      ∀ n count, judge before p.before p.insertText ≠ .afterLastLine n count := by
  obtain ⟨n, hn⟩ := Nat.exists_eq_add_of_le (breaks_stored_le h)
  have hlt := line_lt_length h hn
  rcases judge_cases h with hj | ⟨b, hj⟩
  case inl => exact ⟨by omega, by omega, by simp [hj], by simp [hj]⟩
  case inr => exact ⟨by omega, by omega, by simp [hj], by simp [hj]⟩

-- Blanks before a line feed, blank lines and indentation stand where the two texts meet.
def padded : Prediction :=
  { id := 0, before := "x = 1; \n  ".toList, kind := .fillLine, stage := .finished "\n foo()\n\n".toList 0 }

theorem line_of_continues_padded :
    continues (normalForm "x = 1; \n\n\nfoo()\n ".toList) padded.before padded.insertText = true ∧
      (0 : Int) ≤ 2 - 1 ∧ (2 - 1 : Int) < (lines padded.insertText).length ∧
      judge "x = 1; \n\n\nfoo()\n ".toList padded.before padded.insertText ≠ .beforeFirstLine ∧
      ∀ n count, judge "x = 1; \n\n\nfoo()\n ".toList padded.before padded.insertText ≠ .afterLastLine n count := by
  have h : continues (normalForm "x = 1; \n\n\nfoo()\n ".toList) padded.before padded.insertText = true := by decide
  exact ⟨h, line_of_continues h⟩

end Bounds
end GhostText
