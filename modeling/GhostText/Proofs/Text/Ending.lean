import GhostText.Proofs.Text.Growth

namespace GhostText.Text

variable {s t x w : Text} {b : Bool} {c : Char} {n : Nat}

theorem drop_trimRight_append (s x : Text) :
    (s ++ x).drop (trimRight isBlank s).length = s.drop (trimRight isBlank s).length ++ x :=
  List.drop_append_of_le_length (trimRight_isPrefix s).length_le

theorem trimEnd_append_of_blank (s : Text) (hx : allBlank x = true) (hm : '\n' ∉ x) :
    trimEnd (s ++ x) = trimEnd s := by
  simp only [trimEnd, trimRight_append_of_blank s hx, drop_trimRight_append]
  simp [hm]

theorem trimEnd_append (s : Text) (h : squeeze x ≠ []) : trimEnd (s ++ x) = s ++ trimEnd x := by
  simp only [trimEnd, trimRight_append s h, List.length_append, ← List.drop_drop, List.drop_left]
  split <;> simp

theorem trimRight_isPrefix_trimEnd (t : Text) : trimRight isBlank t <+: trimEnd t := by
  simp only [trimEnd]
  split
  case isTrue  => exact List.prefix_append _ _
  case isFalse => exact List.prefix_refl _

theorem exists_trimEnd_cons (h : squeeze (c :: t) ≠ []) : ∃ u, trimEnd (c :: t) = c :: u := by
  obtain ⟨u, hu⟩ := exists_trimRight_cons h
  obtain ⟨r, hr⟩ := trimRight_isPrefix_trimEnd (c :: t)
  exact ⟨u ++ r, by rw [← hr, hu, List.cons_append]⟩

theorem trimEnd_cases (t : Text) :
    trimEnd t = trimRight isBlank t ∨ trimEnd t = trimRight isBlank t ++ ['\n'] := by
  simp only [trimEnd]
  split
  case isTrue  => exact .inr rfl
  case isFalse => exact .inl rfl

-- Blanks behind a text do not count as long as they stay on its last line.
theorem normalForm_append_of_blank (s : Text) (hx : allBlank x = true) (hm : '\n' ∉ x) :
    normalForm (s ++ x) = normalForm s := by
  rw [normalForm, trimEnd_append_of_blank s hx hm, normalForm]

theorem dropIndents_append_of_blank (h : allBlank w = true) (x : Text) :
    dropIndents true (w ++ x) = dropIndents true x := by
  induction w
  case nil => rfl
  case cons c w ih =>
    have hw : isBlank c = true ∧ allBlank w = true := by simpa [allBlank] using h
    simpa [dropIndents, hw.1] using ih hw.2

-- Behind an empty line or indentation, further blanks are indentation too.
theorem dropIndents_indent (hs : squeeze (lastLine s) = []) (hb : b = true ∨ '\n' ∈ s) (hw : allBlank w = true)
    (x : Text) : dropIndents b (s ++ (w ++ x)) = dropIndents b (s ++ x) := by
  induction s generalizing b
  case nil =>
    obtain rfl : b = true := hb.resolve_right (by simp)
    exact dropIndents_append_of_blank hw x
  case cons c s ih =>
    by_cases hm : '\n' ∈ s
    case pos =>
      rw [lastLine_cons_of_mem c hm] at hs
      simp only [List.cons_append, dropIndents, ih hs (.inr hm)]
    case neg =>
      by_cases hc : c = '\n'
      case pos =>
        rw [hc, lastLine_cons_lineFeed] at hs
        simp [hc, dropIndents, ih hs (.inl rfl)]
      case neg =>
        have hn : '\n' ∉ c :: s := by simp [hm, Ne.symm hc]
        obtain rfl : b = true := hb.resolve_right hn
        rw [lastLine_of_not_mem hn, squeeze_eq_nil_iff] at hs
        rw [dropIndents_append_of_blank hs, dropIndents_append_of_blank hs, dropIndents_append_of_blank hw]

theorem trimEnd_of_mem (h : '\n' ∈ t.drop (trimRight isBlank t).length) :
    trimEnd t = trimRight isBlank t ++ ['\n'] := by
  simp [trimEnd, h]

theorem trimEnd_of_not_mem (h : '\n' ∉ t.drop (trimRight isBlank t).length) : trimEnd t = trimRight isBlank t := by
  simp [trimEnd, h]

-- Behind an empty line or indentation, blanks do not count at all.
theorem normalForm_append_of_indent (hs : squeeze (lastLine s) = []) (hx : allBlank x = true) :
    normalForm (s ++ x) = normalForm s := by
  by_cases hm : '\n' ∈ x
  case neg => exact normalForm_append_of_blank s hx hm
  case pos =>
    have hend : trimEnd (s ++ x) = trimRight isBlank s ++ ['\n'] := by
      rw [trimEnd_of_mem, trimRight_append_of_blank s hx]
      rw [trimRight_append_of_blank s hx, drop_trimRight_append]
      exact List.mem_append_right _ hm
    rw [normalForm, normalForm, hend]
    by_cases hr : '\n' ∈ s.drop (trimRight isBlank s).length
    case pos => rw [trimEnd_of_mem hr]
    case neg =>
      have hcut : s = trimRight isBlank s ++ s.drop (trimRight isBlank s).length :=
        (List.prefix_iff_eq_append.mp (trimRight_isPrefix s)).symm
      have hl : squeeze (lastLine (trimRight isBlank s)) = [] := by
        rw [hcut, lastLine_append_of_not_mem _ hr, squeeze_append, List.append_eq_nil_iff] at hs
        exact hs.1
      have := dropIndents_indent (b := true) (w := ['\n']) hl (.inl rfl) (by decide) []
      rw [List.append_nil, List.append_nil] at this
      rw [trimEnd_of_not_mem hr, this]

theorem normalForm_indent (hs : squeeze (lastLine s) = []) (hw : allBlank w = true) (x : Text) :
    normalForm (s ++ (w ++ x)) = normalForm (s ++ x) := by
  have hsq : squeeze (w ++ x) = squeeze x := by rw [squeeze_append, squeeze_eq_nil_iff.mpr hw, List.nil_append]
  by_cases hx : squeeze x = []
  case pos =>
    rw [normalForm_append_of_indent hs (squeeze_eq_nil_iff.mp (hsq.trans hx)),
      normalForm_append_of_indent hs (squeeze_eq_nil_iff.mp hx)]
  case neg =>
    rw [normalForm, trimEnd_append s (hsq ▸ hx), trimEnd_append w hx, dropIndents_indent hs (.inl rfl) hw, normalForm,
      trimEnd_append s hx]

theorem squeeze_dropIndents (b : Bool) (t : Text) : squeeze (dropIndents b t) = squeeze t := by
  induction t generalizing b
  case nil => rfl
  case cons c t ih =>
    simp only [dropIndents]
    split
    case isTrue h =>
      have hc : squeeze (c :: t) = squeeze t := by simp [squeeze, (Bool.and_eq_true_iff.mp h).2]
      rw [ih, hc]
    case isFalse =>
      rw [← List.singleton_append, squeeze_append, ih, ← squeeze_append, List.singleton_append]

theorem length_dropIndents_concat_le (b : Bool) (t : Text) (c : Char) :
    (dropIndents b (t ++ [c])).length ≤ (dropIndents b t).length + 1 := by
  induction t generalizing b
  case nil =>
    simp only [List.nil_append, dropIndents]
    split <;> simp
  case cons d t ih =>
    simp only [List.cons_append, dropIndents]
    split
    case isTrue  => exact ih true
    case isFalse => exact Nat.succ_le_succ (ih _)

theorem trimEnd_isPrefix_append_of_blank (s : Text) (hx : squeeze x = []) : trimEnd s <+: trimEnd (s ++ x) := by
  have hr := trimRight_append_of_blank s (squeeze_eq_nil_iff.mp hx)
  by_cases hm : '\n' ∈ s.drop (trimRight isBlank s).length
  case neg => rw [trimEnd_of_not_mem hm, ← hr]; exact trimRight_isPrefix_trimEnd _
  case pos =>
    have : '\n' ∈ (s ++ x).drop (trimRight isBlank (s ++ x)).length := by
      rw [hr, drop_trimRight_append]
      exact List.mem_append_left _ hm
    rw [trimEnd_of_mem hm, trimEnd_of_mem this, hr]

-- A text that ends with nothing but one line feed, blanks behind it aside, begins every longer one in normal form too.
theorem normalForm_isPrefix_append_of_trimEnd (h : trimEnd s <+: s) (x : Text) :
    normalForm s <+: normalForm (s ++ x) := by
  apply dropIndents_isPrefix
  by_cases hx : squeeze x = []
  case pos => exact trimEnd_isPrefix_append_of_blank s hx
  case neg => rw [trimEnd_append s hx]; exact h.trans (List.prefix_append _ _)

-- A text does not get shorter in normal form when it goes on.
theorem length_normalForm_le_append (s x : Text) : (normalForm s).length ≤ (normalForm (s ++ x)).length := by
  by_cases hx : squeeze x = []
  case pos => exact (dropIndents_isPrefix (trimEnd_isPrefix_append_of_blank s hx) true).length_le
  case neg =>
    have hp : dropIndents true (trimRight isBlank s) <+: normalForm (s ++ x) := by
      rw [normalForm, trimEnd_append s hx]
      exact dropIndents_isPrefix ((trimRight_isPrefix s).trans (List.prefix_append _ _)) true
    obtain ⟨r, hr⟩ := hp
    have hne : r ≠ [] := by
      rintro rfl
      have := congrArg squeeze hr
      rw [List.append_nil, squeeze_dropIndents, squeeze_trimRight, squeeze_normalForm, squeeze_append] at this
      exact hx (List.self_eq_append_right.mp this)
    have hpos := List.length_pos_iff.mpr hne
    have hle := length_dropIndents_concat_le true (trimRight isBlank s) '\n'
    rw [← hr, List.length_append, normalForm]
    rcases trimEnd_cases s with he | he <;> rw [he] <;> omega

theorem lastLine_append_of_mem (s : Text) (h : '\n' ∈ x) : lastLine (s ++ x) = lastLine x := by
  induction s
  case nil         => rfl
  case cons c s ih => rw [List.cons_append, lastLine_cons_of_mem c (List.mem_append_right s h), ih]

theorem lastLine_isSuffix (t : Text) : lastLine t <:+ t := by
  rw [lastLine, ← List.reverse_prefix, List.reverse_reverse]
  exact List.takeWhile_prefix _

theorem getElem?_lines_append (s t : Text) : (lines (s ++ t))[breaks s]? = some (lastLine s ++ firstLine t) := by
  have hl : (lines s).dropLast.length = breaks s := by rw [List.length_dropLast, length_lines, Nat.add_sub_cancel]
  rw [lines_append, ← hl, List.getElem?_append_right (Nat.le_refl _), Nat.sub_self, List.getElem?_cons_zero,
    lines_getLast, lines_head]

-- The lines before the last are as they are, whatever is put behind it.
theorem content_append_lastLine (s t : Text) :
    content (s ++ t) = (content s).dropLast ++ content (lastLine s ++ t) := by
  have hl := lineFeed_not_mem_lastLine s
  rw [content_append, content_append (lastLine s), content_of_not_mem hl, lastLine_of_not_mem hl]
  rfl

theorem breaks_normalForm (t : Text) : breaks (normalForm t) = ((content t).dropLast.filter (· ≠ [])).length := by
  rw [← dropLast_condense, ← content_normalForm, List.length_dropLast, content, List.length_map, length_lines,
    Nat.add_sub_cancel]

end GhostText.Text
