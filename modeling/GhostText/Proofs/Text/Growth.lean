import GhostText.Proofs.Text.Trim

namespace GhostText.Text

variable {s t x : Text} {b : Bool} {c : Char}

theorem lastLine_append_of_not_mem (s : Text) (h : '\n' ∉ x) : lastLine (s ++ x) = lastLine s ++ x := by
  have hx : ∀ c ∈ x.reverse, decide (c ≠ '\n') = true := by
    intro c hc
    simpa using fun he : c = '\n' => h (he ▸ List.mem_reverse.mp hc)
  rw [lastLine, List.reverse_append, List.takeWhile_append_of_pos hx, List.reverse_append, List.reverse_reverse,
    lastLine]

theorem dropIndents_append_of_not_mem (h : '\n' ∉ s) (x : Text) :
    dropIndents false (s ++ x) = s ++ dropIndents false x := by
  induction s
  case nil => rfl
  case cons c s ih =>
    have hc := List.ne_of_not_mem_cons h
    simp [dropIndents, Ne.symm hc, ih (List.not_mem_of_not_mem_cons h)]

theorem dropIndents_of_not_mem (h : '\n' ∉ x) : dropIndents false x = x := by
  simpa [dropIndents] using dropIndents_append_of_not_mem h []

theorem dropIndents_append (b : Bool) (hs : squeeze (lastLine s) ≠ []) (x : Text) :
    dropIndents b (s ++ x) = dropIndents b s ++ dropIndents false x := by
  induction s generalizing b
  case nil => exact absurd rfl hs
  case cons c s ih =>
    by_cases hm : '\n' ∈ s
    case pos =>
      rw [lastLine_cons_of_mem c hm] at hs
      simp only [List.cons_append, dropIndents, ih _ hs]
      split <;> rfl
    case neg =>
      -- the blanks in front of the line are dropped one by one, and what follows is kept
      simp only [List.cons_append, dropIndents]
      split
      case isTrue h =>
        apply ih
        have hc : squeeze (c :: s) = squeeze s := by simp [squeeze, (Bool.and_eq_true_iff.mp h).2]
        by_cases he : c = '\n'
        case pos => rwa [he, lastLine_cons_lineFeed] at hs
        case neg =>
          have : '\n' ∉ c :: s := by simp [hm, Ne.symm he]
          rwa [lastLine_of_not_mem this, hc, ← lastLine_of_not_mem hm] at hs
      case isFalse h =>
        by_cases he : c = '\n'
        case pos =>
          rw [he, lastLine_cons_lineFeed] at hs
          simp [ih _ hs]
        case neg => simp [he, dropIndents_append_of_not_mem hm, dropIndents_of_not_mem hm]

theorem head?_dropIndents (t : Text) : ∀ c ∈ (dropIndents true t).head?, isBlank c = false := by
  induction t
  case nil => simp [dropIndents]
  case cons c t ih =>
    by_cases h : isBlank c = true
    case pos => simpa [dropIndents, h] using ih
    case neg => simp [dropIndents, h]

theorem trimRight_append_of_blank (s : Text) (h : allBlank x = true) :
    trimRight isBlank (s ++ x) = trimRight isBlank s := by
  have : ∀ c ∈ x.reverse, isBlank c = true := by simpa [allBlank] using h
  rw [trimRight, List.reverse_append, List.dropWhile_append_of_pos this, trimRight]

theorem trimRight_eq_nil (hx : allBlank x = true) : trimRight isBlank x = [] := by
  have := trimRight_append_of_blank [] hx
  rwa [List.nil_append] at this

theorem trimRight_append (s : Text) (h : squeeze x ≠ []) : trimRight isBlank (s ++ x) = s ++ trimRight isBlank x := by
  have : (x.reverse.dropWhile isBlank).isEmpty = false := by
    simpa [squeeze_eq_nil_iff, allBlank] using h
  simp [trimRight, List.dropWhile_append, this]

theorem squeeze_ne_nil_of_mem (h : c ∈ t) (hc : isBlank c = false) : squeeze t ≠ [] := by
  intro he
  have := List.filter_eq_nil_iff.mp he c h
  simp [hc] at this

theorem exists_cons_of_squeeze (h : squeeze t ≠ []) : ∃ c u, t = c :: u := by
  cases t
  case nil      => exact absurd squeeze_nil h
  case cons c u => exact ⟨c, u, rfl⟩

theorem exists_trimRight_cons (h : squeeze (c :: t) ≠ []) : ∃ u, trimRight isBlank (c :: t) = c :: u := by
  obtain ⟨a, u, hu⟩ := exists_cons_of_squeeze (squeeze_trimRight (c :: t) ▸ h)
  have := List.cons_prefix_cons.mp (hu ▸ trimRight_isPrefix (c :: t))
  exact ⟨u, this.1 ▸ hu⟩

theorem trimRight_ne_self (h : ∃ c ∈ (lastLine t).getLast?, isBlank c = true) : trimRight isBlank t ≠ t := by
  obtain ⟨c, hc, hb⟩ := h
  rw [lastLine, List.getLast?_reverse, List.head?_takeWhile, Option.mem_def, Option.filter_eq_some_iff] at hc
  intro he
  have hr : t.reverse.dropWhile isBlank = t.reverse := by
    rw [← List.reverse_inj, List.reverse_reverse, ← trimRight, he]
  have := List.head?_dropWhile_not isBlank t.reverse
  rw [hr, hc.1] at this
  simp [hb] at this

theorem squeeze_lastLine_trimRight (h : squeeze (lastLine s) ≠ []) :
    squeeze (lastLine (trimRight isBlank s)) = squeeze (lastLine s) := by
  obtain ⟨w, hw, hb, hm⟩ := exists_eq_trimRight_append h
  conv => rhs; rw [hw]
  rw [lastLine_append_of_not_mem _ hm, squeeze_append, squeeze_eq_nil_iff.mpr hb, List.append_nil]

-- The blanks at the end are all that the normal form leaves out of the last line.
theorem exists_normalForm_append (hs : squeeze (lastLine s) ≠ []) :
    ∃ w, s = trimRight isBlank s ++ w ∧ allBlank w = true ∧ dropIndents true s = normalForm s ++ w := by
  obtain ⟨w, hw, hb, hm⟩ := exists_eq_trimRight_append hs
  refine ⟨w, hw, hb, ?_⟩
  have hl : squeeze (lastLine (trimRight isBlank s)) ≠ [] := by rwa [squeeze_lastLine_trimRight hs]
  have hd := dropIndents_append true hl w
  rwa [← hw, dropIndents_of_not_mem hm, ← trimEnd_eq_trimRight hs, ← normalForm] at hd

end GhostText.Text
