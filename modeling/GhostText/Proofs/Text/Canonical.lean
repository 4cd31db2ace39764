import GhostText.Proofs.Text.Runs

namespace GhostText.Text

variable {t : Text} {l : List Text}

theorem condense_eq_self (hl : l ≠ []) (h : ∀ k ∈ l.dropLast, k ≠ []) : condense l = l := by
  have hf : l.dropLast.filter (· ≠ []) = l.dropLast := by simpa [List.filter_eq_self] using h
  rw [condense_eq hl, hf, List.dropLast_append_getLast]

structure Canonical (t : Text) : Prop where
  unindented : ∀ line ∈ lines t, ∀ c ∈ line.head?, isBlank c = false
  filled     : ∀ line ∈ (lines t).dropLast, line ≠ []
  ends       : t = [] ∨ ∃ front c, isBlank c = false ∧ (t = front ++ [c] ∨ t = front ++ [c, '\n'])

theorem lines_normalForm (t : Text) :
    lines (normalForm t) = condense ((lines (trimEnd t)).map (trimLeft isBlank)) :=
  (lines_dropIndents (trimEnd t)).1

theorem normalForm_ends (t : Text) :
    normalForm t = [] ∨
      ∃ front c, isBlank c = false ∧ (normalForm t = front ++ [c] ∨ normalForm t = front ++ [c, '\n']) := by
  have hlast := getLast?_dropIndents_trimRight t
  have hcases := normalForm_cases t
  generalize dropIndents true (trimRight isBlank t) = core at hlast hcases
  rcases List.eq_nil_or_concat core with rfl | ⟨front, c, rfl⟩
  case inl =>
    -- a line feed would be a blank at the start
    refine .inl (hcases.resolve_right fun hn => ?_)
    have hhead := head?_dropIndents (trimEnd t) '\n'
    rw [← normalForm, hn] at hhead
    simp at hhead
  case inr =>
    rw [List.concat_eq_append] at hlast hcases
    exact .inr ⟨front, c, hlast c (by simp), by simpa using hcases⟩

theorem canonical_normalForm (t : Text) : Canonical (normalForm t) where
  unindented := by
    intro line hl
    rw [lines_normalForm] at hl
    obtain ⟨k, -, rfl⟩ := List.mem_map.mp (mem_of_mem_condense hl)
    exact head?_trimLeft k
  filled := by
    intro line hl
    rw [lines_normalForm, dropLast_condense] at hl
    simpa using (List.mem_filter.mp hl).2
  ends := normalForm_ends t

namespace Canonical

theorem trimEnd_eq (h : Canonical t) : trimEnd t = t := by
  obtain rfl | ⟨front, c, hc, rfl | rfl⟩ := h.ends
  case inl     => rfl
  case inr.inl =>
    have hr : trimRight isBlank (front ++ [c]) = front ++ [c] := trimRight_eq_self (by simpa using hc)
    rw [trimEnd_of_not_mem (by simp [hr]), hr]
  case inr.inr =>
    have hr : trimRight isBlank (front ++ [c, '\n']) = front ++ [c] := by
      have hblank := trimRight_append_of_blank (front ++ [c]) (x := ['\n']) (by decide)
      rw [List.append_assoc, List.singleton_append] at hblank
      rw [hblank, trimRight_eq_self (by simpa using hc)]
    rw [trimEnd_of_mem (by simp [hr]), hr, List.append_assoc, List.singleton_append]

theorem dropIndents_eq (h : Canonical t) : dropIndents true t = t := by
  have hmap : (lines t).map (trimLeft isBlank) = lines t := by
    conv => rhs; rw [← List.map_id (lines t)]
    exact List.map_congr_left fun line hl => trimLeft_eq_self (h.unindented line hl)
  rw [← unlines_lines (dropIndents true t), (lines_dropIndents t).1, hmap, condense_eq_self (lines_ne_nil t) h.filled,
    unlines_lines]

theorem normalForm_eq (h : Canonical t) : normalForm t = t := by
  rw [normalForm, h.trimEnd_eq, h.dropIndents_eq]

end Canonical

theorem normalForm_eq_self_iff : normalForm t = t ↔ Canonical t :=
  ⟨fun h => h ▸ canonical_normalForm t, Canonical.normalForm_eq⟩

-- The normal form of a text is canonical: no line of it starts with a blank, none but the last is empty, and it ends
-- with a character that is not blank or with a single line feed behind one. Just the canonical texts stay as they are.
-- It has one line feed for each run of blanks with a line break in it that comes behind something else.
theorem normalForm_normalForm (t : Text) :
    normalForm (normalForm t) = normalForm t ∧ Canonical (normalForm t) ∧ (∀ u, normalForm u = u ↔ Canonical u) ∧
      breaks (normalForm t) = (breakingRuns t).length :=
  ⟨(canonical_normalForm t).normalForm_eq, canonical_normalForm t, fun _ => normalForm_eq_self_iff,
    (length_breakingRuns t).symm⟩

-- The blanks in front, the gap within a line and the blanks at the end of the last line count for nothing.
example : normalForm "\n a \t b \r\n\n c ".toList = "a \t b \r\nc".toList ∧
    breakingRuns "\n a \t b \r\n\n c ".toList = [" \r\n\n ".toList] := by decide

end GhostText.Text
