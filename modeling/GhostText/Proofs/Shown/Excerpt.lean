import GhostText.Proofs.Shown.Brackets
import GhostText.Proofs.Text.Trim
import GhostText.Shown.Excerpt

namespace GhostText.Excerpt

open Text

variable {rule : RepeatRule} {p : Prediction} {c : Cursor} {text t : Text} {n : Nat} {start : Int}

-- Nothing stands in the way of a completion of the rest of the line.
structure ToLineEnd (p : Prediction) (c : Cursor) : Prop where
  line : '\n' ∉ p.insertText
  kind : p.kind = .redoSuffix ∨ p.kind = .fillLine ∧ allBlank c.right = true

theorem since_natCast (n : Nat) (t : Text) : Bound.since n t = t.drop n := by
  rw [Bound.since, Bound.resolve_of_nonneg (Int.natCast_nonneg n), Int.toNat_natCast]
  by_cases h : n ≤ t.length
  case pos => rw [Nat.min_eq_left h]
  case neg =>
    have h : t.length ≤ n := Nat.le_of_not_le h
    rw [Nat.min_eq_right h, List.drop_length, List.drop_of_length_le h]

theorem upTo_natCast (n : Nat) (xs : List α) : Bound.upTo n xs = xs.take n :=
  Bound.upTo_of_nonneg (Int.natCast_nonneg n) xs

theorem between_natCast (i j : Nat) (t : Text) : Bound.between i j t = (t.take j).drop i := by
  rw [Bound.between, upTo_natCast, Bound.resolve_of_nonneg (Int.natCast_nonneg i), Int.toNat_natCast]
  rcases Nat.le_total i t.length with h | h
  case inl => rw [Nat.min_eq_left h]
  case inr =>
    have hj : (t.take j).length ≤ t.length := List.length_take_le' j t
    rw [Nat.min_eq_right h, List.drop_of_length_le hj, List.drop_of_length_le (hj.trans h)]

-- The typed part is left out, and the blanks after it if the cursor stands behind a blank.
theorem exists_skipTypedSpace (left text : Text) (n : Nat) :
    ∃ w : Text, skipTypedSpace left text n = (n + w.length : Nat) ∧ (w = [] ∨
      w = (text.drop n).takeWhile isSpaceOrTab ∧ ∃ d ∈ left.getLast?, isSpaceOrTab d = true) := by
  have hlen := length_takeWhile_add isSpaceOrTab (text.drop n)
  simp only [skipTypedSpace, since_natCast]
  split
  case h_1        => exact ⟨[], by simp, .inl rfl⟩
  case h_2 d hd =>
    split
    case isFalse      => exact ⟨[], by simp, .inl rfl⟩
    case isTrue hs    => exact ⟨_, by omega, .inr ⟨rfl, d, hd, (Bool.and_eq_true_iff.mp hs).1⟩⟩

theorem exists_drop_skipTypedSpace (left text : Text) (n : Nat) :
    ∃ m : Nat, skipTypedSpace left text n = m ∧ (text.drop m = text.drop n ∨
      text.drop m = trimLeft isSpaceOrTab (text.drop n) ∧ ∃ d ∈ left.getLast?, isSpaceOrTab d = true) := by
  obtain ⟨w, hm, hw⟩ := exists_skipTypedSpace left text n
  refine ⟨_, hm, ?_⟩
  rcases hw with rfl | ⟨rfl, hl⟩
  case inl => exact .inl rfl
  case inr =>
    rw [← List.drop_drop]
    exact .inr ⟨drop_length_takeWhile _ _, hl⟩

-- Line breaks that are skipped are taken for typed.
theorem skipBlankLines_of_not_mem (c : Cursor) (h : '\n' ∉ text.take (skipBlankLines c text n).toNat) :
    skipBlankLines c text n = n := by
  simp only [skipBlankLines, since_natCast] at h ⊢
  split at h
  case isFalse hb => rw [if_neg hb]
  case isTrue hb  =>
    have hr : trimLeft (· = '\n') (text.drop n) = text.drop n := by
      apply trimLeft_eq_self
      intro d hd
      simp only [decide_eq_false_iff_not]
      rintro rfl
      apply h
      have hat : text[n]? = some '\n' := by rw [← List.head?_drop]; exact hd
      have hlt : (trimLeft (· = '\n') (text.drop n)).length < (text.drop n).length := by
        obtain ⟨r, hr⟩ := List.head?_eq_some_iff.mp (Option.mem_def.mp hd)
        have := (List.dropWhile_suffix (· = '\n') (l := r)).length_le
        rw [hr]
        simp only [trimLeft, List.dropWhile_cons_of_pos, decide_true, List.length_cons]
        omega
      apply List.mem_of_getElem? (i := n)
      rw [List.getElem?_take_of_lt (by omega), hat]
    rw [if_pos hb, hr]
    omega

theorem lastIndex_of_toLineEnd (h : ToLineEnd p c) (start : Int) :
    lastIndex c p.kind p.insertText start = p.insertText.length := by
  have hm : meeting? c p.kind p.insertText start = none := by
    cases h.kind
    case inl hk => simp [meeting?, hk]
    case inr hk =>
      have : trimLeft isBlank c.right = [] := by simpa [trimLeft, allBlank] using hk.2
      simp [meeting?, this]
  have hr : '\n' ∉ Bound.since start p.insertText := fun hr => h.line (List.mem_of_mem_drop hr)
  simp [lastIndex, stopAtLineEnd, stopAtMeeting, hm, hr]

-- If the window runs to the end of the prediction, only the brackets cut it.
theorem text_of_lastIndex (rule : RepeatRule) {m : Nat} (hk : p.kind ≠ .continueBelow)
    (hf : firstIndex c p.insertText n = m) (hl : lastIndex c p.kind p.insertText m = p.insertText.length)
    (ht : (!allBlank c.right && decide (p.kind ≠ .redoSuffix)) = false) :
    (of rule p c n).text = edgeSpaces false (Brackets.cut (p.insertText.drop m) c.before) := by
  have hb : Bound.between m p.insertText.length p.insertText = p.insertText.drop m := by
    rw [between_natCast, List.take_length]
  simp only [of, hf, hl, hk, if_false, ht, hb]

theorem exists_window (rule : RepeatRule) (h : ToLineEnd p c) (n : Nat) :
    ∃ w, (of rule p c n).text = edgeSpaces false (Brackets.cut w c.before) ∧
      (w = p.insertText.drop n ∨
        w = trimLeft isSpaceOrTab (p.insertText.drop n) ∧ ∃ d ∈ c.left.getLast?, isSpaceOrTab d = true) := by
  obtain ⟨m, hm, hw⟩ := exists_drop_skipTypedSpace c.left p.insertText n
  refine ⟨p.insertText.drop m, ?_, hw⟩
  have hk : p.kind ≠ .continueBelow := by
    cases h.kind
    case inl hk => simp [hk]
    case inr hk => simp [hk.1]
  have hf : firstIndex c p.insertText n = m := by
    rw [firstIndex, hm, skipBlankLines_of_not_mem c fun hm => h.line (List.mem_of_mem_take hm)]
  have ht : (!allBlank c.right && decide (p.kind ≠ .redoSuffix)) = false := by
    cases h.kind
    case inl hk => simp [hk]
    case inr hk => simp [hk.2]
  exact text_of_lastIndex rule hk hf (lastIndex_of_toLineEnd h m) ht

theorem squeeze_edgeSpaces (keepTrailing : Bool) (t : Text) : squeeze (edgeSpaces keepTrailing t) = squeeze t := by
  have hs := squeeze_trim_of (fun _ => isBlank_of_isSpaceOrTab) t
  have hb (b : Bool) : squeeze (if b then [' '] else []) = [] := by cases b <;> decide
  simp only [edgeSpaces]
  split
  case isTrue he  => rw [← hs, List.isEmpty_iff.mp he]
  case isFalse he => rw [squeeze_append, squeeze_append, hb, hb, hs, List.nil_append, List.append_nil]

theorem squeeze_text (rule : RepeatRule) (h : ToLineEnd p c) (n : Nat) :
    squeeze (of rule p c n).text =
      Brackets.balancedPart (Brackets.openers c.before) (squeeze (p.insertText.drop n)) := by
  obtain ⟨w, ht, hw⟩ := exists_window rule h n
  have hs : squeeze w = squeeze (p.insertText.drop n) := by
    rcases hw with rfl | ⟨rfl, -⟩
    case inl => rfl
    case inr => exact squeeze_trimLeft_of (fun _ => isBlank_of_isSpaceOrTab) _
  rw [ht, squeeze_edgeSpaces, Brackets.cut, Brackets.squeeze_balancedPart, hs]

-- Where the rest of the line is written anew, all that is left of the prediction is shown up to the brackets, over
-- several lines too.
theorem squeeze_text_redoSuffix (rule : RepeatRule) (hk : p.kind = .redoSuffix) (hr : allBlank c.right = false)
    (n : Nat) : squeeze (of rule p c n).text =
      Brackets.balancedPart (Brackets.openers c.before) (squeeze (p.insertText.drop n)) := by
  obtain ⟨m, hm, hw⟩ := exists_drop_skipTypedSpace c.left p.insertText n
  have hf : firstIndex c p.insertText n = m := by simp [firstIndex, hm, skipBlankLines, hr]
  have hl : lastIndex c p.kind p.insertText m = p.insertText.length := by
    simp [lastIndex, stopAtLineEnd, stopAtMeeting, meeting?, hk, hr]
  have hs : squeeze (p.insertText.drop m) = squeeze (p.insertText.drop n) := by
    rcases hw with hw | ⟨hw, -⟩
    case inl => rw [hw]
    case inr => rw [hw, squeeze_trimLeft_of fun _ => isBlank_of_isSpaceOrTab]
  rw [text_of_lastIndex rule (by simp [hk]) hf hl (by simp [hk]), squeeze_edgeSpaces, Brackets.cut,
    Brackets.squeeze_balancedPart, hs]

end GhostText.Excerpt
