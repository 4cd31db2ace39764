import Mathlib.Data.List.Infix
import GhostText.Text.Lines
import GhostText.Proofs.Text.Lines

namespace GhostText.Text

variable {s t x w y : Text} {l m : List Text} {n : Nat}

@[simp] theorem isBlank_lineFeed : isBlank '\n' = true := by
  decide

@[simp] theorem squeeze_nil : squeeze [] = [] :=
  rfl

@[simp] theorem squeeze_append (s t : Text) : squeeze (s ++ t) = squeeze s ++ squeeze t :=
  List.filter_append ..

theorem squeeze_eq_nil_iff : squeeze t = [] ↔ allBlank t = true := by
  simp [squeeze, allBlank, List.filter_eq_nil_iff]

theorem squeeze_isPrefix (h : s <+: t) : squeeze s <+: squeeze t :=
  h.filter _

theorem allBlank_takeWhile (t : Text) : allBlank (t.takeWhile isBlank) = true :=
  List.all_eq_true.mpr fun _ hc => List.mem_takeWhile_imp hc

theorem squeeze_trimLeft (t : Text) : squeeze (trimLeft isBlank t) = squeeze t := by
  have h : squeeze (t.takeWhile isBlank) = [] := squeeze_eq_nil_iff.mpr (allBlank_takeWhile t)
  have := congrArg squeeze (List.takeWhile_append_dropWhile (p := isBlank) (l := t))
  rwa [squeeze_append, h, List.nil_append] at this

theorem squeeze_reverse (t : Text) : squeeze t.reverse = (squeeze t).reverse :=
  List.filter_reverse ..

theorem squeeze_trimRight (t : Text) : squeeze (trimRight isBlank t) = squeeze t := by
  have := squeeze_trimLeft t.reverse
  rw [trimRight, squeeze_reverse, ← trimLeft, this, squeeze_reverse, List.reverse_reverse]

-- What each line holds, blanks aside.
def content (t : Text) : List Text :=
  (lines t).map squeeze

theorem content_ne_nil (t : Text) : content t ≠ [] := by
  simp [content, lines_ne_nil]

theorem content_getLast (t : Text) : (content t).getLast (content_ne_nil t) = squeeze (lastLine t) := by
  simp [content, ← lines_getLast]

theorem content_head (t : Text) : (content t).head (content_ne_nil t) = squeeze (firstLine t) := by
  simp [content, ← lines_head]

theorem content_head? (t : Text) : (content t).head? = some (squeeze (firstLine t)) := by
  rw [← content_head, List.head?_eq_some_head]

@[simp] theorem content_cons_lineFeed (t : Text) : content ('\n' :: t) = [] :: content t := by
  simp [content, squeeze]

theorem content_cons_of_ne {c : Char} (h : c ≠ '\n') (t : Text) :
    content (c :: t) = (squeeze [c] ++ (content t).head (content_ne_nil t)) :: (content t).tail := by
  have : squeeze (c :: (lines t).head (lines_ne_nil t)) = squeeze [c] ++ squeeze ((lines t).head (lines_ne_nil t)) :=
    squeeze_append [c] _
  simp [content, lines_cons_of_ne h, this]

theorem content_append (s t : Text) :
    content (s ++ t) = (content s).dropLast ++
      (squeeze (lastLine s) ++ squeeze (firstLine t)) :: (content t).tail := by
  simp [content, lines_append, lines_getLast, lines_head, List.map_dropLast]

theorem content_of_not_mem (h : '\n' ∉ x) : content x = [squeeze x] := by
  simp [content, lines_of_not_mem h]

theorem flatten_content (t : Text) : (content t).flatten = squeeze t := by
  induction t
  case nil => rfl
  case cons c t ih =>
    by_cases h : c = '\n'
    case pos => simp [h, ih, squeeze]
    case neg =>
      have hs : squeeze (c :: t) = squeeze [c] ++ squeeze t := squeeze_append [c] t
      rw [content_cons_of_ne h, hs, ← ih]
      obtain ⟨k, ks, hk⟩ := List.exists_cons_of_ne_nil (content_ne_nil t)
      simp [hk]

theorem flatten_filter (l : List Text) : (l.filter (· ≠ [])).flatten = l.flatten := by
  induction l
  case nil => rfl
  case cons k l ih => by_cases hk : k = [] <;> simp_all

-- With blank entries left out, the first few entries are the first few of the list only if none of these is blank.
theorem flatten_take_filter_eq_iff (hn : n ≤ (l.filter (· ≠ [])).length)
    (hy : ∀ k ∈ l[n]?, y = [] ∨ y.length < k.length) :
    (l.take n).flatten ++ y = ((l.filter (· ≠ [])).take n).flatten ↔ y = [] ∧ ∀ k ∈ l.take n, k ≠ [] := by
  have hl : (l.take n).length = n :=
    List.length_take_of_le (Nat.le_trans hn (List.length_filter_le _ _))
  have hsplit : l.filter (· ≠ []) = (l.take n).filter (· ≠ []) ++ (l.drop n).filter (· ≠ []) := by
    rw [← List.filter_append, List.take_append_drop]
  by_cases hall : ∀ k ∈ l.take n, k ≠ []
  case pos =>
    have hf : (l.take n).filter (· ≠ []) = l.take n := by simpa [List.filter_eq_self] using hall
    have ht : (l.filter (· ≠ [])).take n = l.take n := by
      rw [hsplit, hf, List.take_left' hl]
    rw [ht]
    simpa using fun _ => hall
  case neg =>
    simp only [hall, and_false, iff_false]
    intro h
    have hlt : ((l.take n).filter (· ≠ [])).length < n := by
      have := (List.length_filter_lt_length_iff_exists (p := (· ≠ []))).mpr (by simpa using hall)
      rwa [hl] at this
    -- so a later entry has been taken in its place
    obtain ⟨k, ks, hk⟩ : ∃ k ks, (l.drop n).filter (· ≠ []) = k :: ks := by
      apply List.exists_cons_of_ne_nil
      intro he
      rw [hsplit, he, List.append_nil] at hn
      omega
    have hk0 : k ≠ [] := by
      have : k ∈ (l.drop n).filter (· ≠ []) := hk ▸ List.mem_cons_self
      simpa using (List.mem_filter.mp this).2
    have hyk : ∃ r, y = k ++ r := by
      obtain ⟨j, hj⟩ : ∃ j, n - ((l.take n).filter (· ≠ [])).length = j + 1 := Nat.exists_eq_add_one.mpr (by omega)
      rw [hsplit, List.take_append, List.take_of_length_le (Nat.le_of_lt hlt), hk, hj, List.flatten_append,
        flatten_filter, List.append_cancel_left_eq, List.take_succ_cons, List.flatten_cons] at h
      exact ⟨_, h⟩
    obtain ⟨r, rfl⟩ := hyk
    obtain ⟨d, ds, hd⟩ : ∃ d ds, l.drop n = d :: ds := by
      apply List.exists_cons_of_ne_nil
      intro he
      simp [he] at hk
    have hdn : l[n]? = some d := by rw [← List.head?_drop, hd]; rfl
    have := hy d hdn
    by_cases hd0 : d = []
    case pos => simp [hd0, hk0] at this
    case neg =>
      rw [hd, List.filter_cons_of_pos (by simpa using hd0)] at hk
      simp only [(List.cons.inj hk).1, List.append_eq_nil_iff, hk0, false_and, List.length_append, false_or] at this
      omega
-- Leave out the entries that hold nothing, except for the last.
def condense : List Text → List Text
  | []      => []
  | [k]     => [k]
  | k :: ks => if k = [] then condense ks else k :: condense ks

theorem condense_nil_cons (h : l ≠ []) : condense ([] :: l) = condense l := by
  cases l
  case nil  => contradiction
  case cons => simp [condense]

theorem condense_cons_of_ne {k : Text} (h : k ≠ []) (l : List Text) : condense (k :: l) = k :: condense l := by
  cases l <;> simp [condense, h]

theorem condense_append (l : List Text) (h : m ≠ []) : condense (l ++ m) = l.filter (· ≠ []) ++ condense m := by
  induction l
  case nil => rfl
  case cons k l ih =>
    by_cases hk : k = []
    case pos => simpa [hk, condense_nil_cons, h] using ih
    case neg => simpa [hk, condense_cons_of_ne] using ih

theorem condense_eq (h : l ≠ []) : condense l = l.dropLast.filter (· ≠ []) ++ [l.getLast h] := by
  have := condense_append l.dropLast (m := [l.getLast h]) (by simp)
  rwa [List.dropLast_append_getLast] at this

theorem condense_ne_nil (h : l ≠ []) : condense l ≠ [] := by
  simp [condense_eq h]

theorem mem_of_mem_condense (h : x ∈ condense l) : x ∈ l := by
  by_cases hl : l = []
  case pos => simp [hl, condense] at h
  case neg =>
    rw [condense_eq hl, List.mem_append, List.mem_singleton] at h
    rcases h with hx | rfl
    case inl => exact List.mem_of_mem_dropLast (List.mem_filter.mp hx).1
    case inr => exact List.getLast_mem hl

theorem dropLast_condense (l : List Text) : (condense l).dropLast = l.dropLast.filter (· ≠ []) := by
  by_cases h : l = []
  case pos => simp [h, condense]
  case neg => rw [condense_eq h, List.dropLast_concat]

theorem flatten_take_condense_iff (hn : n ≤ (condense l).dropLast.length)
    (hy : ∀ k ∈ l[n]?, y = [] ∨ y.length < k.length) :
    (l.take n).flatten ++ y = ((condense l).dropLast.take n).flatten ↔ y = [] ∧ ∀ k ∈ l.take n, k ≠ [] := by
  rw [dropLast_condense] at hn ⊢
  have hle := Nat.le_trans hn (List.length_filter_le _ _)
  have ht : l.take n = l.dropLast.take n := by
    rw [List.length_dropLast] at hle
    rw [List.dropLast_eq_take, List.take_take, Nat.min_eq_left hle]
  rw [ht]
  apply flatten_take_filter_eq_iff hn
  intro k hk
  rw [List.getElem?_dropLast] at hk
  split at hk
  case isTrue  => exact hy k hk
  case isFalse => simp at hk

theorem condense_map {f : Text → Text} (h : ∀ k ∈ l, f k = [] ↔ k = []) : condense (l.map f) = (condense l).map f := by
  induction l
  case nil => rfl
  case cons k l ih =>
    have ih := ih fun j hj => h j (List.mem_cons_of_mem k hj)
    have hk := h k List.mem_cons_self
    by_cases hl : l = []
    case pos => simp [hl, condense]
    case neg =>
      by_cases hn : k = []
      case pos => rw [List.map_cons, hk.mpr hn, hn, condense_nil_cons (by simpa using hl), condense_nil_cons hl, ih]
      case neg => rw [List.map_cons, condense_cons_of_ne (mt hk.mp hn), condense_cons_of_ne hn, List.map_cons, ih]

theorem trimLeft_eq_nil_iff : trimLeft isBlank t = [] ↔ squeeze t = [] := by
  rw [squeeze_eq_nil_iff]
  simp [trimLeft, allBlank]

-- At a line's start blanks are dropped, with the lines they fill. Behind it a line is kept as it is.
theorem lines_dropIndents (t : Text) :
    lines (dropIndents true t) = condense ((lines t).map (trimLeft isBlank)) ∧
      lines (dropIndents false t) =
        (lines t).head (lines_ne_nil t) :: condense ((lines t).tail.map (trimLeft isBlank)) := by
  induction t
  case nil => simp [dropIndents, lines, condense, trimLeft]
  case cons c t ih =>
    obtain ⟨ih₁, ih₂⟩ := ih
    by_cases h : c = '\n'
    case pos =>
      subst h
      have hb : trimLeft isBlank [] = [] := rfl
      simp [dropIndents, ih₁, hb, condense_nil_cons, lines_ne_nil]
    case neg =>
      have hf : lines (dropIndents false (c :: t)) =
          (c :: (lines t).head (lines_ne_nil t)) :: condense ((lines t).tail.map (trimLeft isBlank)) := by
        simp only [dropIndents, Bool.false_and, if_neg, h, decide_false, Bool.false_eq_true, not_false_eq_true]
        rw [lines_cons_of_ne h]
        simp [ih₂]
      constructor
      case right => simp [hf, lines_cons_of_ne h]
      case left =>
        by_cases hb : isBlank c = true
        case pos =>
          have hc (k : Text) : trimLeft isBlank (c :: k) = trimLeft isBlank k := by simp [trimLeft, hb]
          have hl := congrArg (List.map (trimLeft isBlank)) (List.cons_head_tail (lines_ne_nil t))
          rw [List.map_cons] at hl
          simp only [dropIndents, hb, Bool.and_self, if_true]
          rw [ih₁, lines_cons_of_ne h, List.map_cons, hc, hl]
        case neg =>
          have hc (k : Text) : trimLeft isBlank (c :: k) = c :: k := by simp [trimLeft, hb]
          have hd : dropIndents true (c :: t) = dropIndents false (c :: t) := by simp [dropIndents, hb]
          rw [hd, hf, lines_cons_of_ne h, List.map_cons, hc, condense_cons_of_ne (List.cons_ne_nil _ _)]

theorem content_dropIndents (t : Text) : content (dropIndents true t) = condense (content t) := by
  have h : ∀ k ∈ (lines t).map (trimLeft isBlank), squeeze k = [] ↔ k = [] := by
    simp only [List.forall_mem_map]
    intro k _
    rw [squeeze_trimLeft, trimLeft_eq_nil_iff]
  rw [content, (lines_dropIndents t).1, ← condense_map h, List.map_map, content]
  simp only [Function.comp_def, squeeze_trimLeft]

theorem trimRight_append_blanks (t : Text) :
    ∃ w, t = trimRight isBlank t ++ w ∧ allBlank w = true := by
  refine ⟨(t.reverse.takeWhile isBlank).reverse, ?_, ?_⟩
  case refine_1 =>
    have := congrArg List.reverse (List.takeWhile_append_dropWhile (p := isBlank) (l := t.reverse))
    rw [List.reverse_append, List.reverse_reverse] at this
    exact this.symm
  case refine_2 =>
    rw [allBlank, List.all_reverse]
    exact allBlank_takeWhile t.reverse

theorem content_of_allBlank (h : allBlank w = true) : ∀ k ∈ content w, k = [] := by
  intro k hk
  have := squeeze_eq_nil_iff.mpr h
  rw [← flatten_content, List.flatten_eq_nil_iff] at this
  exact this k hk

-- Blanks at the end are at most an empty last line.
theorem condense_content_append (t : Text) (h : allBlank w = true) :
    condense (content (t ++ w)) =
      if '\n' ∈ w then (content t).filter (· ≠ []) ++ [[]] else condense (content t) := by
  have hw := content_of_allBlank h
  have ht := content_append t w
  rw [← content_getLast, ← content_head, hw _ (List.head_mem _), List.append_nil] at ht
  have hd : (content t).dropLast ++ [(content t).getLast (content_ne_nil t)] = content t :=
    List.dropLast_append_getLast _
  split
  case isTrue hm =>
    have hn : (content w).tail ≠ [] := by
      have hl : (content w).length = breaks w + 1 := by simp [content, length_lines]
      have : 0 < breaks w := List.count_pos_iff.mpr hm
      intro he
      have := congrArg List.length he
      simp [hl] at this
      omega
    have : (content w).tail.filter (· ≠ []) = [] := by
      simp only [List.filter_eq_nil_iff, decide_eq_true_eq, not_not]
      exact fun k hk => hw k (List.mem_of_mem_tail hk)
    rw [ht, ← List.singleton_append, ← List.append_assoc, hd, condense_append _ hn, condense_eq hn]
    rw [hw _ (List.mem_of_mem_tail (List.getLast_mem hn))]
    simp
    exact fun k hk => hw k (List.mem_of_mem_tail (List.mem_of_mem_dropLast hk))
  case isFalse hm =>
    rw [content_of_not_mem hm, List.tail_cons, hd] at ht
    rw [ht]

theorem content_normalForm (t : Text) : content (normalForm t) = condense (content t) := by
  obtain ⟨w, ht, hw⟩ := trimRight_append_blanks t
  rw [normalForm, content_dropIndents, trimEnd]
  generalize trimRight isBlank t = core at ht
  subst ht
  rw [condense_content_append core hw]
  by_cases hm : '\n' ∈ w
  case neg => simp [hm]
  case pos =>
    have := condense_content_append core (w := ['\n']) (by decide)
    simpa [hm] using this

theorem squeeze_eq_flatten (t : Text) :
    squeeze t = (content (normalForm t)).dropLast.flatten ++ squeeze (lastLine t) := by
  rw [content_normalForm, dropLast_condense, flatten_filter, ← content_getLast, ← flatten_content]
  conv => lhs; rw [← List.dropLast_append_getLast (content_ne_nil t), List.flatten_append]
  simp

theorem squeeze_lastLine_normalForm (t : Text) : squeeze (lastLine (normalForm t)) = squeeze (lastLine t) := by
  rw [← content_getLast, ← content_getLast]
  simp [content_normalForm, condense_eq (content_ne_nil t)]

theorem squeeze_normalForm (t : Text) : squeeze (normalForm t) = squeeze t := by
  rw [squeeze_eq_flatten t, ← squeeze_lastLine_normalForm, ← content_getLast, ← flatten_content]
  conv => lhs; rw [← List.dropLast_append_getLast (content_ne_nil (normalForm t)), List.flatten_append]
  simp

theorem dropLast_content_isPrefix (h : s <+: t) : (content s).dropLast <+: (content t).dropLast := by
  simpa only [content, ← List.map_dropLast] using (dropLast_lines_isPrefix h).map squeeze

theorem dropIndents_isPrefix (h : s <+: t) (b : Bool) : dropIndents b s <+: dropIndents b t := by
  obtain ⟨r, rfl⟩ := h
  induction s generalizing b
  case nil => exact List.nil_prefix
  case cons c s ih =>
    simp only [List.cons_append, dropIndents]
    split
    case isTrue  => exact ih true
    case isFalse => exact List.cons_prefix_cons.mpr ⟨rfl, ih _⟩

theorem trimRight_isPrefix_append (s t : Text) : trimRight isBlank s <+: trimRight isBlank (s ++ t) := by
  rw [trimRight, trimRight, List.reverse_append, List.dropWhile_append, List.reverse_prefix]
  split
  case isTrue  => exact List.suffix_refl _
  case isFalse => exact (List.dropWhile_suffix _).trans (List.suffix_append _ _)

-- If the last line of a text holds something, the blanks at the end are on that line.
theorem exists_eq_trimRight_append (h : squeeze (lastLine s) ≠ []) :
    ∃ w, s = trimRight isBlank s ++ w ∧ allBlank w = true ∧ '\n' ∉ w := by
  obtain ⟨w, hw, hall⟩ := trimRight_append_blanks s
  refine ⟨w, hw, hall, fun hm => ?_⟩
  have := condense_content_append (trimRight isBlank s) hall
  rw [if_pos hm, ← hw, condense_eq (content_ne_nil s), content_getLast] at this
  exact h (List.append_inj_right' this rfl |> List.singleton_inj.mp)

theorem trimEnd_eq_trimRight (h : squeeze (lastLine s) ≠ []) : trimEnd s = trimRight isBlank s := by
  obtain ⟨w, hw, _, hm⟩ := exists_eq_trimRight_append h
  have hd : s.drop (trimRight isBlank s).length = w := by
    conv => lhs; arg 2; rw [hw]
    rw [List.drop_left]
  simp [trimEnd, hd, hm]

-- Then its normal form is the first part of that of any longer text.
theorem normalForm_isPrefix_append (t : Text) (h : squeeze (lastLine s) ≠ []) :
    normalForm s <+: normalForm (s ++ t) := by
  apply dropIndents_isPrefix
  rw [trimEnd_eq_trimRight h]
  apply (trimRight_isPrefix_append s t).trans
  simp only [trimEnd]
  split
  case isTrue  => exact List.prefix_append _ _
  case isFalse => exact List.prefix_refl _

end GhostText.Text
