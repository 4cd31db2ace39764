import Mathlib.Data.List.TakeWhile
import GhostText.Text.Lines

namespace GhostText.Text

variable {s t x : Text} {l m : List Text}

@[simp] theorem lines_cons_lineFeed (t : Text) : lines ('\n' :: t) = [] :: lines t := by
  simp [lines]

theorem lines_cons_of_ne {c : Char} (h : c ≠ '\n') (t : Text) :
    lines (c :: t) = (c :: (lines t).head (lines_ne_nil t)) :: (lines t).tail := by
  simp only [lines, h, if_false]
  split
  case h_1 hl => exact absurd hl (lines_ne_nil t)
  case h_2 hl => simp [hl]

-- The last line of the first part and the first line of the second become one.
theorem lines_append (s t : Text) :
    lines (s ++ t) = (lines s).dropLast ++
      ((lines s).getLast (lines_ne_nil s) ++ (lines t).head (lines_ne_nil t)) :: (lines t).tail := by
  induction s
  case nil => simp [lines]
  case cons c s ih =>
    have hn := lines_ne_nil s
    by_cases h : c = '\n'
    case pos =>
      subst h
      simp only [List.cons_append, lines_cons_lineFeed, ih]
      rw [List.dropLast_cons_of_ne_nil hn, List.getLast_cons hn]
      rfl
    case neg =>
      simp only [List.cons_append, lines_cons_of_ne h, ih]
      obtain ⟨l, ls, hl⟩ := List.exists_cons_of_ne_nil hn
      cases ls <;> simp [hl]

theorem breaks_append (s t : Text) : breaks (s ++ t) = breaks s + breaks t :=
  List.count_append

theorem breaks_cons (c : Char) (t : Text) : breaks (c :: t) = breaks t + if c = '\n' then 1 else 0 := by
  simp [breaks, List.count_cons]

theorem breaks_of_not_mem (h : '\n' ∉ t) : breaks t = 0 :=
  List.count_eq_zero.mpr h

theorem length_lines (t : Text) : (lines t).length = breaks t + 1 := by
  induction t
  case nil => rfl
  case cons c t ih =>
    by_cases h : c = '\n'
    case pos => simp [h, ih, breaks]
    case neg => simp [lines_cons_of_ne h, ih, breaks, h]

theorem lines_of_not_mem (h : '\n' ∉ x) : lines x = [x] := by
  induction x
  case nil => rfl
  case cons c x ih =>
    simp only [List.mem_cons, not_or] at h
    simp [lines_cons_of_ne (Ne.symm h.1), ih h.2]

theorem lines_head (t : Text) : (lines t).head (lines_ne_nil t) = firstLine t := by
  induction t
  case nil => rfl
  case cons c t ih =>
    by_cases h : c = '\n'
    case pos => simp [h, firstLine]
    case neg =>
      simp only [lines_cons_of_ne h, List.head_cons, ih]
      simp [firstLine, h]

theorem takeWhile_reverse_of_not_mem (h : '\n' ∉ t) : t.reverse.takeWhile (· ≠ '\n') = t.reverse := by
  simp only [List.takeWhile_eq_self_iff, List.mem_reverse, decide_eq_true_eq]
  exact fun c hc he => h (he ▸ hc)

theorem lastLine_of_not_mem (h : '\n' ∉ t) : lastLine t = t := by
  rw [lastLine, takeWhile_reverse_of_not_mem h, List.reverse_reverse]

theorem lastLine_cons_of_mem (c : Char) (h : '\n' ∈ t) : lastLine (c :: t) = lastLine t := by
  have hl : (t.reverse.takeWhile (· ≠ '\n')).length ≠ t.reverse.length := by
    intro he
    have := List.takeWhile_eq_self_iff.mp ((List.takeWhile_prefix _).eq_of_length he)
    simpa using this '\n' (by simpa using h)
  rw [lastLine, List.reverse_cons, List.takeWhile_append, if_neg hl, lastLine]

theorem lastLine_cons_lineFeed (t : Text) : lastLine ('\n' :: t) = lastLine t := by
  by_cases h : '\n' ∈ t
  case pos => exact lastLine_cons_of_mem _ h
  case neg =>
    have ht := takeWhile_reverse_of_not_mem h
    rw [lastLine, List.reverse_cons, List.takeWhile_append, if_pos (by rw [ht]), lastLine, ht]
    simp

theorem lines_getLast (t : Text) : (lines t).getLast (lines_ne_nil t) = lastLine t := by
  induction t
  case nil => rfl
  case cons c t ih =>
    by_cases h : c = '\n'
    case pos =>
      subst h
      simp only [lines_cons_lineFeed, lastLine_cons_lineFeed, ← ih]
      exact List.getLast_cons _
    case neg =>
      by_cases hm : '\n' ∈ t
      case neg =>
        have : '\n' ∉ c :: t := by simp [hm, Ne.symm h]
        simp [lines_of_not_mem this, lastLine_of_not_mem this]
      case pos =>
        have hn : (lines t).tail ≠ [] := by
          intro he
          have := length_lines t
          have hb : 0 < breaks t := List.count_pos_iff.mpr hm
          have : (lines t).tail.length = 0 := by rw [he]; rfl
          rw [List.length_tail] at this
          omega
        rw [lastLine_cons_of_mem c hm, ← ih]
        simp only [lines_cons_of_ne h]
        rw [List.getLast_cons hn, List.getLast_tail]

theorem lineFeed_not_mem_lastLine (t : Text) : '\n' ∉ lastLine t := by
  intro h
  have := List.mem_takeWhile_imp (List.mem_reverse.mp h)
  simp at this

theorem head?_lines (t : Text) : (lines t).head? = some (firstLine t) := by
  rw [← lines_head, List.head?_eq_some_head]

theorem lineFeed_not_mem_firstLine (t : Text) : '\n' ∉ firstLine t := by
  intro h
  have := List.mem_takeWhile_imp h
  simp at this

-- The lines of a first part, except for its last, are the first lines of the whole.
theorem dropLast_lines_isPrefix (h : s <+: t) : (lines s).dropLast <+: (lines t).dropLast := by
  obtain ⟨r, rfl⟩ := h
  rw [lines_append, List.dropLast_append_of_ne_nil (by simp)]
  exact List.prefix_append _ _

theorem lines_append_lineFeed (s t : Text) : lines (s ++ '\n' :: t) = lines s ++ lines t := by
  have := List.dropLast_concat_getLast (lines_ne_nil s)
  conv => rhs; rw [← this]
  simp [lines_append]

theorem unlines_append (hl : l ≠ []) (hm : m ≠ []) : unlines (l ++ m) = unlines l ++ '\n' :: unlines m := by
  induction l
  case nil => contradiction
  case cons k l ih =>
    by_cases hn : l = []
    case pos => simp [hn, unlines_cons k hm, unlines]
    case neg =>
      have : l ++ m ≠ [] := by simp [hn]
      rw [List.cons_append, unlines_cons k this, ih hn, unlines_cons k hn, List.append_assoc, List.cons_append]

theorem unlines_take_isPrefix (ls : List Text) (n : Nat) : unlines (ls.take n) <+: unlines ls := by
  induction ls generalizing n
  case nil => simp
  case cons l ls ih =>
    cases n
    case zero   => exact List.nil_prefix
    case succ n =>
      rw [List.take_succ_cons]
      by_cases hn : ls.take n = []
      case pos =>
        rw [hn]
        cases ls
        case nil  => exact List.prefix_refl _
        case cons => exact List.prefix_append _ _
      case neg =>
        have hl : ls ≠ [] := by rintro rfl; simp at hn
        rw [unlines_cons l hn, unlines_cons l hl, List.prefix_append_right_inj]
        exact List.cons_prefix_cons.mpr ⟨rfl, ih n⟩

theorem unlines_isPrefix (h : l <+: m) : unlines l <+: unlines m := by
  rw [List.prefix_iff_eq_take.mp h]
  exact unlines_take_isPrefix m _

theorem unlines_isSuffix (h : l <:+ m) : unlines l <:+ unlines m := by
  obtain ⟨front, rfl⟩ := h
  by_cases hf : front = []
  case pos => simp [hf]
  case neg =>
    by_cases hl : l = []
    case pos => rw [hl]; exact List.nil_suffix
    case neg =>
      rw [unlines_append hf hl]
      exact (List.suffix_cons _ _).trans (List.suffix_append _ _)

theorem length_unlines_concat (l : List Text) (k : Text) :
    (unlines (l ++ [k])).length = (unlines l).length + (if l = [] then 0 else 1) + k.length := by
  by_cases hl : l = []
  case pos => simp [hl, unlines]
  case neg =>
    rw [unlines_append hl (List.cons_ne_nil k []), if_neg hl, unlines]
    simp only [List.length_append, List.length_cons]
    omega

-- The last of some lines may be cut short.
theorem unlines_concat_isPrefix (l m : List Text) {k : Text} (h : x <+: k) :
    unlines (l ++ [x]) <+: unlines (l ++ k :: m) := by
  have hk : x <+: unlines (k :: m) := by
    apply h.trans
    cases m
    case nil  => exact List.prefix_refl k
    case cons => exact List.prefix_append _ _
  by_cases hl : l = []
  case pos => rw [hl]; exact hk
  case neg =>
    rw [unlines_append hl (List.cons_ne_nil x []), unlines_append hl (List.cons_ne_nil k m),
      List.prefix_append_right_inj]
    exact List.cons_prefix_cons.mpr ⟨rfl, hk⟩

theorem lines_unlines (hl : l ≠ []) (h : ∀ k ∈ l, '\n' ∉ k) : lines (unlines l) = l := by
  induction l
  case nil => contradiction
  case cons k l ih =>
    have hk := lines_of_not_mem (h k List.mem_cons_self)
    by_cases hn : l = []
    case pos => simpa [hn, unlines] using hk
    case neg =>
      rw [unlines_cons k hn, lines_append_lineFeed, hk, ih hn fun i hi => h i (List.mem_cons_of_mem k hi),
        List.singleton_append]

theorem lineFeed_not_mem_of_mem_lines (h : x ∈ lines t) : '\n' ∉ x := by
  induction t generalizing x
  case nil => simp_all [lines]
  case cons c t ih =>
    by_cases hc : c = '\n'
    case pos =>
      rw [hc, lines_cons_lineFeed, List.mem_cons] at h
      rcases h with rfl | h
      case inl => simp
      case inr => exact ih h
    case neg =>
      rw [lines_cons_of_ne hc, List.mem_cons] at h
      rcases h with rfl | h
      case inl => simpa [Ne.symm hc] using ih (List.head_mem _)
      case inr => exact ih (List.mem_of_mem_tail h)

theorem mem_of_mem_lines_unlines (h : ∀ k ∈ l, '\n' ∉ k) (hx : x ∈ lines (unlines l)) : x ∈ l ∨ x = [] := by
  by_cases hl : l = []
  case pos => simpa [hl, unlines, lines] using hx
  case neg => exact .inl (lines_unlines hl h ▸ hx)

-- A block of whole lines stands behind the first line of a text.
theorem infix_tail_lines_iff (hl : l ≠ []) (h : ∀ k ∈ l, '\n' ∉ k) :
    l <:+: (lines t).tail ↔ '\n' :: (unlines l ++ ['\n']) <:+: t ++ ['\n'] := by
  have ht : lines (t ++ ['\n']) = lines t ++ [[]] := lines_append_lineFeed t []
  constructor
  case mp =>
    rintro ⟨before, after, he⟩
    obtain ⟨k, more, hk⟩ := List.exists_cons_of_ne_nil (lines_ne_nil t)
    obtain rfl : before ++ l ++ after = more := by rw [he, hk, List.tail_cons]
    have hlast : after ++ [[]] ≠ [] := by simp
    have hall : t ++ ['\n'] = unlines (k :: before ++ (l ++ (after ++ [[]]))) := by
      rw [← unlines_lines (t ++ ['\n']), ht, hk]
      simp
    rw [unlines_append (List.cons_ne_nil k before) (by simp), unlines_append hl hlast] at hall
    exact ⟨unlines (k :: before), unlines (after ++ [[]]), by rw [hall]; simp⟩
  case mpr =>
    rintro ⟨before, after, he⟩
    have hall : lines before ++ (l ++ lines after) = lines t ++ [[]] := by
      have : t ++ ['\n'] = before ++ '\n' :: (unlines l ++ '\n' :: after) := by rw [← he]; simp
      rw [← ht, this, lines_append_lineFeed, lines_append_lineFeed, lines_unlines hl h]
    obtain ⟨k, more, hk⟩ := List.exists_cons_of_ne_nil (lines_ne_nil before)
    have hafter := List.dropLast_concat_getLast (lines_ne_nil after)
    rw [hk, ← hafter, ← List.append_assoc l, ← List.append_assoc] at hall
    have := congrArg List.tail (List.append_inj_left' hall rfl)
    exact ⟨more, (lines after).dropLast, by simpa using this⟩

end GhostText.Text
