import GhostText.Proofs.Match.Placement

namespace GhostText

open Text

namespace Bounds

variable {before stored insertion typed line middle x : Text} {l R : List Text} {b : Bounds} {n e : Nat}

-- The lines of the prediction, the first of them with what the stored text has on it.
def predictedLines (stored insertion : Text) : List Text :=
  lines (trimLeft isBlank (lastLine stored) ++ insertion)

-- The typed line begins the other, indentation aside. It need not have the same blanks at its end, but then it must
-- not occur with them anywhere in the other.
def Begins (typed line : Text) : Prop :=
  typed <+: trimLeft isBlank line ∨ find? typed line = none ∧ trimRight isBlank typed <+: trimLeft isBlank line

structure Aligned (before stored insertion : Text) (b : Bounds) : Prop where
  -- no blank line comes before the line of the match, since blank lines are not counted
  lines  : ∀ l ∈ (predictedLines stored insertion).take b.line, allBlank l = false
  -- typing has not left out a line break at the start of the prediction
  joined : 0 < b.line → normalForm before <+: normalForm (stored ++ insertion) ∨ allBlank (firstLine insertion) = false
  -- the line of the match begins with the line that was typed
  column : ∀ l ∈ (predictedLines stored insertion)[b.line]?, Begins (trimLeft isBlank (lastLine before)) l

theorem lines_predicted (stored insertion : Text) :
    predictedLines stored insertion =
      (trimLeft isBlank (lastLine stored) ++ firstLine insertion) :: (lines insertion).tail := by
  have hm : '\n' ∉ trimLeft isBlank (lastLine stored) :=
    fun h => lineFeed_not_mem_lastLine stored ((List.dropWhile_suffix _).mem h)
  rw [predictedLines, lines_append, lines_head]
  simp [lines_of_not_mem hm]

theorem predictedLines_getElem? (h : (lines insertion)[n]? = some middle) :
    (predictedLines stored insertion)[n]? = some (known stored n ++ middle) := by
  rw [lines_predicted, known, ← lines_head]
  obtain ⟨l, ls, hi⟩ := List.exists_cons_of_ne_nil (lines_ne_nil insertion)
  cases hn : n <;> simp_all

-- Put a piece of text in front of the first entry.
def onto (p : Text) : List Text → List Text
  | []      => []
  | k :: ks => (p ++ k) :: ks

theorem onto_ne_nil (p : Text) (h : l ≠ []) : onto p l ≠ [] := by
  cases l
  case nil  => contradiction
  case cons => simp [onto]

theorem dropLast_onto (p : Text) (l : List Text) : (onto p l).dropLast = onto p l.dropLast := by
  cases l
  case nil       => rfl
  case cons _ ks => cases ks <;> rfl

theorem flatten_take_onto (p : Text) (h : l ≠ []) (hn : 0 < n) :
    ((onto p l).take n).flatten = p ++ (l.take n).flatten := by
  cases l
  case nil    => contradiction
  case cons   =>
    cases n
    case zero => contradiction
    case succ => simp [onto]

theorem length_onto (p : Text) (l : List Text) : (onto p l).length = l.length := by
  cases l <;> rfl

theorem getElem?_onto (p : Text) (l : List Text) (h : 0 < n) : (onto p l)[n]? = l[n]? := by
  cases l
  case nil  => rfl
  case cons =>
    cases n
    case zero => contradiction
    case succ => rfl

theorem take_onto (p : Text) (l : List Text) (n : Nat) : (onto p l).take (n + 1) = onto p (l.take (n + 1)) := by
  cases l <;> rfl

theorem condense_onto {p : Text} (h : ∀ k ∈ l.head?, k ≠ []) : condense (onto p l) = onto p (condense l) := by
  cases l
  case nil       => rfl
  case cons k ks =>
    have hk : k ≠ [] := h k rfl
    rw [condense_cons_of_ne hk, onto, condense_cons_of_ne (by simp [hk]), onto]

theorem content_append_onto (s t : Text) :
    content (s ++ t) = (content s).dropLast ++ onto (squeeze (lastLine s)) (content t) := by
  obtain ⟨k, ks, hk⟩ := List.exists_cons_of_ne_nil (content_ne_nil t)
  simp [content_append, hk, onto, ← content_head]

theorem content_predicted (stored insertion : Text) :
    (predictedLines stored insertion).map squeeze = onto (squeeze (lastLine stored)) (content insertion) := by
  obtain ⟨l, ls, hl⟩ := List.exists_cons_of_ne_nil (lines_ne_nil insertion)
  simp [lines_predicted, content, hl, onto, squeeze_trimLeft, ← lines_head]

theorem content_joined (stored insertion : Text) :
    content (normalForm (stored ++ insertion)) = (content (normalForm stored)).dropLast ++
      condense (onto (squeeze (lastLine stored)) (content insertion)) := by
  rw [content_normalForm, content_append_onto, condense_append _ (onto_ne_nil _ (content_ne_nil _)),
    content_normalForm, dropLast_condense]

theorem content_apart (stored insertion : Text) :
    content (normalForm stored ++ normalForm insertion) = (content (normalForm stored)).dropLast ++
      onto (squeeze (lastLine stored)) (condense (content insertion)) := by
  rw [content_append_onto, squeeze_lastLine_normalForm, content_normalForm insertion]

-- The typed line is found behind what is skipped.
theorem columnAfter?_skips (ht : ∀ c ∈ typed.head?, isBlank c = false) (h : columnAfter? typed line = some e) :
    ∃ skipped, squeeze (line.take e) = skipped ++ squeeze typed ∧ (skipped = [] ↔ Begins typed line) := by
  obtain ⟨sought, i, he, hi, hs⟩ := columnAfter?_eq_some h
  refine ⟨squeeze (line.take i), ?_, ?_⟩
  case refine_1 =>
    obtain ⟨r, hr⟩ := (find?_eq_some_iff.mp hi).1
    have hsq : squeeze sought = squeeze typed := by
      cases hs
      case inl hs => rw [hs]
      case inr hs => rw [hs.2, squeeze_trimRight]
    rw [he, List.take_add, ← hr, List.take_left, squeeze_append, hsq]
  case refine_2 =>
    rw [squeeze_eq_nil_iff]
    cases hs
    case inl hs =>
      subst hs
      simp [allBlank_take_iff ht hi, Begins, hi]
    case inr hs =>
      obtain ⟨hn, rfl⟩ := hs
      rw [allBlank_take_iff (head?_trimRight ht) hi, Begins]
      simp only [hn, true_and]
      exact ⟨.inr, fun h => h.elim (trimRight_isPrefix typed).trans id⟩

-- If the current text goes on for some lines more, these are the first of what follows.
theorem newLines (hp : normalForm before <+: x) (hb : breaks (normalForm before) = breaks (normalForm stored) + n)
    (hx : content x = (content (normalForm stored)).dropLast ++ R) (hR : R ≠ []) :
    (content (normalForm before)).dropLast = (content (normalForm stored)).dropLast ++ R.dropLast.take n ∧
      n ≤ R.dropLast.length := by
  have hl : ∀ t : Text, (content t).dropLast.length = breaks t := by simp [content, length_lines]
  have hd := dropLast_content_isPrefix hp
  rw [hx, List.dropLast_append_of_ne_nil hR] at hd
  have hlen := hd.length_le
  rw [List.length_append, hl, hl, hb] at hlen
  constructor
  case left  =>
    rw [List.prefix_iff_eq_take.mp hd, hl, hb, List.take_append, hl, List.take_of_length_le (by simp [hl])]
    simp
  case right => omega

theorem take_column_le (hp : Placed before stored insertion b middle e) : b.column ≤ middle.length := by
  obtain ⟨sought, i, he, hi, _⟩ := columnAfter?_eq_some hp.found
  have := add_length_le_of_find? hi
  rw [List.length_append] at this
  rw [hp.column]
  omega

theorem sound_iff (hp : Placed before stored insertion b middle e)
    (hG : (content (normalForm before)).dropLast = (content (normalForm stored)).dropLast ++ R) :
    squeeze (stored ++ insertion.take b.index) = squeeze before ↔
      squeeze (lastLine stored) ++ ((content insertion).take b.line).flatten ++ squeeze (middle.take b.column) =
        R.flatten ++ squeeze (lastLine before) := by
  rw [hp.index, squeeze_append, squeeze_take_flatIndex hp.line (take_column_le hp), squeeze_eq_flatten stored,
    squeeze_eq_flatten before, hG]
  simp

theorem aligned_iff (h : (lines insertion)[b.line]? = some middle) :
    Aligned before stored insertion b ↔
      (∀ k ∈ (onto (squeeze (lastLine stored)) (content insertion)).take b.line, k ≠ []) ∧
      (0 < b.line → normalForm before <+: normalForm (stored ++ insertion) ∨ squeeze (firstLine insertion) ≠ []) ∧
      Begins (trimLeft isBlank (lastLine before)) (known stored b.line ++ middle) := by
  have hl : (predictedLines stored insertion)[b.line]? = some (known stored b.line ++ middle) :=
    predictedLines_getElem? h
  rw [← content_predicted, ← List.map_take]
  simp only [List.forall_mem_map, Ne, squeeze_eq_nil_iff, Bool.not_eq_true]
  constructor
  case mp  => exact fun h => ⟨h.lines, h.joined, h.column _ hl⟩
  case mpr =>
    rintro ⟨h₁, h₂, h₃⟩
    exact ⟨h₁, h₂, fun l h => Option.some.inj (hl ▸ h) ▸ h₃⟩

theorem isPrefix_of_continues (h : continues (normalForm before) stored insertion = true) :
    (normalForm stored).length ≤ (normalForm before).length ∧
      (normalForm before <+: normalForm (stored ++ insertion) ∨
        normalForm before <+: normalForm stored ++ normalForm insertion) := by
  simpa [continues] using h

-- The text before the cursor is at least the stored text, unless the latter ends with an empty line.
theorem stored_isPrefix (h : continues (normalForm before) stored insertion = true) :
    squeeze (lastLine stored) = [] ∨ normalForm stored <+: normalForm before := by
  obtain ⟨hlen, h⟩ := isPrefix_of_continues h
  cases h
  case inr h => exact .inr (List.prefix_of_prefix_length_le (List.prefix_append _ _) h hlen)
  case inl h =>
    by_cases hp : squeeze (lastLine stored) = []
    case pos => exact .inl hp
    case neg => exact .inr (List.prefix_of_prefix_length_le (normalForm_isPrefix_append insertion hp) h hlen)

theorem squeeze_lastLine_length_le (hc : continues (normalForm before) stored insertion = true)
    (hG : (content (normalForm before)).dropLast = (content (normalForm stored)).dropLast) :
    (squeeze (lastLine stored)).length ≤ (squeeze (lastLine before)).length := by
  cases stored_isPrefix hc
  case inl h => simp [h]
  case inr h =>
    have := (squeeze_isPrefix h).length_le
    rw [squeeze_normalForm, squeeze_normalForm, squeeze_eq_flatten, squeeze_eq_flatten before, hG] at this
    simpa using this

-- On the line of the cursor nothing but what comes before the typed line can be wrong.
theorem sound_iff_of_first (hp : Placed before stored insertion b middle e) (h0 : b.line = 0) {skipped : Text}
    (hG : (content (normalForm before)).dropLast = (content (normalForm stored)).dropLast)
    (hs : squeeze ((known stored b.line ++ middle).take e) = skipped ++ squeeze (lastLine before)) :
    squeeze (stored ++ insertion.take b.index) = squeeze before ↔ skipped = [] := by
  rw [sound_iff hp (R := []) (by simpa using hG)]
  have hk : squeeze (known stored b.line) = squeeze (lastLine stored) := by
    simp [known, h0, squeeze_trimLeft]
  have ht : ((content insertion).take b.line).flatten = [] := by simp [h0]
  rw [ht, List.append_nil, List.flatten_nil, List.nil_append, hp.column]
  by_cases he : (known stored b.line).length ≤ e
  case pos =>
    rw [List.take_append, List.take_of_length_le he, squeeze_append, hk] at hs
    rw [hs]
    simp
  case neg =>
    have hcol : e - (known stored b.line).length = 0 := by omega
    rw [List.take_append, hcol, List.take_zero, List.append_nil] at hs
    have hlen := squeeze_lastLine_length_le hp.continues hG
    have hpre := squeeze_isPrefix (List.take_prefix e (known stored b.line))
    rw [hs, hk] at hpre
    have := hpre.length_le
    rw [List.length_append] at this
    have hskip : skipped = [] := List.length_eq_zero_iff.mp (by omega)
    rw [hskip, List.nil_append] at hpre
    simp [hcol, hskip, hpre.eq_of_length_le hlen]

-- Unless typing has left out a line break, further lines are those of the prediction.
theorem newLines_joined (hp : Placed before stored insertion b middle e)
    (hj : normalForm before <+: normalForm (stored ++ insertion) ∨ squeeze (firstLine insertion) ≠ []) :
    (content (normalForm before)).dropLast = (content (normalForm stored)).dropLast ++
        (condense (onto (squeeze (lastLine stored)) (content insertion))).dropLast.take b.line ∧
      b.line ≤ (condense (onto (squeeze (lastLine stored)) (content insertion))).dropLast.length := by
  have hR := condense_ne_nil (onto_ne_nil (squeeze (lastLine stored)) (content_ne_nil insertion))
  by_cases ha : normalForm before <+: normalForm (stored ++ insertion)
  case pos => exact newLines ha hp.breaks (content_joined stored insertion) hR
  case neg =>
    have hb := (isPrefix_of_continues hp.continues).2.resolve_left ha
    have hx := content_apart stored insertion
    rw [← condense_onto (by simpa [content_head?] using hj.resolve_left ha)] at hx
    exact newLines hb hp.breaks hx hR

-- Less is skipped than the line of the match holds.
theorem skipped_length_lt (hp : Placed before stored insertion b middle e) {skipped : Text}
    (hs : squeeze (middle.take b.column) = skipped ++ squeeze (lastLine before))
    (hq : squeeze (lastLine before) = [] → skipped = []) :
    ∀ k ∈ (content insertion)[b.line]?, skipped = [] ∨ skipped.length < k.length := by
  intro k hk
  by_cases hnil : squeeze (lastLine before) = []
  case pos => exact .inl (hq hnil)
  case neg =>
    right
    simp only [content, List.getElem?_map, hp.line, Option.map_some, Option.mem_def, Option.some.injEq] at hk
    have hle := (squeeze_isPrefix (List.take_prefix b.column middle)).length_le
    rw [hs, List.length_append, hk] at hle
    have := List.length_pos_iff.mpr hnil
    omega

theorem newLines_first (hp : Placed before stored insertion b middle e) (h0 : b.line = 0) :
    (content (normalForm before)).dropLast = (content (normalForm stored)).dropLast := by
  have hb := hp.breaks
  cases (isPrefix_of_continues hp.continues).2
  case inl h =>
    have := newLines h hb (content_joined stored insertion) (condense_ne_nil (onto_ne_nil _ (content_ne_nil insertion)))
    simpa [h0] using this.1
  case inr h =>
    have := newLines h hb (content_apart stored insertion) (onto_ne_nil _ (condense_ne_nil (content_ne_nil insertion)))
    simpa [h0] using this.1

-- Further lines of the prediction count only if they are not blank.
theorem sound_iff_of_later (hp : Placed before stored insertion b middle e) (h0 : 0 < b.line) {skipped : Text}
    (hs : squeeze (middle.take b.column) = skipped ++ squeeze (lastLine before))
    (hq : squeeze (lastLine before) = [] → skipped = []) :
    squeeze (stored ++ insertion.take b.index) = squeeze before ↔
      (normalForm before <+: normalForm (stored ++ insertion) ∨ squeeze (firstLine insertion) ≠ []) ∧ skipped = [] ∧
      ∀ k ∈ (onto (squeeze (lastLine stored)) (content insertion)).take b.line, k ≠ [] := by
  have hn := content_ne_nil insertion
  have hy := skipped_length_lt hp hs hq
  by_cases hj : normalForm before <+: normalForm (stored ++ insertion) ∨ squeeze (firstLine insertion) ≠ []
  case pos =>
    obtain ⟨hG, hle⟩ := newLines_joined hp hj
    simp only [hj, true_and]
    rw [sound_iff hp hG, hs, ← flatten_take_onto _ hn h0, ← List.append_assoc, List.append_cancel_right_eq]
    exact flatten_take_condense_iff hle (by rwa [getElem?_onto _ _ h0])
  case neg =>
    obtain ⟨ha, hf⟩ := not_or.mp hj
    have hb := (isPrefix_of_continues hp.continues).2.resolve_left ha
    obtain ⟨hG, hle⟩ := newLines hb hp.breaks (content_apart stored insertion) (onto_ne_nil _ (condense_ne_nil hn))
    rw [dropLast_onto] at hG hle
    rw [length_onto] at hle
    have hne : (condense (content insertion)).dropLast ≠ [] := by
      intro h
      rw [h, List.length_nil] at hle
      omega
    simp only [hj, false_and, iff_false]
    rw [sound_iff hp hG, hs, flatten_take_onto _ hne h0, ← List.append_assoc, List.append_cancel_right_eq,
      List.append_assoc, List.append_cancel_left_eq, flatten_take_condense_iff hle hy]
    -- the first line of the prediction is blank
    rintro ⟨_, hall⟩
    have hhead : ((content insertion).take b.line).head? = some (squeeze (firstLine insertion)) := by
      rw [List.head?_take, if_neg (by omega), content_head?]
    exact hall _ (List.mem_of_mem_head? hhead) (by simpa using hf)

theorem squeeze_take_index_iff_aligned (h : match? before stored insertion = some b) :
    squeeze (stored ++ insertion.take b.index) = squeeze before ↔ Aligned before stored insertion b := by
  obtain ⟨middle, e, hp⟩ := exists_placed_of_match? h
  obtain ⟨skipped, hs, hb⟩ := columnAfter?_skips (head?_trimLeft _) hp.found
  rw [squeeze_trimLeft] at hs
  rw [aligned_iff hp.line, ← hb]
  by_cases h0 : b.line = 0
  case pos =>
    have hG := newLines_first hp h0
    rw [sound_iff_of_first hp h0 hG hs]
    simp [h0]
  case neg =>
    have h0 : 0 < b.line := Nat.pos_of_ne_zero h0
    have hcol : squeeze (middle.take b.column) = skipped ++ squeeze (lastLine before) := by
      have hk : known stored b.line = [] := if_neg (by omega)
      simpa [hp.column, hk] using hs
    have hq (hq : squeeze (lastLine before) = []) : skipped = [] := by
      have : trimLeft isBlank (lastLine before) = [] := by
        simpa [trimLeft, allBlank] using squeeze_eq_nil_iff.mp hq
      exact hb.mpr (.inl (this ▸ List.nil_prefix))
    rw [sound_iff_of_later hp h0 hcol hq]
    simp only [h0, forall_const]
    exact and_rotate.symm

theorem squeeze_take_index_iff_aligned_second_line :
    match? "def f(x):\n  re".toList "def f".toList "(x):\n    return x".toList = some ⟨1, 6, 11⟩ ∧
      (squeeze ("def f".toList ++ "(x):\n    return x".toList.take 11) = squeeze "def f(x):\n  re".toList ↔
        Aligned "def f(x):\n  re".toList "def f".toList "(x):\n    return x".toList ⟨1, 6, 11⟩) :=
  have h : match? "def f(x):\n  re".toList "def f".toList "(x):\n    return x".toList = some ⟨1, 6, 11⟩ := by
    decide
  ⟨h, squeeze_take_index_iff_aligned h⟩

-- The blank that was typed stands behind the second letter of the prediction, which was not typed.
theorem squeeze_take_index_ne_of_repeated_letter :
    match? "a ".toList [] "aa b".toList = some ⟨0, 3, 3⟩ ∧
      squeeze ([] ++ "aa b".toList.take 3) ≠ squeeze "a ".toList :=
  ⟨by decide, by decide⟩

end Bounds
end GhostText
