import GhostText.Proofs.Match.Range
import GhostText.Proofs.Match.Typed

namespace GhostText

open Text

namespace Text

variable {s t x : Text} {c : Char} {l : List Text} {n : Nat}

-- If the blank entries all come last, leaving them out does not change the place of the others.
theorem getElem?_of_condense (h : l.Pairwise fun k m => k = [] → m = []) (hx : (condense l)[n]? = some x)
    (hn : x ≠ []) : l[n]? = some x := by
  induction l generalizing n
  case nil => simp [condense] at hx
  case cons k l ih =>
    obtain ⟨hk, h⟩ := List.pairwise_cons.mp h
    by_cases he : k = []
    case pos =>
      have hm := mem_of_mem_condense (List.mem_of_getElem? hx)
      rcases List.mem_cons.mp hm with rfl | hm
      case inl => exact absurd he hn
      case inr => exact absurd (hk x hm he) hn
    case neg =>
      rw [condense_cons_of_ne he] at hx
      cases n
      case zero   => exact hx
      case succ n => exact ih h hx

-- If an entry that holds something is found by the number of such entries before it, the blank ones all come last.
theorem pairwise_of_getElem?_filter
    (h : ∀ j, ∀ k ∈ l[j]?, k ≠ [] → ∃ m ∈ l[((l.take j).filter (· ≠ [])).length]?, m ≠ []) :
    l.Pairwise fun k m => k = [] → m = [] := by
  induction l
  case nil => exact .nil
  case cons k l ih =>
    have hfirst : ∀ m ∈ l, k = [] → m = [] := by
      intro m hm hk
      -- the first entry behind it that holds something would be looked for where the blank one is
      by_contra hne
      have hmem : m ∈ l.filter (· ≠ []) := List.mem_filter.mpr ⟨hm, by simpa using hne⟩
      obtain ⟨a, as, ha⟩ := List.exists_cons_of_ne_nil (List.ne_nil_of_mem hmem)
      obtain ⟨front, back, rfl, hfront, hp, -⟩ := List.filter_eq_cons_iff.mp ha
      have hz : ((k :: (front ++ a :: back)).take (front.length + 1)).filter (· ≠ []) = [] := by
        rw [List.take_succ_cons, List.take_left, List.filter_eq_nil_iff]
        simpa [hk] using hfront
      obtain ⟨e, he, hene⟩ := h (front.length + 1) a (by simp) (by simpa using hp)
      rw [hz] at he
      exact hene (by simpa [hk, eq_comm] using he)
    refine .cons hfirst (ih fun j a ha hne => ?_)
    have hk : k ≠ [] := fun hk => hne (hfirst a (List.mem_of_getElem? ha) hk)
    have := h (j + 1) a ha hne
    rwa [List.take_succ_cons, List.filter_cons_of_pos (by simpa using hk)] at this

theorem lastLine_append_of_nil (h : lastLine s = []) (t : Text) : lastLine (s ++ t) = lastLine t := by
  by_cases hm : '\n' ∈ t
  case pos => exact lastLine_append_of_mem s hm
  case neg => rw [lastLine_append_of_not_mem s hm, h, List.nil_append, lastLine_of_not_mem hm]

theorem exists_trim_cons (h : squeeze t ≠ []) : ∃ c u, isBlank c = false ∧ trim isBlank t = c :: u := by
  obtain ⟨c, u, hu⟩ := exists_cons_of_squeeze (squeeze_trim_of (p := isBlank) (fun _ => id) t ▸ h)
  exact ⟨c, u, head?_trimRight (head?_trimLeft t) c (by rw [← trim, hu]; rfl), hu⟩

-- The first words of a text that holds something are in normal form, and hold all that its first line holds.
theorem exists_firstWords (h : squeeze t ≠ []) :
    ∃ c u, isBlank c = false ∧ '\n' ∉ c :: u ∧ c :: u <+: normalForm t ∧ normalForm (c :: u) = c :: u ∧
      (squeeze (firstLine t)).length ≤ (squeeze (c :: u)).length := by
  obtain ⟨c, v, hv⟩ := exists_cons_of_squeeze (squeeze_normalForm t ▸ h)
  have hc : isBlank c = false := head?_dropIndents _ c (by rw [← normalForm, hv]; rfl)
  have hf : firstLine (normalForm t) = c :: firstLine v := by
    simp [hv, firstLine, lineFeed_ne_of_isBlank hc]
  obtain ⟨u, hu⟩ := exists_trimRight_cons (squeeze_ne_nil_of_mem (t := c :: firstLine v) List.mem_cons_self hc)
  have hp : c :: u <+: firstLine (normalForm t) := by
    rw [hf, ← hu]
    exact trimRight_isPrefix _
  have hm : '\n' ∉ c :: u := by
    intro hm
    have := List.mem_takeWhile_imp (hp.mem hm)
    simp at this
  have hl : ∀ d ∈ (c :: u).getLast?, isBlank d = false := by
    rw [← hu]
    exact getLast?_trimRight isBlank _
  refine ⟨c, u, hc, hm, hp.trans (List.takeWhile_prefix _), normalForm_eq_self hm (by simp [hc]) hl, ?_⟩
  rw [← hu, squeeze_trimRight, ← hf]
  exact length_squeeze_firstLine_le t

-- A text does not end with a blank if the end of its last line needs no trimming.
theorem getLast?_of_trim_eq (hs : squeeze (lastLine s) ≠ [])
    (h : trim isBlank (lastLine s) = trimLeft isBlank (lastLine s)) : ∀ c ∈ s.getLast?, isBlank c = false := by
  have hsuffix : trimLeft isBlank (lastLine s) <:+ s := (List.dropWhile_suffix _).trans (lastLine_isSuffix s)
  have hne : trimLeft isBlank (lastLine s) ≠ [] := fun he => hs (trimLeft_eq_nil_iff.mp he)
  have hlast := List.getLast?_eq_some_getLast hne
  rw [Option.mem_def.mp (mem_getLast?_of_isSuffix hsuffix hlast)]
  rintro _ ⟨⟩
  exact getLast?_trimRight isBlank (trimLeft isBlank (lastLine s)) _ (by rw [← trim, h]; exact hlast)

theorem eq_nil_of_isPrefix_append {w : Text} (hw : allBlank w = true) (hc : isBlank c = false)
    (h : c :: s <+: w ++ t) : w = [] := by
  cases w
  case nil => rfl
  case cons d w =>
    obtain rfl := (List.cons_prefix_cons.mp h).1
    simp [allBlank, hc] at hw

-- What stands in a text behind the same beginning stands there right away, if the text holds no more than it.
theorem isPrefix_of_isInfix {u : Text} (hc : isBlank c = false) (h : c :: u ++ s <:+: c :: u ++ t)
    (hlen : (squeeze t).length ≤ (squeeze s).length) : s <+: t := by
  obtain ⟨a, b, hab⟩ := h
  have hl := congrArg List.length (congrArg squeeze hab)
  simp only [squeeze_append, List.length_append] at hl
  have ha : allBlank a = true := squeeze_eq_nil_iff.mp (List.length_eq_zero_iff.mp (by omega))
  cases a
  case nil =>
    rw [List.nil_append, List.append_assoc, List.append_cancel_left_eq] at hab
    exact ⟨b, hab⟩
  case cons d a =>
    simp only [List.cons_append, List.cons.injEq] at hab
    obtain ⟨rfl, -⟩ := hab
    simp [allBlank, hc] at ha

end Text

namespace Bounds

variable {before stored insertion : Text} {n : Nat}

-- The lines of the prediction stand where its normal form has them.
structure Straight (stored insertion : Text) : Prop where
  -- behind a blank line come only blank lines
  lines : (predictedLines stored insertion).Pairwise fun k l => allBlank k = true → allBlank l = true
  -- no blanks come between the two texts, unless one of them has nothing on the line where they meet
  seam  : allBlank (lastLine stored) = true ∨ allBlank insertion = true ∨
    (∀ c ∈ stored.getLast?, isBlank c = false) ∧ ∀ c ∈ insertion.head?, isBlank c = false

theorem exists_found_iff : (∃ b, judge before stored insertion = .found b) ↔ match? before stored insertion ≠ none := by
  rw [match?]
  cases judge before stored insertion <;> simp [Verdict.bounds?]

theorem exists_found_iff_isInfix (h : continues (normalForm before) stored insertion = true)
    (hn : breaks (normalForm before) = breaks (normalForm stored) + n) :
    (∃ b, judge before stored insertion = .found b) ↔
      ∃ l ∈ (predictedLines stored insertion)[n]?, trim isBlank (lastLine before) <:+: l := by
  have hd : breaks (normalForm before) - breaks (normalForm stored) = n := by omega
  have hm := List.getElem?_eq_getElem (line_lt_length h hn)
  have hl : (predictedLines stored insertion)[n]? = some _ := predictedLines_getElem? hm
  rw [exists_found_iff, match?_ne_none_iff, hd, hm, hl]
  simp only [h, true_and, Option.some.injEq, exists_eq_left', Option.mem_def, and_iff_right_iff_imp]
  omega

theorem map_trimLeft_lines_append (stored insertion : Text) :
    (lines (stored ++ insertion)).map (trimLeft isBlank) =
      (lines stored).dropLast.map (trimLeft isBlank) ++
        (predictedLines stored insertion).map (trimLeft isBlank) := by
  rw [lines_append, lines_predicted, lines_getLast, lines_head, List.map_append, List.map_cons, List.map_cons,
    trimLeft_trimLeft_append]

-- What is typed of its last line begins a line of the prediction in normal form.
theorem exists_line_of_joined (hb : squeeze (lastLine before) ≠ [])
    (h : normalForm before <+: normalForm (stored ++ insertion))
    (hn : breaks (normalForm before) = breaks (normalForm stored) + n) :
    ∃ l, (condense ((predictedLines stored insertion).map (trimLeft isBlank)))[n]? = some l ∧
      lastLine (normalForm before) <+: l := by
  obtain ⟨l, hl, hp⟩ := lines_isPrefix (isPrefix_dropIndents h (getLast?_normalForm_ne hb))
  have hne : (predictedLines stored insertion).map (trimLeft isBlank) ≠ [] := by simp [lines_predicted]
  rw [(lines_dropIndents _).1, map_trimLeft_lines_append, condense_append _ hne, hn, breaks_normalForm_eq stored,
    List.getElem?_append_right (Nat.le_add_right _ _), Nat.add_sub_cancel_left] at hl
  exact ⟨l, hl, hp⟩

-- So it does at the start of a line if the two texts are in normal form each.
theorem exists_line_of_apart (hb : squeeze (lastLine before) ≠ []) (hs : squeeze (lastLine stored) = [])
    (h : normalForm before <+: normalForm stored ++ normalForm insertion)
    (hlen : (normalForm stored).length ≤ (normalForm before).length)
    (hn : breaks (normalForm before) = breaks (normalForm stored) + n) :
    ∃ l, (condense ((predictedLines stored insertion).map (trimLeft isBlank)))[n]? = some l ∧
      lastLine (normalForm before) <+: l := by
  obtain ⟨y, hy⟩ := List.prefix_of_prefix_length_le (List.prefix_append _ _) h hlen
  have hlast : lastLine (normalForm before) = lastLine y := by
    rw [← hy, lastLine_append_of_nil]
    rw [lastLine_normalForm, trim, trimLeft_eq_nil_iff.mpr hs]
    rfl
  have hbreaks : breaks y = n := by
    rw [← hy, breaks, List.count_append, ← breaks] at hn
    exact Nat.add_left_cancel hn
  have hend (c) (hc : c ∈ y.getLast?) : c ≠ '\n' :=
    getLast?_normalForm_ne hb c (hy ▸ mem_getLast?_of_isSuffix (List.suffix_append _ y) hc)
  rw [← hy, List.prefix_append_right_inj] at h
  obtain ⟨l, hl, hp⟩ := lines_isPrefix (isPrefix_dropIndents h hend)
  rw [hbreaks, (lines_dropIndents _).1] at hl
  refine ⟨l, ?_, hlast ▸ hp⟩
  rw [predictedLines, trimLeft_eq_nil_iff.mpr hs]
  exact hl

theorem Straight.joined (h : Straight stored insertion) (hs : squeeze (lastLine stored) ≠ [])
    (ha : normalForm before <+: normalForm stored ++ normalForm insertion) :
    normalForm before <+: normalForm (stored ++ insertion) := by
  rcases h.seam with hb | hb | ⟨he, hh⟩
  case inl => exact absurd (squeeze_eq_nil_iff.mpr hb) hs
  case inr.inl =>
    rw [normalForm_eq_nil hb, List.append_nil] at ha
    exact ha.trans (normalForm_isPrefix_append insertion hs)
  case inr.inr => rwa [normalForm_append hs he hh]

theorem Straight.exists_line (h : Straight stored insertion) (hb : squeeze (lastLine before) ≠ [])
    (hc : continues (normalForm before) stored insertion = true)
    (hn : breaks (normalForm before) = breaks (normalForm stored) + n) :
    ∃ l, (condense ((predictedLines stored insertion).map (trimLeft isBlank)))[n]? = some l ∧
      lastLine (normalForm before) <+: l := by
  obtain ⟨hlen, hj | ha⟩ := isPrefix_of_continues hc
  case inl => exact exists_line_of_joined hb hj hn
  case inr =>
    by_cases hs : squeeze (lastLine stored) = []
    case pos => exact exists_line_of_apart hb hs ha hlen hn
    case neg => exact exists_line_of_joined hb (h.joined hs ha) hn

theorem Straight.exists_found (h : Straight stored insertion)
    (hc : continues (normalForm before) stored insertion = true) : ∃ b, judge before stored insertion = .found b := by
  obtain ⟨n, hn⟩ := Nat.exists_eq_add_of_le (breaks_stored_le hc)
  rw [exists_found_iff_isInfix hc hn]
  by_cases hb : squeeze (lastLine before) = []
  case pos =>
    have hl := List.getElem?_eq_getElem (line_lt_length hc hn)
    rw [trim, trimLeft_eq_nil_iff.mpr hb]
    exact ⟨_, predictedLines_getElem? hl, List.nil_infix⟩
  case neg =>
    obtain ⟨l, hl, hp⟩ := h.exists_line hb hc hn
    have hblank (k : Text) : trimLeft isBlank k = [] ↔ allBlank k = true := by
      rw [trimLeft_eq_nil_iff, squeeze_eq_nil_iff]
    have hlines : ((predictedLines stored insertion).map (trimLeft isBlank)).Pairwise fun k m => k = [] → m = [] := by
      rw [List.pairwise_map]
      simpa only [hblank] using h.lines
    have hne : l ≠ [] := by
      rintro rfl
      rw [List.prefix_nil] at hp
      rw [← squeeze_lastLine_normalForm, hp] at hb
      exact hb rfl
    have := getElem?_of_condense hlines hl hne
    rw [List.getElem?_map, Option.map_eq_some_iff] at this
    obtain ⟨k, hk, rfl⟩ := this
    rw [← lastLine_normalForm]
    exact ⟨k, hk, hp.isInfix.trans (List.dropWhile_suffix _).isInfix⟩

-- What the lines hold when the first few lines of the prediction are typed.
theorem content_append_unlines (stored insertion : Text) (j : Nat) :
    content (lastLine stored ++ unlines ((lines insertion).take (j + 1))) =
      ((predictedLines stored insertion).map squeeze).take (j + 1) := by
  have hm := lineFeed_not_mem_lastLine stored
  have hne : (lines insertion).take (j + 1) ≠ [] := by simp [lines_ne_nil]
  have hl : lines (unlines ((lines insertion).take (j + 1))) = (lines insertion).take (j + 1) :=
    lines_unlines hne fun k hk => lineFeed_not_mem_of_mem_lines (List.mem_of_mem_take hk)
  rw [content_append_onto, content_of_not_mem hm, lastLine_of_not_mem hm, content_predicted, take_onto, content, hl,
    content, List.map_take]
  rfl

-- Typed up to a line that holds something, the prediction is continued, and the line is told by those before it.
theorem exists_typed_through {k : Text} {j : Nat}
    (hk : k ∈ ((predictedLines stored insertion).map squeeze)[j]?) (hne : k ≠ []) :
    ∃ before, continues (normalForm before) stored insertion = true ∧ squeeze (lastLine before) = k ∧
      breaks (normalForm before) = breaks (normalForm stored) +
        ((((predictedLines stored insertion).map squeeze).take j).filter (· ≠ [])).length := by
  have hx := unlines_take_isPrefix (lines insertion) (j + 1)
  have hc := content_append_unlines stored insertion j
  rw [unlines_lines] at hx
  generalize unlines ((lines insertion).take (j + 1)) = x at hx hc
  rw [List.take_add_one, Option.mem_def.mp hk, Option.toList_some] at hc
  have hlast : squeeze (lastLine (stored ++ x)) = k := by
    have := getLast?_content (stored ++ x)
    rw [content_append_lastLine, hc, ← List.append_assoc, List.getLast?_concat] at this
    exact (Option.some.inj this).symm
  have hn := breaks_normalForm_append stored x
  rw [hc, List.dropLast_concat] at hn
  refine ⟨stored ++ x, ?_, hlast, hn⟩
  obtain ⟨rest, rfl⟩ := hx
  apply continues_of_isPrefix
  rw [← List.append_assoc]
  exact normalForm_isPrefix_append rest (hlast ▸ hne)

-- So is it by its first words, typed without any blanks in front of them.
theorem exists_typed_firstWords (hs : squeeze (lastLine stored) ≠ []) (hi : squeeze insertion ≠ []) :
    ∃ before c u, continues (normalForm before) stored insertion = true ∧
      breaks (normalForm before) = breaks (normalForm stored) ∧
      trim isBlank (lastLine before) = trim isBlank (lastLine stored) ++ c :: u ∧ isBlank c = false ∧
      (squeeze (firstLine insertion)).length ≤ (squeeze (c :: u)).length := by
  obtain ⟨c, u, hc, hm, hp, hself, hlen⟩ := exists_firstWords hi
  have hn : normalForm (trimRight isBlank stored ++ c :: u) = normalForm stored ++ c :: u := by
    rw [normalForm_trimRight_append hs (by simp [hc]), hself]
  refine ⟨trimRight isBlank stored ++ c :: u, c, u, ?_, ?_, ?_, hc, hlen⟩
  case refine_1 =>
    have := (List.prefix_append_right_inj (normalForm stored)).mpr hp
    simp [continues, hn, this]
  case refine_2 => rw [hn, breaks, List.count_append, List.count_eq_zero.mpr hm, breaks, Nat.add_zero]
  case refine_3 => rw [← lastLine_normalForm, hn, lastLine_append_of_not_mem _ hm, lastLine_normalForm]

section Found

-- Whatever continues the text the prediction was made for is found.
variable (h : ∀ before, continues (normalForm before) stored insertion = true →
  ∃ b, judge before stored insertion = .found b)
include h

theorem pairwise_of_found :
    (predictedLines stored insertion).Pairwise fun k l => allBlank k = true → allBlank l = true := by
  have hlines : ((predictedLines stored insertion).map squeeze).Pairwise fun k l => k = [] → l = [] := by
    apply pairwise_of_getElem?_filter
    intro j k hk hne
    obtain ⟨before, hc, hlast, hn⟩ := exists_typed_through hk hne
    obtain ⟨l, hl, hi⟩ := (exists_found_iff_isInfix hc hn).mp (h before hc)
    refine ⟨squeeze l, by rw [List.getElem?_map, Option.mem_def.mp hl]; rfl, fun hb => hne ?_⟩
    have hs : squeeze (trim isBlank (lastLine before)) = k := by rw [squeeze_trim_of fun _ => id, hlast]
    have := (hi.sublist.filter fun c => !isBlank c).length_le
    rw [← squeeze, ← squeeze, hb, hs] at this
    exact List.length_eq_zero_iff.mp (Nat.le_zero.mp this)
  rw [List.pairwise_map] at hlines
  simpa only [squeeze_eq_nil_iff] using hlines

theorem seam_of_found :
    allBlank (lastLine stored) = true ∨ allBlank insertion = true ∨
      (∀ c ∈ stored.getLast?, isBlank c = false) ∧ ∀ c ∈ insertion.head?, isBlank c = false := by
  rw [← squeeze_eq_nil_iff, ← squeeze_eq_nil_iff, or_iff_not_imp_left, or_iff_not_imp_left]
  intro hs hi
  obtain ⟨before, c, u, hcont, hn, hlast, hc, hlen⟩ := exists_typed_firstWords hs hi
  obtain ⟨l, hl, hinf⟩ := (exists_found_iff_isInfix hcont (n := 0) hn).mp (h before hcont)
  obtain ⟨w, hw, hwb⟩ := trimRight_append_blanks (trimLeft isBlank (lastLine stored))
  obtain ⟨d, v, hd, hv⟩ := exists_trim_cons hs
  rw [← trim] at hw
  obtain rfl : trim isBlank (lastLine stored) ++ w ++ firstLine insertion = l := by
    simpa [lines_predicted, hw] using hl
  -- the words are found behind what is stored, where only they fit
  have hp : c :: u <+: w ++ firstLine insertion := by
    rw [hlast, hv, List.append_assoc] at hinf
    apply isPrefix_of_isInfix hd hinf
    rwa [squeeze_append, squeeze_eq_nil_iff.mpr hwb, List.nil_append]
  obtain rfl := eq_nil_of_isPrefix_append hwb hc hp
  constructor
  case left  => exact getLast?_of_trim_eq hs (by rw [hw, List.append_nil])
  case right =>
    rw [Option.mem_def.mp (mem_head?_of_isPrefix (hp.trans (List.takeWhile_prefix _)) rfl)]
    rintro _ ⟨⟩
    exact hc

end Found

-- The column is found for every text that continues the one a prediction was made for exactly if the prediction is
-- straight.
theorem forall_found_iff_straight (stored insertion : Text) :
    (∀ before, continues (normalForm before) stored insertion = true →
      ∃ b, judge before stored insertion = .found b) ↔ Straight stored insertion :=
  ⟨fun h => ⟨pairwise_of_found h, seam_of_found h⟩, fun h _ hc => h.exists_found hc⟩

-- The blank where the two texts meet is not typed.
example : judge "x =fo".toList "x = ".toList "foo".toList = .lostColumn := by decide

-- All of a prediction with a blank line is typed.
theorem lostColumn_of_blank_line :
    continues (normalForm "a\n\nb".toList) [] "a\n\nb".toList = true ∧
      judge "a\n\nb".toList [] "a\n\nb".toList = .lostColumn :=
  ⟨by decide, by decide⟩

end Bounds
end GhostText
