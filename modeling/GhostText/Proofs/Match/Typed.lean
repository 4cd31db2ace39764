import GhostText.Prediction.Basic
import GhostText.Proofs.Match.Placement
import GhostText.Proofs.Text.Ending

namespace GhostText

open Text

namespace Text

variable {needle t x line : Text}

theorem trimLeft_trimLeft_append (s t : Text) :
    trimLeft isBlank (trimLeft isBlank s ++ t) = trimLeft isBlank (s ++ t) := by
  by_cases hs : squeeze s = []
  case pos => rw [trimLeft_append_of_blank t hs, trimLeft_append_of_blank t (by rwa [squeeze_trimLeft])]
  case neg =>
    rw [trimLeft_append t hs, trimLeft_append t (by rwa [squeeze_trimLeft]), trimLeft_trimLeft fun _ => id]

theorem allBlank_append (s t : Text) : allBlank (s ++ t) = (allBlank s && allBlank t) :=
  List.all_append ..

theorem allBlank_trimLeft (t : Text) : allBlank (trimLeft isBlank t) = allBlank t := by
  rw [Bool.eq_iff_iff, ← squeeze_eq_nil_iff, squeeze_trimLeft, squeeze_eq_nil_iff]

theorem find?_eq_zero_of_isPrefix (h : needle <+: t) : find? needle t = some 0 :=
  find?_eq_some_iff.mpr ⟨by simpa using h, by simp⟩

-- What begins a line is found behind its indentation, and not before.
theorem find?_append_of_blank {w : Text} (hw : allBlank w = true) (hn : ∃ d ∈ needle.head?, isBlank d = false)
    (r : Text) : find? needle (w ++ (needle ++ r)) = some w.length := by
  induction w
  case nil           => exact find?_eq_zero_of_isPrefix (List.prefix_append _ _)
  case cons c w ih =>
    have hc : isBlank c = true ∧ allBlank w = true := by simpa [allBlank] using hw
    obtain ⟨d, hd, hb⟩ := hn
    have hp : ¬needle <+: c :: (w ++ (needle ++ r)) := by
      intro hp
      obtain rfl : c = d := by simpa using mem_head?_of_isPrefix hp hd
      simp [hc.1] at hb
    rw [List.cons_append, find?, if_neg (by simpa using hp), ih hc.2]
    rfl

end Text

namespace Bounds

variable {before stored insertion typed line x : Text}

theorem columnAfter?_of_isPrefix (h : x <+: line) :
    columnAfter? (trimLeft isBlank x) line = some (if allBlank x then 0 else x.length) := by
  split
  case isTrue hb =>
    have : trimLeft isBlank x = [] := by simpa [trimLeft, allBlank] using hb
    rw [this, columnAfter?, find?_eq_zero_of_isPrefix List.nil_prefix]
    rfl
  case isFalse hb =>
    obtain ⟨r, rfl⟩ := h
    have hw : x.takeWhile isBlank ++ trimLeft isBlank x = x := List.takeWhile_append_dropWhile
    have hall := allBlank_takeWhile x
    have hn : ∃ d ∈ (trimLeft isBlank x).head?, isBlank d = false := by
      obtain ⟨d, more, hd⟩ : ∃ d more, trimLeft isBlank x = d :: more := by
        apply List.exists_cons_of_ne_nil
        intro he
        rw [he, List.append_nil] at hw
        exact hb (hw ▸ hall)
      exact ⟨d, by simp [hd], head?_trimLeft x d (by simp [hd])⟩
    have hf := find?_append_of_blank hall hn r
    rw [← List.append_assoc, hw] at hf
    have hlen := congrArg List.length hw
    rw [List.length_append] at hlen
    simp only [columnAfter?, hf, hlen]

theorem continues_of_isPrefix (h : normalForm (stored ++ x) <+: normalForm (stored ++ insertion)) :
    continues (normalForm (stored ++ x)) stored insertion = true := by
  simp [continues, length_normalForm_le_append, h]

-- A prediction still applies while its first line is typed, and what is typed of it is found where it is.
theorem match?_append_of_isPrefix (hx : x <+: insertion) (hm : '\n' ∉ x) :
    match? (stored ++ x) stored insertion =
      let n := if allBlank (lastLine stored) && allBlank x then 0 else x.length
      some ⟨0, n, n⟩ := by
  obtain ⟨rest, rfl⟩ := hx
  have hl := lastLine_append_of_not_mem stored hm
  have hc : continues (normalForm (stored ++ x)) stored (x ++ rest) = true := by
    by_cases hb : squeeze (lastLine (stored ++ x)) = []
    case neg =>
      apply continues_of_isPrefix
      rw [← List.append_assoc]
      exact normalForm_isPrefix_append rest hb
    case pos =>
      rw [hl, squeeze_append, List.append_eq_nil_iff, squeeze_eq_nil_iff, squeeze_eq_nil_iff] at hb
      rw [normalForm_append_of_blank stored hb.2 hm]
      simp [continues]
  have hbreaks : breaks (normalForm (stored ++ x)) = breaks (normalForm stored) := by
    have hx : '\n' ∉ lastLine stored ++ x := by simp [hm, lineFeed_not_mem_lastLine]
    rw [breaks_normalForm, breaks_normalForm, content_append_lastLine, content_of_not_mem hx, List.dropLast_concat]
  have hfirst : x <+: firstLine (x ++ rest) := by
    have hp : ∀ c ∈ x, decide (c ≠ '\n') = true := fun c hc => by simpa using fun he : c = '\n' => hm (he ▸ hc)
    rw [firstLine, List.takeWhile_append_of_pos hp]
    exact List.prefix_append _ _
  -- the line that is searched begins with what is typed of it, and with what was there before
  have hcol := columnAfter?_of_isPrefix ((List.prefix_append_right_inj (trimLeft isBlank (lastLine stored))).mpr hfirst)
  rw [trimLeft_trimLeft_append, ← hl, allBlank_append, allBlank_trimLeft] at hcol
  obtain ⟨line, more, hlines⟩ := List.exists_cons_of_ne_nil (lines_ne_nil (x ++ rest))
  obtain rfl : line = firstLine (x ++ rest) := by rw [← lines_head]; simp [hlines]
  have hj : judge (stored ++ x) stored (x ++ rest) = locate (stored ++ x) stored (x ++ rest) 0 := by
    simp [judge, hc, hbreaks]
  rw [match?, hj]
  simp only [locate, hlines, List.getElem?_cons_zero, if_true, hcol]
  split <;> simp [Verdict.bounds?, flatIndex, Bound.upTo, Bound.resolve, unlines]

-- A line that is predicted is typed character by character. Indentation behind indentation does not count as typed.
theorem match?_typed_line {p : Prediction} {text : Text} {time : Int} (hp : p.stage = .finished text time)
    (hl : '\n' ∉ text) {k : Nat} (hk : k ≤ text.length) :
    match? (p.before ++ text.take k) p.before p.insertText =
      let n := if allBlank (lastLine p.before) && allBlank (text.take k) then 0 else k
      some ⟨0, n, n⟩ := by
  have hi : p.insertText = text := by simp [Prediction.insertText, hp]
  have hm : '\n' ∉ text.take k := fun h => hl (List.mem_of_mem_take h)
  rw [hi, match?_append_of_isPrefix (List.take_prefix k text) hm, List.length_take_of_le hk]

-- The letters typed stand twice in the prediction, and blanks end the line before.
def repeating : Prediction :=
  { id := 0, before := "x = 1; \n  ".toList, kind := .fillLine, stage := .finished "  ab = ab".toList 0 }

theorem match?_typed_line_repeating :
    repeating.stage = .finished "  ab = ab".toList 0 ∧ '\n' ∉ "  ab = ab".toList ∧ 8 ≤ "  ab = ab".toList.length ∧
      match? (repeating.before ++ "  ab = a".toList) repeating.before repeating.insertText = some ⟨0, 8, 8⟩ := by
  have hl : '\n' ∉ "  ab = ab".toList := by decide
  have hk : 8 ≤ "  ab = ab".toList.length := by decide
  have hm := match?_typed_line (p := repeating) rfl hl hk
  exact ⟨rfl, hl, hk, hm.trans (by decide +kernel)⟩

-- A line, and what is typed from there on, in which the normal form leaves out nothing that the place of the cursor
-- depends on.
structure Tidy (t : Text) : Prop where
  -- as soon as the line of the cursor holds something, no line before it is blank
  lines : allBlank (lastLine t) = false → ∀ l ∈ (Text.lines t).dropLast, allBlank l = false
  -- the line feed that ends the last line that holds something stands right behind it
  ends  : allBlank t = true ∨ trimEnd t <+: t

theorem breaks_normalForm_append (stored x : Text) :
    breaks (normalForm (stored ++ x)) = breaks (normalForm stored) +
      ((content (lastLine stored ++ x)).dropLast.filter (· ≠ [])).length := by
  rw [breaks_normalForm, breaks_normalForm, content_append_lastLine,
    List.dropLast_append_of_ne_nil (content_ne_nil _), List.filter_append, List.length_append]

theorem continues_of_tidy (hx : x <+: insertion) (ht : Tidy (lastLine stored ++ x)) :
    continues (normalForm (stored ++ x)) stored insertion = true := by
  obtain ⟨rest, rfl⟩ := hx
  by_cases hb : allBlank (lastLine stored ++ x) = true
  case pos =>
    rw [allBlank_append, Bool.and_eq_true, ← squeeze_eq_nil_iff] at hb
    rw [normalForm_append_of_indent hb.1 hb.2]
    simp [continues]
  case neg =>
    apply continues_of_isPrefix
    rw [← List.append_assoc]
    apply normalForm_isPrefix_append_of_trimEnd
    obtain ⟨front, hfront⟩ := lastLine_isSuffix stored
    have hs : stored ++ x = front ++ (lastLine stored ++ x) := by rw [← List.append_assoc, hfront]
    rw [hs, trimEnd_append front (mt squeeze_eq_nil_iff.mp hb)]
    exact (List.prefix_append_right_inj front).mpr (ht.ends.resolve_left hb)

-- A prediction still applies while more than its first line is typed, if what is typed is tidy.
theorem match?_ne_none_of_tidy (hx : x <+: insertion) (ht : Tidy (lastLine stored ++ x)) :
    match? (stored ++ x) stored insertion ≠ none := by
  by_cases hm : '\n' ∈ x
  case neg => simp [match?_append_of_isPrefix hx hm]
  case pos =>
    have hc := continues_of_tidy hx ht
    have hlast : lastLine (lastLine stored ++ x) = lastLine x := lastLine_append_of_mem _ hm
    have hbreaks : breaks (lastLine stored ++ x) = breaks x := by
      rw [breaks, List.count_append, List.count_eq_zero.mpr (lineFeed_not_mem_lastLine stored), Nat.zero_add, breaks]
    have hlen : (content (lastLine stored ++ x)).dropLast.length = breaks x := by
      rw [List.length_dropLast, content, List.length_map, length_lines, hbreaks, Nat.add_sub_cancel]
    obtain ⟨rest, rfl⟩ := hx
    have hnum := breaks_normalForm_append stored x
    refine match?_ne_none_iff.mpr ⟨hc, by omega, ?_⟩
    rw [hnum, Nat.add_sub_cancel_left, lastLine_append_of_mem _ hm]
    by_cases hb : allBlank (lastLine x) = true
    case pos =>
      have hlt : ((content (lastLine stored ++ x)).dropLast.filter (· ≠ [])).length < (lines (x ++ rest)).length := by
        have := List.length_filter_le (· ≠ []) (content (lastLine stored ++ x)).dropLast
        rw [length_lines, breaks, List.count_append]
        rw [hlen, breaks] at this
        omega
      refine ⟨_, List.getElem?_eq_getElem hlt, ?_⟩
      have : trimLeft isBlank (lastLine x) = [] := by simpa [trimLeft, allBlank] using hb
      rw [trim, this]
      exact List.nil_infix
    case neg =>
      have hall : (content (lastLine stored ++ x)).dropLast.filter (· ≠ []) =
          (content (lastLine stored ++ x)).dropLast := by
        have hlines := ht.lines (by simpa [hlast] using hb)
        simp only [content, ← List.map_dropLast, List.filter_eq_self, List.forall_mem_map, decide_eq_true_eq]
        exact fun l hl => mt squeeze_eq_nil_iff.mp (by simp [hlines l hl])
      rw [hall, hlen]
      refine ⟨_, getElem?_lines_append x rest, ?_⟩
      have : trim isBlank (lastLine x) <:+: lastLine x :=
        (trimRight_isPrefix _).isInfix.trans (List.dropWhile_suffix _).isInfix
      exact this.trans ⟨_, _, (List.append_assoc ..)⟩

end Bounds
end GhostText
