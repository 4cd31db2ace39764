import GhostText.Match.Bounds
import GhostText.Proofs.Text.Search

namespace GhostText

open Text

namespace Bounds

variable {before stored insertion typed line middle t : Text} {b : Bounds} {n column e : Nat}

-- The part of the stored text that stands on the line searched for the column.
def known (stored : Text) (line : Nat) : Text :=
  if line = 0 then trimLeft isBlank (lastLine stored) else []

structure Placed (before stored insertion : Text) (b : Bounds) (middle : Text) (e : Nat) : Prop where
  continues : continues (normalForm before) stored insertion = true
  breaks    : breaks (normalForm before) = breaks (normalForm stored) + b.line
  line      : (lines insertion)[b.line]? = some middle
  found     : columnAfter? (trimLeft isBlank (lastLine before)) (known stored b.line ++ middle) = some e
  column    : b.column = e - (known stored b.line).length
  index     : b.index = (flatIndex insertion b.line b.column).toNat

theorem exists_placed_of_match? (h : match? before stored insertion = some b) :
    ∃ middle e, Placed before stored insertion b middle e := by
  simp only [match?, judge] at h
  split at h
  case isTrue => simp [Verdict.bounds?] at h
  case isFalse hc =>
    split at h
    case isTrue => simp [Verdict.bounds?] at h
    case isFalse hl =>
      simp only [locate] at h
      split at h
      case h_1 => simp [Verdict.bounds?] at h
      case h_2 middle hm =>
        split at h
        case h_1 => simp [Verdict.bounds?] at h
        case h_2 e he =>
          obtain rfl := Option.some.inj h
          refine ⟨middle, e, by simpa using hc, ?_, hm, he, rfl, rfl⟩
          dsimp only
          omega

theorem columnAfter?_ne_none_iff : columnAfter? typed line ≠ none ↔ trimRight isBlank typed <:+: line := by
  rw [← find?_ne_none_iff, columnAfter?]
  cases h : find? typed line
  case none   => simp
  case some i =>
    have : trimRight isBlank typed <:+: line :=
      (trimRight_isPrefix typed).isInfix.trans (find?_ne_none_iff.mp (by simp [h]))
    simpa using find?_ne_none_iff.mpr this

-- The line of the text typed so far is looked up by its number in normal form, and what is typed of it has to be there.
theorem match?_ne_none_iff :
    match? before stored insertion ≠ none ↔
      continues (normalForm before) stored insertion = true ∧
      breaks (normalForm stored) ≤ breaks (normalForm before) ∧
      ∃ middle, (lines insertion)[breaks (normalForm before) - breaks (normalForm stored)]? = some middle ∧
        trim isBlank (lastLine before) <:+:
          known stored (breaks (normalForm before) - breaks (normalForm stored)) ++ middle := by
  by_cases hc : continues (normalForm before) stored insertion = true
  case neg => simp [match?, judge, hc, Verdict.bounds?]
  case pos =>
    by_cases hl : breaks (normalForm stored) ≤ breaks (normalForm before)
    case neg =>
      have hl' : (breaks (normalForm before) : Int) - breaks (normalForm stored) < 0 := by omega
      simp [match?, judge, hc, hl, hl', Verdict.bounds?]
    case pos =>
      have hl' : ¬(breaks (normalForm before) : Int) - breaks (normalForm stored) < 0 := by omega
      have hn : ((breaks (normalForm before) : Int) - breaks (normalForm stored)).toNat =
          breaks (normalForm before) - breaks (normalForm stored) := by omega
      simp only [match?, judge, hc, hl, hl', hn, Bool.not_true, Bool.false_eq_true, if_false, true_and, locate, trim]
      cases hm : (lines insertion)[breaks (normalForm before) - breaks (normalForm stored)]?
      case none        => simp [Verdict.bounds?]
      case some middle =>
        simp only [Option.some.injEq, exists_eq_left', ← columnAfter?_ne_none_iff, known]
        split <;> simp [Verdict.bounds?, *]

-- The typed line is found where it first occurs. If it does not occur at all, the blanks at its end do not count.
theorem columnAfter?_eq_some (h : columnAfter? typed line = some e) :
    ∃ sought i, e = i + sought.length ∧ find? sought line = some i ∧
      (sought = typed ∨ find? typed line = none ∧ sought = trimRight isBlank typed) := by
  simp only [columnAfter?] at h
  split at h
  case h_1 i hi => exact ⟨typed, i, (Option.some.inj h).symm, hi, .inl rfl⟩
  case h_2 hn =>
    obtain ⟨i, hi, he⟩ := Option.map_eq_some_iff.mp h
    exact ⟨trimRight isBlank typed, i, he.symm, hi, .inr ⟨hn, rfl⟩⟩

theorem toNat_flatIndex {k : Text} (hn : n < (lines t).length) (hk : k.length = column) :
    (flatIndex t n column).toNat = (unlines ((lines t).take n ++ [k])).length := by
  have hr : Bound.resolve (lines t).length n = min (n : Int).toNat (lines t).length :=
    Bound.resolve_of_nonneg (Int.natCast_nonneg n)
  have ht : (lines t).take n = [] ↔ n = 0 := by simp [List.take_eq_nil_iff, lines_ne_nil]
  rw [length_unlines_concat, flatIndex, Bound.upTo, hr, Int.toNat_natCast, Nat.min_eq_left (Nat.le_of_lt hn), hk]
  simp only [ht]
  split <;> split <;> omega

-- Before a column of a line stand the lines before that line and its first part.
theorem lines_take_flatIndex (h : (lines t)[n]? = some middle) (hc : column ≤ middle.length) :
    lines (t.take (flatIndex t n column).toNat) = (lines t).take n ++ [middle.take column] ∧
      (flatIndex t n column).toNat ≤ t.length := by
  obtain ⟨hn, hm⟩ := List.getElem?_eq_some_iff.mp h
  have hcut : (lines t).take n ++ middle :: (lines t).drop (n + 1) = lines t := by
    rw [← hm, List.getElem_cons_drop, List.take_append_drop]
  have hp : unlines ((lines t).take n ++ [middle.take column]) <+: t := by
    have := unlines_concat_isPrefix ((lines t).take n) ((lines t).drop (n + 1)) (List.take_prefix column middle)
    rwa [hcut, unlines_lines] at this
  rw [toNat_flatIndex hn (List.length_take_of_le hc), ← List.prefix_iff_eq_take.mp hp]
  refine ⟨lines_unlines (by simp) fun k hk => ?_, hp.length_le⟩
  rcases List.mem_append.mp hk with hk | hk
  case inl => exact lineFeed_not_mem_of_mem_lines (List.mem_of_mem_take hk)
  case inr =>
    obtain rfl := List.mem_singleton.mp hk
    exact fun hx => lineFeed_not_mem_of_mem_lines (List.mem_of_getElem? h) (List.mem_of_mem_take hx)

-- What the predicted text holds before a column of a line.
theorem squeeze_take_flatIndex (h : (lines t)[n]? = some middle) (hc : column ≤ middle.length) :
    squeeze (t.take (flatIndex t n column).toNat) =
      ((content t).take n).flatten ++ squeeze (middle.take column) := by
  rw [← flatten_content, content, (lines_take_flatIndex h hc).1, content, List.map_append, List.flatten_append,
    List.map_take]
  simp

-- A prediction applies to the text it was made for, and none of it is typed then.
theorem match?_self (stored insertion : Text) : match? stored stored insertion = some noNewTyping := by
  have hc : continues (normalForm stored) stored insertion = true := by
    simp [continues]
  obtain ⟨line, more, hl⟩ := List.exists_cons_of_ne_nil (lines_ne_nil insertion)
  have hf : find? (trimLeft isBlank (lastLine stored)) (trimLeft isBlank (lastLine stored) ++ line) = some 0 :=
    find?_eq_some_iff.mpr ⟨List.prefix_append _ _, by simp⟩
  have hj : judge stored stored insertion = .found noNewTyping := by
    simp [judge, hc, locate, hl, columnAfter?, hf, flatIndex, Bound.upTo, Bound.resolve, unlines, noNewTyping]
  rw [match?, hj, Verdict.bounds?]

end Bounds
end GhostText
