import GhostText.Proofs.Shown.Closers
import GhostText.Proofs.Shown.Deletion

namespace GhostText

open Text

namespace Text

variable {s t : Text} {x c : Char}

theorem throughLast_isPrefix (x : Char) (t : Text) : throughLast x t <+: t :=
  List.take_prefix _ _

theorem throughLast_cons_of_mem (c : Char) (h : x ∈ t) : throughLast x (c :: t) = c :: throughLast x t := by
  obtain ⟨i, hi⟩ := Option.ne_none_iff_exists'.mp (findLast?_eq_none_iff.not.mpr (not_not.mpr h))
  simp [throughLast, findLast?, hi]

theorem throughLast_cons_of_not_mem (c : Char) (h : x ∉ t) : throughLast x (c :: t) = if c = x then [c] else [] := by
  rw [← findLast?_eq_none_iff] at h
  by_cases hc : c = x <;> simp [throughLast, findLast?, h, hc]

theorem throughLast_append_of_mem (s : Text) (h : x ∈ t) : throughLast x (s ++ t) = s ++ throughLast x t := by
  induction s
  case nil         => rfl
  case cons c s ih => rw [List.cons_append, throughLast_cons_of_mem c (List.mem_append_right s h), ih, List.cons_append]

theorem throughLast_append_of_not_mem (s : Text) (h : x ∉ t) : throughLast x (s ++ t) = throughLast x s := by
  induction s
  case nil => rw [List.nil_append, throughLast_eq_nil_iff.mpr h]; rfl
  case cons c s ih =>
    rw [List.cons_append]
    by_cases hs : x ∈ s
    case pos => rw [throughLast_cons_of_mem c (List.mem_append_left t hs), throughLast_cons_of_mem c hs, ih]
    case neg =>
      have hst : x ∉ s ++ t := by simp [hs, h]
      rw [throughLast_cons_of_not_mem c hst, throughLast_cons_of_not_mem c hs]

theorem throughLast_eq_self (h : x ∈ t.getLast?) : throughLast x t = t := by
  obtain ⟨s, rfl⟩ := List.getLast?_eq_some_iff.mp h
  rw [throughLast_append_of_mem s (List.mem_singleton_self x), throughLast_cons_of_not_mem x (List.not_mem_nil),
    if_pos rfl]

theorem getLast?_throughLast (h : x ∈ t) : (throughLast x t).getLast? = some x := by
  induction t
  case nil => simp at h
  case cons c t ih =>
    by_cases ht : x ∈ t
    case pos =>
      rw [throughLast_cons_of_mem c ht, List.getLast?_cons, ih ht]
      rfl
    case neg =>
      obtain rfl : x = c := (List.mem_cons.mp h).resolve_right ht
      rw [throughLast_cons_of_not_mem x ht, if_pos rfl]
      rfl

theorem squeeze_throughLast (hx : isBlank x = false) (t : Text) :
    squeeze (throughLast x t) = throughLast x (squeeze t) := by
  have hmem (t : Text) : x ∈ squeeze t ↔ x ∈ t := by simp [squeeze, hx]
  by_cases ht : x ∈ t
  case neg => rw [throughLast_eq_nil_iff.mpr ht, throughLast_eq_nil_iff.mpr ((hmem t).not.mpr ht), squeeze_nil]
  case pos =>
    induction t
    case nil => simp at ht
    case cons c t ih =>
      rw [← List.singleton_append, squeeze_append, List.singleton_append]
      by_cases hm : x ∈ t
      case pos =>
        rw [throughLast_cons_of_mem c hm, throughLast_append_of_mem _ ((hmem t).mpr hm), ← ih hm,
          ← List.singleton_append, squeeze_append]
      case neg =>
        obtain rfl : x = c := (List.mem_cons.mp ht).resolve_right hm
        have hs : squeeze [x] = [x] := by simp [squeeze, hx]
        rw [throughLast_cons_of_not_mem x hm, if_pos rfl, hs,
          throughLast_append_of_not_mem [x] ((hmem t).not.mpr hm)]
        exact (throughLast_eq_self rfl).symm

-- A text that ends with the character is found up to its last occurrence if it is found at all.
theorem sublist_throughLast_iff (h : x ∈ s.getLast?) : s.Sublist (throughLast x t) ↔ s.Sublist t := by
  constructor
  case mp  => exact fun hs => hs.trans (throughLast_isPrefix x t).sublist
  case mpr =>
    intro hs
    obtain ⟨front, rfl⟩ := List.getLast?_eq_some_iff.mp h
    obtain ⟨u, v, rfl, hu, hv⟩ := List.append_sublist_iff.mp hs
    have hv : x ∈ v := List.singleton_sublist.mp hv
    rw [throughLast_append_of_mem u hv]
    exact hu.append (List.singleton_sublist.mpr (List.mem_of_getLast? (getLast?_throughLast hv)))

theorem sublist_squeeze_iff (s t : Text) : (squeeze s).Sublist (squeeze t) ↔ (squeeze s).Sublist t := by
  constructor
  case mp  => exact fun h => h.trans List.filter_sublist
  case mpr =>
    intro h
    simpa [squeeze, List.filter_filter] using h.filter fun c => !isBlank c

end Text

namespace Completion

open Brackets

variable {p : Prediction} {c : Cursor} {last : Char} {before right insertion : Text}

-- The part of the rest of the line that a completion replaces.
def replaced (shown : Completion) (right : Text) : Text :=
  right.take (shown.span.stop.column - shown.span.start.column).toNat

-- The characters of the rest of the line that the predicted text has too, up to the first that it does not have.
def found (right insertion : Text) : Text :=
  Subsequence.greedy (squeeze insertion) (squeeze right)

-- They come before the first bracket that would be cut, and the last of them occurs nowhere behind them in the rest of
-- the line.
structure Regained (before right insertion : Text) : Prop where
  kept : (found right insertion).Sublist (cut (squeeze insertion) before)
  last : ∀ x ∈ (found right insertion).getLast?, x ∉ (squeeze right).drop (found right insertion).length

theorem found_isPrefix (right insertion : Text) : found right insertion <+: squeeze right :=
  Subsequence.greedy_isPrefix _ _

theorem Redo.found_of_wholeLine (h : Redo.of right insertion = .wholeLine) : found right insertion = squeeze right := by
  simp only [Redo.of] at h
  split at h
  case isTrue hs => exact of_decide_eq_true hs
  case isFalse   => split at h <;> simp at h

theorem Redo.getLast?_found (h : Redo.of right insertion = .through last) :
    last ∈ (found right insertion).getLast? := by
  simp only [Redo.of] at h
  split at h
  case isTrue  => simp at h
  case isFalse =>
    split at h
    case h_2      => simp at h
    case h_1 d hd =>
      obtain rfl : d = last := by simpa using h
      exact hd

theorem regained_iff_of_wholeLine (h : Redo.of right insertion = .wholeLine) :
    Regained before right insertion ↔ (squeeze right).Sublist (cut (squeeze insertion) before) := by
  have hf := Redo.found_of_wholeLine h
  constructor
  case mp  => exact fun hr => hf ▸ hr.kept
  case mpr => exact fun hs => ⟨by rwa [hf], by simp [hf]⟩

-- If the character occurs again behind those that are found, more is replaced than the predicted text has.
theorem regained_iff_of_through (h : Redo.of right insertion = .through last) :
    Regained before right insertion ↔
      (throughLast last (squeeze right)).Sublist (cut (squeeze insertion) before) := by
  have hlast := Redo.getLast?_found h
  obtain ⟨rest, hrest⟩ := found_isPrefix right insertion
  have hdrop : (squeeze right).drop (found right insertion).length = rest := by rw [← hrest, List.drop_left]
  by_cases hm : last ∈ rest
  case pos =>
    apply iff_of_false
    case ha => exact fun hr => hr.last last hlast (hdrop ▸ hm)
    case hb =>
      intro hs
      have hcut := hs.trans (balancedPart_isPrefix _ _).sublist
      have hmore := ((Subsequence.isPrefix_greedy_iff (throughLast_isPrefix last _)).mpr hcut).length_le
      have hpos := List.length_pos_of_mem (List.mem_of_getLast? (getLast?_throughLast hm))
      rw [← found, ← hrest, throughLast_append_of_mem _ hm, List.length_append] at hmore
      omega
  case neg =>
    rw [← hrest, throughLast_append_of_not_mem _ hm, throughLast_eq_self hlast]
    refine ⟨Regained.kept, fun hs => ⟨hs, fun x hx => ?_⟩⟩
    obtain rfl : last = x := Option.mem_unique hlast hx
    rwa [hdrop]

theorem squeeze_sublist_excerpt_iff (rule : RepeatRule) (hk : p.kind = .redoSuffix) {s : Text} (hs : s <+: c.right) :
    (squeeze s).Sublist (Excerpt.of rule p c 0).text ↔ (squeeze s).Sublist (cut (squeeze p.insertText) c.before) := by
  cases hr : allBlank c.right
  case true  =>
    have hnil : squeeze s = [] := List.prefix_nil.mp (squeeze_eq_nil_iff.mpr hr ▸ squeeze_isPrefix hs)
    simp [hnil]
  case false =>
    have ht := Excerpt.squeeze_text_redoSuffix rule hk hr 0
    rw [Int.natCast_zero, List.drop_zero] at ht
    rw [← sublist_squeeze_iff, ht, cut]

-- What is replaced is put in again just if all that is found of it is kept, and not more is replaced than is found.
theorem replaced_sublist_text_iff (rule : RepeatRule) (pos : Position) (hk : p.kind = .redoSuffix)
    (hr : Redo.of c.right p.insertText ≠ .none) (hl : pos.column + c.right.length ≤ endOfLine) :
    (squeeze ((of rule p c pos 0).replaced c.right)).Sublist (of rule p c pos 0).text ↔
      Regained c.before c.right p.insertText := by
  have hof : of rule p c pos 0 = redo (Excerpt.of rule p c 0).text p c pos := if_pos hk
  cases hredo : Redo.of c.right p.insertText
  case none      => exact absurd hredo hr
  case wholeLine =>
    have hreplaced : (of rule p c pos 0).replaced c.right = c.right := by
      simp only [hof, redo, hredo, replaced]
      exact List.take_of_length_le (by omega)
    have htext : (of rule p c pos 0).text = (Excerpt.of rule p c 0).text := by simp only [hof, redo, hredo]
    rw [hreplaced, htext, squeeze_sublist_excerpt_iff rule hk (List.prefix_refl _), regained_iff_of_wholeLine hredo]
  case through last =>
    have hreplaced : (of rule p c pos 0).replaced c.right = throughLast last c.right := by
      have hlen (n : Nat) : (pos.column + n - pos.column).toNat = n := by omega
      simp only [hof, redo, hredo, replaced, hlen]
      exact (List.prefix_iff_eq_take.mp (throughLast_isPrefix last _)).symm
    have htext : (of rule p c pos 0).text = throughLast last (Excerpt.of rule p c 0).text := by
      simp only [hof, redo, hredo]
    have hlast : last ∈ squeeze c.right :=
      (found_isPrefix _ _).mem (List.mem_of_getLast? (Redo.getLast?_found hredo))
    have hsqueeze : squeeze (throughLast last c.right) = throughLast last (squeeze c.right) :=
      squeeze_throughLast (by simpa using List.of_mem_filter hlast) c.right
    rw [hreplaced, htext, sublist_throughLast_iff (by rw [hsqueeze, getLast?_throughLast hlast]; rfl),
      squeeze_sublist_excerpt_iff rule hk (throughLast_isPrefix last _), hsqueeze, regained_iff_of_through hredo]

-- Only the bracket is found, so the semicolon is left where it is.
def bracket : Prediction :=
  { id := 0, before := "x = foo(".toList, kind := .redoSuffix, stage := .finished "a, b)".toList 0 }

theorem replaced_sublist_text_iff_bracket :
    let c : Cursor := { before := bracket.before, after := ");".toList }
    let shown := of {} bracket c ⟨0, 8⟩ 0
    bracket.kind = .redoSuffix ∧ Redo.of c.right bracket.insertText ≠ .none ∧ 8 + (c.right.length : Int) ≤ endOfLine ∧
      shown.replaced c.right = ")".toList ∧ (squeeze (shown.replaced c.right)).Sublist shown.text := by
  intro c shown
  have hk : bracket.kind = .redoSuffix := rfl
  have hr : Redo.of c.right bracket.insertText ≠ .none := by decide
  have hl : (8 : Int) + c.right.length ≤ endOfLine := by decide
  have hlast : (found c.right bracket.insertText).getLast? = some ')' := by decide
  have hg : Regained c.before c.right bracket.insertText := by
    refine ⟨by decide, fun x hx => ?_⟩
    obtain rfl : ')' = x := Option.some.inj (hlast.symm.trans hx)
    decide
  exact ⟨hk, hr, hl, by decide +kernel, (replaced_sublist_text_iff {} ⟨0, 8⟩ hk hr hl).mpr hg⟩

-- A bracket too many is cut off with the semicolon behind it, and the whole line is replaced all the same.
def surplus : Prediction :=
  { id := 0, before := "x = foo(".toList, kind := .redoSuffix, stage := .finished "a));".toList 0 }

-- Two brackets are replaced by one.
def shortened : Prediction :=
  { id := 0, before := "f((a".toList, kind := .redoSuffix, stage := .finished "b);".toList 0 }

theorem not_replaced_sublist_text :
    let c : Cursor := { before := surplus.before, after := ");".toList }
    let d : Cursor := { before := shortened.before, after := "));".toList }
    (Redo.of c.right surplus.insertText = .wholeLine ∧
      ¬(squeeze ((of {} surplus c ⟨0, 8⟩ 0).replaced c.right)).Sublist (of {} surplus c ⟨0, 8⟩ 0).text) ∧
    Redo.of d.right shortened.insertText = .through ')' ∧
      ¬(squeeze ((of {} shortened d ⟨0, 4⟩ 0).replaced d.right)).Sublist (of {} shortened d ⟨0, 4⟩ 0).text := by
  decide +kernel

end Completion
end GhostText
