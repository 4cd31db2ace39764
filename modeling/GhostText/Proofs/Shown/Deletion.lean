import GhostText.Proofs.Shown.Subsequence
import GhostText.Proofs.Text.Search
import GhostText.Shown.Completion
import GhostText.Match.Bounds

namespace GhostText

open Text

variable {t wanted old new : Text} {x : Char}

theorem Text.throughLast_eq_nil_iff : throughLast x t = [] ↔ x ∉ t := by
  rw [← findLast?_eq_none_iff, throughLast]
  cases h : findLast? x t
  case none   => simp
  case some i =>
    have : t ≠ [] := by rintro rfl; simp [findLast?] at h
    simp [this]

namespace Completion

variable {rule : RepeatRule} {p : Prediction} {c : Cursor} {pos : Position} {typed : Int} {last : Char} {e : Text}

theorem Redo.mem_of_eq_through (h : Redo.of old new = .through last) : last ∈ old := by
  simp only [Redo.of] at h
  split at h
  case isTrue => simp at h
  case isFalse =>
    split at h
    case h_2 => simp at h
    case h_1 d hd =>
      obtain rfl : d = last := by simpa using h
      have := (Subsequence.greedy_isPrefix _ _).mem (List.mem_of_getLast? hd)
      exact List.mem_of_mem_filter this

theorem Redo.ne_nil_of_eq_none (h : Redo.of old new = .none) : old ≠ [] := by
  rintro rfl
  have : Subsequence.holds (squeeze new) [] = true := by
    simpa [Subsequence.holds] using List.prefix_nil.mp (Subsequence.greedy_isPrefix (squeeze new) [])
  simp [Redo.of, this] at h

theorem span_redo_isEmpty_iff :
    (redo t p c pos).span.isEmpty = true ↔ Redo.of c.right p.insertText = .wholeLine ∧ pos.column = endOfLine := by
  obtain ⟨line, column⟩ := pos
  simp only [redo]
  cases h : Redo.of c.right p.insertText
  case wholeLine => simp [Span.isEmpty]
  case through last =>
    have : (c.right.throughLast last).length ≠ 0 := by
      simpa [throughLast_eq_nil_iff] using Redo.mem_of_eq_through h
    simp only [Span.isEmpty, Position.mk.injEq, decide_eq_true_eq, reduceCtorEq, false_and, iff_false]
    omega
  case none =>
    have : c.right.length ≠ 0 := by simpa using Redo.ne_nil_of_eq_none h
    simp only [Span.isEmpty, Position.mk.injEq, decide_eq_true_eq, reduceCtorEq, false_and, iff_false]
    omega

theorem text_redo_eq_nil_iff :
    (redo t p c pos).text = [] ↔ t = [] ∨ ∃ last, Redo.of c.right p.insertText = .through last ∧ last ∉ t := by
  simp only [redo]
  cases h : Redo.of c.right p.insertText
  case wholeLine    => simp
  case none         => simp
  case through last =>
    simp only [throughLast_eq_nil_iff, Redo.through.injEq, exists_eq_left']
    constructor
    case mp  => exact .inr
    case mpr => rintro (rfl | h) <;> simp_all

-- Nothing is put in, but something is taken away.
def Deletes (c : Completion) : Prop :=
  c.text = [] ∧ c.span.isEmpty = false

-- Only where the rest of the line is written anew can something be taken away alone: up to a last character if that is
-- not in what is left to show, and else if nothing is left to show. A range that starts where every line ends takes
-- nothing away.
theorem deletes_redoSuffix_only (rule : RepeatRule) (p : Prediction) (c : Cursor) (pos : Position) (typed : Int) :
    (p.kind ≠ .redoSuffix → (of rule p c pos typed).span = .empty pos) ∧
      ((of rule p c pos typed).Deletes ↔ p.kind = .redoSuffix ∧
        match Redo.of c.right p.insertText with
        | .wholeLine    => (Excerpt.of rule p c typed).text = [] ∧ pos.column ≠ endOfLine
        | .through last => last ∉ (Excerpt.of rule p c typed).text
        | .none         => (Excerpt.of rule p c typed).text = []) := by
  by_cases hk : p.kind = .redoSuffix
  case neg =>
    have hs : of rule p c pos typed = { text := _, span := .empty pos, prediction := p.id } := if_neg hk
    simp [hs, hk, Deletes, Span.isEmpty, Span.empty]
  case pos =>
    have hr : of rule p c pos typed = redo (Excerpt.of rule p c typed).text p c pos := if_pos hk
    simp only [hr, hk, ne_eq, not_true_eq_false, false_implies, true_and, Deletes, text_redo_eq_nil_iff,
      ← Bool.not_eq_true, span_redo_isEmpty_iff]
    cases Redo.of c.right p.insertText
    case wholeLine    => simp
    case none         => simp
    case through last =>
      -- nothing is in an empty text
      have hnil : (Excerpt.of rule p c typed).text = [] → last ∉ (Excerpt.of rule p c typed).text := by
        intro h
        simp [h]
      simpa using hnil

def call : Prediction :=
  { id := 0, before := "x = foo(".toList, kind := .redoSuffix, stage := .finished "a);".toList 0 }

-- All of it has been typed, so nothing is put in, and the brackets behind the cursor are taken away.
theorem deletes_of_typed_call :
    Bounds.match? "x = foo(a);".toList call.before call.insertText = some ⟨0, 3, 3⟩ ∧
      (of {} call { before := "x = foo(a);".toList, after := ");".toList } ⟨0, 11⟩ 3).Deletes := by
  have h : of {} call { before := "x = foo(a);".toList, after := ");".toList } ⟨0, 11⟩ 3 =
      { text := [], span := ⟨⟨0, 11⟩, ⟨0, endOfLine⟩⟩, prediction := some 0 } := by decide +kernel
  exact ⟨by decide +kernel, h ▸ ⟨rfl, by decide⟩⟩

end Completion
end GhostText
