import GhostText.Proofs.Shown.Edges
import GhostText.Proofs.Text.Longest
import GhostText.Shown.Completion

namespace GhostText

open Text

namespace Brackets

variable {s t w before : Text} {stack : List Char}

theorem balancedPart_balancedPart (stack : List Char) (t : Text) :
    balancedPart stack (balancedPart stack t) = balancedPart stack t := by
  induction t generalizing stack
  case nil => rfl
  case cons c t ih =>
    cases balancedPart_cons stack c
    case inl h => rw [h]; rfl
    case inr h => rw [h, h, ih]

theorem balancedPart_eq_self_iff :
    balancedPart stack t = t ↔ ∀ s c u, t = s ++ c :: u → Matches (s.foldl read stack) c := by
  induction t generalizing stack
  case nil => simp [balancedPart]
  case cons d t ih =>
    by_cases h : Matches stack d
    case neg =>
      rw [balancedPart_cons_of_not_matches h]
      exact iff_of_false (by simp) fun hall => h (hall [] d t rfl)
    case pos =>
      rw [balancedPart_cons_of_matches h, List.cons.injEq, ih]
      constructor
      case mp =>
        rintro ⟨-, hall⟩ s c u he
        cases s
        case nil      => obtain ⟨rfl, rfl⟩ := List.cons.inj he; exact h
        case cons e s => obtain ⟨rfl, rfl⟩ := List.cons.inj he; exact hall s c u rfl
      case mpr => exact fun hall => ⟨rfl, fun s c u he => hall (d :: s) c u (by rw [he, List.cons_append])⟩

theorem balancedPart_of_isPrefix (hs : s <+: t) (ht : balancedPart stack t = t) : balancedPart stack s = s := by
  obtain ⟨r, rfl⟩ := hs
  rw [balancedPart_eq_self_iff] at ht ⊢
  exact fun a c u he => ht a c (u ++ r) (by rw [he, List.append_assoc, List.cons_append])

theorem balancedPart_mono (hs : s <+: t) (stack : List Char) : balancedPart stack s <+: balancedPart stack t := by
  obtain ⟨r, rfl⟩ := hs
  induction s generalizing stack
  case nil => exact List.nil_prefix
  case cons c s ih =>
    rw [List.cons_append]
    cases balancedPart_cons stack c
    case inl h => rw [h, h]
    case inr h => rw [h, h]; exact List.cons_prefix_cons.mpr ⟨rfl, ih _⟩

-- Blanks around a text close nothing.
theorem balancedPart_append_of_blank (h : allBlank w = true) (stack : List Char) (t : Text) :
    balancedPart stack (w ++ t) = w ++ balancedPart stack t := by
  induction w
  case nil => rfl
  case cons c w ih =>
    have hw : isBlank c = true ∧ allBlank w = true := by simpa [allBlank] using h
    rw [List.cons_append, balancedPart_cons_of_isBlank hw.1, ih hw.2, List.cons_append]

theorem balancedPart_append_blank (hs : balancedPart stack s = s) (h : allBlank w = true) :
    balancedPart stack (s ++ w) = s ++ w := by
  have hp : s <+: balancedPart stack (s ++ w) := by
    conv => lhs; rw [← hs]
    exact balancedPart_mono (List.prefix_append s w) stack
  have hw := balancedPart_append_of_blank h (s.foldl read stack) []
  rw [List.append_nil] at hw
  rw [balancedPart_append hp, hw, balancedPart, List.append_nil]

theorem balancedPart_append_of_ne (h : balancedPart stack s ≠ s) (t : Text) :
    balancedPart stack (s ++ t) = balancedPart stack s := by
  induction s generalizing stack
  case nil => exact absurd rfl h
  case cons c s ih =>
    rw [List.cons_append]
    cases balancedPart_cons stack c
    case inl hc => rw [hc, hc]
    case inr hc =>
      rw [hc] at h
      rw [hc, hc, ih fun hs => h (by rw [hs])]

-- Each closer of the text closes the innermost opener that the text before it leaves open.
def ClosesOpen (before t : Text) : Prop :=
  ∀ s c u, t = s ++ c :: u → Matches (openers (before ++ s)) c

theorem cut_eq_self_iff : cut t before = t ↔ ClosesOpen before t := by
  simp only [cut, balancedPart_eq_self_iff, ClosesOpen, openers, List.foldl_append]

theorem isPrefix_cut_of_closesOpen (hs : s <+: t) (h : ClosesOpen before s) : s <+: cut t before := by
  conv => lhs; rw [← cut_eq_self_iff.mpr h]
  exact balancedPart_mono hs _

theorem longestPart_cut (before t : Text) : LongestPart (ClosesOpen before) (cut t before) t where
  isPrefix := balancedPart_isPrefix _ t
  holds    := cut_eq_self_iff.mp (balancedPart_balancedPart _ t)
  longest  := fun _ hs h => isPrefix_cut_of_closesOpen hs h

-- A piece that is kept whole leaves open what the cut of the next one starts from, as if it stood before the cursor.
theorem cut_append_of_eq (h : cut s before = s) (t : Text) : cut (s ++ t) before = s ++ cut t (before ++ s) := by
  have hs : s <+: cut (s ++ t) before := isPrefix_cut_of_closesOpen (List.prefix_append s t) (cut_eq_self_iff.mp h)
  rw [cut, balancedPart_append hs, cut, openers, openers, List.foldl_append]

-- The cut leaves all of a text up to the first closer that closes nothing. Of a text that comes in two pieces it leaves
-- what it leaves of the first, and what it leaves of the second behind the first if that is kept whole.
theorem longest_cut_append (before s t : Text) :
    LongestPart (ClosesOpen before) (cut s before) s ∧
      cut (s ++ t) before = if cut s before = s then s ++ cut t (before ++ s) else cut s before := by
  refine ⟨longestPart_cut before s, ?_⟩
  split
  case isTrue h  => exact cut_append_of_eq h t
  case isFalse h => exact balancedPart_append_of_ne h t

-- A closer before the cursor that matches nothing leaves the bracket open, one behind it ends the text.
example : cut "a])b".toList "f([)".toList = "a])b".toList ∧ cut "a)b".toList "f([".toList = "a".toList := by decide

end Brackets

open Brackets

namespace Excerpt

variable {before t gap core rest lead trail : Text} {keepTrailing : Bool}

theorem Edges.cut_eq_self (h : Edges keepTrailing t gap core rest lead trail) (ht : cut t before = t) :
    cut (edgeSpaces keepTrailing t) before = edgeSpaces keepTrailing t := by
  have hlead : allBlank lead = true := by rcases h.lead with ⟨rfl, -⟩ | ⟨rfl, -⟩ <;> decide
  have htrail : allBlank trail = true := by rcases h.trail with rfl | ⟨rfl, -⟩ <;> decide
  have hcore : balancedPart (openers before) core = core := by
    have := balancedPart_of_isPrefix ⟨rest, h.text⟩ ht
    rw [balancedPart_append_of_blank h.gapBlank.allBlank] at this
    exact List.append_cancel_left this
  rw [cut, h.shown, List.append_assoc, balancedPart_append_of_blank hlead, balancedPart_append_blank hcore htrail]

theorem cut_text (rule : RepeatRule) (p : Prediction) (c : Cursor) (typed : Int) :
    cut (of rule p c typed).text c.before = (of rule p c typed).text := by
  obtain ⟨gap, core, rest, lead, trail, he⟩ :=
    exists_edges (!allBlank c.right && p.kind ≠ .redoSuffix) (cut (kept rule p c typed) c.before)
  rw [text_of]
  exact he.cut_eq_self (balancedPart_balancedPart _ _)

end Excerpt

namespace Completion

-- Where the rest of the line is written anew, the text may be cut once more.
theorem text_isPrefix (rule : RepeatRule) (p : Prediction) (c : Cursor) (pos : Position) (typed : Int) :
    (of rule p c pos typed).text <+: (Excerpt.of rule p c typed).text := by
  simp only [of, ofExcerpt, redo]
  split
  case isFalse => exact List.prefix_rfl
  case isTrue  =>
    split
    case h_1 => exact List.prefix_rfl
    case h_2 => exact List.take_prefix _ _
    case h_3 => exact List.prefix_rfl

-- What is put in is balanced behind the text before the cursor, so that nothing of it would be cut.
theorem closesOpen_text (rule : RepeatRule) (p : Prediction) (c : Cursor) (pos : Position) (typed : Int) :
    cut (of rule p c pos typed).text c.before = (of rule p c pos typed).text ∧
      ClosesOpen c.before (of rule p c pos typed).text := by
  have h : cut (of rule p c pos typed).text c.before = (of rule p c pos typed).text :=
    balancedPart_of_isPrefix (text_isPrefix ..) (Excerpt.cut_text ..)
  exact ⟨h, cut_eq_self_iff.mp h⟩

end Completion
end GhostText
