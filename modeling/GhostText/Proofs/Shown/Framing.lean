import GhostText.Proofs.Match.Gaps
import GhostText.Proofs.Shown.Deletion
import GhostText.Proofs.Shown.Edges

namespace GhostText

open Text

variable {left insertion shown gap lead core trail t u w : Text}

namespace Bounds

theorem Framed.mono (h : Framed left t shown gap lead core trail) (hp : t <+: u) :
    Framed left u shown gap lead core trail :=
  { h with insertion := h.insertion.trans hp }

-- Further blanks in front can be left out behind a blank.
theorem Framed.behind_append (h : Framed left t shown gap lead core trail) (hw : OnlySpaces w)
    (hb : w = [] ∨ ∃ c ∈ left.getLast?, isSpaceOrTab c = true) :
    Framed left (w ++ t) shown (w ++ gap) lead core trail where
  shown      := h.shown
  insertion  := by rw [List.append_assoc, List.prefix_append_right_inj]; exact h.insertion
  gapBlank   := fun c hc => (List.mem_append.mp hc).elim (hw c) (h.gapBlank c)
  leadBlank  := h.leadBlank
  trailBlank := h.trailBlank
  edge       := h.edge
  behind     := by
    rcases hb with rfl | hb
    case inl => exact h.behind
    case inr => exact .inr (.inr hb)

end Bounds

open Bounds

namespace Excerpt

variable {rule : RepeatRule} {p : Prediction} {c : Cursor} {text : Text}

-- Collapsing the edges leaves no blanks out but for those in the place of which a space stands.
theorem Edges.framed {keepTrailing : Bool} {rest : Text} (h : Edges keepTrailing t gap core rest lead trail)
    (left : Text) : Framed left t (edgeSpaces keepTrailing t) gap lead core trail where
  shown      := by rw [h.shown, List.append_assoc]
  insertion  := ⟨rest, h.text⟩
  gapBlank   := h.gapBlank
  leadBlank  := by rcases h.lead with ⟨rfl, -⟩ | ⟨rfl, -⟩ <;> simp [OnlySpaces, isSpaceOrTab]
  trailBlank := by rcases h.trail with rfl | ⟨rfl, -⟩ <;> simp [OnlySpaces, isSpaceOrTab]
  edge       := h.head
  behind     := h.lead.imp (fun ⟨hl, hg⟩ => hl.trans hg.symm) fun ⟨hl, _⟩ => .inl (by simp [hl])

-- As long as no line break is skipped, only spaces and tabs are, and those only behind another.
theorem exists_firstIndex (c : Cursor) (h : '\n' ∉ text.take (firstIndex c text 0).toNat) :
    ∃ m : Nat, firstIndex c text 0 = m ∧ OnlySpaces (text.take m) ∧
      (text.take m = [] ∨ ∃ d ∈ c.left.getLast?, isSpaceOrTab d = true) := by
  obtain ⟨w, hm, hw⟩ := exists_skipTypedSpace c.left text 0
  have hf : firstIndex c text 0 = (0 + w.length : Nat) := by
    rw [firstIndex, ← Int.natCast_zero, hm] at h ⊢
    exact skipBlankLines_of_not_mem c h
  refine ⟨_, hf, ?_⟩
  rw [Nat.zero_add]
  rcases hw with rfl | ⟨rfl, hl⟩
  case inl => simp [OnlySpaces]
  case inr =>
    rw [List.drop_zero, ← List.prefix_iff_eq_take.mp (List.takeWhile_prefix _)]
    exact ⟨fun d hd => List.mem_takeWhile_imp hd, .inr hl⟩

-- What is shown of a prediction no part of which is typed yet.
theorem exists_framed (rule : RepeatRule) (p : Prediction) (c : Cursor)
    (h : '\n' ∉ p.insertText.take (firstIndex c p.insertText 0).toNat) :
    ∃ gap lead core trail, Framed c.left p.insertText (of rule p c 0).text gap lead core trail := by
  obtain ⟨m, hm, hspaces, hl⟩ := exists_firstIndex c h
  have hk := kept_isPrefix rule p c 0
  rw [hm, since_natCast] at hk
  have hcut : Brackets.cut (kept rule p c 0) c.before <+: p.insertText.drop m :=
    (Brackets.balancedPart_isPrefix _ _).trans hk
  obtain ⟨gap, core, rest, lead, trail, he⟩ :=
    exists_edges (!allBlank c.right && p.kind ≠ .redoSuffix) (Brackets.cut (kept rule p c 0) c.before)
  have := ((he.framed c.left).mono hcut).behind_append hspaces hl
  rw [List.take_append_drop] at this
  exact ⟨_, _, _, _, text_of rule p c 0 ▸ this⟩

end Excerpt

namespace Completion

variable {rule : RepeatRule} {p : Prediction} {c : Cursor} {pos : Position} {typed : Int} {after : Text}

theorem prediction_of (rule : RepeatRule) (p : Prediction) (c : Cursor) (pos : Position) (typed : Int) :
    (of rule p c pos typed).prediction = some p.id := by
  simp only [of, ofExcerpt, redo]
  split
  case isFalse => rfl
  case isTrue  => cases Redo.of c.right p.insertText <;> rfl

-- All of the text is shown if nothing of the line is replaced.
theorem text_of_span_isEmpty (h : (of rule p c pos typed).span.isEmpty = true) :
    (of rule p c pos typed).text = (Excerpt.of rule p c typed).text := by
  by_cases hk : p.kind = .redoSuffix
  case neg => simp [of, ofExcerpt, hk]
  case pos =>
    simp only [of, ofExcerpt, hk, if_true, span_redo_isEmpty_iff] at h ⊢
    simp [redo, h.1]

-- What is first shown of a prediction: no part of it is typed yet.
def first (rule : RepeatRule) (p : Prediction) (after : Text) (pos : Position) : Completion :=
  of rule p { before := p.before, after } pos 0

-- The part of the prediction that is left out in front then.
def leftOut (p : Prediction) (after : Text) : Text :=
  p.insertText.take (Excerpt.firstIndex { before := p.before, after } p.insertText 0).toNat

-- A prediction still applies while what is shown of it is typed, unless the line of the cursor holds something already
-- and other blanks are typed there than the predicted ones.
theorem match?_first_ne_none_iff (hs : (first rule p after pos).span.isEmpty = true) (hn : '\n' ∉ leftOut p after)
    {k : Nat} (ht : Tidy (lastLine p.before ++ (first rule p after pos).text.take k)) :
    match? (p.before ++ (first rule p after pos).text.take k) p.before p.insertText ≠ none ↔
      allBlank (lastLine p.before) = true ∨
        trimRight isBlank ((first rule p after pos).text.take k) <+: p.insertText := by
  obtain ⟨gap, lead, core, trail, hf⟩ := Excerpt.exists_framed rule p { before := p.before, after } hn
  rw [first, text_of_span_isEmpty hs] at ht ⊢
  exact match?_ne_none_iff_of_framed hf (List.take_prefix _ _) ht

-- A function with its body, of which more than the first line is typed.
def body : Prediction :=
  { id := 0, before := "def f(x):\n ".toList, kind := .fillLine, stage := .finished "    y = x\n    return y".toList 0 }

theorem match?_first_ne_none_body :
    (first {} body [] ⟨1, 1⟩).span.isEmpty = true ∧ '\n' ∉ leftOut body [] ∧
      (first {} body [] ⟨1, 1⟩).text = "y = x\n    return y".toList ∧
      match? (body.before ++ "y = x\n    ret".toList) body.before body.insertText ≠ none := by
  have hs : (first {} body [] ⟨1, 1⟩).span.isEmpty = true := by decide +kernel
  have hn : '\n' ∉ leftOut body [] := by decide +kernel
  have hr : (first {} body [] ⟨1, 1⟩).text = "y = x\n    return y".toList := by decide +kernel
  have ht : Tidy (lastLine body.before ++ (first {} body [] ⟨1, 1⟩).text.take 13) := by
    rw [hr]
    exact ⟨by decide +kernel, .inr (by decide +kernel)⟩
  have hm := (match?_first_ne_none_iff hs hn ht).mpr (.inl (by decide))
  rw [hr] at hm
  exact ⟨hs, hn, hr, hm⟩

-- The space in front of the prediction is left out behind the one that is typed already. Then it does not apply as soon
-- as the next character is typed.
def spaced : Prediction :=
  { id := 0, before := "x = ".toList, kind := .fillLine, stage := .finished " foo".toList 0 }

theorem not_forall_match?_first :
    ¬∀ (rule : RepeatRule) (p : Prediction) (text : Text) (time : Int) (after : Text) (pos : Position) (k : Nat),
      p.stage = .finished text time → (first rule p after pos).span.isEmpty = true →
      k ≤ (first rule p after pos).text.length →
      match? (p.before ++ (first rule p after pos).text.take k) p.before p.insertText ≠ none := by
  intro h
  have hr : (first {} spaced [] ⟨0, 4⟩).text = "foo".toList := by decide +kernel
  have := h {} spaced " foo".toList 0 [] ⟨0, 4⟩ 1 rfl (by decide +kernel) (by rw [hr]; decide)
  rw [hr] at this
  exact this (by decide +kernel)

end Completion
end GhostText
