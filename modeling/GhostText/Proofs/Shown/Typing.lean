import GhostText.Proofs.Answer.Shape
import GhostText.Proofs.Match.Gaps
import GhostText.Proofs.Shown.Excerpt
import GhostText.Proofs.Text.Growth

namespace GhostText.Excerpt

open Text Answer Bounds

variable {rule : RepeatRule} {p : Prediction} {c : Cursor} {stored insertion typed after w t : Text} {b : Bounds}

-- A text begins the prediction. The space in front of it may be left out behind a space.
def Opens (left t insertion : Text) : Prop :=
  t <+: insertion ∨
    ∃ core, insertion = ' ' :: core ∧ t <+: core ∧ (∀ d ∈ core.head?, isBlank d = false) ∧
      ∃ d ∈ left.getLast?, isSpaceOrTab d = true

theorem Opens.mem {left : Text} {d : Char} (h : Opens left t insertion) (hd : d ∈ t) : d ∈ insertion := by
  rcases h with h | ⟨core, rfl, h, -⟩
  case inl => exact h.mem hd
  case inr => exact List.mem_cons_of_mem _ (h.mem hd)

theorem Opens.of_isPrefix {left : Text} (h : Opens left t insertion) (hp : typed <+: t) : Opens left typed insertion :=
  h.imp hp.trans fun ⟨core, hi, hc, hb⟩ => ⟨core, hi, hp.trans hc, hb⟩

theorem edgeSpaces_isPrefix (h : ∀ d ∈ t.head?, isBlank d = false) : edgeSpaces false t <+: t := by
  have hf : (t.head?.map isSpaceOrTab).getD false = false := by
    cases ht : t.head?
    case none   => rfl
    case some d => exact isSpaceOrTab_eq_false (h d ht)
  have ht : trim isSpaceOrTab t = trimRight isSpaceOrTab t := by
    rw [trim, trimLeft_eq_self fun d hd => isSpaceOrTab_eq_false (h d hd)]
  simp only [edgeSpaces, Bool.false_and, hf, ht, Bool.false_eq_true, if_false, List.append_nil, List.nil_append]
  split
  case isTrue  => exact List.nil_prefix
  case isFalse => exact trimRight_isPrefix t

theorem edgeSpaces_cons_isPrefix (h : ∀ d ∈ t.head?, isBlank d = false) :
    edgeSpaces false (' ' :: t) <+: ' ' :: t := by
  have ht : trim isSpaceOrTab (' ' :: t) = trimRight isSpaceOrTab t := by
    rw [trim]
    exact congrArg _ (trimLeft_eq_self fun d hd => isSpaceOrTab_eq_false (h d hd))
  simp only [edgeSpaces, Bool.false_and, ht, Bool.false_eq_true, if_false, List.append_nil]
  split
  case isTrue  => exact List.nil_prefix
  case isFalse => exact List.cons_prefix_cons.mpr ⟨rfl, trimRight_isPrefix t⟩

theorem edgeSpaces_cut_isPrefix (h : Edged w) (before : Text) : edgeSpaces false (Brackets.cut w before) <+: w := by
  obtain ⟨core, hc, hw⟩ := h
  have hp := Brackets.balancedPart_isPrefix (Brackets.openers before) core
  have hb : ∀ d ∈ (Brackets.cut core before).head?, isBlank d = false :=
    fun d hd => hc d (mem_head?_of_isPrefix hp hd)
  rcases hw with rfl | rfl
  case inl => exact (edgeSpaces_isPrefix hb).trans hp
  case inr =>
    rw [Brackets.cut, Brackets.balancedPart_cons_of_isBlank (by decide)]
    exact (edgeSpaces_cons_isPrefix hb).trans (List.cons_prefix_cons.mpr ⟨rfl, hp⟩)

theorem opens_text (rule : RepeatRule) (h : ToLineEnd p c) (hs : Edged p.insertText) :
    Opens c.left (of rule p c 0).text p.insertText := by
  obtain ⟨w, ht, hw⟩ := exists_window rule h 0
  rw [List.drop_zero] at hw
  rw [← Int.natCast_zero, ht]
  obtain ⟨core, hc, he⟩ := hs
  have hcore : trimLeft isSpaceOrTab core = core := trimLeft_eq_self fun d hd => isSpaceOrTab_eq_false (hc d hd)
  rcases hw with rfl | ⟨rfl, hl⟩
  case inl => exact .inl (edgeSpaces_cut_isPrefix ⟨core, hc, he⟩ _)
  case inr =>
    rcases he with he | he
    case inl =>
      rw [he, hcore]
      exact .inl (edgeSpaces_cut_isPrefix ⟨core, hc, .inl rfl⟩ _)
    case inr =>
      have : trimLeft isSpaceOrTab (' ' :: core) = core := hcore
      rw [he, this]
      exact .inr ⟨core, rfl, edgeSpaces_cut_isPrefix ⟨core, hc, .inl rfl⟩ _, hc, hl⟩

-- Whatever is typed of the text shown, the line of the cursor begins with what was there and the prediction after it.
theorem begins_of_opens (hc : continues (normalForm (stored ++ typed)) stored insertion = true)
    (hi : '\n' ∉ insertion) (hp : Opens (lastLine stored) typed insertion) :
    trimLeft isBlank (lastLine (stored ++ typed)) <+:
      trimLeft isBlank (trimLeft isBlank (lastLine stored) ++ insertion) := by
  have ht : '\n' ∉ typed := fun h => hi (hp.mem h)
  have htwice : trimLeft isBlank (trimLeft isBlank (lastLine stored)) = trimLeft isBlank (lastLine stored) :=
    trimLeft_trimLeft (fun _ => id) _
  rw [lastLine_append_of_not_mem _ ht]
  by_cases hs : squeeze (lastLine stored) = []
  case pos =>
    rw [trimLeft_append_of_blank _ hs, trimLeft_append_of_blank _ (by rwa [squeeze_trimLeft])]
    rcases hp with hp | ⟨core, rfl, hp, -⟩
    case inl => exact trimLeft_isPrefix_trimLeft _ hp
    case inr =>
      rw [← List.singleton_append, trimLeft_append_of_blank core (by decide)]
      exact trimLeft_isPrefix_trimLeft _ hp
  case neg =>
    rw [trimLeft_append _ hs, trimLeft_append _ (by rwa [squeeze_trimLeft]), htwice, List.prefix_append_right_inj]
    rcases hp with hp | ⟨core, rfl, hp, hb, d, hd, hst⟩
    case inl => exact hp
    case inr =>
      by_cases hn : typed = []
      case pos => exact hn ▸ List.nil_prefix
      case neg =>
        -- a space that the prediction opens with cannot be left out once the line of the cursor holds something
        obtain ⟨e, more, rfl⟩ := List.exists_cons_of_ne_nil hn
        obtain ⟨rest, rfl⟩ := hp
        have he : isBlank e = false := hb e rfl
        have hlast : ∃ d ∈ (lastLine stored).getLast?, isBlank d = true := ⟨d, hd, isBlank_of_isSpaceOrTab hst⟩
        have hsq (u : Text) : squeeze (e :: u) ≠ [] := squeeze_ne_nil_of_mem List.mem_cons_self he
        have : continues (normalForm (stored ++ ([] ++ e :: more))) stored ([' '] ++ e :: (more ++ rest)) = false :=
          not_continues_of_gap hs (by simp [OnlySpaces]) (by simp [OnlySpaces, isSpaceOrTab]) (by simp) (.inr hlast)
            (isSpaceOrTab_eq_false he) (hsq more) (hsq (more ++ rest))
        exact absurd hc (Bool.eq_false_iff.mp this)

-- Typing on a line leaves the lines before it as they are.
theorem dropLast_content_append (s : Text) (h : '\n' ∉ typed) :
    (content (normalForm (s ++ typed))).dropLast = (content (normalForm s)).dropLast := by
  rw [content_normalForm, content_normalForm, dropLast_condense, dropLast_condense, content_append,
    content_of_not_mem h, List.tail_cons, List.dropLast_concat]

theorem squeeze_take_of_opens (hm : match? (stored ++ typed) stored insertion = some b) (hi : '\n' ∉ insertion)
    (hp : Opens (lastLine stored) typed insertion) :
    squeeze (insertion.take b.index) = squeeze typed := by
  have ht : '\n' ∉ typed := fun h => hi (hp.mem h)
  obtain ⟨middle, e, hpl⟩ := exists_placed_of_match? hm
  have hG := dropLast_content_append stored ht
  have h0 : b.line = 0 := by
    have hl (t : Text) : (content t).dropLast.length = breaks t := by simp [content, length_lines]
    have := hpl.breaks
    rw [← hl, ← hl, hG] at this
    omega
  have hmiddle : middle = insertion := by
    have := hpl.line
    rw [h0, lines_of_not_mem hi] at this
    simpa using this.symm
  obtain ⟨skipped, hs, hb⟩ := columnAfter?_skips (head?_trimLeft _) hpl.found
  rw [squeeze_trimLeft] at hs
  have hbegins : Begins (trimLeft isBlank (lastLine (stored ++ typed))) (known stored b.line ++ middle) := by
    left
    rw [known, if_pos h0, hmiddle]
    exact begins_of_opens hpl.continues hi hp
  have := (sound_iff_of_first hpl h0 hG hs).mpr (hb.mpr hbegins)
  simpa using this

theorem squeeze_typed_text (hp : p.insertText = cleaned t) (hl : '\n' ∉ p.insertText)
    (hk : p.kind = .redoSuffix ∨ p.kind = .fillLine ∧ allBlank (firstLine after) = true)
    (ht : typed <+: (of rule p { before := p.before, after } 0).text)
    (hm : match? (p.before ++ typed) p.before p.insertText = some b) :
    squeeze (typed ++ (of rule p { before := p.before ++ typed, after } b.index).text) =
      squeeze (of rule p { before := p.before, after } 0).text := by
  have hfresh : ToLineEnd p { before := p.before, after } := ⟨hl, hk⟩
  have hnow : ToLineEnd p { before := p.before ++ typed, after } := ⟨hl, hk⟩
  have htake : squeeze (p.insertText.take b.index) = squeeze typed :=
    squeeze_take_of_opens hm hl ((opens_text rule hfresh (hp ▸ edged_cleaned t)).of_isPrefix ht)
  have hsplit : squeeze p.insertText = squeeze typed ++ squeeze (p.insertText.drop b.index) := by
    rw [← htake, ← squeeze_append, List.take_append_drop]
  have hshown := squeeze_text rule hfresh 0
  rw [List.drop_zero, hsplit, Int.natCast_zero] at hshown
  -- the brackets that are open behind what is typed are those that it leaves open
  have hopen : Brackets.openers (p.before ++ typed) =
      (squeeze typed).foldl Brackets.read (Brackets.openers p.before) := by
    rw [Brackets.openers, List.foldl_append, Brackets.foldl_read_squeeze, Brackets.openers]
  rw [squeeze_append, squeeze_text rule hnow, hopen, hshown, Brackets.balancedPart_append]
  exact hshown ▸ squeeze_isPrefix ht

def closing : Prediction :=
  { id := 0, before := "f(x".toList, kind := .fillLine, stage := .finished "y) + g(z)) ".toList 0 }

theorem squeeze_typed_text_closing :
    match? (closing.before ++ "y) +".toList) closing.before closing.insertText = some ⟨0, 4, 4⟩ ∧
      squeeze ("y) +".toList ++ (of {} closing { before := closing.before ++ "y) +".toList, after := [] } 4).text) =
        squeeze (of {} closing { before := closing.before, after := [] } 0).text :=
  have hm : match? (closing.before ++ "y) +".toList) closing.before closing.insertText = some ⟨0, 4, 4⟩ := by
    decide +kernel
  have hp : closing.insertText = cleaned "y) + g(z)) ".toList := by decide +kernel
  have ht : "y) +".toList <+: (of {} closing { before := closing.before, after := [] } 0).text := by
    decide +kernel
  have hs := squeeze_typed_text hp (by decide) (.inr ⟨rfl, rfl⟩) ht hm
  ⟨hm, hs⟩

end GhostText.Excerpt
