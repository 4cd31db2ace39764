import GhostText.Proofs.Text.Ending

namespace GhostText.Text

variable {s t : Text} {c : Char}

-- A character that is not blank stays where it is.
theorem dropIndents_concat (b : Bool) (t : Text) (h : isBlank c = false) :
    dropIndents b (t ++ [c]) = dropIndents b t ++ [c] := by
  induction t generalizing b
  case nil => simp [dropIndents, h]
  case cons d t ih =>
    simp only [List.cons_append, dropIndents, ih]
    split <;> rfl

theorem lineFeed_ne_of_isBlank (h : isBlank c = false) : c ≠ '\n' := by
  rintro rfl
  simp at h

theorem squeeze_lastLine_concat (t : Text) (h : isBlank c = false) : squeeze (lastLine (t ++ [c])) ≠ [] := by
  have hm : '\n' ∉ [c] := by simpa using (lineFeed_ne_of_isBlank h).symm
  rw [lastLine_append_of_not_mem t hm]
  exact squeeze_ne_nil_of_mem (List.mem_append_right _ List.mem_cons_self) h

-- Trimmed, a text holds nothing at all or its last line holds something.
theorem trimRight_cases (t : Text) :
    trimRight isBlank t = [] ∨ ∃ front c, trimRight isBlank t = front ++ [c] ∧ isBlank c = false := by
  rcases List.eq_nil_or_concat (trimRight isBlank t) with hn | ⟨front, c, hc⟩
  case inl => exact .inl hn
  case inr =>
    rw [List.concat_eq_append] at hc
    exact .inr ⟨front, c, hc, getLast?_trimRight isBlank t c (by simp [hc])⟩

-- The normal form is the trimmed text without indentation, and then at most one line feed.
theorem normalForm_cases (t : Text) :
    normalForm t = dropIndents true (trimRight isBlank t) ∨
      normalForm t = dropIndents true (trimRight isBlank t) ++ ['\n'] := by
  rw [normalForm]
  rcases trimEnd_cases t with he | he
  case inl => rw [he]; exact .inl rfl
  case inr =>
    rw [he]
    rcases trimRight_cases t with hn | ⟨front, c, hc, hb⟩
    case inl => rw [hn]; exact .inl rfl
    case inr => rw [hc, dropIndents_append true (squeeze_lastLine_concat front hb)]; exact .inr rfl

theorem getLast?_dropIndents_trimRight (t : Text) :
    ∀ c ∈ (dropIndents true (trimRight isBlank t)).getLast?, isBlank c = false := by
  rcases trimRight_cases t with hn | ⟨front, c, hc, hb⟩
  case inl => simp [hn, dropIndents]
  case inr => simp [hc, dropIndents_concat true front hb, hb]

-- The only blank at its end is that line feed.
theorem getLast?_normalForm (t : Text) : ∀ c ∈ (normalForm t).getLast?, isBlank c = true → c = '\n' := by
  intro c hc hb
  rcases normalForm_cases t with hn | hn
  case inl =>
    have := getLast?_dropIndents_trimRight t c (hn ▸ hc)
    simp [hb] at this
  case inr => simpa [hn, eq_comm] using hc

theorem lines_isPrefix (h : s <+: t) : ∃ l, (lines t)[breaks s]? = some l ∧ lastLine s <+: l := by
  obtain ⟨r, rfl⟩ := h
  exact ⟨_, getElem?_lines_append s r, List.prefix_append _ _⟩

theorem dropIndents_trimRight_isPrefix (t : Text) : dropIndents true (trimRight isBlank t) <+: normalForm t :=
  dropIndents_isPrefix (trimRight_isPrefix_trimEnd t) true

-- A first part of the normal form that does not end with a line feed is one of the text without its indentation.
theorem isPrefix_dropIndents (h : s <+: normalForm t) (hs : ∀ c ∈ s.getLast?, c ≠ '\n') : s <+: dropIndents true t := by
  have ht : dropIndents true (trimRight isBlank t) <+: dropIndents true t :=
    dropIndents_isPrefix (trimRight_isPrefix t) true
  rcases normalForm_cases t with hn | hn
  case inl => exact (hn ▸ h).trans ht
  case inr =>
    rw [hn, List.prefix_concat_iff] at h
    rcases h with rfl | h
    case inl => simp at hs
    case inr => exact h.trans ht

theorem breaks_normalForm_eq (t : Text) :
    breaks (normalForm t) = (((lines t).dropLast.map (trimLeft isBlank)).filter (· ≠ [])).length := by
  have hp (k : Text) : decide (squeeze k ≠ []) = decide (trimLeft isBlank k ≠ []) := by simp [trimLeft_eq_nil_iff]
  rw [breaks_normalForm, content, ← List.map_dropLast, List.filter_map, List.filter_map, List.length_map,
    List.length_map]
  simp only [Function.comp_def, hp]

theorem getLast?_condense (l : List Text) : (condense l).getLast? = l.getLast? := by
  by_cases h : l = []
  case pos => simp [h, condense]
  case neg => rw [condense_eq h, List.getLast?_concat, List.getLast?_eq_some_getLast h]

theorem getLast?_lines (t : Text) : (lines t).getLast? = some (lastLine t) := by
  rw [List.getLast?_eq_some_getLast (lines_ne_nil t), lines_getLast]

theorem getLast?_content (t : Text) : (content t).getLast? = some (squeeze (lastLine t)) := by
  rw [content, List.getLast?_map, getLast?_lines, Option.map_some]

theorem lastLine_dropIndents (t : Text) : lastLine (dropIndents true t) = trimLeft isBlank (lastLine t) := by
  have := getLast?_lines (dropIndents true t)
  rw [(lines_dropIndents t).1, getLast?_condense, List.getLast?_map, getLast?_lines] at this
  exact (Option.some.inj this).symm

theorem trimRight_eq_self (h : ∀ c ∈ t.getLast?, isBlank c = false) : trimRight isBlank t = t := by
  rw [trimRight, ← trimLeft, trimLeft_eq_self (by simpa using h), List.reverse_reverse]

theorem getLast?_lastLine_normalForm (t : Text) : ∀ c ∈ (lastLine (normalForm t)).getLast?, isBlank c = false := by
  intro c hc
  have hm : c ∈ lastLine (normalForm t) := List.mem_of_mem_getLast? hc
  have hl := mem_getLast?_of_isSuffix (lastLine_isSuffix (normalForm t)) hc
  rw [← Bool.not_eq_true]
  intro hb
  obtain rfl := getLast?_normalForm t c hl hb
  exact lineFeed_not_mem_lastLine _ hm

-- The last line is trimmed, also if it holds nothing.
theorem lastLine_normalForm (t : Text) : lastLine (normalForm t) = trim isBlank (lastLine t) := by
  have hself := trimRight_eq_self (getLast?_lastLine_normalForm t)
  by_cases h : squeeze (lastLine t) = []
  case pos =>
    have hb : allBlank (lastLine (normalForm t)) = true := by
      rw [← squeeze_eq_nil_iff, squeeze_lastLine_normalForm, h]
    rw [← hself, trimRight_eq_nil hb, trim, trimLeft_eq_nil_iff.mpr h]
    rfl
  case neg =>
    obtain ⟨w, hw, hb, hm⟩ := exists_eq_trimRight_append h
    have hs : squeeze (lastLine (trimRight isBlank t)) ≠ [] := by rwa [squeeze_lastLine_trimRight h]
    have hl : lastLine t = lastLine (trimRight isBlank t) ++ w := by
      conv => lhs; rw [hw]
      exact lastLine_append_of_not_mem _ hm
    rw [← hself, normalForm, trimEnd_eq_trimRight h, lastLine_dropIndents, trim, hl, trimLeft_append w hs,
      trimRight_append_of_blank _ hb]

theorem getLast?_normalForm_ne (h : squeeze (lastLine t) ≠ []) : ∀ c ∈ (normalForm t).getLast?, c ≠ '\n' := by
  rw [normalForm, trimEnd_eq_trimRight h]
  exact fun c hc => lineFeed_ne_of_isBlank (getLast?_dropIndents_trimRight t c hc)

theorem normalForm_eq_nil (h : allBlank t = true) : normalForm t = [] :=
  normalForm_append_of_indent (s := []) rfl h

-- Where no blanks come between them, two texts are joined in normal form as they are.
theorem normalForm_append (hl : squeeze (lastLine s) ≠ []) (hs : ∀ c ∈ s.getLast?, isBlank c = false)
    (ht : ∀ c ∈ t.head?, isBlank c = false) : normalForm (s ++ t) = normalForm s ++ normalForm t := by
  cases t
  case nil => rw [List.append_nil, normalForm_eq_nil (t := []) rfl, List.append_nil]
  case cons d t =>
    have hd : isBlank d = false := ht d rfl
    have hne : squeeze (d :: t) ≠ [] := squeeze_ne_nil_of_mem List.mem_cons_self hd
    obtain ⟨u, hu⟩ := exists_trimEnd_cons hne
    have hfirst : dropIndents true (d :: u) = dropIndents false (d :: u) := by simp [dropIndents, hd]
    rw [normalForm, trimEnd_append s hne, dropIndents_append true hl, normalForm, trimEnd_eq_trimRight hl,
      trimRight_eq_self hs, normalForm, hu, hfirst]

-- A line that is trimmed is in normal form.
theorem normalForm_eq_self (hm : '\n' ∉ t) (hh : ∀ c ∈ t.head?, isBlank c = false)
    (hl : ∀ c ∈ t.getLast?, isBlank c = false) : normalForm t = t := by
  cases t
  case nil => exact normalForm_eq_nil rfl
  case cons d t =>
    have hd : isBlank d = false := hh d rfl
    have hs : squeeze (lastLine (d :: t)) ≠ [] := by
      rw [lastLine_of_not_mem hm]
      exact squeeze_ne_nil_of_mem List.mem_cons_self hd
    have hfirst : dropIndents true (d :: t) = dropIndents false (d :: t) := by simp [dropIndents, hd]
    rw [normalForm, trimEnd_eq_trimRight hs, trimRight_eq_self hl, hfirst, dropIndents_of_not_mem hm]

-- The first line of the normal form is the first one that holds something.
theorem length_squeeze_firstLine_le (t : Text) :
    (squeeze (firstLine t)).length ≤ (squeeze (firstLine (normalForm t))).length := by
  by_cases h : squeeze (firstLine t) = []
  case pos => simp [h]
  case neg =>
    obtain ⟨k, ks, hk⟩ := List.exists_cons_of_ne_nil (content_ne_nil t)
    have ht := content_head? t
    have hn := content_head? (normalForm t)
    rw [hk, List.head?_cons, Option.some.injEq] at ht
    rw [content_normalForm, hk, condense_cons_of_ne (ht ▸ h), List.head?_cons, ht, Option.some.injEq] at hn
    rw [hn]

theorem normalForm_trimRight_append (hl : squeeze (lastLine s) ≠ []) (ht : ∀ c ∈ t.head?, isBlank c = false) :
    normalForm (trimRight isBlank s ++ t) = normalForm s ++ normalForm t := by
  obtain ⟨w, hw, hb, hm⟩ := exists_eq_trimRight_append hl
  have hn : normalForm (trimRight isBlank s) = normalForm s := by
    conv => rhs; rw [hw]
    exact (normalForm_append_of_blank _ hb hm).symm
  have hl : squeeze (lastLine (trimRight isBlank s)) ≠ [] := by rwa [squeeze_lastLine_trimRight hl]
  rw [normalForm_append hl (getLast?_trimRight isBlank s) ht, hn]

end GhostText.Text
