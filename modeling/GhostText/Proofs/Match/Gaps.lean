import GhostText.Proofs.Match.Soundness
import GhostText.Proofs.Match.Typed

namespace GhostText

open Text

namespace Text

variable {s t w x gap lead q u v : Text} {d : Char}

theorem trim_append_of_blank (t : Text) (h : allBlank x = true) : trim isBlank (t ++ x) = trim isBlank t := by
  by_cases ht : squeeze t = []
  case neg => rw [trim, trimLeft_append x ht, trimRight_append_of_blank _ h, trim]
  case pos =>
    have ht := squeeze_eq_nil_iff.mp ht
    have htx : allBlank (t ++ x) = true := by rw [allBlank_append, ht, h]; rfl
    have hnil {u : Text} (hu : allBlank u = true) : trimLeft isBlank u = [] := by simpa [trimLeft, allBlank] using hu
    rw [trim, trim, hnil htx, hnil ht]

theorem trim_append_of_indent (t : Text) (h : allBlank w = true) : trim isBlank (w ++ t) = trim isBlank t := by
  rw [trim, trimLeft_append_of_blank t (squeeze_eq_nil_iff.mpr h), trim]

-- Blanks behind indentation are indentation too, so the last line holds the same without them.
theorem trim_lastLine_indent (hs : squeeze (lastLine s) = []) (hw : allBlank w = true) (hm : '\n' ∉ w) (x : Text) :
    trim isBlank (lastLine (s ++ (w ++ x))) = trim isBlank (lastLine (s ++ x)) := by
  by_cases hx : '\n' ∈ x
  case pos =>
    rw [lastLine_append_of_mem s (List.mem_append_right w hx), lastLine_append_of_mem w hx, lastLine_append_of_mem s hx]
  case neg =>
    have hwx : '\n' ∉ w ++ x := by simp [hm, hx]
    have hs := squeeze_eq_nil_iff.mp hs
    rw [lastLine_append_of_not_mem s hwx, lastLine_append_of_not_mem s hx, trim_append_of_indent _ hs,
      trim_append_of_indent _ hw, trim_append_of_indent _ hs]

theorem length_trimEnd_le (t : Text) : (trimEnd t).length ≤ t.length := by
  by_cases hm : '\n' ∈ t.drop (trimRight isBlank t).length
  case neg => rw [trimEnd_of_not_mem hm]; exact (trimRight_isPrefix t).length_le
  case pos =>
    have := List.length_pos_of_mem hm
    rw [List.length_drop] at this
    rw [trimEnd_of_mem hm, List.length_append, List.length_singleton]
    omega

theorem forall_lines_iff :
    (∀ l ∈ (lines t).dropLast, allBlank l = false) ↔ ∀ k ∈ (content t).dropLast, k ≠ [] := by
  simp only [content, ← List.map_dropLast, List.forall_mem_map, ne_eq, squeeze_eq_nil_iff, Bool.not_eq_true]

theorem content_append_of_blank (t : Text) (hx : allBlank x = true) (hm : '\n' ∉ x) :
    content (t ++ x) = content t := by
  have hf : squeeze (firstLine x) = [] := by
    have := content_head? x
    rw [content_of_not_mem hm, squeeze_eq_nil_iff.mpr hx] at this
    exact (Option.some.inj this).symm
  have := List.dropLast_append_getLast (content_ne_nil t)
  rw [content_append, content_of_not_mem hm, hf, List.append_nil, ← content_getLast]
  exact this

theorem content_append_of_indent (t : Text) (hw : allBlank w = true) (hm : '\n' ∉ w) :
    content (w ++ t) = content t := by
  have hl : squeeze (lastLine w) = [] := by rw [lastLine_of_not_mem hm]; exact squeeze_eq_nil_iff.mpr hw
  rw [content_append, content_of_not_mem hm, hl, List.nil_append, ← content_head, List.dropLast_singleton,
    List.nil_append, List.cons_head_tail]

theorem isPrefix_append_cases (h : x <+: s ++ t) : x <+: s ∨ ∃ y, x = s ++ y ∧ y <+: t := by
  rcases List.prefix_or_prefix_of_prefix h (List.prefix_append s t) with hs | ⟨y, rfl⟩
  case inl => exact .inl hs
  case inr => exact .inr ⟨y, rfl, (List.prefix_append_right_inj s).mp h⟩

-- Texts that begin with different blanks differ there.
theorem not_isPrefix_of_gap (hl : OnlySpaces lead) (hg : OnlySpaces gap) (hd : isSpaceOrTab d = false)
    (hne : lead ≠ gap) : ¬lead ++ d :: u <+: gap ++ d :: v := by
  rintro ⟨r, hr⟩
  have hspan {g : Text} (h : OnlySpaces g) (w : Text) : (g ++ d :: w).takeWhile isSpaceOrTab = g := by
    rw [List.takeWhile_append_of_pos h, List.takeWhile_cons_of_neg (by simp [hd]), List.append_nil]
  have := congrArg (List.takeWhile isSpaceOrTab) hr
  rw [List.append_assoc, List.cons_append, hspan hl, hspan hg] at this
  exact hne this

-- Behind a text that holds something blanks stay as they are.
theorem exists_normalForm_gap (hs : squeeze (lastLine s) ≠ []) (hg : OnlySpaces gap) (h : squeeze (d :: q) ≠ []) :
    ∃ u, normalForm (s ++ (gap ++ d :: q)) = dropIndents true s ++ (gap ++ d :: u) := by
  have hgq : squeeze (gap ++ d :: q) ≠ [] := by simp [h]
  obtain ⟨u, hu⟩ := exists_trimEnd_cons h
  rw [normalForm, trimEnd_append s hgq, trimEnd_append gap h, dropIndents_append true hs,
    dropIndents_append_of_not_mem hg.lineFeed_not_mem, hu]
  exact ⟨dropIndents (d = '\n') u, by simp [dropIndents]⟩

end Text

namespace Bounds

variable {before before' stored insertion typed t w x gap lead core q u v : Text} {d : Char}

theorem match?_ne_none_congr (hn : normalForm before = normalForm before')
    (hl : trim isBlank (lastLine before) = trim isBlank (lastLine before')) :
    match? before stored insertion ≠ none ↔ match? before' stored insertion ≠ none := by
  rw [match?_ne_none_iff, match?_ne_none_iff, hn, hl]

theorem match?_append_blank_ne_none_iff (h : allBlank x = true) (hm : '\n' ∉ x) :
    match? (before ++ x) stored insertion ≠ none ↔ match? before stored insertion ≠ none :=
  match?_ne_none_congr (normalForm_append_of_blank before h hm)
    (by rw [lastLine_append_of_not_mem before hm, trim_append_of_blank _ h])

theorem match?_indent_ne_none_iff (hs : squeeze (lastLine before) = []) (hw : allBlank w = true) (hm : '\n' ∉ w) :
    match? (before ++ (w ++ x)) stored insertion ≠ none ↔ match? (before ++ x) stored insertion ≠ none :=
  match?_ne_none_congr (normalForm_indent hs hw x) (trim_lastLine_indent hs hw hm x)

-- Whether a text is tidy can be told from what its lines hold and from its end.
theorem Tidy.congr (hc : content t = content u) (he : squeeze u ≠ [] → trimEnd t <+: t → trimEnd u <+: u)
    (h : Tidy t) : Tidy u where
  lines hu := by
    have hl : squeeze (lastLine t) = squeeze (lastLine u) := by
      rw [← content_getLast, ← content_getLast]
      simp [hc]
    rw [← Bool.not_eq_true, ← squeeze_eq_nil_iff] at hu
    have ht := h.lines (by rw [← Bool.not_eq_true, ← squeeze_eq_nil_iff, hl]; exact hu)
    rw [forall_lines_iff] at ht ⊢
    rwa [← hc]
  ends := by
    have hs : squeeze t = squeeze u := by rw [← flatten_content, hc, flatten_content]
    have ht := h.ends
    rw [← squeeze_eq_nil_iff, hs] at ht
    rw [← squeeze_eq_nil_iff]
    by_cases hu : squeeze u = []
    case pos => exact .inl hu
    case neg => exact .inr (he hu (ht.resolve_left hu))

theorem Tidy.of_append_blank (hx : allBlank x = true) (hm : '\n' ∉ x) (h : Tidy (t ++ x)) : Tidy t := by
  refine h.congr (content_append_of_blank t hx hm) fun _ he => ?_
  rw [trimEnd_append_of_blank t hx hm] at he
  exact List.prefix_of_prefix_length_le he (List.prefix_append t x) (length_trimEnd_le t)

theorem tidy_indent_iff (hw : allBlank w = true) (hm : '\n' ∉ w) : Tidy (w ++ t) ↔ Tidy t := by
  have hc := content_append_of_indent t hw hm
  have hs : squeeze (w ++ t) = squeeze t := by rw [squeeze_append, squeeze_eq_nil_iff.mpr hw, List.nil_append]
  have he (ht : squeeze t ≠ []) : trimEnd (w ++ t) <+: w ++ t ↔ trimEnd t <+: t := by
    rw [trimEnd_append w ht, List.prefix_append_right_inj]
  exact ⟨.congr hc fun ht => (he ht).mp, .congr hc.symm fun ht => (he (hs ▸ ht)).mpr⟩

-- Behind a text that holds something, what is typed after other blanks than the predicted ones is not the prediction.
theorem not_continues_of_gap (hs : squeeze (lastLine stored) ≠ []) (hl : OnlySpaces lead) (hg : OnlySpaces gap)
    (hne : lead ≠ gap) (he : lead ≠ [] ∨ ∃ c ∈ (lastLine stored).getLast?, isBlank c = true)
    (hd : isSpaceOrTab d = false) (hu : squeeze (d :: u) ≠ []) (hv : squeeze (d :: v) ≠ []) :
    continues (normalForm (stored ++ (lead ++ d :: u))) stored (gap ++ d :: v) = false := by
  obtain ⟨u, hcur⟩ := exists_normalForm_gap (d := d) hs hl hu
  obtain ⟨v, hjoined⟩ := exists_normalForm_gap (d := d) hs hg hv
  obtain ⟨w, hw, hall, hdrop⟩ := exists_normalForm_append hs
  rw [← Bool.not_eq_true]
  intro h
  have h := (isPrefix_of_continues h).2
  rw [hcur, hjoined] at h
  cases h
  case inl h => exact not_isPrefix_of_gap hl hg hd hne ((List.prefix_append_right_inj _).mp h)
  case inr h =>
    rw [hdrop, List.append_assoc, List.prefix_append_right_inj, ← List.append_assoc] at h
    have hne : w ++ lead ≠ [] := by
      intro hn
      obtain ⟨rfl, rfl⟩ := List.append_eq_nil_iff.mp hn
      exact trimRight_ne_self (he.resolve_left (by simp)) (by simpa using hw.symm)
    obtain ⟨e, r, hr⟩ := List.exists_cons_of_ne_nil hne
    have hb : isBlank e = true := by
      have : e ∈ w ++ lead := hr ▸ List.mem_cons_self
      rcases List.mem_append.mp this with hm | hm
      case inl => exact List.all_eq_true.mp hall e hm
      case inr => exact isBlank_of_isSpaceOrTab (hl e hm)
    rw [hr] at h
    simp [head?_dropIndents _ e (mem_head?_of_isPrefix h rfl)] at hb

-- A tidy text of blanks that breaks the line does so at once.
theorem Tidy.head?_of_blank (h : Tidy (t ++ x)) (ht : squeeze t ≠ []) (hx : allBlank x = true) (hm : '\n' ∈ x)
    (hn : '\n' ∉ t) : trimRight isBlank t = t ∧ x.head? = some '\n' := by
  have hend : trimEnd (t ++ x) = trimRight isBlank t ++ ['\n'] := by
    rw [trimEnd_of_mem, trimRight_append_of_blank t hx]
    rw [trimRight_append_of_blank t hx, drop_trimRight_append]
    exact List.mem_append_right _ hm
  have hp : trimEnd (t ++ x) <+: t ++ x := by
    apply h.ends.resolve_left
    rw [← squeeze_eq_nil_iff, squeeze_append, List.append_eq_nil_iff]
    exact fun hb => ht hb.1
  obtain ⟨w, hw, -⟩ := trimRight_append_blanks t
  rw [hend] at hp
  generalize trimRight isBlank t = r at hp hw ⊢
  subst hw
  rw [List.append_assoc, List.prefix_append_right_inj] at hp
  cases w
  case nil      => exact ⟨(List.append_nil r).symm, mem_head?_of_isPrefix hp rfl⟩
  case cons c w =>
    obtain rfl := (List.cons_prefix_cons.mp hp).1
    simp at hn

theorem Tidy.lineFeed_not_mem (h : Tidy (lastLine stored ++ x)) (hs : squeeze (lastLine stored) ≠ [])
    (hx : allBlank x = true) (he : x.head? ≠ some '\n' ∨ ∃ c ∈ (lastLine stored).getLast?, isBlank c = true) :
    '\n' ∉ x := by
  intro hm
  have hn := lineFeed_not_mem_lastLine stored
  obtain ⟨hr, hh⟩ := h.head?_of_blank hs hx hm hn
  cases he
  case inl hne   => exact hne hh
  case inr hlast => exact trimRight_ne_self (by rwa [lastLine_of_not_mem hn]) hr

-- A text is part of the predicted one, but for the blanks that stand in front of it and behind it.
structure Framed (left insertion shown gap lead core trail : Text) : Prop where
  shown      : shown = lead ++ (core ++ trail)
  insertion  : gap ++ core <+: insertion
  gapBlank   : OnlySpaces gap
  leadBlank  : OnlySpaces lead
  trailBlank : OnlySpaces trail
  edge       : ∀ c ∈ core.head?, isSpaceOrTab c = false
  -- blanks are left out altogether only behind others
  behind     : lead = gap ∨ lead ≠ [] ∨ ∃ c ∈ left.getLast?, isSpaceOrTab c = true

theorem match?_ne_none_of_spaces (h : OnlySpaces x) (insertion : Text) :
    match? (stored ++ x) stored insertion ≠ none := by
  rw [match?_append_blank_ne_none_iff h.allBlank h.lineFeed_not_mem, match?_self]
  simp

-- On a blank line it does not matter which blanks are typed in front of the prediction.
theorem match?_ne_none_of_blank_line (hs : allBlank (lastLine stored) = true) (hl : OnlySpaces lead)
    (hg : OnlySpaces gap) (hi : gap ++ q <+: insertion) (ht : Tidy (lastLine stored ++ (lead ++ q))) :
    match? (stored ++ (lead ++ q)) stored insertion ≠ none := by
  have hsq := squeeze_eq_nil_iff.mpr hs
  have hn := lineFeed_not_mem_lastLine stored
  rw [match?_indent_ne_none_iff hsq hl.allBlank hl.lineFeed_not_mem,
    ← match?_indent_ne_none_iff hsq hg.allBlank hg.lineFeed_not_mem]
  apply match?_ne_none_of_tidy hi
  rw [tidy_indent_iff hs hn] at ht ⊢
  exact (tidy_indent_iff hg.allBlank hg.lineFeed_not_mem).mpr
    ((tidy_indent_iff hl.allBlank hl.lineFeed_not_mem).mp ht)

-- Behind a text that holds something they have to be the predicted ones.
theorem match?_ne_none_iff_of_gap (hs : allBlank (lastLine stored) = false) (hl : OnlySpaces lead)
    (hg : OnlySpaces gap) (hi : gap ++ d :: q <+: insertion) (hd : isSpaceOrTab d = false)
    (he : lead = gap ∨ lead ≠ [] ∨ ∃ c ∈ (lastLine stored).getLast?, isSpaceOrTab c = true)
    (ht : Tidy (lastLine stored ++ (lead ++ d :: q))) :
    match? (stored ++ (lead ++ d :: q)) stored insertion ≠ none ↔ trimRight isBlank (lead ++ d :: q) <+: insertion := by
  by_cases hgap : lead = gap
  case pos =>
    subst hgap
    exact iff_of_true (match?_ne_none_of_tidy hi ht) ((trimRight_isPrefix _).trans hi)
  case neg =>
    have hsq : squeeze (lastLine stored) ≠ [] := by rw [ne_eq, squeeze_eq_nil_iff, hs]; simp
    have he : lead ≠ [] ∨ ∃ c ∈ (lastLine stored).getLast?, isBlank c = true :=
      (he.resolve_left hgap).imp_right fun ⟨c, hc, hcb⟩ => ⟨c, hc, isBlank_of_isSpaceOrTab hcb⟩
    by_cases hq : squeeze (d :: q) = []
    case pos =>
      have hb : allBlank (lead ++ d :: q) = true := by
        rw [allBlank_append, hl.allBlank, squeeze_eq_nil_iff.mp hq]
        rfl
      have hhead : lead ≠ [] → (lead ++ d :: q).head? ≠ some '\n' := by
        intro hne hh
        obtain ⟨c, more, rfl⟩ := List.exists_cons_of_ne_nil hne
        obtain rfl : c = '\n' := by simpa using hh
        exact hl.lineFeed_not_mem List.mem_cons_self
      have hm := ht.lineFeed_not_mem hsq hb (he.imp_left hhead)
      rw [match?_append_blank_ne_none_iff hb hm, match?_self, trimRight_eq_nil hb]
      exact iff_of_true (by simp) List.nil_prefix
    case neg =>
      obtain ⟨rest, rfl⟩ := hi
      rw [List.append_assoc, List.cons_append]
      have hrest : squeeze (d :: (q ++ rest)) ≠ [] := by
        rw [← List.cons_append, squeeze_append]
        simp [hq]
      have hc := not_continues_of_gap hsq hl hg hgap he hd hq hrest
      apply iff_of_false
      case ha => simp [match?_ne_none_iff, hc]
      case hb =>
        obtain ⟨u, hu⟩ := exists_trimRight_cons hq
        rw [trimRight_append lead hq, hu]
        exact not_isPrefix_of_gap hl hg hd hgap

-- A prediction still applies while what is shown of it is typed, as long as that is tidy: always on a blank line, and
-- behind a text that holds something if it is what is predicted, blanks in front included.
theorem match?_ne_none_iff_of_framed {shown trail : Text}
    (h : Framed (lastLine stored) insertion shown gap lead core trail) (hp : typed <+: shown)
    (ht : Tidy (lastLine stored ++ typed)) :
    match? (stored ++ typed) stored insertion ≠ none ↔
      allBlank (lastLine stored) = true ∨ trimRight isBlank typed <+: insertion := by
  have hspaces {y : Text} (hy : OnlySpaces y) : match? (stored ++ y) stored insertion ≠ none ↔
      allBlank (lastLine stored) = true ∨ trimRight isBlank y <+: insertion := by
    rw [trimRight_eq_nil hy.allBlank]
    exact iff_of_true (match?_ne_none_of_spaces hy insertion) (.inr List.nil_prefix)
  have hcore {q : Text} (hq : q <+: core) (ht : Tidy (lastLine stored ++ (lead ++ q))) :
      match? (stored ++ (lead ++ q)) stored insertion ≠ none ↔
        allBlank (lastLine stored) = true ∨ trimRight isBlank (lead ++ q) <+: insertion := by
    have hi : gap ++ q <+: insertion := ((List.prefix_append_right_inj gap).mpr hq).trans h.insertion
    cases q
    case nil      => rw [List.append_nil]; exact hspaces h.leadBlank
    case cons d q =>
      have hd := h.edge d (mem_head?_of_isPrefix hq rfl)
      cases hs : allBlank (lastLine stored)
      case true  => exact iff_of_true (match?_ne_none_of_blank_line hs h.leadBlank h.gapBlank hi ht) (.inl rfl)
      case false => simpa using match?_ne_none_iff_of_gap hs h.leadBlank h.gapBlank hi hd h.behind ht
  rw [h.shown] at hp
  rcases isPrefix_append_cases hp with hl | ⟨x, rfl, hx⟩
  case inl => exact hspaces (h.leadBlank.of_isPrefix hl)
  case inr =>
    rcases isPrefix_append_cases hx with hq | ⟨y, rfl, hy⟩
    case inl => exact hcore hq ht
    case inr =>
      -- blanks behind the text do not count
      have hy := h.trailBlank.of_isPrefix hy
      rw [← List.append_assoc lead] at ht ⊢
      rw [← List.append_assoc] at ht
      rw [trimRight_append_of_blank _ hy.allBlank, ← List.append_assoc,
        match?_append_blank_ne_none_iff hy.allBlank hy.lineFeed_not_mem]
      exact hcore (List.prefix_refl core) (ht.of_append_blank hy.allBlank hy.lineFeed_not_mem)

end Bounds
end GhostText
