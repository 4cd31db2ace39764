import GhostText.Proofs.Answer.Shape

namespace GhostText.Fence

open Text

variable {w tag code inside t : Text}

theorem trimLeft_append_mark (hw : allBlank w = true) (t : Text) : trimLeft isBlank (w ++ mark ++ t) = mark ++ t := by
  have hmark : ∀ c ∈ (mark ++ t).head?, isBlank c = false := by
    intro c hc
    obtain rfl : '\x60' = c := by simpa [mark] using hc
    decide
  rw [List.append_assoc, trimLeft_append_of_blank _ (squeeze_eq_nil_iff.mpr hw), trimLeft_eq_self hmark]

-- Starts with a fence, blanks before it aside.
def Opens (t : Text) : Prop :=
  ∃ w rest, allBlank w = true ∧ t = w ++ mark ++ rest

theorem opens_iff : Opens t ↔ mark <+: trimLeft isBlank t := by
  constructor
  case mp =>
    rintro ⟨w, rest, hw, rfl⟩
    rw [trimLeft_append_mark hw]
    exact List.prefix_append _ _
  case mpr =>
    rintro ⟨rest, hrest⟩
    refine ⟨t.takeWhile isBlank, rest, allBlank_takeWhile t, ?_⟩
    rw [List.append_assoc, hrest, trimLeft, List.takeWhile_append_dropWhile]

theorem unwrap_of_opens (h : Opens t) : unwrap t = body (trimLeft isBlank t) :=
  if_pos (List.isPrefixOf_iff_prefix.mpr (opens_iff.mp h))

theorem unwrap_of_not_opens (h : ¬Opens t) : unwrap t = t :=
  if_neg (mt List.isPrefixOf_iff_prefix.mp (mt opens_iff.mpr h))

-- At least the line that opens the fence is taken off.
theorem length_body_lt (h : t ≠ []) : (body t).length < t.length := by
  have hpos := List.length_pos_iff.mpr h
  have hle := (body_isPrefix t).length_le
  have hsuffix := (List.dropWhile_suffix (l := t) (· ≠ '\n')).length_le
  rw [List.length_drop] at hle
  omega

theorem unwrap_eq_self_iff : unwrap t = t ↔ ¬Opens t := by
  constructor
  case mp =>
    intro hu h
    have hne : trimLeft isBlank t ≠ [] := by
      intro he
      have := opens_iff.mp h
      simp [he, mark] at this
    have hlt := length_body_lt hne
    have hle := (List.dropWhile_suffix (l := t) isBlank).length_le
    rw [← unwrap_of_opens h, hu] at hlt
    exact absurd hle (Nat.not_le.mpr hlt)
  case mpr => exact unwrap_of_not_opens

-- What a fence is opened with ends at the first line break.
theorem inside_append (htag : '\n' ∉ tag) (inside : Text) :
    ((mark ++ (tag ++ '\n' :: inside)).dropWhile (· ≠ '\n')).drop 1 = inside := by
  have hline : '\n' ∉ mark ++ tag := by
    rw [List.mem_append, not_or]
    exact ⟨by decide, htag⟩
  have hkept : ∀ c ∈ mark ++ tag, decide (c ≠ '\n') = true := by
    intro c hc
    simpa using fun he : c = '\n' => hline (he ▸ hc)
  rw [← List.append_assoc, List.dropWhile_append_of_pos hkept]
  simp

theorem unwrap_append (hw : allBlank w = true) (tag inside : Text) :
    unwrap (w ++ mark ++ tag ++ '\n' :: inside) = body (mark ++ (tag ++ '\n' :: inside)) := by
  have hassoc : w ++ mark ++ tag ++ '\n' :: inside = w ++ mark ++ (tag ++ '\n' :: inside) := List.append_assoc ..
  rw [hassoc, unwrap_of_opens ⟨w, _, hw, rfl⟩, trimLeft_append_mark hw]

theorem unwrap_of_closed {i : Nat} (hw : allBlank w = true) (htag : '\n' ∉ tag) (h : find? mark inside = some i) :
    unwrap (w ++ mark ++ tag ++ '\n' :: inside) = dropFinalBreak (inside.take i) := by
  rw [unwrap_append hw]
  simp only [body, inside_append htag, h]

theorem unwrap_of_not_closed (hw : allBlank w = true) (htag : '\n' ∉ tag) (h : ¬mark <:+: inside) :
    unwrap (w ++ mark ++ tag ++ '\n' :: inside) = inside := by
  have hfind : find? mark inside = none := by
    by_contra hne
    exact h (find?_ne_none_iff.mp hne)
  rw [unwrap_append hw]
  simp only [body, inside_append htag, hfind]

-- The break in front of the closing fence is no part of a fence, so none is found before it.
theorem find?_mark_append (hcode : ¬mark <:+: code) (rest : Text) :
    find? mark (code ++ '\n' :: (mark ++ rest)) = some (code.length + 1) := by
  have hassoc : code ++ '\n' :: (mark ++ rest) = code ++ ['\n'] ++ (mark ++ rest) := by simp
  refine find?_eq_some_iff.mpr ⟨?_, fun j hj hp => hcode ?_⟩
  case refine_1 =>
    rw [hassoc, List.drop_left' (by simp)]
    exact List.prefix_append _ _
  case refine_2 =>
    rw [List.drop_append_of_le_length (Nat.le_of_lt_succ hj)] at hp
    exact (isPrefix_of_append_cons hp (by decide)).isInfix.trans (List.drop_suffix j code).isInfix

theorem dropFinalBreak_concat (t : Text) : dropFinalBreak (t ++ ['\n']) = t := by
  simp [dropFinalBreak]

-- Code without a fence in it is got back from between two fences, whatever the first one is tagged with and whatever
-- comes behind the second, and from behind a fence that is never closed. A text is changed at all only if it starts
-- with a fence.
theorem unwrap_fenced (hw : allBlank w = true) (htag : '\n' ∉ tag) (hcode : ¬mark <:+: code) (rest : Text) :
    unwrap (w ++ mark ++ tag ++ '\n' :: code ++ '\n' :: mark ++ rest) = code ∧
      unwrap (w ++ mark ++ tag ++ '\n' :: code) = code ∧ ∀ t, unwrap t = t ↔ ¬Opens t := by
  refine ⟨?_, unwrap_of_not_closed hw htag hcode, fun t => unwrap_eq_self_iff⟩
  have hassoc : w ++ mark ++ tag ++ '\n' :: code ++ '\n' :: mark ++ rest =
      w ++ mark ++ tag ++ '\n' :: (code ++ '\n' :: (mark ++ rest)) := by simp
  have htake : (code ++ '\n' :: (mark ++ rest)).take (code.length + 1) = code ++ ['\n'] := by
    rw [List.take_append, List.take_of_length_le (Nat.le_succ _), Nat.add_sub_cancel_left]
    rfl
  rw [hassoc, unwrap_of_closed hw htag (find?_mark_append hcode rest), htake, dropFinalBreak_concat]

-- The tag and the code have backticks of their own, and the code ends with a line break and two of them.
theorem unwrap_fenced_backticks :
    let w := " \n\t".toList
    let tag := "\x60js \x60\x60\x60".toList
    let code := "a\x60\x60\n\x60\x60".toList
    let rest := "\n\x60\x60\x60\nb".toList
    allBlank w = true ∧ '\n' ∉ tag ∧ ¬mark <:+: code ∧
      unwrap (w ++ mark ++ tag ++ '\n' :: code ++ '\n' :: mark ++ rest) = code ∧
      unwrap (w ++ mark ++ tag ++ '\n' :: code) = code ∧ unwrap code = code := by
  intro w tag code rest
  have hw : allBlank w = true := by decide
  have htag : '\n' ∉ tag := by decide
  have hcode : ¬mark <:+: code := by decide
  obtain ⟨hclosed, hopen, hself⟩ := unwrap_fenced hw htag hcode rest
  have hplain : ¬Opens code := by rw [opens_iff]; decide
  exact ⟨hw, htag, hcode, hclosed, hopen, (hself code).mpr hplain⟩

end GhostText.Fence
