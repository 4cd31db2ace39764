import GhostText.Proofs.Text.Search

namespace GhostText.Text

variable {s t : Text} {p : Char → Bool} {c : Char}

theorem isBlank_of_isSpaceOrTab (h : isSpaceOrTab c = true) : isBlank c = true := by
  have : c = ' ' ∨ c = '\t' := by simpa [isSpaceOrTab] using h
  rcases this with rfl | rfl <;> decide

theorem isSpaceOrTab_eq_false (h : isBlank c = false) : isSpaceOrTab c = false := by
  rw [← Bool.not_eq_true]
  exact fun hb => Bool.eq_false_iff.mp h (isBlank_of_isSpaceOrTab hb)

-- Nothing but spaces and tabs.
def OnlySpaces (t : Text) : Prop :=
  ∀ c ∈ t, isSpaceOrTab c = true

theorem OnlySpaces.allBlank (h : OnlySpaces t) : allBlank t = true :=
  List.all_eq_true.mpr fun c hc => isBlank_of_isSpaceOrTab (h c hc)

theorem OnlySpaces.lineFeed_not_mem (h : OnlySpaces t) : '\n' ∉ t :=
  fun hm => absurd (h _ hm) (by decide)

theorem OnlySpaces.of_isPrefix (h : OnlySpaces t) (hs : s <+: t) : OnlySpaces s :=
  fun c hc => h c (hs.mem hc)

theorem mem_head?_of_isPrefix (h : s <+: t) (hc : c ∈ s.head?) : c ∈ t.head? := by
  obtain ⟨r, rfl⟩ := h
  rw [List.head?_append, Option.mem_def.mp hc]
  rfl

theorem mem_getLast?_of_isSuffix (h : s <:+ t) (hc : c ∈ s.getLast?) : c ∈ t.getLast? := by
  obtain ⟨r, rfl⟩ := h
  rw [List.getLast?_append, Option.mem_def.mp hc]
  rfl

theorem trimLeft_isPrefix_trimLeft (p : Char → Bool) (h : s <+: t) : trimLeft p s <+: trimLeft p t := by
  obtain ⟨r, rfl⟩ := h
  simp only [trimLeft, List.dropWhile_append]
  split
  case isTrue hs  => simp [List.isEmpty_iff.mp hs]
  case isFalse hs => exact List.prefix_append _ _

theorem trimLeft_trimLeft (h : ∀ c, p c = true → isBlank c = true) (t : Text) :
    trimLeft isBlank (trimLeft p t) = trimLeft isBlank t := by
  induction t
  case nil => rfl
  case cons c t ih =>
    by_cases hc : p c = true
    case pos => simpa [trimLeft, hc, h c hc] using ih
    case neg => simp [trimLeft, hc]

theorem squeeze_trimLeft_of (h : ∀ c, p c = true → isBlank c = true) (t : Text) :
    squeeze (trimLeft p t) = squeeze t := by
  rw [← squeeze_trimLeft, trimLeft_trimLeft h, squeeze_trimLeft]

theorem squeeze_trim_of (h : ∀ c, p c = true → isBlank c = true) (t : Text) : squeeze (trim p t) = squeeze t := by
  rw [trim, trimRight, squeeze_reverse, ← trimLeft, squeeze_trimLeft_of h, squeeze_reverse, List.reverse_reverse,
    squeeze_trimLeft_of h]

theorem trim_eq_nil_iff : trim isBlank t = [] ↔ allBlank t = true := by
  rw [← squeeze_eq_nil_iff]
  constructor
  case mp  => intro h; rw [← squeeze_trim_of (fun _ => id), h, squeeze_nil]
  case mpr => intro h; rw [trim, trimLeft_eq_nil_iff.mpr h]; rfl

theorem trimLeft_eq_self (h : ∀ c ∈ t.head?, p c = false) : trimLeft p t = t := by
  cases t
  case nil  => rfl
  case cons => simpa [trimLeft] using h

theorem trimLeft_append (t : Text) (h : squeeze s ≠ []) : trimLeft isBlank (s ++ t) = trimLeft isBlank s ++ t := by
  have : (s.dropWhile isBlank).isEmpty = false := by simpa [squeeze_eq_nil_iff, allBlank] using h
  simp [trimLeft, List.dropWhile_append, this]

theorem trimLeft_append_of_blank (t : Text) (h : squeeze s = []) :
    trimLeft isBlank (s ++ t) = trimLeft isBlank t :=
  List.dropWhile_append_of_pos (by simpa [allBlank] using squeeze_eq_nil_iff.mp h)

theorem getLast?_trimRight (p : Char → Bool) (t : Text) : ∀ c ∈ (trimRight p t).getLast?, p c = false := by
  intro c hc
  rw [trimRight, List.getLast?_reverse] at hc
  exact head?_trimLeft t.reverse c hc

theorem head?_trim (p : Char → Bool) (t : Text) : ∀ c ∈ (trim p t).head?, p c = false :=
  fun c hc => head?_trimLeft t c (mem_head?_of_isPrefix (trimRight_isPrefix _) hc)

theorem length_takeWhile_add (p : Char → Bool) (t : Text) :
    (t.takeWhile p).length + (trimLeft p t).length = t.length := by
  rw [trimLeft, ← List.length_append, List.takeWhile_append_dropWhile]

theorem drop_length_takeWhile (p : Char → Bool) (t : Text) : t.drop (t.takeWhile p).length = trimLeft p t := by
  conv => lhs; arg 2; rw [← List.takeWhile_append_dropWhile (p := p) (l := t)]
  exact List.drop_left

theorem takeWhile_append_trim (p : Char → Bool) (t : Text) :
    t.takeWhile p ++ trim p t ++ ((trimLeft p t).reverse.takeWhile p).reverse = t := by
  rw [List.append_assoc, trim, trimRight, ← List.reverse_append, List.takeWhile_append_dropWhile, List.reverse_reverse,
    trimLeft, List.takeWhile_append_dropWhile]

end GhostText.Text
