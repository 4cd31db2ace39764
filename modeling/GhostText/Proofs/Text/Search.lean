import Mathlib.Data.List.Infix
import GhostText.Text.Search
import GhostText.Proofs.Text.Content

namespace GhostText.Text

variable {needle t : Text} {i : Nat}

theorem find?_eq_some_iff :
    find? needle t = some i ↔ needle <+: t.drop i ∧ ∀ j < i, ¬needle <+: t.drop j := by
  induction t generalizing i
  case nil =>
    cases needle <;> simp [find?]
    constructor
    case mp  => rintro rfl; simp
    case mpr => exact fun h => (Nat.le_zero.mp (h 0)).symm
  case cons c t ih =>
    rw [find?]
    by_cases h : needle <+: c :: t
    case pos =>
      simp only [List.isPrefixOf_iff_prefix, h, if_true, Option.some.injEq]
      constructor
      case mp  => rintro rfl; simpa using h
      case mpr =>
        rintro ⟨_, hj⟩
        by_contra hi
        exact hj 0 (by omega) (by simpa using h)
    case neg =>
      simp only [List.isPrefixOf_iff_prefix, h, if_false, Option.map_eq_some_iff, ih]
      constructor
      case mp =>
        rintro ⟨k, ⟨hk, hj⟩, rfl⟩
        refine ⟨by simpa using hk, fun j hlt => ?_⟩
        cases j
        case zero   => simpa using h
        case succ j => simpa using hj j (by omega)
      case mpr =>
        rintro ⟨hi, hj⟩
        cases i
        case zero   => exact absurd (by simpa using hi) h
        case succ i => exact ⟨i, ⟨by simpa using hi, fun j hlt => by simpa using hj (j + 1) (by omega)⟩, rfl⟩

theorem find?_ne_none_iff : find? needle t ≠ none ↔ needle <:+: t := by
  constructor
  case mp =>
    intro h
    obtain ⟨i, hi⟩ := Option.ne_none_iff_exists'.mp h
    exact (find?_eq_some_iff.mp hi).1.isInfix.trans (List.drop_suffix i t).isInfix
  case mpr =>
    intro h
    induction t
    case nil           => simp [find?, List.infix_nil.mp h]
    case cons c t ih =>
      rw [find?]
      split
      case isTrue      => simp
      case isFalse hp  =>
        have hp : ¬needle <+: c :: t := by simpa using hp
        simpa using ih ((List.infix_cons_iff.mp h).resolve_left hp)

-- A piece of text does not reach over a character that it does not have.
theorem isPrefix_of_append_cons {u v : Text} {c : Char} (h : needle <+: u ++ c :: v) (hc : c ∉ needle) :
    needle <+: u := by
  by_cases hlen : needle.length ≤ u.length
  case pos => exact List.prefix_of_prefix_length_le h (List.prefix_append _ _) hlen
  case neg =>
    have hu : u ++ [c] <+: u ++ c :: v := ⟨v, by simp⟩
    have hlt : (u ++ [c]).length ≤ needle.length := by simpa using Nat.succ_le_of_lt (Nat.not_le.mp hlen)
    have hs : u ++ [c] <+: needle := List.prefix_of_prefix_length_le hu h hlt
    exact absurd (hs.mem (by simp)) hc

theorem add_length_le_of_find? (h : find? needle t = some i) : i + needle.length ≤ t.length := by
  obtain ⟨hp, hj⟩ := find?_eq_some_iff.mp h
  by_cases hi : i ≤ t.length
  case pos =>
    have := hp.length_le
    rw [List.length_drop] at this
    omega
  case neg =>
    have hn : needle = [] := by simpa [List.drop_eq_nil_of_le (Nat.le_of_not_le hi)] using hp
    exact absurd (by simp [hn]) (hj 0 (by omega))

theorem not_infix_take_of_find? (hn : needle ≠ []) (h : find? needle t = some i) : ¬needle <:+: t.take i := by
  intro hi
  obtain ⟨j, hj⟩ := Option.ne_none_iff_exists'.mp (find?_ne_none_iff.mpr hi)
  have hlt : j < i := by
    have hle := (add_length_le_of_find? hj).trans (List.length_take_le i t)
    have hpos := List.length_pos_iff.mpr hn
    omega
  have hp : (t.take i).drop j <+: t.drop j := by
    rw [List.drop_take]
    exact List.take_prefix _ _
  exact (find?_eq_some_iff.mp h).2 j hlt ((find?_eq_some_iff.mp hj).1.trans hp)

-- A piece of text that does not start with a blank is preceded by blanks only if it begins the text, indentation
-- aside.
theorem allBlank_take_iff (hn : ∀ c ∈ needle.head?, isBlank c = false) (h : find? needle t = some i) :
    allBlank (t.take i) = true ↔ needle <+: trimLeft isBlank t := by
  obtain ⟨hp, hj⟩ := find?_eq_some_iff.mp h
  constructor
  case mp =>
    intro hb
    cases needle
    case nil => exact List.nil_prefix
    case cons c needle =>
      have hc : isBlank c = false := hn c rfl
      obtain ⟨r, hr⟩ := hp
      have ht : t = t.take i ++ (c :: needle ++ r) := by rw [hr, List.take_append_drop]
      have : trimLeft isBlank t = c :: needle ++ r := by
        rw [ht, trimLeft, List.dropWhile_append_of_pos (by simpa [allBlank] using hb)]
        simp [hc]
      exact this ▸ List.prefix_append _ _
  case mpr =>
    intro ht
    have hw : trimLeft isBlank t = t.drop (t.takeWhile isBlank).length := by
      have := congrArg (List.drop (t.takeWhile isBlank).length)
        (List.takeWhile_append_dropWhile (p := isBlank) (l := t))
      rwa [List.drop_left] at this
    have hi : i ≤ (t.takeWhile isBlank).length := by
      by_contra hlt
      exact hj _ (Nat.lt_of_not_le hlt) (hw ▸ ht)
    have : t.take i <+: t.takeWhile isBlank :=
      List.prefix_of_prefix_length_le (List.take_prefix _ _) (List.takeWhile_prefix _)
        (Nat.le_trans (List.length_take_le _ _) hi)
    simp only [allBlank, List.all_eq_true]
    exact fun c hc => List.mem_takeWhile_imp (this.mem hc)

theorem head?_trimLeft {p : Char → Bool} (t : Text) : ∀ c ∈ (trimLeft p t).head?, p c = false := by
  intro c hc
  have := List.head?_dropWhile_not p t
  rw [trimLeft] at hc
  simpa [Option.mem_def.mp hc] using this

theorem trimRight_isPrefix {p : Char → Bool} (t : Text) : trimRight p t <+: t := by
  have := List.dropWhile_suffix p (l := t.reverse)
  rwa [← List.reverse_prefix, List.reverse_reverse] at this

theorem head?_trimRight (h : ∀ c ∈ t.head?, isBlank c = false) :
    ∀ c ∈ (trimRight isBlank t).head?, isBlank c = false := by
  intro c hc
  obtain ⟨w, ht, _⟩ := trimRight_append_blanks t
  apply h
  rw [ht, List.head?_append, Option.mem_def.mp hc]
  rfl

theorem findLast?_eq_none_iff {x : Char} : findLast? x t = none ↔ x ∉ t := by
  induction t
  case nil => simp [findLast?]
  case cons c t ih =>
    simp only [findLast?, List.mem_cons]
    cases h : findLast? x t
    case some => simp [h] at ih; simp [ih]
    case none => simp only [h, true_iff] at ih; simp [ih, eq_comm]

end GhostText.Text
