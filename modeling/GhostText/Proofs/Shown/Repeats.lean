import Mathlib.Algebra.Order.Ring.Rat
import GhostText.Proofs.Shown.Edges
import GhostText.Proofs.Text.Longest
import GhostText.Text.Distance

namespace GhostText.Repeat

open Text

variable {like like' : Likeness} {near near' known ks ls : List Text} {line s t : Text} {limit : Int} {n m : Nat}

-- A line that holds something repeats one of those nearby that do if it starts with it or is like it, blanks at the
-- ends aside.
def IsRepeat (like : Likeness) (near : List Text) (line : Text) : Prop :=
  trim isBlank line ≠ [] ∧ ∃ k ∈ near, trim isBlank k ≠ [] ∧
    (trim isBlank k <+: trim isBlank line ∨ like (trim isBlank line) (trim isBlank k) = true)

theorem IsRepeat.mono (hnear : near ⊆ near') (hlike : ∀ s t, like s t = true → like' s t = true)
    (h : IsRepeat like near line) : IsRepeat like' near' line :=
  have ⟨hline, k, hk, hne, hs⟩ := h
  ⟨hline, k, hnear hk, hne, hs.imp_right (hlike _ _)⟩

theorem not_isRepeat_nil : ¬IsRepeat like near [] :=
  fun h => h.1 rfl

-- A line that is passed over when repeats are looked for.
def repeatsNone (like : Likeness) (ks : List Text) (line : Text) : Bool :=
  (repeated? like ks line).isNone

theorem repeatsNone_iff :
    repeatsNone like (candidates known limit) line = true ↔ ¬IsRepeat like (Bound.upTo limit known) line := by
  by_cases hl : trim isBlank line = []
  case pos => simp [repeatsNone, repeated?, IsRepeat, hl]
  case neg => simp [repeatsNone, repeated?, IsRepeat, hl, candidates]

-- The number of the first repeat is the number of lines in front of it.
theorem exists_takeWhile_of_first? {k : Text} (h : first? like ks ls n = some (m, k)) :
    ∃ i, m = n + i ∧ ls.take i = ls.takeWhile (repeatsNone like ks) := by
  induction ls generalizing n
  case nil => simp [first?] at h
  case cons line ls ih =>
    rw [first?] at h
    split at h
    case h_1 hr =>
      obtain ⟨rfl, rfl⟩ : n = m ∧ _ = k := by simpa using h
      exact ⟨0, rfl, by simp [repeatsNone, hr]⟩
    case h_2 hr =>
      obtain ⟨i, rfl, hi⟩ := ih h
      exact ⟨i + 1, by omega, by simp [repeatsNone, hr, hi]⟩

theorem takeWhile_of_first?_eq_none (h : first? like ks ls n = none) : ls.takeWhile (repeatsNone like ks) = ls := by
  induction ls generalizing n
  case nil => rfl
  case cons line ls ih =>
    rw [first?] at h
    split at h
    case h_1    => simp at h
    case h_2 hr => simp [repeatsNone, hr, ih h]

theorem cut_eq (like : Likeness) (t : Text) (known : List Text) (limit : Int) :
    cut like t known limit = unlines ((lines t).takeWhile (repeatsNone like (candidates known limit))) := by
  simp only [cut]
  split
  case h_1 hf =>
    obtain ⟨i, rfl, hi⟩ := exists_takeWhile_of_first? hf
    rw [Nat.zero_add, hi]
  case h_2 hf => rw [takeWhile_of_first?_eq_none hf, unlines_lines]

-- Whole lines from the front of a text, no repeat among them.
structure Fresh (like : Likeness) (near : List Text) (t s : Text) : Prop where
  whole : ∃ n, s = unlines ((lines t).take n)
  fresh : ∀ line ∈ lines s, ¬IsRepeat like near line

theorem Fresh.anti (hnear : near ⊆ near') (hlike : ∀ s t, like s t = true → like' s t = true)
    (h : Fresh like' near' t s) : Fresh like near t s :=
  ⟨h.whole, fun line hl hr => h.fresh line hl (hr.mono hnear hlike)⟩

theorem fresh_self_iff : Fresh like near t t ↔ ∀ line ∈ lines t, ¬IsRepeat like near line :=
  ⟨Fresh.fresh, fun h => ⟨⟨(lines t).length, by rw [List.take_length, unlines_lines]⟩, h⟩⟩

theorem Fresh.isPrefix_cut (h : Fresh like (Bound.upTo limit known) t s) : s <+: cut like t known limit := by
  obtain ⟨n, rfl⟩ := h.whole
  rw [cut_eq]
  by_cases hn : (lines t).take n = []
  case pos => rw [hn]; exact List.nil_prefix
  case neg =>
    have hlines : lines (unlines ((lines t).take n)) = (lines t).take n :=
      lines_unlines hn fun k hk => lineFeed_not_mem_of_mem_lines (List.mem_of_mem_take hk)
    have hkeep : ∀ line ∈ (lines t).take n, repeatsNone like (candidates known limit) line = true :=
      fun line hl => repeatsNone_iff.mpr (h.fresh line (hlines.symm ▸ hl))
    apply unlines_isPrefix
    conv => rhs; rw [← List.take_append_drop n (lines t), List.takeWhile_append_of_pos hkeep]
    exact List.prefix_append _ _

theorem fresh_cut (like : Likeness) (t : Text) (known : List Text) (limit : Int) :
    Fresh like (Bound.upTo limit known) t (cut like t known limit) := by
  have hp := List.takeWhile_prefix (l := lines t) (repeatsNone like (candidates known limit))
  rw [cut_eq]
  constructor
  case whole => exact ⟨_, congrArg unlines (List.prefix_iff_eq_take.mp hp)⟩
  case fresh =>
    intro line hl
    rcases mem_of_mem_lines_unlines (fun k hk => lineFeed_not_mem_of_mem_lines (hp.mem hk)) hl with hl | rfl
    case inl => exact repeatsNone_iff.mp (List.mem_takeWhile_imp hl)
    case inr => exact not_isRepeat_nil

theorem longestPart_cut (like : Likeness) (t : Text) (known : List Text) (limit : Int) :
    LongestPart (Fresh like (Bound.upTo limit known) t) (cut like t known limit) t :=
  ⟨cut_isPrefix like t known limit, fresh_cut like t known limit, fun _ _ h => h.isPrefix_cut⟩

theorem cut_eq_self_iff :
    cut like t known limit = t ↔ ∀ line ∈ lines t, ¬IsRepeat like (Bound.upTo limit known) line :=
  (longestPart_cut like t known limit).eq_self_iff.trans fresh_self_iff

-- The more lines count and the less alike they must be, the more is cut off.
theorem cut_anti {more : Int} (hnear : Bound.upTo limit known ⊆ Bound.upTo more known)
    (hlike : ∀ s t, like s t = true → like' s t = true) (t : Text) :
    cut like' t known more <+: cut like t known limit :=
  (longestPart_cut like' t known more).isPrefix_of_imp (longestPart_cut like t known limit)
    fun _ h => h.anti hnear hlike

-- However lines are scored, the text is kept up to the first line that repeats one of the next lines below: as many
-- lines as there are without a repeat, all of them if there is none. What is kept is kept again, and a higher limit or
-- a lower score leaves a first part of it.
theorem longest_cut_reaching [LE α] [DecidableLE α] (score : Text → Text → α) (least : α)
    (known : List Text) (limit : Nat) (t : Text) :
    let kept := cut (reaching score least) t known limit
    LongestPart (Fresh (reaching score least) (known.take limit) t) kept t ∧
      (kept = t ↔ ∀ line ∈ lines t, ¬IsRepeat (reaching score least) (known.take limit) line) ∧
      cut (reaching score least) kept known limit = kept ∧
      (∀ more : Nat, limit ≤ more → cut (reaching score least) t known more <+: kept) ∧
      (IsTrans α (· ≤ ·) → ∀ lower ≤ least, cut (reaching score lower) t known limit <+: kept) := by
  intro kept
  have hnear : Bound.upTo limit known = known.take limit := Excerpt.upTo_natCast limit known
  refine ⟨hnear ▸ longestPart_cut .., hnear ▸ cut_eq_self_iff, ?_, fun more hm => ?_, fun htrans lower hl => ?_⟩
  case refine_1 => exact cut_eq_self_iff.mpr (fresh_cut ..).fresh
  case refine_2 =>
    apply cut_anti _ (fun _ _ => id)
    rw [hnear, Excerpt.upTo_natCast]
    exact (List.take_prefix_take_left hm).subset
  case refine_3 =>
    apply cut_anti (List.Subset.refl _)
    intro line k h
    exact decide_eq_true (htrans.trans _ _ _ hl (of_decide_eq_true h))

-- How much of the longer text is the same in both, in percent.
def percent (s t : Text) : ℚ :=
  100 - 100 * distance s t / max s.length t.length

def generated : Text :=
  "w = 2\n\n  return w * h\ndone!\nend".toList

def below : List Text :=
  ["".toList, "end".toList, "  return w*h".toList, "done".toList]

-- The last line is a repeat, with one line more below the one before it is too, and with less to score the product.
theorem longest_cut_reaching_generated :
    let kept := cut (reaching percent 90) generated below 3
    kept = "w = 2\n\n  return w * h\ndone!".toList ∧ 3 ≤ 4 ∧ (80 : ℚ) ≤ 90 ∧
      cut (reaching percent 90) generated below 4 = "w = 2\n\n  return w * h".toList ∧
      cut (reaching percent 80) generated below 3 = "w = 2\n".toList ∧
      LongestPart (Fresh (reaching percent 90) (below.take 3) generated) kept generated ∧
      cut (reaching percent 90) kept below 3 = kept ∧
      cut (reaching percent 90) generated below 4 <+: kept ∧
      cut (reaching percent 80) generated below 3 <+: kept := by
  intro kept
  have hscore : (80 : ℚ) ≤ 90 := by decide +kernel
  obtain ⟨hlongest, -, hagain, hmore, hlower⟩ := longest_cut_reaching percent 90 below 3 generated
  exact ⟨by decide +kernel, by decide, hscore, by decide +kernel, by decide +kernel, hlongest, hagain,
    hmore 4 (by decide), hlower inferInstance 80 hscore⟩

end GhostText.Repeat
