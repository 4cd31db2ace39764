import Mathlib.Data.List.DropRight
import GhostText.Proofs.Request.Stops
import GhostText.Proofs.Text.Content

namespace GhostText

open Text

variable {c : Cursor} {w : Window}

namespace Bound

-- Counted from the end, a bound keeps the last elements.
theorem since_neg {α : Type} {n : Int} (h : 0 < n) (xs : List α) : since (-n) xs = xs.rtake n.toNat := by
  have : resolve xs.length (-n) = xs.length - n.toNat := by
    rw [resolve, if_pos (by omega)]
    omega
  rw [since, this, List.rtake]

end Bound

namespace Window

-- The lines next to the cursor that there is room for.
def seenBefore (w : Window) (c : Cursor) : Text :=
  unlines (c.beforeLines.rtake w.before.toNat)

def seenAfter (w : Window) (c : Cursor) : Text :=
  unlines (c.afterLines.take w.after.toNat)

theorem seenBefore_isSuffix (w : Window) (c : Cursor) : w.seenBefore c <:+ c.before := by
  have := unlines_isSuffix (List.drop_suffix (c.beforeLines.length - w.before.toNat) c.beforeLines)
  rwa [Cursor.beforeLines, unlines_lines] at this

-- A window of a single line has the line of the cursor.
theorem lastLine_isSuffix_seenBefore (h : 0 < w.before) (c : Cursor) : lastLine c.before <:+ w.seenBefore c := by
  obtain ⟨n, hn⟩ : ∃ n, w.before.toNat = n + 1 := ⟨w.before.toNat - 1, by omega⟩
  have hlines : c.beforeLines = (lines c.before).dropLast ++ [lastLine c.before] := by
    rw [Cursor.beforeLines, ← lines_getLast, List.dropLast_concat_getLast]
  rw [seenBefore, hn, hlines, List.rtake_concat_succ]
  exact unlines_isSuffix (List.suffix_append _ [lastLine c.before])

end Window

namespace Options

-- A line, and those below it with the break that leads to them.
theorem append_below (x : Text) (ls : List Text) : x ++ below ls = unlines (x :: ls) := by
  cases ls
  case nil  => exact List.append_nil x
  case cons => rfl

theorem firstLine_append_below (h : 0 < w.after) (c : Cursor) :
    firstLine c.after ++ below (w.firstLines c.after).tail = w.seenAfter c := by
  obtain ⟨n, hn⟩ : ∃ n, w.after.toNat = n + 1 := ⟨w.after.toNat - 1, by omega⟩
  obtain ⟨line, more, hl⟩ := List.exists_cons_of_ne_nil (lines_ne_nil c.after)
  obtain rfl : line = firstLine c.after := by simpa [hl] using head?_lines c.after
  rw [append_below, Window.firstLines, Bound.upTo_of_nonneg (Int.le_of_lt h), Window.seenAfter, Cursor.afterLines, hl,
    hn, List.take_succ_cons, List.tail_cons]

theorem before_of (h : 0 < w.before) (c : Cursor) (accepted : Bool) :
    (Options.of c accepted w).before =
      w.seenBefore c ++ if (Options.of c accepted w).kind = .continueBelow then ['\n'] else [] := by
  have hlast : w.lastLines c.before = c.beforeLines.rtake w.before.toNat := Bound.since_neg h _
  rw [congrArg Options.before (of_eq c accepted w), Kind.options, hlast, Window.seenBefore]

theorem after_of (h : 0 < w.after) (hright : c.right = firstLine c.after) (accepted : Bool) :
    (if (Options.of c accepted w).kind = .redoSuffix then c.right else []) ++ (Options.of c accepted w).after =
      w.seenAfter c := by
  have hfirst : w.firstLines c.after = c.afterLines.take w.after.toNat := Bound.upTo_of_nonneg (Int.le_of_lt h) _
  rw [congrArg Options.after (of_eq c accepted w), Kind.options]
  by_cases hk : (Options.of c accepted w).kind = .redoSuffix
  case pos => rw [if_pos hk, if_pos hk, hright, firstLine_append_below h]
  case neg => rw [if_neg hk, if_neg hk, hfirst, List.nil_append, Window.seenAfter]

theorem generate_of (c : Cursor) (accepted : Bool) (w : Window) :
    (Options.of c accepted w).generate = false ↔ (Options.of c accepted w).kind = .doNotPredict := by
  rw [congrArg Options.generate (of_eq c accepted w), Kind.options]
  simp

-- Nothing is asked for in front of a longer rest of a line that holds nothing else.
theorem kind_of_eq_doNotPredict_iff (c : Cursor) (accepted : Bool) (w : Window) :
    (Options.of c accepted w).kind = .doNotPredict ↔ allBlank c.left = true ∧ 3 < (squeeze c.right).length := by
  have hblank : allBlank c.right = true ↔ (squeeze c.right).length = 0 := by
    rw [← squeeze_eq_nil_iff, List.length_eq_zero_iff]
  simp only [Options.of]
  split
  case isTrue h =>
    have htail : (squeeze c.right).length = 0 := by simpa using (Bool.and_eq_true_iff.mp h).2
    exact iff_of_false (by simp) (by omega)
  case isFalse =>
    split
    case isTrue h =>
      have htail := hblank.mp (Bool.and_eq_true_iff.mp h).2
      exact iff_of_false (by simp) (by omega)
    case isFalse hempty =>
      split
      case isTrue h =>
        have htail : (squeeze c.right).length ≤ 3 := of_decide_eq_true (Bool.and_eq_true_iff.mp h).2
        exact iff_of_false (by simp) (by omega)
      case isFalse hlong =>
        split
        case isTrue h =>
          have hleft : ¬allBlank c.left = true := by simpa [← squeeze_eq_nil_iff] using h
          exact iff_of_false (by simp) fun hd => hleft hd.1
        case isFalse h =>
          have hleft : allBlank c.left = true := squeeze_eq_nil_iff.mp (by simpa using h)
          have htail : (squeeze c.right).length ≠ 0 := fun h0 => hempty (by simp [hleft, hblank.mpr h0])
          have hlong : 0 < (squeeze c.right).length → shortTail < (squeeze c.right).length := by simpa using hlong
          exact iff_of_true rfl ⟨hleft, hlong (Nat.pos_of_ne_zero htail)⟩

-- A request that shows what stands around a cursor as it is, and declines just where nothing can be filled in.
structure Shows (o : Options) (c : Cursor) (w : Window) : Prop where
  before   : o.before = w.seenBefore c ++ if o.kind = .continueBelow then ['\n'] else []
  near     : w.seenBefore c <:+ c.before ∧ c.left <:+ w.seenBefore c
  after    : (if o.kind = .redoSuffix then c.right else []) ++ o.after = w.seenAfter c
  generate : o.generate = false ↔ o.kind = .doNotPredict
  declines : o.kind = .doNotPredict ↔ allBlank c.left = true ∧ 3 < (squeeze c.right).length

-- Wherever a cursor stands, a request shows the lines around it that there is room for. Behind the last of those before
-- it an answer below starts a new line, and the rest of the cursor's line is left out just if it is written anew.
theorem shows_of (hb : 1 ≤ w.before) (ha : 1 ≤ w.after) (t : Text) (offset : Int) (accepted : Bool) :
    (Options.of (.ofText t offset) accepted w).Shows (.ofText t offset) w where
  before   := before_of hb _ accepted
  near     := ⟨w.seenBefore_isSuffix _, w.lastLine_isSuffix_seenBefore hb (.ofText t offset)⟩
  after    := after_of ha rfl accepted
  generate := generate_of _ accepted w
  declines := kind_of_eq_doNotPredict_iff _ accepted w

-- Two lines on either side, where the rest of the cursor's own line is short.
theorem shows_of_call :
    let w : Window := ⟨2, 2⟩
    let c := Cursor.ofText "a\r\nb\r\nf(x);\nc\nd".toList 9
    1 ≤ w.before ∧ 1 ≤ w.after ∧ (Options.of c false w).Shows c w ∧ (Options.of c false w).kind = .redoSuffix ∧
      w.seenBefore c = "b\nf(x".toList ∧ c.right ++ (Options.of c false w).after = ");\nc".toList := by
  intro w c
  have hb : 1 ≤ w.before := by decide
  have ha : 1 ≤ w.after := by decide
  have hshows : (Options.of c false w).Shows c w := shows_of hb ha _ 9 false
  exact ⟨hb, ha, hshows, by decide, by decide, by decide⟩

end Options
end GhostText
