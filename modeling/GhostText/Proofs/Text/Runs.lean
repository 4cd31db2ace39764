import Mathlib.Data.List.SplitBy
import GhostText.Proofs.Text.NormalForm

namespace GhostText.Text

variable {s t x w : Text} {b : Bool}

-- The longest pieces of a text in which all characters are blank or none is.
def runs (t : Text) : List Text :=
  t.splitBy fun c d => isBlank c == isBlank d

def breaksLine (run : Text) : Bool :=
  allBlank run && run.contains '\n'

-- The runs of blanks with a line break in them that come behind something else.
def breakingRuns (t : Text) : List Text :=
  ((runs t).dropWhile allBlank).filter breaksLine

theorem runs_of_forall (hx : x ≠ []) (h : ∀ c ∈ x, isBlank c = b) : runs x = [x] := by
  apply List.splitBy_of_isChain hx
  apply List.Pairwise.isChain
  exact List.pairwise_of_forall_mem_list fun c hc d hd => by simp [h c hc, h d hd]

theorem runs_of_allBlank (hw : w ≠ []) (h : allBlank w = true) : runs w = [w] :=
  runs_of_forall hw (List.all_eq_true.mp h)

theorem runs_append (h : ∀ c ∈ s.getLast?, ∀ d ∈ t.head?, isBlank c ≠ isBlank d) : runs (s ++ t) = runs s ++ runs t :=
  List.splitBy_append fun c hc d hd => beq_eq_false_iff_ne.mpr (h c hc d hd)

-- A run without blanks.
structure Solid (x : Text) : Prop where
  ne_nil : x ≠ []
  plain  : ∀ c ∈ x, isBlank c = false

namespace Solid

theorem squeeze_eq (h : Solid x) : squeeze x = x :=
  List.filter_eq_self.mpr fun c hc => by simp [h.plain c hc]

theorem squeeze_ne_nil (h : Solid x) : squeeze x ≠ [] := by
  rw [h.squeeze_eq]
  exact h.ne_nil

theorem not_allBlank (h : Solid x) : ¬allBlank x = true := by
  rw [← squeeze_eq_nil_iff]
  exact h.squeeze_ne_nil

theorem lineFeed_not_mem (h : Solid x) : '\n' ∉ x :=
  fun hm => by simpa using h.plain _ hm

end Solid

-- A text that starts with a word, if with anything, and goes on with gaps and further words. Only the last gap may be
-- empty.
inductive Worded : Text → Prop
  | nil : Worded []
  | word {x w t : Text} (hword : Solid x) (hgap : allBlank w = true) (hmax : w = [] → t = []) (rest : Worded t) :
      Worded (x ++ (w ++ t))

namespace Worded

theorem head? (h : Worded t) : ∀ c ∈ t.head?, isBlank c = false := by
  cases h
  case nil => simp
  case word x w t hword _ _ _ =>
    rw [List.head?_append_of_ne_nil _ hword.ne_nil]
    exact fun c hc => hword.plain c (List.mem_of_mem_head? hc)

theorem of_head? (h : ∀ c ∈ t.head?, isBlank c = false) : Worded t := by
  induction hn : t.length using Nat.strong_induction_on generalizing t
  case h n ih =>
    subst hn
    cases t
    case nil => exact .nil
    case cons d t =>
      have hd : isBlank d = false := h d rfl
      let v := t.dropWhile fun c => !isBlank c
      have ht : d :: t = d :: t.takeWhile (fun c => !isBlank c) ++ (v.takeWhile isBlank ++ trimLeft isBlank v) := by
        rw [trimLeft, List.takeWhile_append_dropWhile, List.cons_append, List.takeWhile_append_dropWhile]
      have hlt : (trimLeft isBlank v).length < (d :: t).length :=
        Nat.lt_succ_of_le ((List.dropWhile_suffix _).trans (List.dropWhile_suffix _)).length_le
      rw [ht]
      refine .word ⟨List.cons_ne_nil d _, ?_⟩ ?_ ?_ (ih _ hlt (head?_trimLeft v) rfl)
      case refine_1 =>
        intro c hc
        rcases List.mem_cons.mp hc with rfl | hc
        case inl => exact hd
        case inr => simpa using List.mem_takeWhile_imp hc
      case refine_2 => exact allBlank_takeWhile v
      case refine_3 =>
        -- what follows the word starts with a blank, if there is anything
        intro hw
        have hblank : ∀ c ∈ v.head?, isBlank c = true := fun c hc => by simpa using head?_trimLeft t c hc
        cases hv : v
        case nil => rfl
        case cons e v => simp [hv, hblank e (by simp [hv])] at hw

theorem runs_word (rest : Worded t) (hword : Solid x) (hgap : allBlank w = true) (hmax : w = [] → t = []) :
    runs (x ++ (w ++ t)) = x :: (runs w ++ runs t) := by
  have hblank : ∀ c ∈ w, isBlank c = true := List.all_eq_true.mp hgap
  have hright : runs (w ++ t) = runs w ++ runs t := by
    apply runs_append
    intro c hc d hd
    simp [hblank c (List.mem_of_mem_getLast? hc), rest.head? d hd]
  have hleft : runs (x ++ (w ++ t)) = runs x ++ runs (w ++ t) := by
    apply runs_append
    intro c hc d hd
    have hw : w ≠ [] := by
      rintro rfl
      simp [hmax rfl] at hd
    rw [List.head?_append_of_ne_nil _ hw] at hd
    simp [hword.plain c (List.mem_of_mem_getLast? hc), hblank d (List.mem_of_mem_head? hd)]
  rw [hleft, hright, runs_of_forall hword.ne_nil hword.plain, List.singleton_append]

end Worded

-- Behind an empty line or indentation the line feeds of a text in normal form are counted anew.
theorem breaks_normalForm_append (hs : squeeze (lastLine s) = []) (t : Text) :
    breaks (normalForm (s ++ t)) = breaks (normalForm s) + breaks (normalForm t) := by
  have hcontent : content (s ++ t) = (content s).dropLast ++ content t := by
    rw [content_append, hs, List.nil_append, ← content_head, List.cons_head_tail]
  rw [breaks_normalForm, breaks_normalForm, breaks_normalForm, hcontent,
    List.dropLast_append_of_ne_nil (content_ne_nil t), List.filter_append, List.length_append]

theorem breaks_normalForm_append_of_not_mem (hs : '\n' ∉ s) (ht : t = [] ∨ squeeze (firstLine t) ≠ []) :
    breaks (normalForm (s ++ t)) = breaks (normalForm t) := by
  rw [breaks_normalForm, breaks_normalForm]
  rcases ht with rfl | ht
  case inl => rw [List.append_nil, content_of_not_mem hs]; rfl
  case inr =>
    have ht' : content t = squeeze (firstLine t) :: (content t).tail := by
      rw [← content_head, List.cons_head_tail]
    rw [content_append, content_of_not_mem hs, lastLine_of_not_mem hs, ht']
    cases (content t).tail <;> simp [ht]

theorem breaks_normalForm_gap (hword : Solid x) (hgap : allBlank w = true) (hm : '\n' ∈ w) :
    breaks (normalForm (x ++ w)) = 1 := by
  rw [breaks_normalForm, ← dropLast_condense, condense_content_append x hgap, if_pos hm,
    content_of_not_mem hword.lineFeed_not_mem]
  simp [hword.squeeze_ne_nil]

-- A gap has one line feed left in normal form if it reaches over a line break, and none if it does not.
theorem breaks_normalForm_word (hword : Solid x) (hgap : allBlank w = true) (rest : Worded t) :
    breaks (normalForm (x ++ (w ++ t))) = (if '\n' ∈ w then 1 else 0) + breaks (normalForm t) := by
  rw [← List.append_assoc]
  split
  case isTrue hm =>
    have hlast : squeeze (lastLine (x ++ w)) = [] := by
      rw [lastLine_append_of_mem x hm, ← content_getLast]
      exact content_of_allBlank hgap _ (List.getLast_mem _)
    rw [breaks_normalForm_append hlast, breaks_normalForm_gap hword hgap hm]
  case isFalse hm =>
    rw [Nat.zero_add]
    apply breaks_normalForm_append_of_not_mem (by simp [hword.lineFeed_not_mem, hm])
    cases t
    case nil => exact .inl rfl
    case cons d t =>
      have hd : isBlank d = false := rest.head? d rfl
      right
      simp [firstLine, lineFeed_ne_of_isBlank hd, squeeze, hd]

theorem filter_runs_of_allBlank (hw : allBlank w = true) :
    ((runs w).filter breaksLine).length = if '\n' ∈ w then 1 else 0 := by
  by_cases hne : w = []
  case pos => rw [hne]; rfl
  case neg =>
    rw [runs_of_allBlank hne hw]
    by_cases hm : '\n' ∈ w <;> simp [breaksLine, hw, hm]

theorem Worded.length_filter_runs (h : Worded t) : ((runs t).filter breaksLine).length = breaks (normalForm t) := by
  induction h
  case nil => rfl
  case word x w t hword hgap hmax rest ih =>
    have hx : ¬breaksLine x = true := by simp [breaksLine, hword.not_allBlank]
    rw [rest.runs_word hword hgap hmax, List.filter_cons_of_neg hx, List.filter_append, List.length_append,
      filter_runs_of_allBlank hgap, ih, breaks_normalForm_word hword hgap rest]

theorem Worded.dropWhile_runs (h : Worded t) : (runs t).dropWhile allBlank = runs t := by
  cases h
  case nil => rfl
  case word x w t hword hgap hmax rest =>
    rw [rest.runs_word hword hgap hmax, List.dropWhile_cons_of_neg hword.not_allBlank]

theorem breakingRuns_eq (t : Text) : breakingRuns t = (runs (trimLeft isBlank t)).filter breaksLine := by
  have hgap := List.all_eq_true.mp (allBlank_takeWhile t)
  have hword : ∀ c ∈ (trimLeft isBlank t).head?, isBlank c = false := head?_trimLeft t
  have hruns : runs t = runs (t.takeWhile isBlank) ++ runs (trimLeft isBlank t) := by
    conv => lhs; rw [← List.takeWhile_append_dropWhile (p := isBlank) (l := t)]
    apply runs_append
    intro c hc d hd
    simp [hgap c (List.mem_of_mem_getLast? hc), hword d hd]
  have hblank : ∀ run ∈ runs (t.takeWhile isBlank), allBlank run = true := by
    by_cases hw : t.takeWhile isBlank = []
    case pos => simp [hw, runs]
    case neg =>
      rw [runs_of_allBlank hw (allBlank_takeWhile t)]
      simp [allBlank_takeWhile]
  rw [breakingRuns, hruns, List.dropWhile_append_of_pos hblank, (Worded.of_head? hword).dropWhile_runs]

theorem normalForm_trimLeft (t : Text) : normalForm (trimLeft isBlank t) = normalForm t := by
  have h := normalForm_indent (s := []) rfl (allBlank_takeWhile t) (trimLeft isBlank t)
  rw [List.nil_append, List.nil_append, trimLeft, List.takeWhile_append_dropWhile] at h
  exact h.symm

theorem length_breakingRuns (t : Text) : (breakingRuns t).length = breaks (normalForm t) := by
  rw [breakingRuns_eq, (Worded.of_head? (head?_trimLeft t)).length_filter_runs, normalForm_trimLeft]

end GhostText.Text
