import GhostText.Proofs.Shown.Excerpt

namespace GhostText

open Text

namespace Repeat

theorem cut_isPrefix (like : Likeness) (t : Text) (known : List Text) (limit : Int) : cut like t known limit <+: t := by
  simp only [cut]
  split
  case h_2 => exact List.prefix_refl t
  case h_1 n _ _ =>
    have := unlines_take_isPrefix (lines t) n
    rwa [unlines_lines] at this

end Repeat

namespace Excerpt

variable {t gap core rest lead trail : Text} {keepTrailing : Bool}

-- What is left of the text behind the first index when it is cut at the last one and at the lines that repeat.
def kept (rule : RepeatRule) (p : Prediction) (c : Cursor) (typed : Int) : Text :=
  let first := firstIndex c p.insertText typed
  let window := Bound.between first (lastIndex c p.kind p.insertText first) p.insertText
  if p.kind = .continueBelow then Repeat.cut rule.like window c.afterLines rule.lines else window

-- It is shown up to the brackets, and but for its edges.
theorem text_of (rule : RepeatRule) (p : Prediction) (c : Cursor) (typed : Int) : (of rule p c typed).text =
    edgeSpaces (!allBlank c.right && p.kind ≠ .redoSuffix) (Brackets.cut (kept rule p c typed) c.before) :=
  rfl

theorem kept_isPrefix_between (rule : RepeatRule) (p : Prediction) (c : Cursor) (typed : Int) :
    kept rule p c typed <+: Bound.between (of rule p c typed).start (of rule p c typed).stop p.insertText := by
  simp only [kept]
  split
  case isTrue  => exact Repeat.cut_isPrefix ..
  case isFalse => exact List.prefix_rfl

theorem kept_isPrefix (rule : RepeatRule) (p : Prediction) (c : Cursor) (typed : Int) :
    kept rule p c typed <+: Bound.since (firstIndex c p.insertText typed) p.insertText :=
  (kept_isPrefix_between rule p c typed).trans ((List.take_prefix _ _).drop _)

-- What becomes of a text when the spaces and tabs at its edges are collapsed.
structure Edges (keepTrailing : Bool) (t gap core rest lead trail : Text) : Prop where
  text      : gap ++ core ++ rest = t
  shown     : edgeSpaces keepTrailing t = lead ++ core ++ trail
  gapBlank  : OnlySpaces gap
  restBlank : OnlySpaces rest
  head      : ∀ d ∈ core.head?, isSpaceOrTab d = false
  last      : ∀ d ∈ core.getLast?, isSpaceOrTab d = false
  lead      : lead = [] ∧ gap = [] ∨ lead = [' '] ∧ gap ≠ []
  trail     : trail = [] ∨ trail = [' '] ∧ keepTrailing = true ∧ rest ≠ []

theorem exists_edges (keepTrailing : Bool) (t : Text) :
    ∃ gap core rest lead trail, Edges keepTrailing t gap core rest lead trail := by
  have ht := takeWhile_append_trim isSpaceOrTab t
  by_cases hcore : trim isSpaceOrTab t = []
  case pos =>
    -- all of the text is blank
    rw [hcore, List.append_nil] at ht
    have hblank : OnlySpaces t := by
      intro d hd
      rw [← ht, List.mem_append, List.mem_reverse] at hd
      exact hd.elim List.mem_takeWhile_imp List.mem_takeWhile_imp
    exact ⟨[], [], t, [], [], rfl, by simp [edgeSpaces, hcore], by simp [OnlySpaces], hblank, by simp, by simp, by simp,
      .inl rfl⟩
  case neg =>
    refine ⟨t.takeWhile isSpaceOrTab, trim isSpaceOrTab t,
      ((trimLeft isSpaceOrTab t).reverse.takeWhile isSpaceOrTab).reverse,
      if (t.head?.map isSpaceOrTab).getD false then [' '] else [],
      if keepTrailing && (t.getLast?.map isSpaceOrTab).getD false then [' '] else [], ?_⟩
    constructor
    case text      => exact ht
    case shown     => simp [edgeSpaces, hcore]
    case gapBlank  => exact fun d hd => List.mem_takeWhile_imp hd
    case restBlank => exact fun d hd => List.mem_takeWhile_imp (List.mem_reverse.mp hd)
    case head      => exact head?_trim isSpaceOrTab t
    case last      => exact getLast?_trimRight isSpaceOrTab _
    case lead      =>
      cases t
      case nil      => exact absurd rfl hcore
      case cons d t => by_cases hd : isSpaceOrTab d = true <;> simp [hd]
    case trail     =>
      split
      case isFalse    => exact .inl rfl
      case isTrue hk  =>
        obtain ⟨hk, hd⟩ := Bool.and_eq_true_iff.mp hk
        refine .inr ⟨rfl, hk, fun hrest => ?_⟩
        rw [hrest, List.append_nil] at ht
        obtain ⟨d, hlast⟩ := Option.ne_none_iff_exists'.mp (List.getLast?_eq_none_iff.not.mpr hcore)
        have := getLast?_trimRight isSpaceOrTab _ d hlast
        rw [← ht, List.getLast?_append, hlast] at hd
        simp [this] at hd

end Excerpt
end GhostText
