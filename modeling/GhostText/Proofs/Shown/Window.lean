import GhostText.Proofs.Shown.Edges

namespace GhostText

open Text

namespace Text

variable {s t : Text} {n : Nat}

-- A piece of a text, by where it starts and where it stops.
theorem drop_take_of_isPrefix (h : s <+: t.drop n) : (t.take (n + s.length)).drop n = s := by
  rw [List.drop_take, Nat.add_sub_cancel_left, ← List.prefix_iff_eq_take.mp h]

theorem squeeze_of_isPrefix (h : s <+: t) : squeeze t = squeeze s ++ squeeze (t.drop s.length) := by
  rw [← squeeze_append, List.prefix_iff_eq_append.mp h]

theorem getElem?_length_firstLine (h : '\n' ∈ t) : t[(firstLine t).length]? = some '\n' := by
  induction t
  case nil => simp at h
  case cons c t ih =>
    by_cases hc : c = '\n'
    case pos => simp [firstLine, hc]
    case neg =>
      have := ih ((List.mem_cons.mp h).resolve_left (Ne.symm hc))
      simpa [firstLine, hc] using this

end Text

namespace Excerpt

variable {rule : RepeatRule} {p : Prediction} {c : Cursor} {text t gap core rest lead trail : Text} {n : Nat}
  {keepTrailing : Bool}

theorem exists_skipBlankLines (c : Cursor) (text : Text) (n : Nat) :
    ∃ w : Text, skipBlankLines c text n = (n + w.length : Nat) ∧ w <+: text.drop n ∧ ∀ d ∈ w, d = '\n' := by
  simp only [skipBlankLines, since_natCast]
  split
  case isFalse => exact ⟨[], by simp, List.nil_prefix, by simp⟩
  case isTrue  =>
    have hlen := length_takeWhile_add (· = '\n') (text.drop n)
    exact ⟨_, by omega, List.takeWhile_prefix (· = '\n'), fun d hd => by simpa using List.mem_takeWhile_imp hd⟩

-- What is skipped in front comes next in the text, and is blank.
theorem exists_skipped (c : Cursor) (text : Text) (n : Nat) :
    ∃ w : Text, firstIndex c text n = (n + w.length : Nat) ∧ w <+: text.drop n ∧
      ∀ d ∈ w, isSpaceOrTab d = true ∨ d = '\n' := by
  obtain ⟨w, hw, hspaces⟩ := exists_skipTypedSpace c.left text n
  obtain ⟨x, hx, hq, hl⟩ := exists_skipBlankLines c text (n + w.length)
  obtain ⟨hp, hs⟩ : w <+: text.drop n ∧ OnlySpaces w := by
    rcases hspaces with rfl | ⟨rfl, -⟩
    case inl => exact ⟨List.nil_prefix, by simp [OnlySpaces]⟩
    case inr => exact ⟨List.takeWhile_prefix _, fun d hd => List.mem_takeWhile_imp hd⟩
  refine ⟨w ++ x, ?_, ?_, ?_⟩
  case refine_1 => rw [firstIndex, hw, hx, List.length_append, Nat.add_assoc]
  case refine_2 =>
    obtain ⟨r, hr⟩ := hp
    rw [← List.drop_drop, ← hr, List.drop_left] at hq
    rw [← hr, List.prefix_append_right_inj]
    exact hq
  case refine_3 => exact fun d hd => (List.mem_append.mp hd).imp (hs d) (hl d)

-- A first part of a text that ends where the text does, or before a line break, a bracket or a quote.
def StopsIn (s t : Text) : Prop :=
  ∃ r, s ++ r = t ∧ ∀ d ∈ r.head?, d = '\n' ∨ d ∈ meetingChars

theorem StopsIn.refl (t : Text) : StopsIn t t :=
  ⟨[], List.append_nil t, by simp⟩

theorem StopsIn.trans {s t u : Text} (h : StopsIn s t) (h' : StopsIn t u) : StopsIn s u := by
  obtain ⟨r, rfl, hr⟩ := h
  obtain ⟨x, rfl, hx⟩ := h'
  refine ⟨r ++ x, by rw [List.append_assoc], ?_⟩
  cases r
  case nil  => exact hx
  case cons => simpa using hr

theorem mem_meetingChars_of_not_matches {stack : List Char} {d : Char} (h : ¬Brackets.Matches stack d) :
    d ∈ meetingChars := by
  have hd : Brackets.opener? d ≠ none := fun hn => h (by simp [Brackets.Matches, hn])
  simp only [Brackets.opener?] at hd
  split at hd
  case h_4 => exact absurd rfl hd
  all_goals decide

theorem stopsIn_balancedPart (stack : List Char) (t : Text) : StopsIn (Brackets.balancedPart stack t) t := by
  induction t generalizing stack
  case nil => exact .refl []
  case cons d t ih =>
    by_cases h : Brackets.Matches stack d
    case pos =>
      obtain ⟨r, hr, hs⟩ := ih (Brackets.read stack d)
      exact ⟨r, by rw [Brackets.balancedPart_cons_of_matches h, List.cons_append, hr], hs⟩
    case neg =>
      refine ⟨d :: t, by rw [Brackets.balancedPart_cons_of_not_matches h, List.nil_append], fun e he => ?_⟩
      obtain rfl : d = e := by simpa using he
      exact .inr (mem_meetingChars_of_not_matches h)

-- All of a text goes if its first line is a repeat.
theorem stopsIn_cut (like : Repeat.Likeness) (t : Text) (known : List Text) (limit : Int)
    (h : Repeat.cut like t known limit ≠ []) : StopsIn (Repeat.cut like t known limit) t := by
  simp only [Repeat.cut] at h ⊢
  split
  case h_2 => exact .refl t
  case h_1 n _ _ =>
    have hsplit := unlines_lines t
    rw [← List.take_append_drop n (lines t)] at hsplit
    by_cases hd : (lines t).drop n = []
    case pos =>
      rw [hd, List.append_nil] at hsplit
      rw [hsplit]
      exact .refl t
    case neg =>
      have ht : (lines t).take n ≠ [] := by
        intro ht
        simp_all [unlines]
      rw [unlines_append ht hd] at hsplit
      exact ⟨_, hsplit, by simp⟩

theorem exists_stopAtMeeting (c : Cursor) (kind : Kind) (text : Text) (hn : n ≤ text.length) :
    ∃ m : Nat, stopAtMeeting c kind text n text.length = m ∧ n ≤ m ∧ m ≤ text.length ∧
      ∀ d ∈ text[m]?, d ∈ meetingChars := by
  have hlength : ∃ m : Nat, (text.length : Int) = m ∧ n ≤ m ∧ m ≤ text.length ∧ ∀ d ∈ text[m]?, d ∈ meetingChars :=
    ⟨text.length, rfl, hn, Nat.le_refl _, by simp⟩
  simp only [stopAtMeeting]
  split
  case h_1 => exact hlength
  case h_2 i hi =>
    split
    case isFalse => exact hlength
    case isTrue hd =>
      obtain ⟨k, rfl⟩ : ∃ k : Nat, i = (n + k : Nat) := by
        simp only [meeting?, since_natCast] at hi
        split at hi
        case isFalse => simp at hi
        case isTrue  =>
          split at hi
          case h_1 => simp at hi
          case h_2 first _ _ =>
            cases hf : findLast? first (text.drop n)
            case none   => simp [hf] at hi
            case some k => exact ⟨k, by simpa [hf] using hi.symm⟩
      have hat : Bound.at? (n + k : Nat) text = text[n + k]? := by
        rw [Bound.at?, if_pos (Int.natCast_nonneg _), Int.toNat_natCast]
      rw [hat] at hd
      cases hget : text[n + k]?
      case none   => simp [hget] at hd
      case some d =>
        have hlt := (List.getElem?_eq_some_iff.mp hget).1
        exact ⟨n + k, by omega, Nat.le_add_right n k, Nat.le_of_lt hlt, by simpa [hget] using hd⟩

theorem exists_lastIndex (c : Cursor) (kind : Kind) (text : Text) (hn : n ≤ text.length) :
    ∃ m : Nat, lastIndex c kind text n = m ∧ n ≤ m ∧ m ≤ text.length ∧
      ∀ d ∈ text[m]?, d = '\n' ∨ d ∈ meetingChars := by
  obtain ⟨m, hm, hle, hlen, hd⟩ := exists_stopAtMeeting c kind text hn
  have hmeeting : ∃ k : Nat, (m : Int) = k ∧ n ≤ k ∧ k ≤ text.length ∧ ∀ d ∈ text[k]?, d = '\n' ∨ d ∈ meetingChars :=
    ⟨m, rfl, hle, hlen, fun d h => .inr (hd d h)⟩
  simp only [lastIndex, hm, stopAtLineEnd, since_natCast]
  split
  case isFalse => exact hmeeting
  case isTrue  =>
    split
    case isFalse  => exact hmeeting
    case isTrue h =>
      -- the first of the two places
      have hbreak := getElem?_length_firstLine (List.contains_iff_mem.mp h)
      rw [List.getElem?_drop] at hbreak
      rcases Nat.le_total m (n + (firstLine (text.drop n)).length) with hfirst | hfirst
      case inl =>
        rw [Int.min_eq_left (by omega)]
        exact hmeeting
      case inr =>
        refine ⟨_, Int.min_eq_right (by omega), Nat.le_add_right _ _, hfirst.trans hlen, ?_⟩
        simp [hbreak]

theorem between_append_drop (text : Text) {m : Nat} (h : n ≤ m) :
    Bound.between n m text ++ text.drop m = text.drop n := by
  rw [between_natCast, List.drop_take]
  have := List.drop_take_append_drop text n (m - n)
  rwa [Nat.add_sub_cancel' h] at this

theorem stopsIn_between (c : Cursor) (kind : Kind) (text : Text) (hn : n ≤ text.length) :
    StopsIn (Bound.between n (lastIndex c kind text n) text) (text.drop n) := by
  obtain ⟨m, hm, hle, -, hd⟩ := exists_lastIndex c kind text hn
  exact ⟨text.drop m, by rw [hm, between_append_drop text hle], by rwa [List.head?_drop]⟩

-- The window ends where nothing more can be shown, unless a repeat in its first line leaves nothing of it.
theorem stopsIn_kept (rule : RepeatRule) (p : Prediction) (c : Cursor) {m : Nat}
    (hf : firstIndex c p.insertText n = m) (hm : m ≤ p.insertText.length) :
    p.kind = .continueBelow ∧ kept rule p c n = [] ∨ StopsIn (kept rule p c n) (p.insertText.drop m) := by
  have hwindow := stopsIn_between c p.kind p.insertText hm
  simp only [kept, hf]
  split
  case isFalse   => exact .inr hwindow
  case isTrue hk =>
    by_cases hcut : Repeat.cut rule.like
        (Bound.between m (lastIndex c p.kind p.insertText m) p.insertText) c.afterLines rule.lines = []
    case pos => exact .inl ⟨hk, hcut⟩
    case neg => exact .inr ((stopsIn_cut _ _ _ _ hcut).trans hwindow)

-- Nothing but blanks is left out of a prediction of which nothing is typed yet: not behind the window, nor from the
-- first repeated line on, nor from the first closer on that closes nothing.
structure OnlyBlanksCut (rule : RepeatRule) (p : Prediction) (c : Cursor) : Prop where
  behind  : allBlank (Bound.since (of rule p c 0).stop p.insertText) = true
  repeats : allBlank ((Bound.between (of rule p c 0).start (of rule p c 0).stop p.insertText).drop
    (kept rule p c 0).length) = true
  closers : allBlank ((kept rule p c 0).drop (Brackets.cut (kept rule p c 0) c.before).length) = true

-- Behind blanks, the window and what follows it are all of the text.
theorem exists_skipped_window (rule : RepeatRule) (p : Prediction) (c : Cursor) :
    ∃ w : Text, squeeze w = [] ∧ w ++ (Bound.between (of rule p c 0).start (of rule p c 0).stop p.insertText ++
      Bound.since (of rule p c 0).stop p.insertText) = p.insertText := by
  obtain ⟨w, hf, hprefix, hblank⟩ := exists_skipped c p.insertText 0
  rw [Nat.zero_add] at hf
  obtain ⟨m, hm, hle, -, -⟩ := exists_lastIndex (n := w.length) c p.kind p.insertText (by simpa using hprefix.length_le)
  have hstart : (of rule p c 0).start = w.length := hf
  have hstop : (of rule p c 0).stop = m := by
    rw [← hm, ← hf]
    rfl
  refine ⟨w, ?_, ?_⟩
  case refine_1 =>
    rw [squeeze_eq_nil_iff, allBlank, List.all_eq_true]
    exact fun d hd => (hblank d hd).elim isBlank_of_isSpaceOrTab fun hd => hd ▸ by decide
  case refine_2 =>
    rw [hstart, hstop, since_natCast, between_append_drop _ hle]
    exact List.prefix_iff_eq_append.mp hprefix

-- Blanks aside, all of a prediction is shown just if only blanks are left out.
theorem squeeze_text_eq_iff (rule : RepeatRule) (p : Prediction) (c : Cursor) :
    squeeze (of rule p c 0).text = squeeze p.insertText ↔ OnlyBlanksCut rule p c := by
  obtain ⟨w, hblank, hw⟩ := exists_skipped_window rule p c
  have hall : squeeze p.insertText =
      squeeze (Bound.between (of rule p c 0).start (of rule p c 0).stop p.insertText) ++
        squeeze (Bound.since (of rule p c 0).stop p.insertText) := by
    rw [← squeeze_append, ← List.nil_append (squeeze (_ ++ _)), ← hblank, ← squeeze_append, hw]
  have hcut : Brackets.cut (kept rule p c 0) c.before <+: kept rule p c 0 := Brackets.balancedPart_isPrefix _ _
  rw [text_of, squeeze_edgeSpaces, hall, squeeze_of_isPrefix (kept_isPrefix_between rule p c 0),
    squeeze_of_isPrefix hcut, List.append_assoc, List.append_assoc, List.self_eq_append_right]
  simp only [List.append_eq_nil_iff, squeeze_eq_nil_iff]
  constructor
  case mp  => exact fun ⟨hc, hr, hb⟩ => { behind := hb, repeats := hr, closers := hc }
  case mpr => exact fun h => ⟨h.closers, h.repeats, h.behind⟩

-- A window of a text behind a part that is typed, and the spaces that stand in the place of blanks before and after it.
structure Window (text : Text) (typed i j : Nat) (lead trail : Text) : Prop where
  typed_le  : typed ≤ i
  le        : i ≤ j
  le_length : j ≤ text.length
  -- nothing but blanks is skipped in front of it
  skipped   : ∀ d ∈ Bound.between typed i text, isSpaceOrTab d = true ∨ d = '\n'
  head      : ∀ d ∈ (Bound.between i j text).head?, isSpaceOrTab d = false
  last      : ∀ d ∈ (Bound.between i j text).getLast?, isSpaceOrTab d = false
  lead      : lead = [] ∨ lead = [' '] ∧ typed < i ∧ ∃ d ∈ text[i - 1]?, isSpaceOrTab d = true
  trail     : trail = [] ∨ trail = [' '] ∧ ∃ d ∈ text[j]?, isSpaceOrTab d = true

-- The window that is left of a text when its edges are collapsed.
theorem Edges.window {w r : Text} (h : Edges keepTrailing t gap core rest lead trail) (hn : n ≤ text.length)
    (hr : w ++ t ++ r = text.drop n) (hw : ∀ d ∈ w, isSpaceOrTab d = true ∨ d = '\n') :
    ∃ i j : Nat, Bound.between i j text = core ∧ text.drop j = rest ++ r ∧ Window text n i j lead trail := by
  have hi : text.drop (n + (w ++ gap).length) = core ++ rest ++ r := by
    rw [← List.drop_drop, ← hr, ← h.text]
    simp
  have hj : text.drop (n + (w ++ gap).length + core.length) = rest ++ r := by
    rw [← List.drop_drop, hi, List.append_assoc, List.drop_left]
  have hx : w ++ gap <+: text.drop n := ⟨core ++ rest ++ r, by rw [← hr, ← h.text]; simp⟩
  have hskipped : Bound.between n (n + (w ++ gap).length : Nat) text = w ++ gap := by
    rw [between_natCast, drop_take_of_isPrefix hx]
  have hcore : Bound.between (n + (w ++ gap).length : Nat) (n + (w ++ gap).length + core.length : Nat) text = core := by
    rw [between_natCast, drop_take_of_isPrefix]
    rw [hi, List.append_assoc]
    exact List.prefix_append _ _
  refine ⟨n + (w ++ gap).length, n + (w ++ gap).length + core.length, hcore, hj, ?_⟩
  constructor
  case typed_le  => exact Nat.le_add_right _ _
  case le        => exact Nat.le_add_right _ _
  case le_length =>
    have := hx.length_le
    have := congrArg List.length hi
    simp only [List.length_append, List.length_drop] at *
    omega
  case skipped   =>
    rw [hskipped]
    exact fun d hd => (List.mem_append.mp hd).elim (hw d) fun hg => .inl (h.gapBlank d hg)
  case head      => rw [hcore]; exact h.head
  case last      => rw [hcore]; exact h.last
  case lead      =>
    refine h.lead.imp And.left fun ⟨hl, hg⟩ => ⟨hl, ?_⟩
    obtain ⟨front, d, rfl⟩ := (List.eq_nil_or_concat gap).resolve_left hg
    have hd : text.drop (n + (w ++ front).length) = d :: (core ++ rest ++ r) := by
      rw [← List.drop_drop, ← hr, ← h.text]
      simp
    rw [List.concat_eq_append, ← List.append_assoc, List.length_append, List.length_singleton]
    refine ⟨by omega, d, ?_, h.gapBlank d (by simp)⟩
    rw [← Nat.add_assoc, Nat.add_sub_cancel, ← List.head?_drop, hd]
    rfl
  case trail     =>
    refine h.trail.imp_right fun ⟨ht, _, hrest⟩ => ⟨ht, ?_⟩
    obtain ⟨d, more, rfl⟩ := List.exists_cons_of_ne_nil hrest
    refine ⟨d, ?_, h.restBlank d List.mem_cons_self⟩
    rw [← List.head?_drop, hj]
    rfl

-- Blanks aside, nothing but a line break, a bracket or a quote follows a text that stops.
theorem Edges.head?_trimLeft {r : Text} (h : Edges keepTrailing t gap core rest lead trail)
    (hr : ∀ d ∈ r.head?, d = '\n' ∨ d ∈ meetingChars) :
    ∀ d ∈ (trimLeft isSpaceOrTab (rest ++ r)).head?, d = '\n' ∨ d ∈ meetingChars := by
  have hstop : ∀ d ∈ '\n' :: meetingChars, isSpaceOrTab d = false := by simp [meetingChars, isSpaceOrTab]
  have hself : trimLeft isSpaceOrTab r = r := trimLeft_eq_self fun d hd => hstop d (List.mem_cons.mpr (hr d hd))
  have htrim : trimLeft isSpaceOrTab (rest ++ r) = r := by
    rw [trimLeft, List.dropWhile_append_of_pos h.restBlank, ← trimLeft, hself]
  rwa [htrim]

-- What is shown of a prediction is a window of it behind what is typed. A space at its end is kept only if it divides
-- the text from what follows on the line. The window ends with the prediction or, blanks aside, before a line break, a
-- bracket or a quote, unless the first line below repeats what is there.
theorem exists_window_of_typed (rule : RepeatRule) (p : Prediction) (c : Cursor) (hn : n ≤ p.insertText.length) :
    ∃ (i j : Nat) (lead trail : Text), Window p.insertText n i j lead trail ∧
      (of rule p c n).text = lead ++ Bound.between i j p.insertText ++ trail ∧
      (trail ≠ [] → allBlank c.right = false ∧ p.kind ≠ .redoSuffix) ∧
      (p.kind = .continueBelow ∧ (of rule p c n).text = [] ∨
        ∀ d ∈ (trimLeft isSpaceOrTab (p.insertText.drop j)).head?, d = '\n' ∨ d ∈ meetingChars) := by
  obtain ⟨w, hf, ⟨u, hu⟩, hblank⟩ := exists_skipped c p.insertText n
  have hm : n + w.length ≤ p.insertText.length := by
    have := congrArg List.length hu
    rw [List.length_append, List.length_drop] at this
    omega
  have hrest : p.insertText.drop (n + w.length) = u := by rw [← List.drop_drop, ← hu, List.drop_left]
  have hk := kept_isPrefix rule p c n
  rw [hf, since_natCast, hrest] at hk
  obtain ⟨r, hr⟩ : Brackets.cut (kept rule p c n) c.before <+: u := (Brackets.balancedPart_isPrefix _ _).trans hk
  obtain ⟨gap, core, rest, lead, trail, he⟩ :=
    exists_edges (!allBlank c.right && p.kind ≠ .redoSuffix) (Brackets.cut (kept rule p c n) c.before)
  obtain ⟨i, j, hb, hj, hwindow⟩ := he.window hn (by rw [List.append_assoc, hr, hu]) hblank
  refine ⟨i, j, lead, trail, hwindow, by rw [text_of, he.shown, hb], fun ht => ?_, ?_⟩
  case refine_1 => simpa using (he.trail.resolve_left ht).2.1
  case refine_2 =>
    rcases stopsIn_kept rule p c hf hm with ⟨hkind, hnil⟩ | hs
    case inl => exact .inl ⟨hkind, by rw [text_of, hnil]; rfl⟩
    case inr =>
      obtain ⟨r', hr', hstop⟩ := (stopsIn_balancedPart (Brackets.openers c.before) _).trans hs
      obtain rfl : r = r' := by
        rw [hrest, ← hr] at hr'
        exact (List.append_cancel_left hr').symm
      rw [hj]
      exact .inr (he.head?_trimLeft hstop)

-- The first argument is typed, and a space divides the second from those that are there already.
def argument : Prediction :=
  { id := 0, before := "call(".toList, kind := .fillLine, stage := .finished "a,\t x \t".toList 0 }

theorem exists_window_of_typed_argument :
    let c : Cursor := { before := "call(a,".toList, after := "b, c)".toList }
    2 ≤ argument.insertText.length ∧ (of {} argument c (2 : Nat)).text = " x ".toList ∧
      ∃ (i j : Nat) (lead trail : Text), Window argument.insertText 2 i j lead trail ∧
        (of {} argument c (2 : Nat)).text = lead ++ Bound.between i j argument.insertText ++ trail ∧
        (trail ≠ [] → allBlank c.right = false ∧ argument.kind ≠ .redoSuffix) ∧
        (argument.kind = .continueBelow ∧ (of {} argument c (2 : Nat)).text = [] ∨
          ∀ d ∈ (trimLeft isSpaceOrTab (argument.insertText.drop j)).head?, d = '\n' ∨ d ∈ meetingChars) := by
  intro c
  have hn : 2 ≤ argument.insertText.length := by decide
  exact ⟨hn, by decide +kernel, exists_window_of_typed {} argument c hn⟩

end Excerpt
end GhostText
