import GhostText.Proofs.Cache.Recency

namespace GhostText.Cache

variable {κ υ σ ε : Type} [DecidableEq κ] {hook : Hook κ υ σ ε} {c : Cache κ υ} {s : σ} {k : κ} {v : υ} {n : Nat}
  {op : Op κ υ} {ops : List (Op κ υ)} {seen : List (κ × υ)}

-- Does what the hook does, and lists what it gets to see.
def listing (hook : Hook κ υ σ ε) : Hook κ υ (σ × List (κ × υ)) ε :=
  fun k v s => (((hook k v s.1).1, s.2 ++ [(k, v)]), (hook k v s.1).2)

-- What the hook gets to see while the operations are performed.
def disposals (hook : Hook κ υ σ ε) (c : Cache κ υ) (s : σ) (ops : List (Op κ υ)) : List (κ × υ) :=
  (run (listing hook) c (s, []) ops).2.2

-- Sets the key while the cache does not have it.
def Op.brings (c : Cache κ υ) (k : κ) : Op κ υ → Bool
  | .set k' _ => k' = k && !c.contains k
  | _         => false

-- How often the operations set the key while it was absent.
def arrivals (hook : Hook κ υ σ ε) (k : κ) (c : Cache κ υ) (s : σ) : List (Op κ υ) → Nat
  | []         => 0
  | op :: rest =>
    (if op.brings c k then 1 else 0) + arrivals hook k (c.perform hook s op).cache (c.perform hook s op).state rest

-- The value with which the key was set last.
def lastValue? (k : κ) (ops : List (Op κ υ)) : Option υ :=
  ((setBy ops).filter (·.1 = k)).getLast?.map (·.2)

-- The entries that an operation takes out, and those that it leaves where they are. The entry of a key that is set
-- again is among neither.
def leaving (c : Cache κ υ) : Op κ υ → List (κ × υ)
  | .set k _  => if c.contains k || c.size < c.maxSize then [] else c.entries.take 1
  | .delete k => c.entries.filter (·.1 = k)
  | .clear    => c.entries
  | _         => []

def staying (c : Cache κ υ) : Op κ υ → List (κ × υ)
  | .set k _  =>
    if c.contains k then without k c.entries else if c.size < c.maxSize then c.entries else c.entries.drop 1
  | .delete k => without k c.entries
  | .clear    => []
  | _         => c.entries

omit [DecidableEq κ] in
theorem dispose_eq (hh : Tolerant hook) (s : σ) (entries : List (κ × υ)) :
    dispose hook entries s = (showAll hook s entries, none) := by
  induction entries generalizing s
  case nil => rfl
  case cons e rest ih =>
    rcases hx : hook e.1 e.2 s with ⟨s', refused⟩
    obtain rfl : refused = none := by simpa [hx] using hh e.1 e.2 s
    simp only [dispose, hx, showAll, List.foldl_cons]
    exact ih s'

theorem filter_key_of_get? (hn : c.keys.Nodup) (h : c.get? k = some v) : c.entries.filter (·.1 = k) = [(k, v)] := by
  obtain ⟨e, he, rfl⟩ := Option.map_eq_some_iff.mp h
  obtain ⟨front, back, hentries, hfront⟩ := (List.find?_eq_some_iff_append.mp he).2
  obtain rfl : e.1 = k := by simpa using List.find?_some he
  have hback : ∀ x ∈ back, x.1 ≠ e.1 := by
    intro x hx hk
    rw [keys, hentries, List.map_append, List.map_cons] at hn
    exact (List.nodup_cons.mp hn.of_append_right).1 (hk ▸ List.mem_map_of_mem hx)
  rw [hentries, List.filter_append, List.filter_cons_of_pos (by simp),
    List.filter_eq_nil_iff.mpr (by simpa using hfront),
    List.filter_eq_nil_iff.mpr (by simpa using hback), List.nil_append]

theorem get?_eq_none_iff : c.get? k = none ↔ k ∉ c.entries.map (·.1) := by
  simp only [get?, Option.map_eq_none_iff, List.find?_eq_none, decide_eq_true_eq, List.mem_map, not_exists, not_and]

-- What an operation takes out is shown to the hook first, and what is set goes to the end. A refusal leaves everything
-- as it is.
theorem perform_eq_dispose (hn : c.keys.Nodup) (hook : Hook κ υ σ ε) (s : σ) (op : Op κ υ) :
    c.perform hook s op =
      match dispose hook (c.leaving op) s with
      | (s', none)   => { cache := { c with entries := c.staying op ++ op.entry?.toList }, state := s' }
      | (s', some e) => { cache := c, state := s', refused := some e } := by
  cases op
  case get | contains | values | keys | size => simp [perform, staying, leaving, Op.entry?, dispose]
  case clear =>
    rcases hd : dispose hook c.entries s with ⟨s', _ | e⟩ <;>
      simp [perform, Cache.clear, staying, leaving, Op.entry?, hd]
  case set k v =>
    simp only [perform, Cache.set, staying, leaving, Op.entry?, Option.toList_some]
    by_cases hk : c.contains k = true
    case pos => simp [hk, dispose]
    case neg =>
      by_cases hsize : c.size < c.maxSize
      case pos => simp [hk, hsize, dispose]
      case neg =>
        cases he : c.entries
        case nil              => simp [hk, hsize, dispose]
        case cons oldest rest =>
          rcases hx : hook oldest.1 oldest.2 s with ⟨s', refused⟩
          cases refused <;> simp [hk, hsize, dispose, hx]
  case delete k =>
    simp only [perform, Cache.delete, staying, leaving, Op.entry?, Option.toList_none, List.append_nil]
    cases hg : c.get? k
    case none =>
      have hk := get?_eq_none_iff.mp hg
      have hf : c.entries.filter (·.1 = k) = [] :=
        List.filter_eq_nil_iff.mpr fun e he => by simpa using fun h : e.1 = k => hk (h ▸ List.mem_map_of_mem he)
      rw [without_eq_self hk, hf]
      rfl
    case some v =>
      rw [filter_key_of_get? hn hg]
      rcases hx : hook k v s with ⟨s', refused⟩
      cases refused <;> simp [dispose, hx]

theorem perform_eq (hh : Tolerant hook) (hn : c.keys.Nodup) (s : σ) (op : Op κ υ) :
    c.perform hook s op = { cache := { c with entries := c.staying op ++ op.entry?.toList },
                            state := showAll hook s (c.leaving op) } := by
  rw [perform_eq_dispose hn, dispose_eq hh]

theorem count_without (k k' : κ) (entries : List (κ × υ)) :
    ((without k' entries).map (·.1)).count k = if k = k' then 0 else (entries.map (·.1)).count k := by
  rw [map_without]
  split
  case isTrue h  => exact List.count_eq_zero.mpr (by simp [h])
  case isFalse h => exact List.count_filter (by simpa using h)

theorem count_filter_key (k k' : κ) (entries : List (κ × υ)) :
    ((entries.filter (·.1 = k')).map (·.1)).count k = if k = k' then (entries.map (·.1)).count k else 0 := by
  have hmap : (entries.filter (·.1 = k')).map (·.1) = (entries.map (·.1)).filter (· = k') := by
    rw [List.filter_map]
    rfl
  rw [hmap]
  split
  case isTrue h  => exact List.count_filter (by simpa using h)
  case isFalse h => exact List.count_eq_zero.mpr (by simp [h])

-- Key by key, what was there before and what comes in is what leaves and what is there afterwards.
theorem count_perform (hn : c.keys.Nodup) (op : Op κ υ) (k : κ) :
    c.keys.count k + (if op.brings c k then 1 else 0) =
      ((c.leaving op).map (·.1)).count k + ((c.staying op ++ op.entry?.toList).map (·.1)).count k := by
  cases op
  case get | contains | values | keys | size => simp [leaving, staying, Op.entry?, Op.brings, keys]
  case clear => simp [leaving, staying, Op.entry?, Op.brings, keys]
  case delete k' =>
    simp only [leaving, staying, Op.entry?, Op.brings, Option.toList_none, List.append_nil, count_without,
      count_filter_key, keys]
    by_cases h : k = k' <;> simp [h]
  case set k' v =>
    simp only [leaving, staying, Op.entry?, Option.toList_some, List.map_append, List.count_append]
    by_cases hk : c.contains k' = true
    case pos =>
      have hkeys : c.keys.count k' = 1 := List.count_eq_one_of_mem hn (contains_eq_true_iff.mp hk)
      simp only [hk, Bool.true_or, if_true, count_without]
      by_cases h : k = k'
      case pos => simp [Op.brings, h, hk, hkeys]
      case neg => simp [Op.brings, h, Ne.symm h, keys]
    case neg =>
      have hbrings : (if (Op.set k' v).brings c k then 1 else 0) = ([(k', v)].map (·.1)).count k := by
        by_cases h : k' = k
        case pos => simp [Op.brings, ← h, hk]
        case neg => simp [Op.brings, h]
      have hcut : c.keys.count k = ((c.entries.take 1).map (·.1)).count k + ((c.entries.drop 1).map (·.1)).count k := by
        rw [← List.count_append, ← List.map_append, List.take_append_drop, keys]
      simp only [hk, Bool.false_or, Bool.false_eq_true, if_false, decide_eq_true_eq, hbrings, ← Nat.add_assoc]
      by_cases hsize : c.size < c.maxSize
      case pos => simp only [hsize, if_true, List.map_nil, List.count_nil, Nat.zero_add, keys]
      case neg => simp only [hsize, if_false, hcut]

theorem mem_of_mem_leaving {e : κ × υ} (h : e ∈ c.leaving op) : e ∈ c.entries := by
  cases op
  case get | contains | values | keys | size => contradiction
  case clear    => exact h
  case delete k => exact List.mem_of_mem_filter h
  case set k v  =>
    simp only [leaving] at h
    split at h
    case isTrue  => contradiction
    case isFalse => exact List.mem_of_mem_take h

-- What stays has another key than what is set.
theorem mem_of_mem_staying {e : κ × υ} (h : e ∈ c.staying op) : e ∈ c.entries ∧ ∀ e' ∈ op.entry?, e.1 ≠ e'.1 := by
  cases op
  case get | contains | values | keys | size => exact ⟨h, by simp [Op.entry?]⟩
  case clear    => contradiction
  case delete k => exact ⟨List.mem_of_mem_filter h, by simp [Op.entry?]⟩
  case set k v  =>
    simp only [staying] at h
    by_cases hk : c.contains k = true
    case pos =>
      rw [if_pos hk, without, List.mem_filter] at h
      exact ⟨h.1, by simpa [Op.entry?] using h.2⟩
    case neg =>
      have he : e ∈ c.entries := by
        rw [if_neg hk] at h
        split at h
        case isTrue  => exact h
        case isFalse => exact List.mem_of_mem_drop h
      refine ⟨he, ?_⟩
      simp only [Op.entry?, Option.mem_def, Option.some.injEq, forall_eq']
      rintro rfl
      exact hk (contains_eq_true_iff.mpr (List.mem_map_of_mem he))

theorem lastValue?_set_self (k : κ) (v : υ) (ops : List (Op κ υ)) : lastValue? k (ops ++ [.set k v]) = some v := by
  simp [lastValue?, setBy_concat, Op.entry?]

theorem lastValue?_concat (h : ∀ e ∈ op.entry?, k ≠ e.1) (ops : List (Op κ υ)) :
    lastValue? k (ops ++ [op]) = lastValue? k ops := by
  have hf : op.entry?.toList.filter (·.1 = k) = [] :=
    List.filter_eq_nil_iff.mpr fun e he => by simpa using (h e (Option.mem_toList.mp he)).symm
  rw [lastValue?, setBy_concat, List.filter_append, hf, List.append_nil, lastValue?]

structure Sound (n : Nat) (c : Cache κ υ) : Prop where
  maxSize : c.maxSize = n
  size    : c.size ≤ n
  nodup   : c.keys.Nodup

theorem Sound.update (hc : 0 < n) (h : Sound n c) (op : Op κ υ) :
    Sound n { c with entries := c.staying op ++ op.entry?.toList } := by
  refine ⟨h.maxSize, ?_, ?_⟩
  case refine_1 =>
    have hsize := h.size
    simp only [Cache.size, List.length_append] at hsize ⊢
    cases op
    case get | contains | values | keys | size => simpa [staying, Op.entry?] using hsize
    case clear    => simp [staying, Op.entry?]
    case delete k => exact Nat.le_trans (List.length_filter_le _ _) hsize
    case set k v  =>
      simp only [staying, Op.entry?, Option.toList_some, List.length_singleton]
      split
      case isTrue hk =>
        have := length_without_lt (contains_eq_true_iff.mp hk)
        omega
      case isFalse =>
        split
        case isTrue hlt =>
          rw [h.maxSize, Cache.size] at hlt
          omega
        case isFalse =>
          rw [List.length_drop]
          omega
  case refine_2 =>
    refine List.nodup_iff_count_le_one.mpr fun k => ?_
    have hcount := count_perform h.nodup op k
    have hold := List.nodup_iff_count_le_one.mp h.nodup k
    change ((c.staying op ++ op.entry?.toList).map (·.1)).count k ≤ 1
    split at hcount
    case isFalse => omega
    case isTrue hb =>
      have hk : k ∉ c.keys := by
        cases op
        case set k' v =>
          have hb : k' = k ∧ c.contains k = false := by simpa [Op.brings] using hb
          exact mt contains_eq_true_iff.mpr (Bool.eq_false_iff.mp hb.2)
        all_goals contradiction
      have := List.count_eq_zero.mpr hk
      omega

theorem Sound.perform (hc : 0 < n) (h : Sound n c) (hook : Hook κ υ σ ε) (s : σ) (op : Op κ υ) :
    Sound n (c.perform hook s op).cache := by
  rw [perform_eq_dispose h.nodup]
  split
  case h_1 => exact h.update hc op
  case h_2 => exact h

theorem arrivals_append (hook : Hook κ υ σ ε) (k : κ) (c : Cache κ υ) (s : σ) (ops ops' : List (Op κ υ)) :
    arrivals hook k c s (ops ++ ops') =
      arrivals hook k c s ops + arrivals hook k (run hook c s ops).1 (run hook c s ops).2 ops' := by
  induction ops generalizing c s
  case nil             => simp [arrivals, run]
  case cons op rest ih => simp only [List.cons_append, arrivals, run, ih, Nat.add_assoc]

omit [DecidableEq κ] in
theorem Tolerant.listing (hh : Tolerant hook) : Tolerant (listing hook) :=
  fun k v s => hh k v s.1

omit [DecidableEq κ] in
theorem showAll_listing (hook : Hook κ υ σ ε) (s : σ) (seen entries : List (κ × υ)) :
    showAll (listing hook) (s, seen) entries = (showAll hook s entries, seen ++ entries) := by
  induction entries generalizing s seen
  case nil            => simp [showAll]
  case cons e rest ih => simpa [showAll, Cache.listing] using ih (hook e.1 e.2 s).1 (seen ++ [e])

-- The books of a cache of some size after some operations: the list of what the hook has seen beside the cache as it
-- is.
structure Balanced (hook : Hook κ υ σ ε) (n : Nat) (s : σ) (ops : List (Op κ υ)) (x : Cache κ υ × σ)
    (seen : List (κ × υ)) : Prop where
  ran    : run hook ⟨n, []⟩ s ops = x
  listed : run (listing hook) ⟨n, []⟩ (s, []) ops = (x.1, x.2, seen)
  sound  : x.1.Sound n
  state  : x.2 = showAll hook s seen
  values : ∀ e ∈ x.1.entries, lastValue? e.1 ops = some e.2
  count  : ∀ k, arrivals hook k ⟨n, []⟩ s ops = (seen.map (·.1)).count k + x.1.keys.count k

namespace Balanced

variable {x : Cache κ υ × σ}

theorem start (hook : Hook κ υ σ ε) (n : Nat) (s : σ) : Balanced hook n s [] (⟨n, []⟩, s) [] where
  ran    := rfl
  listed := rfl
  sound  := ⟨rfl, Nat.zero_le n, List.nodup_nil⟩
  state  := rfl
  values := by simp
  count  := by simp [arrivals, keys]

theorem concat (hh : Tolerant hook) (hn : 0 < n) (h : Balanced hook n s ops x seen) (op : Op κ υ) :
    Balanced hook n s (ops ++ [op]) ((x.1.perform hook x.2 op).cache, (x.1.perform hook x.2 op).state)
      (seen ++ x.1.leaving op) where
  ran    := by rw [run_append, h.ran]; rfl
  listed := by
    rw [run_append, h.listed]
    simp only [run, perform_eq hh h.sound.nodup, perform_eq hh.listing h.sound.nodup, showAll_listing]
  sound  := h.sound.perform hn hook x.2 op
  state  := by
    rw [perform_eq hh h.sound.nodup, h.state, showAll, showAll, showAll, List.foldl_append]
  values := by
    rw [perform_eq hh h.sound.nodup]
    intro e he
    rcases List.mem_append.mp he with he | he
    case inl =>
      obtain ⟨hold, hne⟩ := mem_of_mem_staying he
      rw [lastValue?_concat hne, h.values e hold]
    case inr =>
      cases op
      case set k v he =>
        obtain rfl : e = (k, v) := List.mem_singleton.mp he
        exact lastValue?_set_self k v ops
      all_goals contradiction
  count  := by
    intro k
    have hstep := count_perform h.sound.nodup op k
    rw [arrivals_append, h.count k, h.ran, List.map_append, List.count_append, perform_eq hh h.sound.nodup]
    simp only [arrivals, Nat.add_zero, keys] at hstep ⊢
    omega

end Balanced

theorem exists_balanced (hh : Tolerant hook) (hn : 0 < n) (s : σ) (ops : List (Op κ υ)) :
    ∃ x seen, Balanced hook n s ops x seen := by
  induction ops using List.reverseRecOn
  case nil                      => exact ⟨_, _, .start hook n s⟩
  case append_singleton ops op ih =>
    obtain ⟨x, seen, h⟩ := ih
    exact ⟨_, _, h.concat hh hn op⟩

-- However a cache is used, a key has come in once for each time the hook has seen it, and once more if it is there. The
-- hook sees the value that the key was given last.
theorem arrivals_eq {size : Int} (hsize : 0 < size) (hh : Tolerant hook) (s : σ) (ops : List (Op κ υ)) :
    ∃ c, ofSize? size = some c ∧
      (∀ k, arrivals hook k c s ops =
        ((disposals hook c s ops).map (·.1)).count k + if (run hook c s ops).1.contains k then 1 else 0) ∧
      (∀ op, ∃ shown, disposals hook c s (ops ++ [op]) = disposals hook c s ops ++ shown ∧
        ∀ e ∈ shown, lastValue? e.1 ops = some e.2) ∧
      (run hook c s ops).2 = showAll hook s (disposals hook c s ops) ∧
      (run hook c s ops).1.keys.Nodup ∧ (run hook c s ops).1.size ≤ size.toNat := by
  have hn : 0 < size.toNat := by omega
  obtain ⟨x, seen, h⟩ := exists_balanced hh hn s ops
  have hseen : disposals hook ⟨size.toNat, []⟩ s ops = seen := by rw [disposals, h.listed]
  refine ⟨⟨size.toNat, []⟩, if_pos hsize, fun k => ?_, fun op => ?_, ?_, ?_, ?_⟩
  case refine_1 =>
    rw [h.count k, hseen, h.ran, h.sound.nodup.count]
    by_cases hk : k ∈ x.1.keys
    case pos => rw [if_pos hk, if_pos (contains_eq_true_iff.mpr hk)]
    case neg => rw [if_neg hk, if_neg (mt contains_eq_true_iff.mp hk)]
  case refine_2 =>
    refine ⟨x.1.leaving op, ?_, fun e he => h.values e (mem_of_mem_leaving he)⟩
    rw [disposals, (h.concat hh hn op).listed, hseen]
  case refine_3 => rw [h.ran, hseen, h.state]
  case refine_4 => rw [h.ran]; exact h.sound.nodup
  case refine_5 => rw [h.ran]; exact h.sound.size

-- A key comes in three times: it is pushed out, taken out, and there in the end.
def returning : List (Op Nat Nat) :=
  [.set 0 10, .set 0 11, .set 1 20, .set 2 30, .set 0 12, .delete 0, .delete 0, .clear, .set 0 13]

theorem arrivals_eq_returning :
    (0 : Int) < 2 ∧ Tolerant recording ∧ ∃ c, ofSize? 2 = some c ∧ arrivals recording 0 c [] returning = 3 ∧
      ((disposals recording c [] returning).map (·.1)).count 0 = 2 ∧
      (run recording c [] returning).2 = [(0, 11), (1, 20), (0, 12), (2, 30)] := by
  have hh : Tolerant recording := fun _ _ _ => rfl
  obtain ⟨c, hc, harrivals, -, hstate, -⟩ := arrivals_eq (by decide : (0 : Int) < 2) hh [] returning
  obtain rfl : c = ⟨2, []⟩ := (Option.some.inj hc).symm
  have hcount : ((disposals recording ⟨2, []⟩ [] returning).map (·.1)).count 0 = 2 := by decide
  refine ⟨by decide, hh, _, hc, ?_, hcount, ?_⟩
  case refine_1 => rw [harrivals, hcount]; decide
  case refine_2 => rw [hstate]; decide

end GhostText.Cache
