import Mathlib.Data.List.DropRight
import Mathlib.Data.List.Nodup
import GhostText.Proofs.Cache.Runs

namespace GhostText.Cache

variable {κ υ σ ε : Type} [DecidableEq κ] {hook : Hook κ υ σ ε} {c : Cache κ υ} {s : σ} {k : κ} {v : υ} {n : Nat}
  {entries history : List (κ × υ)}

-- The keys that have been set, each where it was set last and with the value that it was given there.
def lastSets : List (κ × υ) → List (κ × υ)
  | []              => []
  | (k, v) :: later => if k ∈ later.map (·.1) then lastSets later else (k, v) :: lastSets later

-- The most recent of them, the oldest first.
def newest (n : Nat) (history : List (κ × υ)) : List (κ × υ) :=
  (lastSets history).rtake n

-- What was among the most recent before the set with a number, and is not any more after it.
def oustedAt (n : Nat) (history : List (κ × υ)) (i : Nat) : List (κ × υ) :=
  (newest n (history.take i)).filter fun e => e.1 ∉ (newest n (history.take (i + 1))).map (·.1)

def evictions (n : Nat) (history : List (κ × υ)) : List (κ × υ) :=
  (List.range history.length).flatMap (oustedAt n history)

def Op.entry? : Op κ υ → Option (κ × υ)
  | .set k v => some (k, v)
  | _        => none

-- Takes entries out, other than to make room.
def Op.takesOut : Op κ υ → Bool
  | .delete _ | .clear => true
  | _                  => false

-- What the operations have set, in their order.
def setBy (ops : List (Op κ υ)) : List (κ × υ) :=
  ops.filterMap Op.entry?

omit [DecidableEq κ] in
theorem setBy_concat (ops : List (Op κ υ)) (op : Op κ υ) : setBy (ops ++ [op]) = setBy ops ++ op.entry?.toList := by
  cases h : op.entry? <;> simp [setBy, h]

theorem without_cons_of_eq {e : κ × υ} (h : e.1 = k) (rest : List (κ × υ)) : without k (e :: rest) = without k rest :=
  List.filter_cons_of_neg (by simpa using h)

theorem without_cons_of_ne {e : κ × υ} (h : e.1 ≠ k) (rest : List (κ × υ)) :
    without k (e :: rest) = e :: without k rest :=
  List.filter_cons_of_pos (by simpa using h)

theorem without_eq_self (h : k ∉ entries.map (·.1)) : without k entries = entries := by
  refine List.filter_eq_self.mpr fun e he => ?_
  simp only [ne_eq, decide_not, Bool.not_eq_true', decide_eq_false_iff_not]
  rintro rfl
  exact h (List.mem_map_of_mem he)

theorem map_lastSets_subset (history : List (κ × υ)) : ∀ k ∈ (lastSets history).map (·.1), k ∈ history.map (·.1) := by
  intro k hk
  induction history
  case nil => exact hk
  case cons e later ih =>
    simp only [lastSets] at hk
    split at hk
    case isTrue  => exact List.mem_cons_of_mem _ (ih hk)
    case isFalse =>
      rcases List.mem_cons.mp hk with rfl | hk
      case inl => exact List.mem_cons_self
      case inr => exact List.mem_cons_of_mem _ (ih hk)

theorem nodup_lastSets (history : List (κ × υ)) : ((lastSets history).map (·.1)).Nodup := by
  induction history
  case nil => exact List.nodup_nil
  case cons e later ih =>
    simp only [lastSets]
    split
    case isTrue    => exact ih
    case isFalse h => exact List.nodup_cons.mpr ⟨fun hm => h (map_lastSets_subset later _ hm), ih⟩

-- A key that is set again moves to the end.
theorem lastSets_concat (history : List (κ × υ)) (k : κ) (v : υ) :
    lastSets (history ++ [(k, v)]) = without k (lastSets history) ++ [(k, v)] := by
  induction history
  case nil => rfl
  case cons e later ih =>
    simp only [List.cons_append, lastSets, List.map_append, List.map_cons, List.map_nil, List.mem_append,
      List.mem_singleton, ih]
    by_cases hm : e.1 ∈ later.map (·.1)
    case pos => rw [if_pos (.inl hm), if_pos hm]
    case neg =>
      rw [if_neg hm]
      by_cases hk : e.1 = k
      case pos => rw [if_pos (.inr hk), without_cons_of_eq hk]
      case neg => rw [if_neg (not_or.mpr ⟨hm, hk⟩), without_cons_of_ne hk, List.cons_append]

-- Whether a key leaves before or after the list is cut makes no difference to the most recent of the others.
theorem take_without (h : (entries.map (·.1)).Nodup) :
    (without k (entries.take (n + 1))).take n = (without k entries).take n := by
  induction entries generalizing n
  case nil => simp [without]
  case cons e rest ih =>
    rw [List.map_cons, List.nodup_cons] at h
    by_cases hk : e.1 = k
    case pos =>
      have hrest : k ∉ rest.map (·.1) := hk ▸ h.1
      have htake : k ∉ (rest.take n).map (·.1) := fun hm => hrest (List.map_subset _ (List.take_subset n rest) hm)
      rw [List.take_succ_cons, without_cons_of_eq hk, without_cons_of_eq hk, without_eq_self htake,
        without_eq_self hrest, List.take_take, Nat.min_self]
    case neg =>
      cases n
      case zero   => simp
      case succ n =>
        rw [List.take_succ_cons, without_cons_of_ne hk, without_cons_of_ne hk, List.take_succ_cons,
          List.take_succ_cons, ih h.2]

theorem without_reverse (k : κ) (entries : List (κ × υ)) : without k entries.reverse = (without k entries).reverse :=
  List.filter_reverse ..

theorem rtake_without (h : (entries.map (·.1)).Nodup) :
    (without k (entries.rtake (n + 1))).rtake n = (without k entries).rtake n := by
  have hr : (entries.reverse.map (·.1)).Nodup := by rwa [List.map_reverse, List.nodup_reverse]
  simp only [List.rtake_eq_reverse_take_reverse, without_reverse, List.reverse_reverse, take_without hr]

-- Once there is no room for the oldest, the newest take its place.
theorem newest_concat (n : Nat) (history : List (κ × υ)) (k : κ) (v : υ) :
    newest (n + 1) (history ++ [(k, v)]) = (without k (newest (n + 1) history)).rtake n ++ [(k, v)] := by
  rw [newest, lastSets_concat, List.rtake_concat_succ, newest, rtake_without (nodup_lastSets history)]

theorem nodup_newest (n : Nat) (history : List (κ × υ)) : ((newest n history).map (·.1)).Nodup :=
  ((List.drop_sublist _ _).map _).nodup (nodup_lastSets history)

theorem length_newest_le (n : Nat) (history : List (κ × υ)) : (newest n history).length ≤ n := by
  simp only [newest, List.rtake, List.length_drop]
  omega

theorem evictions_concat (n : Nat) (history : List (κ × υ)) (e : κ × υ) :
    evictions n (history ++ [e]) = evictions n history ++
      (newest n history).filter fun e' => e'.1 ∉ (newest n (history ++ [e])).map (·.1) := by
  have hold : ∀ i ∈ List.range history.length, oustedAt n (history ++ [e]) i = oustedAt n history i := by
    intro i hi
    have hi := List.mem_range.mp hi
    rw [oustedAt, oustedAt, List.take_append_of_le_length (Nat.le_of_lt hi), List.take_append_of_le_length hi]
  have hnew : oustedAt n (history ++ [e]) history.length =
      (newest n history).filter fun e' => e'.1 ∉ (newest n (history ++ [e])).map (·.1) := by
    rw [oustedAt, List.take_left, List.take_of_length_le (by simp)]
  rw [evictions, List.length_append, List.length_singleton, List.range_succ, List.flatMap_append,
    List.flatMap_singleton, hnew, evictions, List.flatMap_congr hold]

theorem contains_eq_true_iff : c.contains k = true ↔ k ∈ c.entries.map (·.1) := by
  simp [contains]

-- What is set goes to the end. Only a new key in a full cache costs the oldest entry its place.
theorem set_cases (hh : Tolerant hook) (hc : 0 < c.maxSize) (s : σ) (k : κ) (v : υ) :
    (k ∈ c.entries.map (·.1) ∧
      c.set hook s k v = { cache := { c with entries := without k c.entries ++ [(k, v)] }, state := s }) ∨
    (k ∉ c.entries.map (·.1) ∧ c.size < c.maxSize ∧
      c.set hook s k v = { cache := { c with entries := c.entries ++ [(k, v)] }, state := s }) ∨
    (k ∉ c.entries.map (·.1) ∧ c.maxSize ≤ c.size ∧ ∃ oldest rest, c.entries = oldest :: rest ∧
      c.set hook s k v =
        { cache := { c with entries := rest ++ [(k, v)] }, state := (hook oldest.1 oldest.2 s).1 }) := by
  simp only [set]
  by_cases hk : c.contains k = true
  case pos => exact .inl ⟨contains_eq_true_iff.mp hk, if_pos hk⟩
  case neg =>
    have hk' := mt contains_eq_true_iff.mpr hk
    rw [if_neg hk]
    by_cases hsize : c.size < c.maxSize
    case pos => exact .inr (.inl ⟨hk', hsize, if_pos hsize⟩)
    case neg =>
      rw [if_neg hsize]
      cases he : c.entries
      case nil               => exact absurd hc (by simpa [size, he] using hsize)
      case cons oldest rest =>
        refine .inr (.inr ⟨he ▸ hk', Nat.not_lt.mp hsize, oldest, rest, rfl, ?_⟩)
        rcases hx : hook oldest.1 oldest.2 s with ⟨s', refused⟩
        obtain rfl : refused = none := by simpa [hx] using hh oldest.1 oldest.2 s
        simp only [hx]

omit [DecidableEq κ] in
theorem rtake_of_length_le (h : entries.length ≤ n) : entries.rtake n = entries := by
  rw [List.rtake, Nat.sub_eq_zero_of_le h, List.drop_zero]

theorem length_without_lt (h : k ∈ entries.map (·.1)) : (without k entries).length < entries.length := by
  obtain ⟨e, he, hk⟩ := List.mem_map.mp h
  exact List.length_filter_lt_length_iff_exists.mpr ⟨e, he, by simpa using hk⟩

-- Nothing is out of the list whose keys are all in it.
theorem filter_not_mem_eq_nil {left : List κ} (h : ∀ e ∈ entries, e.1 ∈ left) :
    (entries.filter fun e => e.1 ∉ left) = [] :=
  List.filter_eq_nil_iff.mpr fun e he => by simpa using h e he

-- What a set makes of a cache with room for so many entries and one more.
theorem set_spec (hh : Tolerant hook) (hm : c.maxSize = n + 1) (hsize : c.size ≤ n + 1)
    (hnodup : (c.entries.map (·.1)).Nodup) (s : σ) (k : κ) (v : υ) :
    (c.set hook s k v).cache = { c with entries := (without k c.entries).rtake n ++ [(k, v)] } ∧
      (c.set hook s k v).state = showAll hook s
        (c.entries.filter fun e => e.1 ∉ ((without k c.entries).rtake n ++ [(k, v)]).map (·.1)) := by
  have hpos : 0 < c.maxSize := hm ▸ Nat.succ_pos n
  rw [size] at hsize
  rcases set_cases hh hpos s k v with ⟨hk, he⟩ | ⟨hk, hlt, he⟩ | ⟨hk, hle, oldest, rest, hentries, he⟩ <;> rw [he]
  case inl =>
    have hlen : (without k c.entries).length ≤ n :=
      Nat.le_of_lt_succ (Nat.lt_of_lt_of_le (length_without_lt hk) hsize)
    have hstay : ∀ e ∈ c.entries, e.1 ∈ (without k c.entries ++ [(k, v)]).map (·.1) := by
      intro e hm
      rw [List.map_append, List.mem_append, map_without, List.mem_filter]
      by_cases hek : e.1 = k
      case pos => exact .inr (by simp [hek])
      case neg => exact .inl ⟨List.mem_map_of_mem hm, by simpa using hek⟩
    rw [rtake_of_length_le hlen, filter_not_mem_eq_nil hstay]
    exact ⟨rfl, rfl⟩
  case inr.inl =>
    have hlen : c.entries.length ≤ n := by
      rw [size, hm] at hlt
      exact Nat.le_of_lt_succ hlt
    have hstay : ∀ e ∈ c.entries, e.1 ∈ (c.entries ++ [(k, v)]).map (·.1) :=
      fun e hm => List.mem_map_of_mem (List.mem_append_left _ hm)
    rw [without_eq_self hk, rtake_of_length_le hlen, filter_not_mem_eq_nil hstay]
    exact ⟨rfl, rfl⟩
  case inr.inr =>
    have hrtake : (without k c.entries).rtake n = rest := by
      have hlen : rest.length = n := by
        rw [size, hentries, List.length_cons] at hle
        rw [hentries, List.length_cons] at hsize
        omega
      rw [without_eq_self hk, hentries, List.rtake, List.length_cons, hlen, Nat.add_sub_cancel_left]
      rfl
    rw [hentries, List.map_cons] at hk hnodup
    have hout : oldest.1 ∉ (rest ++ [(k, v)]).map (·.1) := by
      rw [List.map_append, List.mem_append, not_or]
      exact ⟨(List.nodup_cons.mp hnodup).1, by simpa using fun h : oldest.1 = k => hk (h ▸ List.mem_cons_self)⟩
    have hstay : ∀ e ∈ rest, e.1 ∈ (rest ++ [(k, v)]).map (·.1) :=
      fun e hm => List.mem_map_of_mem (List.mem_append_left _ hm)
    rw [hrtake, hentries, List.filter_cons_of_pos (by simpa using hout), filter_not_mem_eq_nil hstay]
    exact ⟨rfl, rfl⟩

-- The cache has what was set last, and the hook has seen what has left.
structure Recent (hook : Hook κ υ σ ε) (n : Nat) (s : σ) (history : List (κ × υ)) (x : Cache κ υ × σ) : Prop where
  maxSize : x.1.maxSize = n
  entries : x.1.entries = newest n history
  state   : x.2 = showAll hook s (evictions n history)

theorem Recent.set {x : Cache κ υ × σ} (hh : Tolerant hook) (h : Recent hook (n + 1) s history x) (k : κ) (v : υ) :
    Recent hook (n + 1) s (history ++ [(k, v)]) ((x.1.set hook x.2 k v).cache, (x.1.set hook x.2 k v).state) := by
  have hsize : x.1.size ≤ n + 1 := by
    rw [size, h.entries]
    exact length_newest_le _ _
  obtain ⟨hc, hs⟩ := set_spec hh h.maxSize hsize (h.entries ▸ nodup_newest _ _) x.2 k v
  rw [h.entries] at hc hs
  refine ⟨by rw [hc, h.maxSize], by rw [hc, newest_concat], ?_⟩
  rw [hs, ← newest_concat, h.state, evictions_concat, showAll, showAll, showAll, List.foldl_append]

-- However a cache of so many entries was used, as long as nothing was taken out of it: it has the keys that were set
-- last, oldest first and each with its last value, and the hook has seen each entry that had to leave, when it left.
theorem newest_run {size : Int} (hsize : 0 < size) (hh : Tolerant hook) {ops : List (Op κ υ)}
    (hops : ∀ op ∈ ops, op.takesOut = false) (s : σ) :
    ∃ c, ofSize? size = some c ∧ (run hook c s ops).1.entries = newest size.toNat (setBy ops) ∧
      (run hook c s ops).2 = showAll hook s (evictions size.toNat (setBy ops)) := by
  obtain ⟨n, hn⟩ : ∃ n, size.toNat = n + 1 := ⟨size.toNat - 1, by omega⟩
  suffices h : Recent hook (n + 1) s (setBy ops) (run hook ⟨n + 1, []⟩ s ops) by
    refine ⟨⟨n + 1, []⟩, ?_, hn ▸ h.entries, hn ▸ h.state⟩
    rw [ofSize?, if_pos hsize, hn]
  induction ops using List.reverseRecOn
  case nil => exact ⟨rfl, (List.rtake_nil _).symm, rfl⟩
  case append_singleton ops op ih =>
    have ih := ih fun op hm => hops op (List.mem_append_left _ hm)
    have hop := hops op (List.mem_append_right _ List.mem_cons_self)
    rw [run_append, setBy_concat]
    cases op
    case set k v        => exact ih.set hh k v
    case delete | clear => contradiction
    case get | contains | values | keys | size => simpa [Op.entry?, run, perform] using ih

-- Notes what it gets to see.
def recording : Hook Nat Nat (List (Nat × Nat)) Empty :=
  fun k v seen => (seen ++ [(k, v)], none)

-- One key is set once more before it has to leave, the other comes back after it has left.
def refreshing : List (Op Nat Nat) :=
  [.set 0 10, .set 1 11, .get 1, .set 0 12, .values, .set 2 13, .contains 1, .set 1 14]

theorem newest_run_refreshing :
    (0 : Int) < 2 ∧ Tolerant recording ∧ (∀ op ∈ refreshing, op.takesOut = false) ∧
      ∃ c, ofSize? 2 = some c ∧ (run recording c [] refreshing).1.entries = [(2, 13), (1, 14)] ∧
        (run recording c [] refreshing).2 = [(1, 11), (0, 12)] := by
  have hh : Tolerant recording := fun _ _ _ => rfl
  have hops : ∀ op ∈ refreshing, op.takesOut = false := by decide
  obtain ⟨c, hc, hentries, hseen⟩ := newest_run (by decide : (0 : Int) < 2) hh hops []
  refine ⟨by decide, hh, hops, c, hc, ?_, ?_⟩
  case refine_1 => rw [hentries]; decide
  case refine_2 => rw [hseen]; decide

end GhostText.Cache
