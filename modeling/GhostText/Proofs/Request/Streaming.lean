import GhostText.Proofs.Request.Stops
import GhostText.Proofs.Text.Longest
import GhostText.Proofs.Text.Search

namespace GhostText

open Text

variable {stops stops' : List Text} {t u chunk : Text} {n : Nat} {size : Int}

namespace StopTokens

theorem begins_iff : begins stops t = true ↔ ∃ token ∈ stops, token ≠ [] ∧ token <+: t := by
  simp [begins]

-- No stop token begins in the text before the end of this first part of it.
def Unstopped (stops : List Text) (t u : Text) : Prop :=
  ∀ j < u.length, ∀ token ∈ stops, token ≠ [] → ¬token <+: t.drop j

theorem unstopped_cut (stops : List Text) (t : Text) : Unstopped stops t (cut stops t) := by
  induction t
  case nil => exact fun j hj => absurd hj (Nat.not_lt_zero j)
  case cons c t ih =>
    rw [cut]
    split
    case isTrue    => exact fun j hj => absurd hj (Nat.not_lt_zero j)
    case isFalse h =>
      intro j hj token ht hne hp
      cases j
      case zero   => exact h (begins_iff.mpr ⟨token, ht, hne, hp⟩)
      case succ j => exact ih j (Nat.lt_of_succ_lt_succ hj) token ht hne hp

theorem Unstopped.isPrefix_cut (h : Unstopped stops t u) (hu : u <+: t) : u <+: cut stops t := by
  induction t generalizing u
  case nil => rwa [cut]
  case cons c t ih =>
    cases u
    case nil      => exact List.nil_prefix
    case cons d u =>
      obtain ⟨rfl, hrest⟩ := List.cons_prefix_cons.mp hu
      have hnot : ¬begins stops (d :: t) = true := by
        rw [begins_iff]
        rintro ⟨token, ht, hne, hp⟩
        exact h 0 (Nat.succ_pos _) token ht hne hp
      rw [cut, if_neg hnot]
      exact List.cons_prefix_cons.mpr ⟨rfl, ih (fun j hj => h (j + 1) (Nat.succ_lt_succ hj)) hrest⟩

theorem longestPart_cut (stops : List Text) (t : Text) : LongestPart (Unstopped stops t) (cut stops t) t :=
  ⟨cut_isPrefix stops t, unstopped_cut stops t, fun _ hu h => h.isPrefix_cut hu⟩

-- Where the tokens first occur in the text, those that do. The empty token is none.
def places (stops : List Text) (t : Text) : List Nat :=
  (stops.filter (· ≠ [])).filterMap (find? · t)

theorem mem_places_iff {i : Nat} : i ∈ places stops t ↔ ∃ token ∈ stops, token ≠ [] ∧ find? token t = some i := by
  simp [places, and_assoc]

-- One pass over the text finds the same end as a search for each of the tokens.
theorem cut_eq_take (stops : List Text) (t : Text) : cut stops t = t.take ((places stops t).min?.getD t.length) := by
  refine (longestPart_cut stops t).eq_of_iff ⟨List.take_prefix _ _, ?_, fun x hx h => ?_⟩ fun _ => Iff.rfl
  case refine_1 =>
    intro j hj token ht hne hp
    obtain ⟨i, hi⟩ := Option.ne_none_iff_exists'.mp
      (find?_ne_none_iff.mpr (hp.isInfix.trans (List.drop_suffix j t).isInfix))
    have hij : i ≤ j := Nat.le_of_not_lt fun hlt => (find?_eq_some_iff.mp hi).2 j hlt hp
    have hmem : i ∈ places stops t := mem_places_iff.mpr ⟨token, ht, hne, hi⟩
    have hend : (places stops t).min?.getD t.length ≤ i := by
      obtain ⟨m, hm⟩ := Option.ne_none_iff_exists'.mp (List.min?_eq_none_iff.not.mpr (List.ne_nil_of_mem hmem))
      exact hm ▸ (List.min?_eq_some_iff.mp hm).2 i hmem
    have := hj.trans_le (List.length_take_le _ t)
    omega
  case refine_2 =>
    refine List.prefix_of_prefix_length_le hx (List.take_prefix _ _) ?_
    rw [List.length_take, Nat.le_min]
    refine ⟨?_, hx.length_le⟩
    cases hm : (places stops t).min?
    case none   => exact hx.length_le
    case some i =>
      obtain ⟨token, ht, hne, hi⟩ := mem_places_iff.mp (List.min?_eq_some_iff.mp hm).1
      exact Nat.le_of_not_lt fun hlt => h i hlt token ht hne (find?_eq_some_iff.mp hi).1

theorem cut_congr (h : ∀ token ≠ [], token ∈ stops ↔ token ∈ stops') (t : Text) : cut stops t = cut stops' t := by
  apply (longestPart_cut stops t).eq_of_iff (longestPart_cut stops' t)
  intro u
  constructor
  case mp  => exact fun hu j hj token ht hne => hu j hj token ((h token hne).mpr ht) hne
  case mpr => exact fun hu j hj token ht hne => hu j hj token ((h token hne).mp ht) hne

-- A token that begins in what is left begins at the same place of the text.
theorem cut_cut (stops : List Text) (t : Text) : cut stops (cut stops t) = cut stops t :=
  (longestPart_cut stops (cut stops t)).eq_self_iff.mpr fun j hj token ht hne hp =>
    unstopped_cut stops t j hj token ht hne (hp.trans ((cut_isPrefix stops t).drop j))

end StopTokens

namespace Chunks

theorem length_le_of_mem_pieces (h : chunk ∈ pieces n t) : chunk.length ≤ n := by
  fun_induction pieces n t
  case case1 => simp at h
  case case2 => simp at h
  case case3 n c rest ih =>
    rcases List.mem_cons.mp h with rfl | h
    case inl => exact Nat.succ_le_succ (List.length_take_le n rest)
    case inr => exact ih h

theorem length_le_of_mem_of (hsize : 0 < size) (h : chunk ∈ Chunks.of t (some size)) : chunk.length ≤ size := by
  simp only [Chunks.of, Int.not_le.mpr hsize, decide_false, Bool.false_or] at h
  split at h
  case isTrue ht  =>
    obtain rfl : chunk = t := List.mem_singleton.mp h
    rw [List.isEmpty_iff.mp ht]
    exact Int.le_of_lt hsize
  case isFalse =>
    have := length_le_of_mem_pieces h
    omega

end Chunks

namespace Backend

open StopTokens

variable {b : Backend} {r : FillRequest}

theorem answer_of_honorsStops (hb : b.honorsStops = true) (ht : (b.answers.next r).1 = .text t) :
    (b.answer r).1 = .ofTexts (Chunks.of (cut r.stops t) b.chunkSize) := by
  simp only [answer, ht, send, upToStop, hb, if_true]

theorem complete_of_honorsStops (hb : b.honorsStops = true) (ht : (b.answers.next r).1 = .text t) :
    (b.complete r).1 = .ok (Chunks.of (cut r.stops t) b.chunkSize) :=
  (congrArg Delivery.result (answer_of_honorsStops (b := b.receive r) hb ht)).trans (Delivery.result_ofTexts _)

-- The chunks in which a text is sent, also if all of them are waited for.
structure Streams (b : Backend) (r : FillRequest) (t : Text) (chunks : List Text) : Prop where
  streamed  : (b.answer r).1 = .ofTexts chunks
  completed : (b.complete r).1 = .ok chunks
  longest   : LongestPart (Unstopped r.stops t) chunks.flatten t
  least     : chunks.flatten = t.take ((places r.stops t).min?.getD t.length)
  stopFree  : ∀ token ∈ r.stops, token ≠ [] → ¬token <:+: chunks.flatten
  again     : cut r.stops chunks.flatten = chunks.flatten
  short     : ∀ size : Int, b.chunkSize = some size → 0 < size → ∀ chunk ∈ chunks, chunk.length ≤ size

theorem streams_of_honorsStops (hb : b.honorsStops = true) (ht : (b.answers.next r).1 = .text t) :
    b.Streams r t (Chunks.of (cut r.stops t) b.chunkSize) where
  streamed  := answer_of_honorsStops hb ht
  completed := complete_of_honorsStops hb ht
  longest   := by rw [Chunks.flatten_of]; exact longestPart_cut r.stops t
  least     := by rw [Chunks.flatten_of]; exact cut_eq_take r.stops t
  stopFree  := by rw [Chunks.flatten_of]; exact fun token hs hne => not_infix_cut hs hne t
  again     := by rw [Chunks.flatten_of]; exact cut_cut r.stops t
  short     := fun size hsize hpos chunk hc => Chunks.length_le_of_mem_of hpos (hsize ▸ hc)

-- However a text is answered by a backend that honours stop tokens, the chunks hold it up to the place where the first
-- of them begins. Another backend sends as much of the same text if it is asked to stop at the same tokens, those that
-- are empty aside, in whatever order they come and whatever the size of its chunks.
theorem exists_streams (hb : b.honorsStops = true) (ht : (b.answers.next r).1 = .text t) :
    ∃ chunks, b.Streams r t chunks ∧
      ∀ (b' : Backend) (r' : FillRequest), b'.honorsStops = true → (b'.answers.next r').1 = .text t →
        (∀ token ≠ [], token ∈ r'.stops ↔ token ∈ r.stops) →
          ∃ chunks', b'.Streams r' t chunks' ∧ chunks'.flatten = chunks.flatten := by
  refine ⟨_, streams_of_honorsStops hb ht, fun b' r' hb' ht' hs => ⟨_, streams_of_honorsStops hb' ht', ?_⟩⟩
  rw [Chunks.flatten_of, Chunks.flatten_of, cut_congr hs]

-- The tokens overlap in the text, and the other backend is asked for each of them once, in reverse.
theorem exists_streams_overlapping :
    let t := "foo(bar);\n".toList
    let b : Backend := { answers := .always t, chunkSize := some 4 }
    let r : FillRequest := { before := [], stops := ["".toList, "\n".toList, ");".toList, "r)".toList, ");".toList] }
    let b' : Backend := { answers := .inTurn [.text t] }
    let r' : FillRequest := { before := "x".toList, stops := ["r)".toList, ");".toList, "\n".toList] }
    b.honorsStops = true ∧ (b.answers.next r).1 = .text t ∧ b'.honorsStops = true ∧ (b'.answers.next r').1 = .text t ∧
      (∀ token ≠ [], token ∈ r'.stops ↔ token ∈ r.stops) ∧
      ∃ chunks chunks', b.Streams r t chunks ∧ b'.Streams r' t chunks' ∧ chunks = ["foo(".toList, "ba".toList] ∧
        chunks'.flatten = "foo(ba".toList := by
  intro t b r b' r'
  have hstops : ∀ token ≠ [], token ∈ r'.stops ↔ token ∈ r.stops := by
    intro token hne
    simp only [r, r', List.mem_cons, List.not_mem_nil]
    have : token ≠ "".toList := hne
    tauto
  obtain ⟨chunks, hchunks, hsame⟩ := exists_streams (b := b) (r := r) (t := t) rfl rfl
  obtain ⟨chunks', hchunks', hflat⟩ := hsame b' r' rfl rfl hstops
  have hcut : cut r.stops t = "foo(ba".toList := by decide
  have hsent : chunks = ["foo(".toList, "ba".toList] := by
    have h : chunks = Chunks.of (cut r.stops t) (some 4) :=
      Except.ok.inj (hchunks.completed.symm.trans (complete_of_honorsStops rfl rfl))
    rw [h, hcut]
    cbv
  exact ⟨rfl, rfl, rfl, rfl, hstops, chunks, chunks', hchunks, hchunks', hsent, by rw [hflat, hsent]; rfl⟩

end Backend
end GhostText
