import Mathlib.Data.List.Count
import GhostText.Prediction.Basic
import GhostText.Proofs.Text.Search

namespace GhostText
namespace Text

variable {s t : Text} {n : Nat}

-- The text before its line break number n, counted from zero. A text with n line breaks or less stays whole.
def beforeBreak : Nat → Text → Text
  | _, []     => []
  | 0, c :: t => if c = '\n' then [] else c :: beforeBreak 0 t
  | n + 1, c :: t => c :: beforeBreak (if c = '\n' then n else n + 1) t

theorem beforeBreak_of_le (h : breaks t ≤ n) : beforeBreak n t = t := by
  induction t generalizing n
  case nil => cases n <;> rfl
  case cons c t ih =>
    rw [breaks_cons] at h
    cases n
    case zero   => by_cases hc : c = '\n' <;> simp_all [beforeBreak]
    case succ n => by_cases hc : c = '\n' <;> simp_all [beforeBreak]

theorem beforeBreak_append_lineFeed (s t : Text) : beforeBreak (breaks s) (s ++ '\n' :: t) = s := by
  induction s
  case nil => rfl
  case cons c s ih =>
    by_cases hc : c = '\n'
    case pos => simp [breaks_cons, hc, beforeBreak, ih]
    case neg =>
      rw [breaks_cons, if_neg hc, Nat.add_zero]
      cases hn : breaks s
      case zero   => simp [beforeBreak, hc, hn ▸ ih]
      case succ n => simp [beforeBreak, hc, hn ▸ ih]

theorem exists_lineFeed_of_breaks (h : n < breaks t) : ∃ s u, t = s ++ '\n' :: u ∧ breaks s = n := by
  induction t generalizing n
  case nil => simp [breaks] at h
  case cons c t ih =>
    rw [breaks_cons] at h
    by_cases hc : c = '\n' ∧ n = 0
    case pos => exact ⟨[], t, by simp [hc.1], by simp [breaks, hc.2]⟩
    case neg =>
      obtain ⟨s, u, rfl, hs⟩ := ih (n := n - if c = '\n' then 1 else 0) (by split at h <;> simp_all; omega)
      refine ⟨c :: s, u, rfl, ?_⟩
      rw [breaks_cons, hs]
      split <;> simp_all
      omega

theorem breaks_beforeBreak (n : Nat) (t : Text) : breaks (beforeBreak n t) = min n (breaks t) := by
  by_cases h : n < breaks t
  case pos =>
    obtain ⟨s, u, rfl, rfl⟩ := exists_lineFeed_of_breaks h
    rw [beforeBreak_append_lineFeed]
    omega
  case neg => rw [beforeBreak_of_le (by omega)]; omega

theorem beforeBreak_append (h : n < breaks s) (t : Text) : beforeBreak n (s ++ t) = beforeBreak n s := by
  obtain ⟨s, u, rfl, rfl⟩ := exists_lineFeed_of_breaks h
  rw [List.append_assoc, List.cons_append, beforeBreak_append_lineFeed, beforeBreak_append_lineFeed]

theorem findLast?_append {x : Char} (s : Text) (h : x ∉ t) : findLast? x (s ++ x :: t) = some s.length := by
  induction s
  case nil => simp [findLast?, findLast?_eq_none_iff.mpr h]
  case cons c s ih => simp [findLast?, ih]

end Text

namespace Prediction

variable {p p' : Prediction} {chunk text : Text} {chunks rest : List Text} {budget : Nat}

theorem dropLastBreak_append (s : Text) {t : Text} (h : '\n' ∉ t) : dropLastBreak (s ++ '\n' :: t) = s := by
  simp [dropLastBreak, Text.findLast?_append s h]

-- Cutting at the last line break leaves what comes before the break with the highest number.
theorem dropLastBreak_eq {t : Text} (h : 0 < Text.breaks t) :
    dropLastBreak t = Text.beforeBreak (Text.breaks t - 1) t := by
  obtain ⟨s, u, rfl, hs⟩ := Text.exists_lineFeed_of_breaks (Nat.sub_lt h Nat.one_pos)
  have hu : '\n' ∉ u := by
    rw [Text.breaks_append, Text.breaks_cons, if_pos rfl] at hs
    exact List.count_eq_zero.mp (show Text.breaks u = 0 by omega)
  rw [dropLastBreak_append s hu, ← hs, Text.beforeBreak_append_lineFeed]

-- Read the chunks until one of them uses up the budget.
def readAll (budget : Int) : Prediction → List Text → Prediction × Bool
  | p, [] => (p, false)
  | p, chunk :: rest =>
    match p.read chunk budget with
    | (p, true)  => (p, true)
    | (p, false) => p.readAll budget rest

-- All of the text has been taken in, and it is within the budget.
structure Holds (p : Prediction) (text : Text) (budget : Nat) : Prop where
  raw    : p.rawText = text
  breaks : p.breaksRead = Text.breaks text
  within : Text.breaks text ≤ budget

namespace Holds

theorem read_within (h : p.Holds text budget) (hb : Text.breaks (text ++ chunk) ≤ budget) :
    (p.read chunk budget).2 = false ∧ (p.read chunk budget).1.Holds (text ++ chunk) budget := by
  have hn : ¬(budget : Int) < (p.breaksRead + Text.breaks chunk : Nat) := by
    rw [h.breaks, ← Text.breaks_append]
    omega
  simp only [read, if_neg hn, true_and]
  exact { raw := by rw [h.raw], breaks := by rw [h.breaks, Text.breaks_append], within := hb }

theorem read_beyond (h : p.Holds text budget) (hb : budget < Text.breaks (text ++ chunk)) :
    (p.read chunk budget).2 = true ∧
      (p.read chunk budget).1.rawText = Text.beforeBreak (Text.breaks (text ++ chunk) - 1) (text ++ chunk) := by
  have hn : (budget : Int) < (p.breaksRead + Text.breaks chunk : Nat) := by
    rw [h.breaks, ← Text.breaks_append]
    omega
  simp only [read, if_pos hn, true_and, h.raw]
  exact dropLastBreak_eq (by omega)

-- Induction over the chunks. What has been read so far and the chunks to come make up the whole text.
theorem readAll (h : p.Holds text budget) (chunks : List Text) :
    ((p.readAll budget chunks).2 = false ∧ (p.readAll budget chunks).1.Holds (text ++ chunks.flatten) budget) ∨
    ((p.readAll budget chunks).2 = true ∧ ∃ before chunk after, chunks = before ++ chunk :: after ∧
      Text.breaks (text ++ before.flatten) ≤ budget ∧ budget < Text.breaks (text ++ before.flatten ++ chunk) ∧
      (p.readAll budget chunks).1.rawText =
        Text.beforeBreak (Text.breaks (text ++ before.flatten ++ chunk) - 1) (text ++ chunks.flatten)) := by
  induction chunks generalizing p text
  case nil => exact .inl ⟨rfl, by simpa [Prediction.readAll] using h⟩
  case cons chunk rest ih =>
    rw [Prediction.readAll, List.flatten_cons, ← List.append_assoc]
    by_cases hb : Text.breaks (text ++ chunk) ≤ budget
    case pos =>
      obtain ⟨he, hh⟩ := h.read_within hb
      generalize p.read chunk budget = x at he hh
      obtain ⟨p', _⟩ := x
      cases he
      rcases ih hh with ho | ⟨ho, before, c, after, hc, hw, hn, hr⟩
      case inl => exact .inl ho
      case inr =>
        refine .inr ⟨ho, chunk :: before, c, after, by rw [hc]; rfl, ?_⟩
        rw [List.flatten_cons, ← List.append_assoc]
        exact ⟨hw, hn, hr⟩
    case neg =>
      obtain ⟨he, hr⟩ := h.read_beyond (Nat.lt_of_not_le hb)
      generalize p.read chunk budget = x at he hr
      obtain ⟨p', _⟩ := x
      cases he
      refine .inr ⟨rfl, [], chunk, rest, rfl, by simpa using h.within, ?_⟩
      simp only [List.flatten_nil, List.append_nil]
      exact ⟨by omega, hr.trans (Text.beforeBreak_append (by omega) _).symm⟩

end Holds

-- An answer within the budget is kept whole. Otherwise it is cut at the last of the breaks that had arrived when the
-- budget was first exceeded. This is the first break beyond the budget if the chunk brought no other after it.
theorem rawText_readAll (hr : p.rawText = []) (hb : p.breaksRead = 0) (budget : Nat) (chunks : List Text) :
    let text := chunks.flatten
    let out := p.readAll budget chunks
    (Text.breaks text ≤ budget → out.2 = false ∧ out.1.rawText = text) ∧
    (budget < Text.breaks text → out.2 = true ∧ ∃ before chunk after, chunks = before ++ chunk :: after ∧
      Text.breaks before.flatten ≤ budget ∧ budget < Text.breaks (before.flatten ++ chunk) ∧
      out.1.rawText = Text.beforeBreak (Text.breaks (before.flatten ++ chunk) - 1) text ∧
      Text.breaks out.1.rawText = Text.breaks (before.flatten ++ chunk) - 1 ∧
      (out.1.rawText = Text.beforeBreak budget text ↔ Text.breaks (before.flatten ++ chunk) = budget + 1)) ∧
    ((∀ chunk ∈ chunks, Text.breaks chunk ≤ 1) →
      out.1.rawText = Text.beforeBreak budget text ∧ Text.breaks out.1.rawText ≤ budget) := by
  intro text out
  have hf : p.Holds [] budget := { raw := hr, breaks := hb, within := Nat.zero_le _ }
  rcases hf.readAll chunks with ⟨ho, hh⟩ | ⟨ho, before, chunk, after, hc, hw, hn, ht⟩
  case inl =>
    have hw : Text.breaks text ≤ budget := hh.within
    have ht : out.1.rawText = text := hh.raw
    refine ⟨fun _ => ⟨ho, ht⟩, fun h => absurd h (Nat.not_lt.mpr hw), fun _ => ?_⟩
    rw [ht, Text.beforeBreak_of_le hw]
    exact ⟨rfl, hw⟩
  case inr =>
    simp only [List.nil_append] at hw hn ht
    change out.1.rawText = Text.beforeBreak _ text at ht
    have hle : Text.breaks (before.flatten ++ chunk) ≤ Text.breaks text := by
      simp only [text, hc, List.flatten_append, List.flatten_cons, Text.breaks_append]
      omega
    have hk : Text.breaks out.1.rawText = Text.breaks (before.flatten ++ chunk) - 1 := by
      rw [ht, Text.breaks_beforeBreak]
      omega
    have hiff : out.1.rawText = Text.beforeBreak budget text ↔
        Text.breaks (before.flatten ++ chunk) = budget + 1 := by
      constructor
      case mp =>
        intro h
        rw [h, Text.breaks_beforeBreak] at hk
        omega
      case mpr => exact fun h => by rw [ht, h, Nat.add_sub_cancel]
    refine ⟨fun h => ?_, fun _ => ⟨ho, before, chunk, after, hc, hw, hn, ht, hk, hiff⟩, fun h => ?_⟩
    case refine_1 => omega
    case refine_2 =>
      have h1 := h chunk (by simp [hc])
      rw [Text.breaks_append] at hn hk
      exact ⟨hiff.mpr (by rw [Text.breaks_append]; omega), by omega⟩

-- The second chunk brings the only break beyond a budget of one.
theorem rawText_readAll_one :
    let p : Prediction := { id := 1, before := [], kind := .fillLine }
    let chunks := ["a\n".toList, "b\nc".toList, "d\n".toList]
    (p.readAll 1 chunks).1.rawText = Text.beforeBreak 1 chunks.flatten ∧ (p.readAll 1 chunks).2 = true := by
  intro p chunks
  obtain ⟨_, hb, hs⟩ := rawText_readAll (p := p) rfl rfl 1 chunks
  exact ⟨(hs (by decide)).1, (hb (by decide)).1⟩

-- A single chunk with two breaks keeps the first of them, even with a budget of zero.
theorem rawText_readAll_overrun :
    let p : Prediction := { id := 1, before := [], kind := .fillLine }
    let text := "a\nb\nc".toList
    (p.readAll 0 [text]).1.rawText ≠ Text.beforeBreak 0 text ∧ 0 < Text.breaks (p.readAll 0 [text]).1.rawText := by
  decide

end Prediction
end GhostText
