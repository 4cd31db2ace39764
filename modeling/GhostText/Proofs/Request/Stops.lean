import Mathlib.Data.List.Infix
import GhostText.Model.Backend
import GhostText.Prediction.Basic
import GhostText.Request.Options

namespace GhostText

-- Where an answer of a kind has to stop.
def Kind.stops : Kind → List Text
  | .fillLine | .redoSuffix => Options.lineBreaks
  | .continueBelow          => Options.blankLine
  | .doNotPredict           => []

-- What is asked for when an answer of a kind is wanted.
def Kind.options (k : Kind) (c : Cursor) (w : Window) : Options where
  kind     := k
  generate := k ≠ .doNotPredict
  before   := Text.unlines (w.lastLines c.before) ++ if k = .continueBelow then ['\n'] else []
  after    :=
    if k = .redoSuffix then Options.below (w.firstLines c.after).tail else Text.unlines (w.firstLines c.after)
  stops    := k.stops

-- The kind decides on all the rest.
theorem Options.of_eq (c : Cursor) (accepted : Bool) (w : Window) :
    Options.of c accepted w = (Options.of c accepted w).kind.options c w := by
  simp only [Options.of]
  split
  case isTrue  => rfl
  case isFalse =>
    split
    case isTrue  => simp [Kind.options, Kind.stops]
    case isFalse =>
      split
      case isTrue  => simp [Kind.options, Kind.stops]
      case isFalse => split <;> simp [Kind.options, Kind.stops]

theorem Options.stops_of (c : Cursor) (accepted : Bool) (w : Window) :
    (Options.of c accepted w).stops = (Options.of c accepted w).kind.stops :=
  congrArg Options.stops (of_eq c accepted w)

variable {k : Kind} {t u token : Text} {stops : List Text}

-- None of the texts at which an answer of the kind has to stop occurs.
def Kind.Allows (k : Kind) (t : Text) : Prop :=
  ∀ token ∈ k.stops, ¬token <:+: t

theorem Kind.allows_nil (k : Kind) : k.Allows [] := by
  intro token ht hi
  have : token = [] := List.infix_nil.mp hi
  cases k <;> simp_all [Kind.stops, Options.lineBreaks, Options.blankLine]

theorem Kind.Allows.within (h : k.Allows t) (hu : u <:+: t) : k.Allows u :=
  fun token ht hi => h token ht (hi.trans hu)

theorem Kind.Allows.not_mem_break (h : k.Allows t) (hk : k = .fillLine ∨ k = .redoSuffix) : '\n' ∉ t := by
  intro hm
  obtain ⟨a, b, rfl⟩ := List.append_of_mem hm
  have hstop : ['\n'] ∈ k.stops := by rcases hk with rfl | rfl <;> simp [Kind.stops, Options.lineBreaks]
  exact h ['\n'] hstop ⟨a, b, by simp⟩

namespace StopTokens

theorem cut_isPrefix (stops : List Text) (t : Text) : cut stops t <+: t := by
  induction t
  case nil => exact List.prefix_rfl
  case cons c t ih =>
    rw [cut]
    split
    case isTrue  => exact List.nil_prefix
    case isFalse => exact List.cons_prefix_cons.mpr ⟨rfl, ih⟩

-- A stop token that occurred in the text before its end would have ended it.
theorem not_infix_cut (h : token ∈ stops) (hne : token ≠ []) (t : Text) : ¬token <:+: cut stops t := by
  induction t
  case nil => simpa [cut] using hne
  case cons c t ih =>
    rw [cut]
    split
    case isTrue       => simpa using hne
    case isFalse hnot =>
      intro hi
      rcases List.infix_cons_iff.mp hi with hp | hi
      case inr => exact ih hi
      case inl =>
        have hp : token <+: c :: t := hp.trans (List.cons_prefix_cons.mpr ⟨rfl, cut_isPrefix stops t⟩)
        refine hnot (List.any_eq_true.mpr ⟨token, h, ?_⟩)
        simpa [hne] using hp

end StopTokens

namespace Chunks

theorem flatten_pieces {n : Nat} (h : 0 < n) (t : Text) : (pieces n t).flatten = t := by
  fun_induction pieces n t
  case case1 => contradiction
  case case2 => rfl
  case case3 n c rest ih => simp [ih h]

-- Nothing of an answer is lost in its chunks.
theorem flatten_of (t : Text) (size : Option Int) : (Chunks.of t size).flatten = t := by
  unfold Chunks.of
  split
  case h_1 => simp
  case h_2 size =>
    split
    case isTrue    => simp
    case isFalse h =>
      have : 0 < size.toNat := by
        simp only [Bool.or_eq_true, decide_eq_true_eq, not_or] at h
        omega
      exact flatten_pieces this t

end Chunks

namespace Delivery

theorem flatten_upTo (n : Nat) (cs : List Chunk) :
    ((upTo n cs).map (·.text)).flatten = (cs.map (·.text)).flatten.take n := by
  fun_induction upTo n cs
  case case1          => simp
  case case2 n c rest h => simp [List.take_append, Nat.sub_eq_zero_of_le h]
  case case3 n c rest h ih =>
    simp [ih, List.take_append, List.take_of_length_le (Nat.le_of_not_le h)]

theorem text_cut (stops : List Text) (d : Delivery) : (d.cut stops).text = StopTokens.cut stops d.text := by
  have hp := StopTokens.cut_isPrefix stops d.text
  simp only [cut]
  split
  case isTrue    => exact (flatten_upTo _ _).trans (List.prefix_iff_eq_take.mp hp).symm
  case isFalse h => exact (hp.eq_of_length_le (Nat.le_of_not_lt h)).symm

end Delivery

namespace Backend

variable {b : Backend} {r : FillRequest}

theorem text_send (b : Backend) (r : FillRequest) (reply : Reply) :
    (b.send r reply).text = b.upToStop r reply.whole := by
  cases reply
  case text t     =>
    simp [send, Delivery.ofTexts, Delivery.text, Delivery.texts, Reply.whole, Function.comp_def, Chunks.flatten_of]
  case delivery d =>
    simp only [send, upToStop, Reply.whole]
    split
    case isTrue  => exact d.text_cut r.stops
    case isFalse => rfl

-- What a backend that honours stop tokens sends has none of them in it.
theorem allows_text_answer (hb : b.honorsStops = true) (hr : r.stops = k.stops) : k.Allows (b.answer r).1.text := by
  simp only [answer, text_send, upToStop, hb, if_true, hr]
  intro token ht
  refine StopTokens.not_infix_cut ht ?_ _
  rintro rfl
  exact k.allows_nil [] ht List.infix_rfl

end Backend

namespace Prediction

theorem dropLastBreak_isPrefix (t : Text) : dropLastBreak t <+: t := by
  unfold dropLastBreak
  split
  case h_1 => exact List.take_prefix _ _
  case h_2 => exact List.dropLast_prefix t

variable {p p' : Prediction} {chunk : Text} {budget : Int}

-- The last chunk that is read may be cut short.
theorem rawText_of_read {enough : Bool} (h : p.read chunk budget = (p', enough)) :
    p'.rawText <+: p.rawText ++ chunk ∧ (enough = false → p'.rawText = p.rawText ++ chunk) := by
  simp only [read] at h
  split at h
  case isTrue =>
    obtain ⟨rfl, rfl⟩ := Prod.mk.inj h
    exact ⟨dropLastBreak_isPrefix _, by simp⟩
  case isFalse =>
    obtain ⟨rfl, rfl⟩ := Prod.mk.inj h
    exact ⟨List.prefix_rfl, fun _ => rfl⟩

theorem kind_of_read {enough : Bool} (h : p.read chunk budget = (p', enough)) :
    p'.kind = p.kind ∧ p'.stage = p.stage ∧ p'.createdAt = p.createdAt := by
  have : (p.read chunk budget).1.kind = p.kind ∧ (p.read chunk budget).1.stage = p.stage ∧
      (p.read chunk budget).1.createdAt = p.createdAt := by
    simp only [read]
    split <;> exact ⟨rfl, rfl, rfl⟩
  rwa [h] at this

end Prediction
end GhostText
