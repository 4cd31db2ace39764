import GhostText.Model.Fault
import GhostText.Text.Search

namespace GhostText

namespace StopTokens

-- Does a token begin at the front of the text? The empty token never does.
def begins (stops : List Text) (t : Text) : Bool :=
  stops.any fun token => !token.isEmpty && token.isPrefixOf t

-- An answer ends before the first stop token.
def cut (stops : List Text) : Text → Text
  | [] => []
  | c :: rest => if begins stops (c :: rest) then [] else c :: cut stops rest

theorem length_cut_le (stops : List Text) (t : Text) : (cut stops t).length ≤ t.length := by
  induction t
  case nil         => exact Nat.le_refl _
  case cons c t ih => unfold cut; split <;> simp [ih]

end StopTokens

namespace Chunks

-- Pieces of one size; the last may be shorter.
def pieces : Nat → Text → List Text
  | 0, _ => []
  | _, [] => []
  | n + 1, c :: rest => (c :: rest.take n) :: pieces (n + 1) (rest.drop n)
termination_by _ t => t.length
decreasing_by simp only [List.length_drop, List.length_cons]; omega

-- Without a size the answer arrives whole. An empty answer is one empty piece.
def of (t : Text) : Option Int → List Text
  | none => [t]
  | some size => if size ≤ 0 || t.isEmpty then [t] else pieces size.toNat t

theorem length_pieces_le (n : Nat) (t : Text) : (pieces n t).length ≤ t.length := by
  fun_induction pieces n t
  case case1           => simp
  case case2           => simp
  case case3 n c rest ih => simp only [List.length_cons, List.length_drop] at ih ⊢; omega

theorem length_of_le (t : Text) (size : Option Int) : (Chunks.of t size).length ≤ t.length + 1 := by
  unfold Chunks.of
  split
  case h_1 => simp
  case h_2 =>
    split
    case isTrue  => simp
    case isFalse => exact Nat.le_succ_of_le (length_pieces_le _ _)

end Chunks

-- A piece of an answer, and the milliseconds that pass before anything else comes.
structure Chunk where
  text  : Text
  pause : Nat := 0
deriving DecidableEq, Repr

-- An answer as it arrives, and the fault that it ends with if it does.
structure Delivery where
  chunks : List Chunk
  fault  : Option Fault := none
deriving DecidableEq, Repr

namespace Delivery

def ofTexts (ts : List Text) : Delivery :=
  { chunks := ts.map fun text => { text } }

def texts (d : Delivery) : List Text :=
  d.chunks.map (·.text)

def text (d : Delivery) : Text :=
  d.texts.flatten

-- What comes of waiting for all of it.
def result (d : Delivery) : Except Fault (List Text) :=
  match d.fault with
  | none   => .ok d.texts
  | some f => .error f

-- The chunks that hold so many characters, the last of them cut short.
def upTo : Nat → List Chunk → List Chunk
  | _, [] => []
  | n, c :: rest =>
    if n ≤ c.text.length then [{ c with text := c.text.take n }] else c :: upTo (n - c.text.length) rest

-- With nothing sent from the first stop token on, and no fault behind it.
def cut (stops : List Text) (d : Delivery) : Delivery :=
  let n := (StopTokens.cut stops d.text).length
  if n < d.text.length then { chunks := upTo n d.chunks } else d

theorem text_cons (c : Chunk) (cs : List Chunk) (f : Option Fault) : text ⟨c :: cs, f⟩ = c.text ++ text ⟨cs, f⟩ := by
  simp [text, texts]

theorem result_ofTexts (ts : List Text) : (ofTexts ts).result = .ok ts := by
  simp [result, ofTexts, texts, Function.comp_def]

theorem length_upTo_le (n : Nat) (cs : List Chunk) : (upTo n cs).length ≤ cs.length := by
  fun_induction upTo n cs
  case case1      => simp
  case case2      => simp
  case case3 ih   => simpa using ih

theorem length_cut_le (stops : List Text) (d : Delivery) : (d.cut stops).chunks.length ≤ d.chunks.length := by
  simp only [cut]
  split
  case isTrue  => exact length_upTo_le _ _
  case isFalse => exact Nat.le_refl _

end Delivery
end GhostText
