import GhostText.Hints.Header
import GhostText.Model.Delivery
import GhostText.Text.Bound

namespace GhostText

-- Fill in the text between the two sides, up to a stop token.
structure FillRequest where
  before : Text
  after  : Text := []
  stops  : List Text := []
deriving DecidableEq, Repr

-- What a request is answered with: a text, sent in whatever way texts are sent, or chunks with their pauses and a fault
-- at the end, which can be any answer at all.
inductive Reply
  | text (t : Text)
  | delivery (d : Delivery)
deriving DecidableEq, Repr

def Reply.fault (f : Fault) : Reply :=
  .delivery { chunks := [], fault := f }

def Reply.whole : Reply → Text
  | .text t     => t
  | .delivery d => d.text

-- In so many chunks it is sent at most.
def Reply.size : Reply → Nat
  | .text t     => t.length + 1
  | .delivery d => d.chunks.length

-- The answers of a model are known in advance.
inductive Answers
  -- looked up by request, with one answer for every request that is not in the table
  | byRequest (table : List (FillRequest × Reply)) (otherwise : Reply)
  -- one for each request, as long as there are any
  | inTurn (script : List Reply)
  -- whatever follows the request in a finished text
  | continuing (truth : Text)

namespace Answers

def always (text : Text) : Answers :=
  byRequest [] (.text text)

def name : Answers → String
  | continuing _ => "oracle"
  | _            => "static"

-- How much of a request's prefix is looked for in the finished text.
def tailLength : Nat := 256

def tail (n : Nat) (t : Text) : Text :=
  t.drop (t.length - n)

-- What follows in the finished text, or the tail that does not occur in it.
def continuation (truth : Text) (r : FillRequest) : Except Text Text :=
  let tail := tail tailLength (Header.detach r.before)
  match Text.find? tail truth with
  | some i => .ok (truth.drop (i + tail.length))
  | none => .error tail

def exhausted (a : Answers) : Fault :=
  .request "no scripted response left".toList (some a.name.toList)

-- The answer to a request, and the answers left for later ones.
def next (a : Answers) (r : FillRequest) : Reply × Answers :=
  match a with
  | byRequest table otherwise => ((table.lookup r).getD otherwise, a)
  | inTurn [] => (.fault a.exhausted, a)
  | inTurn (reply :: rest) => (reply, inTurn rest)
  | continuing truth => (.text ((continuation truth r).toOption.getD []), a)

-- The tail of a request that the finished text does not have.
def missed? (a : Answers) (r : FillRequest) : Option Text :=
  match a with
  | continuing truth =>
    match continuation truth r with
    | .error tail => some tail
    | .ok _ => none
  | _ => none

-- No answer to come has more chunks.
def longest : Answers → Nat
  | byRequest table otherwise => table.foldr (fun (_, a) n => max a.size n) otherwise.size
  | inTurn script             => script.foldr (fun a n => max a.size n) 0
  | continuing truth          => truth.length + 1

theorem longest_next_le (a : Answers) (r : FillRequest) : (a.next r).2.longest ≤ a.longest := by
  unfold next
  split
  case h_3 => exact Nat.le_max_right ..
  all_goals exact Nat.le_refl _

theorem size_lookup_le (table : List (FillRequest × Reply)) (otherwise : Reply) (r : FillRequest) :
    ((table.lookup r).getD otherwise).size ≤ (byRequest table otherwise).longest := by
  induction table
  case nil             => simp [longest]
  case cons x table ih =>
    obtain ⟨k, reply⟩ := x
    simp only [longest, List.foldr_cons, List.lookup_cons] at ih ⊢
    split
    case h_1 => exact Nat.le_max_left ..
    case h_2 => exact Nat.le_trans ih (Nat.le_max_right _ _)

theorem size_next_le (a : Answers) (r : FillRequest) : (a.next r).1.size ≤ a.longest := by
  unfold next
  split
  case h_1 => exact size_lookup_le ..
  case h_2 => simp [Reply.fault, Reply.size]
  case h_3 => exact Nat.le_max_left ..
  case h_4 =>
    simp only [continuation, Reply.size, longest]
    split <;> simp [Except.toOption]

end Answers

structure Backend where
  answers     : Answers
  -- milliseconds before an answer starts to arrive, if it takes any time
  delay       : Option Nat := none
  chunkSize   : Option Int := none
  honorsStops : Bool := true
  -- the requests received so far, and how many of them were given up
  received    : Array FillRequest := #[]
  givenUp     : Nat := 0

namespace Backend

def name (b : Backend) : String :=
  b.answers.name

def receive (b : Backend) (r : FillRequest) : Backend :=
  { b with received := b.received.push r }

def giveUp (b : Backend) : Backend :=
  { b with givenUp := b.givenUp + 1 }

def upToStop (b : Backend) (r : FillRequest) (t : Text) : Text :=
  if b.honorsStops then StopTokens.cut r.stops t else t

def send (b : Backend) (r : FillRequest) : Reply → Delivery
  | .text t     => .ofTexts (Chunks.of (b.upToStop r t) b.chunkSize)
  | .delivery d => if b.honorsStops then d.cut r.stops else d

-- What the next answer brings.
def answer (b : Backend) (r : FillRequest) : Delivery × Backend :=
  let (reply, answers) := b.answers.next r
  (b.send r reply, { b with answers })

-- A whole request at once.
def complete (b : Backend) (r : FillRequest) : Except Fault (List Text) × Backend :=
  let (delivery, b) := (b.receive r).answer r
  (delivery.result, b)

theorem longest_answer_le (b : Backend) (r : FillRequest) :
    (b.answer r).2.answers.longest ≤ b.answers.longest :=
  b.answers.longest_next_le r

theorem length_upToStop_le (b : Backend) (r : FillRequest) (t : Text) : (b.upToStop r t).length ≤ t.length := by
  unfold upToStop
  split
  case isTrue  => exact StopTokens.length_cut_le ..
  case isFalse => exact Nat.le_refl _

theorem length_send_le (b : Backend) (r : FillRequest) (reply : Reply) :
    (b.send r reply).chunks.length ≤ reply.size := by
  cases reply
  case text t     =>
    have hc := Chunks.length_of_le (b.upToStop r t) b.chunkSize
    have ht := b.length_upToStop_le r t
    simp only [send, Delivery.ofTexts, List.length_map, Reply.size]
    omega
  case delivery d =>
    simp only [send, Reply.size]
    split
    case isTrue  => exact d.length_cut_le r.stops
    case isFalse => exact Nat.le_refl _

theorem length_answer_le (b : Backend) (r : FillRequest) :
    (b.answer r).1.chunks.length ≤ b.answers.longest :=
  Nat.le_trans (b.length_send_le r _) (b.answers.size_next_le r)

end Backend
end GhostText
