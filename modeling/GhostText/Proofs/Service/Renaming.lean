import GhostText.Service.Run
import Mathlib.Data.List.Forall2

namespace GhostText

namespace Service

-- Under which numbers the things of one service are known in another, if they are known there at all.
structure Renaming where
  buffer  : Nat → Option Nat
  session : Nat → Option Nat
  number  : Nat → Option Nat
  call    : Nat → Option Nat

-- One more number is known.
def learn (f : Nat → Option Nat) (i j : Nat) : Nat → Option Nat :=
  Function.update f i (some j)

-- A number that is taken but not known.
def Foreign (f : Nat → Option Nat) (size i : Nat) : Prop :=
  f i = none ∧ i < size

variable {f g : Nat → Option Nat} {i j k n m : Nat}

theorem learn_self (f : Nat → Option Nat) (i j : Nat) : learn f i j i = some j :=
  Function.update_self ..

theorem learn_of_ne (h : k ≠ i) : learn f i j k = f k :=
  Function.update_of_ne h ..

theorem learn_of_some (hi : f i = none) (hk : f k = some n) : learn f i j k = some n := by
  rw [learn_of_ne, hk]
  rintro rfl
  simp [hi] at hk

theorem Foreign.mono (h : Foreign f n i) (hn : n ≤ m) : Foreign f m i :=
  ⟨h.1, Nat.lt_of_lt_of_le h.2 hn⟩

-- The next number is none that is taken.
theorem Foreign.learn (h : Foreign f n i) : Foreign (learn f n j) (n + 1) i :=
  ⟨(learn_of_ne (Nat.ne_of_lt h.2)).trans h.1, Nat.lt_succ_of_lt h.2⟩

namespace Renaming

-- What was known is known still.
structure Grows (ρ ρ' : Renaming) : Prop where
  buffer  : ∀ i j, ρ.buffer i = some j → ρ'.buffer i = some j
  session : ∀ i j, ρ.session i = some j → ρ'.session i = some j
  number  : ∀ i j, ρ.number i = some j → ρ'.number i = some j
  call    : ∀ i j, ρ.call i = some j → ρ'.call i = some j

variable {ρ ρ' ρ'' : Renaming}

theorem Grows.refl (ρ : Renaming) : ρ.Grows ρ :=
  ⟨fun _ _ => id, fun _ _ => id, fun _ _ => id, fun _ _ => id⟩

theorem Grows.trans (h₁ : ρ.Grows ρ') (h₂ : ρ'.Grows ρ'') : ρ.Grows ρ'' :=
  ⟨fun i j h => h₂.buffer i j (h₁.buffer i j h), fun i j h => h₂.session i j (h₁.session i j h),
    fun i j h => h₂.number i j (h₁.number i j h), fun i j h => h₂.call i j (h₁.call i j h)⟩

def learnBuffer (ρ : Renaming) (i j : Nat) : Renaming :=
  { ρ with buffer := learn ρ.buffer i j }

def learnSession (ρ : Renaming) (i j : Nat) : Renaming :=
  { ρ with session := learn ρ.session i j }

def learnNumber (ρ : Renaming) (i j : Nat) : Renaming :=
  { ρ with number := learn ρ.number i j }

def learnCall (ρ : Renaming) (i j : Nat) : Renaming :=
  { ρ with call := learn ρ.call i j }

theorem Grows.learnBuffer (hi : ρ.buffer i = none) (j : Nat) : ρ.Grows (ρ.learnBuffer i j) :=
  { Grows.refl ρ with buffer := fun _ _ => learn_of_some hi }

theorem Grows.learnSession (hi : ρ.session i = none) (j : Nat) : ρ.Grows (ρ.learnSession i j) :=
  { Grows.refl ρ with session := fun _ _ => learn_of_some hi }

theorem Grows.learnNumber (hi : ρ.number i = none) (j : Nat) : ρ.Grows (ρ.learnNumber i j) :=
  { Grows.refl ρ with number := fun _ _ => learn_of_some hi }

theorem Grows.learnCall (hi : ρ.call i = none) (j : Nat) : ρ.Grows (ρ.learnCall i j) :=
  { Grows.refl ρ with call := fun _ _ => learn_of_some hi }

-- The numbers of predictions serve as their ids.
def id? (ρ : Renaming) : Int → Option Int
  | .ofNat n   => (ρ.number n).map Int.ofNat
  | .negSucc _ => none

theorem Grows.id? (h : ρ.Grows ρ') {x y : Int} (hx : ρ.id? x = some y) : ρ'.id? x = some y := by
  cases x
  case negSucc => simp [Renaming.id?] at hx
  case ofNat n =>
    obtain ⟨k, hk, rfl⟩ := Option.map_eq_some_iff.mp hx
    simp [Renaming.id?, h.number n k hk]

end Renaming

-- What is known of one array is in the other one, and the same there.
structure Linked {α β : Type} (f : Nat → Option Nat) (R : α → β → Prop) (xs : Array α) (ys : Array β) : Prop where
  distinct : ∀ i i' j, f i = some j → f i' = some j → i = i'
  found    : ∀ i j, f i = some j → ∃ x y, xs[i]? = some x ∧ ys[j]? = some y ∧ R x y

namespace Linked

variable {α β : Type} {R R' : α → β → Prop} {xs : Array α} {ys : Array β} {x : α} {y : β}

theorem lt (h : Linked f R xs ys) (hi : f i = some j) : i < xs.size ∧ j < ys.size := by
  obtain ⟨_, _, hx, hy, _⟩ := h.found i j hi
  exact ⟨(Array.getElem?_eq_some_iff.mp hx).1, (Array.getElem?_eq_some_iff.mp hy).1⟩

theorem next (h : Linked f R xs ys) : f xs.size = none := by
  cases hn : f xs.size
  case none   => rfl
  case some j => exact absurd (h.lt hn).1 (Nat.lt_irrefl _)

theorem mono (h : Linked f R xs ys) (hR : ∀ x y, R x y → R' x y) : Linked f R' xs ys where
  distinct := h.distinct
  found    := fun i j hi => by
    obtain ⟨x, y, hx, hy, hxy⟩ := h.found i j hi
    exact ⟨x, y, hx, hy, hR x y hxy⟩

theorem set (h : Linked f R xs ys) (hi : f i = some j) (hxy : R x y) :
    Linked f R (xs.setIfInBounds i x) (ys.setIfInBounds j y) where
  distinct := h.distinct
  found    := fun i' j' hi' => by
    by_cases he : i = i'
    case pos =>
      obtain rfl := he
      obtain rfl := Option.some.inj (hi ▸ hi')
      exact ⟨x, y, by simp [(h.lt hi).1], by simp [(h.lt hi).2], hxy⟩
    case neg =>
      have hj : j ≠ j' := fun hj => he (h.distinct i i' j hi (hj ▸ hi'))
      simpa [Array.getElem?_setIfInBounds, he, hj] using h.found i' j' hi'

theorem modify (h : Linked f R xs ys) (hi : f i = some j) {a : α → α} {b : β → β}
    (hab : ∀ x y, xs[i]? = some x → R x y → R (a x) (b y)) : Linked f R (xs.modify i a) (ys.modify j b) where
  distinct := h.distinct
  found    := fun i' j' hi' => by
    obtain ⟨x, y, hx, hy, hxy⟩ := h.found i' j' hi'
    by_cases he : i = i'
    case pos =>
      obtain rfl := he
      obtain rfl := Option.some.inj (hi ▸ hi')
      exact ⟨a x, b y, by simp [Array.getElem?_modify, hx], by simp [Array.getElem?_modify, hy], hab x y hx hxy⟩
    case neg =>
      have hj : j ≠ j' := fun hj => he (h.distinct i i' j hi (hj ▸ hi'))
      exact ⟨x, y, by simp [Array.getElem?_modify, he, hx], by simp [Array.getElem?_modify, hj, hy], hxy⟩

-- What is not known may change.
theorem of_unknown {xs' : Array α} (h : Linked f R xs ys) (hx : ∀ i : Nat, f i ≠ none → xs'[i]? = xs[i]?) :
    Linked f R xs' ys where
  distinct := h.distinct
  found    := fun i j hi => by
    rw [hx i (by simp [hi])]
    exact h.found i j hi

theorem push_unknown (h : Linked f R xs ys) (x : α) : Linked f R (xs.push x) ys :=
  h.of_unknown fun i hi => by
    obtain ⟨j, hj⟩ := Option.ne_none_iff_exists'.mp hi
    simp [Array.getElem?_push, Nat.ne_of_lt (h.lt hj).1]

theorem push (h : Linked f R xs ys) (hxy : R x y) :
    Linked (learn f xs.size ys.size) R (xs.push x) (ys.push y) where
  distinct := fun i i' j hi hi' => by
    have hd := h.distinct i i' j
    have hl {k : Nat} (hk : k ≠ xs.size) (hj : learn f xs.size ys.size k = some j) : f k = some j ∧ j < ys.size := by
      rw [learn_of_ne hk] at hj
      exact ⟨hj, (h.lt hj).2⟩
    have hn : ∀ k, learn f xs.size ys.size xs.size = some k → k = ys.size := fun k hk => by
      rw [learn_self] at hk
      exact (Option.some.inj hk).symm
    by_cases he : i = xs.size
    case pos =>
      obtain rfl := hn j (he ▸ hi)
      exact he.trans (Decidable.byContradiction fun he' => Nat.lt_irrefl _ (hl (Ne.symm he') hi').2)
    case neg =>
      by_cases he' : i' = xs.size
      case neg => exact hd (hl he hi).1 (hl he' hi').1
      case pos =>
        obtain rfl := hn j (he' ▸ hi')
        exact absurd (hl he hi).2 (Nat.lt_irrefl _)
  found    := fun i j hi => by
    by_cases he : i = xs.size
    case pos =>
      rw [he, learn_self] at hi
      obtain rfl := Option.some.inj hi
      exact ⟨x, y, by simp [he], by simp, hxy⟩
    case neg =>
      rw [learn_of_ne he] at hi
      obtain ⟨hx, hy⟩ := h.lt hi
      simpa [Array.getElem?_push, Nat.ne_of_lt hx, Nat.ne_of_lt hy] using h.found i j hi

end Linked

-- One list is what is left of the other one without what is of others.
inductive Embeds {α β : Type} (R : α → β → Prop) (F : α → Prop) : List α → List β → Prop
  | nil : Embeds R F [] []
  | both {x : α} {y : β} {xs : List α} {ys : List β} (h : R x y) (rest : Embeds R F xs ys) :
    Embeds R F (x :: xs) (y :: ys)
  | other {x : α} {xs : List α} {ys : List β} (h : F x) (rest : Embeds R F xs ys) : Embeds R F (x :: xs) ys

namespace Embeds

variable {α β α' β' : Type} {R R' : α → β → Prop} {F F' : α → Prop} {xs xs' : List α} {ys ys' : List β}

theorem map {S : α' → β' → Prop} {G : α' → Prop} {a : α → α'} {b : β → β'} (h : Embeds R F xs ys)
    (hR : ∀ x y, R x y → S (a x) (b y)) (hF : ∀ x, F x → G (a x)) : Embeds S G (xs.map a) (ys.map b) := by
  induction h
  case nil             => exact .nil
  case both hxy _ ih   => exact .both (hR _ _ hxy) ih
  case other hx _ ih   => exact .other (hF _ hx) ih

theorem mono (h : Embeds R F xs ys) (hR : ∀ x y, R x y → R' x y) (hF : ∀ x, F x → F' x) : Embeds R' F' xs ys := by
  simpa using h.map (a := id) (b := id) hR hF

theorem append (h : Embeds R F xs ys) (h' : Embeds R F xs' ys') : Embeds R F (xs ++ xs') (ys ++ ys') := by
  induction h
  case nil           => exact h'
  case both hxy _ ih => exact .both hxy ih
  case other hx _ ih => exact .other hx ih

theorem single {x : α} {y : β} (h : R x y) : Embeds R F [x] [y] :=
  .both h .nil

theorem others (h : ∀ x ∈ xs, F x) : Embeds R F xs [] := by
  induction xs
  case nil          => exact .nil
  case cons x xs ih => exact .other (h x List.mem_cons_self) (ih fun x hx => h x (List.mem_cons_of_mem _ hx))

theorem append_others (h : Embeds R F xs ys) (h' : ∀ x ∈ xs', F x) : Embeds R F (xs ++ xs') ys := by
  simpa using h.append (others h')

-- What is left is chosen alike on both sides. Of others anything may be left.
theorem filter {p : α → Bool} {q : β → Bool} (h : Embeds R F xs ys) (hp : ∀ x y, R x y → p x = q y) :
    Embeds R F (xs.filter p) (ys.filter q) := by
  induction h
  case nil           => exact .nil
  case both x y xs ys hxy _ ih =>
    cases hq : q y
    case false => simpa [List.filter_cons, hp x y hxy, hq] using ih
    case true  => simpa [List.filter_cons, hp x y hxy, hq] using .both hxy ih
  case other x xs ys hx _ ih =>
    cases hp' : p x
    case false => simpa [List.filter_cons, hp'] using ih
    case true  => simpa [List.filter_cons, hp'] using .other hx ih

theorem filter_others {p : α → Bool} (h : Embeds R F xs ys) (hp : ∀ x y, R x y → p x = true) :
    Embeds R F (xs.filter p) ys := by
  simpa using h.filter (q := fun _ => true) hp

-- With nothing of others on the left, the lists go together.
theorem forall₂ (h : Embeds R F xs ys) (hF : ∀ x ∈ xs, ¬F x) : List.Forall₂ R xs ys := by
  induction h
  case nil           => exact .nil
  case both hxy _ ih => exact .cons hxy (ih fun x hx => hF x (List.mem_cons_of_mem _ hx))
  case other hx _ _  => exact absurd hx (hF _ List.mem_cons_self)

theorem exists_of_mem (h : Embeds R F xs ys) {y : β} (hy : y ∈ ys) : ∃ x ∈ xs, R x y := by
  induction h
  case nil => simp at hy
  case both x y' xs ys hxy _ ih =>
    rcases List.mem_cons.mp hy with rfl | hy
    case inl => exact ⟨x, List.mem_cons_self, hxy⟩
    case inr =>
      obtain ⟨x', hx', hxy'⟩ := ih hy
      exact ⟨x', List.mem_cons_of_mem _ hx', hxy'⟩
  case other ih =>
    obtain ⟨x, hx, hxy⟩ := ih hy
    exact ⟨x, List.mem_cons_of_mem _ hx, hxy⟩

end Embeds

end Service

open Service

-- The same but for the id.
def Prediction.Same (ρ : Renaming) (p q : Prediction) : Prop :=
  ∃ id, ρ.id? p.id = some id ∧ q = { p with id }

def Completion.Same (ρ : Renaming) (x y : Completion) : Prop :=
  ∃ id id', x.prediction = some id ∧ ρ.id? id = some id' ∧ y = { x with prediction := some id' }

namespace Service

-- The same predictions are kept, in the same order.
structure Session.Same (ρ : Renaming) (x y : Session) : Prop where
  maxSize    : y.cache.maxSize = x.cache.maxSize
  entries    : List.Forall₂ (fun a b => ρ.number a.1 = some b.1) x.cache.entries y.cache.entries
  generation : y.generation = x.generation
  lastAccept : y.lastAccept = x.lastAccept

-- A request is as far, and its session is one that is known.
structure Dispatch.Same (ρ : Renaming) (d d' : Dispatch) : Prop where
  prediction : d.prediction.Same ρ d'.prediction
  request    : d'.request = d.request
  watch      : d'.watch = d.watch
  reading    : d'.reading = d.reading
  cancelled  : d'.cancelled = d.cancelled
  session    : ρ.session d.session ≠ none

inductive Stage.Same (ρ : Renaming) : Stage → Stage → Prop
  | queued : Same ρ .queued .queued
  | debouncing {i j : Nat} (cursor : Cursor) (generation : Nat) (accepted : Bool) (hi : ρ.session i = some j) :
    Same ρ (.debouncing i cursor generation accepted) (.debouncing j cursor generation accepted)
  | gathering {i j : Nat} (cursor : Cursor) (o : Options) (h : Hints) (unasked : List Hints.Provider)
    (hi : ρ.session i = some j) : Same ρ (.gathering i cursor o h unasked) (.gathering j cursor o h unasked)
  | awaiting {i j r k : Nat} (cursor : Cursor) (own : Bool) (hi : ρ.session i = some j) (hr : ρ.number r = some k) :
    Same ρ (.awaiting i cursor r own) (.awaiting j cursor k own)
  | answered {xs ys : List Completion} (h : List.Forall₂ (Completion.Same ρ) xs ys) :
    Same ρ (.answered xs) (.answered ys)
  | cancelled : Same ρ .cancelled .cancelled

structure Call.Same (ρ : Renaming) (x y : Call) : Prop where
  uri      : y.uri = x.uri
  buffer   : ρ.buffer x.buffer = some y.buffer
  position : y.position = x.position
  stage    : x.stage.Same ρ y.stage

inductive Bell.Same (ρ : Renaming) : Bell → Bell → Prop
  | call {c k : Nat} (h : ρ.call c = some k) : Same ρ (.call c) (.call k)
  | answer {r k : Nat} (h : ρ.number r = some k) : Same ρ (.answer r) (.answer k)
  | deadline {r k : Nat} (h : ρ.number r = some k) : Same ρ (.deadline r) (.deadline k)

structure Alarm.Same (ρ : Renaming) (a a' : Alarm) : Prop where
  due  : a'.due = a.due
  bell : a.bell.Same ρ a'.bell

inductive Turn.Same (ρ : Renaming) : Turn → Turn → Prop
  | startCall {c k : Nat} (h : ρ.call c = some k) : Same ρ (.startCall c) (.startCall k)
  | resumeCall {c k : Nat} (h : ρ.call c = some k) : Same ρ (.resumeCall c) (.resumeCall k)
  | relay {c k : Nat} (h : ρ.call c = some k) : Same ρ (.relay c) (.relay k)
  | startRequest {r k : Nat} (h : ρ.number r = some k) : Same ρ (.startRequest r) (.startRequest k)
  | resumeRequest {r k : Nat} (h : ρ.number r = some k) : Same ρ (.resumeRequest r) (.resumeRequest k)
  | startReading {r k : Nat} (h : ρ.number r = some k) : Same ρ (.startReading r) (.startReading k)
  | resumeReading {r k : Nat} (h : ρ.number r = some k) : Same ρ (.resumeReading r) (.resumeReading k)
  | readingOver {r k : Nat} (h : ρ.number r = some k) : Same ρ (.readingOver r) (.readingOver k)
  | retire {r k : Nat} (h : ρ.number r = some k) : Same ρ (.retire r) (.retire k)
  | ring {b b' : Bell} (h : b.Same ρ b') : Same ρ (.ring b) (.ring b')

-- It concerns a call or a request that is not known.
def Bell.Strange (ρ : Renaming) (calls numbers : Nat) : Bell → Prop
  | .call c                 => Foreign ρ.call calls c
  | .answer r | .deadline r => Foreign ρ.number numbers r

def Turn.Strange (ρ : Renaming) (calls numbers : Nat) : Turn → Prop
  | .startCall c | .resumeCall c | .relay c                      => Foreign ρ.call calls c
  | .startRequest r | .resumeRequest r | .retire r               => Foreign ρ.number numbers r
  | .startReading r | .resumeReading r | .readingOver r          => Foreign ρ.number numbers r
  | .ring b                                                      => b.Strange ρ calls numbers

end Service

section Growing

variable {ρ ρ' : Renaming} (hρ : ρ.Grows ρ')
include hρ

theorem Prediction.Same.mono {p q : Prediction} (h : p.Same ρ q) : p.Same ρ' q := by
  obtain ⟨id, hid, hq⟩ := h
  exact ⟨id, hρ.id? hid, hq⟩

theorem Completion.Same.mono {x y : Completion} (h : x.Same ρ y) : x.Same ρ' y := by
  obtain ⟨id, id', hid, hid', hy⟩ := h
  exact ⟨id, id', hid, hρ.id? hid', hy⟩

namespace Service

theorem Session.Same.mono {x y : Session} (h : x.Same ρ y) : x.Same ρ' y :=
  { h with entries := h.entries.imp fun _ _ => hρ.number _ _ }

theorem Dispatch.Same.mono {d d' : Dispatch} (h : d.Same ρ d') : d.Same ρ' d' :=
  { h with
    prediction := h.prediction.mono hρ
    session    := by
      obtain ⟨j, hj⟩ := Option.ne_none_iff_exists'.mp h.session
      simp [hρ.session _ _ hj] }

theorem Stage.Same.mono {x y : Stage} (h : x.Same ρ y) : x.Same ρ' y := by
  cases h
  case queued         => exact .queued
  case debouncing hi  => exact .debouncing _ _ _ (hρ.session _ _ hi)
  case gathering hi   => exact .gathering _ _ _ _ (hρ.session _ _ hi)
  case awaiting hi hr => exact .awaiting _ _ (hρ.session _ _ hi) (hρ.number _ _ hr)
  case answered h     => exact .answered (h.imp fun _ _ h => h.mono hρ)
  case cancelled      => exact .cancelled

theorem Call.Same.mono {x y : Call} (h : x.Same ρ y) : x.Same ρ' y :=
  { h with buffer := hρ.buffer _ _ h.buffer, stage := h.stage.mono hρ }

theorem Bell.Same.mono {b b' : Bell} (h : b.Same ρ b') : b.Same ρ' b' := by
  cases h
  case call h     => exact .call (hρ.call _ _ h)
  case answer h   => exact .answer (hρ.number _ _ h)
  case deadline h => exact .deadline (hρ.number _ _ h)

theorem Alarm.Same.mono {a a' : Alarm} (h : a.Same ρ a') : a.Same ρ' a' :=
  { h with bell := h.bell.mono hρ }

theorem Turn.Same.mono {t t' : Turn} (h : t.Same ρ t') : t.Same ρ' t' := by
  cases h
  case startCall h     => exact .startCall (hρ.call _ _ h)
  case resumeCall h    => exact .resumeCall (hρ.call _ _ h)
  case relay h         => exact .relay (hρ.call _ _ h)
  case startRequest h  => exact .startRequest (hρ.number _ _ h)
  case resumeRequest h => exact .resumeRequest (hρ.number _ _ h)
  case startReading h  => exact .startReading (hρ.number _ _ h)
  case resumeReading h => exact .resumeReading (hρ.number _ _ h)
  case readingOver h   => exact .readingOver (hρ.number _ _ h)
  case retire h        => exact .retire (hρ.number _ _ h)
  case ring h          => exact .ring (h.mono hρ)

end Service
end Growing

section Strange

variable {ρ ρ' : Renaming} {calls calls' numbers numbers' : Nat}
  (hc : ∀ c, Foreign ρ.call calls c → Foreign ρ'.call calls' c)
  (hn : ∀ r, Foreign ρ.number numbers r → Foreign ρ'.number numbers' r)
include hc hn

theorem Service.Bell.Strange.mono {b : Bell} (h : b.Strange ρ calls numbers) : b.Strange ρ' calls' numbers' := by
  cases b
  case call c => exact hc c h
  all_goals exact hn _ h

theorem Service.Turn.Strange.mono {t : Turn} (h : t.Strange ρ calls numbers) : t.Strange ρ' calls' numbers' := by
  cases t
  case ring b => exact Bell.Strange.mono hc hn h
  all_goals first | exact hc _ h | exact hn _ h

end Strange
end GhostText
