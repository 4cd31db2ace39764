namespace GhostText

-- The hook's state after it has seen a key and its value, and why it refuses, if it does.
abbrev Cache.Hook (κ υ σ ε : Type) := κ → υ → σ → σ × Option ε

-- A cache that forgets the entry set longest ago. Reading does not refresh an entry. Before an entry leaves, the hook
-- gets to see it, and if it refuses, the entries stay as they were.
structure Cache (κ υ : Type) where
  maxSize : Nat
  -- oldest first
  entries : List (κ × υ) := []
deriving Repr

namespace Cache

variable {κ υ σ ε : Type} [DecidableEq κ]

-- What an operation leaves behind: the cache, the state of the hook, and the hook's refusal if there was one.
structure Outcome (κ υ σ ε : Type) where
  cache   : Cache κ υ
  state   : σ
  refused : Option ε := none

-- A cache without room for a single entry is refused.
def ofSize? (size : Int) : Option (Cache κ υ) :=
  if 0 < size then some { maxSize := size.toNat } else none

def keys (c : Cache κ υ) : List κ :=
  c.entries.map (·.1)

def values (c : Cache κ υ) : List υ :=
  c.entries.map (·.2)

def size (c : Cache κ υ) : Nat :=
  c.entries.length

def get? (c : Cache κ υ) (k : κ) : Option υ :=
  (c.entries.find? (·.1 = k)).map (·.2)

def contains (c : Cache κ υ) (k : κ) : Bool :=
  c.entries.any (·.1 = k)

def without (k : κ) (entries : List (κ × υ)) : List (κ × υ) :=
  entries.filter (·.1 ≠ k)

-- A key that is present moves to the end; otherwise a full cache first lets its oldest entry go.
def set (hook : Hook κ υ σ ε) (c : Cache κ υ) (s : σ) (k : κ) (v : υ) : Outcome κ υ σ ε :=
  if c.contains k then
    { cache := { c with entries := without k c.entries ++ [(k, v)] }, state := s }
  else if c.size < c.maxSize then
    { cache := { c with entries := c.entries ++ [(k, v)] }, state := s }
  else match c.entries with
    | [] => { cache := { c with entries := [(k, v)] }, state := s }
    | (oldest, value) :: rest =>
      match hook oldest value s with
      | (s', none) => { cache := { c with entries := rest ++ [(k, v)] }, state := s' }
      | (s', some e) => { cache := c, state := s', refused := some e }

def delete (hook : Hook κ υ σ ε) (c : Cache κ υ) (s : σ) (k : κ) : Outcome κ υ σ ε :=
  match c.get? k with
  | none => { cache := c, state := s }
  | some v =>
    match hook k v s with
    | (s', none) => { cache := { c with entries := without k c.entries }, state := s' }
    | (s', some e) => { cache := c, state := s', refused := some e }

-- Show the entries to the hook one after the other, until it refuses one.
def dispose (hook : Hook κ υ σ ε) : List (κ × υ) → σ → σ × Option ε
  | [], s => (s, none)
  | (k, v) :: rest, s =>
    match hook k v s with
    | (s', none) => dispose hook rest s'
    | (s', some e) => (s', some e)

def clear (hook : Hook κ υ σ ε) (c : Cache κ υ) (s : σ) : Outcome κ υ σ ε :=
  match dispose hook c.entries s with
  | (s', none) => { cache := { c with entries := [] }, state := s' }
  | (s', some e) => { cache := c, state := s', refused := some e }

theorem map_without (k : κ) (entries : List (κ × υ)) :
    (without k entries).map (·.1) = (entries.map (·.1)).filter (· ≠ k) := by
  rw [without, List.filter_map]
  rfl

-- A change of one entry shows the hook at most one entry.
theorem state_set (hook : Hook κ υ σ ε) (c : Cache κ υ) (s : σ) (k : κ) (v : υ) :
    (c.set hook s k v).state = s ∨ ∃ k' v', (c.set hook s k v).state = (hook k' v' s).1 := by
  unfold set
  split
  case isTrue  => exact .inl rfl
  case isFalse =>
    split
    case isTrue  => exact .inl rfl
    case isFalse =>
      split
      case h_1           => exact .inl rfl
      case h_2 k' v' _ _ => split <;> exact .inr ⟨k', v', by simp [*]⟩

theorem state_delete (hook : Hook κ υ σ ε) (c : Cache κ υ) (s : σ) (k : κ) :
    (c.delete hook s k).state = s ∨ ∃ k' v', (c.delete hook s k).state = (hook k' v' s).1 := by
  unfold delete
  split
  case h_1     => exact .inl rfl
  case h_2 v _ => split <;> exact .inr ⟨k, v, by simp [*]⟩

end Cache
end GhostText
