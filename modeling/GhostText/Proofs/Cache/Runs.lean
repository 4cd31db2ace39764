import GhostText.Cache

namespace GhostText.Cache

variable {κ υ σ ε : Type} [DecidableEq κ]

inductive Op (κ υ : Type)
  | set (k : κ) (v : υ)
  | delete (k : κ)
  | clear
  | get (k : κ)
  | contains (k : κ)
  | values
  | keys
  | size

-- Reading leaves everything as it is.
def perform (hook : Hook κ υ σ ε) (c : Cache κ υ) (s : σ) : Op κ υ → Outcome κ υ σ ε
  | .set k v  => c.set hook s k v
  | .delete k => c.delete hook s k
  | .clear    => c.clear hook s
  | .get _ | .contains _ | .values | .keys | .size => { cache := c, state := s }

-- The cache and the state of the hook after all of the operations. Whoever is refused goes on with the next one.
def run (hook : Hook κ υ σ ε) (c : Cache κ υ) (s : σ) : List (Op κ υ) → Cache κ υ × σ
  | []         => (c, s)
  | op :: rest => run hook (c.perform hook s op).cache (c.perform hook s op).state rest

-- A hook that never refuses.
def Tolerant (hook : Hook κ υ σ ε) : Prop :=
  ∀ k v s, (hook k v s).2 = none

-- The hook gets to see entries one after the other.
def showAll (hook : Hook κ υ σ ε) (s : σ) (entries : List (κ × υ)) : σ :=
  entries.foldl (fun s e => (hook e.1 e.2 s).1) s

theorem run_append (hook : Hook κ υ σ ε) (c : Cache κ υ) (s : σ) (ops ops' : List (Op κ υ)) :
    run hook c s (ops ++ ops') = run hook (run hook c s ops).1 (run hook c s ops).2 ops' := by
  induction ops generalizing c s
  case nil             => rfl
  case cons op rest ih => exact ih _ _

end GhostText.Cache
