namespace GhostText

def total : List Nat → Nat
  | [] => 0
  | n :: ns => n + total ns

variable {α : Type}

theorem total_append (ms ns : List Nat) : total (ms ++ ns) = total ms + total ns := by
  induction ms
  case nil          => simp [total]
  case cons m ms ih => simp only [List.cons_append, total, ih]; omega

theorem total_reverse (ns : List Nat) : total ns.reverse = total ns := by
  induction ns
  case nil          => rfl
  case cons n ns ih => simp only [List.reverse_cons, total_append, total, ih]; omega

theorem total_map_const (f : α → Nat) {n : Nat} (h : ∀ x, f x = n) (xs : List α) :
    total (xs.map f) = n * xs.length := by
  induction xs
  case nil          => rfl
  case cons x xs ih => simp only [List.map_cons, total, ih, h, List.length_cons, Nat.mul_succ]; omega

theorem total_map_modify (f : α → Nat) (g : α → α) {xs : List α} {i : Nat} {x : α} (h : xs[i]? = some x) :
    total ((xs.modify i g).map f) + f x = total (xs.map f) + f (g x) := by
  induction xs generalizing i
  case nil          => simp at h
  case cons z zs ih =>
    cases i
    case zero   =>
      obtain rfl : z = x := by simpa using h
      simp only [List.modify_zero_cons, List.map_cons, total]; omega
    case succ i =>
      have := ih (i := i) (by simpa using h)
      simp only [List.modify_succ_cons, List.map_cons, total]; omega

theorem set_eq_modify (xs : List α) (i : Nat) (y : α) : xs.set i y = xs.modify i fun _ => y := by
  induction xs generalizing i
  case nil          => simp
  case cons x xs ih =>
    cases i
    case zero   => rfl
    case succ i => simp [ih]

theorem total_map_set (f : α → Nat) {xs : List α} {i : Nat} {x : α} (y : α) (h : xs[i]? = some x) :
    total ((xs.set i y).map f) + f x = total (xs.map f) + f y := by
  rw [set_eq_modify]
  exact total_map_modify f _ h

theorem total_map_le {f g : α → Nat} (h : ∀ x, f x ≤ g x) (xs : List α) : total (xs.map f) ≤ total (xs.map g) := by
  induction xs
  case nil          => exact Nat.le_refl _
  case cons x xs ih => exact Nat.add_le_add (h x) ih

end GhostText
