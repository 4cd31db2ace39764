import GhostText.Proofs.Prediction.Acts

namespace GhostText

-- The turn that somebody at this point is waiting for.
def Wait.turn? (t : Nat) : Wait → Option Watched.Turn
  | .queued _  => some (.start t)
  | .listening => some (.relay t)
  | .roused _  => some (.resume t)
  | _          => none

namespace Watched

def Turn.whose : Turn → Nat
  | .start t | .relay t | .resume t => t

variable {w w' : Watched} {a : Act} {n : Turn} {rest : List Turn} {t u : Nat} {x y : Wait} {r : RequestResult}

-- Nobody is left out: who is not through yet has a turn to come, or listens to the future.
def Served (w : Watched) (t : Nat) : Wait → Prop
  | .queued _       => .start t ∈ w.ready
  | .listening      => (∃ listeners, w.future = some (.unset listeners) ∧ t ∈ listeners) ∨ .relay t ∈ w.ready
  | .roused result? => .resume t ∈ w.ready ∧ ∀ r ∈ result?, w.prediction.result? = some r
  | .cancelled      => True
  | .obtained r     => w.prediction.result? = some r

structure Sound (w : Watched) : Prop where
  unset   : ∀ listeners, w.future = some (.unset listeners) → w.prediction.result? = none
  set     : ∀ r, w.future = some (.set r) → w.prediction.result? = some r
  relayed : ∀ t, .relay t ∈ w.ready → ∃ r, w.future = some (.set r)
  served  : ∀ t x, w.waits[t]? = some x → w.Served t x

-- What somebody relies on: his next turn, his place among those who listen, and the result.
theorem Served.frame (h : w.Served t x) (hr : ∀ n ∈ x.turn? t, n ∈ w.ready → n ∈ w'.ready)
    (hf : ∀ listeners, w.future = some (.unset listeners) → t ∈ listeners → x = .listening → w'.Served t .listening)
    (hp : ∀ r, w.prediction.result? = some r → w'.prediction.result? = some r) : w'.Served t x := by
  cases x
  case queued    => exact hr _ rfl h
  case listening =>
    rcases h with ⟨listeners, hl, ht⟩ | ht
    case inl => exact hf listeners hl ht rfl
    case inr => exact .inr (hr _ rfl ht)
  case roused    => exact ⟨hr _ rfl h.1, fun r hx => hp r (h.2 r hx)⟩
  case cancelled => trivial
  case obtained  => exact hp _ h

theorem Served.of_ready (h : w.Served t x) (hr : ∀ n ∈ x.turn? t, n ∈ w.ready → n ∈ w'.ready)
    (hf : w'.future = w.future) (hp : w'.prediction.result? = w.prediction.result?) : w'.Served t x :=
  h.frame hr (fun listeners hl ht _ => .inl ⟨listeners, hf ▸ hl, ht⟩) (fun _ h => hp ▸ h)

theorem whose_eq {n : Turn} (h : x.turn? t = some n) : n.whose = t := by
  cases x <;> simp only [Wait.turn?, Option.some.injEq, reduceCtorEq] at h <;> subst h <;> rfl

theorem mem_rest (hr : w.ready = n :: rest) : ∀ m ∈ w.ready, m.whose ≠ n.whose → m ∈ rest := by
  intro m hm hn
  rw [hr] at hm
  exact (List.mem_cons.mp hm).resolve_left fun he => hn (he ▸ rfl)

-- What the turn does for the one it is for.
def Turn.go (w : Watched) (x : Wait) : Turn → Watched
  | .start t  => w.start t x
  | .relay t  => w.relay t x
  | .resume t => w.resume t x

theorem takeTurn_of_none (hx : w.waits[n.whose]? = none) : w.takeTurn n = w := by
  cases n <;> simp only [takeTurn, withWait, Turn.whose] at hx ⊢ <;> rw [hx]

theorem takeTurn_of_some (hx : w.waits[n.whose]? = some x) : w.takeTurn n = n.go w x := by
  cases n <;> simp only [takeTurn, withWait, Turn.whose, Turn.go] at hx ⊢ <;> rw [hx]

namespace Sound

theorem fresh (p : Prediction) : Sound { prediction := p } where
  unset   := nofun
  set     := nofun
  relayed := nofun
  served  := by simp

theorem idle (h : w.Sound) (hp : w'.prediction.stage = w.prediction.stage) (hf : w'.future = w.future)
    (hw : w'.waits = w.waits) (hr : w'.ready = w.ready) : w'.Sound := by
  have hp : w'.prediction.result? = w.prediction.result? := by simp [Prediction.result?, hp]
  exact {
    unset   := by rw [hf, hp]; exact h.unset
    set     := by rw [hf, hp]; exact h.set
    relayed := by rw [hf, hr]; exact h.relayed
    served  := fun t x hx => (h.served t x (hw ▸ hx)).of_ready (by simp [hr]) hf hp }

-- Those who listened are told in turns to come.
theorem resolve (h : w.Sound) {p : Prediction} (hw : w.prediction.isPending) (hp : p.isPending = false) :
    (w.resolve p).Sound := by
  obtain ⟨r, hr⟩ := Prediction.isPending_eq_false_iff.mp hp
  rw [Prediction.isPending_iff] at hw
  have hn : ∀ r, w.prediction.result? = some r → p.result? = some r := by simp [hw]
  cases hf : w.future
  case none =>
    have he : w.resolve p = { w with prediction := p } := by simp [Watched.resolve, hf]
    rw [he]
    exact {
      unset   := by simp [hf]
      set     := by simp [hf]
      relayed := h.relayed
      served  := fun t x hx => (h.served t x hx).frame (fun _ _ hm => hm) (by simp [hf]) hn }
  case some f =>
    cases f
    case set r' => cases hw.symm.trans (h.set r' hf)
    case unset listeners =>
      have he : w.resolve p = { w with
          prediction := p, future := some (.set r), ready := w.ready ++ listeners.map .relay } := by
        simp [Watched.resolve, hf, hr]
      rw [he]
      refine {
        unset   := by simp
        set     := by simp [hr]
        relayed := fun _ _ => ⟨r, rfl⟩
        served  := fun t x hx => (h.served t x hx).frame (fun _ _ hm => List.mem_append_left _ hm) ?_ hn }
      intro l hl ht _
      cases hf.symm.trans hl
      exact .inr (List.mem_append_right _ (List.mem_map_of_mem ht))

theorem wait (h : w.Sound) (name : Text) : (w.wait name).Sound where
  unset   := h.unset
  set     := h.set
  relayed := by
    intro t ht
    simp only [Watched.wait, List.mem_append, List.mem_singleton, reduceCtorEq, or_false] at ht
    exact h.relayed t ht
  served  := by
    intro t x hx
    simp only [Watched.wait, Array.getElem?_push] at hx
    split at hx
    case isTrue ht =>
      cases hx
      subst ht
      exact List.mem_append_right _ (List.mem_singleton_self _)
    case isFalse =>
      exact (h.served t x hx).of_ready (fun _ _ hm => List.mem_append_left _ hm) rfl rfl

-- One of them goes on. The others keep their turns and their places, and only those who listen already may be told.
theorem change (h : w.Sound) (hw : w'.waits = w.waits.setIfInBounds t y) (hp : w'.prediction = w.prediction)
    (hf : w'.future = w.future ∨ w.prediction.result? = none ∧ ∃ listeners, w'.future = some (.unset listeners) ∧
      ∀ l, w.future = some (.unset l) → ∀ u ∈ l, u ≠ t → u ∈ listeners)
    (hr : ∀ n ∈ w.ready, n.whose ≠ t → n ∈ w'.ready) (hn : ∀ u, .relay u ∈ w'.ready → .relay u ∈ w.ready)
    (ht : w'.Served t y) : w'.Sound := by
  have served : ∀ u x, w'.waits[u]? = some x → w'.Served u x := by
    intro u x hx
    rw [hw, Array.getElem?_setIfInBounds] at hx
    split at hx
    case isTrue hu =>
      subst hu
      split at hx
      case isTrue  => cases hx; exact ht
      case isFalse => cases hx
    case isFalse hu =>
      refine (h.served u x hx).frame (fun n hn hm => hr n hm ?_) ?_ (by rw [hp]; exact fun _ => id)
      case refine_1 => rw [whose_eq hn]; exact Ne.symm hu
      case refine_2 =>
        intro l hl hu' _
        rcases hf with hf | ⟨_, listeners, hf, hs⟩
        case inl => exact .inl ⟨l, hf ▸ hl, hu'⟩
        case inr => exact .inl ⟨listeners, hf, hs l hl u hu' (Ne.symm hu)⟩
  rcases hf with hf | ⟨hn', listeners, hf, _⟩
  case inl =>
    exact {
      unset   := by rw [hf, hp]; exact h.unset
      set     := by rw [hf, hp]; exact h.set
      relayed := fun u hu => hf ▸ h.relayed u (hn u hu)
      served }
  case inr =>
    refine { unset := fun _ _ => hp ▸ hn', set := by simp [hf], relayed := fun u hu => ?_, served }
    obtain ⟨r, hr⟩ := h.relayed u (hn u hu)
    cases hn'.symm.trans (h.set r hr)

theorem stop (h : w.Sound) (t : Nat) : (w.stop t).1.Sound := by
  unfold Watched.stop
  split
  case h_1 hx => exact h.change rfl rfl (.inl rfl) (fun _ hm _ => hm) (fun _ => id) (h.served t _ hx)
  case h_2 hx => exact h.change rfl rfl (.inl rfl) (by simp +contextual) (by simp) ⟨by simp, by simp⟩
  case h_3 hx =>
    exact h.change rfl rfl (.inl rfl) (fun _ hm _ => hm) (fun _ => id) ⟨(h.served t _ hx).1, by simp⟩
  case h_4    => exact h

-- A turn that nobody needs any more.
theorem drop (h : w.Sound) (hr : w.ready = n :: rest)
    (hx : ∀ x, w.waits[n.whose]? = some x → x.turn? n.whose ≠ some n) :
    Sound { w with ready := rest } where
  unset   := h.unset
  set     := h.set
  relayed := fun t ht => h.relayed t (by rw [hr]; exact List.mem_cons_of_mem _ ht)
  served  := by
    intro t x ht
    refine (h.served t x ht).of_ready (fun m hm hw => ?_) rfl rfl
    rw [hr] at hw
    rcases List.mem_cons.mp hw with rfl | hw
    case inl =>
      have := whose_eq hm
      subst this
      exact absurd hm (hx x ht)
    case inr => exact hw

theorem start (h : w.Sound) (hr : w.ready = .start t :: rest) (hx : w.waits[t]? = some x) :
    ({ w with ready := rest }.start t x).Sound := by
  have hu : ∀ u, .relay u ∈ rest → .relay u ∈ w.ready := fun u hu => hr ▸ List.mem_cons_of_mem _ hu
  cases x
  case queued stopped =>
    cases stopped
    case true  => exact h.change rfl rfl (.inl rfl) (mem_rest hr) hu trivial
    case false =>
      simp only [Watched.start]
      split
      case h_1 hp => exact h.change rfl rfl (.inl rfl) (mem_rest hr) hu hp
      case h_2 hf => exact h.change rfl rfl (.inl rfl) (mem_rest hr) hu (h.set _ hf)
      case h_3 l hp hf =>
        refine h.change rfl rfl (.inr ⟨hp, _, rfl, fun l' hl u hu _ => ?_⟩) (mem_rest hr) hu ?_
        case refine_1 => cases hf.symm.trans hl; exact List.mem_append_left _ hu
        case refine_2 => exact .inl ⟨_, rfl, List.mem_append_right _ (List.mem_singleton_self t)⟩
      case h_4 hp hf =>
        refine h.change rfl rfl (.inr ⟨hp, _, rfl, fun l hl => ?_⟩) (mem_rest hr) hu ?_
        case refine_1 => cases hf.symm.trans hl
        case refine_2 => exact .inl ⟨_, rfl, List.mem_singleton_self t⟩
  all_goals exact h.drop hr (by simp [Turn.whose, hx, Wait.turn?])

theorem relay (h : w.Sound) (hr : w.ready = .relay t :: rest) (hx : w.waits[t]? = some x) :
    ({ w with ready := rest }.relay t x).Sound := by
  obtain ⟨r, hf⟩ := h.relayed t (hr ▸ List.mem_cons_self)
  cases x
  case listening =>
    simp only [Watched.relay, hf]
    refine h.change rfl rfl (.inl hf.symm) (fun m hm hn => ?_) (fun u hu => ?_) ⟨?_, ?_⟩
    case refine_1 => exact List.mem_append_left _ (mem_rest hr m hm hn)
    case refine_2 => exact hr ▸ List.mem_cons_of_mem _ (by simpa using hu)
    case refine_3 => exact List.mem_append_right _ (List.mem_singleton_self _)
    case refine_4 => simpa using h.set r hf
  all_goals exact h.drop hr (by simp [Turn.whose, hx, Wait.turn?])

theorem resume (h : w.Sound) (hr : w.ready = .resume t :: rest) (hx : w.waits[t]? = some x) :
    ({ w with ready := rest }.resume t x).Sound := by
  have hu : ∀ u, .relay u ∈ rest → .relay u ∈ w.ready := fun u hu => hr ▸ List.mem_cons_of_mem _ hu
  cases x
  case roused result? =>
    cases result?
    case some r => exact h.change rfl rfl (.inl rfl) (mem_rest hr) hu ((h.served t _ hx).2 r rfl)
    case none =>
      simp only [Watched.resume]
      split
      case h_1 l hf =>
        refine h.change rfl rfl (.inr ⟨h.unset l hf, _, rfl, fun l' hl u hu hn => ?_⟩) (mem_rest hr) hu trivial
        cases hf.symm.trans hl
        simpa using ⟨hu, hn⟩
      case h_2 => exact h.change rfl rfl (.inl rfl) (mem_rest hr) hu trivial
  all_goals exact h.drop hr (by simp [Turn.whose, hx, Wait.turn?])

theorem turn (h : w.Sound) (hr : w.ready = n :: rest) : ({ w with ready := rest }.takeTurn n).Sound := by
  cases hx : w.waits[n.whose]?
  case none   =>
    have ht := takeTurn_of_none (w := { w with ready := rest }) hx
    rw [ht]
    exact h.drop hr (by simp [hx])
  case some x =>
    have ht := takeTurn_of_some (w := { w with ready := rest }) hx
    rw [ht]
    cases n
    case start  => exact h.start hr hx
    case relay  => exact h.relay hr hx
    case resume => exact h.resume hr hx

theorem perform (h : w.Sound) (a : Act) : (w.perform a).Sound := by
  have he := effect_perform w a
  generalize w.perform a = w' at he ⊢
  cases he
  case idle hp hf hw hr  => exact h.idle hp hf hw hr
  case resolve p hw hp _ => exact h.resolve hw hp
  case wait name => exact h.wait name
  case stop t _ => exact h.stop t
  case turn n rest hr => exact h.turn hr

theorem performAll (h : w.Sound) (acts : List Act) : (w.performAll acts).Sound := by
  induction acts generalizing w
  case nil            => exact h
  case cons a acts ih => exact ih (h.perform a)

end Sound

-- Is somebody on his way out, or gone, without a result?
def leaves (w : Watched) (t : Nat) : Bool :=
  w.waits[t]?.any Wait.leaves

-- Has somebody been stopped by one of the acts? To stop somebody who is through already has no effect.
def stops (t : Nat) : Watched → List Act → Bool
  | _, []        => false
  | w, a :: acts => (a = .stop t && (w.stop t).2) || stops t (w.perform a) acts

-- What a turn does: the one it is for comes to another point, and leaves from there if he does so from here. Only the
-- telling of the result leads to one more turn.
structure Goes (w : Watched) (n : Turn) (x : Wait) (w' : Watched) : Prop where
  waits : ∃ y : Wait, y.leaves = x.leaves ∧ w'.waits = w.waits.setIfInBounds n.whose y
  ready : w'.ready = w.ready ∨ ∃ t, n = .relay t ∧ w'.ready = w.ready ++ [.resume t]

theorem goes (hx : w.waits[n.whose]? = some x) : Goes w n x (w.takeTurn n) := by
  rw [takeTurn_of_some hx]
  have stay : Goes w n x w := by
    obtain ⟨ht, he⟩ := Array.getElem?_eq_some_iff.mp hx
    exact
      { waits := ⟨x, rfl, by rw [Array.setIfInBounds, dif_pos ht, ← he, Array.set_getElem_self]⟩, ready := .inl rfl }
  cases n
  case start t =>
    simp only [Turn.go, start]
    split
    case h_1 => exact { waits := ⟨.cancelled, rfl, rfl⟩, ready := .inl rfl }
    case h_2 =>
      split
      case h_1 => exact { waits := ⟨.obtained _, rfl, rfl⟩, ready := .inl rfl }
      case h_2 => exact { waits := ⟨.obtained _, rfl, rfl⟩, ready := .inl rfl }
      case h_3 => exact { waits := ⟨.listening, rfl, rfl⟩, ready := .inl rfl }
      case h_4 => exact { waits := ⟨.listening, rfl, rfl⟩, ready := .inl rfl }
    case h_3 => exact stay
  case relay t =>
    simp only [Turn.go, relay]
    split
    case h_1 => exact { waits := ⟨.roused _, rfl, rfl⟩, ready := .inr ⟨t, rfl, rfl⟩ }
    case h_2 => exact stay
  case resume t =>
    simp only [Turn.go, resume]
    split
    case h_1 => exact { waits := ⟨.obtained _, rfl, rfl⟩, ready := .inl rfl }
    case h_2 => split <;> exact { waits := ⟨.cancelled, rfl, rfl⟩, ready := .inl rfl }
    case h_3 => exact stay

theorem leaves_takeTurn (w : Watched) (n : Turn) (u : Nat) : (w.takeTurn n).leaves u = w.leaves u := by
  cases hx : w.waits[n.whose]?
  case none   => rw [takeTurn_of_none hx]
  case some x =>
    obtain ⟨y, hy, hw⟩ := (goes hx).waits
    obtain ⟨ht, he⟩ := Array.getElem?_eq_some_iff.mp hx
    simp only [leaves, hw, Array.getElem?_setIfInBounds]
    split
    case isTrue hu => subst hu; simp [hy, ht, he]
    case isFalse   => rfl

theorem leaves_stop (h : (w.stop t).2 = true) (u : Nat) : (w.stop t).1.leaves u = (w.leaves u || u = t) := by
  -- whoever can be stopped is put at a point from which he leaves
  have set {x y : Wait} (hx : w.waits[t]? = some x) (hy : y.leaves = true) :
      (w.setWait t y).leaves u = (w.leaves u || u = t) := by
    obtain ⟨ht, _⟩ := Array.getElem?_eq_some_iff.mp hx
    by_cases hu : u = t
    case pos => subst hu; simp [leaves, ht, hy]
    case neg => simp [leaves, hu, Ne.symm hu]
  unfold stop at h ⊢
  split at h
  case h_1 hx => exact set hx rfl
  case h_2 hx => exact set hx rfl
  case h_3 hx => exact set hx rfl
  case h_4    => cases h

theorem leaves_perform (w : Watched) (a : Act) (t : Nat) :
    (w.perform a).leaves t = (w.leaves t || (a = .stop t && (w.stop t).2)) := by
  have he := effect_perform w a
  generalize w.perform a = w' at he ⊢
  cases he
  case idle ha _ _ hw _ =>
    by_cases h : a = .stop t
    case pos => simp [leaves, hw, ha t h]
    case neg => simp [leaves, hw, h]
  case resolve p _ _ ha => simp [leaves, ha t]
  case wait name =>
    simp only [leaves, Watched.wait, Array.getElem?_push, reduceCtorEq, decide_false, Bool.false_and, Bool.or_false]
    split
    case isTrue h  => simp [h, Wait.leaves]
    case isFalse   => rfl
  case stop u h =>
    rw [leaves_stop h]
    by_cases hu : t = u
    case pos => subst hu; simp [h]
    case neg => simp [hu, Ne.symm hu]
  case turn n rest hr =>
    rw [leaves_takeTurn]
    simp [leaves]

theorem leaves_performAll (w : Watched) (acts : List Act) (t : Nat) :
    (w.performAll acts).leaves t = (w.leaves t || stops t w acts) := by
  induction acts generalizing w
  case nil            => simp [stops, performAll]
  case cons a acts ih => rw [performAll, List.foldl_cons, ← performAll, ih, leaves_perform, stops, Bool.or_assoc]

theorem size_waits_takeTurn (w : Watched) (n : Turn) : (w.takeTurn n).waits.size = w.waits.size := by
  cases hx : w.waits[n.whose]?
  case none   => rw [takeTurn_of_none hx]
  case some x =>
    obtain ⟨y, _, hw⟩ := (goes hx).waits
    rw [hw, Array.size_setIfInBounds]

theorem size_waits_stop (w : Watched) (t : Nat) : (w.stop t).1.waits.size = w.waits.size := by
  unfold stop
  split <;> simp

-- Somebody comes to wait, and nobody else is concerned.
theorem seen?_wait (w : Watched) (name : Text) (t : Nat) :
    (w.wait name).seen? t = if t = w.waits.size then some .pending else w.seen? t := by
  simp only [seen?, Watched.wait, Array.getElem?_push]
  split <;> rfl

-- Nobody goes, not even when he has been stopped, and nobody comes in any other way.
theorem size_waits_perform (w : Watched) (a : Act) :
    (w.perform a).waits.size = w.waits.size + if a.isWait then 1 else 0 := by
  cases ha : a.isWait
  case true =>
    cases a <;> simp only [Act.isWait, Bool.false_eq_true] at ha
    exact Array.size_push ..
  case false =>
    have he := effect_perform w a
    generalize w.perform a = w' at he ⊢
    cases he
    case idle hw _    => rw [hw]; rfl
    case resolve      => rw [waits_resolve]; rfl
    case wait         => cases ha
    case stop t _     => exact size_waits_stop w t
    case turn n _ _   => exact size_waits_takeTurn _ n

theorem size_waits_performAll (w : Watched) (acts : List Act) :
    (w.performAll acts).waits.size = w.waits.size + acts.countP Act.isWait := by
  induction acts generalizing w
  case nil            => rfl
  case cons a acts ih =>
    rw [performAll, List.foldl_cons, ← performAll, ih, size_waits_perform, List.countP_cons]
    omega

theorem work_takeTurn_lt (w : Watched) (n : Turn) : (w.takeTurn n).work < w.work + n.work := by
  have hn : 0 < n.work := by cases n <;> simp [Turn.work]
  cases hx : w.waits[n.whose]?
  case none   => rw [takeTurn_of_none hx]; omega
  case some x =>
    rcases (goes hx).ready with hr | ⟨t, rfl, hr⟩
    case inl => rw [work, hr, ← work]; omega
    case inr =>
      rw [work, hr, List.map_append, total_append, ← work]
      simp [total, Turn.work]

-- As many turns as there is work are enough.
theorem ready_run {m : Nat} (h : w.work ≤ m) : (run m w).ready = [] := by
  induction m generalizing w
  case zero =>
    cases hr : w.ready
    case nil         => exact hr
    case cons n rest => cases n <;> simp [work, hr, total, Turn.work] at h
  case succ m ih =>
    rw [run]
    refine ih ?_
    cases hr : w.ready
    case nil         => simp [step, hr, work, total]
    case cons n rest =>
      have hw : w.work = n.work + ({ w with ready := rest } : Watched).work := by simp [work, hr, total]
      have := work_takeTurn_lt { w with ready := rest } n
      simp only [step, hr]
      omega

theorem ready_settle (w : Watched) : w.settle.ready = [] :=
  ready_run (Nat.le_refl _)

-- Turns tell of the result, and do nothing else.
theorem run_keeps (m : Nat) (w : Watched) : (run m w).prediction = w.prediction ∧
    (run m w).waits.size = w.waits.size ∧ ∀ t, (run m w).leaves t = w.leaves t := by
  induction m generalizing w
  case zero      => exact ⟨rfl, rfl, fun _ => rfl⟩
  case succ m ih =>
    obtain ⟨hp, hs, hl⟩ := ih w.step
    rw [run, hp, hs]
    simp only [hl]
    unfold step
    split
    case h_1            => exact ⟨rfl, rfl, fun _ => rfl⟩
    case h_2 n rest _   =>
      exact ⟨prediction_takeTurn _ n, size_waits_takeTurn _ n, fun t => leaves_takeTurn _ n t⟩

end Watched

-- Somebody who goes on waiting obtains the result if there is one.
def Waiter.told : Option RequestResult → Waiter
  | some r => .obtained r
  | none   => .pending

namespace Watched

variable {w : Watched} {x : Wait} {t : Nat}

-- With no turn left, everybody is where he ends up.
theorem Sound.seen_eq (h : w.Sound) (hr : w.ready = []) (hx : w.waits[t]? = some x) :
    x.seen = if x.leaves then .cancelled else .told w.prediction.result? := by
  have hs := h.served t x hx
  cases x
  case queued    => simp [Served, hr] at hs
  case listening =>
    obtain ⟨listeners, hf, _⟩ : ∃ listeners, w.future = some (.unset listeners) ∧ t ∈ listeners := by
      simpa [Served, hr] using hs
    rw [h.unset listeners hf]
    rfl
  case roused    => simp [Served, hr] at hs
  case cancelled => rfl
  case obtained r =>
    rw [show w.prediction.result? = some r from hs]
    rfl

theorem Sound.seen?_settle (h : w.Sound) (ht : t < w.waits.size) :
    w.settle.seen? t = some (if w.leaves t then .cancelled else .told w.prediction.result?) := by
  obtain ⟨hp, hs, hl⟩ := run_keeps w.work w
  obtain ⟨x, hx⟩ : ∃ x, w.settle.waits[t]? = some x := ⟨_, Array.getElem?_eq_getElem (hs.symm ▸ ht)⟩
  have hsettle : w.settle.Sound := by
    rw [settle, run_eq_performAll]
    exact h.performAll _
  have hleaves : w.leaves t = x.leaves := by
    rw [← hl t]
    exact congrArg (Option.any Wait.leaves) hx
  rw [seen?, hx, Option.map_some, hsettle.seen_eq w.ready_settle hx, hleaves, settle, hp]

-- Whatever is done to a prediction and to those who wait for it, and in whatever order: it has a result exactly when
-- it is not pending any more, which is then its only one, and once all turns have been taken everybody who has not
-- been stopped in time has obtained it.
theorem one_result (p : Prediction) (acts : List Act) :
    let w := performAll { prediction := p } acts
    let q := w.prediction
    (q.status = .pending ↔ q.result? = none) ∧ (q.result? = none ↔ q.completedAt? = none) ∧
    (q.status = .finished → q.result? = some { outcome := .success, text := q.insertText }) ∧
    (q.status = .failed → ∃ r, q.result? = some r ∧ r.ok = false ∧ q.insertText = []) ∧
    (q.result? ≠ none → ∀ more, let q' := (w.performAll more).prediction
      q'.status = q.status ∧ q'.result? = q.result? ∧ q'.insertText = q.insertText ∧
        q'.completedAt? = q.completedAt?) ∧
    (∀ t r, w.seen? t = some (.obtained r) → q.result? = some r) ∧
    (∀ u, (w.stop u).1.prediction = q ∧ ∀ t ≠ u, (w.stop u).1.seen? t = w.seen? t) ∧
    (∃ m, w.settle = w.performAll (List.replicate m .turn)) ∧ w.settle.ready = [] ∧ w.settle.prediction = q ∧
    w.waits.size = acts.countP Act.isWait ∧
    ∀ t < w.waits.size, w.settle.seen? t =
      some (if stops t { prediction := p } acts then .cancelled else .told q.result?) := by
  intro w q
  have hs : w.Sound := (Sound.fresh p).performAll acts
  refine ⟨Prediction.status_eq_pending_iff, Prediction.result?_eq_none_iff, Prediction.result?_of_finished,
    Prediction.result?_of_failed, fun hr more => ?_, fun t r ht => ?_, fun u => ⟨prediction_stop w u, fun t ht => ?_⟩,
    ⟨w.work, run_eq_performAll _ w⟩, ready_settle w, (run_keeps w.work w).1,
    (size_waits_performAll _ acts).trans (Nat.zero_add _), fun t ht => ?_⟩
  case refine_1 =>
    have hp : q.isPending = false := Prediction.isPending_eq_false_iff.mpr (Option.ne_none_iff_exists'.mp hr)
    have hq := stage_performAll hp more
    simp only [Prediction.status, Prediction.result?, Prediction.insertText, Prediction.completedAt?, hq, and_self, w,
      q]
  case refine_2 =>
    obtain ⟨x, hx, hr⟩ := Option.map_eq_some_iff.mp ht
    cases x <;> simp only [Wait.seen, reduceCtorEq, Waiter.obtained.injEq] at hr
    subst hr
    exact hs.served t _ hx
  case refine_3 =>
    unfold stop
    split <;> simp [seen?, Ne.symm ht]
  case refine_4 =>
    rw [hs.seen?_settle ht, leaves_performAll]
    rfl

-- The first to come listens until there is a result, the second stops before that, and the third comes too late for it.
def comeAndGo : List Act :=
  [.wait "early".toList, .wait "stopped".toList, .turn, .turn, .stop 1, .finish "42".toList 7,
   .fail (.failure .timeout) "late".toList 9, .wait "late".toList]

theorem one_result_comeAndGo :
    let w := performAll { prediction := { id := 1, before := [], kind := .fillLine } } comeAndGo
    let r : RequestResult := { outcome := .success, text := "42".toList }
    w.waits.size = 3 ∧ w.settle.seen? 0 = some (.obtained r) ∧ w.settle.seen? 1 = some .cancelled ∧
      w.settle.seen? 2 = some (.obtained r) := by
  obtain ⟨_, _, _, _, _, _, _, _, _, _, hsize, hseen⟩ :=
    one_result { id := 1, before := [], kind := .fillLine } comeAndGo
  have hsize := hsize.trans (show comeAndGo.countP Act.isWait = 3 from rfl)
  refine ⟨hsize, (hseen 0 ?_).trans (by decide), (hseen 1 ?_).trans (by decide), (hseen 2 ?_).trans (by decide)⟩ <;>
    rw [hsize] <;> decide

end Watched
end GhostText
