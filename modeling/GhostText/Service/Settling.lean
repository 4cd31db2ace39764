import GhostText.Service.Shifts

namespace GhostText.Service

variable {s s' : Service} {l a b : Nat}

theorem pauseWork_le_pauseWork (h : l ≤ a) (rest? : Option Delivery) :
    Reading.pauseWork l rest? ≤ Reading.pauseWork a rest? := by
  cases rest?
  case none      => exact Nat.add_le_add_right (Nat.mul_le_mul_left _ h) 2
  case some rest => exact Nat.le_refl _

-- Fewer things weigh less, and so do answers of fewer chunks.
theorem workAt_le_workAt {n : Nat} (h : l ≤ a) (s : Service) : s.workAt n l ≤ s.workAt n a := by
  have hr : ∀ x : Reading, x.work l ≤ x.work a := by
    intro x
    have hp := pauseWork_le_pauseWork h
    cases x
    case queued              => have := hp none; simp only [Reading.work]; omega
    case waiting woken rest? => have := hp rest?; cases woken <;> simp only [Reading.work] <;> omega
    case ended               => exact Nat.le_refl _
  have hs : ∀ x : Stage, x.work n l ≤ x.work n a := by
    intro x
    have := hr .queued
    cases x <;> simp only [Stage.work, Stage.work.sending] <;> omega
  have hc := total_map_le (fun c : Call => hs c.stage) s.calls.toList
  have hd : ∀ d : Dispatch, d.work n l ≤ d.work n a := fun d => Nat.add_le_add_left (hr d.reading) _
  have hd := total_map_le hd s.dispatches.toList
  simp only [workAt]
  omega

theorem Shifts.work_le (h : Shifts s.longest s s' a b) : s'.work + a ≤ s.work + b := by
  have := h.work
  have hs : s'.work ≤ s'.workAt s.calls.size s.longest := by
    unfold Service.work
    rw [h.size]
    exact workAt_le_workAt h.longest s'
  unfold Service.work at hs ⊢
  omega

theorem work_takeTurn_lt {t : Turn} {rest : List Turn} (h : s.ready = t :: rest) :
    ({ s with ready := rest }.takeTurn t).work < s.work := by
  have ht := (Shifts.takeTurn (s := { s with ready := rest }) (Nat.le_refl _) t).work_le
  have hw : s.work = ({ s with ready := rest } : Service).work + t.work s.calls.size := by
    simp only [work, workAt, h, List.map_cons, total, longest]; omega
  dsimp only at ht
  omega

-- An alarm that is due turns into a ring, which weighs less, in whatever order they ring.
theorem work_rings (s : Service) (n time : Nat) :
    total ((s.rings time).map (Turn.work n)) + alarmWork * (s.alarms.filter (time < ·.due)).length +
      (s.alarms.filter (·.due ≤ time)).length = alarmWork * s.alarms.length := by
  have hr : total ((s.rings time).map (Turn.work n)) = 2 * (s.alarms.filter (·.due ≤ time)).length := by
    rw [rings, List.map_map, total_map_const (n := 2) (Turn.work n ∘ fun x : Alarm => .ring x.bell) fun _ => rfl,
      (s.settings.chime.perm time _).length_eq]
  have hlen := List.length_eq_countP_add_countP (l := s.alarms) (·.due ≤ time)
  simp only [List.countP_eq_length_filter, decide_eq_true_eq, Nat.not_le] at hlen
  simp only [hr, alarmWork]
  omega

theorem work_advanceTo_lt {time : Nat} (h : s.nextAlarm? = some time) : (s.advanceTo time).work < s.work := by
  obtain ⟨x, hx, rfl⟩ := List.mem_map.1 (List.min?_mem h)
  have hr := work_rings s s.calls.size x.due
  have hpos : 0 < (s.alarms.filter (·.due ≤ x.due)).length :=
    List.length_pos_of_mem (List.mem_filter.2 ⟨hx, by simp⟩)
  simp only [work, workAt, advanceTo, longest, List.map_append, total_append]
  omega

-- Every step lowers the work.
theorem work_lt_of_step? {limit : Option Nat} (h : s.step? limit = some s') : s'.work < s.work := by
  unfold step? at h
  split at h
  case h_1 hr =>
    obtain rfl := Option.some.inj h
    exact work_takeTurn_lt hr
  case h_2 =>
    split at h
    case h_1         => simp at h
    case h_2 time ht =>
      split at h
      case isTrue  =>
        obtain rfl := Option.some.inj h
        exact work_advanceTo_lt ht
      case isFalse => simp at h

-- As many steps as there is work are enough.
theorem step?_run_eq_none (limit : Option Nat) {fuel : Nat} (h : s.work ≤ fuel) :
    (run fuel limit s).step? limit = none := by
  induction fuel generalizing s
  case zero         =>
    cases hs : s.step? limit
    case none    => simpa [run] using hs
    case some s' => have := work_lt_of_step? hs; omega
  case succ fuel ih =>
    unfold run
    cases hs : s.step? limit
    case none    => simpa using hs
    case some s' => have := work_lt_of_step? hs; exact ih (by omega)

theorem nextAlarm?_eq_none_iff : s.nextAlarm? = none ↔ s.alarms = [] := by
  simp [nextAlarm?, List.min?_eq_none_iff]

theorem step?_eq_none_iff {limit : Option Nat} :
    s.step? limit = none ↔
      s.ready = [] ∧ (limit = none → s.alarms = []) ∧ ∀ time ∈ limit, ∀ x ∈ s.alarms, time < x.due := by
  unfold step?
  cases hr : s.ready
  case cons t rest => simp
  case nil         =>
    cases hn : s.nextAlarm?
    case none      => simp [nextAlarm?_eq_none_iff.1 hn]
    case some next =>
      have hne : s.alarms ≠ [] := fun h => by simp [nextAlarm?_eq_none_iff.2 h] at hn
      have hmin := List.min?_eq_some_iff.1 hn
      cases limit
      case none      => simp [hne]
      case some time =>
        have hall : (∀ x ∈ s.alarms, time < x.due) ↔ time < next := by
          constructor
          case mp  =>
            intro h
            obtain ⟨x, hx, rfl⟩ := List.mem_map.1 hmin.1
            exact h x hx
          case mpr =>
            intro h x hx
            exact Nat.lt_of_lt_of_le h (hmin.2 _ (List.mem_map_of_mem hx))
        simp [hall]

-- The clock never goes beyond the limit.
theorem now_le_of_step? {time : Nat} (hs : s.now ≤ time) (h : s.step? (some time) = some s') : s'.now ≤ time := by
  unfold step? at h
  split at h
  case h_1 t rest hr =>
    obtain rfl := Option.some.inj h
    have := (Shifts.takeTurn (s := { s with ready := rest }) (Nat.le_refl _) t).now
    dsimp only at this
    omega
  case h_2           =>
    split at h
    case h_1         => simp at h
    case h_2 next ht =>
      split at h
      case isTrue hle =>
        obtain rfl := Option.some.inj h
        simp only [Option.all_some, decide_eq_true_eq] at hle
        simp only [advanceTo]
        omega
      case isFalse    => simp at h

theorem now_run_le (fuel : Nat) {time : Nat} (hs : s.now ≤ time) : (run fuel (some time) s).now ≤ time := by
  induction fuel generalizing s
  case zero         => exact hs
  case succ fuel ih =>
    unfold run
    split
    case h_1   => exact hs
    case h_2 h => exact ih (now_le_of_step? hs h)

-- No turn waits, and every alarm is still to come.
def Settled (s : Service) : Prop :=
  s.ready = [] ∧ ∀ x ∈ s.alarms, s.now < x.due

theorem now_settle (s : Service) (ms : Nat) : (s.settle ms).now = s.now + ms := by
  have := now_run_le s.work (Nat.le_add_right s.now ms)
  simp only [settle, advanceTo]
  omega

theorem rings_eq_nil {time : Nat} (h : ∀ x ∈ s.alarms, time < x.due) : s.rings time = [] := by
  have hnil : s.alarms.filter (·.due ≤ time) = [] :=
    List.filter_eq_nil_iff.2 fun x hx => by have := h x hx; simp; omega
  have := s.settings.chime.perm time []
  simp [rings, hnil, this.eq_nil]

theorem settled_settle (s : Service) (ms : Nat) : (s.settle ms).Settled := by
  have h := step?_eq_none_iff.1 (step?_run_eq_none (s := s) (some (s.now + ms)) (Nat.le_refl _))
  have hd := h.2.2 _ rfl
  constructor
  case left  => simp [settle, advanceTo, h.1, rings_eq_nil hd]
  case right =>
    intro x hx
    rw [now_settle]
    exact hd x (List.mem_filter.1 hx).1

theorem settled_exhaust (s : Service) : s.exhaust.ready = [] ∧ s.exhaust.alarms = [] := by
  have h := step?_eq_none_iff.1 (step?_run_eq_none (s := s) none (Nat.le_refl _))
  exact ⟨h.1, h.2.1 rfl⟩

end GhostText.Service
