import GhostText.Proofs.Service.Closing
import GhostText.Proofs.Service.Failures
import GhostText.Proofs.Service.Tallies

namespace GhostText.Service

variable {s s' : Service} {q rest : List Turn} {t : Turn} {r : Nat} {d : Dispatch} {e : Deed}

-- The clock does not go on while a turn is due.
def Timely (s : Service) : Event → Prop
  | .advance _ => s.ready = []
  | _          => True

theorem Timely.settle (s : Service) (ms : Nat) : Run Timely s (s.settle ms) :=
  .settle (fun _ => trivial) (fun _ _ h => h) s ms

-- A request that has not had its first turn was made just now. While it waits for its answer its deadline is to come.
structure Timed (s : Service) (r : Nat) (d : Dispatch) : Prop where
  made    : d.prediction.createdAt ≤ s.now
  queued  : d.watch = .queued → d.prediction.createdAt = s.now
  watched : d.watch = .watching false → .ring (.deadline r) ∈ s.ready ∨ ∃ due : Nat, ⟨due, .deadline r⟩ ∈ s.alarms ∧
    (due : Int) = d.prediction.createdAt + s.settings.timeout.toNat

theorem Reads.createdAt {budget : Int} {p p' : Prediction} {delivery : Delivery} {x : Reading}
    {set? : Option (Nat × Bell)} (h : Reads budget r p delivery p' x q set?) : p'.createdAt = p.createdAt := by
  cases h
  case nothing   => rfl
  case enough h  => exact (Prediction.kind_of_read h).2.2
  case chunk h _ => exact (Prediction.kind_of_read h).2.2

theorem Does.createdAt (h : Does s r t d e) : e.dispatch.prediction.createdAt = d.prediction.createdAt := by
  cases h
  case read hr _ => exact hr.createdAt
  all_goals rfl

theorem Does.queued (h : Does s r t d e) (hw : e.dispatch.watch = .queued) : d.watch = .queued := by
  cases h <;> simp_all

-- A request that waits for its answer after a turn has just begun to, or the turn leaves its deadline alone.
theorem Does.watching (h : Does s r t d e) (hw : e.dispatch.watch = .watching false) :
    d.watch = .queued ∧ e.set? = some (s.settings.timeout.toNat, .deadline r) ∧ e.dropped? = none ∨
      d.watch = .watching false ∧ t ≠ .ring (.deadline r) ∧ e.dropped? ≠ some (.deadline r) := by
  cases h
  case idle hn =>
    refine .inr ⟨hw, ?_, by simp⟩
    rintro rfl
    exact hn hw
  case watch hq _ => exact .inl ⟨hq, rfl, rfl⟩
  case read hh    => exact .inr ⟨hw, by cases hh <;> simp, by simp⟩
  all_goals simp_all

-- No turn drops the alarm of another request.
theorem Does.dropped (h : Does s r t d e) {b : Bell} (hb : e.dropped? = some b) :
    b = .deadline r ∨ b = .answer r := by
  cases h <;> simp_all

theorem Dispatch.stop_createdAt (k : Nat) (d : Dispatch) :
    (d.stop k).1.prediction.createdAt = d.prediction.createdAt ∧ ((d.stop k).1.watch = .queued → d.watch = .queued) ∧
      ((d.stop k).1.watch = .watching false → d.watch = .watching false) := by
  rcases d.stop_cases k with ⟨he, _⟩ | ⟨he, _⟩ | ⟨he, _⟩ | ⟨he, _⟩ <;> simp [he]

namespace Timed

theorem of_eq {d' : Dispatch} (h : Timed s r d) (hs : s'.settings = s.settings) (hn : s'.now = s.now)
    (hp : d'.prediction.createdAt = d.prediction.createdAt) (hq : d'.watch = .queued → d.watch = .queued)
    (hw : d'.watch = .watching false → d.watch = .watching false)
    (hr : .ring (.deadline r) ∈ s.ready → d'.watch = .watching false → .ring (.deadline r) ∈ s'.ready)
    (ha : ∀ due : Nat, ⟨due, .deadline r⟩ ∈ s.alarms → d'.watch = .watching false → ⟨due, .deadline r⟩ ∈ s'.alarms) :
    Timed s' r d' where
  made    := by rw [hp, hn]; exact h.made
  queued  := fun hw' => by rw [hp, hn]; exact h.queued (hq hw')
  watched := fun hw' => by
    rw [hp, hs]
    rcases h.watched (hw hw') with hm | ⟨due, hm, he⟩
    case inl => exact .inl (hr hm hw')
    case inr => exact .inr ⟨due, ha due hm hw', he⟩

theorem apart (h : Timed s r d) (ha : Apart s s') (hd : s.dispatches[r]? = some d) : Timed s' r d :=
  h.of_eq ha.settings ha.now rfl id id (fun hm _ => ha.turns _ hm r d rfl hd) fun _ hm _ => ha.alarms _ hm (by simp)

-- The turn that is taken is one of the request.
theorem does {u : Service} (h : Timed s r d) (hr : s.ready = t :: rest) (he : Does { s with ready := rest } r t d e)
    (hu : u = { ({ s with ready := rest } : Service).perform r e with notices := u.notices }) :
    Timed u r e.dispatch := by
  have hs : u.settings = s.settings := by rw [hu]; rfl
  have hn : u.now = s.now := by rw [hu]; rfl
  have halarms : u.alarms = e.dropped?.elim s.alarms (fun b => s.alarms.filter (·.bell ≠ b)) ++
      (e.set?.map fun x => ⟨s.now + x.1, x.2⟩).toList := by rw [hu]; rfl
  constructor
  case made    => rw [he.createdAt, hn]; exact h.made
  case queued  => exact fun hw => by rw [he.createdAt, hn]; exact h.queued (he.queued hw)
  case watched =>
    intro hw
    rw [he.createdAt, hs, halarms]
    rcases he.watching hw with ⟨hq, hset, hdrop⟩ | ⟨hw', ht, hdrop⟩
    case inl =>
      refine .inr ⟨s.now + s.settings.timeout.toNat, by simp [hset], ?_⟩
      rw [h.queued hq, Int.natCast_add]
    case inr =>
      rcases h.watched hw' with hm | ⟨due, hm, hdue⟩
      case inl =>
        rw [hr] at hm
        rw [hu]
        exact .inl (List.mem_append_left _ ((List.mem_cons.mp hm).resolve_left ht.symm))
      case inr =>
        refine .inr ⟨due, List.mem_append_left _ ?_, hdue⟩
        cases hb : e.dropped?
        case none   => exact hm
        case some b => exact List.mem_filter.mpr ⟨hm, by simpa using fun h => hdrop (hb.trans (congrArg some h.symm))⟩

-- The turn that is taken is one of another request.
theorem does_other {u : Service} {j : Nat} {x : Dispatch} (h : Timed s j x) (hj : r ≠ j) (hr : s.ready = t :: rest)
    (ht : t.request? = some r) (he : Does { s with ready := rest } r t d e)
    (hu : u = { ({ s with ready := rest } : Service).perform r e with notices := u.notices }) : Timed u j x := by
  refine h.of_eq (by rw [hu]; rfl) (by rw [hu]; rfl) rfl id id (fun hm _ => ?_) fun due hm _ => ?_ <;> rw [hu]
  case refine_1 =>
    rw [hr] at hm
    refine List.mem_append_left _ ((List.mem_cons.mp hm).resolve_left ?_)
    rintro rfl
    exact hj (Option.some.inj ht).symm
  case refine_2 =>
    refine List.mem_append_left _ ?_
    cases hb : e.dropped?
    case none   => exact hm
    case some b =>
      refine List.mem_filter.mpr ⟨hm, ?_⟩
      rcases he.dropped hb with rfl | rfl
      case inl => simpa using Ne.symm hj
      case inr => simp

-- When no turn is due, every request has had its first turn. The alarms that are due become rings.
theorem advance (h : Timed s r d) (hr : s.ready = []) (ht : Tended s.ready r d) (time : Nat) :
    Timed (s.advanceTo time) r d where
  made    := by
    have := h.made
    simp only [advanceTo]
    omega
  queued  := fun hw => by simpa [hr] using ht.needed (.startRequest r) rfl hw
  watched := fun hw => by
    rcases h.watched hw with hm | ⟨due, hm, hdue⟩
    case inl => simp [hr] at hm
    case inr =>
      by_cases hle : due ≤ time
      case neg => exact .inr ⟨due, List.mem_filter.mpr ⟨hm, by simpa using hle⟩, hdue⟩
      case pos => exact .inl (List.mem_append_right _ (mem_rings_iff.mpr ⟨_, ⟨hm, hle⟩, rfl⟩))

end Timed

def Punctual (s : Service) : Prop :=
  ∀ (r : Nat) (d : Dispatch), s.dispatches[r]? = some d → Timed s r d

namespace Punctual

theorem stop (h : s.Punctual) (k : Nat) : (s.cancelRequest k).Punctual := by
  intro r d hd
  have hready : s.ready <+: (s.cancelRequest k).ready := by rw [cancelRequest_eq]; exact List.prefix_append _ _
  have hs : (s.cancelRequest k).now = s.now ∧ (s.cancelRequest k).alarms = s.alarms := by
    rw [cancelRequest_eq]
    exact ⟨rfl, rfl⟩
  have hsame {x : Dispatch} (hx : Timed s r x) {d : Dispatch}
      (hd : d.prediction.createdAt = x.prediction.createdAt ∧ (d.watch = .queued → x.watch = .queued) ∧
        (d.watch = .watching false → x.watch = .watching false)) : Timed (s.cancelRequest k) r d :=
    hx.of_eq (by simp) hs.1 hd.1 hd.2.1 hd.2.2 (fun hm _ => hready.mem hm) fun _ hm _ => hs.2 ▸ hm
  rw [getElem?_cancelRequest] at hd
  split at hd
  case isFalse => exact hsame (h r d hd) ⟨rfl, id, id⟩
  case isTrue  =>
    obtain ⟨x, hx, rfl⟩ := Option.map_eq_some_iff.mp hd
    exact hsame (h r x hx) (x.stop_createdAt k)

theorem touch (h : s.Punctual) (ht : Touch s s') : s'.Punctual := by
  cases ht
  case stop k   => exact h.stop k
  case apart ha =>
    intro r d hd
    rw [ha.dispatches] at hd
    exact (h r d hd).apart ha hd
  case enlist c i d₀ hd₀ =>
    intro r d hd
    have hdisp : (s.enlist d₀).dispatches = s.dispatches.push d₀ := rfl
    rw [hdisp, Array.getElem?_push] at hd
    split at hd
    case isTrue  =>
      obtain rfl := Option.some.inj hd
      exact ⟨Int.le_of_eq hd₀.createdAt, fun _ => hd₀.createdAt, fun hw => by simp [hd₀.watch] at hw⟩
    case isFalse =>
      exact (h r d hd).of_eq rfl rfl rfl id id (fun hm _ => List.mem_append_left _ hm) fun _ hm _ => hm
  case deed t rest r d e hr hreq hd htd he notices =>
    intro j x hx
    have hlt := (Array.getElem?_eq_some_iff.mp hd).1
    by_cases hj : r = j
    case pos =>
      subst hj
      obtain rfl : e.dispatch = x := by simpa [perform, hlt] using hx
      exact (h r d hd).does hr he rfl
    case neg =>
      have hx' : s.dispatches[j]? = some x := by simpa [perform, Array.getElem?_setIfInBounds, hj] using hx
      exact (h j x hx').does_other hj hr hreq he rfl

theorem after (h : s.Punctual) (hs : s.Attended) (hf : s.Fitted) {e : Event} (he : Timely s e) :
    (s.after e).Punctual := by
  rcases Touches.after_cases hs hf e with ht | ⟨time, rfl⟩ | ⟨b, rfl⟩
  case inl     => exact ht.keeps (fun _ _ h => h.touch) h
  case inr.inl => exact fun r d hd => (h r d hd).advance he (hs.tended r d hd) time
  case inr.inr => exact fun r d hd => ⟨(h r d hd).made, (h r d hd).queued, (h r d hd).watched⟩

theorem reaches {settings : Setup} {backend : Backend} {features : Option LanguageFeatures}
    (h : Run Timely (Service.start settings backend features) s) : s.Punctual := by
  induction h
  case refl         => simp [Punctual, Service.start, note]
  case step h he ih => exact ih.after (.reaches h.reaches) (.reaches h.reaches) he

end Punctual

-- The clock goes on only when no turn is due. Then every request in a settled state whose prediction is pending was
-- made less than the timeout ago, wherever its prediction is kept, and a call still awaits no other.
theorem createdAt_of_pending {settings : Setup} {backend : Backend} {features : Option LanguageFeatures}
    (h : Run Timely (start settings backend features) s) (hset : s.Settled) :
    (∀ d ∈ s.dispatches, d.prediction.isPending = true → s.now - d.prediction.createdAt < settings.timeout) ∧
      ∀ c r, s.Awaiting c r →
        ∃ p, s.prediction? r = some p ∧ p.isPending = true ∧ s.now - p.createdAt < settings.timeout := by
  have hpend {d : Dispatch} (hd : d ∈ s.dispatches) (hp : d.prediction.isPending = true) :
      s.now - d.prediction.createdAt < settings.timeout := by
    obtain ⟨r, hr⟩ := Array.mem_iff_getElem?.mp hd
    have ht := hset.1 ▸ (Attended.reaches h.reaches).tended r d hr
    have hw : d.watch = .watching false := ht.ended_or_watching.resolve_left fun hw => by
      simp [(Tallied.reaches h.reaches).isPending_of_ended hset.1 hd hw] at hp
    have htimed := Punctual.reaches h r d hr
    have hmade := htimed.made
    rw [← Sound.settings_of_reaches h.reaches]
    rcases htimed.watched hw with hm | ⟨due, hm, hdue⟩
    case inl => simp [hset.1] at hm
    case inr =>
      have hdue' : s.now < due := hset.2 _ hm
      omega
  refine ⟨fun d hd hp => hpend hd hp, ?_⟩
  rintro c r ⟨i, cursor, own, hc⟩
  have hacc := Accounted.reaches h.reaches
  obtain ⟨d, hd, _⟩ := hacc.awaited c i r cursor own hc
  have hp : d.prediction.isPending = true := by
    rw [← Bool.not_eq_false]
    intro hp
    have := hacc.told c r d (by simp) ⟨i, cursor, own, hc⟩ hd hp
    simp [hset.1] at this
  exact ⟨d.prediction, by simp [prediction?, hd], hp, hpend (Array.mem_of_getElem? hd) hp⟩

-- A call awaits an answer that would take longer than it may.
def askedInVain : Service :=
  let s := (start { debounce := 0, timeout := 30, useHints := false } lateBackend none).after
    (.openBuffer ['a'] "x = ".toList)
  (s.after (.provide ['a'] ⟨0, 4⟩)).settle 20

theorem createdAt_of_pending_askedInVain :
    Run Timely (start { debounce := 0, timeout := 30, useHints := false } lateBackend none) askedInVain ∧
      askedInVain.Settled ∧ askedInVain.now = 20 ∧
      ∃ d ∈ askedInVain.dispatches, d.prediction.isPending = true ∧
        askedInVain.now - d.prediction.createdAt < 30 := by
  have hrun : Run Timely (start { debounce := 0, timeout := 30, useHints := false } lateBackend none) askedInVain := by
    apply Run.trans ?_ (Timely.settle _ 20)
    exact .step (.step .refl trivial) trivial
  have hset : askedInVain.Settled := settled_settle _ 20
  have hp : ∃ d ∈ askedInVain.dispatches, d.prediction.isPending = true := by decide +kernel
  obtain ⟨d, hd, hp⟩ := hp
  exact ⟨hrun, hset, now_settle _ 20, d, hd, hp, (createdAt_of_pending hrun hset).1 d hd hp⟩

end GhostText.Service
