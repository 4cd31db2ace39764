import GhostText.Proofs.Service.Touches

namespace GhostText.Service

variable {s s' : Service} {q rest : List Turn} {t : Turn} {r : Nat} {d : Dispatch} {e : Deed}

def Stats.counted (n : Stats) : Outcome → Nat
  | .success            => n.success
  | .failure .error     => n.error
  | .failure .timeout   => n.timeout
  | .failure .cancelled => n.cancelled

theorem Stats.counted_tally (n : Stats) (o : Outcome) : n.tally.counted o = n.counted o := by
  rcases o with _ | _ | _ | _ <;> rfl

theorem Stats.counted_count (n : Stats) (o o' : Outcome) :
    (n.count o).counted o' = n.counted o' + if o = o' then 1 else 0 := by
  rcases o with _ | _ | _ | _ <;> rcases o' with _ | _ | _ | _ <;> rfl

theorem Stats.requests_count (n : Stats) (o : Outcome) : (n.count o).requests = n.requests := by
  rcases o with _ | _ | _ | _ <;> rfl

-- The request was cancelled before its first turn, so it has never been sent.
def Dispatch.withdrawn (d : Dispatch) : Bool :=
  match d.reading with
  | .queued => d.watch = .ended && d.cancelled
  | _       => false

-- The result that has been counted for the request.
def Dispatch.counted? (d : Dispatch) : Option Outcome :=
  if d.watch = .ended && !d.withdrawn then d.prediction.outcome? else none

theorem Dispatch.withdrawn_eq_true_iff :
    d.withdrawn = true ↔ d.reading = .queued ∧ d.watch = .ended ∧ d.cancelled = true := by
  unfold withdrawn
  split <;> simp_all

theorem Dispatch.counted?_of_ne_ended (h : d.watch ≠ .ended) : d.counted? = none := by
  simp [counted?, h]

theorem Dispatch.withdrawn_of_ne_ended (h : d.watch ≠ .ended) : d.withdrawn = false := by
  rw [← Bool.not_eq_true, withdrawn_eq_true_iff]
  exact fun hw => h hw.2.1

theorem Dispatch.withdrawn_of_ne_queued (h : d.reading ≠ .queued) : d.withdrawn = false := by
  rw [← Bool.not_eq_true, withdrawn_eq_true_iff]
  exact fun hw => h hw.1

theorem Dispatch.stop_of_ended (h : d.watch = .ended) (k : Nat) : d.stop k = (d, []) := by
  simp [stop, h]

theorem Dispatch.watch_stop_ne_ended (h : d.watch ≠ .ended) (k : Nat) : (d.stop k).1.watch ≠ .ended := by
  rcases d.stop_cases k with ⟨he, _⟩ | ⟨he, _⟩ | ⟨he, _⟩ | ⟨he, _⟩ <;> simp [he, h]

theorem Dispatch.counted?_stop (k : Nat) (d : Dispatch) : (d.stop k).1.counted? = d.counted? := by
  by_cases h : d.watch = .ended
  case pos => rw [stop_of_ended h]
  case neg => rw [counted?_of_ne_ended h, counted?_of_ne_ended (watch_stop_ne_ended h k)]

-- What is true of a request with the turns that are queued. One that ends before its first turn is withdrawn, and
-- learns of its end in a turn that is still to come.
structure Booked (q : List Turn) (r : Nat) (d : Dispatch) : Prop where
  retiring  : d.watch = .ended → d.prediction.isPending = true → d.withdrawn = true ∧ .retire r ∈ q
  withdrawn : d.withdrawn = true → d.prediction.isPending = false →
    d.prediction.outcome? = some (.failure .cancelled)
  handed    : d.watch = .ended → d.reading = .queued → .startReading r ∉ q

namespace Booked

theorem of_ne_ended (h : d.watch ≠ .ended) : Booked q r d where
  retiring  := fun hw => absurd hw h
  withdrawn := fun hw => absurd (Dispatch.withdrawn_of_ne_ended h) (by simp [hw])
  handed    := fun hw => absurd hw h

-- A request whose reading has begun is not withdrawn.
theorem of_ne_queued (h : d.reading ≠ .queued) (hp : d.watch = .ended → d.prediction.isPending = false) :
    Booked q r d where
  retiring  := fun hw hp' => by simp [hp hw] at hp'
  withdrawn := fun hw => absurd (Dispatch.withdrawn_of_ne_queued h) (by simp [hw])
  handed    := fun _ hr => absurd hr h

theorem stop (h : Booked q r d) (k : Nat) : Booked q r (d.stop k).1 := by
  by_cases hw : d.watch = .ended
  case pos => rwa [Dispatch.stop_of_ended hw]
  case neg => exact of_ne_ended (Dispatch.watch_stop_ne_ended hw k)

theorem mono {q' : List Turn} (h : Booked q r d) (hr : .retire r ∈ q → .retire r ∈ q')
    (hs : .startReading r ∈ q' → .startReading r ∈ q) : Booked q' r d where
  retiring  := fun hw hp => (h.retiring hw hp).imp_right hr
  withdrawn := h.withdrawn
  handed    := fun hw hq hm => h.handed hw hq (hs hm)

end Booked

theorem Pauses.ne_queued {rest? : Option Delivery} {x : Reading} {set? : Option (Nat × Bell)}
    (h : Pauses r rest? x q set?) : x ≠ .queued := by
  cases h <;> simp

theorem Reads.stage {budget : Int} {p p' : Prediction} {delivery : Delivery} {x : Reading}
    {set? : Option (Nat × Bell)} (h : Reads budget r p delivery p' x q set?) : p'.stage = p.stage ∧ x ≠ .queued := by
  cases h
  case nothing    => exact ⟨rfl, by simp⟩
  case enough h   => exact ⟨(Prediction.kind_of_read h).2.1, by simp⟩
  case chunk h hw => exact ⟨(Prediction.kind_of_read h).2.1, hw.ne_queued⟩

theorem Resolves.settled {stage : GhostText.Stage} (h : Resolves s r d t stage q) :
    ({ d.prediction with stage } : Prediction).isPending = false ∧ d.watch ≠ .ended := by
  cases h
  case endless hw _ _ => exact ⟨rfl, by simp [hw]⟩
  case read hw _      => exact ⟨rfl, by simp [hw]⟩
  case fault hw _ _   => exact ⟨rfl, by simp [hw]⟩
  case cancelled hw _ => exact ⟨rfl, by simp [hw]⟩
  case late hw _      => exact ⟨rfl, by simp [hw]⟩

-- A request that has had its first turn, and not been cancelled before, is not settled before its reading has begun.
theorem Tended.of_resolves {stage : GhostText.Stage} (ht : Tended (t :: rest) r d) (h : Resolves s r d t stage q) :
    (d.reading = .queued → d.cancelled = false ∧ .startReading r ∉ rest ++ q) := by
  cases h
  case endless hw hc _ => exact fun _ => ⟨hc, by simpa using (ht.unsent hw).2.1⟩
  case read hr         => simp [hr]
  case fault hr _      => simp [hr]
  case cancelled hw _  => exact fun hr => absurd hr (ht.stopping _ hw).1
  case late hw _       => exact fun hr => absurd hr (ht.stopping _ hw).1

theorem Prediction.outcome?_congr {p p' : Prediction} (h : p'.stage = p.stage) : p'.outcome? = p.outcome? := by
  rw [Prediction.outcome?, Prediction.result?, h, ← Prediction.result?, ← Prediction.outcome?]

-- A request has become another by a turn that has counted a result, and then none had been counted before, or not.
structure Books (q : List Turn) (r : Nat) (d d' : Dispatch) (counted? : Option Outcome) : Prop where
  booked  : Booked q r d'
  counted : counted? = none ∧ d'.counted? = d.counted? ∨ d.counted? = none ∧ d'.counted? = counted?

namespace Books

variable {d' : Dispatch}

-- A request that has not ended after the turn either.
theorem of_ne_ended (h : d.watch ≠ .ended) (h' : d'.watch ≠ .ended) : Books q r d d' none where
  booked  := .of_ne_ended h'
  counted := .inl ⟨rfl, by rw [Dispatch.counted?_of_ne_ended h, Dispatch.counted?_of_ne_ended h']⟩

theorem idle (h : Booked (t :: rest) r d) (hn : ¬t.isDue d) (hq : .startReading r ∉ q) :
    Books (rest ++ (q ++ [])) r d d none where
  counted := .inl ⟨rfl, rfl⟩
  booked  := by
    refine ⟨fun hw hp => ?_, h.withdrawn, fun hw hr hm => h.handed hw hr (by simp_all)⟩
    obtain ⟨hwd, hm⟩ := h.retiring hw hp
    refine ⟨hwd, List.mem_append_left _ ((List.mem_cons.mp hm).resolve_left ?_)⟩
    rintro rfl
    exact hn hp

-- A reading that has begun goes on.
theorem read (h : Booked rest r d) (hd : d.watch = .ended → d.reading ≠ .queued) (hx : d'.reading ≠ .queued)
    (hw : d'.watch = d.watch) (hp : d'.prediction.stage = d.prediction.stage) : Books q r d d' none := by
  by_cases he : d.watch = .ended
  case neg => exact of_ne_ended he (hw ▸ he)
  case pos =>
    have hnot := Dispatch.withdrawn_of_ne_queued (hd he)
    constructor
    case booked =>
      refine .of_ne_queued hx fun _ => ?_
      rw [Prediction.isPending, hp, ← Prediction.isPending, ← Bool.not_eq_true]
      intro hp
      simp [(h.retiring he hp).1] at hnot
    case counted =>
      left
      simp only [Dispatch.counted?, hw, hnot, Dispatch.withdrawn_of_ne_queued hx, Prediction.outcome?_congr hp,
        and_self]

theorem unsent (h : Tended (.startRequest r :: rest) r d) (hw : d.watch = .queued) (hc : d.cancelled = true)
    (hq : .startReading r ∉ q) :
    Books (rest ++ (q ++ [.retire r])) r d { d with watch := .ended } none := by
  obtain ⟨hr, hn, _⟩ := h.unsent hw
  have hpend := h.pending (by simp [hw])
  have hwd : ({ d with watch := .ended } : Dispatch).withdrawn = true :=
    Dispatch.withdrawn_eq_true_iff.mpr ⟨hr, rfl, hc⟩
  constructor
  case booked  =>
    exact ⟨fun _ _ => ⟨hwd, by simp⟩, fun _ hp => by simp [hpend] at hp, fun _ _ => by simp_all⟩
  case counted =>
    have hne : d.watch ≠ .ended := by simp [hw]
    exact .inl ⟨rfl, by rw [Dispatch.counted?_of_ne_ended hne]; simp [Dispatch.counted?, hwd]⟩

theorem settle {stage : GhostText.Stage} {q' : List Turn} (h : Tended (t :: rest) r d)
    (hs : Resolves s r d t stage q') (hq : .startReading r ∉ q) :
    Books (rest ++ (q ++ q')) r d { d with prediction := { d.prediction with stage }, watch := .ended }
      ({ d.prediction with stage } : Prediction).outcome? := by
  obtain ⟨hset, hw⟩ := hs.settled
  have hun := h.of_resolves hs
  have hwd : ({ d with prediction := { d.prediction with stage }, watch := .ended } : Dispatch).withdrawn = false := by
    rw [← Bool.not_eq_true, Dispatch.withdrawn_eq_true_iff]
    rintro ⟨hr, _, hc⟩
    simp [(hun hr).1] at hc
  constructor
  case booked =>
    refine ⟨fun _ hp => ?_, fun h => ?_, fun _ hr => ?_⟩
    case refine_1 => simp [hset] at hp
    case refine_2 => simp [hwd] at h
    case refine_3 =>
      have := (hun hr).2
      simp_all
  case counted => exact .inr ⟨Dispatch.counted?_of_ne_ended hw, by simp [Dispatch.counted?, hwd]⟩

theorem retire (h : Booked (.retire r :: rest) r d) (hw : d.watch = .ended) (hp : d.prediction.isPending = true)
    (message : Text) (time : Int) (hq : .startReading r ∉ q) :
    Books (rest ++ (q ++ [])) r d
      { d with prediction := { d.prediction with stage := .failed .cancelled message time } } none := by
  have hwd := (h.retiring hw hp).1
  have hwd' : ({ d with prediction := { d.prediction with stage := .failed .cancelled message time } } :
    Dispatch).withdrawn = true := hwd
  constructor
  case booked =>
    refine ⟨fun _ hp => by simp [Prediction.isPending] at hp, fun _ _ => rfl, fun hw hr hm => ?_⟩
    exact h.handed hw hr (by simp_all)
  case counted => exact .inl ⟨rfl, by simp [Dispatch.counted?, hwd, hwd']⟩

end Books

theorem Does.books (h : Does s r t d e) (hb : Booked (t :: rest) r d) (ht : Tended (t :: rest) r d)
    (hq : .startReading r ∉ q) : Books (rest ++ (q ++ e.turns)) r d e.dispatch e.counted? := by
  -- the reading of a request that has ended has begun before
  have hbegun (hs : t = .startReading r) (hw : d.watch = .ended) : d.reading ≠ .queued := fun hr =>
    hb.handed hw hr (hs ▸ List.mem_cons_self)
  cases h
  case idle hn          => exact .idle hb hn hq
  case unsent hw hc     => exact .unsent ht hw hc hq
  case watch hw _       => exact .of_ne_ended (by simp [hw]) (by simp)
  case settle hp hs     => exact .settle ht hs hq
  case wait hw _        => exact .read hb (hbegun rfl) hw.ne_queued rfl rfl
  case read hr hh       =>
    refine .read hb (fun hw => ?_) hr.stage.2 rfl hr.stage.1
    cases hh
    case atOnce    => exact hbegun rfl hw
    case atLast hd => simp [hd]
    case rest hd   => simp [hd]
  case giveUp hr          => exact .read hb (fun _ => by simp [hr]) (by simp) rfl rfl
  case rouse hw           => exact .of_ne_ended (by simp [hw]) (by simp)
  case rouseStopping hw   => exact .of_ne_ended (by simp [hw]) (by simp)
  case stop hw _          => exact .of_ne_ended (by simp [hw]) (by simp)
  case stopWaiting hw _   => exact .of_ne_ended (by simp [hw]) (by simp)
  case retire message hp  => exact .retire hb (ht.retired List.mem_cons_self) hp message _ hq
  case wake hr            => exact .read hb (fun _ => by simp [hr]) (by simp) rfl rfl

theorem countP_setIfInBounds {l : Array Dispatch} (h : l[r]? = some d) (d' : Dispatch) (p : Dispatch → Bool) :
    (l.setIfInBounds r d').countP p + (if p d then 1 else 0) = l.countP p + (if p d' then 1 else 0) := by
  obtain ⟨hlt, hd⟩ := Array.getElem?_eq_some_iff.mp h
  have hpos : p d = true → 0 < l.countP p := fun hp =>
    Array.countP_pos_iff.mpr ⟨d, Array.mem_of_getElem? h, hp⟩
  rw [Array.setIfInBounds, dif_pos hlt, Array.countP_set hlt, hd]
  cases hp : p d
  case false => simp
  case true  =>
    have := hpos hp
    simp only [if_true]
    omega

structure Tallied (s : Service) : Prop where
  booked   : ∀ (r : Nat) (d : Dispatch), s.dispatches[r]? = some d → Booked s.ready r d
  requests : s.stats.requests = s.dispatches.size
  counted  : ∀ o, s.stats.counted o = s.dispatches.countP (·.counted? = some o)

namespace Tallied

theorem start {settings : Setup} {backend : Backend} {features : Option LanguageFeatures} :
    (start settings backend features).Tallied := by
  constructor
  case booked   => simp [Service.start, note]
  case requests => rfl
  case counted  => intro o; rcases o with _ | _ | _ | _ <;> rfl

theorem apart (h : s.Tallied) (ha : Apart s s') : s'.Tallied where
  booked   := fun r d hd => by
    rw [ha.dispatches] at hd
    refine (h.booked r d hd).mono (fun hm => ha.turns _ hm r d rfl hd) fun hm => ?_
    exact ha.queued _ hm (by simp [Turn.request?])
  requests := by
    rw [ha.dispatches, ← h.requests]
    exact congrArg (·.requests) ha.tally
  counted  := fun o => by
    rw [ha.dispatches, ← h.counted, ← Stats.counted_tally, ha.tally, Stats.counted_tally]

-- The request with a number becomes another, and the counts follow.
theorem of_set (d' : Dispatch) (o? : Option Outcome) (h : s.Tallied) (hd : s.dispatches[r]? = some d)
    (hs : s'.dispatches = s.dispatches.setIfInBounds r d') (hb : Books s'.ready r d d' o?)
    (hstats : s'.stats = o?.elim s.stats s.stats.count)
    (hready : ∀ j ≠ r, (.retire j ∈ s.ready → .retire j ∈ s'.ready) ∧
      (.startReading j ∈ s'.ready → .startReading j ∈ s.ready)) : s'.Tallied where
  booked   := fun j x hx => by
    have hlt := (Array.getElem?_eq_some_iff.mp hd).1
    rw [hs, Array.getElem?_setIfInBounds] at hx
    split at hx
    case isTrue hj  => simpa [← hj, hlt, ← Option.some.inj (by simpa [hlt] using hx)] using hb.booked
    case isFalse hj =>
      obtain ⟨h₁, h₂⟩ := hready j (Ne.symm hj)
      exact (h.booked j x hx).mono h₁ h₂
  requests := by
    rw [hs, Array.size_setIfInBounds, ← h.requests, hstats]
    cases o?
    case none   => rfl
    case some o => exact Stats.requests_count _ o
  counted  := fun o => by
    have hc := countP_setIfInBounds hd d' (·.counted? = some o)
    have hl := h.counted o
    rw [hs, hstats]
    rcases hb.counted with ⟨rfl, he⟩ | ⟨hn, he⟩
    case inl =>
      rw [he] at hc
      simp only [Option.elim_none]
      omega
    case inr =>
      rw [hn, he] at hc
      cases o?
      case none    => simpa [hl] using hc.symm
      case some o' => simpa [hl, Stats.counted_count] using hc.symm

theorem stop (h : s.Tallied) (k : Nat) : (s.cancelRequest k).Tallied := by
  cases hd : s.dispatches[k]?
  case none => simpa [cancelRequest, hd] using h
  case some d =>
    have hready : (s.cancelRequest k).ready = s.ready ++ (d.stop k).2 := by simp [cancelRequest_eq, hd]
    have hq : ∀ t ∈ (d.stop k).2, t = .resumeRequest k := by
      rcases d.stop_cases k with ⟨he, _⟩ | ⟨he, _⟩ | ⟨he, _⟩ | ⟨he, _⟩ <;> simp [he]
    have hmem {j : Nat} : (.retire j ∈ s.ready → .retire j ∈ (s.cancelRequest k).ready) ∧
        (.startReading j ∈ (s.cancelRequest k).ready → .startReading j ∈ s.ready) := by
      rw [hready]
      refine ⟨List.mem_append_left _, fun hm => (List.mem_append.mp hm).resolve_right fun hm => ?_⟩
      simpa using hq _ hm
    refine of_set (d.stop k).1 none h hd ?_ ⟨?_, .inl ⟨rfl, Dispatch.counted?_stop k d⟩⟩ ?_ fun _ _ => hmem
    case refine_1 => rw [cancelRequest_eq, ← modify_eq_setIfInBounds hd fun d => (d.stop k).1]
    case refine_2 => exact ((h.booked k d hd).stop k).mono hmem.1 hmem.2
    case refine_3 => rw [cancelRequest_eq]; rfl

theorem enlist (h : s.Tallied) (hw : d.watch = .queued) : (s.enlist d).Tallied := by
  have hready : (s.enlist d).ready = s.ready ++ [.startRequest s.dispatches.size] := rfl
  have hdisp : (s.enlist d).dispatches = s.dispatches.push d := rfl
  constructor
  case booked =>
    intro j x hx
    rw [hdisp, Array.getElem?_push] at hx
    split at hx
    case isTrue  => exact .of_ne_ended (by simp [← Option.some.inj hx, hw])
    case isFalse => exact (h.booked j x hx).mono (by simp [hready]) (by simp [hready])
  case requests => simp [Service.enlist, Service.count, queue, addDispatch, h.requests]
  case counted  =>
    intro o
    have hn : d.counted? = none := Dispatch.counted?_of_ne_ended (by simp [hw])
    have hs : (s.enlist d).stats.counted o = s.stats.counted o := by rcases o with _ | _ | _ | _ <;> rfl
    simp [hs, hdisp, h.counted, hn]

theorem deed (h : s.Tallied) (hr : s.ready = t :: rest) (hreq : t.request? = some r) (hd : s.dispatches[r]? = some d)
    (htd : Tended (t :: rest) r d) (he : Does { s with ready := rest } r t d e) (notices : Array Notice) :
    Tallied { ({ s with ready := rest } : Service).perform r e with notices } := by
  -- the turns in which calls are told are no turns of a request
  have htold {t' : Turn} {j : Nat} (ht' : t'.request? = some j) : t' ∉ (if e.tells then s.told r else []) := by
    intro hm
    split at hm
    case isTrue  => simpa [ht'] using request?_of_mem_told hm
    case isFalse => simp at hm
  refine of_set e.dispatch e.counted? h hd rfl (he.books (hr ▸ h.booked r d hd) htd (htold rfl)) rfl fun j hj => ?_
  have hother {t' : Turn} (ht' : t'.request? = some j) : t' ∉ e.turns ∧ t' ≠ t := by
    refine ⟨fun hm => hj ?_, fun he => hj ?_⟩
    case refine_1 => exact Option.some.inj (ht' ▸ he.turns t' hm)
    case refine_2 => exact Option.some.inj (by rw [← ht', he, hreq])
  simp only [perform, List.mem_append, hr, List.mem_cons]
  refine ⟨fun hm => .inl (hm.resolve_left (hother rfl).2), fun hm => .inr ?_⟩
  exact hm.resolve_right fun hm => hm.elim (htold rfl) (hother rfl).1

theorem touch (h : s.Tallied) (ht : Touch s s') : s'.Tallied := by
  cases ht
  case apart ha                       => exact h.apart ha
  case stop k                         => exact h.stop k
  case enlist hd                      => exact h.enlist hd.watch
  case deed hr hreq hd htd he notices => exact h.deed hr hreq hd htd he notices

theorem advance (h : s.Tallied) (time : Nat) : (s.advanceTo time).Tallied where
  booked   := fun r d hd => by
    refine (h.booked r d hd).mono (fun hm => List.mem_append_left _ hm) fun hm => ?_
    exact (List.mem_append.mp hm).resolve_right (by simp)
  requests := h.requests
  counted  := h.counted

theorem after (h : s.Tallied) (hs : s.Attended) (hf : s.Fitted) (e : Event) : (s.after e).Tallied := by
  rcases Touches.after_cases hs hf e with ht | ⟨time, rfl⟩ | ⟨b, rfl⟩
  case inl         => exact ht.keeps (fun _ _ h => h.touch) h
  case inr.inl     => exact h.advance time
  case inr.inr     => exact ⟨h.booked, h.requests, h.counted⟩

theorem reaches {settings : Setup} {backend : Backend} {features : Option LanguageFeatures}
    (h : (Service.start settings backend features).Reaches s) : s.Tallied := by
  have := h.induct (P := fun s => s.Tallied ∧ s.Attended ∧ s.Fitted) ⟨.start, .start, .start⟩
    fun _ e ⟨h, hs, hf⟩ => ⟨h.after hs hf e, hs.after e, hf.after hs e⟩
  exact this.1

end Tallied

-- Each request that has ended was counted once, with the result that its prediction has.
structure Balanced (s : Service) : Prop where
  requests : s.stats.requests = s.stats.success + s.stats.error + s.stats.timeout + s.stats.cancelled +
    s.dispatches.countP (·.watch ≠ .ended)
  outcomes : ∀ o, s.stats.counted o =
    s.dispatches.countP fun d => d.watch = .ended && d.prediction.outcome? = some o

-- Those that have ended are as many as have ended in any of the four ways.
theorem countP_ended {l : List Dispatch} (h : ∀ d ∈ l, d.watch = .ended → d.prediction.outcome?.isSome = true) :
    l.countP (·.watch = .ended) =
      total (Outcome.all.map fun o => l.countP fun d => d.watch = .ended && d.prediction.outcome? = some o) := by
  induction l
  case nil => rfl
  case cons d l ih =>
    have ih := ih fun x hx => h x (List.mem_cons_of_mem d hx)
    have hd := h d List.mem_cons_self
    simp only [List.countP_cons, Outcome.all, List.map_cons, List.map_nil, total] at ih ⊢
    by_cases hw : d.watch = .ended
    case neg => simp [hw, ih]
    case pos =>
      obtain ⟨o, ho⟩ := Option.isSome_iff_exists.mp (hd hw)
      rcases o with _ | _ | _ | _ <;> simp [hw, ho, ih] <;> omega

-- Two conditions that are met equally often are the same where one implies the other.
theorem of_countP_eq {l : List Dispatch} {p q : Dispatch → Bool} (h : l.countP p = l.countP q)
    (hpq : ∀ d, p d = true → q d = true) {d : Dispatch} (hd : d ∈ l) (hq : q d = true) : p d = true := by
  have hf : (l.filter p).countP q = l.countP p := by
    rw [List.countP_filter]
    exact List.countP_congr fun x _ => by simpa using hpq x
  have hs := List.countP_eq_countP_filter_add l q p
  have hz : (l.filter fun x => !p x).countP q = 0 := by omega
  refine Decidable.byContradiction fun hp => ?_
  exact List.countP_eq_zero.mp hz d (List.mem_filter.mpr ⟨hd, by simpa using hp⟩) hq

namespace Tallied

theorem isPending_of_ended (h : s.Tallied) (hr : s.ready = []) (hd : d ∈ s.dispatches) (hw : d.watch = .ended) :
    d.prediction.isPending = false := by
  obtain ⟨r, hd⟩ := Array.mem_iff_getElem?.mp hd
  rw [← Bool.not_eq_true]
  intro hp
  simpa [hr] using ((h.booked r d hd).retiring hw hp).2

theorem isSome_outcome? (h : s.Tallied) (hr : s.ready = []) (hd : d ∈ s.dispatches) (hw : d.watch = .ended) :
    d.prediction.outcome?.isSome = true := by
  have hp := h.isPending_of_ended hr hd hw
  cases hs : d.prediction.stage <;> simp_all [Prediction.isPending, Prediction.outcome?, Prediction.result?]

theorem balanced_of_not_withdrawn (h : s.Tallied) (hr : s.ready = [])
    (hn : ∀ d ∈ s.dispatches, d.withdrawn = false) : s.Balanced := by
  have ho (o : Outcome) : s.stats.counted o =
      s.dispatches.toList.countP fun d => d.watch = .ended && d.prediction.outcome? = some o := by
    rw [h.counted, ← Array.countP_toList]
    refine List.countP_congr fun d hd => ?_
    have := hn d (Array.mem_toList_iff.mp hd)
    by_cases hw : d.watch = .ended <;> simp [Dispatch.counted?, hw, this]
  constructor
  case outcomes => simpa using ho
  case requests =>
    have hsum := countP_ended fun d hd => h.isSome_outcome? hr (Array.mem_toList_iff.mp hd)
    have hlen := List.length_eq_countP_add_countP (fun d : Dispatch => d.watch = .ended) (l := s.dispatches.toList)
    simp only [Outcome.all, List.map_cons, List.map_nil, total, ← ho] at hsum
    rw [h.requests, ← Array.countP_toList, ← Array.length_toList, hlen, hsum]
    simp only [Stats.counted]
    simp
    omega

-- A request that was withdrawn is not among those counted as cancelled.
theorem not_withdrawn_of_balanced (h : s.Tallied) (hr : s.ready = []) (hb : s.Balanced) (hd : d ∈ s.dispatches) :
    d.withdrawn = false := by
  rw [← Bool.not_eq_true]
  intro hw
  have hend := (Dispatch.withdrawn_eq_true_iff.mp hw).2.1
  obtain ⟨r, hr'⟩ := Array.mem_iff_getElem?.mp hd
  have ho := (h.booked r d hr').withdrawn hw (h.isPending_of_ended hr hd hend)
  have hc := (h.counted (.failure .cancelled)).symm.trans (hb.outcomes (.failure .cancelled))
  rw [← Array.countP_toList, ← Array.countP_toList] at hc
  have hsub (x : Dispatch) (hx : decide (x.counted? = some (.failure .cancelled)) = true) :
      (decide (x.watch = .ended) && decide (x.prediction.outcome? = some (.failure .cancelled))) = true := by
    by_cases he : x.watch = .ended
    case neg => simp [Dispatch.counted?_of_ne_ended he] at hx
    case pos => by_cases hn : x.withdrawn = true <;> simp_all [Dispatch.counted?]
  have hp := of_countP_eq hc hsub (Array.mem_toList_iff.mpr hd) (by simp [hend, ho])
  simp [Dispatch.counted?, hw] at hp

end Tallied

-- Every request is counted when it is made. In a settled state those that have ended have their result, and that
-- result has been counted, unless the request was withdrawn and so cancelled without a count. The counts therefore
-- balance just when no request has been withdrawn.
theorem balanced_iff_of_settled {settings : Setup} {backend : Backend} {features : Option LanguageFeatures}
    (hs : (start settings backend features).Reaches s) (hset : s.Settled) :
    s.stats.requests = s.dispatches.size ∧
      (∀ o, s.stats.counted o = s.dispatches.countP fun d => d.watch = .ended && !d.withdrawn &&
        d.prediction.outcome? = some o) ∧
      (∀ d ∈ s.dispatches, d.watch = .ended → d.prediction.outcome?.isSome = true) ∧
      (∀ d ∈ s.dispatches, d.withdrawn = true → d.prediction.outcome? = some (.failure .cancelled)) ∧
      (s.Balanced ↔ ∀ d ∈ s.dispatches, d.withdrawn = false) := by
  have h := Tallied.reaches hs
  refine ⟨h.requests, fun o => ?_, fun d hd => h.isSome_outcome? hset.1 hd, fun d hd hw => ?_, ?_⟩
  case refine_1 =>
    rw [h.counted]
    congr 1
    funext d
    by_cases hw : (d.watch = .ended && !d.withdrawn) = true <;> simp_all [Dispatch.counted?]
  case refine_2 =>
    have hend := (Dispatch.withdrawn_eq_true_iff.mp hw).2.1
    obtain ⟨r, hr⟩ := Array.mem_iff_getElem?.mp hd
    exact (h.booked r d hr).withdrawn hw (h.isPending_of_ended hset.1 hd hend)
  case refine_3 =>
    exact ⟨fun hb d hd => h.not_withdrawn_of_balanced hset.1 hb hd, h.balanced_of_not_withdrawn hset.1⟩

def promptBackend : Backend :=
  { answers := .always "foo".toList }

-- The providers of language features answer after ten milliseconds.
def hesitantFeatures : LanguageFeatures :=
  { delay := some 10 }

-- A call sends its request and is answered.
def sentOnce : Service :=
  let s := (start { debounce := 0, useHints := false } promptBackend none).after (.openBuffer ['a'] "x = ".toList)
  (s.after (.provide ['a'] ⟨0, 4⟩)).settle 0

theorem balanced_sentOnce :
    (start { debounce := 0, useHints := false } promptBackend none).Reaches sentOnce ∧ sentOnce.Settled ∧
      (∀ d ∈ sentOnce.dispatches, d.withdrawn = false) ∧ sentOnce.stats.success = 1 ∧ sentOnce.Balanced := by
  have hs : (start { debounce := 0, useHints := false } promptBackend none).Reaches sentOnce := by
    apply Reaches.trans ?_ (.settle _ 0)
    exact ((Reaches.refl _).after (.openBuffer ['a'] "x = ".toList)).after (.provide ['a'] ⟨0, 4⟩)
  have hn : ∀ d ∈ sentOnce.dispatches, d.withdrawn = false := by decide +kernel
  have hset : sentOnce.Settled := settled_settle _ 0
  exact ⟨hs, hset, hn, by decide +kernel, (balanced_iff_of_settled hs hset).2.2.2.2.mpr hn⟩

-- Two calls gather hints side by side and send their requests at one time. With room for one prediction the second
-- pushes out that of the first, whose request has not had its first turn.
def pushedOutUnsent : Service :=
  let s := (start { debounce := 0, cacheSize := 1 } promptBackend (some hesitantFeatures)).after
    (.openBuffer ['a'] "x = ".toList)
  (((s.after (.provide ['a'] ⟨0, 4⟩)).settle 0).after (.provide ['a'] ⟨0, 4⟩)).settle 40

-- Two requests have been made and have ended, and one result has been counted.
theorem not_balanced_pushedOutUnsent :
    (start { debounce := 0, cacheSize := 1 } promptBackend (some hesitantFeatures)).Reaches pushedOutUnsent ∧
      pushedOutUnsent.Settled ∧ pushedOutUnsent.stats.requests = 2 ∧ pushedOutUnsent.stats.success = 1 ∧
      pushedOutUnsent.stats.cancelled = 0 ∧
      pushedOutUnsent.dispatches.toList.map (·.prediction.outcome?) = [some (.failure .cancelled), some .success] ∧
      pushedOutUnsent.dispatches.toList.map (·.watch) = [.ended, .ended] ∧ ¬pushedOutUnsent.Balanced := by
  refine ⟨?_, settled_settle _ 40, by decide +kernel, by decide +kernel, by decide +kernel, by decide +kernel,
    by decide +kernel, fun hb => ?_⟩
  case refine_1 =>
    apply Reaches.trans ?_ (.settle _ 40)
    apply Reaches.after ?_ (.provide ['a'] ⟨0, 4⟩)
    apply Reaches.trans ?_ (.settle _ 0)
    exact ((Reaches.refl _).after (.openBuffer ['a'] "x = ".toList)).after (.provide ['a'] ⟨0, 4⟩)
  case refine_2 =>
    have : pushedOutUnsent.stats.counted (.failure .cancelled) ≠ pushedOutUnsent.dispatches.countP fun d =>
        d.watch = .ended && d.prediction.outcome? = some (.failure .cancelled) := by decide +kernel
    exact this (hb.outcomes _)

end GhostText.Service
