import GhostText.Proofs.Service.Turns

namespace GhostText.Service

variable {s s' : Service} {q q' rest : List Turn} {t : Turn} {c i r : Nat} {d d' : Dispatch}

-- The request does not go on without the turn.
def Turn.isNeeded (d : Dispatch) : Turn → Prop
  | .startRequest _  => d.watch = .queued
  | .resumeRequest _ => d.watch = .watching true ∨ d.watch = .stopping true
  | .resumeReading _ => ∃ rest?, d.reading = .waiting true rest?
  | .readingOver _   => (∃ fault, d.reading = .ended fault) ∧ (d.watch = .watching false ∨ d.watch = .stopping false)
  | _                => False

theorem Turn.isDue_of_isNeeded (h : t.isNeeded d) : t.isDue d := by
  cases t
  case startRequest | resumeRequest | resumeReading => exact h
  case readingOver                                  => exact h.2
  all_goals exact False.elim h

-- The first turn is taken, and the second is not taken before.
def Precedes (t t' : Turn) (q : List Turn) : Prop :=
  ∃ q₁ q₂, q = q₁ ++ t :: q₂ ∧ t' ∉ q₁

namespace Precedes

variable {t' : Turn}

theorem append (h : Precedes t t' q) (q' : List Turn) : Precedes t t' (q ++ q') := by
  obtain ⟨q₁, q₂, hq, hn⟩ := h
  exact ⟨q₁, q₂ ++ q', by simp [hq], hn⟩

theorem of_not_mem (h : t' ∉ q) : Precedes t t' (q ++ [t]) :=
  ⟨q, [], rfl, h⟩

theorem tail {x : Turn} (h : Precedes t t' (x :: q)) (hx : x ≠ t) : x ≠ t' ∧ Precedes t t' q := by
  obtain ⟨q₁, q₂, hq, hn⟩ := h
  cases q₁
  case nil => exact absurd (List.cons.inj hq).1 hx
  case cons y q₁ =>
    obtain ⟨hy, hq⟩ := List.cons.inj hq
    rw [List.mem_cons, not_or] at hn
    exact ⟨hy ▸ Ne.symm hn.1, q₁, q₂, hq, hn.2⟩

end Precedes

structure Tended (q : List Turn) (r : Nat) (d : Dispatch) : Prop where
  needed    : ∀ t, t.request? = some r → t.isNeeded d → t ∈ q
  unsent    : d.watch = .queued → d.reading = .queued ∧ .startReading r ∉ q ∧ .resumeRequest r ∉ q
  handed    : ∀ woken, d.watch = .watching woken → d.reading = .queued →
    Precedes (.startReading r) (.resumeRequest r) q
  -- a reading that has been told to stop is in a turn to come
  stopping  : ∀ woken, d.watch = .stopping woken → d.reading ≠ .queued ∧ ∀ rest?, d.reading ≠ .waiting false rest?
  cancelled : d.cancelled = true → d.watch ≠ .watching false
  pending   : d.watch ≠ .ended → d.prediction.isPending = true
  retired   : .retire r ∈ q → d.watch = .ended

namespace Tended

theorem append (h : Tended q r d) (hq : ∀ t ∈ q', t.request? = some r → ∃ b, t = .ring b) :
    Tended (q ++ q') r d where
  needed    := fun t ht hn => List.mem_append_left _ (h.needed t ht hn)
  unsent    := fun hw => by
    obtain ⟨hr, h₁, h₂⟩ := h.unsent hw
    refine ⟨hr, ?_, ?_⟩ <;> rw [List.mem_append, not_or]
    case refine_1 => exact ⟨h₁, fun hm => by simpa using hq _ hm rfl⟩
    case refine_2 => exact ⟨h₂, fun hm => by simpa using hq _ hm rfl⟩
  handed    := fun woken hw hr => (h.handed woken hw hr).append q'
  stopping  := h.stopping
  cancelled := h.cancelled
  pending   := h.pending
  retired   := fun hm => (List.mem_append.mp hm).elim h.retired fun hm => by simpa using hq _ hm rfl

theorem drop (h : Tended (t :: q) r d) (ht : t.request? = some r → t.isNeeded d → t ∈ q)
    (hs : t = .startReading r → d.reading ≠ .queued) : Tended q r d where
  needed    := fun t' ht' hn => by
    cases h.needed t' ht' hn
    case head    => exact ht ht' hn
    case tail hm => exact hm
  unsent    := fun hw => by
    obtain ⟨hr, h₁, h₂⟩ := h.unsent hw
    exact ⟨hr, List.not_mem_of_not_mem_cons h₁, List.not_mem_of_not_mem_cons h₂⟩
  handed    := fun woken hw hr => ((h.handed woken hw hr).tail fun he => hs he hr).2
  stopping  := h.stopping
  cancelled := h.cancelled
  pending   := h.pending
  retired   := fun hm => h.retired (List.mem_cons_of_mem _ hm)

-- A turn that is not one of the request does not matter to it.
theorem tail (h : Tended (t :: q) r d) (ht : t.request? ≠ some r) : Tended q r d :=
  h.drop (fun he => absurd he ht) (fun he => absurd (he ▸ rfl) ht)

theorem of_new (hd : New d c i) (hs : .startReading r ∉ q) (hr : .resumeRequest r ∉ q) (hq : .retire r ∉ q) :
    Tended (q ++ [.startRequest r]) r d where
  needed    := fun t ht hn => by
    have := hd.watch
    have := hd.reading
    cases t <;> simp_all [Turn.isNeeded, Turn.request?]
  unsent    := fun _ => ⟨hd.reading, by simpa using hs, by simpa using hr⟩
  handed    := fun _ hw => by simp [hd.watch] at hw
  stopping  := fun _ hw => by simp [hd.watch] at hw
  cancelled := fun hc => by simp [hd.cancelled] at hc
  pending   := fun _ => hd.pending
  retired   := fun hm => by simp [hq] at hm

theorem ended {p : Prediction} (h : Tended q r d) :
    Tended (q ++ q') r { d with prediction := p, watch := .ended } where
  needed    := fun t ht hn => by
    have := h.needed t ht
    cases t <;> simp_all [Turn.isNeeded]
  unsent    := fun hw => by simp at hw
  handed    := fun _ hw => by simp at hw
  stopping  := fun _ hw => by simp at hw
  cancelled := fun _ => by simp
  pending   := fun hw => by simp at hw
  retired   := fun _ => rfl

theorem watched (h : Tended q r d) (hw : d.watch = .queued) (hc : d.cancelled = false) :
    Tended (q ++ [.startReading r]) r { d with watch := .watching false } where
  needed    := fun t ht hn => by
    have := h.unsent hw
    cases t <;> simp_all [Turn.isNeeded]
  unsent    := fun hw => by simp at hw
  handed    := fun _ _ _ => .of_not_mem (h.unsent hw).2.2
  stopping  := fun _ hw => by simp at hw
  cancelled := fun hc' => by simp [hc] at hc'
  pending   := fun _ => h.pending (by simp [hw])
  retired   := fun hm => by simpa [hw] using h.retired (by simpa using hm)

theorem roused (h : Tended q r d) (hw : d.watch = .watching false) (cancelled : Bool) :
    Tended (q ++ [.resumeRequest r]) r { d with watch := .watching true, cancelled } where
  needed    := fun t ht hn => by
    have := h.needed t ht
    cases t <;> simp_all [Turn.isNeeded, Turn.request?]
  unsent    := fun hw => by simp at hw
  handed    := fun _ _ hr => (h.handed _ hw hr).append _
  stopping  := fun _ hw => by simp at hw
  cancelled := fun _ => by simp
  pending   := fun _ => h.pending (by simp [hw])
  retired   := fun hm => by simpa [hw] using h.retired (by simpa using hm)

theorem roused_stopping (h : Tended q r d) (hw : d.watch = .stopping false) (cancelled : Bool) :
    Tended (q ++ [.resumeRequest r]) r { d with watch := .stopping true, cancelled } where
  needed    := fun t ht hn => by
    have := h.needed t ht
    cases t <;> simp_all [Turn.isNeeded, Turn.request?]
  unsent    := fun hw => by simp at hw
  handed    := fun _ hw => by simp at hw
  stopping  := fun _ _ => h.stopping _ hw
  cancelled := fun _ => by simp
  pending   := fun _ => h.pending (by simp [hw])
  retired   := fun hm => by simpa [hw] using h.retired (by simpa using hm)

theorem stop (h : Tended q r d) : Tended (q ++ (d.stop r).2) r (d.stop r).1 := by
  rcases d.stop_cases r with ⟨he, _⟩ | ⟨he, hw⟩ | ⟨he, hw⟩ | ⟨he, hw, _⟩ <;> rw [he]
  case inl         => simpa using h
  case inr.inl     => exact h.roused hw true
  case inr.inr.inl => exact h.roused_stopping hw true
  case inr.inr.inr =>
    have hs : Tended q r { d with cancelled := true } :=
      ⟨h.needed, h.unsent, h.handed, h.stopping, fun _ => hw, h.pending, h.retired⟩
    simpa using hs

-- The reading goes on, and if it is not over and does not wait for the model, takes a turn again.
theorem read {p : Prediction} {x : Reading} (h : Tended q r d) (hw : d.watch ≠ .queued) (hx : x ≠ .queued)
    (hp : p.stage = d.prediction.stage)
    (hwait : (∃ rest?, x = .waiting false rest?) → ∀ woken, d.watch ≠ .stopping woken)
    (hq : ∀ t ∈ q', t = .resumeReading r ∨ t = .readingOver r)
    (hm : (∃ rest?, x = .waiting true rest?) → .resumeReading r ∈ q')
    (ho : (∃ fault, x = .ended fault) → .readingOver r ∈ q') :
    Tended (q ++ q') r { d with prediction := p, reading := x } where
  needed    := fun t ht hn => by
    cases t
    case resumeReading                => exact List.mem_append_right _ (Option.some.inj ht ▸ hm hn)
    case readingOver                  => exact List.mem_append_right _ (Option.some.inj ht ▸ ho hn.1)
    case startRequest | resumeRequest => exact List.mem_append_left _ (h.needed _ ht hn)
    all_goals exact False.elim hn
  unsent    := fun hw' => absurd hw' hw
  handed    := fun _ _ hr => absurd hr hx
  stopping  := fun woken hw => ⟨hx, fun rest? hr => hwait ⟨rest?, hr⟩ woken hw⟩
  cancelled := h.cancelled
  pending   := fun hw => by rw [Prediction.isPending, hp]; exact h.pending hw
  retired   := fun hm => h.retired ((List.mem_append.mp hm).resolve_right fun hm => by simpa using hq _ hm)

-- A reading is told to stop while it has a turn to come.
theorem told_to_stop (h : Tended q r d) (hw : d.watch = .watching true) (hr : d.reading ≠ .queued)
    (hr' : ∀ rest?, d.reading ≠ .waiting false rest?) (he : ∀ fault, d.reading ≠ .ended fault) :
    Tended q r { d with watch := .stopping false } where
  needed    := fun t ht hn => by
    have := h.needed t ht
    cases t <;> simp_all [Turn.isNeeded, Turn.request?]
  unsent    := fun hw => by simp at hw
  handed    := fun _ hw => by simp at hw
  stopping  := fun _ _ => ⟨hr, hr'⟩
  cancelled := fun _ => by simp
  pending   := fun _ => h.pending (by simp [hw])
  retired   := fun hm => by simpa [hw] using h.retired hm

theorem watch_ne_queued (h : Tended (t :: rest) r d) (ht : t = .startReading r ∨ t = .resumeReading r)
    (hd : t.isDue d) : d.watch ≠ .queued := by
  intro hw
  obtain ⟨hr, hn, _⟩ := h.unsent hw
  rcases ht with rfl | rfl
  case inl => exact hn List.mem_cons_self
  case inr => simp [Turn.isDue, hr] at hd

theorem life {told : List Turn} (h : Tended (t :: rest) r d) (hl : Life r told t d d' q) :
    Tended (rest ++ q) r d' := by
  have hd (h : Tended ((t :: rest) ++ q) r d') (hn : t.isNeeded d' → t ∈ q)
      (hs : t = .startReading r → d'.reading ≠ .queued) : Tended (rest ++ q) r d' :=
    h.drop (fun _ h => List.mem_append_right _ (hn h)) hs
  cases hl
  case idle hn =>
    rw [List.append_nil]
    refine h.drop (fun _ ht => ?_) (fun ht hr => ?_)
    case refine_1 => exact absurd (Turn.isDue_of_isNeeded ht) hn
    case refine_2 => exact hn (ht ▸ hr)
  case unsent                 => exact hd h.ended (by simp [Turn.isNeeded]) (by simp)
  case watch hw hc            => exact hd (h.watched hw hc) (by simp [Turn.isNeeded]) (by simp)
  case settle ht _            =>
    refine hd h.ended ?_ ?_ <;> rcases ht with rfl | rfl <;> simp [Turn.isNeeded]
  case wait p woken rest? ht hg hp hdue =>
    have hw := h.watch_ne_queued ht hdue
    have hs (k : Bool) : d.watch ≠ .stopping k := fun hk => by
      cases hg
      case inl hg => exact (h.stopping k hk).1 hg
      case inr hg => simp [Dispatch.goesOn, hk] at hg
    refine hd (h.read hw (by simp) hp (fun _ => hs) ?_ ?_ (by simp)) ?_ (by simp)
    case refine_3 => rcases ht with rfl | rfl <;> cases woken <;> simp [Turn.isNeeded]
    all_goals cases woken <;> simp
  case ended ht hp hdue =>
    have hw := h.watch_ne_queued ht hdue
    refine hd (h.read hw (by simp) hp (by simp) (by simp) (by simp) (by simp)) ?_ (by simp)
    rcases ht with rfl | rfl <;> simp [Turn.isNeeded]
  case rouse ht hw =>
    refine hd (h.roused hw d.cancelled) ?_ ?_ <;> rcases ht with rfl | rfl <;> simp [Turn.isNeeded]
  case rouseStopping hw =>
    exact hd (h.roused_stopping hw d.cancelled) (by simp [Turn.isNeeded]) (by simp)
  case stop hw hr he =>
    have hq : d.reading ≠ .queued := fun hq => ((h.handed _ hw hq).tail (by simp)).1 rfl
    rw [List.append_nil]
    exact (h.told_to_stop hw hq hr he).drop (by simp [Turn.isNeeded]) (by simp)
  case stopWaiting rest? hw hr =>
    have hx : Tended ((.resumeRequest r :: rest) ++ [.resumeReading r]) r { d with reading := .waiting true rest? } :=
      h.read (by simp [hw]) (by simp) rfl (by simp) (by simp) (by simp) (by simp)
    exact hd (hx.told_to_stop hw (by simp) (by simp) (by simp)) (by simp [Turn.isNeeded]) (by simp)
  case retire p _ _ =>
    have hw := h.retired List.mem_cons_self
    have he : Tended ((.retire r :: rest) ++ q) r { d with prediction := p, watch := d.watch } := hw ▸ h.ended
    exact hd he (by simp [Turn.isNeeded]) (by simp)
  case wake hr =>
    have hw : d.watch ≠ .queued := fun hw => by simp [(h.unsent hw).1] at hr
    exact hd (h.read hw (by simp) rfl (by simp) (by simp) (by simp) (by simp)) (by simp [Turn.isNeeded]) (by simp)

-- When no turn is left to come, a request has ended or waits for its answer.
theorem ended_or_watching (h : Tended [] r d) : d.watch = .ended ∨ d.watch = .watching false := by
  cases hw : d.watch
  case ended  => exact .inl rfl
  case queued => simpa using h.needed (.startRequest r) rfl hw
  case watching woken =>
    cases woken
    case false => exact .inr rfl
    case true  => simpa using h.needed (.resumeRequest r) rfl (.inl hw)
  case stopping woken =>
    cases woken
    case true  => simpa using h.needed (.resumeRequest r) rfl (.inr hw)
    case false =>
      obtain ⟨hq, hwait⟩ := h.stopping _ hw
      cases hx : d.reading
      case queued        => exact absurd hx hq
      case waiting woken rest? =>
        cases woken
        case false => exact absurd hx (hwait rest?)
        case true  => simpa using h.needed (.resumeReading r) rfl ⟨rest?, hx⟩
      case ended fault   => simpa using h.needed (.readingOver r) rfl ⟨⟨fault, hx⟩, .inr hw⟩

end Tended

theorem request?_of_mem_told (h : t ∈ s.told r) : t.request? = none := by
  obtain ⟨_, _, hc⟩ := List.mem_map.mp h
  exact hc ▸ rfl

theorem Life.mem_queue {told : List Turn} {t' : Turn} (h : Life r told t d d' q)
    (htold : ∀ t ∈ told, t.request? = none) (ht : t' ∈ q) : t'.request? = none ∨ t'.request? = some r := by
  cases h
  case retire => exact .inl (htold t' ht)
  case settle hq _ _ =>
    cases List.mem_append.mp ht
    case inl ht => exact .inl (htold t' ht)
    case inr ht => rcases hq with rfl | rfl <;> simp_all [Turn.request?]
  case wait woken _ _ _ _ _ => cases woken <;> simp_all [Turn.request?]
  all_goals simp_all [Turn.request?]

-- A request that is to stop stays so, and so does one that has ended.
theorem Life.lasts {told : List Turn} (h : Life r told t d d' q) :
    d'.cancelled = d.cancelled ∧ (d.watch = .ended → d'.watch = .ended) := by
  cases h
  case settle => exact ⟨rfl, fun _ => rfl⟩
  all_goals simp_all

-- Every request that has not ended is to stop, or its prediction is kept.
structure Attended (s : Service) : Prop where
  sound  : s.Sound
  known  : ∀ t ∈ s.ready, ∀ r, t.request? = some r → (∃ b, t = .ring b) ∨ r < s.dispatches.size
  tended : ∀ (r : Nat) (d : Dispatch), s.dispatches[r]? = some d → Tended s.ready r d
  kept   : ∀ (r : Nat) (d : Dispatch), s.dispatches[r]? = some d → d.watch ≠ .ended → d.cancelled = true ∨
    r ∈ s.kept d.session

theorem ready_dispatches_sessionFor (s : Service) (uri : Text) :
    (s.sessionFor uri).1.ready = s.ready ∧ (s.sessionFor uri).1.dispatches = s.dispatches := by
  simp only [sessionFor]
  split <;> exact ⟨rfl, rfl⟩

namespace Attended

theorem start {settings : Setup} {backend : Backend} {features : Option LanguageFeatures} :
    (start settings backend features).Attended := by
  constructor
  case sound => exact .start
  all_goals simp [Service.start, note]

-- Only requests that are over or are to stop lose their entries.
theorem of_kept (h : s.Attended) (hs : s'.Sound) (hr : s'.ready = s.ready) (hd : s'.dispatches = s.dispatches)
    (hk : ∀ i, ∀ r ∈ s.kept i, r ∈ s'.kept i ∨ s.Off r) : s'.Attended where
  sound  := hs
  known  := by rw [hr, hd]; exact h.known
  tended := by rw [hr, hd]; exact h.tended
  kept   := fun r d hd' hw => by
    rw [hd] at hd'
    cases h.kept r d hd' hw
    case inl hc => exact .inl hc
    case inr hm =>
      cases hk d.session r hm
      case inl hm => exact .inr hm
      case inr ho => exact .inl (ho d hd' ((h.tended r d hd').pending hw) hw)

theorem cancelRequest (h : s.Attended) (k : Nat) : (s.cancelRequest k).Attended := by
  cases hd : s.dispatches[k]?
  case none => simpa [Service.cancelRequest, hd] using h
  case some d =>
    have hr : (s.cancelRequest k).ready = s.ready ++ (d.stop k).2 := by simp [cancelRequest_eq, hd]
    have hf := Frame.cancelRequest s k
    have hm : ∀ t ∈ (d.stop k).2, t = .resumeRequest k := by
      rcases d.stop_cases k with ⟨he, _⟩ | ⟨he, _⟩ | ⟨he, _⟩ | ⟨he, _⟩ <;> simp [he]
    constructor
    case sound => exact h.sound.move (c := 0) (.stop k)
    case known =>
      intro t ht r htr
      rw [hf.size]
      rw [hr, List.mem_append] at ht
      cases ht
      case inl ht => exact h.known t ht r htr
      case inr ht =>
        obtain rfl : k = r := by simpa [hm t ht, Turn.request?] using htr
        exact .inr (Array.getElem?_eq_some_iff.mp hd).1
    case tended =>
      intro r d' hd'
      rw [getElem?_cancelRequest] at hd'
      rw [hr]
      split at hd'
      case isTrue hk =>
        subst hk
        rw [hd] at hd'
        exact Option.some.inj hd' ▸ (h.tended k d hd).stop
      case isFalse hk =>
        refine (h.tended r d' hd').append fun t ht htr => ?_
        exact absurd (by simpa [hm t ht, Turn.request?] using htr) hk
    case kept =>
      intro r d' hd' hw
      have hk : (s.cancelRequest k).kept d'.session = s.kept d'.session := by
        rw [Service.kept, sessions_cancelRequest, Service.kept]
      rw [hk]
      rw [getElem?_cancelRequest] at hd'
      split at hd'
      case isFalse   => exact h.kept r d' hd' hw
      case isTrue hk =>
        subst hk
        rw [hd, Option.map_some] at hd'
        obtain rfl := Option.some.inj hd'
        have := h.kept k d hd
        rcases d.stop_cases k with ⟨he, _⟩ | ⟨he, _⟩ | ⟨he, _⟩ | ⟨he, _⟩ <;> rw [he] at hw ⊢
        case inl => exact this hw
        all_goals exact .inl rfl

theorem move (h : s.Attended) (hm : Move c s s') : s'.Attended := by
  have hsound := h.sound.move hm
  cases hm
  case extend q hq he =>
    constructor
    case sound  => exact hsound
    case known  =>
      intro t ht r hr
      rw [he.ready, List.mem_append] at ht
      rw [he.dispatches]
      cases ht
      case inl ht => exact h.known t ht r hr
      case inr ht => exact .inl ((hq t ht).resolve_left (by simp [hr]))
    case tended =>
      intro r d hd
      rw [he.ready]
      rw [he.dispatches] at hd
      exact (h.tended r d hd).append fun t ht hr => (hq t ht).resolve_left (by simp [hr])
    case kept =>
      intro r d hd hw
      rw [he.kept]
      exact h.kept r d (he.dispatches ▸ hd) hw
  case openSession uri =>
    obtain ⟨hr, hd⟩ := ready_dispatches_sessionFor s uri
    exact h.of_kept hsound hr hd fun i r hm => .inl (by rwa [kept_sessionFor])
  case closeSession uri => exact ⟨hsound, h.known, h.tended, h.kept⟩
  case stop k => exact h.cancelRequest k
  case drop i session session' hi _ _ ho =>
    apply h.of_kept hsound rfl rfl
    intro j r hm
    rw [kept_setSession hi]
    split
    case isFalse => exact .inl hm
    case isTrue hij =>
      rw [← hij, Service.kept, hi] at hm
      exact (Classical.em _).imp_right (ho r hm)
  case supersede i session hi =>
    apply h.of_kept hsound rfl rfl
    intro j r hm
    rw [kept_setSession hi]
    split
    case isFalse    => exact .inl hm
    case isTrue hij => exact .inl (by simpa [← hij, Service.kept, hi] using hm)
  case call stage hn => exact ⟨hsound, h.known, h.tended, h.kept⟩

theorem moves (h : s.Attended) (hm : Moves c s s') : s'.Attended := by
  induction hm
  case refl         => exact h
  case tail _ hm ih => exact ih.move hm

theorem send (h : s.Attended) (hs : Send c s s') : s'.Attended := by
  have hsound := h.sound.send hs
  cases hs
  case gather => exact ⟨hsound, h.known, h.tended, h.kept⟩
  case send i session d₀ hc hi hd₀ cursor =>
    have hdisp := fun r => getElem?_dispatches_send s c i r session d₀ cursor
    have hready : (s.send c i session d₀ cursor).ready = s.ready ++ [.startRequest s.dispatches.size] := rfl
    have hsize : (s.send c i session d₀ cursor).dispatches.size = s.dispatches.size + 1 := Array.size_push ..
    have hfresh {t : Turn} (ht : t ∈ s.ready) (hr : t.request? = some s.dispatches.size) : ∃ b, t = .ring b :=
      (h.known t ht _ hr).resolve_right (Nat.lt_irrefl _)
    constructor
    case sound => exact hsound
    case known =>
      intro t ht r hr
      rw [hsize]
      rw [hready, List.mem_append, List.mem_singleton] at ht
      rcases ht with ht | rfl
      case inl => exact (h.known t ht r hr).imp_right Nat.lt_succ_of_lt
      case inr => exact .inr (by simp [← Option.some.inj hr])
    case tended =>
      intro r d hd
      rw [hdisp] at hd
      rw [hready]
      split at hd
      case isTrue hr =>
        obtain rfl := Option.some.inj hd
        subst hr
        exact .of_new hd₀ (fun hm => by simpa using hfresh hm rfl) (fun hm => by simpa using hfresh hm rfl)
          (fun hm => by simpa using hfresh hm rfl)
      case isFalse hr =>
        refine (h.tended r d hd).append fun t ht htr => ?_
        obtain rfl := List.mem_singleton.mp ht
        exact absurd (Option.some.inj htr).symm hr
    case kept =>
      intro r d hd hw
      rw [hdisp] at hd
      rw [kept_send hi]
      split at hd
      case isTrue hr =>
        obtain rfl := Option.some.inj hd
        right
        simp [hd₀.session, hr]
      case isFalse =>
        refine (h.kept r d hd hw).imp_right fun hm => ?_
        split
        case isTrue hij => exact List.mem_append_left _ (hij ▸ hm)
        case isFalse    => exact hm

theorem sends (h : s.Attended) (hs : Sends c s s') : s'.Attended :=
  hs.keeps (fun _ _ => move) (fun _ _ => send) h

-- A turn leaves the queue in which nothing is to be done for a request.
theorem popped (h : s.Attended) (hr : s.ready = t :: rest)
    (ht : ∀ r d, s.dispatches[r]? = some d → t.request? ≠ some r) : ({ s with ready := rest } : Service).Attended where
  sound  := h.sound.popped
  known  := fun t' ht' => h.known t' (hr ▸ List.mem_cons_of_mem _ ht')
  tended := fun r d hd => (hr ▸ h.tended r d hd).tail (ht r d hd)
  kept   := h.kept

theorem lives (h : s.Attended) (hr : s.ready = t :: rest) (ht : t.request? = some r) (hd : s.dispatches[r]? = some d)
    (hl : Lives r t d { s with ready := rest } s') : s'.Attended := by
  obtain ⟨_, hsess, _⟩ := hl.sessions_calls
  have hk (i : Nat) : s'.kept i = s.kept i := by rw [Service.kept, hsess, Service.kept]
  have hsize : s'.dispatches.size = s.dispatches.size := hl.size
  obtain ⟨d', q, hlife, hready, hdisp⟩ := hl.exists_life (s := { s with ready := rest }) hd
  have hq (t' : Turn) (ht' : t' ∈ q) : t'.request? = none ∨ t'.request? = some r :=
    hlife.mem_queue (fun _ => request?_of_mem_told) ht'
  constructor
  case sound => exact h.sound.popped.lives (s := { s with ready := rest }) hd hl
  case known =>
    intro t' ht' j hj
    rw [hready, List.mem_append] at ht'
    rw [hsize]
    cases ht'
    case inl ht' => exact h.known t' (hr ▸ List.mem_cons_of_mem _ ht') j hj
    case inr ht' =>
      obtain rfl : r = j := by simpa [hj, eq_comm] using hq t' ht'
      exact .inr (Array.getElem?_eq_some_iff.mp hd).1
  case tended =>
    intro j x hx
    rw [hdisp] at hx
    rw [hready]
    split at hx
    case isTrue hj =>
      subst hj
      exact Option.some.inj hx ▸ (hr ▸ h.tended r d hd).life hlife
    case isFalse hj =>
      have hx := (hr ▸ h.tended j x hx).tail (by simpa [ht] using hj)
      exact hx.append fun t' ht' htj => absurd (by simpa [htj, eq_comm] using hq t' ht') hj
  case kept =>
    intro j x hx hw
    rw [hk]
    rw [hdisp] at hx
    split at hx
    case isFalse   => exact h.kept j x hx hw
    case isTrue hj =>
      subst hj
      obtain rfl := Option.some.inj hx
      obtain ⟨hc, he⟩ := hlife.lasts
      rw [hc, hlife.ages.2.1]
      exact h.kept r d hd fun h => hw (he h)

theorem turn (h : s.Attended) (hr : s.ready = t :: rest) (ht : Takes { s with ready := rest } t s') :
    s'.Attended := by
  rcases ht.sends_or_lives with ⟨⟨c, h'⟩, hn⟩ | ⟨r, d, hreq, hd, h'⟩
  case inl => exact (h.popped hr hn).sends h'
  case inr => exact h.lives hr hreq hd h'

theorem acts (h : s.Attended) (ha : Acts s s') : s'.Attended := by
  have hsound := h.sound.acts ha
  cases ha
  case moves h' => exact h.moves h'
  case cancel   => exact ⟨hsound, h.known, h.tended, h.kept⟩
  case provide call hc =>
    have hn : ∀ t ∈ [Turn.startCall s.calls.size], ∀ r, t.request? ≠ some r := by simp [Turn.request?]
    constructor
    case sound  => exact hsound
    case kept   => exact h.kept
    case known  =>
      intro t ht r hr
      exact (List.mem_append.mp ht).elim (h.known t · r hr) fun ht => absurd hr (hn t ht r)
    case tended => exact fun r d hd => (h.tended r d hd).append fun t ht hr => absurd hr (hn t ht r)

theorem after (h : s.Attended) (e : Event) : (s.after e).Attended := by
  rcases h.sound.after_cases e with ha | ⟨t, rest, _, hr, ht⟩
  case inl => exact h.acts ha
  case inr => exact h.turn hr ht

theorem reaches {settings : Setup} {backend : Backend} {features : Option LanguageFeatures}
    (h : (Service.start settings backend features).Reaches s) : s.Attended :=
  h.induct start fun _ e hs => hs.after e

-- When no turn is left to come, all that was to stop has stopped.
theorem ended_of_cancelled (h : s.Attended) (hr : s.ready = []) (hd : s.dispatches[r]? = some d)
    (hc : d.cancelled = true) : d.watch = .ended := by
  have ht := hr ▸ h.tended r d hd
  exact ht.ended_or_watching.resolve_right (ht.cancelled hc)

end Attended
end GhostText.Service
