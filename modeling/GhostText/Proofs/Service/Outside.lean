import GhostText.Proofs.Service.MirroredEdits
import GhostText.Proofs.Service.Touches

namespace GhostText.Service

open Relation

variable {ρ : Renaming} {uri uri' : Text} {s s' t : Service} {b c i k r : Nat} {x : Turn}

theorem Turn.strange_of_request? {calls numbers : Nat} (hx : x.request? = some r) (hr : Foreign ρ.number numbers r) :
    x.Strange ρ calls numbers := by
  cases x
  case ring b =>
    cases b
    case call => simp [Turn.request?] at hx
    all_goals exact Option.some.inj hx ▸ hr
  all_goals first | exact Option.some.inj hx ▸ hr | simp [Turn.request?] at hx

-- Nothing that is known is for another document.
theorem Bell.Strange.ne {x y z : Bell} {calls numbers : Nat} (hx : x.Strange ρ calls numbers) (hy : y.Same ρ z) :
    y ≠ x := by
  rintro rfl
  cases hy <;> simp_all [Bell.Strange, Foreign]

-- A backend that is steady is no other after it has been asked.
theorem Hears.backend {d : Dispatch} {delivery : Delivery} {b : Backend} (hs : s.backend.answers.Steady)
    (h : Hears s r d x delivery b) :
    b = { s.backend with received := b.received, givenUp := b.givenUp } := by
  cases h
  case atOnce =>
    have ha : ((s.backend.receive d.request).answer d.request).2 = s.backend.receive d.request :=
      answer_of_steady (b := s.backend.receive d.request) hs d.request
    rw [ha]
    rfl
  case atLast => rw [answer_of_steady hs]
  case rest   => rfl

theorem Does.backend {d : Dispatch} {e : Deed} (hs : s.backend.answers.Steady) (h : Does s r x d e) :
    e.backend = { s.backend with received := e.backend.received, givenUp := e.backend.givenUp } := by
  cases h
  case read hh => exact hh.backend hs
  all_goals rfl

namespace Mirrors

variable (h : Mirrors ρ uri s t)
include h

theorem noteAll_other (ns : List Notice) : Mirrors ρ uri (s.noteAll ns) t := by
  rw [noteAll_eq]
  exact { h with }

theorem queue_other (hx : x.Strange ρ s.calls.size s.dispatches.size) : Mirrors ρ uri (s.queue x) t :=
  { h with ready := h.ready.append_others fun _ hy => List.mem_singleton.mp hy ▸ hx }

theorem setAlarm_other (delay : Nat) {b : Bell} (hb : b.Strange ρ s.calls.size s.dispatches.size) :
    Mirrors ρ uri (s.setAlarm delay b) t :=
  { h with alarms := h.alarms.append_others fun a ha => by rwa [List.mem_singleton.mp ha] }

theorem dropAlarm_other {b : Bell} (hb : b.Strange ρ s.calls.size s.dispatches.size) :
    Mirrors ρ uri (s.dropAlarm b) t :=
  { h with alarms := h.alarms.filter_others fun a _ ha => by simpa using hb.ne ha.bell }

theorem setCall_other (hc : ρ.call c = none) {stage : Stage}
    (hs : ∀ i ∈ stage.session?, Foreign ρ.session s.sessions.size i) : Mirrors ρ uri (s.setCall c stage) t :=
  { h with
    calls  := h.calls.of_unknown fun k hk => by
      have hne : c ≠ k := by
        rintro rfl
        exact hk hc
      simp [Service.setCall, Array.getElem?_modify, hne]
    order  := by simpa [Service.setCall] using h.order
    ready  := by simpa [Service.setCall] using h.ready
    alarms := by simpa [Service.setCall] using h.alarms
    others := fun k call hk hn => by
      simp only [Service.setCall, Array.getElem?_modify] at hk
      split at hk
      case isFalse => exact h.others k call hk hn
      case isTrue  =>
        obtain ⟨call', hk', rfl⟩ := Option.map_eq_some_iff.mp hk
        exact ⟨(h.others k call' hk' hn).1, hs⟩ }

theorem setSession_other (hi : ρ.session i = none) {session : Session}
    (hk : ∀ k ∈ session.cache.keys, Foreign ρ.number s.dispatches.size k) : Mirrors ρ uri (s.setSession i session) t :=
  { h with
    sessions := h.sessions.of_unknown fun j hj => by
      have hne : i ≠ j := by
        rintro rfl
        exact hj hi
      simp [Service.setSession, hne]
    others   := by simpa [Service.setSession] using h.others
    homes    := by simpa [Service.setSession, Service.session?] using h.homes
    kept     := fun j hj k hm => by
      simp only [Service.kept, Service.setSession, Array.getElem?_setIfInBounds] at hm
      split at hm
      case isFalse => exact h.kept j hj k hm
      case isTrue  =>
        split at hm
        case isTrue  => exact hk k hm
        case isFalse => simp at hm }

-- A request that is not known takes on another state.
theorem dispatches_other {dispatches : Array Dispatch} (hsize : dispatches.size = s.dispatches.size)
    (hd : ∀ r : Nat, ρ.number r ≠ none → dispatches[r]? = s.dispatches[r]?) :
    Mirrors ρ uri { s with dispatches } t :=
  { h with
    dispatches := h.dispatches.of_unknown hd
    ready      := hsize ▸ h.ready
    alarms     := hsize ▸ h.alarms
    kept       := hsize ▸ h.kept }

theorem cancelRequest_other (hk : Foreign ρ.number s.dispatches.size k) : Mirrors ρ uri (s.cancelRequest k) t := by
  have hd : Mirrors ρ uri { s with dispatches := s.dispatches.modify k fun d => (d.stop k).1 } t := by
    refine h.dispatches_other (by simp) fun r hr => ?_
    have hne : k ≠ r := by
      rintro rfl
      exact hr hk.1
    simp [Array.getElem?_modify, hne]
  rw [cancelRequest_eq]
  refine { hd with ready := hd.ready.append_others fun x hx => ?_ }
  cases hs : s.dispatches[k]?
  case none   => simp [hs] at hx
  case some d =>
    have hq : x = .resumeRequest k := by
      rcases d.stop_cases k with ⟨he, _⟩ | ⟨he, _⟩ | ⟨he, _⟩ | ⟨he, _⟩ <;> simp_all
    rw [hq, Array.size_modify]
    exact hk

-- A number that is taken now is not known.
theorem enlist_other (d : Dispatch) : Mirrors ρ uri (s.enlist d) t := by
  have hforeign {k : Nat} (hk : Foreign ρ.number s.dispatches.size k) :
      Foreign ρ.number (s.dispatches.push d).size k :=
    hk.mono (by simp)
  have hpush : Mirrors ρ uri (s.addDispatch d) t :=
    { h with
      dispatches := h.dispatches.push_unknown d
      ready      := h.ready_mono (.refl ρ) (fun _ => id) fun _ => hforeign
      alarms     := h.alarms_mono (.refl ρ) (fun _ => id) fun _ => hforeign
      kept       := fun i hi k hk => hforeign (h.kept i hi k hk) }
  have hnew : Foreign ρ.number (s.addDispatch d).dispatches.size s.dispatches.size :=
    ⟨h.dispatches.next, by simp [Service.addDispatch]⟩
  have hqueue := hpush.queue_other (x := .startRequest s.dispatches.size) hnew
  exact { hqueue with }

-- A known call awaits no request that is not known.
theorem call_eq_none_of_awaits (hr : ρ.number r = none) (ha : s.awaits r c = true) : ρ.call c = none := by
  cases hc : ρ.call c
  case none   => rfl
  case some k =>
    obtain ⟨x, y, hx, hy, _, hxy⟩ := h.calls.found c k hc
    have hs := hxy.stage
    simp only [Service.awaits, stage?, hx, Option.map_some] at ha
    generalize x.stage = xs at hs ha
    generalize y.stage = ys at hs
    cases hs
    case awaiting hr' => simp_all
    all_goals simp at ha

-- A turn of a request that is not known.
theorem perform_other (hr : Foreign ρ.number s.dispatches.size r) {d : Dispatch} {e : Deed} (hd : Does s r x d e) :
    Mirrors ρ uri (s.perform r e) t := by
  have hdispatches : Mirrors ρ uri { s with dispatches := s.dispatches.setIfInBounds r e.dispatch } t := by
    refine h.dispatches_other (by simp) fun k hk => ?_
    have hne : r ≠ k := by
      rintro rfl
      exact hk hr.1
    simp [hne]
  have hstrange (b : Bell) (hb : b = .answer r ∨ b = .deadline r) :
      b.Strange ρ s.calls.size (s.dispatches.setIfInBounds r e.dispatch).size := by
    rw [Array.size_setIfInBounds]
    rcases hb with rfl | rfl <;> exact hr
  refine
    { hdispatches with
      backend := by
        rw [Service.perform, hd.backend h.steady]
        exact h.backend
      steady  := by
        rw [Service.perform, hd.backend h.steady]
        exact h.steady
      ready   := hdispatches.ready.append_others fun y hy => ?_
      alarms  := ?_ }
  case refine_1 =>
    rw [Array.size_setIfInBounds]
    rcases List.mem_append.mp hy with hy | hy
    case inr => exact Turn.strange_of_request? (hd.turns y hy) hr
    case inl =>
      split at hy
      case isFalse => simp at hy
      case isTrue  =>
        obtain ⟨c, hc, rfl⟩ := List.mem_map.mp hy
        obtain ⟨hc, ha⟩ := List.mem_filter.mp hc
        exact ⟨h.call_eq_none_of_awaits hr.1 ha, List.mem_range.mp hc⟩
  case refine_2 =>
    have hbells := hd.bells
    refine Embeds.append_others ?_ fun a ha => ?_
    case refine_1 =>
      cases hdrop : e.dropped?
      case none   => exact hdispatches.alarms
      case some b => exact (hdispatches.dropAlarm_other (hstrange b (hbells.1 b hdrop))).alarms
    case refine_2 =>
      simp only [Option.mem_toList, Option.map_eq_some_iff] at ha
      obtain ⟨x, hx, rfl⟩ := ha
      exact hstrange x.2 (hbells.2 x hx)

theorem sessionFor_other (hu : uri' ≠ uri) : Mirrors ρ uri (s.sessionFor uri').1 t ∧
    (s.sessionFor uri').1.calls = s.calls ∧
    Foreign ρ.session (s.sessionFor uri').1.sessions.size (s.sessionFor uri').2 := by
  cases hs : s.session? uri'
  case some i =>
    rw [sessionFor_of_some hs]
    exact ⟨h, rfl, h.homes uri' hu i hs⟩
  case none   =>
    have hforeign {i : Nat} (hi : Foreign ρ.session s.sessions.size i) : Foreign ρ.session (s.sessions.size + 1) i :=
      hi.mono (Nat.le_succ _)
    have hnew : Foreign ρ.session (s.sessions.size + 1) s.sessions.size := ⟨h.sessions.next, Nat.lt_succ_self _⟩
    simp only [Service.sessionFor, hs, Array.size_push]
    refine ⟨{ h with
      sessions := h.sessions.push_unknown _
      current  := ?_
      others   := fun c call hc hn => ?_
      kept     := fun i hi k hk => ?_
      homes    := fun uri'' hu' i hi => ?_ }, trivial, hnew⟩
    case refine_1 => simpa [Service.session?, lookup_append_self hs, hu.symm] using h.current
    case refine_2 =>
      have := h.others c call hc hn
      exact ⟨this.1, fun i hi => by simpa using hforeign (this.2 i hi)⟩
    case refine_3 =>
      refine h.kept i hi k ?_
      simp only [Service.kept, Array.getElem?_push] at hk
      split at hk
      case isTrue  => simp [Cache.keys] at hk
      case isFalse => exact hk
    case refine_4 =>
      simp only [Service.session?, lookup_append_self hs] at hi
      rw [Array.size_push]
      split at hi
      case isTrue  => exact Option.some.inj hi ▸ hnew
      case isFalse => exact hforeign (h.homes uri'' hu' i hi)

omit h

-- The smallest changes for a call and in a session that are not known.
theorem stroke_other {x : Option Nat} (hst : Stroke x i s s') (h : Mirrors ρ uri s t)
    (hc : ∀ c ∈ x, Foreign ρ.call s.calls.size c) (hi : Foreign ρ.session s.sessions.size i) :
    Mirrors ρ uri s' t ∧ (∀ c ∈ x, Foreign ρ.call s'.calls.size c) ∧ Foreign ρ.session s'.sessions.size i := by
  cases hst
  case noteAll ns        => exact ⟨h.noteAll_other ns, by rwa [calls_noteAll], by rwa [noteAll_eq]⟩
  case count             => exact ⟨{ h with }, hc, hi⟩
  case resume hx         => exact ⟨h.queue_other (hc _ hx), hc, hi⟩
  case setAlarm hx delay => exact ⟨h.setAlarm_other delay (hc _ hx), hc, hi⟩
  case setCall hx hj _   =>
    exact ⟨h.setCall_other (hc _ hx).1 fun j hm => hj j hm ▸ hi, by simpa [Service.setCall] using hc, hi⟩
  case stop hk           =>
    have hsessions := sessions_cancelRequest s
    exact ⟨h.cancelRequest_other (h.kept i hi.1 _ hk), by rwa [calls_cancelRequest], by rwa [hsessions]⟩
  case enlist d _ _      => exact ⟨h.enlist_other d, hc, hi⟩
  case setSession hu hk  =>
    refine ⟨h.setSession_other hi.1 fun k hm => ?_, hc, by simpa [Service.setSession] using hi⟩
    rcases hk k hm with hk | ⟨d, hd, rfl⟩
    case inl => exact h.kept i hi.1 k (by simpa [Service.kept, hu] using hk)
    case inr =>
      refine ⟨?_, (Array.getElem?_eq_some_iff.mp hd).1⟩
      cases hn : ρ.number k
      case none   => rfl
      case some j =>
        obtain ⟨d', _, hd', _, hsame⟩ := h.dispatches.found k j hn
        obtain rfl := Option.some.inj (hd ▸ hd')
        exact absurd hi.1 hsame.session

theorem strokes_other {x : Option Nat} (hst : Strokes x i s s') (h : Mirrors ρ uri s t)
    (hc : ∀ c ∈ x, Foreign ρ.call s.calls.size c) (hi : Foreign ρ.session s.sessions.size i) :
    Mirrors ρ uri s' t := by
  have hall : Mirrors ρ uri s' t ∧ (∀ c ∈ x, Foreign ρ.call s'.calls.size c) ∧
      Foreign ρ.session s'.sessions.size i := by
    induction hst
    case refl          => exact ⟨h, hc, hi⟩
    case tail _ hst ih => exact stroke_other hst ih.1 ih.2.1 ih.2.2
  exact hall.1

theorem startCall_other (h : Mirrors ρ uri s t) (hc : Foreign ρ.call s.calls.size c) {call : Call}
    (hu : call.uri ≠ uri) : Mirrors ρ uri (s.startCall c call) t := by
  simp only [Service.startCall]
  split
  case h_2 => exact h
  case h_1 =>
    split
    case isFalse => exact h.setCall_other hc.1 (by simp [Stage.session?])
    case isTrue  =>
      obtain ⟨h', hcalls, hi⟩ := h.sessionFor_other hu
      refine strokes_other (.seek s c call) h' (fun c' hc' => ?_) hi
      rw [hcalls, ← Option.some.inj hc']
      exact hc

theorem resumeCall_other (h : Mirrors ρ uri s t) (hc : Foreign ρ.call s.calls.size c) {call : Call}
    (hf : call.stage.Fits) (hs : ∀ i ∈ call.stage.session?, Foreign ρ.session s.sessions.size i) :
    Mirrors ρ uri (s.resumeCall c call) t := by
  cases hi : call.stage.session?
  case none   => rwa [resumeCall_of_session?_eq_none hi]
  case some i =>
    have hsession (j : Nat) (hj : j ∈ call.stage.session?) : j = i := Option.some.inj (hj ▸ hi)
    exact strokes_other (.resumeCall hsession hf) h (fun c' hc' => Option.some.inj hc' ▸ hc) (hs i hi)

-- A turn that is not known leaves what is known as it is.
theorem takeTurn_other (h : Mirrors ρ uri s t) (hf : s.Fitted)
    (hp : ∀ (r : Nat) (d : Dispatch), s.dispatches[r]? = some d → d.watch ≠ .ended → d.prediction.isPending = true)
    {x : Turn} (hx : x.Strange ρ s.calls.size s.dispatches.size) : Mirrors ρ uri (s.takeTurn x) t := by
  have hperform {r : Nat} (hreq : x.request? = some r) (hr : Foreign ρ.number s.dispatches.size r) :
      Mirrors ρ uri (s.takeTurn x) t := by
    obtain ⟨d, hd⟩ : ∃ d, s.dispatches[r]? = some d := ⟨_, Array.getElem?_eq_getElem hr.2⟩
    obtain ⟨e, he, hs⟩ := Performs.takeTurn hreq hd (hp r d hd)
    rw [hs]
    exact { h.perform_other hr he with }
  have hcall {c : Nat} (hc : Foreign ρ.call s.calls.size c) {f : Call → Service}
      (hcf : ∀ call, s.calls[c]? = some call → Mirrors ρ uri (f call) t) : Mirrors ρ uri (s.withCall c f) t := by
    simp only [withCall]
    split
    case h_1 call hs => exact hcf call hs
    case h_2         => exact h
  cases x
  case startCall c  => exact hcall hx fun call hs => h.startCall_other hx (h.others c call hs hx.1).1
  case resumeCall c =>
    refine hcall hx fun call hs => h.resumeCall_other hx ?_ (h.others c call hs hx.1).2
    exact hf c call.stage (by simp [stage?, hs])
  case relay c =>
    refine hcall hx fun call _ => ?_
    simp only [Service.relay]
    split
    case h_1 => exact h.queue_other hx
    case h_2 => exact h
  case ring b =>
    cases b
    case call c     => exact h.queue_other hx
    case answer r   => exact hperform rfl hx
    case deadline r => exact hperform rfl hx
  all_goals exact hperform rfl hx

section Editing

variable (h : Mirrors ρ uri s t)
include h

theorem openBuffer_other (hu : uri' ≠ uri) (text : Text) : Mirrors ρ uri (s.openBuffer uri' text) t := by
  have hforeign {b : Nat} (hb : Foreign ρ.buffer s.buffers.size b) : Foreign ρ.buffer (s.buffers.size + 1) b :=
    hb.mono (Nat.le_succ _)
  have hnew : Foreign ρ.buffer (s.buffers.size + 1) s.buffers.size := ⟨h.buffers.next, Nat.lt_succ_self _⟩
  have hl {v : Text} (hv : v ≠ uri') : (s.openBuffer uri' text).opened.lookup v = s.opened.lookup v := by
    simp only [Service.openBuffer, List.lookup_cons, beq_eq_false_iff_ne.mpr hv, Closes.lookup_filter hv]
  refine
    { h with
      buffers := h.buffers.push_unknown _
      opened  := hl hu.symm ▸ h.opened
      places  := fun v hv b hb => ?_ }
  simp only [Service.openBuffer, Array.size_push]
  by_cases hv' : v = uri'
  case pos =>
    have : s.buffers.size = b := by simpa [Service.openBuffer, hv'] using hb
    exact this ▸ hnew
  case neg => exact hforeign (h.places v hv b (hl hv' ▸ hb))

theorem edit_other (hu : uri' ≠ uri) (span : Span) (text : Text) : Mirrors ρ uri (s.edit uri' span text).1 t := by
  simp only [Service.edit]
  split
  case h_1 => exact h
  case h_2 b document hb =>
    have hforeign := h.places uri' hu b (buffer?_eq_some_iff.mp hb).1
    refine
      { h with
        buffers := h.buffers.of_unknown fun b' hb' => ?_
        places  := by simpa using h.places }
    have hne : b ≠ b' := by
      rintro rfl
      exact hb' hforeign.1
    simp [hne]

theorem provide_other (hu : uri' ≠ uri) (position : Position) : Mirrors ρ uri (s.provide uri' position) t := by
  simp only [Service.provide]
  split
  case h_1 => exact h
  case h_2 b _ _ =>
    have hforeign {c : Nat} (hc : Foreign ρ.call s.calls.size c) : Foreign ρ.call (s.calls.size + 1) c :=
      hc.mono (Nat.le_succ _)
    have hnew : Foreign ρ.call (s.calls.size + 1) s.calls.size := ⟨h.calls.next, Nat.lt_succ_self _⟩
    have hpush : Mirrors ρ uri { s with calls := s.calls.push { uri := uri', buffer := b, position } } t := by
      refine
        { h with
          calls  := h.calls.push_unknown _
          order  := ?_
          ready  := by
            rw [Array.size_push]
            exact h.ready_mono (.refl ρ) (fun _ => hforeign) fun _ => id
          alarms := by
            rw [Array.size_push]
            exact h.alarms_mono (.refl ρ) (fun _ => hforeign) fun _ => id
          others := fun c call hc hn => ?_ }
      case refine_1 =>
        rw [Array.size_push, List.range_succ]
        exact (h.order.mono (fun _ _ => id) fun _ => hforeign).append_others fun c hc => List.mem_singleton.mp hc ▸ hnew
      case refine_2 =>
        rw [Array.getElem?_push] at hc
        split at hc
        case isFalse => exact h.others c call hc hn
        case isTrue  =>
          obtain rfl := Option.some.inj hc
          exact ⟨hu, by simp [Stage.session?]⟩
    refine hpush.queue_other ?_
    rw [Array.size_push]
    exact hnew

theorem cancelCall_other (hc : ρ.call c = none) : Mirrors ρ uri (s.cancelCall c).1 t := by
  simp only [Service.cancelCall]
  split
  case h_4 hs =>
    have hlt : c < s.calls.size := lt_size_of_stage? hs
    refine (h.dropAlarm_other ?_).setCall_other hc (by simp [Stage.session?])
    exact ⟨hc, hlt⟩
  all_goals exact h

theorem free_other (hu : uri' ≠ uri) (position : Position) (shown : Option (List Int)) :
    Mirrors ρ uri (s.free uri' position shown).1 t := by
  cases hi : s.session? uri'
  case none   => simpa [Service.free, hi] using h
  case some i => exact strokes_other (x := none) (.free position shown hi) h (by simp) (h.homes uri' hu i hi)

theorem close_other (hu : uri' ≠ uri) : Mirrors ρ uri (s.close uri') t := by
  simp only [Service.close]
  split
  case h_1     => exact h
  case h_2 i hi =>
    have hclosed : Mirrors ρ uri { s with current := s.current.filter (·.1 ≠ uri') } t :=
      { h with
        current := by
          simp only [session?, Closes.lookup_filter hu.symm]
          exact h.current
        homes   := fun v hv i hi => h.homes v hv i (Closes.lookup_of_filter hi) }
    exact strokes_other (x := none) (.clear _ i) hclosed (by simp) (h.homes uri' hu i hi)

end Editing

theorem session?_close_self (s : Service) (uri : Text) : (s.close uri).session? uri = none := by
  simp only [Service.close]
  split
  case h_1 hi => exact hi
  case h_2 i _ =>
    have hw : Within 0 i _ _ := .clear { s with current := s.current.filter (·.1 ≠ uri) } i
    rw [hw.session?]
    exact Closes.lookup_filter_self uri s.current

theorem close_of_none (hs : s.session? uri = none) : s.close uri = s := by
  simp only [Service.close, hs]

-- Documents are closed, the one among them if it is open.
theorem closeAll {uris : List Text} (h : Mirrors ρ uri s t) (hm : uri ∈ uris ∨ t.session? uri = none) :
    Mirrors ρ uri (uris.foldl Service.close s) (t.close uri) := by
  induction uris generalizing s t
  case nil =>
    rw [close_of_none (hm.resolve_left List.not_mem_nil)]
    exact h
  case cons uri' uris ih =>
    by_cases hu : uri' = uri
    case neg => exact ih (h.close_other hu) (hm.imp_left fun hm => (List.mem_cons.mp hm).resolve_left (Ne.symm hu))
    case pos =>
      subst hu
      have hgone := session?_close_self t uri'
      have hrest := ih h.close (.inr hgone)
      rwa [close_of_none hgone] at hrest

theorem mem_keys_or_session?_eq_none (s : Service) (uri : Text) :
    uri ∈ s.current.map (·.1) ∨ s.session? uri = none := by
  rw [Decidable.or_iff_not_imp_left, Service.session?, List.lookup_eq_none_iff]
  exact fun hm x hx => bne_iff_ne.mpr fun hu => hm (List.mem_map.mpr ⟨x, hx, hu.symm⟩)

-- To close a document again and again is to close it.
theorem closeAll_eq {uris : List Text} (hu : ∀ uri' ∈ uris, uri' = uri)
    (hm : uri ∈ uris ∨ t.session? uri = none) : uris.foldl Service.close t = t.close uri := by
  induction uris generalizing t
  case nil => exact (close_of_none (hm.resolve_left List.not_mem_nil)).symm
  case cons uri' uris ih =>
    obtain rfl := hu uri' List.mem_cons_self
    have hgone := session?_close_self t uri'
    rw [List.foldl_cons, ih (fun v hv => hu v (List.mem_cons_of_mem _ hv)) (.inr hgone), close_of_none hgone]

theorem dispose (h : Mirrors ρ uri s t) : Mirrors ρ uri s.dispose t.dispose := by
  have hkeys : ∀ uri' ∈ t.current.map (·.1), uri' = uri := fun uri' hm => by
    refine Decidable.byContradiction fun hu => ?_
    obtain ⟨x, hx, rfl⟩ := List.mem_map.mp hm
    have := List.lookup_eq_none_iff.mp (h.alone x.1 hu) x hx
    simp at this
  have ht : t.dispose = t.close uri := closeAll_eq hkeys (mem_keys_or_session?_eq_none t uri)
  rw [ht]
  refine h.closeAll ((mem_keys_or_session?_eq_none s uri).imp_right fun hs => ?_)
  have hcur := h.current
  rw [hs] at hcur
  cases ht : t.session? uri
  case none   => rfl
  case some i =>
    rw [ht] at hcur
    nomatch hcur

-- The clock goes on, and the same alarms ring.
theorem advanceTo (h : Mirrors ρ uri s t) (time : Nat) : Mirrors ρ uri (s.advanceTo time) (t.advanceTo time) := by
  have hdue (a a' : Alarm) (ha : a.Same ρ a') : a'.due = a.due := ha.due
  refine
    { h with
      now    := by rw [Service.advanceTo, Service.advanceTo, h.now]
      ready  := h.ready.append ?_
      alarms := h.alarms.filter fun a a' ha => by rw [hdue a a' ha]
      ahead  := fun a ha => ?_ }
  case refine_1 =>
    simp only [Service.rings, h.settings, h.inTurn, Chime.inTurn]
    exact (h.alarms.filter fun a a' ha => by rw [hdue a a' ha]).map (fun _ _ ha => .ring ha.bell) fun _ ha => ha
  case refine_2 =>
    obtain ⟨hm, hlt⟩ := List.mem_filter.mp ha
    exact Nat.max_le.mpr ⟨h.ahead a hm, Nat.le_of_lt (by simpa using hlt)⟩

end Mirrors
end GhostText.Service
