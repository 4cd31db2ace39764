import GhostText.Proofs.Service.Locality
import GhostText.Proofs.Service.Runs
import GhostText.Proofs.Service.Closing

namespace GhostText.Service

variable {s s' : Service} {uri : Text} {c i : Nat}

-- The documents have sessions of their own, and a call that waits in one of them is a call for its document.
structure Owned (s : Service) : Prop where
  lt_size  : ∀ uri i, s.session? uri = some i → i < s.sessions.size
  distinct : ∀ uri uri' i, s.session? uri = some i → s.session? uri' = some i → uri = uri'
  calls    : ∀ (c : Nat) (call : Call), s.calls[c]? = some call → ∀ i ∈ call.stage.session?,
    i < s.sessions.size ∧ ∀ uri, s.session? uri = some i → uri = call.uri
  numbered : ∀ (r : Nat) (d : Dispatch), s.dispatches[r]? = some d → d.prediction.id = r
  started  : ∀ c, .startCall c ∈ s.ready → ∃ call, s.calls[c]? = some call

theorem session?_congr (h : s'.current = s.current) (uri : Text) : s'.session? uri = s.session? uri := by
  rw [session?, h, session?]

theorem Within.session? (h : Within c i s s') (uri : Text) : s'.session? uri = s.session? uri :=
  session?_congr h.current uri

theorem sessionFor_of_some (h : s.session? uri = some i) : s.sessionFor uri = (s, i) := by
  simp [sessionFor, h]

theorem buffer?_eq_some_iff {b : Nat} {document : Document} :
    s.buffer? uri = some (b, document) ↔ s.opened.lookup uri = some b ∧ s.buffers[b]? = some document := by
  simp [buffer?, Option.bind_eq_some_iff]

theorem session?_sessionFor (s : Service) (uri uri' : Text) : (s.sessionFor uri).1.session? uri' =
    if uri' = uri then some (s.sessionFor uri).2 else s.session? uri' := by
  cases h : s.session? uri
  case some i => grind [sessionFor_of_some h]
  case none   =>
    have hs : s.sessionFor uri = ({ s with
        sessions := s.sessions.push { cache := { maxSize := s.settings.cacheSize.toNat } },
        current := s.current ++ [(uri, s.sessions.size)] }, s.sessions.size) := by
      simp [sessionFor, h]
    simp only [hs, Service.session?, List.lookup_append, List.lookup_cons, List.lookup_nil] at h ⊢
    by_cases hu : uri' = uri
    case pos => simp [hu, h]
    case neg => simp [hu, beq_eq_false_iff_ne.mpr hu]

namespace Owned

theorem exists_session (h : s.Owned) (hi : s.session? uri = some i) : ∃ session, s.sessions[i]? = some session :=
  ⟨_, Array.getElem?_eq_getElem (h.lt_size uri i hi)⟩

theorem start {settings : Setup} {backend : Backend} {features : Option LanguageFeatures} :
    (start settings backend features).Owned := by
  constructor <;> simp [Service.start, note, Service.session?]

theorem of_eq (h : s.Owned) (h₁ : s'.current = s.current) (h₂ : s'.sessions.size = s.sessions.size)
    (h₃ : s'.calls = s.calls) (h₄ : s'.dispatches = s.dispatches)
    (h₅ : ∀ c, .startCall c ∈ s'.ready → .startCall c ∈ s.ready) : s'.Owned := by
  have hs := session?_congr h₁
  constructor
  case lt_size  => simpa only [h₂, hs] using h.lt_size
  case distinct => simpa only [hs] using h.distinct
  case calls    => simpa only [h₂, h₃, hs] using h.calls
  case numbered => simpa only [h₄] using h.numbered
  case started  => exact fun c hc => h₃ ▸ h.started c (h₅ c hc)

theorem within (h : s.Owned) (hw : Within c i s s')
    (hc : ∀ call, s.calls[c]? = some call → i < s.sessions.size ∧ ∀ uri, s.session? uri = some i → uri = call.uri) :
    s'.Owned := by
  constructor
  case lt_size  => simpa only [hw.size, hw.session?] using h.lt_size
  case distinct => simpa only [hw.session?] using h.distinct
  case calls    =>
    intro k call hk j hj
    rw [hw.size]
    simp only [hw.session?]
    rcases hw.calls k with he | ⟨hkc, stage, hi, he⟩
    case inl => exact h.calls k call (he ▸ hk) j hj
    case inr =>
      rw [hk] at he
      obtain ⟨call', hk', rfl⟩ := Option.map_eq_some_iff.mp he.symm
      exact hi j hj ▸ hc call' (hkc ▸ hk')
  case numbered =>
    intro r d hd
    cases hr : s.dispatches[r]?
    case none    => exact (hw.sent r d hd hr).2
    case some d₀ =>
      obtain ⟨d', hd', _, ha⟩ := hw.dispatches r d₀ hr
      obtain rfl := Option.some.inj (hd ▸ hd')
      exact (congrArg (·.id) ha.asked).trans (h.numbered r d₀ hr)
  case started =>
    intro k hk
    obtain ⟨q, hq, hn⟩ := hw.ready
    rw [hq, List.mem_append, or_iff_left (hn k)] at hk
    obtain ⟨call, hcall⟩ := h.started k hk
    rcases hw.calls k with he | ⟨_, _, _, he⟩ <;> simp [he, hcall]

-- No call changes where there is none.
theorem within_size (h : s.Owned) (hw : Within s.calls.size i s s') : s'.Owned :=
  h.within hw (by simp)

-- A call that is over waits in no session.
theorem setCall (h : s.Owned) (c : Nat) {stage : Stage} (hs : stage.session? = none) : (s.setCall c stage).Owned where
  lt_size  := h.lt_size
  distinct := h.distinct
  calls    := fun k call hk j hj => by
    rw [Service.setCall, Array.getElem?_modify] at hk
    split at hk
    case isFalse => exact h.calls k call hk j hj
    case isTrue  =>
      obtain ⟨_, _, rfl⟩ := Option.map_eq_some_iff.mp hk
      simp [hs] at hj
  numbered := h.numbered
  started  := fun k hk => by
    obtain ⟨call, hcall⟩ := h.started k hk
    rw [Service.setCall, Array.getElem?_modify]
    split <;> simp [hcall]

theorem sessionFor (h : s.Owned) (uri : Text) : (s.sessionFor uri).1.Owned := by
  cases hu : s.session? uri
  case some i => rwa [sessionFor_of_some hu]
  case none   =>
    have hs (uri' : Text) : (s.sessionFor uri).1.session? uri' =
        if uri' = uri then some s.sessions.size else s.session? uri' := by
      simpa [Service.sessionFor, hu] using session?_sessionFor s uri uri'
    have hsize : (s.sessionFor uri).1.sessions.size = s.sessions.size + 1 := by simp [Service.sessionFor, hu]
    have hcalls : (s.sessionFor uri).1.calls = s.calls := by simp [Service.sessionFor, hu]
    have hlt := h.lt_size
    constructor
    case lt_size =>
      intro uri' j hj
      grind
    case distinct =>
      intro u v j hj hj'
      have hd := h.distinct u v j
      grind
    case calls =>
      intro c call hc j hj
      have := h.calls c call (hcalls ▸ hc) j hj
      grind
    case numbered => simpa [Service.sessionFor, hu] using h.numbered
    case started  => simpa [Service.sessionFor, hu] using h.started

theorem seek {call : Call} (h : s.Owned) (hc : s.calls[c]? = some call) : (s.seek c call).Owned := by
  have hs := h.sessionFor call.uri
  have hi : (s.sessionFor call.uri).1.session? call.uri = some (s.sessionFor call.uri).2 := by
    rw [session?_sessionFor, if_pos rfl]
  refine hs.within (.seek s c call) fun call' hc' => ⟨hs.lt_size _ _ hi, fun uri hu => ?_⟩
  rw [(Shifts.sessionFor (l := 0) s call.uri).2] at hc'
  obtain rfl := Option.some.inj (hc ▸ hc')
  exact hs.distinct _ _ _ hu hi

theorem takeTurn (h : s.Owned) (t : Turn) : (s.takeTurn t).Owned := by
  generalize hs : s.takeTurn t = s'
  cases hs ▸ extent_takeTurn s t
  case aside hw      => exact h.within_size (hw _ 0)
  case refuse        => exact h.setCall _ rfl
  case seek hc _ _   => exact h.seek hc
  case resume hc hi  =>
    refine h.within (.resumeCall fun j hj => Option.some.inj (hj ▸ hi)) fun call' hc' => ?_
    obtain rfl := Option.some.inj (hc ▸ hc')
    exact h.calls _ _ hc _ hi

theorem close (h : s.Owned) (uri : Text) : (s.close uri).Owned := by
  simp only [Service.close]
  split
  case h_1 => exact h
  case h_2 i _ =>
    refine within_size (i := i) ?_ (.clear _ i)
    have hl {u : Text} {j : Nat} (hu : (s.current.filter (·.1 ≠ uri)).lookup u = some j) : s.session? u = some j :=
      Closes.lookup_of_filter hu
    exact ⟨fun u j hj => h.lt_size u j (hl hj), fun u v j hj hj' => h.distinct u v j (hl hj) (hl hj'),
      fun c call hc j hj => ⟨(h.calls c call hc j hj).1, fun u hu => (h.calls c call hc j hj).2 u (hl hu)⟩,
      h.numbered, h.started⟩

theorem dispose (h : s.Owned) : s.dispose.Owned := by
  simp only [Service.dispose]
  generalize s.current.map (·.1) = uris
  induction uris generalizing s
  case nil              => exact h
  case cons uri uris ih => exact ih (h.close uri)

theorem after (h : s.Owned) (e : Event) : (s.after e).Owned := by
  cases e
  case turn =>
    simp only [Service.after, takeNext]
    split
    case h_1          => exact h
    case h_2 t rest hr =>
      refine takeTurn ?_ t
      exact h.of_eq rfl rfl rfl rfl fun c hc => hr ▸ List.mem_cons_of_mem t hc
  case advance time =>
    refine h.of_eq rfl rfl rfl rfl fun c hc => ?_
    simpa [Service.after, advanceTo] using hc
  case openBuffer uri t => exact h.of_eq rfl rfl rfl rfl fun _ => id
  case edit uri span t =>
    simp only [Service.after, edit]
    split
    case h_1 => exact h
    case h_2 => exact h.of_eq rfl rfl rfl rfl fun _ => id
  case provide uri position =>
    simp only [Service.after, Service.provide]
    split
    case h_1 => exact h
    case h_2 b _ _ =>
      have hc (c : Nat) (call : Call)
          (hc : (s.calls.push { uri, buffer := b, position })[c]? = some call) :
          c = s.calls.size ∧ call.stage = .queued ∨ s.calls[c]? = some call := by
        rw [Array.getElem?_push] at hc
        grind
      constructor
      case lt_size  => exact h.lt_size
      case distinct => exact h.distinct
      case numbered => exact h.numbered
      case calls    =>
        intro c call hk j hj
        rcases hc c call hk with ⟨_, hq⟩ | hk
        case inl => simp [hq, Stage.session?] at hj
        case inr => exact h.calls c call hk j hj
      case started =>
        intro c hk
        simp only [queue, List.mem_append, List.mem_singleton, Turn.startCall.injEq] at hk ⊢
        rw [Array.getElem?_push]
        rcases hk with hk | rfl
        case inr => simp
        case inl =>
          obtain ⟨call, hk⟩ := h.started c hk
          have hlt := (Array.getElem?_eq_some_iff.mp hk).1
          exact ⟨call, by simpa [Nat.ne_of_lt hlt] using hk⟩
  case cancel c =>
    simp only [Service.after, cancelCall]
    split
    case h_4 =>
      refine setCall ?_ c rfl
      exact h.of_eq rfl rfl rfl rfl fun _ => id
    all_goals exact h
  case free uri position shown =>
    cases hi : s.session? uri
    case none   => simpa [Service.after, Service.free, hi] using h
    case some i => exact h.within_size (.free position shown hi)
  case close uri => exact h.close uri
  case dispose   => exact h.dispose
  case serve b   => exact h.of_eq rfl rfl rfl rfl fun _ => id
  case assist f  => exact h.of_eq rfl rfl rfl rfl fun _ => id

theorem reaches {settings : Setup} {backend : Backend} {features : Option LanguageFeatures}
    (h : (Service.start settings backend features).Reaches s) : s.Owned :=
  h.induct start fun _ e hs => hs.after e

end Owned

theorem buffers_close (s : Service) (uri : Text) :
    (s.close uri).buffers = s.buffers ∧ (s.close uri).opened = s.opened := by
  simp only [close]
  split
  case h_1     => exact ⟨rfl, rfl⟩
  case h_2 i _ =>
    have hw := Within.clear (c := 0) { s with current := s.current.filter (·.1 ≠ uri) } i
    exact ⟨hw.buffers, hw.opened⟩

theorem buffers_dispose (s : Service) : s.dispose.buffers = s.buffers ∧ s.dispose.opened = s.opened := by
  simp only [dispose]
  generalize s.current.map (·.1) = uris
  induction uris generalizing s
  case nil              => exact ⟨rfl, rfl⟩
  case cons uri uris ih => exact ⟨(ih _).1.trans (buffers_close s uri).1, (ih _).2.trans (buffers_close s uri).2⟩

-- Buffers change only when they are edited.
theorem buffers_after {e : Event} (ho : ∀ uri t, e ≠ .openBuffer uri t) (he : ∀ uri span t, e ≠ .edit uri span t) :
    (s.after e).buffers = s.buffers ∧ (s.after e).opened = s.opened := by
  cases e
  case turn =>
    simp only [after, takeNext]
    split
    case h_1           => exact ⟨rfl, rfl⟩
    case h_2 t rest hr =>
      obtain ⟨_, hf⟩ := exists_fixed_takeTurn { s with ready := rest } t
      exact ⟨hf.buffers, hf.opened⟩
  case openBuffer uri t => exact absurd rfl (ho uri t)
  case edit uri span t  => exact absurd rfl (he uri span t)
  case provide uri position =>
    simp only [after, provide]
    split <;> exact ⟨rfl, rfl⟩
  case cancel c =>
    simp only [after, cancelCall]
    split <;> exact ⟨rfl, rfl⟩
  case free uri position shown =>
    cases hi : s.session? uri
    case none   => simp [after, free, hi]
    case some i =>
      have hw := Within.free (c := 0) position shown hi
      exact ⟨hw.buffers, hw.opened⟩
  case close uri => exact buffers_close s uri
  case dispose   => exact buffers_dispose s
  all_goals exact ⟨rfl, rfl⟩

theorem buffer?_after {e : Event} (ho : ∀ uri t, e ≠ .openBuffer uri t) (he : ∀ uri span t, e ≠ .edit uri span t)
    (uri : Text) : (s.after e).buffer? uri = s.buffer? uri := by
  obtain ⟨hbuffers, hopened⟩ := buffers_after (s := s) ho he
  rw [buffer?, hbuffers, hopened, buffer?]

end GhostText.Service
