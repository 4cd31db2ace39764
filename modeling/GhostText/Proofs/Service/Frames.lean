import GhostText.Proofs.Service.Sends

namespace GhostText.Service

variable {s s' s'' : Service} {q : List Turn} {c i r : Nat}

-- What stays of a request until its prediction is settled.
def Dispatch.origin (d : Dispatch) : Nat × Nat × Prediction :=
  (d.call, d.session, d.prediction)

-- Sessions stay, and count on. Caches only lose entries, and no turn is taken from the queue.
structure Frame (s s' : Service) : Prop where
  settings   : s'.settings = s.settings
  sessions   : ∀ (i : Nat) (session : Session), s.sessions[i]? = some session →
    ∃ session' : Session, s'.sessions[i]? = some session' ∧ session.generation ≤ session'.generation
  kept       : ∀ i, (s'.kept i).Sublist (s.kept i)
  dispatches : ∀ r : Nat, s'.dispatches[r]?.map Dispatch.origin = s.dispatches[r]?.map Dispatch.origin
  ready      : s.ready <+: s'.ready

theorem sessions_setSession {session session' : Session} (hi : s.sessions[i]? = some session)
    (hg : session.generation ≤ session'.generation) (j : Nat) (x : Session) (hj : s.sessions[j]? = some x) :
    ∃ x' : Session, (s.setSession i session').sessions[j]? = some x' ∧ x.generation ≤ x'.generation := by
  by_cases hij : i = j
  case pos =>
    obtain rfl := hij
    obtain rfl := Option.some.inj (hi ▸ hj)
    have hlt := (Array.getElem?_eq_some_iff.mp hi).1
    exact ⟨session', by simp [Service.setSession, hlt], hg⟩
  case neg => exact ⟨x, by simpa [Service.setSession, Array.getElem?_setIfInBounds, hij] using hj, Nat.le_refl _⟩

namespace Frame

theorem refl (s : Service) : Frame s s :=
  ⟨rfl, fun _ session h => ⟨session, h, Nat.le_refl _⟩, fun _ => .refl _, fun _ => rfl, List.prefix_refl _⟩

theorem trans (h₁ : Frame s s') (h₂ : Frame s' s'') : Frame s s'' where
  settings   := h₂.settings.trans h₁.settings
  sessions   := fun i session h => by
    obtain ⟨x, hx, hg⟩ := h₁.sessions i session h
    obtain ⟨y, hy, hg'⟩ := h₂.sessions i x hx
    exact ⟨y, hy, Nat.le_trans hg hg'⟩
  kept       := fun i => (h₂.kept i).trans (h₁.kept i)
  dispatches := fun r => (h₂.dispatches r).trans (h₁.dispatches r)
  ready      := h₁.ready.trans h₂.ready

theorem prediction? (h : Frame s s') (r : Nat) : s'.prediction? r = s.prediction? r := by
  have hd := congrArg (Option.map (·.2.2)) (h.dispatches r)
  simpa [Service.prediction?, Option.map_map, Function.comp_def, Dispatch.origin] using hd

theorem exists_dispatch (h : Frame s s') {d : Dispatch} (hd : s.dispatches[r]? = some d) :
    ∃ d', s'.dispatches[r]? = some d' ∧ d'.call = d.call ∧ d'.session = d.session ∧
      d'.prediction = d.prediction := by
  have hr := h.dispatches r
  rw [hd, Option.map_some, Option.map_eq_some_iff] at hr
  obtain ⟨d', hd', ho⟩ := hr
  simp only [Dispatch.origin, Prod.mk.injEq] at ho
  exact ⟨d', hd', ho⟩

theorem symm_dispatch (h : Frame s s') {d : Dispatch} (hd : s'.dispatches[r]? = some d) :
    ∃ d', s.dispatches[r]? = some d' ∧ d.call = d'.call ∧ d.session = d'.session ∧
      d.prediction = d'.prediction := by
  have hr := (h.dispatches r).symm
  rw [hd, Option.map_some, Option.map_eq_some_iff] at hr
  obtain ⟨d', hd', ho⟩ := hr
  simp only [Dispatch.origin, Prod.mk.injEq] at ho
  exact ⟨d', hd', ho.1.symm, ho.2.1.symm, ho.2.2.symm⟩

theorem size (h : Frame s s') : s'.dispatches.size = s.dispatches.size := by
  apply Nat.le_antisymm <;> apply Nat.le_of_not_lt <;> intro hlt
  case _ =>
    obtain ⟨_, hd, _⟩ := h.symm_dispatch (Array.getElem?_eq_getElem hlt)
    simp at hd
  case _ =>
    obtain ⟨_, hd, _⟩ := h.exists_dispatch (Array.getElem?_eq_getElem hlt)
    simp at hd

theorem of_extends (h : Extends q s s') : Frame s s' where
  settings   := h.settings
  sessions   := fun i session hi => ⟨session, by rw [h.sessions, hi], Nat.le_refl _⟩
  kept       := fun i => h.kept i ▸ .refl _
  dispatches := fun r => by rw [h.dispatches]
  ready      := by rw [h.ready]; exact List.prefix_append _ _

theorem setCall (s : Service) (c : Nat) (stage : Stage) : Frame s (s.setCall c stage) :=
  ⟨rfl, fun _ session h => ⟨session, h, Nat.le_refl _⟩, fun _ => .refl _, fun _ => rfl, List.prefix_refl _⟩

theorem setSession {session session' : Session} (hi : s.sessions[i]? = some session)
    (hg : session.generation ≤ session'.generation) (hk : session'.cache.keys.Sublist session.cache.keys) :
    Frame s (s.setSession i session') where
  settings   := rfl
  sessions   := sessions_setSession hi hg
  kept       := fun j => by
    rw [kept_setSession hi]
    split
    case isFalse    => exact .refl _
    case isTrue hij => simpa [← hij, Service.kept, hi] using hk
  dispatches := fun _ => rfl
  ready      := List.prefix_refl _

theorem cancelRequest (s : Service) (k : Nat) : Frame s (s.cancelRequest k) where
  settings   := by simp
  sessions   := fun i session hi => ⟨session, by simpa using hi, Nat.le_refl _⟩
  kept       := fun i => by rw [Service.kept, sessions_cancelRequest]; exact .refl _
  dispatches := fun r => by
    have ho (d : Dispatch) : (d.stop k).1.origin = d.origin := by
      unfold Dispatch.stop
      split
      case isTrue  => split <;> rfl
      case isFalse => rfl
    rw [getElem?_cancelRequest]
    split
    case isTrue  => simp [Option.map_map, Function.comp_def, ho]
    case isFalse => rfl
  ready      := by rw [cancelRequest_eq]; exact List.prefix_append _ _

theorem openSession (s : Service) (uri : Text) : Frame s (s.sessionFor uri).1 := by
  have hk (i : Nat) : ((s.sessionFor uri).1.kept i).Sublist (s.kept i) := kept_sessionFor s uri i ▸ .refl _
  revert hk
  simp only [sessionFor]
  split
  case h_1 => exact fun _ => refl s
  case h_2 =>
    intro hk
    refine ⟨rfl, fun i session hi => ⟨session, ?_, Nat.le_refl _⟩, hk, fun _ => rfl, List.prefix_refl _⟩
    obtain ⟨hlt, he⟩ := Array.getElem?_eq_some_iff.mp hi
    simp [Array.getElem?_push_lt hlt, he]

end Frame

theorem Move.frame (h : Move c s s') : Frame s s' := by
  cases h
  case extend h         => exact .of_extends h
  case openSession uri  => exact .openSession s uri
  case closeSession uri =>
    exact ⟨rfl, fun _ x h => ⟨x, h, Nat.le_refl _⟩, fun _ => .refl _, fun _ => rfl, List.prefix_refl _⟩
  case stop k           => exact .cancelRequest s k
  case drop hi hg hk _  => exact .setSession hi (Nat.le_of_eq hg.symm) hk
  case supersede hi     => exact .setSession hi (Nat.le_succ _) (.refl _)
  case call             => exact .setCall s c _

theorem Moves.frame (h : Moves c s s') : Frame s s' := by
  induction h
  case refl         => exact .refl s
  case tail _ hm ih => exact ih.trans hm.frame

theorem Next.stage?_ne_none {stage : Stage} (h : Next s c stage) : s.stage? c ≠ none := by
  cases h
  case debounce hc _ => simp [hc]
  case join hc _ _ _ => simp [hc]
  case answer hc _   =>
    intro hn
    simp [Answerable, hn] at hc

-- Only the call that moves comes to stand elsewhere.
theorem Move.stage? (h : Move c s s') (c' : Nat) :
    s'.stage? c' = s.stage? c' ∨ c' = c ∧ ∃ stage, Next s c stage ∧ s'.stage? c' = some stage := by
  cases h
  case extend h        => exact .inl (h.stage? c')
  case openSession uri =>
    left
    rw [Service.stage?, (Shifts.sessionFor (l := 0) s uri).2, Service.stage?]
  case closeSession    => exact .inl rfl
  case stop k          => exact .inl (by rw [Service.stage?, calls_cancelRequest, Service.stage?])
  case drop            => exact .inl rfl
  case supersede       => exact .inl rfl
  case call stage h    =>
    rw [stage?_setCall h.stage?_ne_none]
    split
    case isTrue hc => exact .inr ⟨hc, stage, h, rfl⟩
    case isFalse   => exact .inl rfl

-- A call that has had its first turn moves no more, but for an answer.
theorem Moves.stage?_of_ne_queued (h : Moves c s s') (hq : s.stage? c ≠ some .queued) :
    s'.stage? c = s.stage? c ∨ ∃ completions, s'.stage? c = some (.answered completions) := by
  induction h
  case refl => exact .inl rfl
  case tail u v _ hm ih =>
    have hu : u.stage? c ≠ some .queued := by
      rcases ih with he | ⟨_, he⟩ <;> simp [he, hq]
    cases hm.stage? c
    case inl he => rwa [he]
    case inr he =>
      obtain ⟨_, _, hn, he⟩ := he
      cases hn
      case debounce hc _ => contradiction
      case join hc _ _ _ => contradiction
      case answer        => exact .inr ⟨_, he⟩

-- A call that waits does so in a session that there is, and has not waited since before the session began to count.
def Homed (s : Service) : Stage → Prop
  | .gathering i _ _ _ _         => ∃ session, s.sessions[i]? = some session
  | .debouncing i _ generation _ =>
    ∃ session : Session, s.sessions[i]? = some session ∧ generation ≤ session.generation
  | _                            => True

theorem Homed.mono {stage : Stage} (h : s.Homed stage)
    (hs : ∀ (i : Nat) (session : Session), s.sessions[i]? = some session →
      ∃ session' : Session, s'.sessions[i]? = some session' ∧ session.generation ≤ session'.generation) :
    s'.Homed stage := by
  cases stage
  case gathering =>
    obtain ⟨session, hi⟩ := h
    obtain ⟨session', hi', _⟩ := hs _ session hi
    exact ⟨session', hi'⟩
  case debouncing =>
    obtain ⟨session, hi, hg⟩ := h
    obtain ⟨session', hi', hg'⟩ := hs _ session hi
    exact ⟨session', hi', Nat.le_trans hg hg'⟩
  all_goals trivial

theorem Next.homed {stage : Stage} (h : Next s c stage) : s.Homed stage := by
  cases h
  case debounce hi => exact ⟨_, hi, Nat.le_refl _⟩
  all_goals trivial

-- Every session keeps its own predictions.
structure Sound (s : Service) : Prop where
  homed : ∀ (c : Nat) (stage : Stage), s.stage? c = some stage → s.Homed stage
  kept  : ∀ i, ∀ k ∈ s.kept i, ∃ d : Dispatch, s.dispatches[k]? = some d ∧ d.session = i

theorem Sound.exists_session (h : s.Sound) (hc : s.Sending c i) : ∃ session, s.sessions[i]? = some session := by
  cases hc
  case inl hc =>
    obtain ⟨_, _, _, _, hc⟩ := hc
    exact h.homed c _ hc
  case inr hc =>
    obtain ⟨_, _, session, hi, _⟩ := hc
    exact ⟨session, hi⟩

-- A call that stands where it stood, and may send a request, might have done so before.
theorem Sound.sending_of_stage? (h : s.Sound) (he : s'.stage? c = s.stage? c)
    (hs : ∀ (i : Nat) (session : Session), s.sessions[i]? = some session →
      ∃ session' : Session, s'.sessions[i]? = some session' ∧ session.generation ≤ session'.generation)
    (hc : s'.Sending c i) : s.Sending c i := by
  rcases hc with ⟨cursor, o, x, unasked, hc⟩ | ⟨cursor, accepted, session', hi', hc⟩ <;> rw [he] at hc
  case inl => exact .inl ⟨cursor, o, x, unasked, hc⟩
  case inr =>
    obtain ⟨session, hi, hg⟩ := h.homed c _ hc
    obtain ⟨x, hx, hg'⟩ := hs i session hi
    obtain rfl := Option.some.inj (hi' ▸ hx)
    exact .inr ⟨cursor, accepted, session, hi, by rw [hc, Nat.le_antisymm hg hg']⟩

theorem Sending.ne_answered (h : s.Sending c i) (completions : List Completion) :
    s.stage? c ≠ some (.answered completions) := by
  rcases h with ⟨_, _, _, _, h⟩ | ⟨_, _, _, _, h⟩ <;> simp [h]

theorem Sound.sending_of_moves (h : s.Sound) (hm : Moves c s s') (hc : s'.Sending c i)
    (hq : s.stage? c ≠ some .queued) : s.Sending c i ∧ s'.stage? c = s.stage? c := by
  cases hm.stage?_of_ne_queued hq
  case inl he => exact ⟨h.sending_of_stage? he hm.frame.sessions hc, he⟩
  case inr he =>
    obtain ⟨completions, he⟩ := he
    exact absurd he (hc.ne_answered completions)

namespace Sound

variable {settings : Setup} {backend : Backend} {features : Option LanguageFeatures}

theorem start : (start settings backend features).Sound := by
  constructor <;> simp [Service.start, note, Service.stage?, Service.kept]

theorem move (h : s.Sound) (hm : Move c s s') : s'.Sound where
  homed := fun c' stage hs => by
    apply Homed.mono ?_ hm.frame.sessions
    cases hm.stage? c'
    case inl he => exact h.homed c' stage (he ▸ hs)
    case inr he =>
      obtain ⟨_, _, hn, he⟩ := he
      obtain rfl := Option.some.inj (he ▸ hs)
      exact hn.homed
  kept  := fun i k hk => by
    obtain ⟨d, hd, hi⟩ := h.kept i k ((hm.frame.kept i).mem hk)
    obtain ⟨d', hd', _, hi', _⟩ := hm.frame.exists_dispatch hd
    exact ⟨d', hd', hi'.trans hi⟩

theorem moves (h : s.Sound) (hm : Moves c s s') : s'.Sound := by
  induction hm
  case refl         => exact h
  case tail _ hm ih => exact ih.move hm

theorem send (h : s.Sound) (hs : Send c s s') : s'.Sound := by
  cases hs
  case gather i hc cursor o x unasked =>
    constructor
    case kept  => exact h.kept
    case homed =>
      intro c' stage hs
      rw [stage?_setCall hc.stage?_ne_none] at hs
      split at hs
      case isTrue  => exact Option.some.inj hs ▸ h.exists_session hc
      case isFalse => exact h.homed c' stage hs
  case send i session d hc hi hd cursor =>
    constructor
    case homed =>
      intro c' stage hs
      rw [stage?_send hc.stage?_ne_none] at hs
      split at hs
      case isTrue  => exact Option.some.inj hs ▸ trivial
      case isFalse => exact (h.homed c' stage hs).mono (sessions_setSession hi (Nat.le_refl _))
    case kept =>
      intro j k hk
      rw [getElem?_dispatches_send]
      rw [kept_send hi] at hk
      have hk : k ∈ s.kept j ∨ i = j ∧ k = s.dispatches.size := by
        split at hk
        case isTrue hij =>
          exact (List.mem_append.mp hk).imp (hij ▸ ·) fun h => ⟨hij, List.mem_singleton.mp h⟩
        case isFalse => exact .inl hk
      cases hk
      case inr hk => exact ⟨d, if_pos hk.2, hd.session.trans hk.1⟩
      case inl hk =>
        obtain ⟨d', hd', hj⟩ := h.kept j k hk
        have hlt := (Array.getElem?_eq_some_iff.mp hd').1
        exact ⟨d', by rwa [if_neg (Nat.ne_of_lt hlt)], hj⟩

theorem sends (h : s.Sound) (hs : Sends c s s') : s'.Sound :=
  hs.keeps (fun _ _ => move) (fun _ _ => send) h

end Sound

-- A request is always the same call's, and its prediction is settled at most once.
theorem Life.ages {told : List Turn} {t : Turn} {d d' : Dispatch} (h : Life r told t d d' q) :
    d'.call = d.call ∧ d'.session = d.session ∧
      (d.prediction.isPending = false → d'.prediction.stage = d.prediction.stage) := by
  cases h
  case settle hd   => exact ⟨rfl, rfl, fun h => by rw [hd h]⟩
  case wait hp _   => exact ⟨rfl, rfl, fun _ => hp⟩
  case ended hp _  => exact ⟨rfl, rfl, fun _ => hp⟩
  case retire hd   => exact ⟨rfl, rfl, fun h => by simp [h] at hd⟩
  all_goals exact ⟨rfl, rfl, fun _ => rfl⟩

theorem getElem?_setDispatch {d : Dispatch} (hd : s.dispatches[r]? = some d) (d' : Dispatch) (j : Nat) :
    (s.setDispatch r d').dispatches[j]? = if r = j then some d' else s.dispatches[j]? := by
  have hlt := (Array.getElem?_eq_some_iff.mp hd).1
  simp [setDispatch, Array.getElem?_setIfInBounds, hlt]

theorem Lives.exists_life {t : Turn} {d : Dispatch} (hd : s.dispatches[r]? = some d) (h : Lives r t d s s') :
    ∃ d' q, Life r (s.told r) t d d' q ∧ s'.ready = s.ready ++ q ∧
      ∀ j : Nat, s'.dispatches[j]? = if r = j then some d' else s.dispatches[j]? := by
  obtain ⟨d', q, hl, he⟩ := h
  refine ⟨d', q, hl, he.ready, fun j => ?_⟩
  rw [he.dispatches, getElem?_setDispatch hd]

theorem Lives.sessions_calls {t : Turn} {d : Dispatch} (h : Lives r t d s s') :
    s'.settings = s.settings ∧ s'.sessions = s.sessions ∧ s'.calls = s.calls := by
  obtain ⟨_, _, _, he⟩ := h
  exact ⟨he.settings, he.sessions, he.calls⟩

theorem Lives.size {t : Turn} {d : Dispatch} (h : Lives r t d s s') : s'.dispatches.size = s.dispatches.size := by
  obtain ⟨_, _, _, he⟩ := h
  simp [he.dispatches, setDispatch]

theorem Sound.lives {t : Turn} {d : Dispatch} (h : s.Sound) (hd : s.dispatches[r]? = some d)
    (hl : Lives r t d s s') : s'.Sound := by
  obtain ⟨_, hs, hc⟩ := hl.sessions_calls
  constructor
  case homed =>
    intro c stage hst
    rw [stage?, hc] at hst
    exact (h.homed c stage hst).mono fun i x hx => ⟨x, hs ▸ hx, Nat.le_refl _⟩
  case kept =>
    intro i k hk
    rw [Service.kept, hs] at hk
    obtain ⟨x, hx, hi⟩ := h.kept i k hk
    obtain ⟨d', q, hlife, _, hdisp⟩ := hl.exists_life hd
    rw [hdisp]
    split
    case isFalse => exact ⟨x, hx, hi⟩
    case isTrue hr =>
      obtain rfl := hr
      obtain rfl := Option.some.inj (hd ▸ hx)
      exact ⟨d', rfl, hlife.ages.2.1.trans hi⟩

end GhostText.Service
