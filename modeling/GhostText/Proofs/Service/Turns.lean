import GhostText.Proofs.Service.Frames

namespace GhostText.Service

variable {s s' : Service} {c : Nat}

def Awaiting (s : Service) (c r : Nat) : Prop :=
  ∃ i cursor own, s.stage? c = some (.awaiting i cursor r own)

theorem Awaiting.unique {r r' : Nat} (h : s.Awaiting c r) (h' : s.Awaiting c r') : r = r' := by
  obtain ⟨_, _, _, h⟩ := h
  obtain ⟨_, _, _, h'⟩ := h'
  injection Option.some.inj (h.symm.trans h')

-- What a turn does that has just left the queue.
inductive Takes (s : Service) : Turn → Service → Prop
  | start {c : Nat} {s' : Service} (h : Moves c s s') : Takes s (.startCall c) s'
  -- the end of typing: the call is answered, or makes room for its request
  | pass {c i generation : Nat} {cursor : Cursor} {accepted : Bool} {s' : Service}
    (hc : s.stage? c = some (.debouncing i cursor generation accepted))
    (h : Moves c s s' ∨ Sends c (s.enforceLimit i) s') : Takes s (.resumeCall c) s'
  | goOn {c i : Nat} {cursor : Cursor} {o : Options} {x : Hints} {unasked : List Hints.Provider} {s' : Service}
    (hc : s.stage? c = some (.gathering i cursor o x unasked)) (h : Sends c s s') : Takes s (.resumeCall c) s'
  | deliver {c r : Nat} {s' : Service} (hc : s.Awaiting c r) (h : Moves c s s')
    (ha : (∃ completions, s'.stage? c = some (.answered completions)) ∨
      s' = s ∧ ∀ p ∈ s.prediction? r, p.isPending = true) : Takes s (.resumeCall c) s'
  | relay (c : Nat) : Takes s (.relay c) (s.queue (.resumeCall c))
  | ring (c : Nat) : Takes s (.ring (.call c)) (s.queue (.resumeCall c))
  | stray {t : Turn} {c : Nat} (ht : t = .resumeCall c ∨ t = .relay c) (hc : ∀ r, ¬s.Awaiting c r) : Takes s t s
  | live {t : Turn} {r : Nat} {d : Dispatch} {s' : Service} (ht : t.request? = some r)
    (hd : s.dispatches[r]? = some d) (h : Lives r t d s s') : Takes s t s'
  | none {t : Turn} {r : Nat} (ht : t.request? = some r) (hd : s.dispatches[r]? = none) : Takes s t s

theorem Takes.deliver_call {i r : Nat} {cursor : Cursor} {own : Bool} (call : Call)
    (hc : s.stage? c = some (.awaiting i cursor r own)) :
    Takes s (.resumeCall c) (s.deliver c call i cursor r own) := by
  refine .deliver ⟨i, cursor, own, hc⟩ (.deliver hc) ?_
  have hs : s.stage? c ≠ Option.none := by simp [hc]
  have ha {u : Service} (hu : u.calls = s.calls) (l : List Completion) :
      ∃ completions, (u.answer c l).stage? c = some (.answered completions) := by
    have : u.stage? c ≠ Option.none := by rwa [stage?, hu]
    exact ⟨l, by rw [answer, stage?_setCall this, if_pos rfl]⟩
  simp only [Service.deliver]
  split
  case h_1 hp => exact .inr ⟨rfl, by simp [hp]⟩
  case h_2 p hp =>
    split
    case h_1 hr =>
      refine .inr ⟨rfl, fun x hx => ?_⟩
      obtain rfl := Option.some.inj (hp ▸ hx)
      cases hst : p.stage <;> simp_all [Prediction.result?, Prediction.isPending]
    case h_2 =>
      left
      split
      case isTrue => exact ha (calls_forget s i r) []
      case isFalse =>
        split
        case isTrue => exact ha (calls_noteAll _) _
        case isFalse =>
          split
          case h_1 => exact ha (by simp) _
          case h_2 => exact ha (calls_noteAll _) _

theorem takes (hs : s.Sound) (t : Turn) : Takes s t (s.takeTurn t) := by
  have hlive {t : Turn} {r : Nat} (ht : t.request? = some r) : Takes s t (s.takeTurn t) := by
    cases hd : s.dispatches[r]?
    case none   => rw [takeTurn_of_none ht hd]; exact .none ht hd
    case some d => exact .live ht hd (.takeTurn ht hd)
  cases t
  case startCall c =>
    apply Takes.start
    simp only [takeTurn, withCall]
    split
    case h_1 call hc => exact .startCall hc
    case h_2         => exact .refl s
  case resumeCall c =>
    simp only [takeTurn, withCall]
    split
    case h_2 hc => exact .stray (.inl rfl) (by simp [Awaiting, stage?, hc])
    case h_1 call hc =>
      simp only [resumeCall]
      have hst : s.stage? c = some call.stage := by simp [stage?, hc]
      split
      case h_1 hcall =>
        rw [hcall] at hst
        exact .pass hst (Sends.endDebounce hst)
      case h_2 hcall =>
        rw [hcall] at hst
        obtain ⟨session, hi⟩ := hs.homed c _ hst
        exact .goOn hst (.askNext hst hi)
      case h_3 hcall =>
        rw [hcall] at hst
        exact .deliver_call call hst
      case h_4 h => exact .stray (.inl rfl) (by simp_all [Awaiting])
  case relay c =>
    simp only [takeTurn, withCall]
    split
    case h_2 hc => exact .stray (.inr rfl) (by simp [Awaiting, stage?, hc])
    case h_1 call hc =>
      have hst : s.stage? c = some call.stage := by simp [stage?, hc]
      simp only [relay]
      split
      case h_1   => exact .relay c
      case h_2 h => exact .stray (.inr rfl) (by simp_all [Awaiting])
  case ring b =>
    cases b
    case call c   => exact .ring c
    case answer   => exact hlive rfl
    case deadline => exact hlive rfl
  all_goals exact hlive rfl

-- What an editor does, and whatever else happens between two turns.
inductive Acts (s : Service) : Service → Prop
  | moves {s' : Service} (h : Moves 0 s s') : Acts s s'
  | provide (call : Call) (h : call.stage = .queued) :
    Acts s ({ s with calls := s.calls.push call }.queue (.startCall s.calls.size))
  | cancel {c : Nat} {stage : Stage} (hc : s.stage? c = some stage) (ha : ∀ completions, stage ≠ .answered completions)
    (hn : stage ≠ .cancelled) : Acts s ((s.dropAlarm (.call c)).setCall c .cancelled)

-- No turn is taken, and no call is made or taken back.
theorem moves_after {e : Event} (ht : e ≠ .turn) (hp : ∀ uri position, e ≠ .provide uri position)
    (hk : ∀ k, e ≠ .cancel k) : Moves c s (s.after e) := by
  cases e
  case turn                 => contradiction
  case provide uri position => exact absurd rfl (hp uri position)
  case cancel k             => exact absurd rfl (hk k)
  case advance time =>
    refine .single (.extend ⟨rfl, rfl, rfl, rfl, rfl, rfl⟩ fun t ht => ?_)
    obtain ⟨a, _, ha⟩ := List.mem_map.mp ht
    exact .inr ⟨a.bell, ha.symm⟩
  case openBuffer uri t => exact .extend ⟨rfl, rfl, rfl, rfl, rfl, by simp [after, openBuffer]⟩
  case edit uri span t =>
    simp only [after, edit]
    split
    case h_1 => exact .refl s
    case h_2 => exact .extend ⟨rfl, rfl, rfl, rfl, rfl, by simp⟩
  case free uri position shown => exact .free s uri position shown
  case close uri               => exact .close s uri
  case dispose                 => exact .dispose s
  case serve b                 => exact .extend (.setBackend s b)
  case assist f                => exact .extend ⟨rfl, rfl, rfl, rfl, rfl, by simp [after]⟩

theorem acts {e : Event} (he : e ≠ .turn) : Acts s (s.after e) := by
  cases e
  case turn => contradiction
  case provide uri position =>
    simp only [after, Service.provide]
    split
    case h_1 => exact .moves (.refl s)
    case h_2 => exact .provide _ rfl
  case cancel c =>
    simp only [after, cancelCall]
    split
    case h_4 stage h₁ h₂ hc => exact .cancel hc h₁ h₂
    all_goals exact .moves (.refl s)
  all_goals exact .moves (moves_after (by simp) (by simp) (by simp))

-- A turn of a call goes as far as to send a request. The others are turns of a request.
theorem Takes.sends_or_lives {t : Turn} (h : Takes s t s') :
    (∃ c, Sends c s s') ∧ (∀ (r : Nat) (d : Dispatch), s.dispatches[r]? = some d → t.request? ≠ some r) ∨
      ∃ r d, t.request? = some r ∧ s.dispatches[r]? = some d ∧ Lives r t d s s' := by
  have hcall {t : Turn} (ht : t.request? = Option.none) (h : ∃ c, Sends c s s') :
      (∃ c, Sends c s s') ∧ ∀ (r : Nat) (d : Dispatch), s.dispatches[r]? = some d → t.request? ≠ some r :=
    ⟨h, by simp [ht]⟩
  cases h
  case live r d hd ht h' => exact .inr ⟨r, d, ht, hd, h'⟩
  all_goals left
  case start c h'          => exact hcall rfl ⟨c, .of_moves h'⟩
  case pass c i _ _ _ _ h' =>
    cases h'
    case inl h' => exact hcall rfl ⟨c, .of_moves h'⟩
    case inr h' => exact hcall rfl ⟨c, .after_moves (.enforceLimit s i) h'⟩
  case goOn c _ _ _ _ _ _ h' => exact hcall rfl ⟨c, h'⟩
  case deliver c _ _ h' _    => exact hcall rfl ⟨c, .of_moves h'⟩
  case relay c               => exact hcall rfl ⟨c, .of_moves (.single (.resume s c))⟩
  case ring c                => exact hcall rfl ⟨c, .of_moves (.single (.resume s c))⟩
  case stray c _ ht          => exact hcall (by rcases ht with rfl | rfl <;> rfl) ⟨c, .of_moves (.refl s)⟩
  case none r hd ht          =>
    refine ⟨⟨0, .of_moves (.refl s)⟩, fun r' d hd' hr => ?_⟩
    obtain rfl := Option.some.inj (ht ▸ hr)
    exact absurd (hd ▸ hd' : Option.none = some d) (by simp)

theorem Send.settings (h : Send c s s') : s'.settings = s.settings := by
  cases h <;> rfl

theorem Takes.settings {t : Turn} (h : Takes s t s') : s'.settings = s.settings := by
  rcases h.sends_or_lives with ⟨⟨c, h⟩, _⟩ | ⟨r, d, _, _, h⟩
  case inl => exact h.keeps (fun _ _ hp hm => hm.frame.settings.trans hp) (fun _ _ hp hs => hs.settings.trans hp) rfl
  case inr => exact h.sessions_calls.1

theorem Acts.settings (h : Acts s s') : s'.settings = s.settings := by
  cases h
  case moves h => exact h.frame.settings
  all_goals rfl

theorem stage?_provide (s : Service) (call : Call) (c : Nat) :
    ({ s with calls := s.calls.push call }.queue (.startCall s.calls.size)).stage? c =
      if c = s.calls.size then some call.stage else s.stage? c := by
  simp only [stage?, queue, Array.getElem?_push]
  split <;> rfl

theorem stage?_cancel {stage : Stage} (hc : s.stage? c = some stage) (c' : Nat) :
    ((s.dropAlarm (.call c)).setCall c .cancelled).stage? c' = if c' = c then some .cancelled else s.stage? c' := by
  have hne : (s.dropAlarm (.call c)).stage? c ≠ none := by
    rw [stage?, calls_dropAlarm, ← stage?, hc]
    simp
  exact stage?_setCall hne _ c'

namespace Sound

theorem takes {t : Turn} (h : s.Sound) (ht : Takes s t s') : s'.Sound := by
  rcases ht.sends_or_lives with ⟨⟨c, h'⟩, _⟩ | ⟨r, d, _, hd, h'⟩
  case inl => exact h.sends h'
  case inr => exact h.lives hd h'

theorem acts (h : s.Sound) (ha : Acts s s') : s'.Sound := by
  cases ha
  case moves h' => exact h.moves h'
  case provide call hc =>
    constructor
    case kept  => exact h.kept
    case homed =>
      intro c stage hs
      rw [stage?_provide] at hs
      split at hs
      case isTrue  => exact Option.some.inj hs ▸ hc ▸ trivial
      case isFalse => exact h.homed c stage hs
  case cancel c _ hc _ _ =>
    constructor
    case kept  => exact h.kept
    case homed =>
      intro c' stage hs
      rw [stage?_cancel hc] at hs
      split at hs
      case isTrue  => exact Option.some.inj hs ▸ trivial
      case isFalse => exact h.homed c' stage hs

theorem popped {rest : List Turn} (h : s.Sound) : ({ s with ready := rest } : Service).Sound :=
  ⟨h.homed, h.kept⟩

-- In an event the turn that waits longest is taken, or something else happens.
theorem after_cases (h : s.Sound) (e : Event) :
    Acts s (s.after e) ∨
      ∃ t rest, e = .turn ∧ s.ready = t :: rest ∧ Takes { s with ready := rest } t (s.after e) := by
  by_cases he : e = .turn
  case neg => exact .inl (Service.acts he)
  case pos =>
    subst he
    simp only [Service.after, takeNext]
    cases hr : s.ready
    case nil         => exact .inl (.moves (.refl s))
    case cons t rest => exact .inr ⟨t, rest, trivial, rfl, Service.takes h.popped t⟩

theorem after (h : s.Sound) (e : Event) : (s.after e).Sound := by
  rcases h.after_cases e with ha | ⟨t, rest, _, _, ht⟩
  case inl => exact h.acts ha
  case inr => exact h.popped.takes ht

theorem settings_after (h : s.Sound) (e : Event) : (s.after e).settings = s.settings := by
  rcases h.after_cases e with ha | ⟨t, rest, _, _, ht⟩
  case inl => exact ha.settings
  case inr => exact ht.settings

theorem reaches {settings : Setup} {backend : Backend} {features : Option LanguageFeatures}
    (h : (Service.start settings backend features).Reaches s) : s.Sound :=
  h.induct start fun _ e hs => hs.after e

theorem settings_of_reaches {settings : Setup} {backend : Backend} {features : Option LanguageFeatures}
    (h : (Service.start settings backend features).Reaches s) : s.settings = settings :=
  (h.induct (P := fun s => s.Sound ∧ s.settings = settings) ⟨start, rfl⟩
    fun _ e hs => ⟨hs.1.after e, (hs.1.settings_after e).trans hs.2⟩).2

end Sound
end GhostText.Service
