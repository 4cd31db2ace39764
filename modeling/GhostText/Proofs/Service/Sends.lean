import GhostText.Proofs.Service.Moves

namespace GhostText.Service

variable {s s' s'' : Service} {q : List Turn} {c i : Nat} {call : Call} {cursor : Cursor} {session : Session}

-- The call has waited long enough, and is the last that came to wait.
def Sending (s : Service) (c i : Nat) : Prop :=
  (∃ cursor o h unasked, s.stage? c = some (.gathering i cursor o h unasked)) ∨
  (∃ cursor accepted session, s.sessions[i]? = some session ∧
    s.stage? c = some (.debouncing i cursor session.generation accepted))

theorem Extends.sending (h : Extends q s s') : s'.Sending c i ↔ s.Sending c i := by
  simp only [Sending, h.stage?, h.sessions]

-- The prediction of a new request, which has not had its first turn, is kept from the start.
structure New (d : Dispatch) (c i : Nat) : Prop where
  call      : d.call = c
  session   : d.session = i
  watch     : d.watch = .queued
  reading   : d.reading = .queued
  cancelled : d.cancelled = false
  pending   : d.prediction.isPending = true

def send (s : Service) (c i : Nat) (session : Session) (d : Dispatch) (cursor : Cursor) : Service :=
  (((s.addDispatch d).queue (.startRequest s.dispatches.size)).setSession i (session.add s.dispatches.size)).setCall c
    (.awaiting i cursor s.dispatches.size true)

inductive Send (c : Nat) (s : Service) : Service → Prop
  | gather {i : Nat} (hc : s.Sending c i) (cursor : Cursor) (o : Options) (h : Hints) (unasked : List Hints.Provider) :
    Send c s (s.setCall c (.gathering i cursor o h unasked))
  | send {i : Nat} {session : Session} {d : Dispatch} (hc : s.Sending c i) (hi : s.sessions[i]? = some session)
    (hd : New d c i) (cursor : Cursor) : Send c s (s.send c i session d cursor)

theorem Sending.stage?_ne_none (h : s.Sending c i) : s.stage? c ≠ none := by
  cases h
  case inl h =>
    obtain ⟨_, _, _, _, h⟩ := h
    simp [h]
  case inr h =>
    obtain ⟨_, _, _, _, h⟩ := h
    simp [h]

theorem stage?_send {d : Dispatch} (h : s.stage? c ≠ none) (c' : Nat) :
    (s.send c i session d cursor).stage? c' =
      if c' = c then some (.awaiting i cursor s.dispatches.size true) else s.stage? c' := by
  exact stage?_setCall h _ c'

theorem getElem?_dispatches_send (s : Service) (c i r : Nat) (session : Session) (d : Dispatch) (cursor : Cursor) :
    (s.send c i session d cursor).dispatches[r]? = if r = s.dispatches.size then some d else s.dispatches[r]? :=
  Array.getElem?_push

theorem kept_send (hi : s.sessions[i]? = some session) (j : Nat) (d : Dispatch) :
    (s.send c i session d cursor).kept j = if i = j then s.kept i ++ [s.dispatches.size] else s.kept j := by
  have hk : (s.send c i session d cursor).kept j = (s.setSession i (session.add s.dispatches.size)).kept j := rfl
  have hi' : s.kept i = session.cache.keys := by simp [kept, hi]
  rw [hk, kept_setSession hi, Session.keys_add, hi']

-- A call that goes on sends no more than one request.
def Sends (c : Nat) (s s' : Service) : Prop :=
  ∃ s₁ s₂, Moves c s s₁ ∧ (s₁ = s₂ ∨ Send c s₁ s₂) ∧ Moves c s₂ s'

-- What every move keeps, and the sending of a request.
theorem Sends.keeps {P : Service → Prop} (h : Sends c s s') (hm : ∀ u v, P u → Move c u v → P v)
    (hs : ∀ u v, P u → Send c u v → P v) (hp : P s) : P s' := by
  have hmoves {u v : Service} (hp : P u) (h : Moves c u v) : P v := by
    induction h
    case refl         => exact hp
    case tail _ h' ih => exact hm _ _ ih h'
  obtain ⟨s₁, s₂, h₁, hsend, h₂⟩ := h
  apply hmoves ?_ h₂
  cases hsend
  case inl he    => exact he ▸ hmoves hp h₁
  case inr hsend => exact hs _ _ (hmoves hp h₁) hsend

namespace Sends

theorem of_moves (h : Moves c s s') : Sends c s s' :=
  ⟨s', s', h, .inl rfl, .refl s'⟩

theorem after_moves (h₁ : Moves c s s') (h₂ : Sends c s' s'') : Sends c s s'' := by
  obtain ⟨s₁, s₂, h, hs, h'⟩ := h₂
  exact ⟨s₁, s₂, h₁.trans h, hs, h'⟩

variable {o : Options} {h : Hints} {unasked : List Hints.Provider}

theorem dispatch (hc : s.Sending c i) (hi : s.sessions[i]? = some session) (before : Text) :
    Sends c s (s.dispatch c i cursor o before) := by
  simp only [Service.dispatch]
  generalize [Notice.requested _ _, _, _] = notices
  generalize hd : ({ call := c, session := i, prediction := _, request := _ } : Dispatch) = d
  have hn : New d c i := by rw [← hd]; exact ⟨rfl, rfl, rfl, rfl, rfl, rfl⟩
  have he := Extends.noteAll s notices
  rw [← he.sessions] at hi
  rw [← he.sending] at hc
  rw [← he.dispatches]
  apply after_moves (.extend he)
  generalize s.noteAll notices = s at hc hi
  generalize hu : (s.addDispatch d).queue (.startRequest s.dispatches.size) = u
  have hiu : u.sessions[i]? = some session := by rw [← hu]; exact hi
  obtain ⟨ks, session', hk, hg, hsub, ho⟩ := keep_eq hiu s.dispatches.size
  refine ⟨_, _, .refl s, .inr (.send hc hi hn cursor), ?_⟩
  rw [send, hu, hk]
  have hlt := (Array.getElem?_eq_some_iff.mp hiu).1
  have hm : ((u.setSession i (session.add s.dispatches.size)).setCall c
      (.awaiting i cursor s.dispatches.size true)).sessions[i]? = some (session.add s.dispatches.size) := by
    simp [setSession, setCall, hlt]
  have hd := Moves.stopAll_setSession (c := c) ks hm hg (by simpa using hsub) (by simpa using ho)
  have hs := setSession_setSession (u.stopAll ks) i (session.add s.dispatches.size) session'
  rw [stopAll_setCall, stopAll_setSession] at hd
  apply hd.trans
  rw [setSession_setCall, hs]
  exact .extend (Extends.setCall (.count _ _) c _)

theorem gather (hc : s.Sending c i) (hi : s.sessions[i]? = some session) (h : Hints)
    (unasked : List Hints.Provider) : Sends c s (s.gather c i cursor o h unasked) := by
  induction unasked generalizing s h
  case nil => exact dispatch hc hi _
  case cons p rest ih =>
    simp only [Service.gather]
    split
    case h_1 => exact dispatch hc hi _
    case h_2 f _ =>
      split
      case h_1 =>
        have he : Extends [] s (s.ask f h p).1 := .noteAll s _
        exact after_moves (.extend he) (ih (he.sending.mpr hc) (he.sessions ▸ hi) _)
      case h_2 delay _ =>
        exact ⟨s, _, .refl s, .inr (.gather hc cursor o h (p :: rest)), .resumeAfter _ _ _⟩

theorem answerable (hc : s.Sending c i) : s.Answerable c := by
  cases hc
  case inl hc =>
    obtain ⟨_, _, _, _, hc⟩ := hc
    simp [Answerable, hc]
  case inr hc =>
    obtain ⟨_, _, _, _, hc⟩ := hc
    simp [Answerable, hc]

theorem request (hc : s.Sending c i) (hi : s.sessions[i]? = some session) :
    Sends c s (s.request c call i cursor o) := by
  simp only [Service.request]
  split
  case isTrue => exact of_moves (.answer (answerable hc) [])
  case isFalse =>
    split
    case isTrue => exact dispatch hc hi _
    case isFalse =>
      split
      case h_1 => exact of_moves (.refl s)
      case h_2 =>
        split
        case h_1 => exact of_moves (.failCall (answerable hc))
        case h_2 => exact gather hc hi _ _

-- A call that has waited long enough first makes room for its request.
theorem endDebounce {generation : Nat} {accepted : Bool}
    (hc : s.stage? c = some (.debouncing i cursor generation accepted)) :
    Moves c s (s.endDebounce c call i cursor generation accepted) ∨
      Sends c (s.enforceLimit i) (s.endDebounce c call i cursor generation accepted) := by
  simp only [Service.endDebounce]
  split
  case h_1 => exact .inl (.refl s)
  case h_2 session hi =>
    have ha : s.Answerable c := by simp [Answerable, hc]
    split
    case isTrue =>
      have he := Extends.count s fun n => { n with debounced := n.debounced + 1 }
      exact .inl ((Moves.extend he).trans (.answer (he.answerable.mpr ha) []))
    case isFalse hg =>
      obtain ⟨session', hi', hg'⟩ := session_enforceLimit hi
      have hc : (s.enforceLimit i).Sending c i := by
        have : (s.enforceLimit i).stage? c = s.stage? c := by rw [stage?, calls_enforceLimit, stage?]
        have hg : session'.generation = generation := by omega
        exact .inr ⟨cursor, accepted, session', hi', by rw [this, hc, hg]⟩
      exact .inr (request hc hi')

theorem askNext {unasked : List Hints.Provider} (hc : s.stage? c = some (.gathering i cursor o h unasked))
    (hi : s.sessions[i]? = some session) : Sends c s (s.askNext c i cursor o h unasked) := by
  have hs : s.Sending c i := .inl ⟨_, _, _, _, hc⟩
  simp only [Service.askNext]
  split
  case h_1 => exact dispatch hs hi _
  case h_2 p rest =>
    split
    case h_1 => exact dispatch hs hi _
    case h_2 f _ =>
      have he : Extends [] s (s.ask f h p).1 := .noteAll s _
      exact after_moves (.extend he) (gather (he.sending.mpr hs) (he.sessions ▸ hi) _ _)

end Sends

end GhostText.Service
