import GhostText.Proofs.Service.Easing
import GhostText.Proofs.Shown.Accepting

namespace GhostText.Service

variable {s s' s'' : Service} {c i k r : Nat} {t : Turn} {call : Call} {cursor : Cursor} {session : Session}
variable {o : Options}

-- An existing session is left as it is, and so is everything that calls go by. Things may be noted.
structure Opens (s s' : Service) : Prop where
  settings   : s'.settings = s.settings
  calls      : s'.calls = s.calls
  dispatches : s'.dispatches = s.dispatches
  sessions   : ∀ (i : Nat) (session : Session), s.sessions[i]? = some session → s'.sessions[i]? = some session
  session?   : ∀ uri i, s.session? uri = some i → s'.session? uri = some i
  kept       : ∀ i, s'.kept i = s.kept i
  beat       : ∀ c, s'.beat c = s.beat c

theorem Opens.sessionFor (s : Service) (uri : Text) : Opens s (s.sessionFor uri).1 where
  settings   := (fixed_sessionFor s 0 uri).settings
  calls      := (Shifts.sessionFor (l := 0) s uri).2
  dispatches := (ready_dispatches_sessionFor s uri).2
  sessions   := fun i session hi => by
    have hlt := (Array.getElem?_eq_some_iff.mp hi).1
    simp only [Service.sessionFor]
    split
    case h_1 => exact hi
    case h_2 => simp [Array.getElem?_push, Nat.ne_of_lt hlt, hi]
  session?   := fun uri' i hi => by
    rw [session?_sessionFor]
    split
    case isFalse    => exact hi
    case isTrue hu  => rw [sessionFor_of_some (hu ▸ hi)]
  kept       := kept_sessionFor s uri
  beat       := fun c => beat_sessionFor uri

theorem Opens.noteAll (h : Opens s s') (ns : List Notice) : Opens s (s'.noteAll ns) := by
  rw [noteAll_eq]
  exact ⟨h.settings, h.calls, h.dispatches, h.sessions, h.session?, h.kept, h.beat⟩

def Beat.resumeAfter (x : Beat) (delay c : Nat) : Beat :=
  if delay = 0 then { x with turns := x.turns ++ [.resumeCall c] }
  else { x with alarms := x.alarms ++ [⟨x.now + delay, .call c⟩] }

theorem beat_resumeAfter_self (s : Service) (delay c : Nat) :
    (s.resumeAfter delay c).beat c = (s.beat c).resumeAfter delay c := by
  simp only [Service.resumeAfter, Beat.resumeAfter]
  split <;> simp [beat, queue, setAlarm]

def Session.next (session : Session) : Session :=
  { session with generation := session.generation + 1 }

theorem debounce_eq {accepted : Bool} (hd : (seconds? s.settings.debounce).isNone = false) :
    s.debounce c call i session cursor accepted =
      ((s.setSession i session.next).setCall c
        (.debouncing i cursor (session.generation + 1) accepted)).resumeAfter s.settings.debounce.toNat c := by
  have hd' : (seconds? (s.setSession i session.next).settings.debounce).isNone = false := hd
  simp only [Session.next] at hd' ⊢
  simp only [debounce, hd', Bool.false_eq_true, if_false]
  rfl

-- The call waits, and no other has come to wait in its session since.
def Latest (s : Service) (c i : Nat) (cursor : Cursor) : Prop :=
  ∃ (session : Session) (accepted : Bool), s.sessions[i]? = some session ∧
    s.stage? c = some (.debouncing i cursor session.generation accepted)

-- The call comes to wait as the latest of its session. Nothing that is kept there applies.
structure Waits (c i : Nat) (cursor : Cursor) (s s' : Service) : Prop where
  settings   : s'.settings = s.settings
  queued     : s.stage? c = some .queued
  own        : ∃ call : Call, s.calls[c]? = some call ∧ s'.session? call.uri = some i
  session?   : ∀ uri j, s.session? uri = some j → s'.session? uri = some j
  others     : ∀ k, k ≠ c → s'.stage? k = s.stage? k
  latest     : s'.Latest c i cursor
  sessions   : ∀ (j : Nat) (session : Session), s.sessions[j]? = some session → ∃ session' : Session,
    s'.sessions[j]? = some session' ∧ session'.generation = if j = i then session.generation + 1 else session.generation
  kept       : ∀ j, s'.kept j = s.kept j
  dispatches : s'.dispatches = s.dispatches
  missed     : ∀ k ∈ s.kept i, ∀ p, s.prediction? k = some p → Bounds.match? cursor.before p.before p.insertText = none
  beats      : ∀ k, k ≠ c → s'.beat k = s.beat k
  beat       : s'.beat c = (s.beat c).resumeAfter s.settings.debounce.toNat c

namespace Waits

theorem now (h : Waits c i cursor s s') : s'.now = s.now :=
  congrArg Beat.now (h.beats (c + 1) (Nat.succ_ne_self c))

theorem features (h : Waits c i cursor s s') : s'.features = s.features :=
  congrArg Beat.features (h.beats (c + 1) (Nat.succ_ne_self c))

theorem of_opens (ho : Opens s s') (h : Waits c i cursor s' s'') : Waits c i cursor s s'' where
  settings   := h.settings.trans ho.settings
  queued     := by rw [stage?, ← ho.calls, ← stage?, h.queued]
  own        := ho.calls ▸ h.own
  session?   := fun uri j hj => h.session? uri j (ho.session? uri j hj)
  others     := fun k hk => by rw [h.others k hk, stage?, ho.calls, stage?]
  latest     := h.latest
  sessions   := fun j session hj => h.sessions j session (ho.sessions j session hj)
  kept       := fun j => (h.kept j).trans (ho.kept j)
  dispatches := h.dispatches.trans ho.dispatches
  missed     := fun k hk p hp => h.missed k (ho.kept i ▸ hk) p (prediction?_congr ho.dispatches k ▸ hp)
  beats      := fun k hk => (h.beats k hk).trans (ho.beat k)
  beat       := by rw [h.beat, ho.beat, ho.settings]

theorem debounce (accepted : Bool) (hc : s.calls[c]? = some call) (hq : call.stage = .queued)
    (hu : s.session? call.uri = some i) (hi : s.sessions[i]? = some session)
    (hm : ∀ k ∈ s.kept i, ∀ p, s.prediction? k = some p → Bounds.match? cursor.before p.before p.insertText = none)
    (hd : (seconds? s.settings.debounce).isNone = false) :
    Waits c i cursor s (s.debounce c call i session cursor accepted) := by
  have hst : s.stage? c = some .queued := by simp [stage?, hc, hq]
  rw [debounce_eq hd]
  generalize hw : (s.setSession i session.next).setCall c (.debouncing i cursor (session.generation + 1) accepted) = w
  obtain ⟨_, he⟩ := Stands.resumeAfter w s.settings.debounce.toNat c
  have hsessions : w.sessions = s.sessions.setIfInBounds i session.next := hw ▸ rfl
  have hu' (uri : Text) : (w.resumeAfter s.settings.debounce.toNat c).session? uri = s.session? uri :=
    session?_congr (he.current.trans (hw ▸ rfl)) uri
  have hstage (k : Nat) : (w.resumeAfter s.settings.debounce.toNat c).stage? k =
      if k = c then some (.debouncing i cursor (session.generation + 1) accepted) else s.stage? k := by
    have hne : (s.setSession i session.next).stage? c ≠ none := by
      rw [stage?, calls_setSession, ← stage?, hst]
      simp
    rw [he.stage?, ← hw]
    exact stage?_setCall hne _ k
  constructor
  case settings   => exact he.settings.trans (hw ▸ rfl)
  case queued     => exact hst
  case own        => exact ⟨call, hc, (hu' _).trans hu⟩
  case session?   => exact fun uri j hj => (hu' uri).trans hj
  case others     => exact fun k hk => by rw [hstage, if_neg hk]
  case latest     =>
    refine ⟨session.next, accepted, ?_, by rw [hstage, if_pos rfl]; rfl⟩
    rw [he.sessions, ← hw]
    exact getElem?_setSession_self hi session.next
  case sessions   =>
    intro j x hj
    rw [he.sessions, hsessions, Array.getElem?_setIfInBounds]
    by_cases hij : i = j
    case neg => exact ⟨x, by rw [if_neg hij, hj], by rw [if_neg (Ne.symm hij)]⟩
    case pos =>
      subst hij
      obtain ⟨hlt, _⟩ := Array.getElem?_eq_some_iff.mp hi
      obtain rfl := Option.some.inj (hi ▸ hj)
      exact ⟨session.next, by simp [hlt], by rw [if_pos rfl]; rfl⟩
  case kept       =>
    intro j
    rw [he.kept, ← hw]
    refine (kept_setSession hi session.next j).trans ?_
    split
    case isFalse    => rfl
    case isTrue hij => simp [← hij, Service.kept, hi, Session.next]
  case dispatches => exact he.dispatches.trans (hw ▸ rfl)
  case missed     => exact hm
  case beats      => exact fun k hk => by rw [beat_resumeAfter _ (Ne.symm hk), ← hw]; rfl
  case beat       => rw [beat_resumeAfter_self, ← hw]; rfl

end Waits

-- The call has come to a stage in which it sends no request.
def Settles (s : Service) (c : Nat) : Prop :=
  ∃ stage, stage.Late ∧ s.stage? c = some stage

-- The call is answered or only waits to be. What it is answered with begins at the position.
def Stage.Landed (position : Position) : Stage → Prop
  | .awaiting .. => True
  | .answered l  => ∀ x ∈ l, x.span.start = position
  | _            => False

def Lands (s : Service) (c : Nat) (position : Position) : Prop :=
  ∃ stage, stage.Landed position ∧ s.stage? c = some stage

namespace Lands

variable {position : Position} {stage : Stage}

theorem settles (h : s.Lands c position) : s.Settles c := by
  obtain ⟨stage, hl, hst⟩ := h
  refine ⟨stage, ?_, hst⟩
  cases stage <;> trivial

theorem setCall (h : s.stage? c ≠ none) (hl : stage.Landed position) : (s.setCall c stage).Lands c position :=
  ⟨stage, hl, (stage?_setCall h stage c).trans (if_pos rfl)⟩

theorem answer_nil (h : s.stage? c ≠ none) (position : Position) : (s.answer c []).Lands c position :=
  setCall h (by simp [Stage.Landed])

theorem complete (h : s.stage? c ≠ none) (p : Prediction) (x : Bounds) :
    (s.complete c call cursor p x).Lands c call.position := by
  have he := Extends.noteAll s ((Excerpt.of s.settings.repeatRule p cursor x.index).notices p.id)
  rw [← he.stage? c] at h
  exact setCall h (by simp [Stage.Landed, Completion.start_span])

theorem failCall (h : s.stage? c ≠ none) (call : Call) : (s.failCall c call).Lands c call.position :=
  answer_nil h _

theorem serveCached {p : Prediction} {x : Bounds} (h : s.stage? c ≠ none) :
    (s.serveCached c call i cursor r p x).Lands c call.position := by
  have he := Extends.cacheHit s p
  rw [← he.stage? c] at h
  simp only [Service.serveCached]
  split
  case h_1 => exact complete h p x
  case h_2 => exact setCall h trivial
  case h_3 => exact answer_nil h _

end Lands

-- In its first turn a call comes to wait, unless it is answered or joins a request.
theorem seek_cases (hc : s.calls[c]? = some call) (hq : call.stage = .queued) :
    (∃ i cursor, Waits c i cursor s (s.seek c call)) ∨ Eases s (s.seek c call) := by
  have hst : s.stage? c = some .queued := by simp [stage?, hc, hq]
  have hmoves : Moves c s (s.seek c call) := .seek hst
  have hease (hb : ∀ k, (s.seek c call).beat k = s.beat k)
      (ha : (s.seek c call).stage? c = s.stage? c ∨ (s.seek c call).Settles c) :
      (∃ i cursor, Waits c i cursor s (s.seek c call)) ∨ Eases s (s.seek c call) :=
    .inr (.of_moves hmoves hb (ha.imp_right .inr))
  revert hease
  simp only [Service.seek]
  have ho := Opens.sessionFor s call.uri
  have hu := session?_sessionFor s call.uri call.uri
  rw [if_pos rfl] at hu
  generalize s.sessionFor call.uri = x at ho hu ⊢
  split
  case h_2 => exact fun hease => hease ho.beat (.inl (by rw [stage?, ho.calls, stage?]))
  case h_1 document session _ hi =>
    have hn := ho.noteAll (findMatch (document.cursorAt call.position).before (x.1.predictionsIn session)).2
    have he := Extends.noteAll x.1 (findMatch (document.cursorAt call.position).before (x.1.predictionsIn session)).2
    have hne :
        (x.1.noteAll (findMatch (document.cursorAt call.position).before (x.1.predictionsIn session)).2).stage? c ≠
          none := by
      rw [stage?, hn.calls, ← stage?, hst]
      simp
    have hfail := (Lands.failCall hne call).settles
    split
    case h_1 =>
      intro hease
      exact hease (fun k => (beat_serveCached _).trans (hn.beat k)) (.inr (Lands.serveCached hne).settles)
    case h_2 hf =>
      split
      case h_2 => exact fun hease => hease (fun k => beat_failCall.trans (hn.beat k)) (.inr hfail)
      case h_1 accepted _ =>
        intro hease
        cases hd : (seconds? (x.1.noteAll (findMatch (document.cursorAt call.position).before
          (x.1.predictionsIn session)).2).settings.debounce).isNone
        case true  =>
          simp only [Service.debounce] at hease ⊢
          have hd' := hd
          rw [if_pos (by exact hd)] at hease ⊢
          exact hease (fun k => beat_failCall.trans (hn.beat k)) (.inr hfail)
        case false =>
          refine .inl ⟨x.2, document.cursorAt call.position, .of_opens hn (.debounce accepted ?_ hq ?_ ?_ ?_ hd)⟩
          case refine_1 => rw [hn.calls, hc]
          case refine_2 => rw [session?_congr he.current, hu]
          case refine_3 => rw [he.sessions, hi]
          case refine_4 =>
            intro k hk p hp
            refine match?_eq_none_of_findMatch hf (k, p) ((mem_predictionsIn_iff hi).mpr ⟨he.kept _ ▸ hk, ?_⟩)
            rw [← he.prediction?, hp]

-- The call sends its request and awaits it. The new prediction is kept as the last.
structure Posts (c i : Nat) (cursor : Cursor) (s s' : Service) : Prop where
  settings : s'.settings = s.settings
  current  : s'.current = s.current
  stage    : s'.stage? c = some (.awaiting i cursor s.dispatches.size true)
  others   : ∀ k, k ≠ c → s'.stage? k = s.stage? k
  sessions : ∀ (j : Nat) (session : Session), s.sessions[j]? = some session →
    ∃ session' : Session, s'.sessions[j]? = some session' ∧ session.generation ≤ session'.generation
  kept     : ∀ j, (s'.kept j).Sublist (if j = i then s.kept j ++ [s.dispatches.size] else s.kept j)
  new      : ∃ d : Dispatch, s'.dispatches[s.dispatches.size]? = some d ∧ d.call = c ∧ d.session = i ∧
    d.prediction.before = cursor.before ∧ d.prediction.createdAt = s.now
  old      : ∀ r : Nat, r ≠ s.dispatches.size →
    s'.dispatches[r]?.map Dispatch.made = s.dispatches[r]?.map Dispatch.made
  beats    : ∀ k, s'.beat k = s.beat k

theorem made_of_origin {x y : Option Dispatch} (h : x.map Dispatch.origin = y.map Dispatch.origin) :
    x.map Dispatch.made = y.map Dispatch.made := by
  have := congrArg (Option.map fun x : Nat × Nat × Prediction => (x.1, x.2.1, x.2.2.asked)) h
  rwa [Option.map_map, Option.map_map] at this

namespace Posts

theorem now (h : Posts c i cursor s s') : s'.now = s.now :=
  congrArg Beat.now (h.beats 0)

theorem features (h : Posts c i cursor s s') : s'.features = s.features :=
  congrArg Beat.features (h.beats 0)

theorem dispatch (hc : s.stage? c ≠ none) (hi : s.sessions[i]? = some session) (before : Text) :
    Posts c i cursor s (s.dispatch c i cursor o before) := by
  have hs := sent_dispatch hi c cursor o before
  have hb (k : Nat) : (s.dispatch c i cursor o before).beat k = s.beat k := beat_dispatch before
  simp only [Service.dispatch] at hs hb ⊢
  generalize [Notice.requested _ _, _, _] = notices at hs hb ⊢
  generalize hd : ({ call := c, session := i, prediction := _, request := _ } : Dispatch) = d at hs hb ⊢
  generalize hu : ((s.noteAll notices).addDispatch d).queue (.startRequest s.dispatches.size) = u at hs hb ⊢
  have hn := Extends.noteAll s notices
  have husessions : u.sessions = s.sessions := by rw [← hu]; exact hn.sessions
  have hiu : u.sessions[i]? = some session := by rw [husessions, hi]
  obtain ⟨ks, session', hk, hg, hsub, _⟩ := keep_eq hiu s.dispatches.size
  have hf := (Moves.stopAll (c := c) u ks).frame
  rw [hk] at hs hb ⊢
  have hstop : (u.stopAll ks).sessions[i]? = some session := by rwa [sessions_stopAll]
  constructor
  case settings => exact hs.settings
  case current  => exact hs.current
  case beats    => exact hb
  case old      => exact fun r hr => made_of_origin (hs.old r hr)
  case stage    =>
    obtain ⟨call, hc⟩ := Option.ne_none_iff_exists'.mp hc
    obtain ⟨call, hc, _⟩ := Option.map_eq_some_iff.mp hc
    rw [stage?, hs.calls, Array.getElem?_modify, if_pos rfl, hc]
    rfl
  case others   =>
    intro k hk
    rw [stage?, hs.calls, Array.getElem?_modify, if_neg (Ne.symm hk), stage?]
  case sessions =>
    intro j x hj
    rw [← husessions, ← sessions_stopAll u ks] at hj
    exact sessions_setSession hstop (Nat.le_of_eq hg.symm) j x hj
  case kept     =>
    intro j
    have hkept := kept_setSession hstop session' j
    have hold : (u.stopAll ks).kept j = s.kept j := by rw [Service.kept, sessions_stopAll, husessions, Service.kept]
    change ((Service.setSession _ i session').kept j).Sublist _
    rw [hkept, hold]
    by_cases hij : i = j
    case neg => rw [if_neg hij, if_neg (Ne.symm hij)]
    case pos =>
      subst hij
      rw [if_pos rfl, if_pos rfl, Service.kept, hi]
      exact hsub
  case new      =>
    have ho := hf.dispatches s.dispatches.size
    have hnew : u.dispatches[s.dispatches.size]? = some d := by
      rw [← hu]
      simp [addDispatch, queue]
    rw [hnew, Option.map_some, Option.map_eq_some_iff] at ho
    obtain ⟨d', hd', ho⟩ := ho
    simp only [Dispatch.origin, Prod.mk.injEq] at ho
    refine ⟨d', hd', ?_⟩
    rw [ho.1, ho.2.1, ho.2.2, ← hd]
    exact ⟨rfl, rfl, rfl, rfl⟩

-- Before that the call may have made room.
theorem of_moves (hm : Moves c s s') (hcalls : s'.calls = s.calls) (hcurrent : s'.current = s.current)
    (hb : ∀ k, s'.beat k = s.beat k) (h : Posts c i cursor s' s'') : Posts c i cursor s s'' := by
  have hf := hm.frame
  have hst (k : Nat) : s'.stage? k = s.stage? k := by rw [stage?, hcalls, stage?]
  constructor
  case settings => exact h.settings.trans hf.settings
  case current  => exact h.current.trans hcurrent
  case beats    => exact fun k => (h.beats k).trans (hb k)
  case stage    => rw [h.stage, hf.size]
  case others   => exact fun k hk => (h.others k hk).trans (hst k)
  case old      => exact fun r hr => (h.old r (hf.size ▸ hr)).trans (made_of_origin (hf.dispatches r))
  case sessions =>
    intro j x hj
    obtain ⟨y, hy, hg⟩ := hf.sessions j x hj
    obtain ⟨z, hz, hg'⟩ := h.sessions j y hy
    exact ⟨z, hz, Nat.le_trans hg hg'⟩
  case kept     =>
    intro j
    have := h.kept j
    rw [hf.size] at this
    split at this
    case isTrue hij  => rw [if_pos hij]; exact this.trans ((hf.kept j).append (.refl _))
    case isFalse hij => rw [if_neg hij]; exact this.trans (hf.kept j)
  case new      =>
    obtain ⟨d, hd, hcall, hsession, hbefore, hat⟩ := h.new
    exact ⟨d, hf.size ▸ hd, hcall, hsession, hbefore, hat.trans (congrArg (fun x => (x.now : Int)) (hb 0))⟩

end Posts

-- A call that has waited sends its request, or is answered.
theorem request_cases (hf : s.features = none) (ha : s.Answerable c) (hc : s.stage? c ≠ none)
    (hi : s.sessions[i]? = some session) :
    Posts c i cursor s (s.request c call i cursor o) ∨ Moves c s (s.request c call i cursor o) := by
  simp only [request]
  split
  case isTrue  => exact .inr (.answer ha [])
  case isFalse =>
    split
    case isTrue  => exact .inl (.dispatch hc hi _)
    case isFalse =>
      split
      case h_1 => exact .inr (.refl s)
      case h_2 =>
        split
        case h_1 => exact .inr (.failCall ha)
        case h_2 => rw [gather_of_features_eq_none hf]; exact .inl (.dispatch hc hi _)

theorem endDebounce_cases (call : Call) {generation : Nat} {accepted : Bool} (hf : s.features = none)
    (hc : s.stage? c = some (.debouncing i cursor generation accepted)) :
    (s.Latest c i cursor ∧ Posts c i cursor s (s.endDebounce c call i cursor generation accepted)) ∨
      Eases s (s.endDebounce c call i cursor generation accepted) := by
  have hease (hm : Moves c s (s.endDebounce c call i cursor generation accepted)) :
      Eases s (s.endDebounce c call i cursor generation accepted) :=
    .of_moves_started hm (fun _ => beat_endDebounce hf) (by simp [hc])
  revert hease
  simp only [endDebounce]
  split
  case h_1 => exact fun _ => .inr (.refl s)
  case h_2 session hi =>
    have ha : s.Answerable c := by simp [Answerable, hc]
    split
    case isTrue =>
      have he := Extends.count s fun n => { n with debounced := n.debounced + 1 }
      exact fun hease => .inr (hease ((Moves.extend he).trans (.answer (he.answerable.mpr ha) [])))
    case isFalse hg =>
      intro hease
      have hm := Moves.enforceLimit (c := c) s i
      have hw := Within.enforceLimit (c := c) s i
      obtain ⟨session', hi', _⟩ := session_enforceLimit hi
      have hst : (s.enforceLimit i).stage? c = some (.debouncing i cursor generation accepted) := by
        rw [stage?, calls_enforceLimit, ← stage?, hc]
      have ha' : (s.enforceLimit i).Answerable c := by simp [Answerable, hst]
      have hne : (s.enforceLimit i).stage? c ≠ none := by simp [hst]
      have hf' : (s.enforceLimit i).features = none :=
        (congrArg Beat.features (beat_enforceLimit (c := c))).trans hf
      rcases request_cases hf' ha' hne hi' with h | h
      case inl =>
        refine .inl ⟨⟨session, accepted, hi, (Classical.not_not.mp hg).symm ▸ hc⟩, ?_⟩
        exact .of_moves hm (calls_enforceLimit s i) hw.current (fun _ => beat_enforceLimit) h
      case inr => exact .inr (hease (hm.trans h))

-- What is always true of a service without language features, so that nothing comes between the end of typing and the
-- request.
structure Unaided (s : Service) : Prop where
  sound    : s.Sound
  features : s.features = none
  direct   : ∀ c i cursor o h unasked, s.stage? c ≠ some (.gathering i cursor o h unasked)

-- In one event at most one call comes to wait, or at most one sends a request.
inductive Happens (s : Service) : Service → Prop
  | ease {s' : Service} (h : Eases s s') : Happens s s'
  | wait {c i : Nat} {cursor : Cursor} {rest : List Turn} {s' : Service} (hr : s.ready = .startCall c :: rest)
    (h : Waits c i cursor { s with ready := rest } s') : Happens s s'
  | post {c i : Nat} {cursor : Cursor} {rest : List Turn} {s' : Service} (hr : s.ready = .resumeCall c :: rest)
    (hl : s.Latest c i cursor) (h : Posts c i cursor { s with ready := rest } s') : Happens s s'

theorem Eases.debouncing {generation : Nat} {accepted : Bool} (h : Eases s s')
    (hc : s'.stage? c = some (.debouncing i cursor generation accepted)) :
    s.stage? c = some (.debouncing i cursor generation accepted) := by
  rcases h.stages c with hst | ⟨_, hst⟩ | ⟨stage, hl, hst⟩
  case inl     => exact hst ▸ hc
  case inr.inl => simp [hst] at hc
  case inr.inr =>
    obtain rfl := Option.some.inj (hst ▸ hc)
    exact False.elim hl

namespace Happens

variable (h : Happens s s')
include h

theorem settings : s'.settings = s.settings := by
  cases h
  case ease he => exact he.settings
  case wait hw => exact hw.settings
  case post hp => exact hp.settings

theorem now : s.now ≤ s'.now := by
  cases h
  case ease he => exact he.now
  case wait hw => exact Nat.le_of_eq hw.now.symm
  case post hp => exact Nat.le_of_eq hp.now.symm

theorem sessions (i : Nat) (session : Session) (hi : s.sessions[i]? = some session) :
    ∃ session' : Session, s'.sessions[i]? = some session' ∧ session.generation ≤ session'.generation := by
  cases h
  case ease he => exact he.sessions i session hi
  case post hp => exact hp.sessions i session hi
  case wait hw =>
    obtain ⟨session', hi', hg⟩ := hw.sessions i session hi
    refine ⟨session', hi', ?_⟩
    split at hg <;> omega

-- A call that waits has waited before, or it has just come to wait.
theorem debouncing {generation : Nat} {accepted : Bool}
    (hc : s'.stage? c = some (.debouncing i cursor generation accepted)) :
    s.stage? c = some (.debouncing i cursor generation accepted) ∨
      ∃ rest, s.ready = .startCall c :: rest ∧ Waits c i cursor { s with ready := rest } s' := by
  cases h
  case ease he => exact .inl (he.debouncing hc)
  case wait k _ _ rest hr hw =>
    by_cases hck : c = k
    case neg => exact .inl (hw.others c hck ▸ hc)
    case pos =>
      subst hck
      obtain ⟨_, _, _, hst⟩ := hw.latest
      rw [hst, Option.some.injEq, Stage.debouncing.injEq] at hc
      obtain ⟨rfl, rfl, _⟩ := hc
      exact .inr ⟨rest, hr, hw⟩
  case post k _ _ _ _ _ hp =>
    by_cases hck : c = k
    case pos => simp [hck, hp.stage] at hc
    case neg => exact .inl (hp.others c hck ▸ hc)

end Happens

namespace Unaided

theorem start {settings : Setup} {backend : Backend} : (start settings backend none).Unaided :=
  ⟨.start, rfl, by simp [Service.start, note, stage?]⟩

theorem popped {rest : List Turn} (h : s.Unaided) : ({ s with ready := rest } : Service).Unaided :=
  ⟨h.sound.popped, h.features, h.direct⟩

theorem takeTurn {rest : List Turn} (h : s.Unaided) (hr : s.ready = t :: rest) :
    Happens s ({ s with ready := rest }.takeTurn t) := by
  have hp : Eases s { s with ready := rest } := .popped hr
  have hlive {r : Nat} (ht : t.request? = some r) : Happens s ({ s with ready := rest }.takeTurn t) :=
    .ease (hp.trans (.live ht))
  cases t
  case startCall c =>
    simp only [Service.takeTurn, withCall]
    split
    case h_2         => exact .ease hp
    case h_1 call hc =>
      have hst : ({ s with ready := rest } : Service).stage? c = some call.stage := by simp [stage?, hc]
      simp only [startCall]
      split
      case h_2    => exact .ease hp
      case h_1 hq =>
        rw [hq] at hst
        split
        case isTrue  =>
          rcases seek_cases (s := { s with ready := rest }) hc hq with ⟨_, _, hw⟩ | he
          case inl => exact .wait hr hw
          case inr => exact .ease (hp.trans he)
        case isFalse =>
          have hm : Moves c { s with ready := rest } (Service.answer { s with ready := rest } c []) :=
            .answer (Moves.answerable_of_queued hst) []
          have hsettles : (Service.answer { s with ready := rest } c []).Settles c :=
            (Lands.answer_nil (by simp [hst]) call.position).settles
          exact .ease (hp.trans (.of_moves hm (fun _ => rfl) (.inr (.inr hsettles))))
  case resumeCall c =>
    simp only [Service.takeTurn, withCall]
    split
    case h_2         => exact .ease hp
    case h_1 call hc =>
      have hst : ({ s with ready := rest } : Service).stage? c = some call.stage := by simp [stage?, hc]
      simp only [resumeCall]
      split
      case h_4      => exact .ease hp
      case h_1 hs   =>
        rw [hs] at hst
        rcases endDebounce_cases call h.popped.features hst with ⟨hl, hpost⟩ | he
        case inl => exact .post hr hl hpost
        case inr => exact .ease (hp.trans he)
      case h_2 hs   => exact absurd (hs ▸ hst) (h.direct _ _ _ _ _ _)
      case h_3 hs   =>
        rw [hs] at hst
        exact .ease (hp.trans (.of_moves_started (.deliver hst) (fun _ => beat_deliver) (by simp [hst])))
  case relay c =>
    simp only [Service.takeTurn, withCall]
    split
    case h_2         => exact .ease hp
    case h_1 call hc =>
      simp only [Service.relay]
      split
      case h_2    => exact .ease hp
      case h_1 i cursor r own hs =>
        exact .ease (hp.trans (.relay fun he => he (.awaiting i cursor r own) (by simp [stage?, hc, hs]) trivial))
  case ring b =>
    cases b
    case call c => exact .ease (.ring hr)
    all_goals exact hlive rfl
  all_goals exact hlive rfl

theorem happens (h : s.Unaided) (e : Event) : Happens s (s.after e) := by
  have hother (ht : e ≠ .turn) (hp : ∀ uri position, e ≠ .provide uri position) (hk : ∀ k, e ≠ .cancel k)
      (hb : ∀ k, (s.after e).beat k = s.beat k) : Happens s (s.after e) :=
    .ease (.of_moves_aside (moves_after ht hp hk) hb)
  cases e
  case turn =>
    simp only [after, takeNext]
    split
    case h_1    => exact .ease (.refl s)
    case h_2 hr => exact h.takeTurn hr
  case advance time => exact .ease (.advance time)
  case provide uri position =>
    simp only [after, Service.provide]
    split
    case h_1 => exact .ease (.refl s)
    case h_2 => exact .ease (.provide _ rfl)
  case cancel c => exact .ease (.cancel c)
  case edit uri span t =>
    refine hother (by simp) (by simp) (by simp) fun k => ?_
    simp only [after, Service.edit]
    split <;> rfl
  case free uri position shown => exact hother (by simp) (by simp) (by simp) fun _ => beat_free uri position shown
  case close uri               => exact hother (by simp) (by simp) (by simp) fun _ => beat_close uri
  case dispose                 => exact hother (by simp) (by simp) (by simp) fun _ => beat_dispose
  case assist f                =>
    have hf : (s.features.map fun _ => f) = s.features := by simp [h.features]
    refine .ease (.of_eq rfl hf (Nat.le_refl _) rfl rfl (fun _ => .inl rfl) fun c _ => ?_)
    exact ⟨fun _ => id, .inl⟩
  all_goals exact hother (by simp) (by simp) (by simp) fun _ => rfl

theorem after (h : s.Unaided) (e : Event) : (s.after e).Unaided := by
  have hsound := h.sound.after e
  generalize hs' : s.after e = s' at hsound
  cases hs' ▸ h.happens e
  case ease he =>
    refine ⟨hsound, he.features.trans h.features, fun c i cursor o x unasked hc => ?_⟩
    rcases he.stages c with hst | ⟨_, hst⟩ | ⟨stage, hl, hst⟩
    case inl     => exact h.direct c i cursor o x unasked (hst ▸ hc)
    case inr.inl => simp [hst] at hc
    case inr.inr =>
      obtain rfl := Option.some.inj (hst ▸ hc)
      exact hl
  case wait k _ _ _ hr hw =>
    refine ⟨hsound, hw.features.trans h.features, fun c i cursor o x unasked hc => ?_⟩
    obtain ⟨_, _, _, hst⟩ := hw.latest
    by_cases hck : c = k
    case pos => simp [hck, hst] at hc
    case neg => exact h.direct c i cursor o x unasked (hw.others c hck ▸ hc)
  case post k _ _ _ hr _ hp =>
    refine ⟨hsound, hp.features.trans h.features, fun c i cursor o x unasked hc => ?_⟩
    by_cases hck : c = k
    case pos => simp [hck, hp.stage] at hc
    case neg => exact h.direct c i cursor o x unasked (hp.others c hck ▸ hc)

theorem run {settings : Setup} {backend : Backend} {allowed : Service → Event → Prop}
    (h : Run allowed (Service.start settings backend none) s) : s.Unaided := by
  induction h
  case refl           => exact start
  case step _ e _ _ ih => exact ih.after e

end Unaided

-- A call that is the latest of its session has been so before, as long as sessions only count on.
theorem Sound.latest (h : s.Sound)
    (hs : ∀ (i : Nat) (session : Session), s.sessions[i]? = some session →
      ∃ session' : Session, s'.sessions[i]? = some session' ∧ session.generation ≤ session'.generation)
    (hc : ∀ generation accepted, s'.stage? c = some (.debouncing i cursor generation accepted) →
      s.stage? c = some (.debouncing i cursor generation accepted))
    (hl : s'.Latest c i cursor) : s.Latest c i cursor := by
  obtain ⟨session, accepted, hi, hst⟩ := hl
  replace hst := hc session.generation accepted hst
  obtain ⟨x, hx, hg⟩ := h.homed c _ hst
  obtain ⟨y, hy, hg'⟩ := hs i x hx
  obtain rfl := Option.some.inj (hi ▸ hy)
  exact ⟨x, accepted, hx, Nat.le_antisymm hg' hg ▸ hst⟩

theorem Eases.latest (h : Eases s s') (hs : s.Sound) (hl : s'.Latest c i cursor) : s.Latest c i cursor :=
  hs.latest h.sessions (fun _ _ => h.debouncing) hl

-- The call that comes to wait is later than any other that waits in its session.
theorem Waits.ne_generation {generation : Nat} {accepted : Bool} {cursor' : Cursor} (h : Waits c i cursor s s')
    (hs : s.Sound) (hc : s.stage? k = some (.debouncing i cursor' generation accepted))
    (hi : s'.sessions[i]? = some session) : session.generation ≠ generation := by
  obtain ⟨x, hx, hg⟩ := hs.homed k _ hc
  obtain ⟨y, hy, hg'⟩ := h.sessions i x hx
  obtain rfl := Option.some.inj (hi ▸ hy)
  rw [if_pos rfl] at hg'
  omega

theorem Waits.latest_cases {j : Nat} {cursor' : Cursor} (h : Waits c i cursor s s') (hs : s.Sound)
    (hl : s'.Latest k j cursor') : (k = c ∧ j = i ∧ cursor' = cursor) ∨ (k ≠ c ∧ s.Latest k j cursor') := by
  obtain ⟨session, accepted, hj, hk⟩ := hl
  by_cases hkc : k = c
  case pos =>
    subst hkc
    obtain ⟨_, _, _, hst⟩ := h.latest
    rw [hst, Option.some.injEq, Stage.debouncing.injEq] at hk
    exact .inl ⟨rfl, hk.1.symm, hk.2.1.symm⟩
  case neg =>
    rw [h.others k hkc] at hk
    obtain ⟨x, hx, _⟩ := hs.homed k _ hk
    obtain ⟨y, hy, hg⟩ := h.sessions j x hx
    obtain rfl := Option.some.inj (hj ▸ hy)
    refine .inr ⟨hkc, x, accepted, hx, ?_⟩
    by_cases hji : j = i
    case pos => subst hji; exact absurd rfl (h.ne_generation hs hk hj)
    case neg => rw [if_neg hji] at hg; exact hg ▸ hk

-- Calls that wait in one session have come to wait at different counts.
def Counted (s : Service) : Prop :=
  ∀ c c' i generation cursor cursor' accepted accepted',
    s.stage? c = some (.debouncing i cursor generation accepted) →
      s.stage? c' = some (.debouncing i cursor' generation accepted') → c = c'

-- Only one call is the latest of a session, and once it has sent its request none is.
theorem Posts.latest {j : Nat} {cursor' : Cursor} (h : Posts c i cursor s s') (hs : s.Sound) (hcount : s.Counted)
    (hi : s.Latest c i cursor) (hl : s'.Latest k j cursor') : k ≠ c ∧ j ≠ i ∧ s.Latest k j cursor' := by
  have hkc : k ≠ c := by
    rintro rfl
    obtain ⟨_, _, _, hst⟩ := hl
    simp [h.stage] at hst
  have hk : s.Latest k j cursor' := hs.latest h.sessions (fun _ _ hst => h.others k hkc ▸ hst) hl
  refine ⟨hkc, ?_, hk⟩
  rintro rfl
  obtain ⟨x, _, hx, hc⟩ := hi
  obtain ⟨y, _, hy, hk⟩ := hk
  obtain rfl := Option.some.inj (hx.symm.trans hy)
  exact hkc (hcount _ _ _ _ _ _ _ _ hk hc)

theorem Counted.after (h : s.Counted) (hu : s.Unaided) (e : Event) : (s.after e).Counted := by
  generalize hs' : s.after e = s'
  cases hs' ▸ hu.happens e
  case ease he => exact fun c c' i g x x' a a' hc hc' => h c c' i g x x' a a' (he.debouncing hc) (he.debouncing hc')
  case wait k j _ _ _ hw =>
    obtain ⟨session, _, hj, hk⟩ := hw.latest
    have hne {c i g : Nat} {x x' : Cursor} {a a' : Bool} (hck : c ≠ k) (hc : s'.stage? c = some (.debouncing i x g a))
        (hk' : s'.stage? k = some (.debouncing i x' g a')) : False := by
      rw [hk, Option.some.injEq, Stage.debouncing.injEq] at hk'
      obtain ⟨rfl, _, rfl, _⟩ := hk'
      exact hw.ne_generation hu.sound.popped (hw.others c hck ▸ hc) hj rfl
    intro c c' i g x x' a a' hc hc'
    by_cases hck : c = k
    case pos =>
      subst hck
      by_cases hck' : c' = c
      case pos => exact hck'.symm
      case neg => exact (hne hck' hc' hc).elim
    case neg =>
      by_cases hck' : c' = k
      case pos => subst hck'; exact (hne hck hc hc').elim
      case neg => exact h c c' i g x x' a a' (hw.others c hck ▸ hc) (hw.others c' hck' ▸ hc')
  case post k _ _ _ _ _ hpost =>
    have hne {c i g : Nat} {x : Cursor} {a : Bool} (hc : s'.stage? c = some (.debouncing i x g a)) : c ≠ k := by
      rintro rfl
      simp [hpost.stage] at hc
    intro c c' i g x x' a a' hc hc'
    exact h c c' i g x x' a a' (hpost.others c (hne hc) ▸ hc) (hpost.others c' (hne hc') ▸ hc')

theorem Counted.run {settings : Setup} {backend : Backend} {allowed : Service → Event → Prop}
    (h : Run allowed (start settings backend none) s) : s.Counted := by
  induction h
  case refl            => exact fun c c' i g x x' a a' hc => by simp [start, note, stage?] at hc
  case step _ e hr _ ih => exact ih.after (.run hr) e

end GhostText.Service
