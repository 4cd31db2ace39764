import GhostText.Proofs.Service.Aside
import GhostText.Proofs.Match.Placement

namespace GhostText.Service

variable {s s' s'' : Service} {uri : Text} {cursor : Cursor} {call : Call} {document : Document} {session : Session}
  {stage : Stage} {q : List Turn} {c i r : Nat} {x y : Option Nat} {P : Text → Text → Prop}

-- The predictions that are kept, except perhaps one, are settled and of this sort.
def Clear (s : Service) (i : Nat) (x : Option Nat) (P : Text → Text → Prop) : Prop :=
  ∀ k ∈ s.kept i, some k ≠ x → ∃ p, s.prediction? k = some p ∧ p.isPending = false ∧ P p.before p.insertText

def Misses (before stored insertion : Text) : Prop :=
  Bounds.match? before stored insertion = none

def Unsent (s : Service) (c : Nat) : Prop :=
  ∀ (r : Nat) (d : Dispatch), s.dispatches[r]? = some d → d.call ≠ c

-- A prediction is kept that was made for this text, and no other that applies to it.
structure Shelved (uri : Text) (cursor : Cursor) (i r : Nat) (s : Service) : Prop where
  enabled : s.settings.enabled = true
  session : s.session? uri = some i
  kept    : r ∈ s.kept i
  before  : ∃ p, s.prediction? r = some p ∧ p.before = cursor.before
  clear   : s.Clear i (some r) (Misses cursor.before)

-- The call is yet to send its request, and nothing that is kept applies.
structure Missed (call : Call) (cursor : Cursor) (c i : Nat) (s : Service) : Prop where
  enabled : s.settings.enabled = true
  session : s.session? call.uri = some i
  clear   : s.Clear i none (Misses cursor.before)
  unsent  : s.Unsent c

def Stage.Waits (i : Nat) (cursor : Cursor) (stage : Stage) : Prop :=
  (∃ generation accepted, stage = .debouncing i cursor generation accepted) ∨
    ∃ o h unasked, stage = .gathering i cursor o h unasked

inductive Course (call : Call) (cursor : Cursor) (c : Nat) (s : Service) : Prop
  | queued (hc : s.calls[c]? = some { call with stage := .queued })
    (hk : ∀ i, s.session? call.uri = some i → s.Clear i none fun _ _ => True) (hn : s.Unsent c)
  | waiting {i : Nat} {stage : Stage} (hc : s.calls[c]? = some { call with stage }) (hs : stage.Waits i cursor)
    (h : Missed call cursor c i s)
  | awaiting {i r : Nat} (hc : s.calls[c]? = some { call with stage := .awaiting i cursor r true })
    (h : Shelved call.uri cursor i r s)
    (hn : ∀ (k : Nat) (d : Dispatch), s.dispatches[k]? = some d → d.call = c → k = r)
  | answered {i r : Nat} {p : Prediction} (hr : s.prediction? r = some p) (hf : p.status = .finished)
    (hc : s.calls[c]? = some { call with
      stage := .answered [Completion.of s.settings.repeatRule p cursor call.position 0] })
    (h : Shelved call.uri cursor i r s)
  -- the call is over, and has brought nothing
  | lost (hc : ∀ call, s.calls[c]? = some call → call.stage.Over)
    (hn : ∀ (r : Nat) (d : Dispatch), s.dispatches[r]? = some d → d.call = c → d.prediction.status = .failed)

theorem Clear.mono (h : s.Clear i x P) (hk : ∀ k ∈ s'.kept i, some k ≠ y → k ∈ s.kept i ∧ some k ≠ x)
    (hp : ∀ k p, s.prediction? k = some p → ∃ p', s'.prediction? k = some p' ∧ p.Ages p') : s'.Clear i y P := by
  intro k hm hy
  obtain ⟨hm, hx⟩ := hk k hm hy
  obtain ⟨p, hr, hs, hpp⟩ := h k hm hx
  obtain ⟨p', hr', ha⟩ := hp k p hr
  exact ⟨p', hr', ha.isPending hs, by rwa [ha.before, ha.insertText hs]⟩

-- What is said of a document reads its session, its cache and the requests, and nothing else.
theorem Clear.congr (h : s.Clear i x P) (hd : s'.dispatches = s.dispatches) (hk : s'.kept i = s.kept i) :
    s'.Clear i x P :=
  h.mono (fun _ hm hx => ⟨hk ▸ hm, hx⟩) fun k p hp => ⟨p, prediction?_congr hd k ▸ hp, .refl p⟩

theorem Shelved.congr (h : Shelved uri cursor i r s) (hs : s'.settings = s.settings) (hu : s'.current = s.current)
    (hd : s'.dispatches = s.dispatches) (hk : s'.kept i = s.kept i) : Shelved uri cursor i r s' where
  enabled := hs ▸ h.enabled
  session := session?_congr hu uri ▸ h.session
  kept    := hk ▸ h.kept
  before  := prediction?_congr hd r ▸ h.before
  clear   := h.clear.congr hd hk

theorem Missed.congr (h : Missed call cursor c i s) (hs : s'.settings = s.settings) (hu : s'.current = s.current)
    (hd : s'.dispatches = s.dispatches) (hk : s'.kept i = s.kept i) : Missed call cursor c i s' where
  enabled := hs ▸ h.enabled
  session := session?_congr hu call.uri ▸ h.session
  clear   := h.clear.congr hd hk
  unsent  := by
    rw [Unsent, hd]
    exact h.unsent

-- A turn is taken out of the queue.
theorem Course.popped {rest : List Turn} (h : Course call cursor c s) :
    Course call cursor c { s with ready := rest } := by
  cases h
  case queued hc hk hn     => exact .queued hc hk hn
  case waiting hc hs h     => exact .waiting hc hs (h.congr rfl rfl rfl rfl)
  case awaiting hc h hn    => exact .awaiting hc (h.congr rfl rfl rfl rfl) hn
  case answered hr hf hc h => exact .answered hr hf hc (h.congr rfl rfl rfl rfl)
  case lost hc hn          => exact .lost hc hn

namespace Aside

variable (ha : Aside uri c s s')
include ha

theorem prediction? {p : Prediction} (h : s.prediction? r = some p) : ∃ p', s'.prediction? r = some p' ∧ p.Ages p' := by
  obtain ⟨d, hd, rfl⟩ := Option.map_eq_some_iff.mp h
  obtain ⟨d', hd', _, hages⟩ := ha.dispatches r d hd
  exact ⟨d'.prediction, by simp [Service.prediction?, hd'], hages⟩

theorem kept (hi : s.session? uri = some i) : s'.kept i = s.kept i := by
  rw [Service.kept, ha.sessions i hi, Service.kept]

theorem clear (hi : s.session? uri = some i) (h : s.Clear i x P) : s'.Clear i x P :=
  h.mono (fun _ hm hx => ⟨ha.kept hi ▸ hm, hx⟩) fun _ _ => ha.prediction?

-- The call sends no request meanwhile.
theorem exists_dispatch {d : Dispatch} (hd : s'.dispatches[r]? = some d) (hc : d.call = c) :
    ∃ d₀ : Dispatch, s.dispatches[r]? = some d₀ ∧ d₀.call = c ∧ d₀.prediction.Ages d.prediction := by
  cases hr : s.dispatches[r]?
  case none    => exact absurd hc (ha.sent r d hd hr)
  case some d₀ =>
    obtain ⟨d', hd', hc', hages⟩ := ha.dispatches r d₀ hr
    obtain rfl := Option.some.inj (hd ▸ hd')
    exact ⟨d₀, rfl, hc'.symm.trans hc, hages⟩

theorem unsent (h : s.Unsent c) : s'.Unsent c := by
  intro r d hd hc
  obtain ⟨d₀, hd₀, hc₀, _⟩ := ha.exists_dispatch hd hc
  exact h r d₀ hd₀ hc₀

theorem shelved (h : Shelved uri cursor i r s) : Shelved uri cursor i r s' where
  enabled := ha.settings ▸ h.enabled
  session := ha.session? ▸ h.session
  kept    := ha.kept h.session ▸ h.kept
  before  := by
    obtain ⟨p, hp, hb⟩ := h.before
    obtain ⟨p', hp', hages⟩ := ha.prediction? hp
    exact ⟨p', hp', hages.before.trans hb⟩
  clear   := ha.clear h.session h.clear

theorem course (hu : call.uri = uri) (h : Course call cursor c s) : Course call cursor c s' := by
  subst hu
  cases h
  case queued hc hk hn =>
    exact .queued (ha.own ▸ hc) (fun i hi => ha.clear (ha.session? ▸ hi) (hk i (ha.session? ▸ hi))) (ha.unsent hn)
  case waiting hc hs h =>
    exact .waiting (ha.own ▸ hc) hs
      ⟨ha.settings ▸ h.enabled, ha.session? ▸ h.session, ha.clear h.session h.clear, ha.unsent h.unsent⟩
  case awaiting hc h hn =>
    refine .awaiting (ha.own ▸ hc) (ha.shelved h) fun k d hd hdc => ?_
    obtain ⟨d₀, hd₀, hc₀, _⟩ := ha.exists_dispatch hd hdc
    exact hn k d₀ hd₀ hc₀
  case answered p hr hf hc h =>
    obtain ⟨p', hr', hages⟩ := ha.prediction? hr
    have hs := Prediction.isPending_of_status (p := p) (by simp [hf])
    refine .answered hr' (hages.status hs ▸ hf) ?_ (ha.shelved h)
    rw [ha.own, hc, ha.settings, hages.completion hs]
  case lost hc hn =>
    refine .lost (ha.own ▸ hc) fun k d hd hdc => ?_
    obtain ⟨d₀, hd₀, hc₀, hages⟩ := ha.exists_dispatch hd hdc
    have hf := hn k d₀ hd₀ hc₀
    rw [hages.status (Prediction.isPending_of_status (by simp [hf])), hf]

end Aside

-- The call comes to stand elsewhere, and no request and no cache changes.
structure Stands (c : Nat) (stage : Stage) (s s' : Service) : Prop where
  settings   : s'.settings = s.settings
  current    : s'.current = s.current
  dispatches : s'.dispatches = s.dispatches
  kept       : ∀ i, s'.kept i = s.kept i
  calls      : s'.calls = s.calls.modify c ({ · with stage })

namespace Stands

theorem setCall (s : Service) (c : Nat) (stage : Stage) : Stands c stage s (s.setCall c stage) :=
  ⟨rfl, rfl, rfl, fun _ => rfl, rfl⟩

theorem of_extends (h : Extends q s s') (hs : Stands c stage s' s'') : Stands c stage s s'' where
  settings   := hs.settings.trans h.settings
  current    := hs.current.trans h.current
  dispatches := hs.dispatches.trans h.dispatches
  kept       := fun i => (hs.kept i).trans (h.kept i)
  calls      := by rw [hs.calls, h.calls]

theorem then_extends (hs : Stands c stage s s') (h : Extends q s' s'') : Stands c stage s s'' where
  settings   := h.settings.trans hs.settings
  current    := h.current.trans hs.current
  dispatches := h.dispatches.trans hs.dispatches
  kept       := fun i => (h.kept i).trans (hs.kept i)
  calls      := h.calls.trans hs.calls

theorem complete (s : Service) (c : Nat) (call : Call) (cursor : Cursor) (p : Prediction) (b : Bounds) :
    Stands c (.answered [Completion.of s.settings.repeatRule p cursor call.position b.index]) s
      (s.complete c call cursor p b) :=
  of_extends (.noteAll s _) (setCall _ c _)

theorem failCall (s : Service) (c : Nat) (call : Call) : Stands c (.answered []) s (s.failCall c call) :=
  of_extends (.note s _) (of_extends (.count _ _) (setCall _ c _))

theorem serveCached {id : Nat} {p : Prediction} {b : Bounds} (hp : p.isPending = false) :
    ∃ l, Stands c (.answered l) s (s.serveCached c call i cursor id p b) := by
  have he := Extends.cacheHit s p
  simp only [Service.serveCached]
  split
  case h_1    => exact ⟨_, of_extends he (complete _ c call cursor p b)⟩
  case h_2 hs => cases hst : p.stage <;> simp_all [Prediction.status, Prediction.isPending]
  case h_3    => exact ⟨_, of_extends he (setCall _ c _)⟩

theorem resumeAfter (s : Service) (delay k : Nat) : ∃ q, Extends q s (s.resumeAfter delay k) := by
  simp only [Service.resumeAfter]
  split
  case isTrue  => exact ⟨_, .queue s _⟩
  case isFalse => exact ⟨_, .setAlarm s _ _⟩

theorem debounce (hi : s.sessions[i]? = some session) (c : Nat) (call : Call) (cursor : Cursor) (accepted : Bool) :
    ∃ stage, (stage = .answered [] ∨ stage.Waits i cursor) ∧
      Stands c stage s (s.debounce c call i session cursor accepted) := by
  have hkept (j : Nat) : (s.setSession i { session with generation := session.generation + 1 }).kept j = s.kept j := by
    rw [kept_setSession hi]
    split
    case isTrue hij  => simp [← hij, Service.kept, hi]
    case isFalse     => rfl
  have hs {stage : Stage} {t : Service}
      (h : Stands c stage (s.setSession i { session with generation := session.generation + 1 }) t) :
      Stands c stage s t :=
    ⟨h.settings, h.current, h.dispatches, fun j => (h.kept j).trans (hkept j), h.calls⟩
  simp only [Service.debounce]
  split
  case isTrue  => exact ⟨_, .inl rfl, hs (failCall _ c call)⟩
  case isFalse =>
    obtain ⟨_, he⟩ := resumeAfter ((s.setSession i { session with generation := session.generation + 1 }).setCall c
      (.debouncing i cursor (session.generation + 1) accepted)) s.settings.debounce.toNat c
    exact ⟨_, .inr (.inl ⟨_, _, rfl⟩), hs ((setCall _ c _).then_extends he)⟩

variable (h : Stands c stage s s')
include h

theorem getElem?_calls (hc : s.calls[c]? = some call) : s'.calls[c]? = some { call with stage } := by
  rw [h.calls, Array.getElem?_modify, if_pos rfl, hc, Option.map_some]

theorem unsent (hn : s.Unsent c) : s'.Unsent c := by
  rwa [Unsent, h.dispatches]

theorem missed (hm : Missed call cursor c i s) : Missed call cursor c i s' :=
  hm.congr h.settings h.current h.dispatches (h.kept i)

theorem shelved (hk : Shelved uri cursor i r s) : Shelved uri cursor i r s' :=
  hk.congr h.settings h.current h.dispatches (h.kept i)

theorem lost (hs : stage.Over) {call' : Call} (hc : s.calls[c]? = some call') (hn : s.Unsent c) :
    Course call cursor c s' := by
  refine .lost (fun _ hc' => ?_) fun r d hd hdc => absurd hdc (h.unsent hn r d hd)
  obtain rfl := Option.some.inj (h.getElem?_calls hc ▸ hc')
  exact hs

end Stands

theorem match?_eq_none_of_findMatch {before : Text} {l : List (Nat × Prediction)} (h : (findMatch before l).1 = none) :
    ∀ x ∈ l, Bounds.match? before x.2.before x.2.insertText = none := by
  induction l
  case nil => simp
  case cons x l ih =>
    simp only [findMatch] at h
    split at h
    case h_1    => simp at h
    case h_2 hx => simpa [Bounds.match?, hx] using ih h

-- A session that comes to be keeps nothing.
theorem clear_sessionFor (hk : ∀ i, s.session? uri = some i → s.Clear i none P) :
    (s.sessionFor uri).1.Clear (s.sessionFor uri).2 none P := by
  cases hu : s.session? uri
  case some i =>
    rw [sessionFor_of_some hu]
    exact hk i hu
  case none =>
    have hi : (s.sessionFor uri).2 = s.sessions.size := by simp [sessionFor, hu]
    intro k hm
    rw [kept_sessionFor, hi] at hm
    simp [Service.kept] at hm

-- The first turn of the call.
theorem Course.seek (ho : s.Owned) (hc : s.calls[c]? = some { call with stage := .queued })
    (hb : s.buffers[call.buffer]? = some document) (he : s.settings.enabled = true)
    (hk : ∀ i, s.session? call.uri = some i → s.Clear i none fun _ _ => True) (hn : s.Unsent c) :
    Course call (document.cursorAt call.position) c (s.seek c { call with stage := .queued }) := by
  simp only [Service.seek]
  have hclear := clear_sessionFor hk
  have hu := session?_sessionFor s call.uri call.uri
  rw [if_pos rfl] at hu
  obtain ⟨session, hi⟩ := (ho.sessionFor call.uri).exists_session hu
  have hcalls := (Shifts.sessionFor (l := 0) s call.uri).2
  have hdispatches := (ready_dispatches_sessionFor s call.uri).2
  have hfixed := fixed_sessionFor s c call.uri
  generalize s.sessionFor call.uri = x at hu hi hcalls hdispatches hfixed hclear ⊢
  obtain ⟨s, i⟩ := x
  dsimp only at hu hi hcalls hdispatches hfixed hclear ⊢
  rw [← hcalls] at hc
  rw [← hfixed.buffers] at hb
  rw [← hfixed.settings] at he
  replace hn : s.Unsent c := by rwa [Unsent, hdispatches]
  simp only [hb, hi]
  have hs := Extends.noteAll s (findMatch (document.cursorAt call.position).before (s.predictionsIn session)).2
  split
  case h_1 id p b hf =>
    obtain ⟨hm, hp⟩ := (mem_predictionsIn_iff hi).mp (Moves.mem_of_findMatch hf)
    obtain ⟨p', hp', hpending, _⟩ := hclear id hm (by simp)
    obtain rfl := Option.some.inj (hp ▸ hp')
    obtain ⟨l, hl⟩ := Stands.serveCached hpending
    exact (hl.of_extends hs).lost trivial hc hn
  case h_2 hf =>
    split
    case h_2 => exact ((Stands.failCall _ c _).of_extends hs).lost trivial hc hn
    case h_1 accepted _ =>
      rw [← hs.sessions] at hi
      obtain ⟨stage, hw, hst⟩ :=
        Stands.debounce hi c { call with stage := .queued } (document.cursorAt call.position) accepted
      replace hst := hst.of_extends hs
      cases hw
      case inl hover => exact hst.lost (hover ▸ trivial) hc hn
      case inr hw    =>
        have hc' := hst.getElem?_calls hc
        refine .waiting hc' hw (hst.missed ⟨he, hu, fun k hm hx => ?_, hn⟩)
        obtain ⟨p, hp, hpending, _⟩ := hclear k hm hx
        refine ⟨p, hp, hpending, match?_eq_none_of_findMatch hf (k, p) ?_⟩
        rw [hs.sessions] at hi
        exact (mem_predictionsIn_iff hi).mpr ⟨hm, hp⟩

-- The call sends its request and awaits it. The prediction is kept, whatever leaves the cache for it.
structure Sent (c i : Nat) (cursor : Cursor) (s s' : Service) : Prop where
  settings : s'.settings = s.settings
  current  : s'.current = s.current
  calls    : s'.calls = s.calls.modify c ({ · with stage := .awaiting i cursor s.dispatches.size true })
  new      : ∃ d : Dispatch, s'.dispatches[s.dispatches.size]? = some d ∧ d.prediction.before = cursor.before
  old      : ∀ k : Nat, k ≠ s.dispatches.size →
    s'.dispatches[k]?.map Dispatch.origin = s.dispatches[k]?.map Dispatch.origin
  kept     : s.dispatches.size ∈ s'.kept i
  others   : ∀ k ∈ s'.kept i, k ≠ s.dispatches.size → k ∈ s.kept i

theorem sent_dispatch (hi : s.sessions[i]? = some session) (c : Nat) (cursor : Cursor) (o : Options) (before : Text) :
    Sent c i cursor s (s.dispatch c i cursor o before) := by
  simp only [Service.dispatch]
  generalize [Notice.requested _ _, _, _] = notices
  generalize hd : ({ call := c, session := i, prediction := _, request := _ } : Dispatch) = d
  generalize hu : ((s.noteAll notices).addDispatch d).queue (.startRequest s.dispatches.size) = u
  have hn := Extends.noteAll s notices
  have hiu : u.sessions[i]? = some session := by rw [← hu, ← hi, ← hn.sessions]; rfl
  have hdisp (k : Nat) : u.dispatches[k]? = if k = s.dispatches.size then some d else s.dispatches[k]? := by
    rw [← hn.dispatches, ← hu]
    exact Array.getElem?_push
  have hmem := mem_kept_keep hiu s.dispatches.size
  obtain ⟨ks, session', hk, _, hsub, _⟩ := keep_eq hiu s.dispatches.size
  have hf := (Moves.stopAll (c := c) u ks).frame
  have ho (k : Nat) : (u.keep i s.dispatches.size).dispatches[k]?.map Dispatch.origin =
      if k = s.dispatches.size then some d.origin else s.dispatches[k]?.map Dispatch.origin := by
    rw [hk, setSession, hf.dispatches, hdisp]
    split <;> rfl
  constructor
  case settings =>
    have : (u.keep i s.dispatches.size).settings = u.settings := by rw [hk]; exact hf.settings
    exact this.trans (hu ▸ hn.settings)
  case current  =>
    have : (u.keep i s.dispatches.size).current = u.current := by rw [hk]; exact current_stopAll u ks
    exact this.trans (hu ▸ hn.current)
  case calls    =>
    have : (u.keep i s.dispatches.size).calls = u.calls := by rw [hk]; exact calls_stopAll u ks
    have hcalls : u.calls = s.calls := hu ▸ hn.calls
    rw [setCall, count, this, hcalls]
  case kept     => exact hmem
  case others   =>
    intro k hm hne
    have hs : (u.stopAll ks).sessions[i]? = some session := by rwa [sessions_stopAll]
    change k ∈ (u.keep i s.dispatches.size).kept i at hm
    rw [hk, kept_setSession hs, if_pos rfl] at hm
    have := (List.mem_append.mp (hsub.mem hm)).resolve_right (by simpa using hne)
    simpa [Service.kept, hi] using this
  case old      =>
    intro k hne
    exact (ho k).trans (if_neg hne)
  case new      =>
    have := ho s.dispatches.size
    rw [if_pos rfl, Option.map_eq_some_iff] at this
    obtain ⟨d', hd', horigin⟩ := this
    have hp : d'.prediction = d.prediction := congrArg (·.2.2) horigin
    exact ⟨d', hd', by rw [hp, ← hd]⟩

theorem Sent.course (hs : Sent c i cursor s s') (h : Missed call cursor c i s)
    (hc : s.calls[c]? = some { call with stage }) : Course call cursor c s' := by
  obtain ⟨d, hd, hb⟩ := hs.new
  have hold {k : Nat} {p : Prediction} (hp : s.prediction? k = some p) : s'.prediction? k = some p := by
    obtain ⟨d₀, hd₀, _⟩ := Option.map_eq_some_iff.mp hp
    have hlt := (Array.getElem?_eq_some_iff.mp hd₀).1
    have := congrArg (Option.map (·.2.2)) (hs.old k (Nat.ne_of_lt hlt))
    simp only [Option.map_map, Function.comp_def, Dispatch.origin] at this
    rw [prediction?, this, ← hp, prediction?]
  refine .awaiting ?calls ⟨?enabled, ?session, hs.kept, ⟨_, ?new, hb⟩, ?clear⟩ ?only
  case calls   => rw [hs.calls, Array.getElem?_modify, if_pos rfl, hc, Option.map_some]
  case enabled => exact hs.settings ▸ h.enabled
  case session => rw [session?, hs.current, ← session?, h.session]
  case new     => rw [prediction?, hd, Option.map_some]
  case clear   =>
    refine h.clear.mono (fun k hm hx => ⟨hs.others k hm (by simpa using hx), by simp⟩) fun k p hp => ?_
    exact ⟨p, hold hp, .refl p⟩
  case only    =>
    intro k d' hd' hdc
    by_contra hne
    have := hs.old k hne
    rw [hd', Option.map_some, eq_comm, Option.map_eq_some_iff] at this
    obtain ⟨d₀, hd₀, ho⟩ := this
    exact h.unsent k d₀ hd₀ ((congrArg (·.1) ho).trans hdc)

theorem Missed.extends (h : Missed call cursor c i s) (he : Extends q s s') : Missed call cursor c i s' :=
  h.congr he.settings he.current he.dispatches (he.kept i)

namespace Missed

-- No request runs that would have to make room.
theorem enforceLimit_eq (h : Missed call cursor c i s) : s.enforceLimit i = s := by
  simp only [Service.enforceLimit]
  split
  case h_1 => rfl
  case h_2 session hi =>
    have hn : (s.predictionsIn session).filter (·.2.isPending) = [] := by
      refine List.filter_eq_nil_iff.mpr fun x hx => ?_
      obtain ⟨hm, hp⟩ := (mem_predictionsIn_iff hi).mp hx
      obtain ⟨p, hp', hs, _⟩ := h.clear x.1 hm (by simp)
      obtain rfl := Option.some.inj (hp ▸ hp')
      simp [hs]
    rw [hn]

variable {o : Options} (h : Missed call cursor c i s) (hc : s.calls[c]? = some { call with stage })
include h hc

theorem gather (hi : s.sessions[i]? = some session) (x : Hints) (unasked : List Hints.Provider) :
    Course call cursor c (s.gather c i cursor o x unasked) := by
  induction unasked generalizing s x
  case nil => exact (sent_dispatch hi c cursor o _).course h hc
  case cons p rest ih =>
    simp only [Service.gather]
    split
    case h_1 => exact (sent_dispatch hi c cursor o _).course h hc
    case h_2 f _ =>
      split
      case h_1 =>
        have he : Extends [] s (s.ask f x p).1 := .noteAll s _
        exact ih (h.extends he) (he.calls ▸ hc) (he.sessions ▸ hi) _
      case h_2 delay _ =>
        obtain ⟨_, he⟩ := Stands.resumeAfter (s.setCall c (.gathering i cursor o x (p :: rest))) delay c
        have hs := (Stands.setCall s c _).then_extends he
        have hc' := hs.getElem?_calls hc
        exact .waiting hc' (.inr ⟨_, _, _, rfl⟩) (hs.missed h)

theorem request (hi : s.sessions[i]? = some session) (hs : stage.Waits i cursor) :
    Course call cursor c (s.request c { call with stage } i cursor o) := by
  simp only [Service.request]
  split
  case isTrue => exact (Stands.setCall s c _).lost trivial hc h.unsent
  case isFalse =>
    split
    case isTrue  => exact (sent_dispatch hi c cursor o _).course h hc
    case isFalse =>
      split
      case h_1 => exact .waiting hc hs h
      case h_2 =>
        split
        case h_1 => exact (Stands.failCall s c _).lost trivial hc h.unsent
        case h_2 => exact h.gather hc hi _ _

theorem endDebounce {generation : Nat} {accepted : Bool} (hs : stage.Waits i cursor) :
    Course call cursor c (s.endDebounce c { call with stage } i cursor generation accepted) := by
  simp only [Service.endDebounce]
  split
  case h_1 => exact .waiting hc hs h
  case h_2 session hi =>
    split
    case isTrue =>
      have he := Extends.count s fun n => { n with debounced := n.debounced + 1 }
      exact ((Stands.setCall _ c _).of_extends he).lost trivial hc h.unsent
    case isFalse =>
      rw [h.enforceLimit_eq]
      exact h.request hc hi hs

theorem askNext (hi : s.sessions[i]? = some session) (x : Hints) (unasked : List Hints.Provider) :
    Course call cursor c (s.askNext c i cursor o x unasked) := by
  simp only [Service.askNext]
  split
  case h_1 => exact (sent_dispatch hi c cursor o _).course h hc
  case h_2 =>
    split
    case h_1 => exact (sent_dispatch hi c cursor o _).course h hc
    case h_2 p _ _ f _ =>
      have he : Extends [] s (s.ask f x p).1 := .noteAll s _
      exact (h.extends he).gather (he.calls ▸ hc) (he.sessions ▸ hi) _ _

end Missed

-- The result of its request comes to the call.
theorem Shelved.deliver (h : Shelved call.uri cursor i r s)
    (hc : s.calls[c]? = some { call with stage := .awaiting i cursor r true })
    (hn : ∀ (k : Nat) (d : Dispatch), s.dispatches[k]? = some d → d.call = c → k = r) :
    Course call cursor c (s.deliver c { call with stage := .awaiting i cursor r true } i cursor r true) := by
  simp only [Service.deliver]
  split
  case h_1 => exact .awaiting hc h hn
  case h_2 p hp =>
    split
    case h_1 => exact .awaiting hc h hn
    case h_2 result hr =>
      split
      case isTrue hok =>
        have hf : p.status = .failed := by
          cases hs : p.stage <;> simp_all [Prediction.result?, Prediction.status]
          simp [← hr, RequestResult.ok] at hok
        have hframe := (Moves.forget (c := c) s i r).frame
        refine .lost (fun call' hc' => ?_) fun k d hd hdc => ?_
        case refine_1 =>
          rw [answer, setCall, calls_forget, Array.getElem?_modify, if_pos rfl, hc] at hc'
          exact Option.some.inj hc' ▸ trivial
        case refine_2 =>
          obtain ⟨d₀, hd₀, hcall, _, hpred⟩ := hframe.symm_dispatch hd
          obtain rfl := hn k d₀ hd₀ (hcall.symm.trans hdc)
          rw [prediction?, hd₀, Option.map_some, Option.some.injEq] at hp
          rw [hpred, hp, hf]
      case isFalse hok =>
        have hf : p.status = .finished := by
          cases hs : p.stage <;> simp_all [Prediction.result?, Prediction.status]
          simp [← hr, RequestResult.ok] at hok
        rw [if_pos trivial]
        have hs := Stands.complete s c { call with stage := .awaiting i cursor r true } cursor p .noNewTyping
        have hc' := hs.getElem?_calls hc
        exact .answered (prediction?_congr hs.dispatches r ▸ hp) hf (hs.settings ▸ hc') (hs.shelved h)

theorem startCall_of_ne_queued (h : call.stage ≠ .queued) : s.startCall c call = s := by
  cases hs : call.stage <;> simp_all [startCall]

theorem takeTurn_startCall_of_ne_queued (h : s.stage? c ≠ some .queued) : s.takeTurn (.startCall c) = s := by
  simp only [takeTurn, withCall]
  split
  case h_2         => rfl
  case h_1 call hc => exact startCall_of_ne_queued fun hq => h (by simp [stage?, hc, hq])

theorem Stage.session?_of_over (h : stage.Over) : stage.session? = none := by
  cases stage <;> simp_all [Stage.Over, Stage.session?]

-- A turn of the call itself.
theorem Course.own {t : Turn} (ho : s.Owned) (hb : s.buffers[call.buffer]? = some document)
    (h : Course call (document.cursorAt call.position) c s) (ht : t = .startCall c ∨ t = .resumeCall c) :
    Course call (document.cursorAt call.position) c (s.takeTurn t) := by
  rcases ht with rfl | rfl <;> simp only [takeTurn, withCall]
  case inl =>
    have hstays {stage : Stage} (hc : s.calls[c]? = some { call with stage }) (hq : stage ≠ .queued) :
        Course call (document.cursorAt call.position) c (s.startCall c { call with stage }) := by
      rwa [startCall_of_ne_queued hq]
    cases h' : h
    case queued hc hk hn =>
      simp only [hc, startCall]
      split
      case isTrue he => exact .seek ho hc hb he hk hn
      case isFalse   => exact (Stands.setCall s c _).lost trivial hc hn
    case waiting hc hs _ =>
      simp only [hc]
      exact hstays hc (by rcases hs with ⟨_, _, rfl⟩ | ⟨_, _, _, rfl⟩ <;> simp)
    case awaiting hc _ _   => simp only [hc]; exact hstays hc (by simp)
    case answered hc _     => simp only [hc]; exact hstays hc (by simp)
    case lost hc _ =>
      split
      case h_2 => exact h
      case h_1 call' hc' =>
        have hover := hc call' hc'
        rwa [startCall_of_ne_queued (by intro hq; simp [hq, Stage.Over] at hover)]
  case inr =>
    cases h' : h
    case queued hc _ _     => simp only [hc]; exact h
    case answered hc _     => simp only [hc]; exact h
    case awaiting hc hs hn =>
      simp only [hc]
      exact hs.deliver hc hn
    case waiting hc hs hm  =>
      simp only [hc]
      obtain ⟨session, hi⟩ := ho.exists_session hm.session
      rcases hs with ⟨_, _, rfl⟩ | ⟨_, _, _, rfl⟩
      case inl => exact hm.endDebounce hc (.inl ⟨_, _, rfl⟩)
      case inr => exact hm.askNext hc hi _ _
    case lost hc _ =>
      split
      case h_2 => exact h
      case h_1 call' hc' => rwa [resumeCall_of_session?_eq_none (Stage.session?_of_over (hc call' hc'))]

end GhostText.Service
