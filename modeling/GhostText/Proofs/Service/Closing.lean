import GhostText.Proofs.Service.Tending

namespace GhostText.Service

variable {s s' s'' : Service} {c i r : Nat}

-- A call that will not send a request any more.
def Spent (s : Service) (c : Nat) : Prop :=
  s.stage? c ≠ none ∧ s.stage? c ≠ some .queued ∧ ∀ i, ¬s.Sending c i

theorem Spent.of_answered {completions : List Completion} (h : s.stage? c = some (.answered completions)) :
    s.Spent c :=
  ⟨by simp [h], by simp [h], fun _ hs => hs.ne_answered completions h⟩

theorem Spent.of_stage? (h : s.Spent c) (hs : s.Sound) (he : s'.stage? c = s.stage? c)
    (hm : ∀ (i : Nat) (session : Session), s.sessions[i]? = some session →
      ∃ session' : Session, s'.sessions[i]? = some session' ∧ session.generation ≤ session'.generation) :
    s'.Spent c :=
  ⟨he ▸ h.1, he ▸ h.2.1, fun i hc => h.2.2 i (hs.sending_of_stage? he hm hc)⟩

-- Requests stay, and those that are not kept are not kept again. Calls that are spent send no more.
structure Since (s s' : Service) : Prop where
  dispatches : ∀ (r : Nat) (d : Dispatch), s.dispatches[r]? = some d →
    ∃ d' : Dispatch, s'.dispatches[r]? = some d' ∧ d'.call = d.call ∧ d'.session = d.session
  kept       : ∀ i, ∀ r < s.dispatches.size, r ∈ s'.kept i → r ∈ s.kept i
  spent      : ∀ c, s.Spent c → s'.Spent c
  sent       : ∀ (r : Nat) (d : Dispatch), s'.dispatches[r]? = some d → s.dispatches.size ≤ r → ¬s.Spent d.call

namespace Since

theorem refl (s : Service) : Since s s where
  dispatches := fun _ d hd => ⟨d, hd, rfl, rfl⟩
  kept       := fun _ _ _ hk => hk
  spent      := fun _ hc => hc
  sent       := fun _ _ hd hr => by
    have hlt := (Array.getElem?_eq_some_iff.mp hd).1
    omega

theorem lt_size (h : Since s s') (hr : r < s.dispatches.size) : r < s'.dispatches.size := by
  obtain ⟨_, hd, _⟩ := h.dispatches r _ (Array.getElem?_eq_getElem hr)
  exact (Array.getElem?_eq_some_iff.mp hd).1

theorem trans (h₁ : Since s s') (h₂ : Since s' s'') : Since s s'' where
  dispatches := fun r d hd => by
    obtain ⟨d', hd', hc, hi⟩ := h₁.dispatches r d hd
    obtain ⟨d'', hd'', hc', hi'⟩ := h₂.dispatches r d' hd'
    exact ⟨d'', hd'', hc'.trans hc, hi'.trans hi⟩
  kept       := fun i r hr hk => h₁.kept i r hr (h₂.kept i r (h₁.lt_size hr) hk)
  spent      := fun c hc => h₂.spent c (h₁.spent c hc)
  sent       := fun r d hd hr => by
    by_cases hlt : r < s'.dispatches.size
    case neg => exact fun hc => h₂.sent r d hd (by omega) (h₁.spent _ hc)
    case pos =>
      have hd' := Array.getElem?_eq_getElem hlt
      obtain ⟨_, hd'', hc, _⟩ := h₂.dispatches r _ hd'
      obtain rfl := Option.some.inj (hd ▸ hd'')
      exact hc ▸ h₁.sent r _ hd' hr

-- No request is added.
theorem of_size (hd : ∀ (r : Nat) (d : Dispatch), s.dispatches[r]? = some d →
      ∃ d' : Dispatch, s'.dispatches[r]? = some d' ∧ d'.call = d.call ∧ d'.session = d.session)
    (hn : s'.dispatches.size = s.dispatches.size) (hk : ∀ i, ∀ r ∈ s'.kept i, r ∈ s.kept i)
    (hc : ∀ c, s.Spent c → s'.Spent c) : Since s s' where
  dispatches := hd
  kept       := fun i r _ => hk i r
  spent      := hc
  sent       := fun _ _ hd hr => by
    have hlt := (Array.getElem?_eq_some_iff.mp hd).1
    omega

-- No session and no request changes.
theorem of_eq (hd : s'.dispatches = s.dispatches) (hs : s'.sessions = s.sessions)
    (hc : ∀ c, s.Spent c → s'.Spent c) : Since s s' :=
  of_size (fun _ d h => ⟨d, hd ▸ h, rfl, rfl⟩) (by rw [hd]) (fun i r hr => by rwa [Service.kept, hs] at hr) hc

end Since

theorem Move.since (hs : s.Sound) (h : Move c s s') : Since s s' := by
  have hf := h.frame
  have hd (r : Nat) (d : Dispatch) (hd : s.dispatches[r]? = some d) :
      ∃ d' : Dispatch, s'.dispatches[r]? = some d' ∧ d'.call = d.call ∧ d'.session = d.session := by
    obtain ⟨d', hd', hc, hi, _⟩ := hf.exists_dispatch hd
    exact ⟨d', hd', hc, hi⟩
  refine .of_size hd hf.size (fun i _ hr => (hf.kept i).mem hr) fun c' hc => ?_
  cases h.stage? c'
  case inl he => exact hc.of_stage? hs he hf.sessions
  case inr he =>
    obtain ⟨hcc, _, hn, he⟩ := he
    subst hcc
    cases hn
    case debounce hq _ => exact absurd hq hc.2.1
    case join hq _ _ _ => exact absurd hq hc.2.1
    case answer        => exact .of_answered he

theorem Moves.since (hs : s.Sound) (h : Moves c s s') : Since s s' := by
  induction h
  case refl          => exact .refl s
  case tail hm hm' ih => exact ih.trans (hm'.since (hs.moves hm))

theorem Send.since (hs : s.Sound) (h : Send c s s') : Since s s' := by
  have hne {c' i : Nat} (hc : s.Sending c i) (hc' : s.Spent c') : c' ≠ c := by
    rintro rfl
    exact hc'.2.2 i hc
  cases h
  case gather i hc cursor o x unasked =>
    refine .of_eq rfl rfl fun c' hc' => ?_
    have he := stage?_setCall hc.stage?_ne_none (.gathering i cursor o x unasked) c'
    rw [if_neg (hne hc hc')] at he
    exact hc'.of_stage? hs he fun _ session hi => ⟨session, hi, Nat.le_refl _⟩
  case send i session d₀ hc hi hd₀ cursor =>
    have hdisp := fun r => getElem?_dispatches_send s c i r session d₀ cursor
    constructor
    case dispatches =>
      intro r d hd
      have hlt := (Array.getElem?_eq_some_iff.mp hd).1
      exact ⟨d, by rw [hdisp, if_neg (Nat.ne_of_lt hlt), hd], rfl, rfl⟩
    case kept =>
      intro j r hr hk
      rw [kept_send hi] at hk
      split at hk
      case isFalse    => exact hk
      case isTrue hij => simpa [← hij, Nat.ne_of_lt hr] using hk
    case spent =>
      intro c' hc'
      have he : (s.send c i session d₀ cursor).stage? c' = s.stage? c' := by
        rw [stage?_send hc.stage?_ne_none, if_neg (hne hc hc')]
      exact hc'.of_stage? hs he (sessions_setSession hi (Nat.le_refl _))
    case sent =>
      intro r d hd hr hc'
      rw [hdisp] at hd
      split at hd
      case isTrue =>
        obtain rfl := Option.some.inj hd
        exact hne hc hc' hd₀.call
      case isFalse =>
        have hlt := (Array.getElem?_eq_some_iff.mp hd).1
        omega

theorem Sends.since (hs : s.Sound) (h : Sends c s s') : Since s s' := by
  have := h.keeps (P := fun u => Since s u ∧ u.Sound) (fun _ _ hp hm => ⟨hp.1.trans (hm.since hp.2), hp.2.move hm⟩)
    (fun _ _ hp hs => ⟨hp.1.trans (hs.since hp.2), hp.2.send hs⟩) ⟨.refl s, hs⟩
  exact this.1

theorem Lives.since {t : Turn} {d : Dispatch} (hs : s.Sound) (hd : s.dispatches[r]? = some d)
    (h : Lives r t d s s') : Since s s' := by
  obtain ⟨_, hsess, hcalls⟩ := h.sessions_calls
  obtain ⟨d', _, hlife, _, hdisp⟩ := h.exists_life hd
  have hdisp (j : Nat) (x : Dispatch) (hx : s.dispatches[j]? = some x) :
      ∃ x' : Dispatch, s'.dispatches[j]? = some x' ∧ x'.call = x.call ∧ x'.session = x.session := by
    rw [hdisp]
    split
    case isFalse => exact ⟨x, hx, rfl, rfl⟩
    case isTrue hj =>
      subst hj
      obtain rfl := Option.some.inj (hd ▸ hx)
      exact ⟨d', rfl, hlife.ages.1, hlife.ages.2.1⟩
  have hk (i : Nat) : s'.kept i = s.kept i := by rw [Service.kept, hsess, Service.kept]
  refine .of_size hdisp h.size (fun i j hj => hk i ▸ hj) fun c hc => ?_
  exact hc.of_stage? hs (by rw [stage?, hcalls, stage?]) fun i session hi => ⟨session, hsess ▸ hi, Nat.le_refl _⟩

theorem Takes.since {t : Turn} (hs : s.Sound) (h : Takes s t s') : Since s s' := by
  rcases h.sends_or_lives with ⟨⟨c, h⟩, _⟩ | ⟨r, d, _, hd, h⟩
  case inl => exact h.since hs
  case inr => exact h.since hs hd

theorem Acts.since (hs : s.Sound) (h : Acts s s') : Since s s' := by
  cases h
  case moves h' => exact h'.since hs
  case provide call hq =>
    refine .of_eq rfl rfl fun c hc => ?_
    have hne : c ≠ s.calls.size := by
      rintro rfl
      exact hc.1 (by simp [stage?])
    have he := stage?_provide s call c
    rw [if_neg hne] at he
    exact hc.of_stage? hs he fun _ session hi => ⟨session, hi, Nat.le_refl _⟩
  case cancel c' stage hc' _ _ =>
    refine .of_eq rfl rfl fun c hc => ?_
    have he := stage?_cancel hc' c
    by_cases hcc : c = c'
    case neg =>
      rw [if_neg hcc] at he
      exact hc.of_stage? hs he fun _ session hi => ⟨session, hi, Nat.le_refl _⟩
    case pos =>
      rw [if_pos hcc] at he
      refine ⟨by simp [he], by simp [he], fun i hs => ?_⟩
      rcases hs with ⟨_, _, _, _, hs⟩ | ⟨_, _, _, _, hs⟩ <;> simp [he] at hs

namespace Since

theorem after (hs : s.Sound) (e : Event) : Since s (s.after e) := by
  rcases hs.after_cases e with ha | ⟨t, rest, _, _, ht⟩
  case inl => exact ha.since hs
  case inr =>
    have hp : Since s { s with ready := rest } := .of_eq rfl rfl fun _ hc => hc
    exact hp.trans (ht.since hs.popped)

theorem reaches (hs : s.Sound) (h : s.Reaches s') : Since s s' := by
  have := h.induct (P := fun t => Since s t ∧ t.Sound) ⟨refl s, hs⟩
    fun t e ht => ⟨ht.1.trans (after ht.2 e), ht.2.after e⟩
  exact this.1

end Since

-- No call is taken back, and none is superseded.
structure Closes (uris : List Text) (s s' : Service) : Prop where
  calls      : s'.calls = s.calls
  session?   : ∀ uri ∉ uris, s'.session? uri = s.session? uri
  generation : ∀ (i : Nat) (session : Session), s.sessions[i]? = some session →
    ∃ session' : Session, s'.sessions[i]? = some session' ∧ session'.generation = session.generation
  kept       : ∀ uri ∈ uris, ∀ i, s.session? uri = some i → s'.kept i = []

namespace Closes

theorem lookup_filter {uri uri' : Text} (h : uri' ≠ uri) (current : List (Text × Nat)) :
    (current.filter (·.1 ≠ uri)).lookup uri' = current.lookup uri' := by
  induction current
  case nil => rfl
  case cons x current ih =>
    by_cases hx : x.1 = uri
    case pos =>
      have hne : (uri' == x.1) = false := by simp [hx, h]
      rw [List.filter_cons_of_neg (by simpa using hx), ih, List.lookup_cons, hne]
    case neg =>
      rw [List.filter_cons_of_pos (by simpa using hx), List.lookup_cons, ih, List.lookup_cons]

theorem lookup_filter_self (uri : Text) (current : List (Text × Nat)) :
    (current.filter (·.1 ≠ uri)).lookup uri = none := by
  rw [List.lookup_eq_none_iff]
  exact fun x hx => bne_iff_ne.mpr (Ne.symm (of_decide_eq_true (List.mem_filter.mp hx).2))

theorem lookup_of_filter {uri uri' : Text} {current : List (Text × Nat)}
    (h : (current.filter (·.1 ≠ uri)).lookup uri' = some i) : current.lookup uri' = some i := by
  by_cases hu : uri' = uri
  case neg => rwa [lookup_filter hu] at h
  case pos =>
    rw [hu, lookup_filter_self] at h
    contradiction

theorem close (s : Service) (uri : Text) : Closes [uri] s (s.close uri) := by
  simp only [Service.close]
  split
  case h_1 hu =>
    exact ⟨rfl, fun _ _ => rfl, fun i session hi => ⟨session, hi, rfl⟩, fun u hm i hi => by simp_all⟩
  case h_2 i hu =>
    have hl {u : Text} (hn : u ∉ [uri]) : (s.current.filter (·.1 ≠ uri)).lookup u = s.session? u :=
      lookup_filter (by simpa using hn) s.current
    cases hi : s.sessions[i]?
    case none =>
      simp only [withCache, hi]
      refine ⟨rfl, fun _ hn => hl hn, fun i session hi => ⟨session, hi, rfl⟩, fun u hm j hj => ?_⟩
      obtain rfl := List.mem_singleton.mp hm
      obtain rfl := Option.some.inj (hu ▸ hj)
      simp [Service.kept, hi]
    case some session =>
      rw [clear_eq (s := { s with current := s.current.filter (·.1 ≠ uri) }) hi]
      have hs : (({ s with current := s.current.filter (·.1 ≠ uri) } : Service).stopAll
          session.cache.keys).sessions[i]? = some session := by
        rw [sessions_stopAll, hi]
      constructor
      case calls => exact calls_stopAll _ _
      case session? =>
        intro u hn
        rw [← hl hn, Service.session?, setSession, current_stopAll]
      case generation =>
        intro j x hj
        by_cases hij : i = j
        case neg => exact ⟨x, by simp [setSession, hij, sessions_stopAll, hj], rfl⟩
        case pos =>
          subst hij
          obtain rfl := Option.some.inj (hi ▸ hj)
          exact ⟨session.emptied, getElem?_setSession_self hs _, rfl⟩
      case kept =>
        intro u hm j hj
        obtain rfl := List.mem_singleton.mp hm
        obtain rfl := Option.some.inj (hu ▸ hj)
        rw [kept_setSession hs, if_pos rfl, Session.keys_emptied]

theorem closeAll (s : Service) (uris : List Text) : Closes uris s (uris.foldl Service.close s) := by
  induction uris generalizing s
  case nil => exact ⟨rfl, fun _ _ => rfl, fun i session hi => ⟨session, hi, rfl⟩, fun _ hm => by simp at hm⟩
  case cons uri uris ih =>
    have h₁ := close s uri
    have h₂ := ih (s.close uri)
    constructor
    case calls => exact h₂.calls.trans h₁.calls
    case session? =>
      intro u hn
      rw [List.mem_cons, not_or] at hn
      exact (h₂.session? u hn.2).trans (h₁.session? u (by simpa using hn.1))
    case generation =>
      intro i session hi
      obtain ⟨x, hx, hg⟩ := h₁.generation i session hi
      obtain ⟨y, hy, hg'⟩ := h₂.generation i x hx
      exact ⟨y, hy, hg'.trans hg⟩
    case kept =>
      intro u hm i hi
      by_cases hu : u = uri
      case pos =>
        subst hu
        have hs := (Moves.closeAll (c := 0) (s.close u) uris).frame.kept i
        rw [h₁.kept u List.mem_cons_self i hi] at hs
        exact List.sublist_nil.mp hs
      case neg =>
        have hm := (List.mem_cons.mp hm).resolve_left hu
        exact h₂.kept u hm i ((h₁.session? u (by simpa using hu)).trans hi)

theorem stage? {uris : List Text} (h : Closes uris s s') (c : Nat) : s'.stage? c = s.stage? c := by
  rw [Service.stage?, h.calls, Service.stage?]

theorem sending {uris : List Text} (h : Closes uris s s') (hc : s.Sending c i) : s'.Sending c i := by
  simp only [Sending, h.stage?]
  refine hc.imp_right ?_
  rintro ⟨cursor, accepted, session, hi, hc⟩
  obtain ⟨session', hi', hg⟩ := h.generation i session hi
  exact ⟨cursor, accepted, session', hi', hg ▸ hc⟩

theorem after {e : Event} {uri : Text} (he : e = .close uri ∨ e = .dispose) :
    ∃ uris, Closes uris s (s.after e) ∧ ∀ i, s.session? uri = some i → uri ∈ uris := by
  rcases he with rfl | rfl
  case inl => exact ⟨[uri], close s uri, fun _ _ => List.mem_singleton_self uri⟩
  case inr =>
    refine ⟨s.current.map (·.1), closeAll s _, fun i hi => ?_⟩
    obtain ⟨_, _, hl, _⟩ := List.lookup_eq_some_iff.mp hi
    simp [hl]

end Closes

-- Closing a document stops the requests that have been sent for it, and none is sent any more by a call that has sent
-- one before, has been answered or taken back, or is superseded. But a call that has still to send its request does not
-- notice.
theorem ended_of_closed {settings : Setup} {backend : Backend} {features : Option LanguageFeatures} {t : Service}
    {e : Event} {uri : Text} (hs : (start settings backend features).Reaches s)
    (he : e = .close uri ∨ e = .dispose) (ht : (s.after e).Reaches t) :
    (∀ (r : Nat) (d : Dispatch), t.dispatches[r]? = some d → s.dispatches.size ≤ r → d.call < s.calls.size →
      s.stage? d.call = some .queued ∨ ∃ i, s.Sending d.call i) ∧
    (∀ c, (s.after e).stage? c = s.stage? c ∧ ∀ i, s.Sending c i → (s.after e).Sending c i) ∧
    (t.Settled → ∀ i, s.session? uri = some i → ∀ (r : Nat) (d : Dispatch), t.dispatches[r]? = some d →
      r < s.dispatches.size → d.session = i → d.watch = .ended) := by
  have hsound := Sound.reaches hs
  have hlater := Since.reaches (hsound.after e) ht
  have hsince := (Since.after hsound e).trans hlater
  have hatt := Attended.reaches ((hs.after e).trans ht)
  obtain ⟨uris, hclose, hmem⟩ := Closes.after (s := s) he
  have hcalls (c : Nat) := And.intro (hclose.stage? c) fun i => hclose.sending (c := c) (i := i)
  refine ⟨fun r d hd hr hc => ?_, hcalls, fun hset i hi r d hd hr hdi => ?_⟩
  case refine_1 =>
    have hspent := hsince.sent r d hd hr
    by_cases hq : s.stage? d.call = some .queued
    case pos => exact .inl hq
    case neg =>
      right
      apply Classical.byContradiction
      intro hn
      exact hspent ⟨by simp [stage?, hc], hq, not_exists.mp hn⟩
  case refine_2 =>
    apply Classical.byContradiction
    intro hw
    have hr := (Since.after hsound e).lt_size hr
    have hk : r ∉ t.kept i := by
      intro hk
      have := hlater.kept i r hr hk
      rw [hclose.kept uri (hmem i hi) i hi] at this
      contradiction
    cases hatt.kept r d hd hw
    case inl hc => exact hw (hatt.ended_of_cancelled hset.1 hd hc)
    case inr hm => exact hk (hdi ▸ hm)

def lateBackend : Backend :=
  { answers := .always "foo".toList, delay := some 1000 }

-- A call, and what comes of it at once.
def askedOnce (settings : Setup) : Service :=
  (((start settings lateBackend none).after (.openBuffer ['a'] "x = ".toList)).after (.provide ['a'] ⟨0, 4⟩)).settle 0

theorem reaches_askedOnce (settings : Setup) : (start settings lateBackend none).Reaches (askedOnce settings) :=
  .trans (.after (.after (.refl _) (.openBuffer ['a'] "x = ".toList)) (.provide ['a'] ⟨0, 4⟩)) (.settle _ 0)

-- Without a delay the call sends its request at once. The document is closed while the request waits for the model.
theorem ended_of_closed_askedOnce :
    let s := askedOnce { debounce := 0, useHints := false }
    let t := (s.after (.close ['a'])).settle 20
    (start { debounce := 0, useHints := false } lateBackend none).Reaches s ∧ (s.after (.close ['a'])).Reaches t ∧
      s.dispatches.toList.map (·.watch) = [.watching false] ∧
      ∀ d, t.dispatches[0]? = some d → d.session = 0 → d.watch = .ended := by
  have hs := reaches_askedOnce { debounce := 0, useHints := false }
  have ht := Reaches.settle ((askedOnce { debounce := 0, useHints := false }).after (.close ['a'])) 20
  refine ⟨hs, ht, by decide +kernel, fun d hd hi => ?_⟩
  exact (ended_of_closed hs (.inl rfl) ht).2.2 (settled_settle _ 20) 0 (by decide +kernel) 0 d hd (by decide +kernel) hi

-- With a delay it is closed before. The call goes on to send its request nevertheless.
theorem sent_after_close_askedOnce :
    let s := askedOnce { debounce := 10, useHints := false }
    let t := (s.after (.close ['a'])).settle 20
    (start { debounce := 10, useHints := false } lateBackend none).Reaches s ∧ (s.after (.close ['a'])).Reaches t ∧
      t.Settled ∧ s.calls.toList.map (·.uri) = [['a']] ∧ s.dispatches.size = 0 ∧
      t.dispatches.toList.map (fun d => (d.call, d.watch)) = [(0, .watching false)] :=
  ⟨reaches_askedOnce _, .settle _ 20, settled_settle _ 20, by decide +kernel, by decide +kernel, by decide +kernel⟩

end GhostText.Service
