import GhostText.Proofs.Match.Pending
import GhostText.Proofs.Service.Failures
import GhostText.Proofs.Service.Spared

namespace GhostText.Service

open Text (normalForm)

variable {s s' t : Service} {q : List Turn} {c i r : Nat} {own : Bool} {p : Prediction} {call : Call} {cursor : Cursor}
  {session : Session} {stage : Stage} {o : Options}

-- If the call awaits a prediction, that was made for the same text in normal form.
def Fits (s : Service) (c : Nat) : Prop :=
  ∀ i cursor r own, s.stage? c = some (.awaiting i cursor r own) →
    ∃ p, s.prediction? r = some p ∧ normalForm cursor.before = normalForm p.before

theorem stage?_setCall_self (s : Service) (c : Nat) (stage : Stage) :
    (s.setCall c stage).stage? c = (s.stage? c).map fun _ => stage := by
  simp [stage?, setCall, Array.getElem?_modify, Function.comp_def]

theorem match?_of_findMatch {before : Text} {l : List (Nat × Prediction)} {id : Nat} {b : Bounds}
    (h : (findMatch before l).1 = some (id, p, b)) : Bounds.match? before p.before p.insertText = some b := by
  induction l
  case nil => simp [findMatch] at h
  case cons x l ih =>
    simp only [findMatch] at h
    split at h
    case h_2      => exact ih h
    case h_1 hb =>
      simp only [Option.some.injEq, Prod.mk.injEq] at h
      obtain ⟨_, rfl, rfl⟩ := h
      exact hb

namespace Fits

theorem of_not_awaiting (h : ∀ i cursor r own, s.stage? c ≠ some (.awaiting i cursor r own)) : s.Fits c :=
  fun i cursor r own hc => absurd hc (h i cursor r own)

theorem setCall (s : Service) (c : Nat) (h : ∀ i cursor r own, stage ≠ .awaiting i cursor r own) :
    (s.setCall c stage).Fits c := by
  refine of_not_awaiting fun i cursor r own hc => ?_
  rw [stage?_setCall_self, Option.map_eq_some_iff] at hc
  obtain ⟨_, _, hc⟩ := hc
  exact h i cursor r own hc

theorem congr (h : s.Fits c) (hc : s'.stage? c = s.stage? c)
    (hp : ∀ r p, s.prediction? r = some p → ∃ p', s'.prediction? r = some p' ∧ p.Ages p') : s'.Fits c := by
  intro i cursor r own ha
  obtain ⟨p, hr, hn⟩ := h i cursor r own (hc ▸ ha)
  obtain ⟨p', hr', hages⟩ := hp r p hr
  exact ⟨p', hr', hages.before ▸ hn⟩

theorem of_extends (he : Extends q s s') (h : s.Fits c) : s'.Fits c :=
  h.congr (he.stage? c) fun r p hp => ⟨p, he.prediction? r ▸ hp, .refl p⟩

theorem answer (s : Service) (c : Nat) (completions : List Completion) : (s.answer c completions).Fits c :=
  setCall s c (by simp)

theorem complete (s : Service) (c : Nat) (call : Call) (cursor : Cursor) (p : Prediction) (b : Bounds) :
    (s.complete c call cursor p b).Fits c :=
  answer _ c _

theorem failCall (s : Service) (c : Nat) (call : Call) : (s.failCall c call).Fits c :=
  answer _ c []

-- A pending prediction is found only for the text it was made for.
theorem serveCached {id : Nat} {b : Bounds} (hp : s.prediction? id = some p)
    (hb : Bounds.match? cursor.before p.before p.insertText = some b) :
    (s.serveCached c call i cursor id p b).Fits c := by
  simp only [Service.serveCached]
  split
  case h_1 => exact complete _ c call cursor p b
  case h_3 => exact answer _ c []
  case h_2 hs =>
    have ht : p.insertText = [] := by
      cases hst : p.stage <;> simp_all [Prediction.status, Prediction.insertText]
    have hn : normalForm cursor.before = normalForm p.before :=
      Bounds.match?_nil_ne_none_iff.mp (by rw [← ht, hb]; simp)
    intro j cursor' r own hc
    rw [stage?_setCall_self, Option.map_eq_some_iff] at hc
    obtain ⟨_, _, hc⟩ := hc
    injection hc with _ hcursor hr
    exact ⟨p, hr ▸ hp, hcursor ▸ hn⟩

theorem debounce {accepted : Bool} : (s.debounce c call i session cursor accepted).Fits c := by
  simp only [Service.debounce]
  split
  case isTrue  => exact failCall _ c call
  case isFalse =>
    obtain ⟨_, he⟩ := Stands.resumeAfter
      ((s.setSession i { session with generation := session.generation + 1 }).setCall c
        (.debouncing i cursor (session.generation + 1) accepted)) s.settings.debounce.toNat c
    exact .of_extends he (setCall _ c (by simp))

theorem seek (hc : s.Fits c) : (s.seek c call).Fits c := by
  simp only [Service.seek]
  have hspares : Spares c s (s.sessionFor call.uri).1 := .sessionFor s call.uri
  replace hc := hc.congr hspares.stage? fun _ _ => hspares.prediction?
  generalize s.sessionFor call.uri = x at hc ⊢
  split
  case h_2 => exact hc
  case h_1 document session _ hi =>
    have he := Extends.noteAll x.1
      (findMatch (document.cursorAt call.position).before (x.1.predictionsIn session)).2
    split
    case h_1 id p b hf =>
      have hp := (mem_predictionsIn_iff hi).mp (Moves.mem_of_findMatch hf)
      exact serveCached (he.prediction? id ▸ hp.2) (match?_of_findMatch hf)
    case h_2 =>
      split
      case h_1 => exact debounce
      case h_2 => exact failCall _ c call

-- The prediction of its own request was made for the very text.
theorem dispatch (hi : s.sessions[i]? = some session) (before : Text) : (s.dispatch c i cursor o before).Fits c := by
  have hs := sent_dispatch hi c cursor o before
  obtain ⟨d, hd, hb⟩ := hs.new
  intro j cursor' r own hc
  rw [stage?, hs.calls, Array.getElem?_modify, if_pos rfl, Option.map_map, Option.map_eq_some_iff] at hc
  obtain ⟨_, _, hc⟩ := hc
  injection hc with _ hcursor hr
  exact ⟨d.prediction, by rw [prediction?, ← hr, hd, Option.map_some], by rw [hb, hcursor]⟩

theorem gather (hi : s.sessions[i]? = some session) (x : Hints) (unasked : List Hints.Provider) :
    (s.gather c i cursor o x unasked).Fits c := by
  induction unasked generalizing s x
  case nil => exact dispatch hi _
  case cons p rest ih =>
    simp only [Service.gather]
    split
    case h_1     => exact dispatch hi _
    case h_2 f _ =>
      split
      case h_1 => exact ih ((Extends.noteAll s _).sessions ▸ hi) _
      case h_2 delay _ =>
        obtain ⟨_, he⟩ := Stands.resumeAfter (s.setCall c (.gathering i cursor o x (p :: rest))) delay c
        exact .of_extends he (setCall _ c (by simp))

theorem request (hc : s.Fits c) (hi : s.sessions[i]? = some session) : (s.request c call i cursor o).Fits c := by
  simp only [Service.request]
  split
  case isTrue  => exact answer s c []
  case isFalse =>
    split
    case isTrue  => exact dispatch hi _
    case isFalse =>
      split
      case h_1 => exact hc
      case h_2 =>
        split
        case h_1 => exact failCall s c call
        case h_2 => exact gather hi _ _

theorem endDebounce {generation : Nat} {accepted : Bool} (hc : s.Fits c) :
    (s.endDebounce c call i cursor generation accepted).Fits c := by
  simp only [Service.endDebounce]
  split
  case h_1            => exact hc
  case h_2 session hi =>
    split
    case isTrue  => exact answer _ c []
    case isFalse =>
      obtain ⟨session', hi', _⟩ := session_enforceLimit hi
      have hf := (Moves.enforceLimit (c := c) s i).frame
      refine request (hc.congr ?_ fun r p hp => ⟨p, hf.prediction? r ▸ hp, .refl p⟩) hi'
      rw [stage?, calls_enforceLimit, stage?]

theorem askNext (hi : s.sessions[i]? = some session) (x : Hints) (unasked : List Hints.Provider) :
    (s.askNext c i cursor o x unasked).Fits c := by
  simp only [Service.askNext]
  split
  case h_1 => exact dispatch hi _
  case h_2 =>
    split
    case h_1 => exact dispatch hi _
    case h_2 => exact gather ((Extends.noteAll s _).sessions ▸ hi) _ _

theorem deliver (hc : s.Fits c) : (s.deliver c call i cursor r own).Fits c := by
  simp only [Service.deliver]
  split
  case h_1 => exact hc
  case h_2 =>
    split
    case h_1 => exact hc
    case h_2 =>
      split
      case isTrue  => exact answer _ c []
      case isFalse =>
        split
        case isTrue  => exact complete s c call cursor _ _
        case isFalse => split <;> exact answer _ c _

-- A turn of the call itself.
theorem takeTurn {t : Turn} (h : s.Fits c) (hs : s.Sound) (ht : t = .startCall c ∨ t = .resumeCall c) :
    (s.takeTurn t).Fits c := by
  rcases ht with rfl | rfl <;> simp only [Service.takeTurn, withCall]
  case inl =>
    split
    case h_2 => exact h
    case h_1 =>
      simp only [startCall]
      split
      case h_1 => split <;> first | exact seek h | exact answer s c []
      case h_2 => exact h
  case inr =>
    split
    case h_2         => exact h
    case h_1 call hc =>
      simp only [resumeCall]
      split
      case h_1     => exact endDebounce h
      case h_2 i cursor o x unasked hst =>
        obtain ⟨session, hi⟩ := hs.homed c (.gathering i cursor o x unasked) (by simp [stage?, hc, hst])
        exact askNext hi _ _
      case h_3 => exact deliver h
      case h_4 => exact h

theorem after (h : s.Fits c) (hs : s.Sound) (e : Event) : (s.after e).Fits c := by
  generalize hs' : s.after e = s'
  cases hs' ▸ befalls_after c e
  case spare hsp           => exact h.congr hsp.stage? fun _ _ => hsp.prediction?
  case turn rest _ ht      => exact takeTurn (s := { s with ready := rest }) h hs.popped ht
  case cancel              => exact setCall _ c (by simp)
  case make call hc hq     =>
    refine of_not_awaiting fun i cursor r own hst => ?_
    rw [hc, stage?_provide, if_pos rfl, hq] at hst
    simp at hst

theorem reaches {settings : Setup} {backend : Backend} {features : Option LanguageFeatures}
    (h : (start settings backend features).Reaches s) : s.Fits c := by
  refine (h.induct (P := fun s => s.Sound ∧ s.Fits c) ⟨.start, ?_⟩ fun s e hs => ⟨hs.1.after e, hs.2.after hs.1 e⟩).2
  exact of_not_awaiting (by simp [Service.start, note, stage?])

end Fits

-- What becomes of a call that awaits a prediction.
inductive Served (r c : Nat) (s : Service) : Prop
  | awaiting {i : Nat} {cursor : Cursor} {own : Bool} {p : Prediction}
    (hc : s.stage? c = some (.awaiting i cursor r own)) (hp : s.prediction? r = some p)
    (hn : normalForm cursor.before = normalForm p.before)
  | completed {completion : Completion} (hc : s.stage? c = some (.answered [completion]))
  | failed {p : Prediction} (hc : s.stage? c = some (.answered [])) (hp : s.prediction? r = some p)
    (hf : p.status = .failed)
  | cancelled (hc : s.stage? c = some .cancelled)

namespace Served

theorem spare (h : Served r c s) (hs : Spares c s s') : Served r c s' := by
  have hst := hs.stage?
  cases h
  case awaiting hc hp hn =>
    obtain ⟨p', hp', ha⟩ := hs.prediction? hp
    exact .awaiting (hst ▸ hc) hp' (ha.before ▸ hn)
  case completed hc      => exact .completed (hst ▸ hc)
  case failed p hc hp hf =>
    obtain ⟨p', hp', ha⟩ := hs.prediction? hp
    exact .failed (hst ▸ hc) hp' (ha.status (Prediction.isPending_of_status (by simp [hf])) ▸ hf)
  case cancelled hc      => exact .cancelled (hst ▸ hc)

-- The result of the request comes to the call. If there is a text, the prediction still applies.
theorem deliver (call : Call) (hc : s.stage? c = some (.awaiting i cursor r own)) (hp : s.prediction? r = some p)
    (hn : normalForm cursor.before = normalForm p.before) : Served r c (s.deliver c call i cursor r own) := by
  have hanswer {u : Service} (hu : u.calls = s.calls) (l : List Completion) :
      (u.answer c l).stage? c = some (.answered l) := by
    have hne : u.stage? c ≠ none := by rw [stage?, hu, ← stage?, hc]; simp
    exact stage?_answer hne l
  simp only [Service.deliver, hp]
  split
  case h_1           => exact .awaiting hc hp hn
  case h_2 result hr =>
    split
    case isTrue hok =>
      have hf : p.status = .failed := by
        cases hst : p.stage <;> simp_all [Prediction.result?, Prediction.status]
        simp [← hr, RequestResult.ok] at hok
      have hp' : (s.forget i r).prediction? r = some p := (Moves.forget (c := c) s i r).frame.prediction? r ▸ hp
      exact .failed (hanswer (calls_forget s i r) []) hp' hf
    case isFalse =>
      split
      case isTrue  => exact .completed (hanswer (calls_noteAll _) _)
      case isFalse =>
        split
        case h_1    => exact .completed (hanswer (by simp) _)
        case h_2 hm => exact absurd hm (Bounds.match?_ne_none_of_normalForm_eq hn p.insertText)

theorem takeTurn {t : Turn} (h : Served r c s) (ht : t = .startCall c ∨ t = .resumeCall c) :
    Served r c (s.takeTurn t) := by
  cases h' : h
  case completed hc  => rw [takeTurn_of_over hc trivial ht]; exact h
  case failed hc _ _ => rw [takeTurn_of_over hc trivial ht]; exact h
  case cancelled hc  => rw [takeTurn_of_over hc trivial ht]; exact h
  case awaiting hc hp hn =>
    rcases ht with rfl | rfl
    case inl => rw [takeTurn_startCall_of_ne_queued (by simp [hc])]; exact h
    case inr =>
      obtain ⟨call, hcall, hst⟩ := Option.map_eq_some_iff.mp hc
      simp only [Service.takeTurn, withCall, hcall, resumeCall, hst]
      exact .deliver call hc hp hn

theorem after (h : Served r c s) (e : Event) : Served r c (s.after e) := by
  have hst : s.stage? c ≠ none := by cases h <;> simp_all
  generalize hs' : s.after e = s'
  cases hs' ▸ befalls_after c e
  case spare hs        => exact h.spare hs
  case turn rest _ ht  =>
    have hp : Served r c { s with ready := rest } := h.spare (.of_eq rfl rfl)
    exact hp.takeTurn ht
  case make hc _       => exact absurd (by simp [stage?, hc]) hst
  case cancel          =>
    refine .cancelled ?_
    obtain ⟨stage, hst⟩ := Option.ne_none_iff_exists'.mp hst
    exact (stage?_cancel hst c).trans (if_pos rfl)

end Served

variable {settings : Setup} {backend : Backend} {features : Option LanguageFeatures}

theorem Served.reaches (h : Served r c s) (ht : s.Reaches t) : Served r c t :=
  ht.induct h fun _ e hs => hs.after e

theorem Fits.served (h : s.Fits c) (hc : s.stage? c = some (.awaiting i cursor r own)) : Served r c s := by
  obtain ⟨p, hp, hn⟩ := h i cursor r own hc
  exact .awaiting hc hp hn

-- A prediction that applies before it has a text applies when it has one, whatever that is.
theorem match?_finish? {before text : Text} {time : Int} {p p' : Prediction}
    (h : Bounds.match? before p.before p.insertText ≠ none) (hp : p.finish? text time = some p') :
    Bounds.match? before p'.before p'.insertText ≠ none := by
  simp only [Prediction.finish?, Prediction.isPending, decide_eq_true_eq] at hp
  split at hp
  case isFalse   => simp at hp
  case isTrue hs =>
    obtain rfl := Option.some.inj hp
    have ht : p.insertText = [] := by simp [Prediction.insertText, hs]
    exact Bounds.match?_ne_none_of_normalForm_eq (Bounds.match?_nil_ne_none_iff.mp (ht ▸ h)) _

-- So a call that has awaited the prediction of a request has a completion once the request has succeeded, unless the
-- call was cancelled. It does not matter whether it sent the request or joined it.
theorem completed_of_awaited (h : (start settings backend features).Reaches s)
    (hc : s.stage? c = some (.awaiting i cursor r own)) (ht : s.Reaches t) (hset : t.Settled)
    (hp : t.prediction? r = some p) (hf : p.status = .finished) :
    (∀ (before text : Text) (time : Int) (q q' : Prediction), Bounds.match? before q.before q.insertText ≠ none →
      q.finish? text time = some q' → Bounds.match? before q'.before q'.insertText ≠ none) ∧
    (t.stage? c = some .cancelled ∨ ∃ completion, t.stage? c = some (.answered [completion])) := by
  refine ⟨fun _ _ _ _ _ hm hq => match?_finish? hm hq, ?_⟩
  cases ((Fits.reaches h).served hc).reaches ht
  case cancelled hc         => exact .inl hc
  case completed hc         => exact .inr ⟨_, hc⟩
  case failed p' _ hp' hf'  =>
    obtain rfl := Option.some.inj (hp ▸ hp')
    simp [hf] at hf'
  case awaiting i' cursor' own' _ hc _ _ =>
    obtain ⟨d, hd, rfl⟩ := Option.map_eq_some_iff.mp hp
    have hpend := Prediction.isPending_of_status (p := d.prediction) (by simp [hf])
    have := (Accounted.reaches (h.trans ht)).told c r d (by simp) ⟨i', cursor', own', hc⟩ hd hpend
    simp [hset.1] at this

def fooLater : Backend :=
  { answers := .always "foo".toList, delay := some 10 }

-- A call has sent a request, and another one has joined it.
def joinedPending : Service :=
  let s := (start { debounce := 0, useHints := false } fooLater none).after (.openBuffer ['a'] "x = ".toList)
  ((s.after (.provide ['a'] ⟨0, 4⟩)).settle 0 |>.after (.provide ['a'] ⟨0, 4⟩)).settle 0

theorem reaches_joinedPending :
    (start { debounce := 0, useHints := false } fooLater none).Reaches joinedPending :=
  ((((Reaches.refl _).after _).after _).trans (.settle _ 0) |>.after _).trans (.settle _ 0)

-- The call awaits a request that another call has sent.
def joined (s : Service) (c : Nat) : Bool :=
  match s.stage? c with
  | some (.awaiting _ _ _ own) => !own
  | _                          => false

theorem completed_of_awaited_joinedPending :
    (∃ i cursor, joinedPending.stage? 1 = some (.awaiting i cursor 0 false)) ∧
      ((joinedPending.settle 20).prediction? 0).map (·.status) = some .finished ∧
      ∃ completion, (joinedPending.settle 20).stage? 1 = some (.answered [completion]) := by
  have hj : joinedPending.awaits 0 1 = true := by decide +kernel
  obtain ⟨i, cursor, own, hc⟩ := awaits_iff.mp hj
  have hown : joinedPending.joined 1 = true := by decide +kernel
  obtain rfl : own = false := by simpa [joined, hc] using hown
  have hs : ((joinedPending.settle 20).prediction? 0).map (·.status) = some .finished := by decide +kernel
  obtain ⟨p, hp, hf⟩ := Option.map_eq_some_iff.mp hs
  refine ⟨⟨i, cursor, hc⟩, hs, ?_⟩
  have hn : (joinedPending.settle 20).answer? 1 ≠ none := by decide +kernel
  rcases (completed_of_awaited reaches_joinedPending hc (.settle _ 20) (settled_settle _ 20) hp hf).2 with hx | hx
  case inl => simp [answer?, hx] at hn
  case inr => exact hx

end GhostText.Service
