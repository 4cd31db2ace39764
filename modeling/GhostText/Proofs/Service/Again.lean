import GhostText.Proofs.Service.Course
import GhostText.Proofs.Service.Failures

namespace GhostText.Service

variable {s s' t u : Service} {uri : Text} {cursor : Cursor} {call : Call} {document : Document} {l : List Completion}
  {c i r : Nat} {p : Prediction} {e : Event}

-- One call for a document, and no other that goes on.
structure Pursued (uri : Text) (c : Nat) (s : Service) : Prop where
  owned : s.Owned
  alone : s.Alone uri c

namespace Pursued

variable (h : Pursued uri c s)
include h

theorem popped {rest : List Turn} {x : Turn} (hr : s.ready = x :: rest) : Pursued uri c { s with ready := rest } where
  owned := h.owned.of_eq rfl rfl rfl rfl fun _ hc => hr ▸ List.mem_cons_of_mem x hc
  alone := h.alone

theorem fixed (hf : Fixed c s s') (ho : s'.Owned) : Pursued uri c s' where
  owned := ho
  alone := fun k call hk hu => by
    by_cases hkc : k = c
    case pos => exact .inl hkc
    case neg => exact h.alone k call (hf.calls k hkc ▸ hk) hu

-- What is kept by the events that leave the call aside, and by its own turns, holds all along.
theorem run {P : Service → Prop} (hr : Run Passing s t) (hp : P s)
    (haside : ∀ u u', Aside uri c u u' → P u → P u')
    (hown : ∀ u x rest, Pursued uri c u → u.buffers = s.buffers → u.ready = x :: rest →
      x = .startCall c ∨ x = .resumeCall c → P u → P ({ u with ready := rest }.takeTurn x)) :
    Pursued uri c t ∧ t.buffers = s.buffers ∧ t.opened = s.opened ∧ P t := by
  induction hr
  case refl => exact ⟨h, rfl, rfl, hp⟩
  case step t e _ he ih =>
    obtain ⟨ht, hbuffers, hopened, hp⟩ := ih
    have ho := ht.owned.after e
    rcases ht.owned.aside_or_own ht.alone he with ha | ⟨x, rest, _, hready, hx, hafter⟩
    case inl =>
      exact ⟨⟨ho, ha.alone ht.alone⟩, ha.buffers.trans hbuffers, ha.opened.trans hopened, haside _ _ ha hp⟩
    case inr =>
      have hf : Fixed c { t with ready := rest } ({ t with ready := rest }.takeTurn x) :=
        fixed_takeTurn _ fun k hk => by rcases hx with rfl | rfl <;> simp_all
      rw [hafter] at ho ⊢
      exact ⟨(ht.popped hready).fixed hf ho, hf.buffers.trans hbuffers, hf.opened.trans hopened,
        hown t x rest ht hbuffers hready hx hp⟩

theorem course (call : Call) (hu : call.uri = uri) (hb : s.buffers[call.buffer]? = some document) (hr : Run Passing s t)
    (hc : Course call (document.cursorAt call.position) c s) :
    Pursued uri c t ∧ t.buffers = s.buffers ∧ t.opened = s.opened ∧
      Course call (document.cursorAt call.position) c t := by
  refine h.run hr hc (fun _ _ ha hc => ha.course hu hc) fun u x rest hs hbuffers hready hx hc => ?_
  exact Course.own (hs.popped hready).owned (hbuffers ▸ hb) hc.popped hx

-- Where there is no call, none comes to be.
theorem calls_eq_none (hr : Run Passing s t) (hc : s.calls[c]? = none) : t.calls[c]? = none := by
  refine (h.run (P := fun u => u.calls[c]? = none) hr hc (fun _ _ ha hc => ha.own.trans hc) ?_).2.2.2
  intro u x rest _ _ _ hx hc
  rcases hx with rfl | rfl <;> simp only [takeTurn, withCall, hc]

end Pursued

theorem findMatch_eq_of_unique {before : Text} {l : List (Nat × Prediction)} {b : Bounds} (hr : (r, p) ∈ l)
    (hb : Bounds.match? before p.before p.insertText = some b)
    (hu : ∀ x ∈ l, x ≠ (r, p) → Bounds.match? before x.2.before x.2.insertText = none) :
    (findMatch before l).1 = some (r, p, b) := by
  induction l
  case nil => contradiction
  case cons x l ih =>
    simp only [findMatch]
    by_cases hx : x = (r, p)
    case pos =>
      have hv : (Bounds.judge before p.before p.insertText).bounds? = some b := hb
      simp only [hx, hv]
    case neg =>
      have hv : (Bounds.judge before x.2.before x.2.insertText).bounds? = none := hu x List.mem_cons_self hx
      simp only [hv]
      exact ih ((List.mem_cons.mp hr).resolve_left (Ne.symm hx)) fun y hy => hu y (List.mem_cons_of_mem _ hy)

-- What is kept for a text is found where nothing is typed yet.
theorem Shelved.findMatch {session : Session} (h : Shelved uri cursor i r s) (hi : s.sessions[i]? = some session)
    (hr : s.prediction? r = some p) :
    (findMatch cursor.before (s.predictionsIn session)).1 = some (r, p, .noNewTyping) := by
  refine findMatch_eq_of_unique ((mem_predictionsIn_iff hi).mpr ⟨h.kept, hr⟩) ?_ ?_
  case refine_1 =>
    obtain ⟨p', hp', hb⟩ := h.before
    obtain rfl := Option.some.inj (hr ▸ hp')
    rw [hb]
    exact Bounds.match?_self _ _
  case refine_2 =>
    rintro ⟨k, p'⟩ hx hne
    obtain ⟨hk, hp'⟩ := (mem_predictionsIn_iff hi).mp hx
    have hkr : k ≠ r := by
      rintro rfl
      exact hne (congrArg (k, ·) (Option.some.inj (hp'.symm.trans hr)))
    obtain ⟨p'', hp'', _, hmiss⟩ := h.clear k hk (by simpa using hkr)
    exact Option.some.inj (hp' ▸ hp'') ▸ hmiss

-- It answers the question at once. That is counted, and nothing else.
theorem Shelved.seek (c : Nat) (call : Call) (h : Shelved call.uri (document.cursorAt call.position) i r s)
    (ho : s.Owned) (hb : s.buffers[call.buffer]? = some document) (hr : s.prediction? r = some p)
    (hf : p.status = .finished) :
    Stands c (.answered [Completion.of s.settings.repeatRule p (document.cursorAt call.position) call.position 0]) s
        (s.seek c call) ∧
      (s.seek c call).stats = { s.stats with cacheHits := s.stats.cacheHits + 1 } := by
  obtain ⟨session, hi⟩ := ho.exists_session h.session
  simp only [Service.seek, sessionFor_of_some h.session, hb, hi, h.findMatch hi hr, serveCached, hf]
  have he := Extends.noteAll s (Service.findMatch (document.cursorAt call.position).before (s.predictionsIn session)).2
  replace he := (he.trans (.count _ fun n => { n with cacheHits := n.cacheHits + 1 })).trans
    (.note _ (.cacheHit p.id .finished))
  refine ⟨.of_extends he ?_, by simp only [complete, noteAll_eq]; rfl⟩
  rw [← he.settings]
  exact .complete _ c call _ p .noNewTyping

-- The question is asked once more: it has the answer, or will have it in its first turn.
inductive Recall (call : Call) (document : Document) (l : List Completion) (c : Nat) (s : Service) : Prop
  | queued {i r : Nat} {p : Prediction} (hr : s.prediction? r = some p) (hf : p.status = .finished)
      (hl : l = [Completion.of s.settings.repeatRule p (document.cursorAt call.position) call.position 0])
      (hc : s.calls[c]? = some { call with stage := .queued })
      (h : Shelved call.uri (document.cursorAt call.position) i r s) (hn : s.Unsent c)
      (hq : s.ready.count (.startCall c) = 1)
  | answered (hc : s.calls[c]? = some { call with stage := .answered l }) (hn : s.Unsent c)
      (hq : s.ready.count (.startCall c) = 0)

namespace Recall

theorem aside (h : Recall call document l c s) (ha : Aside call.uri c s s') : Recall call document l c s' := by
  cases h
  case answered hc hn hq => exact .answered (ha.own ▸ hc) (ha.unsent hn) (ha.started.trans hq)
  case queued i r p hr hf hl hc h hn hq =>
    obtain ⟨p', hr', hages⟩ := ha.prediction? hr
    have hs := Prediction.isPending_of_status (p := p) (by simp [hf])
    refine .queued hr' (hages.status hs ▸ hf) ?_ (ha.own ▸ hc) (ha.shelved h) (ha.unsent hn) (ha.started.trans hq)
    rw [hl, ha.settings, hages.completion hs]

-- The first turn of the call.
theorem startCall {rest : List Turn} (ho : s.Owned) (hb : s.buffers[call.buffer]? = some document)
    (h : Recall call document l c s) (hr : s.ready = .startCall c :: rest) :
    Recall call document l c ({ s with ready := rest }.takeTurn (.startCall c)) ∧
      ({ s with ready := rest }.takeTurn (.startCall c)).answer? c = some l ∧
      ({ s with ready := rest }.takeTurn (.startCall c)).dispatches = s.dispatches ∧
      ({ s with ready := rest }.takeTurn (.startCall c)).stats =
        { s.stats with cacheHits := s.stats.cacheHits + 1 } := by
  cases h
  case answered hq => simp [hr] at hq
  case queued i r p hp hf hl hc h hn hq =>
    have ho' : ({ s with ready := rest } : Service).Owned :=
      ho.of_eq rfl rfl rfl rfl fun _ hc => hr ▸ List.mem_cons_of_mem _ hc
    have hs : Shelved call.uri (document.cursorAt call.position) i r { s with ready := rest } :=
      h.congr rfl rfl rfl rfl
    obtain ⟨hst, hstats⟩ := Shelved.seek c { call with stage := .queued } hs ho' hb hp hf
    have hc' := hst.getElem?_calls hc
    have hturn : ({ s with ready := rest } : Service).takeTurn (.startCall c) =
        { s with ready := rest }.seek c { call with stage := .queued } := by
      simp [takeTurn, withCall, hc, Service.startCall, h.enabled]
    rw [hturn]
    have hcount := (fixed_seek { s with ready := rest } c { call with stage := .queued }).ready.count_startCall c
    refine ⟨.answered (hl ▸ hc') (hst.unsent hn) ?_, ?_, hst.dispatches, hstats⟩
    case refine_1 =>
      rw [hcount]
      simpa [hr] using hq
    case refine_2 => simp [answer?, stage?, hc', hl]

theorem resumeCall {rest : List Turn} (h : Recall call document l c s) (hr : s.ready = .resumeCall c :: rest) :
    Recall call document l c ({ s with ready := rest }.takeTurn (.resumeCall c)) := by
  have hcount : rest.count (.startCall c) = s.ready.count (.startCall c) := by simp [hr]
  cases h
  case answered hc hn hq =>
    simp only [takeTurn, withCall, hc]
    exact .answered hc hn (hcount.trans hq)
  case queued hp hf hl hc h hn hq =>
    simp only [takeTurn, withCall, hc]
    exact .queued hp hf hl hc (h.congr rfl rfl rfl rfl) hn (hcount.trans hq)

end Recall

theorem Pursued.recall (h : Pursued uri c s) (call : Call) (hu : call.uri = uri)
    (hb : s.buffers[call.buffer]? = some document) (hr : Run Passing s t) (hc : Recall call document l c s) :
    t.Owned ∧ t.buffers[call.buffer]? = some document ∧ Recall call document l c t := by
  subst hu
  have := h.run hr hc (fun _ _ ha hc => hc.aside ha) fun u x rest hs hbuffers hready hx hc => by
    rcases hx with rfl | rfl
    case inl => exact (hc.startCall hs.owned (hbuffers ▸ hb) hready).1
    case inr => exact hc.resumeCall hready
  exact ⟨this.1.owned, this.2.1 ▸ hb, this.2.2.2⟩

-- No call for the document goes on, and no prediction that is kept for it is pending.
structure Quiet (uri : Text) (s : Service) : Prop where
  calls       : ∀ (c : Nat) (call : Call), s.calls[c]? = some call → call.uri = uri → call.stage.Over
  predictions : ∀ p ∈ s.predictionsOf uri, p.isPending = false

theorem Quiet.clear (h : s.Quiet uri) (hs : s.Sound) (hi : s.session? uri = some i) :
    s.Clear i none fun _ _ => True := by
  intro k hk _
  obtain ⟨d, hd, _⟩ := hs.kept i k hk
  have hp : s.prediction? k = some d.prediction := by rw [prediction?, hd, Option.map_some]
  cases hsession : s.sessions[i]?
  case none => simp [kept, hsession] at hk
  case some session =>
    refine ⟨d.prediction, hp, h.predictions _ ?_, trivial⟩
    simp only [predictionsOf, hi, Option.bind_some, hsession]
    exact List.mem_map.mpr ⟨_, (mem_predictionsIn_iff hsession).mpr ⟨hk, hp⟩, rfl⟩

-- A call that is yet to be made has sent nothing.
theorem Accounted.unsent_size (h : Accounted none s) : s.Unsent s.calls.size := by
  intro r d hd hc
  obtain ⟨_, _, hw⟩ := h.sent r d hd
  have : s.stage? d.call = none := by simp [stage?, hc]
  simp [this] at hw

variable {position : Position}

theorem provide_eq {b : Nat} (h : s.buffer? uri = some (b, document)) :
    s.after (.provide uri position) =
      { s with calls := s.calls.push { uri, buffer := b, position } }.queue (.startCall s.calls.size) := by
  simp [Service.after, provide, h]

-- The new call is the only one that goes on, if none did before.
theorem pursued_provide (ho : s.Owned)
    (h : ∀ (c : Nat) (call : Call), s.calls[c]? = some call → call.uri = uri → call.stage.Over) (position : Position) :
    Pursued uri s.calls.size (s.after (.provide uri position)) where
  owned := ho.after _
  alone := fun k call hk hu => by
    simp only [Service.after, provide] at hk
    split at hk
    case h_1 => exact .inr (h k call hk hu)
    case h_2 =>
      simp only [queue, Array.getElem?_push] at hk
      split at hk
      case isTrue hks => exact .inl hks
      case isFalse    => exact .inr (h k call hk hu)

-- A call that is answered from its own request leaves the prediction behind.
theorem Course.shelved (h : Course call cursor c s) (hl : s.answer? c = some l)
    (hf : ∃ (r : Nat) (d : Dispatch), s.dispatches[r]? = some d ∧ d.call = c ∧ d.prediction.status = .finished) :
    ∃ i r p, s.prediction? r = some p ∧ p.status = .finished ∧
      l = [Completion.of s.settings.repeatRule p cursor call.position 0] ∧ Shelved call.uri cursor i r s := by
  cases h
  case queued hc _ _     => simp [answer?, stage?, hc] at hl
  case waiting hc hs _   => rcases hs with ⟨_, _, rfl⟩ | ⟨_, _, _, rfl⟩ <;> simp [answer?, stage?, hc] at hl
  case awaiting hc _ _   => simp [answer?, stage?, hc] at hl
  case answered i r p hr hf hc h =>
    simp only [answer?, stage?, hc, Option.map_some, Option.some.injEq] at hl
    exact ⟨i, r, p, hr, hf, hl.symm, h⟩
  case lost hn =>
    obtain ⟨r, d, hd, hdc, hf⟩ := hf
    simp [hn r d hd hdc] at hf

-- The question is asked again where its answer is kept.
theorem Shelved.recall {b : Nat} (ho : s.Owned) (ha : Accounted none s) (hb : s.buffer? uri = some (b, document))
    (hr : s.prediction? r = some p) (hf : p.status = .finished)
    (h : Shelved uri (document.cursorAt position) i r s) :
    Recall { uri, buffer := b, position } document
      [Completion.of s.settings.repeatRule p (document.cursorAt position) position 0] s.calls.size
      (s.after (.provide uri position)) := by
  rw [provide_eq hb]
  refine .queued hr hf rfl ?_ (h.congr rfl rfl rfl rfl) ha.unsent_size ?_
  case refine_1 => simp [queue]
  case refine_2 =>
    have hn : .startCall s.calls.size ∉ s.ready := fun hm => by
      obtain ⟨call, hc⟩ := ho.started _ hm
      simp at hc
    simp [queue, List.count_eq_zero.mpr hn]

theorem Recall.unsent (h : Recall call document l c s) : s.Unsent c := by
  cases h <;> assumption

-- A call that was made has its answer unless its first turn is still to come.
theorem Recall.answer? (h : Recall call document l c s) : s.answer? c = some l ∨ .startCall c ∈ s.ready := by
  cases h
  case queued hq      => exact .inr (List.count_pos_iff.mp (by omega))
  case answered hc _ _ => exact .inl (by simp [Service.answer?, stage?, hc])

variable {settings : Setup} {backend : Backend} {features : Option LanguageFeatures}

-- A question that a request of its own has answered is answered the same way when it is asked again at once. That
-- takes one turn, is counted as a hit, and sends no request.
theorem answer_again (h : (start settings backend features).Reaches s) (hq : s.Quiet uri)
    (ht : Run Passing (s.after (.provide uri position)) t) (hl : t.answer? s.calls.size = some l)
    (hf : ∃ (r : Nat) (d : Dispatch), t.dispatches[r]? = some d ∧ d.call = s.calls.size ∧
      d.prediction.status = .finished) :
    (∀ ms, ((t.after (.provide uri position)).settle ms).answer? t.calls.size = some l) ∧
      ∀ u, Run Passing (t.after (.provide uri position)) u →
        (∀ (r : Nat) (d : Dispatch), u.dispatches[r]? = some d → d.call ≠ t.calls.size) ∧
        ∀ rest, u.ready = .startCall t.calls.size :: rest →
          (u.after .turn).answer? t.calls.size = some l ∧ (u.after .turn).dispatches = u.dispatches ∧
          (u.after .turn).stats = { u.stats with cacheHits := u.stats.cacheHits + 1 } := by
  have hs : (start settings backend features).Reaches t := (h.after _).trans ht.reaches
  have ho := Owned.reaches hs
  have hp := pursued_provide (.reaches h) hq.calls position
  cases hb : s.buffer? uri
  case none =>
    have hnone : (s.after (.provide uri position)).calls[s.calls.size]? = none := by
      simp [Service.after, provide, hb]
    simp [Service.answer?, stage?, hp.calls_eq_none ht hnone] at hl
  case some x =>
    obtain ⟨b, document⟩ := x
    have hcourse : Course { uri, buffer := b, position } (document.cursorAt position) s.calls.size
        (s.after (.provide uri position)) := by
      rw [provide_eq hb]
      exact .queued (by simp [queue]) (fun i hi => hq.clear (.reaches h) hi) (Accounted.reaches h).unsent_size
    have hbuffer : (s.after (.provide uri position)).buffers[b]? = some document := by
      rw [provide_eq hb]
      exact (buffer?_eq_some_iff.mp hb).2
    obtain ⟨hpt, hbuffers, hopened, hcourse⟩ := hp.course { uri, buffer := b, position } rfl hbuffer ht hcourse
    obtain ⟨i, r, p, hr, hfin, rfl, hshelved⟩ := hcourse.shelved hl hf
    have hbt : t.buffer? uri = some (b, document) := by
      rw [provide_eq hb] at hbuffers hopened
      rw [buffer?_eq_some_iff, hbuffers, hopened]
      exact buffer?_eq_some_iff.mp hb
    have hrecall := hshelved.recall ho (.reaches hs) hbt hr hfin
    have hover : ∀ (k : Nat) (call : Call), t.calls[k]? = some call → call.uri = uri → call.stage.Over := by
      intro k call hk hu
      rcases hpt.alone k call hk hu with rfl | hover
      case inr => exact hover
      case inl => cases hstage : call.stage <;> simp_all [Service.answer?, stage?, Stage.Over]
    have hrun {u : Service} (hu : Run Passing (t.after (.provide uri position)) u) :=
      (pursued_provide ho hover position).recall { uri, buffer := b, position } rfl
        (by rw [provide_eq hbt]; exact (buffer?_eq_some_iff.mp hbt).2) hu hrecall
    constructor
    case left =>
      intro ms
      have hsettled := (settled_settle (t.after (.provide uri position)) ms).1
      exact (hrun (Passing.settle _ ms)).2.2.answer?.resolve_right (by simp [hsettled])
    case right =>
      intro u hu
      obtain ⟨hou, hbu, hru⟩ := hrun hu
      refine ⟨hru.unsent, fun rest hready => ?_⟩
      simp only [Service.after, takeNext, hready]
      exact (hru.startCall hou hbu hready).2

def openedOnly : Service :=
  (start { debounce := 0, useHints := false } { answers := .always "foo".toList } none).after
    (.openBuffer ['a'] "x = ".toList)

def answeredOnce : Service :=
  (openedOnly.after (.provide ['a'] ⟨0, 4⟩)).settle 20

def shownOnce : Completion :=
  { text := "foo".toList, span := .empty ⟨0, 4⟩, prediction := some 0 }

theorem answer_again_answeredOnce :
    openedOnly.Quiet ['a'] ∧ answeredOnce.answer? 0 = some [shownOnce] ∧
      ((answeredOnce.after (.provide ['a'] ⟨0, 4⟩)).settle 0).answer? 1 = some [shownOnce] ∧
      ((answeredOnce.after (.provide ['a'] ⟨0, 4⟩)).after .turn).stats.cacheHits = 1 := by
  have hreach : (start { debounce := 0, useHints := false } { answers := .always "foo".toList } none).Reaches
      openedOnly :=
    (Reaches.refl _).after (.openBuffer ['a'] "x = ".toList)
  have hq : openedOnly.Quiet ['a'] := ⟨by simp [openedOnly, start, note, after, openBuffer], by decide +kernel⟩
  have ht : Run Passing (openedOnly.after (.provide ['a'] ⟨0, 4⟩)) answeredOnce := Passing.settle _ 20
  have hl : answeredOnce.answer? openedOnly.calls.size = some [shownOnce] := by decide +kernel
  have hd : answeredOnce.dispatches[0]?.map (fun d => (d.call, d.prediction.status)) = some (0, .finished) := by
    decide +kernel
  obtain ⟨d, hd, hds⟩ := Option.map_eq_some_iff.mp hd
  obtain ⟨hc, hf⟩ := Prod.mk.inj hds
  have hagain := answer_again hreach hq ht hl ⟨0, d, hd, hc, hf⟩
  have hready : (answeredOnce.after (.provide ['a'] ⟨0, 4⟩)).ready = [.startCall answeredOnce.calls.size] := by
    decide +kernel
  have hstats := ((hagain.2 _ .refl).2 [] hready).2.2
  refine ⟨hq, hl, hagain.1 0, ?_⟩
  rw [hstats]
  decide +kernel

end GhostText.Service
