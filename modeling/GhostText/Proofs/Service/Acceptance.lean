import GhostText.Proofs.Buffer.Positions
import GhostText.Proofs.Service.Owners
import GhostText.Proofs.Shown.Framing
import GhostText.Proofs.Shown.Window

namespace GhostText.Service

variable {s s' : Service} {uri : Text} {i r b : Nat} {p : Prediction} {session : Session} {document : Document}

-- Lines end in line feeds only, in every buffer.
def Plain (s : Service) : Prop :=
  ∀ (b : Nat) (document : Document), s.buffers[b]? = some document → '\r' ∉ document.text

namespace Plain

theorem start {settings : Setup} {backend : Backend} {features : Option LanguageFeatures} :
    (start settings backend features).Plain := by
  simp [Plain, Service.start, note]

theorem of_eq (h : s.Plain) (he : s'.buffers = s.buffers) : s'.Plain := by
  rwa [Plain, he]

theorem after (h : s.Plain) (e : Event) : (s.after e).Plain := by
  cases e
  case openBuffer uri t =>
    intro b document hb
    simp only [Service.after, openBuffer, Array.getElem?_push] at hb
    split at hb
    case isTrue  => exact Option.some.inj hb ▸ Text.carriageReturn_not_mem_normalizeBreaks t
    case isFalse => exact h b document hb
  case edit uri span t =>
    simp only [Service.after, edit]
    split
    case h_1 => exact h
    case h_2 k document hk =>
      intro b document' hb
      simp only [Array.getElem?_setIfInBounds] at hb
      split at hb
      case isFalse => exact h b document' hb
      case isTrue  =>
        split at hb
        case isFalse => contradiction
        case isTrue  =>
          have hk := h k document (buffer?_eq_some_iff.mp hk).2
          exact Option.some.inj hb ▸ Document.carriageReturn_not_mem_edit hk span t
  all_goals exact h.of_eq (buffers_after (by simp) (by simp)).1

theorem reaches {settings : Setup} {backend : Backend} {features : Option LanguageFeatures}
    (h : (Service.start settings backend features).Reaches s) : s.Plain :=
  h.induct start fun _ e hs => hs.after e

end Plain

theorem exists_lastAccept_forget (hi : s.sessions[i]? = some session) (id : Nat) :
    ∃ session', (s.forget i id).sessions[i]? = some session' ∧ session'.lastAccept = session.lastAccept ∧
      (s.forget i id).now = s.now := by
  have hlt := (Array.getElem?_eq_some_iff.mp hi).1
  simp only [forget, withCache, hi, Cache.delete, disposal]
  split
  case h_1 => exact ⟨session, by simp [setSession, hlt], rfl, rfl⟩
  case h_2 =>
    refine ⟨_, getElem?_setSession_self (by rwa [sessions_cancelRequest]) _, rfl, ?_⟩
    rw [setSession, cancelRequest_eq]

-- The time of an acceptance is recorded.
theorem accept_spec (hi : s.sessions[i]? = some session) (id : Nat) (p : Prediction) :
    ∃ session', (s.accept i id p).sessions[i]? = some session' ∧ session'.lastAccept = some s.now ∧
      (s.accept i id p).now = s.now := by
  have hn : (s.note (.accepted p.id)).sessions[i]? = some session := hi
  simp only [accept, hn]
  obtain ⟨session', hi', hl, hnow⟩ :=
    exists_lastAccept_forget (getElem?_setSession_self hn { session with lastAccept := some s.now }) id
  exact ⟨session', hi', hl, hnow⟩

theorem not_mem_kept_accept (hi : s.sessions[i]? = some session) (id : Nat) (p : Prediction) :
    id ∉ (s.accept i id p).kept i := by
  have hn : (s.note (.accepted p.id)).sessions[i]? = some session := hi
  simp only [accept, hn]
  exact not_mem_kept_forget _ i id

theorem lastAccept_acceptAll (hi : s.sessions[i]? = some session) (hl : session.lastAccept = some s.now)
    (taken : List (Nat × Prediction)) :
    ∃ session', (taken.foldl (fun s x => s.accept i x.1 x.2) s).sessions[i]? = some session' ∧
      session'.lastAccept = some s.now := by
  induction taken generalizing s session
  case nil            => exact ⟨session, hi, hl⟩
  case cons x rest ih =>
    obtain ⟨session', hi', hl', hnow⟩ := accept_spec hi x.1 x.2
    exact hnow ▸ ih hi' (hnow ▸ hl')

-- Everything that is accepted leaves the cache.
theorem acceptAll_spec {taken : List (Nat × Prediction)} (hi : s.sessions[i]? = some session)
    (hm : (r, p) ∈ taken) :
    r ∉ (taken.foldl (fun s x => s.accept i x.1 x.2) s).kept i ∧
      ∃ session', (taken.foldl (fun s x => s.accept i x.1 x.2) s).sessions[i]? = some session' ∧
        session'.lastAccept = some s.now := by
  induction hm generalizing s session
  case head rest =>
    obtain ⟨session', hi', hl, hnow⟩ := accept_spec hi r p
    have hkept := (Moves.acceptAll (c := 0) (s.accept i r p) i rest).frame.kept i
    exact ⟨fun hr => not_mem_kept_accept hi r p (hkept.mem hr), hnow ▸ lastAccept_acceptAll hi' (hnow ▸ hl) rest⟩
  case tail x rest _ ih =>
    obtain ⟨session', hi', _, hnow⟩ := accept_spec hi x.1 x.2
    exact hnow ▸ ih hi'

-- What is accepted of a session before a cursor, of the completions that are shown.
def taken (s : Service) (session : Session) (typed : Text) (shown : List Int) : List (Nat × Prediction) :=
  (s.predictionsIn session).filter fun x => shown.contains x.2.id && isAccepted typed x.2

-- A text is put in, and the completions that were shown are freed where it ends.
theorem free_inserted (hi : s.session? uri = some i) (hsession : s.sessions[i]? = some session)
    (hb : s.buffer? uri = some (b, document)) (hd : '\r' ∉ document.text) (position : Position) (text : Text)
    (shown : List Int) :
    let t := s.after (.edit uri (.empty position) text)
    let accepted := s.taken session (Text.squeeze (document.cursorAt position).before ++ Text.squeeze text) shown
    t.session? uri = some i ∧ t.sessions[i]? = some session ∧ t.now = s.now ∧
      t.free uri (document.insert position text).2 (some shown) =
        ((accepted.foldl (fun s x => s.accept i x.1 x.2) t).count
          (fun n => { n with accepted := n.accepted + accepted.length }), accepted.map (·.2.id)) := by
  intro t accepted
  have ht : t = { s with buffers := s.buffers.setIfInBounds b (document.insert position text).1 } := by
    simp only [t, after, edit, hb]
    rfl
  have hbt : t.buffer? uri = some (b, (document.insert position text).1) := by
    have hlt := (Array.getElem?_eq_some_iff.mp (buffer?_eq_some_iff.mp hb).2).1
    rw [ht, buffer?_eq_some_iff]
    exact ⟨(buffer?_eq_some_iff.mp hb).1, by simp [hlt]⟩
  have htyped : Text.squeeze ((document.insert position text).1.cursorAt (document.insert position text).2).before =
      Text.squeeze (document.cursorAt position).before ++ Text.squeeze text := by
    rw [Document.before_cursorAt_insert hd, Text.squeeze_append, Text.squeeze_normalizeBreaks]
  have hi' : t.session? uri = some i := by rw [ht]; exact hi
  have hsession' : t.sessions[i]? = some session := by rw [ht, hsession]
  have hpredictions : t.predictionsIn session = s.predictionsIn session := by rw [ht]; rfl
  refine ⟨hi', hsession', by rw [ht], ?_⟩
  simp only [free, hi', hbt, hsession', htyped, hpredictions]
  rfl

variable {settings : Setup} {backend : Backend} {features : Option LanguageFeatures} {c : Completion}
  {position : Position}

-- No other prediction can be reported under the number of this one.
theorem id_mem_taken_iff (h : s.Owned) (hsession : s.sessions[i]? = some session) (hp : s.prediction? r = some p)
    {typed : Text} {shown : List Int} :
    p.id ∈ (s.taken session typed shown).map (·.2.id) ↔ (r, p) ∈ s.taken session typed shown := by
  have hnumbered {k : Nat} {q : Prediction} (hq : s.prediction? k = some q) : q.id = k := by
    obtain ⟨d, hd, rfl⟩ := Option.map_eq_some_iff.mp hq
    exact h.numbered k d hd
  constructor
  case mpr => exact fun hm => List.mem_map.mpr ⟨_, hm, rfl⟩
  case mp  =>
    intro hm
    obtain ⟨⟨k, q⟩, hx, hq⟩ := List.mem_map.mp hm
    have hq' := ((mem_predictionsIn_iff hsession).mp (List.mem_of_mem_filter hx)).2
    have hkr : (k : Int) = r := by rw [← hnumbered hq', ← hnumbered hp]; exact hq
    obtain rfl : k = r := Int.ofNat_inj.mp hkr
    exact Option.some.inj (hq' ▸ hp) ▸ hx

theorem mem_taken_iff (hsession : s.sessions[i]? = some session) (hk : r ∈ s.kept i) (hp : s.prediction? r = some p)
    (hf : p.status = .finished) {text : Text} {shown : List Int} (hm : p.id ∈ shown) :
    (r, p) ∈ s.taken session (Text.squeeze p.before ++ Text.squeeze text) shown ↔
      Text.squeeze text = Text.squeeze p.insertText := by
  rw [taken, List.mem_filter, mem_predictionsIn_iff hsession]
  simp [hm, isAccepted, hf, hk, hp, eq_comm]

theorem id_mem_free_iff (h : (start settings backend features).Reaches s) (hi : s.session? uri = some i)
    (hk : r ∈ s.kept i) (hp : s.prediction? r = some p) (hf : p.status = .finished)
    (hb : s.buffer? uri = some (b, document)) (hbefore : (document.cursorAt position).before = p.before)
    (hc : c.prediction = some p.id) :
    p.id ∈ ((s.after (.edit uri (.empty position) c.text)).free uri (document.insert position c.text).2
      (some c.prediction.toList)).2 ↔ Text.squeeze c.text = Text.squeeze p.insertText := by
  have hd := Plain.reaches h b document (buffer?_eq_some_iff.mp hb).2
  obtain ⟨session, hsession⟩ := (Owned.reaches h).exists_session hi
  obtain ⟨-, -, -, hfree⟩ := free_inserted hi hsession hb hd position c.text c.prediction.toList
  rw [hfree, id_mem_taken_iff (Owned.reaches h) hsession hp, hbefore]
  exact mem_taken_iff hsession hk hp hf (by simp [hc])

-- A completion is put in where the prediction was made, and then no longer shown. The prediction is accepted if
-- nothing but blanks of its text was left out. Then it leaves the cache and the time is recorded.
theorem accepted_iff (h : (start settings backend features).Reaches s) (hi : s.session? uri = some i)
    (hk : r ∈ s.kept i) (hp : s.prediction? r = some p) (hf : p.status = .finished)
    (hb : s.buffer? uri = some (b, document)) (hbefore : (document.cursorAt position).before = p.before)
    (hc : c.prediction = some p.id) :
    let t := s.after (.edit uri (.empty position) c.text)
    let freed := t.free uri (document.insert position c.text).2 (some c.prediction.toList)
    (p.id ∈ freed.2 ↔ Text.squeeze c.text = Text.squeeze p.insertText) ∧
      (p.id ∈ freed.2 → freed.1.session? uri = some i ∧ r ∉ freed.1.kept i ∧
        ∃ session, freed.1.sessions[i]? = some session ∧ session.lastAccept = some s.now) := by
  intro t freed
  have hd := Plain.reaches h b document (buffer?_eq_some_iff.mp hb).2
  obtain ⟨session, hsession⟩ := (Owned.reaches h).exists_session hi
  obtain ⟨hi', hsession', hnow, hfree⟩ := free_inserted hi hsession hb hd position c.text c.prediction.toList
  refine ⟨id_mem_free_iff h hi hk hp hf hb hbefore hc, fun hm => ?_⟩
  have hstays : freed.1.session? uri = some i := ((Within.free (c := 0) _ _ hi').session? uri).trans hi'
  simp only [freed, t, hfree, id_mem_taken_iff (Owned.reaches h) hsession hp] at hm hstays ⊢
  exact ⟨hstays, hnow ▸ acceptAll_spec hsession' hm⟩

-- What is shown where the prediction was made is accepted when it is put in just if only blanks are cut off.
theorem shown_accepted_iff (h : (start settings backend features).Reaches s) (hi : s.session? uri = some i)
    (hk : r ∈ s.kept i) (hp : s.prediction? r = some p) (hf : p.status = .finished)
    (hb : s.buffer? uri = some (b, document)) (hbefore : (document.cursorAt position).before = p.before)
    {rule : RepeatRule}
    (hspan : (Completion.of rule p (document.cursorAt position) position 0).span.isEmpty = true) :
    let shown := Completion.of rule p (document.cursorAt position) position 0
    p.id ∈ ((s.after (.edit uri (.empty position) shown.text)).free uri (document.insert position shown.text).2
      (some shown.prediction.toList)).2 ↔ Excerpt.OnlyBlanksCut rule p (document.cursorAt position) := by
  intro shown
  have hprediction : shown.prediction = some p.id := Completion.prediction_of rule p _ position 0
  rw [id_mem_free_iff h hi hk hp hf hb hbefore hprediction, Completion.text_of_span_isEmpty hspan,
    Excerpt.squeeze_text_eq_iff]

-- A call has been answered from its request, which brought this text.
def answeredWith (text : Text) : Service :=
  (((start { debounce := 0, useHints := false } { answers := .always text } none).after
    (.openBuffer ['a'] "x = ".toList)).after (.provide ['a'] ⟨0, 4⟩)).settle 20

theorem reaches_answeredWith (text : Text) :
    (start { debounce := 0, useHints := false } { answers := .always text } none).Reaches (answeredWith text) :=
  (((Reaches.refl _).after _).after _).trans (.settle _ 20)

def shownFoo : Completion :=
  { text := "foo".toList, span := .empty ⟨0, 4⟩, prediction := some 0 }

theorem accepted_iff_answeredWith_foo :
    (answeredWith "foo".toList).answer? 0 = some [shownFoo] ∧
      0 ∈ (((answeredWith "foo".toList).after (.edit ['a'] (.empty ⟨0, 4⟩) shownFoo.text)).free ['a'] ⟨0, 7⟩
        (some shownFoo.prediction.toList)).2 := by
  have hp : (answeredWith "foo".toList).prediction? 0 = some
      { id := 0, before := "x = ".toList, kind := .fillLine, stage := .finished "foo".toList 0,
        rawText := "foo".toList } := by
    decide +kernel
  have hb : (answeredWith "foo".toList).buffer? ['a'] = some (0, ⟨"x = ".toList⟩) := by decide +kernel
  have hbefore : ((⟨"x = ".toList⟩ : Document).cursorAt ⟨0, 4⟩).before = "x = ".toList := by decide +kernel
  have h := accepted_iff (reaches_answeredWith _) (i := 0) (by decide +kernel) (by decide +kernel) hp rfl hb hbefore
    (c := shownFoo) rfl
  exact ⟨by decide +kernel, h.1.mpr (by decide +kernel)⟩

-- The closing bracket is left out where nothing was opened, and then the prediction is not accepted.
theorem not_accepted_answeredWith_closer :
    (start { debounce := 0, useHints := false } { answers := .always "foo)".toList } none).Reaches
        (answeredWith "foo)".toList) ∧
      (answeredWith "foo)".toList).session? ['a'] = some 0 ∧ 0 ∈ (answeredWith "foo)".toList).kept 0 ∧
      ((answeredWith "foo)".toList).prediction? 0).map (fun p => (p.status, p.before, p.insertText)) =
        some (.finished, "x = ".toList, "foo)".toList) ∧
      ((answeredWith "foo)".toList).buffer? ['a']).map (fun x => (x.2.cursorAt ⟨0, 4⟩).before) = some "x = ".toList ∧
      (answeredWith "foo)".toList).answer? 0 = some [shownFoo] ∧
      ((answeredWith "foo)".toList).edit ['a'] (.empty ⟨0, 4⟩) shownFoo.text).2 = some ⟨0, 7⟩ ∧
      (((answeredWith "foo)".toList).after (.edit ['a'] (.empty ⟨0, 4⟩) shownFoo.text)).free ['a'] ⟨0, 7⟩
        (some shownFoo.prediction.toList)).2 = [] :=
  ⟨reaches_answeredWith _, by decide +kernel, by decide +kernel, by decide +kernel, by decide +kernel,
    by decide +kernel, by decide +kernel, by decide +kernel⟩

end GhostText.Service
