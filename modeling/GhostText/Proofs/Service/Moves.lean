import Mathlib.Logic.Relation
import GhostText.Proofs.Service.Stopping

namespace GhostText.Service

open Relation

variable {s s' s'' : Service} {q : List Turn} {c i k : Nat}

-- A call that is not over may be answered. If it awaits a prediction, that has its text or is not kept any more.
def Answerable (s : Service) (c : Nat) : Prop :=
  match s.stage? c with
  | none | some (.answered _) | some .cancelled => False
  | some (.awaiting i _ id _) => (s.prediction? id).any (·.status = .finished) ∨ id ∉ s.kept i
  | _ => True

-- Where a call may stand next that sends no request.
inductive Next (s : Service) (c : Nat) : Stage → Prop
  | debounce {i : Nat} {session : Session} {cursor : Cursor} {accepted : Bool} (hc : s.stage? c = some .queued)
    (hi : s.sessions[i]? = some session) : Next s c (.debouncing i cursor session.generation accepted)
  | join {i id : Nat} {session : Session} {p : Prediction} {cursor : Cursor} (hc : s.stage? c = some .queued)
    (hi : s.sessions[i]? = some session) (hp : (id, p) ∈ s.predictionsIn session) (hw : p.isPending = true) :
    Next s c (.awaiting i cursor id false)
  | answer (hc : s.Answerable c) (completions : List Completion) : Next s c (.answered completions)

inductive Move (c : Nat) (s : Service) : Service → Prop
  | extend {q : List Turn} {s' : Service} (h : Extends q s s') (hq : ∀ t ∈ q, t.Outer) : Move c s s'
  | openSession (uri : Text) : Move c s (s.sessionFor uri).1
  | closeSession (uri : Text) : Move c s { s with current := s.current.filter (·.1 ≠ uri) }
  | stop (k : Nat) : Move c s (s.cancelRequest k)
  -- an entry is not dropped before its request is asked to stop
  | drop {i : Nat} {session session' : Session} (hi : s.sessions[i]? = some session)
    (hg : session'.generation = session.generation) (hk : session'.cache.keys.Sublist session.cache.keys)
    (ho : ∀ k ∈ session.cache.keys, k ∉ session'.cache.keys → s.Off k) : Move c s (s.setSession i session')
  | supersede {i : Nat} {session : Session} (hi : s.sessions[i]? = some session) :
    Move c s (s.setSession i { session with generation := session.generation + 1 })
  | call {stage : Stage} (h : Next s c stage) : Move c s (s.setCall c stage)

theorem Move.resume (s : Service) (c' : Nat) : Move c s (s.queue (.resumeCall c')) := by
  refine .extend (.queue s _) fun t ht => ?_
  obtain rfl := List.mem_singleton.mp ht
  exact .inl rfl

def Moves (c : Nat) : Service → Service → Prop :=
  ReflTransGen (Move c)

theorem stage?_setCall (h : s.stage? c ≠ none) (stage : Stage) (c' : Nat) :
    (s.setCall c stage).stage? c' = if c' = c then some stage else s.stage? c' := by
  simp only [stage?, setCall, Array.getElem?_modify]
  by_cases hc : c' = c
  case neg => simp [hc, Ne.symm hc]
  case pos =>
    subst hc
    cases hg : s.calls[c']?
    case none => simp [stage?, hg] at h
    case some => simp

theorem stage?_answer (h : s.stage? c ≠ none) (completions : List Completion) :
    (s.answer c completions).stage? c = some (.answered completions) :=
  (stage?_setCall h _ c).trans (if_pos rfl)

theorem mem_predictionsIn_iff {session : Session} (hi : s.sessions[i]? = some session) {id : Nat} {p : Prediction} :
    (id, p) ∈ s.predictionsIn session ↔ id ∈ s.kept i ∧ s.prediction? id = some p := by
  simp only [predictionsIn, List.mem_filterMap, Option.map_eq_some_iff, Prod.mk.injEq, kept, hi, Option.map_some,
    Option.getD_some]
  constructor
  case mp =>
    rintro ⟨k, hk, q, hq, rfl, rfl⟩
    exact ⟨hk, hq⟩
  case mpr =>
    rintro ⟨hk, hp⟩
    exact ⟨id, hk, p, hp, rfl, rfl⟩

theorem mem_kept_of_mem_predictionsIn {session : Session} {id : Nat} {p : Prediction}
    (hi : s.sessions[i]? = some session) (hp : (id, p) ∈ s.predictionsIn session) :
    id ∈ s.kept i ∧ s.prediction? id = some p :=
  (mem_predictionsIn_iff hi).mp hp

theorem prediction?_congr (h : s'.dispatches = s.dispatches) (r : Nat) : s'.prediction? r = s.prediction? r := by
  rw [prediction?, h, prediction?]

namespace Extends

variable (h : Extends q s s')
include h

theorem setCall (c : Nat) (stage : Stage) : Extends q (s.setCall c stage) (s'.setCall c stage) where
  settings   := h.settings
  sessions   := h.sessions
  current    := h.current
  dispatches := h.dispatches
  calls      := by simp [Service.setCall, h.calls]
  ready      := h.ready

theorem stage? (c : Nat) : s'.stage? c = s.stage? c := by
  rw [Service.stage?, Service.stage?, h.calls]

theorem prediction? (id : Nat) : s'.prediction? id = s.prediction? id :=
  prediction?_congr h.dispatches id

theorem predictionsIn (session : Session) : s'.predictionsIn session = s.predictionsIn session := by
  simp only [Service.predictionsIn, h.prediction?]

theorem kept (i : Nat) : s'.kept i = s.kept i := by
  rw [Service.kept, Service.kept, h.sessions]

theorem answerable : s'.Answerable c ↔ s.Answerable c := by
  simp only [Answerable, h.stage?, h.prediction?, h.kept]

end Extends

variable {call : Call} {cursor : Cursor} {session : Session}

namespace Moves

theorem refl (s : Service) : Moves c s s :=
  ReflTransGen.refl

theorem trans (h₁ : Moves c s s') (h₂ : Moves c s' s'') : Moves c s s'' :=
  ReflTransGen.trans h₁ h₂

theorem single (h : Move c s s') : Moves c s s' :=
  ReflTransGen.single h

theorem extend (h : Extends [] s s') : Moves c s s' :=
  single (.extend h (by simp))

theorem stopAll (s : Service) (ks : List Nat) : Moves c s (s.stopAll ks) := by
  induction ks generalizing s
  case nil          => exact refl s
  case cons k ks ih => exact (single (.stop k)).trans (ih _)

-- The entries that a change of the cache leaves out have been stopped before.
theorem stopAll_setSession {session session' : Session} (ks : List Nat) (hi : s.sessions[i]? = some session)
    (hg : session'.generation = session.generation)
    (hk : session'.cache.keys.Sublist session.cache.keys)
    (ho : ∀ k ∈ session.cache.keys, k ∉ session'.cache.keys → k ∈ ks) :
    Moves c s ((s.stopAll ks).setSession i session') := by
  apply (stopAll s ks).trans
  exact single (.drop (by rwa [sessions_stopAll]) hg hk fun k hm hn => off_stopAll (ho k hm hn))

theorem forget (s : Service) (i id : Nat) : Moves c s (s.forget i id) := by
  simp only [Service.forget, withCache]
  split
  case h_1 => exact refl s
  case h_2 session hi =>
    simp only [Cache.delete, disposal]
    split
    case h_1 => exact stopAll_setSession [] hi rfl (.refl _) fun _ h h' => absurd h h'
    case h_2 =>
      apply stopAll_setSession [id] hi
      case hg => rfl
      case hk => exact List.filter_sublist.map _
      case ho =>
        intro k hm hn
        rw [Cache.keys, Cache.map_without, List.mem_filter] at hn
        simpa using not_and.mp hn hm

theorem clear (s : Service) (i : Nat) :
    Moves c s (s.withCache i fun cache s => cache.clear disposal s) := by
  cases hi : s.sessions[i]?
  case none => simpa [withCache, hi] using refl s
  case some session =>
    rw [clear_eq hi]
    exact stopAll_setSession _ hi rfl (List.nil_sublist _) fun _ hm _ => hm

theorem answer (h : s.Answerable c) (completions : List Completion) : Moves c s (s.answer c completions) :=
  single (.call (.answer h completions))

theorem complete (h : s.Answerable c) (p : Prediction) (b : Bounds) : Moves c s (s.complete c call cursor p b) := by
  have he := Extends.noteAll s ((Excerpt.of s.settings.repeatRule p cursor b.index).notices p.id)
  exact (extend he).trans (answer (he.answerable.mpr h) _)

theorem failCall (h : s.Answerable c) : Moves c s (s.failCall c call) := by
  have he := (Extends.note s (.callFailed call.uri)).trans
    (.count _ fun n => { n with internalErrors := n.internalErrors + 1 })
  exact (extend he).trans (answer (he.answerable.mpr h) [])

theorem answerable_of_queued (h : s.stage? c = some .queued) : s.Answerable c := by
  simp [Answerable, h]

theorem serveCached {id : Nat} {p : Prediction} {b : Bounds} (hc : s.stage? c = some .queued)
    (hi : s.sessions[i]? = some session) (hp : (id, p) ∈ s.predictionsIn session) :
    Moves c s (s.serveCached c call i cursor id p b) := by
  have he := Extends.cacheHit s p
  simp only [Service.serveCached]
  apply (extend he).trans
  rw [← he.stage?] at hc
  rw [← he.predictionsIn] at hp
  rw [← he.sessions] at hi
  split
  case h_1 => exact complete (answerable_of_queued hc) p b
  case h_3 => exact answer (answerable_of_queued hc) []
  case h_2 hw =>
    have hw : p.isPending = true := by
      cases hp : p.stage <;> simp_all [Prediction.status, Prediction.isPending]
    exact single (.call (.join hc hi hp hw))

theorem resumeAfter (s : Service) (delay c' : Nat) : Moves c s (s.resumeAfter delay c') := by
  simp only [Service.resumeAfter]
  split
  case isTrue  => exact single (.resume s c')
  case isFalse => exact extend (.setAlarm s _ _)

theorem debounce {accepted : Bool} (hc : s.stage? c = some .queued) (hi : s.sessions[i]? = some session) :
    Moves c s (s.debounce c call i session cursor accepted) := by
  simp only [Service.debounce]
  apply (single (.supersede hi)).trans
  have hc' : (s.setSession i { session with generation := session.generation + 1 }).stage? c = some .queued := hc
  have hi' : (s.setSession i { session with generation := session.generation + 1 }).sessions[i]? =
      some { session with generation := session.generation + 1 } := by
    have hlt := (Array.getElem?_eq_some_iff.mp hi).1
    simp [setSession, hlt]
  split
  case isTrue  => exact failCall (answerable_of_queued hc')
  case isFalse => exact (single (.call (.debounce hc' hi'))).trans (resumeAfter _ _ _)

theorem mem_of_findMatch {before : Text} {l : List (Nat × Prediction)} {id : Nat} {p : Prediction} {b : Bounds}
    (h : (findMatch before l).1 = some (id, p, b)) : (id, p) ∈ l := by
  induction l
  case nil => simp [findMatch] at h
  case cons x l ih =>
    simp only [findMatch] at h
    split at h
    case h_1 =>
      simp only [Option.some.injEq, Prod.mk.injEq] at h
      exact h.1 ▸ h.2.1 ▸ List.mem_cons_self
    case h_2 => exact List.mem_cons_of_mem _ (ih h)

theorem seek (hc : s.stage? c = some .queued) : Moves c s (s.seek c call) := by
  simp only [Service.seek]
  have hc : (s.sessionFor call.uri).1.stage? c = some .queued := by
    rw [stage?, (Shifts.sessionFor (l := 0) s call.uri).2]
    exact hc
  apply (single (.openSession call.uri)).trans
  generalize s.sessionFor call.uri = x at hc ⊢
  split
  case h_2 => exact refl _
  case h_1 document session _ hi =>
    have he := Extends.noteAll x.1
      (findMatch (document.cursorAt call.position).before (x.1.predictionsIn session)).2
    apply (extend he).trans
    rw [← he.stage?] at hc
    rw [← he.sessions] at hi
    split
    case h_1 id p b hf =>
      have hp := mem_of_findMatch hf
      rw [← he.predictionsIn] at hp
      exact serveCached hc hi hp
    case h_2 =>
      split
      case h_1 => exact debounce hc hi
      case h_2 => exact failCall (answerable_of_queued hc)

theorem startCall (h : s.calls[c]? = some call) : Moves c s (s.startCall c call) := by
  simp only [Service.startCall]
  split
  case h_2 => exact refl s
  case h_1 hq =>
    have hc : s.stage? c = some .queued := by simp [stage?, h, hq]
    split
    case isTrue  => exact seek hc
    case isFalse => exact answer (answerable_of_queued hc) []

theorem enforceLimit (s : Service) (i : Nat) : Moves c s (s.enforceLimit i) := by
  simp only [Service.enforceLimit]
  split
  case h_1 => exact refl s
  case h_2 =>
    split
    case h_1 => exact refl s
    case h_2 oldest p _ _ =>
      split
      case isTrue  => exact (extend (.note s _)).trans ((forget _ i oldest).trans (extend (.count _ _)))
      case isFalse => exact refl s

theorem deliver {id : Nat} {own : Bool} (hc : s.stage? c = some (.awaiting i cursor id own)) :
    Moves c s (s.deliver c call i cursor id own) := by
  simp only [Service.deliver]
  split
  case h_1 => exact refl s
  case h_2 p hp =>
    split
    case h_1 => exact refl s
    case h_2 result hr =>
      split
      case isTrue =>
        have hc' : (s.forget i id).stage? c = some (.awaiting i cursor id own) := by
          rw [stage?, calls_forget]
          exact hc
        have hk := not_mem_kept_forget s i id
        exact (forget s i id).trans (answer (by simp [Answerable, hc', hk]) [])
      case isFalse hok =>
        have hf : p.status = .finished := by
          cases hs : p.stage <;> simp_all [Prediction.result?, Prediction.status, RequestResult.ok]
          subst hr
          simp at hok
        have ha : s.Answerable c := by simp [Answerable, hc, hp, hf]
        split
        case isTrue => exact complete ha p _
        case isFalse =>
          have he := Extends.noteAll s ((Bounds.judge cursor.before p.before p.insertText).notices p.id)
          apply (extend he).trans
          split
          case h_1 => exact complete (he.answerable.mpr ha) p _
          case h_2 => exact answer (he.answerable.mpr ha) []

theorem close (s : Service) (uri : Text) : Moves c s (s.close uri) := by
  simp only [Service.close]
  split
  case h_1 => exact refl s
  case h_2 => exact (single (.closeSession uri)).trans (clear _ _)

theorem closeAll (s : Service) (uris : List Text) : Moves c s (uris.foldl Service.close s) := by
  induction uris generalizing s
  case nil              => exact refl s
  case cons uri uris ih => exact (close s uri).trans (ih _)

theorem dispose (s : Service) : Moves c s s.dispose :=
  closeAll s _

theorem accept (s : Service) (i id : Nat) (p : Prediction) : Moves c s (s.accept i id p) := by
  simp only [Service.accept]
  apply (extend (.note s (.accepted p.id))).trans
  split
  case h_1 => exact refl _
  case h_2 session hi =>
    have hd : Moves c (s.note (.accepted p.id))
        ((s.note (.accepted p.id)).setSession i { session with lastAccept := some s.now }) :=
      single (.drop hi rfl (.refl _) fun _ h h' => absurd h h')
    exact hd.trans (forget _ i id)

theorem acceptAll (s : Service) (i : Nat) (taken : List (Nat × Prediction)) :
    Moves c s (taken.foldl (fun s x => s.accept i x.1 x.2) s) := by
  induction taken generalizing s
  case nil            => exact refl s
  case cons x rest ih => exact (accept s i x.1 x.2).trans (ih _)

theorem free (s : Service) (uri : Text) (position : Position) (shown : Option (List Int)) :
    Moves c s (s.free uri position shown).1 := by
  simp only [Service.free]
  split
  case h_2 => exact refl s
  case h_1 i _ _ _ _ =>
    split
    case h_1 => exact refl s
    case h_2 session _ =>
      dsimp only
      exact (acceptAll s i _).trans (extend (.count _ _))

end Moves
end GhostText.Service
