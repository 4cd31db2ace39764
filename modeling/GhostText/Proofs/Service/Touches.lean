import GhostText.Proofs.Service.Deeds
import GhostText.Proofs.Service.Strokes
import GhostText.Proofs.Service.Tending

namespace GhostText.Service

open Relation

variable {s s' s'' : Service} {t : Turn} {rest : List Turn} {r : Nat} {d : Dispatch} {e : Deed}

def Fitted (s : Service) : Prop :=
  ∀ c stage, s.stage? c = some stage → stage.Fits

-- No request changes. Its turns and its alarms are still to come, and nothing is counted that concerns it.
structure Apart (s s' : Service) : Prop where
  settings   : s'.settings = s.settings
  now        : s'.now = s.now
  backend    : s'.backend = s.backend
  dispatches : s'.dispatches = s.dispatches
  tally      : s'.stats.tally = s.stats.tally
  turns      : ∀ t ∈ s.ready, ∀ r d, t.request? = some r → s.dispatches[r]? = some d → t ∈ s'.ready
  queued     : ∀ t ∈ s'.ready, t.request? ≠ none → t ∈ s.ready
  alarms     : ∀ a ∈ s.alarms, (∀ c, a.bell ≠ .call c) → a ∈ s'.alarms
  fitted     : s.Fitted → s'.Fitted

namespace Apart

-- Nothing changes but what the editor holds, which session a document has, what the sessions hold, and the notices.
theorem of_eq (h : s' = { s with
      features := s'.features, buffers := s'.buffers, opened := s'.opened, sessions := s'.sessions,
      current := s'.current, notices := s'.notices }) : Apart s s' := by
  have hr : s'.ready = s.ready   := by rw [h]
  have ha : s'.alarms = s.alarms := by rw [h]
  have hc : s'.calls = s.calls   := by rw [h]
  exact {
    settings   := by rw [h]
    now        := by rw [h]
    backend    := by rw [h]
    dispatches := by rw [h]
    tally      := by rw [h]
    turns      := fun _ ht _ _ _ _ => hr ▸ ht
    queued     := fun _ ht _ => hr ▸ ht
    alarms     := fun _ hm _ => ha ▸ hm
    fitted     := fun hf c stage hs => hf c stage (by rwa [stage?, ← hc]) }

theorem refl (s : Service) : Apart s s :=
  of_eq rfl

theorem queue (s : Service) (ht : t.request? = none) : Apart s (s.queue t) :=
  { refl s with
    turns  := fun _ ht _ _ _ _ => List.mem_append_left _ ht
    queued := fun t' ht' hn => (List.mem_append.mp ht').resolve_right fun hm => by
      rw [List.mem_singleton.mp hm] at hn
      exact hn ht }

theorem setCall (s : Service) (c : Nat) {stage : Stage} (h : stage.Fits) : Apart s (s.setCall c stage) := by
  refine { refl s with fitted := fun hf k stage' hs => ?_ }
  simp only [stage?, Service.setCall, Array.getElem?_modify] at hs
  split at hs
  case isFalse => exact hf k stage' hs
  case isTrue  =>
    rw [Option.map_map, Option.map_eq_some_iff] at hs
    obtain ⟨_, _, rfl⟩ := hs
    exact h

theorem sessionFor (s : Service) (uri : Text) : Apart s (s.sessionFor uri).1 := by
  simp only [Service.sessionFor]
  split
  case h_1 => exact refl s
  case h_2 => exact of_eq rfl

-- A turn leaves the queue that is of no request.
theorem popped (hr : s.ready = t :: rest) (ht : ∀ r d, t.request? = some r → s.dispatches[r]? ≠ some d) :
    Apart s { s with ready := rest } := by
  refine { refl s with
    turns  := fun t' ht' r d hreq hd => ?_
    queued := fun t' ht' _ => hr ▸ List.mem_cons_of_mem t ht' }
  rw [hr] at ht'
  cases ht'
  case head    => exact absurd hd (ht r d hreq)
  case tail hm => exact hm

end Apart

inductive Touch (s : Service) : Service → Prop
  | apart {s' : Service} (h : Apart s s') : Touch s s'
  | stop (k : Nat) : Touch s (s.cancelRequest k)
  | enlist {c i : Nat} {d : Dispatch} (hd : s.Fresh c i d) : Touch s (s.enlist d)
  | deed {t : Turn} {rest : List Turn} {r : Nat} {d : Dispatch} {e : Deed} (hr : s.ready = t :: rest)
    (ht : t.request? = some r) (hd : s.dispatches[r]? = some d) (htd : Tended (t :: rest) r d)
    (he : Does { s with ready := rest } r t d e) (notices : Array Notice) :
    Touch s { ({ s with ready := rest } : Service).perform r e with notices }

def Touches : Service → Service → Prop :=
  ReflTransGen Touch

theorem Stroke.touch {x : Option Nat} {i : Nat} (h : Stroke x i s s') : Touch s s' := by
  cases h
  case noteAll ns   => rw [noteAll_eq]; exact .apart (.of_eq rfl)
  case count f hf   => exact .apart { Apart.refl s with tally := hf s.stats }
  case resume       => exact .apart (.queue s rfl)
  case setAlarm     => exact .apart { Apart.refl s with alarms := fun _ ha _ => List.mem_append_left _ ha }
  case setCall hf   => exact .apart (.setCall s _ hf)
  case setSession   => exact .apart (.of_eq rfl)
  case stop k _     => exact .stop k
  case enlist hd    => exact .enlist hd

namespace Touches

theorem refl (s : Service) : Touches s s :=
  ReflTransGen.refl

theorem trans (h₁ : Touches s s') (h₂ : Touches s' s'') : Touches s s'' :=
  ReflTransGen.trans h₁ h₂

theorem apart (h : Apart s s') : Touches s s' :=
  ReflTransGen.single (.apart h)

theorem of_strokes {x : Option Nat} {i : Nat} (h : Strokes x i s s') : Touches s s' :=
  ReflTransGen.mono (fun _ _ h => Stroke.touch h) _ _ h

-- What every touch keeps.
theorem keeps {P : Service → Prop} (h : Touches s s') (hP : ∀ u v, P u → Touch u v → P v) (hs : P s) : P s' := by
  induction h
  case refl         => exact hs
  case tail _ ht ih => exact hP _ _ ih ht

theorem close (s : Service) (uri : Text) : Touches s (s.close uri) := by
  simp only [Service.close]
  split
  case h_1   => exact refl s
  case h_2 i _ =>
    have ha : Apart s { s with current := s.current.filter (·.1 ≠ uri) } := .of_eq rfl
    exact (apart ha).trans (of_strokes (.clear (x := none) _ i))

theorem closeAll (s : Service) (uris : List Text) : Touches s (uris.foldl Service.close s) := by
  induction uris generalizing s
  case nil              => exact refl s
  case cons uri uris ih => exact (close s uri).trans (ih _)

theorem takeTurn_of_call (hf : s.Fitted) (ht : t.request? = none) : Touches s (s.takeTurn t) := by
  cases t
  case startCall c =>
    simp only [takeTurn, withCall]
    split
    case h_2 => exact refl s
    case h_1 call hc =>
      simp only [startCall]
      split
      case h_2 => exact refl s
      case h_1 =>
        split
        case isTrue  => exact (apart (.sessionFor s call.uri)).trans (of_strokes (.seek s c call))
        case isFalse => exact of_strokes (.answer (i := 0) s [])
  case resumeCall c =>
    simp only [takeTurn, withCall]
    split
    case h_2 => exact refl s
    case h_1 call hc =>
      have hfit : call.stage.Fits := hf c call.stage (by simp [stage?, hc])
      cases hi : call.stage.session?
      case none   => rw [resumeCall_of_session?_eq_none hi]; exact refl s
      case some i => exact of_strokes (.resumeCall (fun j hj => Option.some.inj (hj ▸ hi)) hfit)
  case relay c =>
    simp only [takeTurn, withCall]
    split
    case h_1 call _ => exact of_strokes (.relay (i := 0) s c call)
    case h_2        => exact refl s
  case ring b =>
    cases b
    case call c => exact apart (.queue s rfl)
    all_goals simp [Turn.request?] at ht
  all_goals simp [Turn.request?] at ht

theorem takeNext (hs : s.Attended) (hf : s.Fitted) : Touches s s.takeNext := by
  simp only [Service.takeNext]
  split
  case h_1           => exact refl s
  case h_2 t rest hr =>
    generalize hu : ({ s with ready := rest } : Service) = u
    have hdisp : u.dispatches = s.dispatches := hu ▸ rfl
    cases hreq : t.request?
    case none =>
      have ha : Apart s u := hu ▸ .popped hr fun r d h => by simp [hreq] at h
      exact (apart ha).trans (takeTurn_of_call (ha.fitted hf) hreq)
    case some r =>
      cases hd : s.dispatches[r]?
      case none =>
        rw [takeTurn_of_none hreq (by rw [hdisp, hd]), ← hu]
        exact apart (.popped hr fun r' d h => by simp_all)
      case some d =>
        have ht := hs.tended r d hd
        obtain ⟨e, he, hs⟩ := Performs.takeTurn (s := u) hreq (by rw [hdisp, hd]) ht.pending
        rw [hs, ← hu]
        exact ReflTransGen.single (.deed hr hreq hd (hr ▸ ht) (hu ▸ he) _)

-- Whatever happens, unless the clock goes on or there is another backend.
theorem after_cases (hs : s.Attended) (hf : s.Fitted) (e : Event) :
    Touches s (s.after e) ∨ (∃ time, e = .advance time) ∨ ∃ b, e = .serve b := by
  cases e
  case advance time    => exact .inr (.inl ⟨time, rfl⟩)
  case serve b         => exact .inr (.inr ⟨b, rfl⟩)
  all_goals left
  case turn            => exact takeNext hs hf
  case openBuffer      => exact apart (.of_eq rfl)
  case assist          => exact apart (.of_eq rfl)
  case close uri       => exact close s uri
  case dispose         => exact closeAll s _
  case edit uri span t =>
    simp only [Service.after, edit]
    split
    case h_1 => exact refl s
    case h_2 => exact apart (.of_eq rfl)
  case provide uri position =>
    simp only [Service.after, provide]
    split
    case h_1 => exact refl s
    case h_2 b _ _ =>
      refine apart { Apart.queue s (t := .startCall s.calls.size) rfl with fitted := fun hf c stage hs => ?_ }
      rw [stage?_provide] at hs
      split at hs
      case isTrue  => exact Option.some.inj hs ▸ trivial
      case isFalse => exact hf c stage hs
  case cancel c =>
    simp only [Service.after, cancelCall]
    split
    case h_4 =>
      have hd : Apart s (s.dropAlarm (.call c)) :=
        { Apart.refl s with alarms := fun a ha hn => List.mem_filter.mpr ⟨ha, by simpa using hn c⟩ }
      exact (apart hd).trans (apart (.setCall _ c trivial))
    all_goals exact refl s
  case free uri position shown =>
    cases hi : s.session? uri
    case none   => simpa [Service.after, free, hi] using refl s
    case some i => exact of_strokes (.free (x := none) position shown hi)

end Touches

theorem Touch.fitted (h : Touch s s') (hf : s.Fitted) : s'.Fitted := by
  cases h
  case apart h    => exact h.fitted hf
  case stop k     => exact fun c stage hs => hf c stage (by rwa [stage?, calls_cancelRequest] at hs)
  case enlist     => exact hf
  case deed       => exact hf

theorem Fitted.after (hf : s.Fitted) (hs : s.Attended) (e : Event) : (s.after e).Fitted := by
  rcases Touches.after_cases hs hf e with ht | ⟨time, rfl⟩ | ⟨b, rfl⟩
  case inl     => exact ht.keeps (fun _ _ hf ht => ht.fitted hf) hf
  case inr.inl => exact hf
  case inr.inr => exact hf

theorem Fitted.start {settings : Setup} {backend : Backend} {features : Option LanguageFeatures} :
    (start settings backend features).Fitted := by
  simp [Fitted, Service.start, note, stage?]

theorem Fitted.reaches {settings : Setup} {backend : Backend} {features : Option LanguageFeatures}
    (h : (Service.start settings backend features).Reaches s) : s.Fitted :=
  (h.induct (P := fun s => s.Attended ∧ s.Fitted) ⟨.start, .start⟩ fun _ e hs => ⟨hs.1.after e, hs.2.after hs.1 e⟩).2

end GhostText.Service
