import GhostText.Proofs.Service.Beats
import GhostText.Proofs.Service.Course

namespace GhostText.Service

variable {s s' s'' : Service} {c i k r : Nat} {t : Turn}

-- A call that has come so far sends no request any more.
def Stage.Late : Stage → Prop
  | .awaiting .. | .answered _ | .cancelled => True
  | _ => False

def Early (s : Service) (c : Nat) : Prop :=
  ∀ stage, s.stage? c = some stage → ¬stage.Late

-- The call does not come to go on sooner.
structure Beat.Calm (x y : Beat) : Prop where
  alarms : ∀ a ∈ y.alarms, a ∈ x.alarms
  turns  : y.turns ≠ [] → x.turns ≠ [] ∨ ∃ a ∈ x.alarms, a.due ≤ y.now

theorem Beat.Calm.refl (x : Beat) : x.Calm x :=
  ⟨fun _ => id, .inl⟩

theorem Beat.Calm.trans {x y z : Beat} (h₁ : x.Calm y) (h₂ : y.Calm z) (hn : y.now ≤ z.now) : x.Calm z where
  alarms := fun a ha => h₁.alarms a (h₂.alarms a ha)
  turns  := fun ht => by
    rcases h₂.turns ht with ht | ⟨a, ha, hd⟩
    case inr => exact .inr ⟨a, h₁.alarms a ha, hd⟩
    case inl =>
      rcases h₁.turns ht with ht | ⟨a, ha, hd⟩
      case inl => exact .inl ht
      case inr => exact .inr ⟨a, ha, Nat.le_trans hd hn⟩

-- What a request is from the start.
def Dispatch.made (d : Dispatch) : Nat × Nat × Prediction :=
  (d.call, d.session, d.prediction.asked)

-- How a call may advance: it is made, or has come so far that it sends no request.
def Advances (x y : Option Stage) : Prop :=
  y = x ∨ (x = none ∧ y = some .queued) ∨ ∃ stage, stage.Late ∧ y = some stage

theorem Advances.trans {x y z : Option Stage} (h₁ : Advances x y) (h₂ : Advances y z) : Advances x z := by
  rcases h₂ with rfl | ⟨rfl, rfl⟩ | h₂
  case inl     => exact h₁
  case inr.inr => exact .inr (.inr h₂)
  case inr.inl =>
    rcases h₁ with h₁ | ⟨_, h₁⟩ | ⟨_, _, h₁⟩
    case inl => exact .inr (.inl ⟨h₁.symm, rfl⟩)
    all_goals simp at h₁

structure Eases (s s' : Service) : Prop where
  settings   : s'.settings = s.settings
  features   : s'.features = s.features
  now        : s.now ≤ s'.now
  sessions   : ∀ (i : Nat) (session : Session), s.sessions[i]? = some session →
    ∃ session' : Session, s'.sessions[i]? = some session' ∧ session.generation ≤ session'.generation
  kept       : ∀ i, (s'.kept i).Sublist (s.kept i)
  dispatches : ∀ r : Nat, s'.dispatches[r]?.map Dispatch.made = s.dispatches[r]?.map Dispatch.made
  stages     : ∀ c, Advances (s.stage? c) (s'.stage? c)
  calm       : ∀ c, s'.Early c → (s.beat c).Calm (s'.beat c)

theorem Advances.early (h : Advances (s.stage? c) (s'.stage? c)) (hc : s'.Early c) : s.Early c := by
  rcases h with h | ⟨h, _⟩ | ⟨stage, hl, h⟩
  case inl     => exact fun stage hs => hc stage (h ▸ hs)
  case inr.inl => exact fun stage hs => by simp [h] at hs
  case inr.inr => exact absurd hl (hc stage h)

namespace Eases

theorem trans (h₁ : Eases s s') (h₂ : Eases s' s'') : Eases s s'' where
  settings   := h₂.settings.trans h₁.settings
  features   := h₂.features.trans h₁.features
  now        := Nat.le_trans h₁.now h₂.now
  sessions   := fun i session hi => by
    obtain ⟨x, hx, hg⟩ := h₁.sessions i session hi
    obtain ⟨y, hy, hg'⟩ := h₂.sessions i x hx
    exact ⟨y, hy, Nat.le_trans hg hg'⟩
  kept       := fun i => (h₂.kept i).trans (h₁.kept i)
  dispatches := fun r => (h₂.dispatches r).trans (h₁.dispatches r)
  stages     := fun c => (h₁.stages c).trans (h₂.stages c)
  calm       := fun c hc => (h₁.calm c ((h₂.stages c).early hc)).trans (h₂.calm c hc) h₂.now

-- The sessions and the requests stay as they are.
theorem of_eq (hs : s'.settings = s.settings) (hf : s'.features = s.features) (hn : s.now ≤ s'.now)
    (hi : s'.sessions = s.sessions) (hd : s'.dispatches = s.dispatches)
    (hc : ∀ c, Advances (s.stage? c) (s'.stage? c)) (hb : ∀ c, s'.Early c → (s.beat c).Calm (s'.beat c)) :
    Eases s s' where
  settings   := hs
  features   := hf
  now        := hn
  sessions   := fun i session h => ⟨session, hi ▸ h, Nat.le_refl _⟩
  kept       := fun i => by rw [Service.kept, hi, Service.kept]
  dispatches := fun r => by rw [hd]
  stages     := hc
  calm       := hb

theorem refl (s : Service) : Eases s s :=
  of_eq rfl rfl (Nat.le_refl _) rfl rfl (fun _ => .inl rfl) fun _ _ => .refl _

theorem calm_popped {rest : List Turn} (hr : s.ready = t :: rest) (c : Nat) :
    (s.beat c).Calm (({ s with ready := rest } : Service).beat c) := by
  refine ⟨fun _ => id, fun ht => .inl fun hn => ht ?_⟩
  have hsub : (s.beat c).turns = (t :: rest).filter fun t => t = .resumeCall c ∨ t = .ring (.call c) := by
    rw [beat, hr]
  rw [hn, List.filter_cons] at hsub
  split at hsub
  case isTrue  => simp at hsub
  case isFalse => exact hsub.symm

theorem popped {rest : List Turn} (hr : s.ready = t :: rest) : Eases s { s with ready := rest } :=
  of_eq rfl rfl (Nat.le_refl _) rfl rfl (fun _ => .inl rfl) fun c _ => calm_popped hr c

theorem stage?_of_moves (hm : Moves c s s') (hk : k ≠ c) : s'.stage? k = s.stage? k := by
  induction hm
  case refl         => rfl
  case tail _ hm ih => exact ((hm.stage? k).resolve_right fun h => hk h.1).trans ih

-- The call comes no nearer to a request of its own.
theorem of_moves (hm : Moves c s s') (hb : ∀ k, s'.beat k = s.beat k) (hc : Advances (s.stage? c) (s'.stage? c)) :
    Eases s s' where
  settings   := hm.frame.settings
  features   := congrArg Beat.features (hb c)
  now        := Nat.le_of_eq (congrArg Beat.now (hb c)).symm
  sessions   := hm.frame.sessions
  kept       := hm.frame.kept
  dispatches := fun r => by
    have := congrArg (Option.map fun x : Nat × Nat × Prediction => (x.1, x.2.1, x.2.2.asked)) (hm.frame.dispatches r)
    rwa [Option.map_map, Option.map_map] at this
  stages     := fun k => by
    by_cases hk : k = c
    case pos => exact hk ▸ hc
    case neg => exact .inl (stage?_of_moves hm hk)
  calm       := fun k _ => hb k ▸ .refl _

-- A call that has had its first turn waits as it did, or is answered.
theorem of_moves_started (hm : Moves c s s') (hb : ∀ k, s'.beat k = s.beat k) (hq : s.stage? c ≠ some .queued) :
    Eases s s' := by
  refine of_moves hm hb ?_
  rcases hm.stage?_of_ne_queued hq with h | ⟨l, h⟩
  case inl => exact .inl h
  case inr => exact .inr (.inr ⟨.answered l, trivial, h⟩)

-- No call advances.
theorem of_moves_aside (hm : Moves s.calls.size s s') (hb : ∀ k, s'.beat k = s.beat k) : Eases s s' :=
  of_moves_started hm hb (by simp [stage?])

-- A turn of a request.
theorem live (ht : t.request? = some r) : Eases s (s.takeTurn t) := by
  have hb (k : Nat) : (s.takeTurn t).beat k = s.beat k := beat_takeTurn_of_request ht
  cases hd : s.dispatches[r]?
  case none   => rw [takeTurn_of_none ht hd]; exact refl s
  case some d =>
    have hl := Lives.takeTurn ht hd
    have hw : Within s.calls.size 0 s (s.takeTurn t) := .takeTurn_of_request ht
    obtain ⟨hsettings, hsessions, hcalls⟩ := hl.sessions_calls
    obtain ⟨d', _, hlife, _, hdisp⟩ := hl.exists_life hd
    constructor
    case settings   => exact hsettings
    case features   => exact congrArg Beat.features (hb 0)
    case now        => exact Nat.le_of_eq (congrArg Beat.now (hb 0)).symm
    case sessions   => exact fun i session h => ⟨session, hsessions ▸ h, Nat.le_refl _⟩
    case kept       => exact fun i => by rw [Service.kept, hsessions, Service.kept]
    case stages     => exact fun c => .inl (by rw [stage?, hcalls, stage?])
    case calm       => exact fun c _ => hb c ▸ .refl _
    case dispatches =>
      intro j
      by_cases hj : r = j
      case neg => rw [hdisp, if_neg hj]
      case pos =>
        subst hj
        obtain ⟨x, hx, hcall, ha⟩ := hw.dispatches r d hd
        rw [hdisp, if_pos rfl] at hx
        obtain rfl := Option.some.inj hx
        rw [hdisp, if_pos rfl, hd, Option.map_some, Option.map_some, Dispatch.made, hcall, hlife.ages.2.1, ha.asked,
          Dispatch.made]

-- A call that is told to go on has come so far already.
theorem relay (hc : ¬s.Early c) : Eases s (s.queue (.resumeCall c)) := by
  refine of_eq rfl rfl (Nat.le_refl _) rfl rfl (fun _ => .inl rfl) fun k hk => ?_
  have hkc : k ≠ c := fun h => hc (h ▸ hk)
  rw [beat_queue (by simp [Ne.symm hkc]) (by simp)]
  exact .refl _

-- A call whose alarm rings goes on after the turns that are due.
theorem ring {rest : List Turn} (hr : s.ready = .ring (.call c) :: rest) :
    Eases s (({ s with ready := rest } : Service).queue (.resumeCall c)) := by
  refine of_eq rfl rfl (Nat.le_refl _) rfl rfl (fun _ => .inl rfl) fun k _ => ?_
  by_cases hkc : k = c
  case neg => rw [beat_queue (by simp [Ne.symm hkc]) (by simp)]; exact calm_popped hr k
  case pos => exact ⟨fun _ => id, fun _ => .inl (by simp [hkc, beat, hr])⟩

theorem advance (time : Nat) : Eases s (s.advanceTo time) := by
  refine of_eq rfl rfl (Nat.le_max_left _ _) rfl rfl (fun _ => .inl rfl) fun c _ => ⟨fun a ha => ?_, fun ht => ?_⟩
  case refine_1 =>
    simp only [beat, advanceTo, List.mem_filter] at ha ⊢
    exact ⟨ha.1.1, ha.2⟩
  case refine_2 =>
    by_cases hn : (s.beat c).turns = []
    case neg => exact .inl hn
    case pos =>
      right
      have hturns : ((s.advanceTo time).beat c).turns = (s.beat c).turns ++
          (s.rings time).filter fun t => t = .resumeCall c ∨ t = .ring (.call c) := by
        simp [beat, advanceTo]
      obtain ⟨x, hx⟩ := List.exists_mem_of_ne_nil _ (hturns ▸ ht)
      rw [hn, List.nil_append] at hx
      simp only [List.mem_filter, mem_rings_iff, decide_eq_true_eq] at hx
      obtain ⟨⟨a, ⟨ha, hdue⟩, rfl⟩, hb⟩ := hx
      refine ⟨a, ?_, Nat.le_trans hdue (Nat.le_max_right _ _)⟩
      simpa [beat, ha] using hb

theorem provide (call : Call) (hq : call.stage = .queued) :
    Eases s ({ s with calls := s.calls.push call }.queue (.startCall s.calls.size)) := by
  refine of_eq rfl rfl (Nat.le_refl _) rfl rfl (fun c => ?_) fun c _ => ?_
  case refine_1 =>
    rw [stage?_provide]
    split
    case isFalse   => exact .inl rfl
    case isTrue hc => exact .inr (.inl ⟨by simp [stage?, hc], by rw [hq]⟩)
  case refine_2 =>
    rw [beat_queue (by simp) (by simp)]
    exact .refl _

theorem cancel (c : Nat) : Eases s (s.cancelCall c).1 := by
  simp only [cancelCall]
  split
  case h_4 stage _ _ hc =>
    refine of_eq rfl rfl (Nat.le_refl _) rfl rfl (fun k => ?_) fun k hk => ?_
    case refine_1 =>
      rw [stage?_cancel hc]
      split
      case isTrue  => exact .inr (.inr ⟨.cancelled, trivial, rfl⟩)
      case isFalse => exact .inl rfl
    case refine_2 =>
      by_cases hkc : k = c
      case pos => exact absurd trivial (hk .cancelled (by rw [stage?_cancel hc, if_pos hkc]))
      case neg => rw [beat_setCall, beat_dropAlarm (by simp [Ne.symm hkc])]; exact .refl _
  all_goals exact refl s

end Eases

end GhostText.Service
