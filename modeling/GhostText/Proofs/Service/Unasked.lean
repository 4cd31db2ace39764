import GhostText.Proofs.Service.Closing
import GhostText.Proofs.Service.Waiting

namespace GhostText.Service

variable {s s' : Service} {c i r : Nat} {session : Session} {call : Call} {cursor : Cursor} {p : Prediction}

-- The predictions of a session that are pending, oldest first.
def pending (s : Service) (i : Nat) : List Nat :=
  (s.kept i).filter fun id => (s.prediction? id).any (·.isPending)

theorem map_pending (hi : s.sessions[i]? = some session) :
    ((s.predictionsIn session).filter (·.2.isPending)).map (·.1) = s.pending i := by
  have hk : s.kept i = session.cache.keys := by simp [kept, hi]
  rw [pending, hk, predictionsIn]
  induction session.cache.keys
  case nil => rfl
  case cons id ids ih =>
    cases hp : s.prediction? id
    case none   => simpa [hp] using ih
    case some p => cases hpend : p.isPending <;> simpa [hp, hpend] using ih

-- With as many pending predictions as are allowed, this one is the oldest.
structure Exceeds (s : Service) (i r : Nat) : Prop where
  full   : s.settings.pendingLimit ≤ (s.pending i).length
  oldest : (s.pending i).head? = some r

theorem Exceeds.unique {r' : Nat} (h : s.Exceeds i r) (h' : s.Exceeds i r') : r = r' :=
  Option.some.inj (h.oldest.symm.trans h'.oldest)

theorem Exceeds.mem_kept (h : s.Exceeds i r) : r ∈ s.kept i :=
  (List.mem_filter.mp (List.mem_of_mem_head? h.oldest)).1

-- No request is sent, and all go on and are kept, except perhaps those to which this applies.
structure Preserves (P : Nat → Prop) (s s' : Service) : Prop where
  size       : s'.dispatches.size = s.dispatches.size
  dispatches : ∀ r, ¬P r → s'.dispatches[r]? = s.dispatches[r]?
  kept       : ∀ j, (s'.kept j).Sublist (s.kept j)
  stays      : ∀ j, ∀ r ∈ s.kept j, ¬P r → r ∈ s'.kept j
  ready      : s.ready <+: s'.ready
  alarms     : s'.alarms = s.alarms

namespace Preserves

variable {P : Nat → Prop}

theorem refl (s : Service) : Preserves P s s :=
  ⟨rfl, fun _ _ => rfl, fun _ => .refl _, fun _ _ hm _ => hm, List.prefix_refl _, rfl⟩

theorem mono {Q : Nat → Prop} (h : Preserves P s s') (hq : ∀ r, P r → Q r) : Preserves Q s s' where
  size       := h.size
  dispatches := fun r hr => h.dispatches r fun hp => hr (hq r hp)
  kept       := h.kept
  stays      := fun j r hm hr => h.stays j r hm fun hp => hr (hq r hp)
  ready      := h.ready
  alarms     := h.alarms

theorem answer (h : Preserves P s s') (c : Nat) (l : List Completion) : Preserves P s (s'.answer c l) :=
  ⟨h.size, h.dispatches, h.kept, h.stays, h.ready, h.alarms⟩

theorem count (h : Preserves P s s') (f : Stats → Stats) : Preserves P s (s'.count f) :=
  ⟨h.size, h.dispatches, h.kept, h.stays, h.ready, h.alarms⟩

end Preserves

theorem forget_eq (hi : s.sessions[i]? = some session) (hk : r ∈ session.cache.keys) :
    s.forget i r = (s.cancelRequest r).setSession i
      { session with cache := { session.cache with entries := Cache.without r session.cache.entries } } := by
  have hg : session.cache.get? r ≠ none := by
    simp only [Cache.keys, List.mem_map] at hk
    simpa [Cache.get?] using hk
  simp only [forget, withCache, hi, Cache.delete, disposal]
  split
  case h_1 hn => exact absurd hn hg
  case h_2    => rfl

-- The one that leaves has its request cancelled.
theorem preserves_forget (hi : s.sessions[i]? = some session) (hk : r ∈ s.kept i) :
    Preserves (· = r) s (s.forget i r) ∧ (s.forget i r).Off r := by
  have hkeys : s.kept i = session.cache.keys := by simp [kept, hi]
  rw [forget_eq hi (hkeys ▸ hk)]
  refine ⟨?_, off_cancelRequest_self s r⟩
  generalize hx : ({ session with cache := _ } : Session) = x
  have hxk : x.cache.keys = session.cache.keys.filter (· ≠ r) := by rw [← hx]; exact Cache.map_without r _
  have hi' : (s.cancelRequest r).sessions[i]? = some session := by rwa [sessions_cancelRequest]
  have hkept (j : Nat) : ((s.cancelRequest r).setSession i x).kept j =
      if i = j then (s.kept j).filter (· ≠ r) else s.kept j := by
    rw [kept_setSession hi', kept, sessions_cancelRequest]
    split
    case isTrue hij => rw [hxk, ← hij, ← hkeys, kept]
    case isFalse    => rfl
  constructor
  case size       => rw [cancelRequest_eq]; exact Array.size_modify
  case dispatches => exact fun k hk => (getElem?_cancelRequest s k r).trans (if_neg (Ne.symm hk))
  case kept       =>
    intro j
    rw [hkept]
    split
    case isTrue  => exact List.filter_sublist
    case isFalse => exact .refl _
  case stays      =>
    intro j k hm hne
    rw [hkept]
    split
    case isTrue  => exact List.mem_filter.mpr ⟨hm, by simpa using hne⟩
    case isFalse => exact hm
  case ready      => rw [cancelRequest_eq]; exact List.prefix_append _ _
  case alarms     => rw [cancelRequest_eq]; rfl

-- Making room costs one prediction at most.
theorem preserves_enforceLimit (hi : s.sessions[i]? = some session) :
    Preserves (s.Exceeds i) s (s.enforceLimit i) ∧
      ∀ r, s.Exceeds i r → r ∉ (s.enforceLimit i).kept i ∧ (s.enforceLimit i).Off r := by
  have hpending := map_pending hi
  simp only [enforceLimit, hi]
  split
  case h_1 hn =>
    refine ⟨.refl s, fun r hr => ?_⟩
    have := hr.oldest
    simp [← hpending, hn] at this
  case h_2 oldest p others hs =>
    rw [hs, List.map_cons] at hpending
    split
    case isFalse hlt =>
      refine ⟨.refl s, fun r hr => ?_⟩
      have := hr.full
      rw [← hpending] at this
      simp at this
      omega
    case isTrue hle =>
      have hex : s.Exceeds i oldest := ⟨by rw [← hpending]; simpa using hle, by rw [← hpending]; rfl⟩
      obtain ⟨hforget, hoff⟩ := preserves_forget (s := s.note (.tooManyPending p.id)) hi hex.mem_kept
      refine ⟨?_, fun r hr => ?_⟩
      case refine_1 =>
        have hnote : Preserves (· = oldest) s ((s.note (.tooManyPending p.id)).forget i oldest) :=
          ⟨hforget.size, hforget.dispatches, hforget.kept, hforget.stays, hforget.ready, hforget.alarms⟩
        exact (hnote.mono fun _ h => h ▸ hex).count _
      case refine_2 =>
        obtain rfl := hr.unique hex
        exact ⟨not_mem_kept_forget _ i r, hoff⟩

-- The prediction that makes room for the request of a call, which is the latest of the session.
structure MakesRoom (s : Service) (i generation r : Nat) : Prop where
  latest  : ∃ session : Session, s.sessions[i]? = some session ∧ session.generation = generation
  exceeds : s.Exceeds i r

-- The call waits for the end of typing, and there is nothing to ask for at its cursor.
def Declines (s : Service) (c i generation : Nat) : Prop :=
  ∃ cursor accepted, s.stage? c = some (.debouncing i cursor generation accepted) ∧
    (Options.of cursor accepted s.settings.window).generate = false

instance {generation : Nat} : Decidable (s.Declines c i generation) :=
  match hc : s.stage? c with
  | some (.debouncing j cursor k accepted) =>
    decidable_of_iff (j = i ∧ k = generation ∧ (Options.of cursor accepted s.settings.window).generate = false)
      ⟨fun ⟨hj, hk, hg⟩ => ⟨cursor, accepted, hj ▸ hk ▸ hc, hg⟩, fun ⟨_, _, hc', hg⟩ => by
        obtain ⟨rfl, rfl, rfl, rfl⟩ := by simpa [hc] using hc'
        exact ⟨rfl, rfl, hg⟩⟩
  | none | some .queued | some (.gathering ..) | some (.awaiting ..) | some (.answered _) | some .cancelled =>
    .isFalse (by simp [Declines, hc])

theorem makesRoom_popped_iff {generation : Nat} (rest : List Turn) :
    ({ s with ready := rest } : Service).MakesRoom i generation r ↔ s.MakesRoom i generation r :=
  ⟨fun h => ⟨h.latest, h.exceeds.full, h.exceeds.oldest⟩, fun h => ⟨h.latest, h.exceeds.full, h.exceeds.oldest⟩⟩

theorem endDebounce_of_not_generate (call : Call) {generation : Nat} {accepted : Bool} (hs : s.Sound)
    (hc : s.stage? c = some (.debouncing i cursor generation accepted))
    (hg : (Options.of cursor accepted s.settings.window).generate = false) :
    Preserves (s.MakesRoom i generation) s (s.endDebounce c call i cursor generation accepted) ∧
      (∀ r, s.MakesRoom i generation r → r ∉ (s.endDebounce c call i cursor generation accepted).kept i ∧
        (s.endDebounce c call i cursor generation accepted).Off r) ∧
      (s.endDebounce c call i cursor generation accepted).stage? c = some (.answered []) := by
  obtain ⟨session, hi, _⟩ := hs.homed c _ hc
  have hanswer {u : Service} (hu : u.calls = s.calls) : (u.answer c []).stage? c = some (.answered []) := by
    have hne : u.stage? c ≠ none := by rw [stage?, hu, ← stage?, hc]; simp
    exact stage?_answer hne []
  simp only [endDebounce, hi]
  split
  case isTrue hne =>
    refine ⟨((Preserves.refl s).count _).answer c [], fun r hr => ?_, hanswer rfl⟩
    obtain ⟨session', hi', hg'⟩ := hr.latest
    obtain rfl := Option.some.inj (hi.symm.trans hi')
    exact absurd hg' hne
  case isFalse heq =>
    have hlatest : ∃ session : Session, s.sessions[i]? = some session ∧ session.generation = generation :=
      ⟨session, hi, Classical.not_not.mp heq⟩
    have hsettings : (s.enforceLimit i).settings = s.settings := (Within.enforceLimit (c := c) s i).settings
    obtain ⟨hlimit, hout⟩ := preserves_enforceLimit hi
    simp only [request, hsettings, hg, Bool.not_false, if_true]
    refine ⟨(hlimit.mono fun r hr => ⟨hlatest, hr⟩).answer c [], fun r hr => hout r hr.exceeds, ?_⟩
    exact hanswer (calls_enforceLimit s i)

-- In its first turn a call may note something, and comes to stand elsewhere.
theorem exists_stands_serveCached (x : Bounds) : ∃ stage, Stands c stage s (s.serveCached c call i cursor r p x) := by
  have he := Extends.cacheHit s p
  simp only [serveCached]
  split
  case h_1 => exact ⟨_, .of_extends he (.complete _ c call cursor p x)⟩
  case h_2 => exact ⟨_, .of_extends he (.setCall _ c _)⟩
  case h_3 => exact ⟨_, .of_extends he (.setCall _ c _)⟩

theorem seek_preserves (s : Service) (c : Nat) (call : Call) :
    (s.seek c call).dispatches = s.dispatches ∧ ∀ j, (s.seek c call).kept j = s.kept j := by
  have ho := Opens.sessionFor s call.uri
  have hstands {u u' : Service} {stage : Stage} (hu : Opens s u) (h : Stands c stage u u') :
      u'.dispatches = s.dispatches ∧ ∀ j, u'.kept j = s.kept j :=
    ⟨h.dispatches.trans hu.dispatches, fun j => (h.kept j).trans (hu.kept j)⟩
  simp only [seek]
  generalize s.sessionFor call.uri = x at ho ⊢
  split
  case h_2 => exact ⟨ho.dispatches, ho.kept⟩
  case h_1 document session _ hi =>
    have hn := ho.noteAll (findMatch (document.cursorAt call.position).before (x.1.predictionsIn session)).2
    have he := Extends.noteAll x.1 (findMatch (document.cursorAt call.position).before (x.1.predictionsIn session)).2
    split
    case h_1 =>
      obtain ⟨_, h⟩ := exists_stands_serveCached _
      exact hstands hn h
    case h_2 =>
      split
      case h_2 => exact hstands hn (.failCall _ c call)
      case h_1 accepted _ =>
        obtain ⟨_, _, h⟩ := Stands.debounce (he.sessions ▸ hi) c call (document.cursorAt call.position) accepted
        exact hstands hn h

variable {settings : Setup} {backend : Backend} {features : Option LanguageFeatures}

-- Until the end of typing a call changes no prediction and no request. If it turns out then to ask for nothing, it is
-- answered with nothing and leaves all predictions and requests alone, except that the latest call makes room for a
-- request nevertheless.
theorem preserves_of_not_generate (h : (start settings backend features).Reaches s) :
    (∀ (turn : Turn) (rest : List Turn), turn = .startCall c ∨ turn = .ring (.call c) → s.ready = turn :: rest →
      (s.after .turn).dispatches = s.dispatches ∧ ∀ j, (s.after .turn).kept j = s.kept j) ∧
    ∀ (i generation : Nat) (rest : List Turn), s.ready = .resumeCall c :: rest → s.Declines c i generation →
      Preserves (s.MakesRoom i generation) { s with ready := rest } (s.after .turn) ∧
        (∀ r, s.MakesRoom i generation r → r ∉ (s.after .turn).kept i ∧ (s.after .turn).Off r) ∧
        (s.after .turn).stage? c = some (.answered []) := by
  refine ⟨fun turn rest ht hr => ?_, fun i generation rest hr ⟨cursor, accepted, hc, hg⟩ => ?_⟩ <;>
    simp only [after, takeNext, hr]
  case refine_1 =>
    rcases ht with rfl | rfl
    case inr => exact ⟨rfl, fun _ => rfl⟩
    case inl =>
      simp only [takeTurn, withCall]
      split
      case h_2 => exact ⟨rfl, fun _ => rfl⟩
      case h_1 call _ =>
        simp only [startCall]
        split
        case h_2 => exact ⟨rfl, fun _ => rfl⟩
        case h_1 =>
          split
          case isTrue  => exact seek_preserves { s with ready := rest } c call
          case isFalse => exact ⟨rfl, fun _ => rfl⟩
  case refine_2 =>
    obtain ⟨call, hcall, hst⟩ := Option.map_eq_some_iff.mp hc
    simp only [takeTurn, withCall, hcall, resumeCall, hst]
    obtain ⟨hp, hroom, ha⟩ :=
      endDebounce_of_not_generate (s := { s with ready := rest }) call (Sound.reaches h).popped hc hg
    have hiff := @makesRoom_popped_iff s i
    exact ⟨hp.mono fun r => (hiff rest).mp, fun r hr => hroom r ((hiff rest).mpr hr), ha⟩

-- A request runs, and a call at the end of typing has nothing to ask for.
def aboutToDecline (limit : Int) : Service :=
  let s := (start { debounce := 0, pendingLimit := limit, useHints := false } lateBackend none).after
    (.openBuffer ['a'] "x = \nfoobar".toList)
  (((s.after (.provide ['a'] ⟨0, 4⟩)).settle 0).after (.provide ['a'] ⟨1, 0⟩)).after .turn

theorem reaches_aboutToDecline (limit : Int) :
    (start { debounce := 0, pendingLimit := limit, useHints := false } lateBackend none).Reaches
      (aboutToDecline limit) :=
  let hopened := Reaches.after (.refl _) (.openBuffer ['a'] "x = \nfoobar".toList)
  .after (.after (.trans (hopened.after (.provide ['a'] ⟨0, 4⟩)) (.settle _ 0)) (.provide ['a'] ⟨1, 0⟩)) .turn

-- With two requests allowed, the one that runs goes on.
theorem preserves_of_not_generate_aboutToDecline :
    (aboutToDecline 2).ready = [.resumeCall 1] ∧ (aboutToDecline 2).Declines 1 0 2 ∧
      (aboutToDecline 2).pending 0 = [0] ∧ ((aboutToDecline 2).after .turn).stage? 1 = some (.answered []) ∧
      0 ∈ ((aboutToDecline 2).after .turn).kept 0 ∧
      ((aboutToDecline 2).after .turn).dispatches[0]? = (aboutToDecline 2).dispatches[0]? := by
  have hr : (aboutToDecline 2).ready = [.resumeCall 1] := by decide +kernel
  have hd : (aboutToDecline 2).Declines 1 0 2 := by decide +kernel
  have hp : (aboutToDecline 2).pending 0 = [0] := by decide +kernel
  have hl : (aboutToDecline 2).settings.pendingLimit = 2 := by decide +kernel
  obtain ⟨h, _, ha⟩ := (preserves_of_not_generate (reaches_aboutToDecline 2)).2 0 2 [] hr hd
  have hn : ¬(aboutToDecline 2).MakesRoom 0 2 0 := fun hm => by simpa [hp, hl] using hm.exceeds.full
  have hk : 0 ∈ (aboutToDecline 2).pending 0 := by simp [hp]
  exact ⟨hr, hd, hp, ha, h.stays 0 0 (List.mem_filter.mp hk).1 hn, h.dispatches 0 hn⟩

-- With one request allowed, it is cancelled although the call sends none.
theorem evicted_aboutToDecline :
    (start { debounce := 0, pendingLimit := 1, useHints := false } lateBackend none).Reaches (aboutToDecline 1) ∧
      (aboutToDecline 1).ready = [.resumeCall 1] ∧ (aboutToDecline 1).Declines 1 0 2 ∧
      (aboutToDecline 1).pending 0 = [0] ∧ ((aboutToDecline 1).after .turn).answer? 1 = some [] ∧
      ((aboutToDecline 1).after .turn).kept 0 = [] ∧
      ((aboutToDecline 1).after .turn).dispatches.toList.map (·.cancelled) = [true] :=
  ⟨reaches_aboutToDecline 1, by decide +kernel, by decide +kernel, by decide +kernel, by decide +kernel,
    by decide +kernel, by decide +kernel⟩

end GhostText.Service
