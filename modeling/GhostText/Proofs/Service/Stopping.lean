import GhostText.Proofs.Service.Requests

namespace GhostText.Service

variable {s : Service} {session : Session} {c i k : Nat}

-- Nothing keeps a request that is over, or that was asked to stop.
def Off (s : Service) (k : Nat) : Prop :=
  ∀ d, s.dispatches[k]? = some d → d.prediction.isPending = true → d.watch ≠ .ended → d.cancelled = true

def kept (s : Service) (i : Nat) : List Nat :=
  (s.sessions[i]?.map (·.cache.keys)).getD []

theorem getElem?_setSession_self (hi : s.sessions[i]? = some session) (x : Session) :
    (s.setSession i x).sessions[i]? = some x := by
  have hlt := (Array.getElem?_eq_some_iff.mp hi).1
  simp [setSession, hlt]

theorem kept_setSession (hi : s.sessions[i]? = some session) (x : Session) (j : Nat) :
    (s.setSession i x).kept j = if i = j then x.cache.keys else s.kept j := by
  have hlt := (Array.getElem?_eq_some_iff.mp hi).1
  rw [kept, setSession, Array.getElem?_setIfInBounds]
  split
  case isTrue  => simp
  case isFalse => rfl

-- A new session keeps nothing.
theorem kept_sessionFor (s : Service) (uri : Text) (j : Nat) : (s.sessionFor uri).1.kept j = s.kept j := by
  simp only [sessionFor]
  split
  case h_1 => rfl
  case h_2 =>
    simp only [kept, Array.getElem?_push]
    split
    case isTrue hj => simp [hj, Cache.keys]
    case isFalse   => rfl

-- What a request becomes that is asked to stop, and the turns that are queued then.
def Dispatch.stop (k : Nat) (d : Dispatch) : Dispatch × List Turn :=
  if d.prediction.isPending && d.watch ≠ .ended then
    match d.watch with
    | .watching false => ({ d with cancelled := true, watch := .watching true }, [.resumeRequest k])
    | .stopping false => ({ d with cancelled := true, watch := .stopping true }, [.resumeRequest k])
    | _               => ({ d with cancelled := true }, [])
  else (d, [])

theorem modify_eq_setIfInBounds {d : Dispatch} (h : s.dispatches[k]? = some d) (f : Dispatch → Dispatch) :
    s.dispatches.modify k f = s.dispatches.setIfInBounds k (f d) := by
  obtain ⟨hlt, hd⟩ := Array.getElem?_eq_some_iff.mp h
  apply Array.ext_getElem?
  intro j
  rw [Array.getElem?_modify, Array.getElem?_setIfInBounds]
  split
  case isTrue hj  => simp [← hj, hlt, hd]
  case isFalse hj => rfl

theorem cancelRequest_eq (s : Service) (k : Nat) :
    s.cancelRequest k =
      { s with
        dispatches := s.dispatches.modify k fun d => (d.stop k).1
        ready := s.ready ++ (s.dispatches[k]?.map fun d => (d.stop k).2).getD [] } := by
  rw [cancelRequest]
  cases hd : s.dispatches[k]?
  case none =>
    have : s.dispatches.modify k (fun d => (d.stop k).1) = s.dispatches := by
      apply Array.ext_getElem?
      intro j
      rw [Array.getElem?_modify]
      split
      case isTrue hj  => simp [← hj, hd]
      case isFalse hj => rfl
    simp [this]
  case some d =>
    rw [modify_eq_setIfInBounds hd]
    simp only [rouse, Dispatch.stop, Option.map_some, Option.getD_some]
    split
    case isFalse => simpa [setDispatch] using (setDispatch_self hd).symm
    case isTrue  =>
      cases d.watch
      case watching woken => cases woken <;> simp [setDispatch, queue]
      case stopping woken => cases woken <;> simp [setDispatch, queue]
      all_goals simp [setDispatch]

@[simp] theorem settings_cancelRequest (s : Service) (k : Nat) : (s.cancelRequest k).settings = s.settings := by
  rw [cancelRequest_eq]

@[simp] theorem sessions_cancelRequest (s : Service) (k : Nat) : (s.cancelRequest k).sessions = s.sessions := by
  rw [cancelRequest_eq]

@[simp] theorem current_cancelRequest (s : Service) (k : Nat) : (s.cancelRequest k).current = s.current := by
  rw [cancelRequest_eq]

theorem getElem?_cancelRequest (s : Service) (j k : Nat) :
    (s.cancelRequest k).dispatches[j]? =
      if k = j then s.dispatches[j]?.map fun d => (d.stop k).1 else s.dispatches[j]? := by
  rw [cancelRequest_eq]
  exact Array.getElem?_modify

theorem cancelRequest_setSession (s : Service) (i k : Nat) (session : Session) :
    (s.setSession i session).cancelRequest k = (s.cancelRequest k).setSession i session := by
  simp only [cancelRequest_eq, setSession]

theorem cancelRequest_setCall (s : Service) (c k : Nat) (stage : Stage) :
    (s.setCall c stage).cancelRequest k = (s.cancelRequest k).setCall c stage := by
  simp only [cancelRequest_eq, setCall]

theorem setSession_setSession (s : Service) (i : Nat) (x y : Session) :
    (s.setSession i x).setSession i y = s.setSession i y := by
  simp [setSession, Array.setIfInBounds_setIfInBounds]

theorem setSession_setCall (s : Service) (i c : Nat) (session : Session) (stage : Stage) :
    (s.setCall c stage).setSession i session = (s.setSession i session).setCall c stage :=
  rfl

theorem Dispatch.stop_cases (k : Nat) (d : Dispatch) :
    (d.stop k = (d, []) ∧ (d.prediction.isPending = true → d.watch = .ended)) ∨
    (d.stop k = ({ d with cancelled := true, watch := .watching true }, [.resumeRequest k]) ∧
      d.watch = .watching false) ∨
    (d.stop k = ({ d with cancelled := true, watch := .stopping true }, [.resumeRequest k]) ∧
      d.watch = .stopping false) ∨
    (d.stop k = ({ d with cancelled := true }, []) ∧ d.watch ≠ .watching false ∧ d.watch ≠ .stopping false) := by
  unfold stop
  split
  case isFalse h => exact .inl ⟨rfl, by simpa using h⟩
  case isTrue h =>
    split
    case h_1 hw    => exact .inr (.inl ⟨rfl, hw⟩)
    case h_2 hw    => exact .inr (.inr (.inl ⟨rfl, hw⟩))
    case h_3 h₁ h₂ => exact .inr (.inr (.inr ⟨rfl, h₁, h₂⟩))

theorem off_cancelRequest_self (s : Service) (k : Nat) : (s.cancelRequest k).Off k := by
  intro d hd hp hw
  rw [getElem?_cancelRequest, if_pos rfl] at hd
  obtain ⟨d', _, hd⟩ := Option.map_eq_some_iff.mp hd
  have := d'.stop_cases k
  grind

theorem Off.cancelRequest {j : Nat} (h : s.Off j) (k : Nat) : (s.cancelRequest k).Off j := by
  by_cases hk : k = j
  case pos => exact hk ▸ off_cancelRequest_self s k
  case neg =>
    intro d hd
    rw [getElem?_cancelRequest, if_neg hk] at hd
    exact h d hd

-- The requests of some predictions are asked to stop, one after the other.
def stopAll (s : Service) (ks : List Nat) : Service :=
  ks.foldl cancelRequest s

theorem sessions_stopAll (s : Service) (ks : List Nat) : (s.stopAll ks).sessions = s.sessions := by
  induction ks generalizing s
  case nil          => rfl
  case cons k ks ih => exact (ih _).trans (sessions_cancelRequest s k)

theorem calls_stopAll (s : Service) (ks : List Nat) : (s.stopAll ks).calls = s.calls := by
  induction ks generalizing s
  case nil          => rfl
  case cons k ks ih => exact (ih _).trans (calls_cancelRequest k)

theorem current_stopAll (s : Service) (ks : List Nat) : (s.stopAll ks).current = s.current := by
  induction ks generalizing s
  case nil          => rfl
  case cons k ks ih => exact (ih _).trans (current_cancelRequest s k)

theorem Off.stopAll (h : s.Off k) (ks : List Nat) : (s.stopAll ks).Off k := by
  induction ks generalizing s
  case nil          => exact h
  case cons j ks ih => exact ih (h.cancelRequest j)

theorem off_stopAll {ks : List Nat} (h : k ∈ ks) : (s.stopAll ks).Off k := by
  induction ks generalizing s
  case nil => contradiction
  case cons j ks ih =>
    cases h
    case head   => exact (off_cancelRequest_self s k).stopAll ks
    case tail h => exact ih h

def Session.add (session : Session) (id : Nat) : Session :=
  { session with cache := { session.cache with entries := session.cache.entries ++ [(id, ())] } }

@[simp] theorem Session.keys_add (session : Session) (id : Nat) :
    (session.add id).cache.keys = session.cache.keys ++ [id] := by
  simp [add, Cache.keys]

theorem cache_forget (hi : s.sessions[i]? = some session) (id : Nat) :
    ∃ session', (s.forget i id).sessions[i]? = some session' ∧ session'.generation = session.generation ∧
      id ∉ session'.cache.keys := by
  have hlt := (Array.getElem?_eq_some_iff.mp hi).1
  simp only [forget, withCache, hi, Cache.delete, disposal]
  split
  case h_1 hn =>
    refine ⟨session, by simp [setSession, hlt], rfl, ?_⟩
    simp only [Cache.get?, Option.map_eq_none_iff, List.find?_eq_none, decide_eq_true_eq] at hn
    simp only [Cache.keys, List.mem_map, not_exists, not_and]
    exact hn
  case h_2 =>
    have hs (session' : Session) : ((s.cancelRequest id).setSession i session').sessions[i]? = some session' := by
      simp [setSession, hlt]
    exact ⟨_, hs _, rfl, by simp [Cache.keys, Cache.map_without]⟩

theorem not_mem_kept_forget (s : Service) (i id : Nat) : id ∉ (s.forget i id).kept i := by
  cases hi : s.sessions[i]?
  case none => simp [forget, withCache, hi, kept]
  case some session =>
    obtain ⟨session', h, _, hn⟩ := cache_forget hi id
    simpa [kept, h] using hn

theorem calls_forget (s : Service) (i id : Nat) : (s.forget i id).calls = s.calls :=
  (Shifts.forget (l := 0) s i id).2

theorem calls_enforceLimit (s : Service) (i : Nat) : (s.enforceLimit i).calls = s.calls :=
  (Shifts.enforceLimit (l := 0) s i).2

theorem session_enforceLimit (hi : s.sessions[i]? = some session) :
    ∃ session', (s.enforceLimit i).sessions[i]? = some session' ∧ session'.generation = session.generation := by
  simp only [enforceLimit, hi]
  split
  case h_1 => exact ⟨session, hi, rfl⟩
  case h_2 oldest p _ _ =>
    split
    case isFalse => exact ⟨session, hi, rfl⟩
    case isTrue  =>
      obtain ⟨session', h, hg, _⟩ := cache_forget (s := s.note (.tooManyPending p.id)) hi oldest
      exact ⟨session', h, hg⟩

-- The new entry may push out the oldest, whose request is asked to stop.
theorem keep_eq (hi : s.sessions[i]? = some session) (id : Nat) :
    ∃ ks session', s.keep i id = (s.stopAll ks).setSession i session' ∧ session'.generation = session.generation ∧
      session'.cache.keys.Sublist (session.cache.keys ++ [id]) ∧
      ∀ k ∈ session.cache.keys ++ [id], k ∉ session'.cache.keys → k ∈ ks := by
  simp only [keep, withCache, hi, Cache.set, disposal]
  split
  case isTrue =>
    refine ⟨[], _, rfl, rfl, ?_, ?_⟩
    case refine_1 =>
      simp only [Cache.keys, List.map_append, Cache.map_without]
      exact List.filter_sublist.append (.refl _)
    case refine_2 =>
      intro k hm hn
      simp only [Cache.keys, List.map_append, Cache.map_without, List.mem_append, List.mem_filter, not_or,
        not_and] at hm hn
      exact absurd (hm.resolve_right hn.2) fun h => hn.1 h (by simpa using fun he => hn.2 (by simp [he]))
  case isFalse =>
    split
    case isTrue =>
      refine ⟨[], _, rfl, rfl, ?_, ?_⟩ <;> simp only [Cache.keys, List.map_append]
      case refine_1 => exact .refl _
      case refine_2 => exact fun k h h' => absurd h h'
    case isFalse =>
      split
      case h_1 he => exact ⟨[], _, rfl, rfl, by simp [Cache.keys, he], by simp [Cache.keys, he]⟩
      case h_2 oldest _ rest he =>
        refine ⟨[oldest], _, rfl, rfl, by simp [Cache.keys, he], ?_⟩
        intro k hm hn
        simp only [Cache.keys, he, List.map_cons, List.map_append, List.cons_append, List.mem_cons] at hm hn
        exact List.mem_singleton.mpr (hm.resolve_right hn)

-- Even a full cache keeps the new entry.
theorem mem_kept_keep (hi : s.sessions[i]? = some session) (id : Nat) : id ∈ (s.keep i id).kept i := by
  obtain ⟨hlt, _⟩ := Array.getElem?_eq_some_iff.mp hi
  have hk {u : Service} (hu : u.sessions = s.sessions) (x : Session) : (u.setSession i x).kept i = x.cache.keys := by
    simp [kept, setSession, hu, hlt]
  simp only [keep, withCache, hi, Cache.set, disposal]
  split
  case isTrue  => simp [hk, Cache.keys]
  case isFalse =>
    split
    case isTrue  => simp [hk, Cache.keys]
    case isFalse => split <;> simp [hk, Cache.keys]

def Session.emptied (session : Session) : Session :=
  { session with cache := { session.cache with entries := [] } }

@[simp] theorem Session.keys_emptied (session : Session) : session.emptied.cache.keys = [] :=
  rfl

theorem dispose_eq (s : Service) (entries : List (Nat × Unit)) :
    Cache.dispose disposal entries s = (s.stopAll (entries.map (·.1)), none) := by
  induction entries generalizing s
  case nil         => rfl
  case cons _ _ ih => exact ih _

-- All entries leave, and their requests are asked to stop.
theorem clear_eq (hi : s.sessions[i]? = some session) :
    (s.withCache i fun cache s => cache.clear disposal s) =
      (s.stopAll session.cache.keys).setSession i session.emptied := by
  simp only [withCache, hi, Cache.clear, dispose_eq]
  rfl

theorem stopAll_setSession (s : Service) (ks : List Nat) (i : Nat) (session : Session) :
    (s.setSession i session).stopAll ks = (s.stopAll ks).setSession i session := by
  induction ks generalizing s
  case nil          => rfl
  case cons k ks ih => rw [stopAll, List.foldl_cons, cancelRequest_setSession]; exact ih _

theorem stopAll_setCall (s : Service) (ks : List Nat) (c : Nat) (stage : Stage) :
    (s.setCall c stage).stopAll ks = (s.stopAll ks).setCall c stage := by
  induction ks generalizing s
  case nil          => rfl
  case cons k ks ih => rw [stopAll, List.foldl_cons, cancelRequest_setCall]; exact ih _

end GhostText.Service
