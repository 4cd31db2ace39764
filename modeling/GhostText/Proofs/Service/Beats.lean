import GhostText.Proofs.Service.Closing

namespace GhostText.Service

variable {s : Service} {c i k r : Nat} {d : Dispatch} {p : Prediction} {t : Turn} {b : Bell} {call : Call}
  {cursor : Cursor} {o : Options} {session : Session}

-- The clock, the language features, the alarms that are set for the call, and the turns in which it goes on.
structure Beat where
  now      : Nat
  features : Option LanguageFeatures
  alarms   : List Alarm
  turns    : List Turn

def beat (s : Service) (c : Nat) : Beat where
  now      := s.now
  features := s.features
  alarms   := s.alarms.filter (·.bell = .call c)
  turns    := s.ready.filter fun t => t = .resumeCall c ∨ t = .ring (.call c)

@[simp] theorem beat_note (n : Notice) : (s.note n).beat c = s.beat c := rfl
@[simp] theorem beat_count (f : Stats → Stats) : (s.count f).beat c = s.beat c := rfl
@[simp] theorem beat_setCall (stage : Stage) : (s.setCall k stage).beat c = s.beat c := rfl
@[simp] theorem beat_setSession : (s.setSession i session).beat c = s.beat c := rfl
@[simp] theorem beat_addDispatch : (s.addDispatch d).beat c = s.beat c := rfl
@[simp] theorem beat_setDispatch : (s.setDispatch r d).beat c = s.beat c := rfl
@[simp] theorem beat_setBackend (x : Backend) : ({ s with backend := x } : Service).beat c = s.beat c := rfl

@[simp] theorem beat_noteAll (ns : List Notice) : (s.noteAll ns).beat c = s.beat c := by
  rw [noteAll_eq]
  rfl

@[simp] theorem beat_queue (h : t ≠ .resumeCall c) (h' : t ≠ .ring (.call c)) : (s.queue t).beat c = s.beat c := by
  simp [beat, queue, h, h']

@[simp] theorem beat_setAlarm (delay : Nat) (h : b ≠ .call c) : (s.setAlarm delay b).beat c = s.beat c := by
  simp [beat, setAlarm, h]

@[simp] theorem beat_dropAlarm (h : b ≠ .call c) : (s.dropAlarm b).beat c = s.beat c := by
  simp only [beat, dropAlarm, List.filter_filter]
  congr 2
  funext a
  by_cases ha : a.bell = .call c <;> simp [ha, Ne.symm h]

@[simp] theorem beat_relayAll : (s.relayAll r).beat c = s.beat c := by
  have hn : (s.told r).filter (fun t => t = .resumeCall c ∨ t = .ring (.call c)) = [] := by
    refine List.filter_eq_nil_iff.mpr fun t ht => ?_
    obtain ⟨_, _, rfl⟩ := List.mem_map.mp ht
    simp
  have hr : (s.relayAll r).ready = s.ready ++ s.told r := rfl
  simp only [beat, hr, List.filter_append, hn, List.append_nil]
  rfl

section Request

theorem beat_conclude : (s.conclude r d p).beat c = s.beat c := by
  simp only [conclude]
  split <;> simp

theorem beat_fail (cause : Failure) (message : Text) : (s.fail r d cause message).beat c = s.beat c := by
  simp only [fail]
  split <;> exact beat_conclude

theorem beat_finish : (s.finish r d).beat c = s.beat c := by
  simp only [finish]
  split <;> exact beat_conclude

theorem beat_failWith (fault : Fault) : (s.failWith r d fault).beat c = s.beat c := by
  simp only [failWith]
  split <;> simp [beat_fail]

theorem beat_endReading (fault : Option Fault) : (s.endReading r d fault).beat c = s.beat c := by
  simp [endReading]

theorem beat_pauseReading (rest? : Option Delivery) (pause : Nat) :
    (s.pauseReading r d rest? pause).beat c = s.beat c := by
  simp only [pauseReading]
  split <;> simp

theorem beat_readDelivery (delivery : Delivery) : (s.readDelivery r d delivery).beat c = s.beat c := by
  simp only [readDelivery]
  split
  case h_1 => exact beat_endReading _
  case h_2 => split <;> simp [beat_endReading, beat_pauseReading]

theorem beat_receiveAnswer : (s.receiveAnswer r d).beat c = s.beat c := by
  simp [receiveAnswer, beat_readDelivery]

theorem beat_giveUp : (s.giveUp r d).beat c = s.beat c := by
  simp [giveUp, beat_endReading]

theorem beat_startReading : (s.startReading r d).beat c = s.beat c := by
  simp only [startReading, awaitAnswer]
  split
  case h_1 => split <;> simp [beat_receiveAnswer, beat_pauseReading]
  case h_2 => rfl

theorem beat_resumeReading : (s.resumeReading r d).beat c = s.beat c := by
  simp only [resumeReading]
  split
  case h_1 => split <;> first | exact beat_receiveAnswer | exact beat_giveUp
  case h_2 => split <;> first | exact beat_readDelivery _ | exact beat_giveUp
  case h_3 => rfl

theorem beat_wake : (s.wake r d).beat c = s.beat c := by
  simp only [wake]
  split <;> simp

theorem beat_rouse : (s.rouse r d).beat c = s.beat c := by
  simp only [rouse]
  split <;> simp

theorem beat_startRequest : (s.startRequest r d).beat c = s.beat c := by
  simp only [startRequest, watchOver]
  split
  case h_2 => rfl
  case h_1 =>
    split
    case isTrue  => simp
    case isFalse => split <;> simp [beat_failWith]

theorem beat_resumeRequest : (s.resumeRequest r d).beat c = s.beat c := by
  simp only [resumeRequest]
  split
  case h_1 =>
    split
    case h_2         => exact beat_wake
    case h_1 fault _ =>
      cases fault
      case none => exact beat_finish
      case some => exact beat_failWith _
  case h_2 =>
    simp only [settleUnread]
    split <;> simp [beat_fail]
  case h_3 => rfl

theorem beat_retire : (s.retire r d).beat c = s.beat c := by
  simp only [retire]
  split <;> simp

theorem beat_cancelRequest : (s.cancelRequest r).beat c = s.beat c := by
  simp only [cancelRequest]
  split
  case h_1 => rfl
  case h_2 => split <;> first | exact beat_rouse | rfl

theorem beat_withDispatch {f : Dispatch → Service} (h : ∀ d, (f d).beat c = s.beat c) :
    (s.withDispatch r f).beat c = s.beat c := by
  simp only [withDispatch]
  split
  case h_1 => exact h _
  case h_2 => rfl

-- A turn of a request concerns no call.
theorem beat_takeTurn_of_request (h : t.request? = some r) : (s.takeTurn t).beat c = s.beat c := by
  cases t
  case ring x =>
    cases x
    case call     => simp [Turn.request?] at h
    case answer   =>
      simp only [takeTurn, ring, answerComes]
      split <;> first | exact beat_wake | rfl
    case deadline =>
      simp only [takeTurn, ring, expire]
      split
      case h_1 => rfl
      case h_2 => split <;> first | exact beat_rouse | rfl
  case startRequest  => exact beat_withDispatch fun _ => beat_startRequest
  case resumeRequest => exact beat_withDispatch fun _ => beat_resumeRequest
  case startReading  => exact beat_withDispatch fun _ => beat_startReading
  case resumeReading => exact beat_withDispatch fun _ => beat_resumeReading
  case readingOver   => exact beat_withDispatch fun _ => beat_rouse
  case retire        => exact beat_withDispatch fun _ => beat_retire
  all_goals simp [Turn.request?] at h

end Request

section Cache

theorem beat_stopAll (ks : List Nat) : (s.stopAll ks).beat c = s.beat c := by
  induction ks generalizing s
  case nil          => rfl
  case cons k ks ih => exact ih.trans beat_cancelRequest

theorem beat_withCache {change : Cache Nat Unit → Service → Cache.Outcome Nat Unit Service Empty}
    (h : ∀ cache, (change cache s).state.beat c = s.beat c) : (s.withCache i change).beat c = s.beat c := by
  simp only [withCache]
  split
  case h_1 => rfl
  case h_2 => exact h _

@[simp] theorem beat_keep : (s.keep i k).beat c = s.beat c := by
  refine beat_withCache fun cache => ?_
  rcases cache.state_set disposal s k () with h | ⟨_, _, h⟩ <;> rw [h]
  exact beat_cancelRequest

@[simp] theorem beat_forget : (s.forget i k).beat c = s.beat c := by
  refine beat_withCache fun cache => ?_
  rcases cache.state_delete disposal s k with h | ⟨_, _, h⟩ <;> rw [h]
  exact beat_cancelRequest

@[simp] theorem beat_enforceLimit : (s.enforceLimit i).beat c = s.beat c := by
  simp only [enforceLimit]
  split
  case h_1 => rfl
  case h_2 =>
    split
    case h_1 => rfl
    case h_2 => split <;> simp

@[simp] theorem beat_sessionFor (uri : Text) : (s.sessionFor uri).1.beat c = s.beat c := by
  simp only [sessionFor]
  split <;> rfl

theorem beat_close (uri : Text) : (s.close uri).beat c = s.beat c := by
  simp only [close]
  split
  case h_1 => rfl
  case h_2 =>
    refine beat_withCache fun cache => ?_
    simp only [Cache.clear, dispose_eq, beat_stopAll]

theorem beat_dispose : s.dispose.beat c = s.beat c := by
  simp only [dispose]
  generalize s.current.map (·.1) = uris
  induction uris generalizing s
  case nil              => rfl
  case cons uri uris ih => exact ih.trans (beat_close uri)

theorem beat_acceptAll (taken : List (Nat × Prediction)) :
    (taken.foldl (fun s x => s.accept i x.1 x.2) s).beat c = s.beat c := by
  induction taken generalizing s
  case nil            => rfl
  case cons x rest ih =>
    refine ih.trans ?_
    simp only [accept]
    split <;> simp

theorem beat_free (uri : Text) (position : Position) (shown : Option (List Int)) :
    (s.free uri position shown).1.beat c = s.beat c := by
  simp only [free]
  split
  case h_2 => rfl
  case h_1 => split <;> simp [beat_acceptAll]

end Cache

section Call

@[simp] theorem beat_answer (l : List Completion) : (s.answer k l).beat c = s.beat c := rfl

@[simp] theorem beat_complete (x : Bounds) : (s.complete k call cursor p x).beat c = s.beat c := by
  simp [complete]

@[simp] theorem beat_failCall : (s.failCall k call).beat c = s.beat c := by
  simp [failCall]

theorem beat_serveCached (x : Bounds) : (s.serveCached k call i cursor r p x).beat c = s.beat c := by
  simp only [serveCached]
  split <;> simp

theorem beat_resumeAfter (delay : Nat) (h : k ≠ c) : (s.resumeAfter delay k).beat c = s.beat c := by
  simp only [resumeAfter]
  split <;> simp [h]

theorem beat_debounce {accepted : Bool} (h : k ≠ c) :
    (s.debounce k call i session cursor accepted).beat c = s.beat c := by
  simp only [debounce]
  split <;> simp [beat_resumeAfter, h]

theorem beat_seek (h : k ≠ c) : (s.seek k call).beat c = s.beat c := by
  simp only [seek]
  split
  case h_2 => simp
  case h_1 =>
    split
    case h_1 => simp [beat_serveCached]
    case h_2 => split <;> simp [beat_debounce, h]

theorem beat_dispatch (before : Text) : (s.dispatch k i cursor o before).beat c = s.beat c := by
  simp [dispatch]

-- Only the language features can make a call wait once more.
theorem gather_of_features_eq_none (h : s.features = none) (x : Hints) (unasked : List Hints.Provider) :
    s.gather k i cursor o x unasked = s.dispatchHinted k i cursor o x := by
  cases unasked <;> simp [gather, h]

theorem beat_request (h : s.features = none) : (s.request k call i cursor o).beat c = s.beat c := by
  simp only [request]
  split
  case isTrue  => rfl
  case isFalse =>
    split
    case isTrue  => exact beat_dispatch _
    case isFalse =>
      split
      case h_1 => rfl
      case h_2 =>
        split
        case h_1 => exact beat_failCall
        case h_2 => rw [gather_of_features_eq_none h]; exact beat_dispatch _

theorem beat_endDebounce {generation : Nat} {accepted : Bool} (h : s.features = none) :
    (s.endDebounce k call i cursor generation accepted).beat c = s.beat c := by
  simp only [endDebounce]
  split
  case h_1 => rfl
  case h_2 =>
    split
    case isTrue  => rfl
    case isFalse =>
      refine (beat_request ?_).trans beat_enforceLimit
      exact (congrArg Beat.features (beat_enforceLimit (c := c))).trans h

theorem beat_askNext {x : Hints} {unasked : List Hints.Provider} (h : s.features = none) :
    (s.askNext k i cursor o x unasked).beat c = s.beat c := by
  simp only [askNext]
  split
  case h_1 => exact beat_dispatch _
  case h_2 => simp only [h]; exact beat_dispatch _

theorem beat_deliver {own : Bool} : (s.deliver k call i cursor r own).beat c = s.beat c := by
  simp only [deliver]
  split
  case h_1 => rfl
  case h_2 =>
    split
    case h_1 => rfl
    case h_2 =>
      split
      case isTrue  => simp
      case isFalse =>
        split
        case isTrue  => simp
        case isFalse => split <;> simp

theorem beat_resumeCall (h : s.features = none) : (s.resumeCall k call).beat c = s.beat c := by
  simp only [resumeCall]
  split
  case h_1 => exact beat_endDebounce h
  case h_2 => exact beat_askNext h
  case h_3 => exact beat_deliver
  case h_4 => rfl

end Call

-- Without language features no turn but these makes a call go on, or wait.
theorem beat_takeTurn (hf : s.features = none) (h₁ : t ≠ .startCall c) (h₂ : t ≠ .relay c) (h₃ : t ≠ .ring (.call c)) :
    (s.takeTurn t).beat c = s.beat c := by
  have hrequest {r : Nat} (h : t.request? = some r) : (s.takeTurn t).beat c = s.beat c := beat_takeTurn_of_request h
  cases t
  case startCall k =>
    have hk : k ≠ c := fun h => h₁ (by rw [h])
    simp only [takeTurn, withCall]
    split
    case h_2 => rfl
    case h_1 =>
      simp only [startCall]
      split
      case h_2 => rfl
      case h_1 => split <;> first | exact beat_seek hk | rfl
  case resumeCall k =>
    simp only [takeTurn, withCall]
    split
    case h_1 => exact beat_resumeCall hf
    case h_2 => rfl
  case relay k =>
    have hk : k ≠ c := fun h => h₂ (by rw [h])
    simp only [takeTurn, withCall]
    split
    case h_2 => rfl
    case h_1 =>
      simp only [relay]
      split <;> first | exact beat_queue (by simp [hk]) (by simp) | rfl
  case ring x =>
    cases x
    case call k =>
      have hk : k ≠ c := fun h => h₃ (by rw [h])
      exact beat_queue (by simp [hk]) (by simp)
    all_goals exact hrequest rfl
  all_goals exact hrequest rfl

end GhostText.Service
