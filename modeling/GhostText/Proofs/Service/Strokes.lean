import GhostText.Proofs.Request.Stops
import GhostText.Proofs.Service.Locality
import GhostText.Proofs.Service.Sends

namespace GhostText

namespace Service

open Relation

-- The counts that concern requests.
def Stats.tally (n : Stats) : Stats :=
  { n with cacheHits := 0, debounced := 0, evictedPending := 0, accepted := 0, internalErrors := 0 }

-- What a call that asks the providers will ask the model for stops where its kind has to.
def Stage.Fits : Stage → Prop
  | .gathering _ _ o _ _ => o.stops = o.kind.stops
  | _                    => True

-- A request as it is made: it takes the next number, and nothing of its answer is read.
structure Fresh (s : Service) (c i : Nat) (d : Dispatch) : Prop extends New d c i where
  number    : d.prediction.id = s.dispatches.size
  createdAt : d.prediction.createdAt = s.now
  rawText   : d.prediction.rawText = []
  stops     : d.request.stops = d.prediction.kind.stops

def enlist (s : Service) (d : Dispatch) : Service :=
  ((s.addDispatch d).queue (.startRequest s.dispatches.size)).count fun n => { n with requests := n.requests + 1 }

-- In the session, and for the call whose turn it is, if there is one.
inductive Stroke (x : Option Nat) (i : Nat) (s : Service) : Service → Prop
  | noteAll (ns : List Notice) : Stroke x i s (s.noteAll ns)
  | count {f : Stats → Stats} (h : ∀ n, (f n).tally = n.tally) : Stroke x i s (s.count f)
  | resume {c : Nat} (hc : c ∈ x) : Stroke x i s (s.queue (.resumeCall c))
  | setAlarm {c : Nat} (hc : c ∈ x) (delay : Nat) : Stroke x i s (s.setAlarm delay (.call c))
  | setCall {c : Nat} {stage : Stage} (hc : c ∈ x) (hi : ∀ j ∈ stage.session?, j = i) (hf : stage.Fits) :
    Stroke x i s (s.setCall c stage)
  -- a session only keeps predictions of its own
  | setSession {session session' : Session} (hi : s.sessions[i]? = some session)
    (hk : ∀ k ∈ session'.cache.keys, k ∈ session.cache.keys ∨
      ∃ d : Dispatch, s.dispatches[k]? = some d ∧ d.session = i) : Stroke x i s (s.setSession i session')
  | stop {k : Nat} (hk : k ∈ s.kept i) : Stroke x i s (s.cancelRequest k)
  | enlist {c : Nat} {d : Dispatch} (hc : c ∈ x) (hd : s.Fresh c i d) : Stroke x i s (s.enlist d)

def Strokes (x : Option Nat) (i : Nat) : Service → Service → Prop :=
  ReflTransGen (Stroke x i)

variable {s s' s'' : Service} {x : Option Nat} {c i : Nat} {call : Call} {cursor : Cursor} {session : Session}

theorem count_keep (s : Service) (i id : Nat) (f : Stats → Stats) :
    (s.count f).keep i id = (s.keep i id).count f := by
  have hc (k : Nat) : (s.count f).cancelRequest k = (s.cancelRequest k).count f := by
    simp only [cancelRequest_eq, count]
  simp only [keep, withCache, Cache.set, disposal, hc]
  cases hi : s.sessions[i]?
  case none => simp [count, hi]
  case some session =>
    have hi' : (s.count f).sessions[i]? = some session := hi
    simp only [hi']
    split
    case isTrue  => rfl
    case isFalse =>
      split
      case isTrue  => rfl
      case isFalse => split <;> rfl

namespace Strokes

theorem refl (s : Service) : Strokes x i s s :=
  ReflTransGen.refl

theorem trans (h₁ : Strokes x i s s') (h₂ : Strokes x i s' s'') : Strokes x i s s'' :=
  ReflTransGen.trans h₁ h₂

theorem single (h : Stroke x i s s') : Strokes x i s s' :=
  ReflTransGen.single h

theorem noteAll (s : Service) (ns : List Notice) : Strokes x i s (s.noteAll ns) :=
  single (.noteAll ns)

theorem note (s : Service) (n : Notice) : Strokes x i s (s.note n) :=
  noteAll s [n]

theorem count (s : Service) (f : Stats → Stats) (h : ∀ n, (f n).tally = n.tally) :
    Strokes x i s (s.count f) :=
  single (.count h)

theorem resumeAfter (s : Service) (delay : Nat) : Strokes (some c) i s (s.resumeAfter delay c) := by
  simp only [Service.resumeAfter]
  split
  case isTrue  => exact single (.resume rfl)
  case isFalse => exact single (.setAlarm rfl delay)

theorem setCall (s : Service) {stage : Stage} (hi : ∀ j ∈ stage.session?, j = i) (hf : stage.Fits) :
    Strokes (some c) i s (s.setCall c stage) :=
  single (.setCall rfl hi hf)

-- The session may lose predictions.
theorem setSession {session : Session} (hi : s.sessions[i]? = some session) (session' : Session)
    (hk : ∀ k ∈ session'.cache.keys, k ∈ session.cache.keys) :
    Strokes x i s (s.setSession i session') :=
  single (.setSession hi fun k h => .inl (hk k h))

theorem stopAll {ks : List Nat} (hk : ∀ k ∈ ks, k ∈ s.kept i) : Strokes x i s (s.stopAll ks) := by
  induction ks generalizing s
  case nil          => exact refl s
  case cons k ks ih =>
    refine (single (.stop (hk k List.mem_cons_self))).trans (ih fun j hj => ?_)
    rw [kept, sessions_cancelRequest]
    exact hk j (List.mem_cons_of_mem _ hj)

-- Requests are asked to stop whose predictions the session keeps, and some of those then leave it.
theorem stopAll_setSession (ks : List Nat) {session session' : Session} (hi : s.sessions[i]? = some session)
    (hks : ∀ k ∈ ks, k ∈ session.cache.keys) (hk : ∀ k ∈ session'.cache.keys, k ∈ session.cache.keys) :
    Strokes x i s ((s.stopAll ks).setSession i session') := by
  have hkept : s.kept i = session.cache.keys := by simp [kept, hi]
  have hi' : (s.stopAll ks).sessions[i]? = some session := by rw [sessions_stopAll, hi]
  exact (stopAll fun k h => hkept ▸ hks k h).trans (setSession hi' session' hk)

theorem mem_keys_of_get? {cache : Cache Nat Unit} {id : Nat} {v : Unit} (h : cache.get? id = some v) :
    id ∈ cache.keys := by
  obtain ⟨x, hx, _⟩ := Option.map_eq_some_iff.mp h
  have he : x.1 = id := by simpa using List.find?_some hx
  exact he ▸ List.mem_map_of_mem (List.mem_of_find?_eq_some hx)

theorem forget (s : Service) (i id : Nat) : Strokes x i s (s.forget i id) := by
  simp only [Service.forget, withCache]
  split
  case h_1 => exact refl s
  case h_2 session hi =>
    simp only [Cache.delete, disposal]
    split
    case h_1 => exact stopAll_setSession [] hi (by simp) fun _ h => h
    case h_2 hv =>
      refine stopAll_setSession [id] hi (by simpa using mem_keys_of_get? hv) fun k hk => ?_
      rw [Cache.keys, Cache.map_without] at hk
      exact (List.mem_filter.mp hk).1

theorem clear (s : Service) (i : Nat) : Strokes x i s (s.withCache i fun cache s => cache.clear disposal s) := by
  cases hi : s.sessions[i]?
  case none         => simpa [withCache, hi] using refl s
  case some session =>
    rw [clear_eq hi]
    exact stopAll_setSession _ hi (fun _ h => h) (by simp)

-- A new prediction is kept, and may push out the oldest.
theorem keep {d : Dispatch} {id : Nat} (hd : s.dispatches[id]? = some d) (hs : d.session = i) :
    Strokes x i s (s.keep i id) := by
  have hset {u : Service} {session session' : Session} (hi : u.sessions[i]? = some session)
      (hd : ∃ d : Dispatch, u.dispatches[id]? = some d ∧ d.session = i)
      (hk : ∀ k ∈ session'.cache.keys, k ∈ session.cache.keys ∨ k = id) : Strokes x i u (u.setSession i session') := by
    refine single (.setSession hi fun k h => (hk k h).imp_right ?_)
    rintro rfl
    exact hd
  simp only [Service.keep, withCache]
  split
  case h_1 => exact refl s
  case h_2 session hi =>
    simp only [Cache.set, disposal]
    split
    case isTrue =>
      refine hset hi ⟨d, hd, hs⟩ fun k hk => ?_
      simp only [Cache.keys, List.map_append, Cache.map_without, List.mem_append, List.mem_filter] at hk
      exact hk.imp (·.1) (by simp)
    case isFalse =>
      split
      case isTrue  => exact hset hi ⟨d, hd, hs⟩ (by simp [Cache.keys])
      case isFalse =>
        split
        case h_1 he => exact hset hi ⟨d, hd, hs⟩ (by simp [Cache.keys])
        case h_2 oldest _ rest he =>
          have hkept : oldest ∈ s.kept i := by simp [kept, hi, Cache.keys, he]
          refine (single (.stop hkept)).trans (hset (by rwa [sessions_cancelRequest]) ?_ ?_)
          case refine_1 =>
            rw [getElem?_cancelRequest, hd]
            split
            case isFalse => exact ⟨d, rfl, hs⟩
            case isTrue  =>
              refine ⟨_, rfl, ?_⟩
              rcases d.stop_cases oldest with ⟨he, _⟩ | ⟨he, _⟩ | ⟨he, _⟩ | ⟨he, _⟩ <;> simpa [he] using hs
          case refine_2 =>
            intro k hk
            simp only [Cache.keys, he, List.map_append, List.map_cons, List.map_nil, List.mem_append,
              List.mem_singleton] at hk ⊢
            exact hk.imp_left (List.mem_cons_of_mem _)

theorem answer (s : Service) (completions : List Completion) : Strokes (some c) i s (s.answer c completions) :=
  setCall s (by simp [Stage.session?]) trivial

theorem complete (s : Service) (p : Prediction) (b : Bounds) : Strokes (some c) i s (s.complete c call cursor p b) :=
  (noteAll s _).trans (answer _ _)

theorem failCall (s : Service) : Strokes (some c) i s (s.failCall c call) :=
  (note s _).trans ((count _ _ fun _ => by rfl).trans (answer _ []))

theorem cacheHit (s : Service) (p : Prediction) :
    Strokes x i s ((s.count fun n => { n with cacheHits := n.cacheHits + 1 }).note (.cacheHit p.id p.status)) :=
  (count s _ fun _ => by rfl).trans (note _ _)

theorem serveCached (s : Service) (id : Nat) (p : Prediction) (b : Bounds) :
    Strokes (some c) i s (s.serveCached c call i cursor id p b) := by
  simp only [Service.serveCached]
  refine (cacheHit s p).trans ?_
  split
  case h_1 => exact complete _ p b
  case h_2 => exact setCall _ (by simp [Stage.session?]) trivial
  case h_3 => exact answer _ []

theorem debounce {accepted : Bool} (hi : s.sessions[i]? = some session) :
    Strokes (some c) i s (s.debounce c call i session cursor accepted) := by
  simp only [Service.debounce]
  refine (setSession hi { session with generation := session.generation + 1 } fun _ h => h).trans ?_
  split
  case isTrue  => exact failCall _
  case isFalse => exact (setCall _ (by simp [Stage.session?]) (by trivial)).trans (resumeAfter _ _)

-- The first turn of a call, once its document has a session.
theorem seek (s : Service) (c : Nat) (call : Call) :
    Strokes (some c) (s.sessionFor call.uri).2 (s.sessionFor call.uri).1 (s.seek c call) := by
  simp only [Service.seek]
  generalize s.sessionFor call.uri = x
  split
  case h_2 => exact refl _
  case h_1 document session _ hi =>
    refine (noteAll x.1 (findMatch (document.cursorAt call.position).before (x.1.predictionsIn session)).2).trans ?_
    rw [← (Extends.noteAll x.1 _).sessions] at hi
    split
    case h_1 => exact serveCached _ _ _ _
    case h_2 =>
      split
      case h_1 => exact debounce hi
      case h_2 => exact failCall _

theorem enforceLimit (s : Service) (i : Nat) : Strokes x i s (s.enforceLimit i) := by
  simp only [Service.enforceLimit]
  split
  case h_1 => exact refl s
  case h_2 =>
    split
    case h_1 => exact refl s
    case h_2 oldest p _ _ =>
      split
      case isTrue  => exact (note s _).trans ((forget _ i oldest).trans (count _ _ fun _ => by rfl))
      case isFalse => exact refl s

theorem dispatch {o : Options} (s : Service) (c i : Nat) (cursor : Cursor) (before : Text)
    (ho : o.stops = o.kind.stops) : Strokes (some c) i s (s.dispatch c i cursor o before) := by
  simp only [Service.dispatch]
  generalize [Notice.requested _ _, _, _] = notices
  generalize hd : ({ call := c, session := i, prediction := _, request := _ } : Dispatch) = d
  have he := Extends.noteAll s notices
  have hf : (s.noteAll notices).Fresh c i d := by
    rw [← hd]
    exact { call := rfl, session := rfl, watch := rfl, reading := rfl, cancelled := rfl, pending := rfl,
            number := by rw [he.dispatches], createdAt := by rw [noteAll_eq], rawText := rfl, stops := ho }
  refine (noteAll s notices).trans ?_
  rw [← he.dispatches, ← count_keep]
  generalize s.noteAll notices = s at hf
  have hkept : (s.enlist d).dispatches[s.dispatches.size]? = some d := by
    simp [Service.enlist, Service.count, queue, addDispatch]
  exact (single (.enlist rfl hf)).trans
    ((keep hkept hf.session).trans (setCall _ (by simp [Stage.session?]) trivial))

theorem gather {o : Options} (h : Hints) (unasked : List Hints.Provider) (ho : o.stops = o.kind.stops) :
    Strokes (some c) i s (s.gather c i cursor o h unasked) := by
  induction unasked generalizing s h
  case nil => exact dispatch s c i cursor _ ho
  case cons p rest ih =>
    simp only [Service.gather]
    split
    case h_1 => exact dispatch s c i cursor _ ho
    case h_2 =>
      split
      case h_1 => exact (noteAll s _).trans (ih _)
      case h_2 =>
        have hg : Strokes (some c) i s (s.setCall c (.gathering i cursor o h (p :: rest))) :=
          setCall s (by simp [Stage.session?]) ho
        exact hg.trans (resumeAfter _ _)

theorem request {o : Options} (ho : o.stops = o.kind.stops) : Strokes (some c) i s (s.request c call i cursor o) := by
  simp only [Service.request]
  split
  case isTrue  => exact answer s []
  case isFalse =>
    split
    case isTrue  => exact dispatch s c i cursor _ ho
    case isFalse =>
      split
      case h_1 => exact refl s
      case h_2 =>
        split
        case h_1 => exact failCall s
        case h_2 => exact gather _ _ ho

theorem endDebounce {generation : Nat} {accepted : Bool} :
    Strokes (some c) i s (s.endDebounce c call i cursor generation accepted) := by
  simp only [Service.endDebounce]
  split
  case h_1 => exact refl s
  case h_2 =>
    split
    case isTrue  => exact (count s _ fun _ => by rfl).trans (answer _ [])
    case isFalse => exact (enforceLimit s i).trans (request (Options.stops_of _ _ _))

theorem askNext {o : Options} {h : Hints} {unasked : List Hints.Provider} (ho : o.stops = o.kind.stops) :
    Strokes (some c) i s (s.askNext c i cursor o h unasked) := by
  simp only [Service.askNext]
  split
  case h_1 => exact dispatch s c i cursor _ ho
  case h_2 =>
    split
    case h_1 => exact dispatch s c i cursor _ ho
    case h_2 => exact (noteAll s _).trans (gather _ _ ho)

theorem deliver {id : Nat} {own : Bool} : Strokes (some c) i s (s.deliver c call i cursor id own) := by
  simp only [Service.deliver]
  split
  case h_1 => exact refl s
  case h_2 p _ =>
    split
    case h_1 => exact refl s
    case h_2 =>
      split
      case isTrue  => exact (forget s i id).trans (answer _ [])
      case isFalse =>
        split
        case isTrue  => exact complete s p _
        case isFalse =>
          refine (noteAll s (Bounds.judge cursor.before p.before p.insertText |>.notices p.id)).trans ?_
          split
          case h_1 => exact complete _ p _
          case h_2 => exact answer _ []

-- A turn of a call that waits in the session.
theorem resumeCall (hi : ∀ j ∈ call.stage.session?, j = i) (hf : call.stage.Fits) :
    Strokes (some c) i s (s.resumeCall c call) := by
  simp only [Service.resumeCall]
  split
  case h_4 => exact refl s
  case h_1 j _ _ _ hs =>
    obtain rfl : j = i := hi j (by simp [hs, Stage.session?])
    exact endDebounce
  case h_2 j _ _ _ _ hs =>
    obtain rfl : j = i := hi j (by simp [hs, Stage.session?])
    rw [hs] at hf
    exact askNext hf
  case h_3 j _ _ _ hs =>
    obtain rfl : j = i := hi j (by simp [hs, Stage.session?])
    exact deliver

theorem relay (s : Service) (c : Nat) (call : Call) : Strokes (some c) i s (s.relay c call) := by
  simp only [Service.relay]
  split
  case h_1 => exact single (.resume rfl)
  case h_2 => exact refl s

theorem accept (s : Service) (i id : Nat) (p : Prediction) : Strokes x i s (s.accept i id p) := by
  simp only [Service.accept]
  refine (note s (.accepted p.id)).trans ?_
  split
  case h_1 => exact refl _
  case h_2 session hi =>
    exact (setSession hi { session with lastAccept := some s.now } fun _ h => h).trans (forget _ i id)

theorem acceptAll (s : Service) (i : Nat) (taken : List (Nat × Prediction)) :
    Strokes x i s (taken.foldl (fun s x => s.accept i x.1 x.2) s) := by
  induction taken generalizing s
  case nil            => exact refl s
  case cons x rest ih => exact (accept s i x.1 x.2).trans (ih _)

theorem free {uri : Text} (position : Position) (shown : Option (List Int)) (h : s.session? uri = some i) :
    Strokes x i s (s.free uri position shown).1 := by
  simp only [Service.free, h]
  split
  case h_2            => exact refl s
  case h_1 j _ _ hj _ =>
    obtain rfl := Option.some.inj hj
    split
    case h_1 => exact refl s
    case h_2 =>
      dsimp only
      exact (acceptAll s _ _).trans (count _ _ fun _ => by rfl)

end Strokes
end Service
end GhostText
