import GhostText.Proofs.Service.Turns

namespace GhostText.Service

variable {s s' : Service} {c i j n : Nat} {q : List Turn}

def pendingOn (s : Service) (i : Nat) : Nat :=
  (s.kept i).countP fun id => (s.prediction? id).any (·.isPending)

def Stage.gathersOn (i : Nat) : Stage → Nat
  | .gathering j .. => if j = i then 1 else 0
  | _               => 0

def gatheringOn (s : Service) (i : Nat) : Nat :=
  total (s.calls.toList.map (·.stage.gathersOn i))

-- A call that gathers hints has made room already for the request that it will send.
def load (s : Service) (i : Nat) : Nat :=
  s.pendingOn i + s.gatheringOn i

theorem length_pending {session : Session} (hi : s.sessions[i]? = some session) :
    ((s.predictionsIn session).filter (·.2.isPending)).length = s.pendingOn i := by
  have hk : s.kept i = session.cache.keys := by simp [kept, hi]
  rw [pendingOn, hk, predictionsIn]
  induction session.cache.keys
  case nil => rfl
  case cons id ids ih =>
    rw [List.countP_cons, ← ih]
    cases hp : s.prediction? id
    case none => simp [hp]
    case some p =>
      simp only [List.filterMap_cons, hp, Option.map_some, List.filter_cons, Option.any_some]
      split <;> rfl

theorem gatheringOn_setCall {stage₀ : Stage} (h : s.stage? c = some stage₀) (stage : Stage) (i : Nat) :
    (s.setCall c stage).gatheringOn i + stage₀.gathersOn i = s.gatheringOn i + stage.gathersOn i := by
  obtain ⟨call, hc, hs⟩ := Option.map_eq_some_iff.mp h
  have hl : s.calls.toList[c]? = some call := by simpa using hc
  have := total_map_modify (fun x : Call => x.stage.gathersOn i) ({ · with stage }) hl
  rw [← hs]
  simpa [gatheringOn, setCall] using this

theorem Next.gathersOn {stage : Stage} (h : Next s c stage) (i : Nat) : stage.gathersOn i = 0 := by
  cases h <;> rfl

theorem Frame.pendingOn_le (h : Frame s s') (i : Nat) : s'.pendingOn i ≤ s.pendingOn i := by
  simp only [pendingOn, h.prediction?]
  exact (h.kept i).countP_le

theorem Move.gatheringOn_le (h : Move c s s') (i : Nat) : s'.gatheringOn i ≤ s.gatheringOn i := by
  have hc (he : s'.calls = s.calls) : s'.gatheringOn i ≤ s.gatheringOn i := by
    rw [gatheringOn, he]
    exact Nat.le_refl _
  cases h
  case extend h        => exact hc h.calls
  case openSession uri => exact hc (Shifts.sessionFor (l := 0) s uri).2
  case closeSession    => exact hc rfl
  case stop k          => exact hc (calls_cancelRequest k)
  case drop            => exact hc rfl
  case supersede       => exact hc rfl
  case call stage h    =>
    obtain ⟨stage₀, hs⟩ := Option.ne_none_iff_exists'.mp h.stage?_ne_none
    have := gatheringOn_setCall hs stage i
    rw [h.gathersOn] at this
    omega

-- No move makes room unasked, or takes any.
theorem Moves.load_le (h : Moves c s s') (i : Nat) : s'.load i ≤ s.load i := by
  induction h
  case refl         => exact Nat.le_refl _
  case tail _ hm ih => exact Nat.le_trans (Nat.add_le_add (hm.frame.pendingOn_le i) (hm.gatheringOn_le i)) ih

theorem pendingOn_send {session : Session} {d : Dispatch} {cursor : Cursor} (hs : s.Sound)
    (hi : s.sessions[i]? = some session) (j : Nat) :
    (s.send c i session d cursor).pendingOn j ≤ s.pendingOn j + if i = j then 1 else 0 := by
  have hp : ∀ id ∈ s.kept j, (s.send c i session d cursor).prediction? id = s.prediction? id := by
    intro id hid
    obtain ⟨x, hx, _⟩ := hs.kept j id hid
    have hlt := (Array.getElem?_eq_some_iff.mp hx).1
    rw [prediction?, getElem?_dispatches_send, if_neg (Nat.ne_of_lt hlt), prediction?]
  have hc : (s.kept j).countP (fun id => ((s.send c i session d cursor).prediction? id).any (·.isPending)) =
      s.pendingOn j :=
    List.countP_congr fun id hid => by rw [hp id hid]
  rw [pendingOn, kept_send hi]
  split
  case isFalse => exact Nat.le_of_eq hc
  case isTrue hij =>
    subst hij
    rw [List.countP_append, hc]
    exact Nat.add_le_add_left List.countP_le_length _

-- A call that sends its request, or begins to gather hints for it, takes the room of one.
theorem Send.load_le (hs : s.Sound) (h : Send c s s') :
    ∃ i stage, s.Sending c i ∧ s.stage? c = some stage ∧
      ∀ j, s'.load j + stage.gathersOn j ≤ s.load j + if i = j then 1 else 0 := by
  cases h
  case gather i hc cursor o x unasked =>
    obtain ⟨stage, hst⟩ := Option.ne_none_iff_exists'.mp hc.stage?_ne_none
    refine ⟨i, stage, hc, hst, fun j => ?_⟩
    have hg := gatheringOn_setCall hst (.gathering i cursor o x unasked) j
    have hp : (s.setCall c (.gathering i cursor o x unasked)).pendingOn j = s.pendingOn j := rfl
    simp only [load, hp, Stage.gathersOn] at hg ⊢
    omega
  case send i session d hc hi hd cursor =>
    obtain ⟨stage, hst⟩ := Option.ne_none_iff_exists'.mp hc.stage?_ne_none
    refine ⟨i, stage, hc, hst, fun j => ?_⟩
    have hg := gatheringOn_setCall hst (.awaiting i cursor s.dispatches.size true) j
    have hp : (s.send c i session d cursor).pendingOn j ≤ s.pendingOn j + if i = j then 1 else 0 :=
      pendingOn_send hs hi j
    have hc : (s.send c i session d cursor).gatheringOn j =
        (s.setCall c (.awaiting i cursor s.dispatches.size true)).gatheringOn j := rfl
    simp only [load, hc, Stage.gathersOn] at hg ⊢
    omega

theorem Sends.load_le (hs : s.Sound) (h : Sends c s s') (hq : s.stage? c ≠ some .queued) :
    (∀ j, s'.load j ≤ s.load j) ∨
      ∃ i stage, s.Sending c i ∧ s.stage? c = some stage ∧
        ∀ j, s'.load j + stage.gathersOn j ≤ s.load j + if i = j then 1 else 0 := by
  obtain ⟨s₁, s₂, hm₁, hsend, hm₂⟩ := h
  cases hsend
  case inl he    => exact .inl fun j => Nat.le_trans (hm₂.load_le j) (he ▸ hm₁.load_le j)
  case inr hsend =>
    obtain ⟨i, stage, hc, hst, hl⟩ := hsend.load_le (hs.moves hm₁)
    obtain ⟨hc, he⟩ := hs.sending_of_moves hm₁ hc hq
    refine .inr ⟨i, stage, hc, he ▸ hst, fun j => ?_⟩
    have h₁ := hm₁.load_le j
    have h₂ := hm₂.load_le j
    have := hl j
    omega

-- A call that has gathered its hints takes no more room than before.
theorem Sends.load_le_of_gathering {cursor : Cursor} {o : Options} {x : Hints} {unasked : List Hints.Provider}
    (hs : s.Sound) (h : Sends c s s') (hc : s.stage? c = some (.gathering i cursor o x unasked)) (j : Nat) :
    s'.load j ≤ s.load j := by
  cases h.load_le hs (by simp [hc])
  case inl hl => exact hl j
  case inr hl =>
    obtain ⟨i', stage, hsend, hst, hl⟩ := hl
    obtain rfl := Option.some.inj (hc ▸ hst)
    rcases hsend with ⟨_, _, _, _, hc'⟩ | ⟨_, _, _, _, hc'⟩ <;> rw [hc] at hc'
    case inl =>
      injection hc' with hc'
      injection hc' with hi
      have := hl j
      simp only [Stage.gathersOn, hi] at this
      omega
    case inr => simp at hc'

theorem Sending.of_debouncing {i' generation : Nat} {cursor : Cursor} {accepted : Bool} (h : s.Sending c i')
    (hc : s.stage? c = some (.debouncing i cursor generation accepted)) :
    i = i' ∧ ∃ session : Session, s.sessions[i']? = some session ∧ session.generation = generation := by
  rcases h with ⟨_, _, _, _, h⟩ | ⟨_, _, session, hi, h⟩ <;> rw [hc] at h
  case inl => simp at h
  case inr =>
    simp only [Option.some.injEq, Stage.debouncing.injEq] at h
    exact ⟨h.1, session, hi, h.2.2.1.symm⟩

theorem pendingOn_forget_lt {id : Nat} (hk : id ∈ s.kept i) (hp : (s.prediction? id).any (·.isPending) = true) :
    (s.forget i id).pendingOn i < s.pendingOn i := by
  have hf := (Moves.forget (c := 0) s i id).frame
  simp only [pendingOn, hf.prediction?, List.countP_eq_length_filter]
  apply Nat.lt_of_not_le
  intro hle
  have he := ((hf.kept i).filter _).eq_of_length_le hle
  have hm : id ∈ (s.kept i).filter fun id => (s.prediction? id).any (·.isPending) := List.mem_filter.mpr ⟨hk, hp⟩
  rw [← he] at hm
  exact not_mem_kept_forget s i id (List.mem_filter.mp hm).1

-- After room has been made there is some for one more.
theorem load_enforceLimit_lt {n : Nat} (hpos : 0 < s.settings.pendingLimit)
    (hl : s.load i ≤ s.settings.pendingLimit.toNat + n)
    (hg : s.gatheringOn i ≤ n ∨ s.load i < s.settings.pendingLimit.toNat + n) :
    (s.enforceLimit i).load i < s.settings.pendingLimit.toNat + n := by
  have hg (hp : s.pendingOn i < s.settings.pendingLimit.toNat) : s.load i < s.settings.pendingLimit.toNat + n := by
    simp only [load] at hl hg ⊢
    omega
  simp only [enforceLimit]
  split
  case h_1 hi => exact hg (by simp [pendingOn, kept, hi]; omega)
  case h_2 session hi =>
    have hlen := length_pending hi
    split
    case h_1 he => exact hg (by rw [he] at hlen; simp at hlen; omega)
    case h_2 oldest p others he =>
      have hm : (oldest, p) ∈ (s.predictionsIn session).filter (·.2.isPending) := he ▸ List.mem_cons_self
      rw [he, List.length_cons] at hlen
      split
      case isFalse hlt => exact hg (by omega)
      case isTrue      =>
        obtain ⟨hk, hp⟩ := mem_kept_of_mem_predictionsIn hi (List.mem_filter.mp hm).1
        have hp : (s.prediction? oldest).any (·.isPending) = true := by
          rw [hp]
          exact (List.mem_filter.mp hm).2
        have hlt := pendingOn_forget_lt (s := s.note (.tooManyPending p.id)) hk hp
        have hle : ((s.note (.tooManyPending p.id)).forget i oldest).gatheringOn i ≤ s.gatheringOn i := by
          rw [gatheringOn, calls_forget]
          exact Nat.le_refl _
        exact Nat.lt_of_lt_of_le (Nat.add_lt_add_of_lt_of_le hlt hle) hl

theorem Lives.load_le {t : Turn} {r : Nat} {d : Dispatch} (hd : s.dispatches[r]? = some d) (h : Lives r t d s s')
    (i : Nat) : s'.load i ≤ s.load i := by
  obtain ⟨_, hsess, hcalls⟩ := h.sessions_calls
  have hk : s'.kept i = s.kept i := by rw [kept, hsess, kept]
  obtain ⟨d', _, hlife, _, hdisp⟩ := h.exists_life hd
  have hp : s'.pendingOn i ≤ s.pendingOn i := by
    rw [pendingOn, hk]
    apply List.countP_mono_left
    intro id _ hid
    rw [prediction?, hdisp] at hid
    split at hid
    case isFalse => exact hid
    case isTrue hr =>
      subst hr
      have hpend (h : d.prediction.isPending = false) : d'.prediction.isPending = false := by
        rwa [Prediction.isPending, hlife.ages.2.2 h]
      rw [prediction?, hd]
      simp only [Option.map_some, Option.any_some] at hid ⊢
      cases hd : d.prediction.isPending
      case true  => rfl
      case false => simp [hpend hd] at hid
  have hg : s'.gatheringOn i = s.gatheringOn i := by rw [gatheringOn, hcalls, gatheringOn]
  exact Nat.add_le_add hp (Nat.le_of_eq hg)

structure Limited (n : Nat) (s : Service) : Prop where
  sound    : s.Sound
  positive : 0 < s.settings.pendingLimit
  load     : ∀ i, s.load i ≤ s.settings.pendingLimit.toNat + n

-- A call that goes on to its request finds no more than so many others of its session gathering hints, or there is
-- room for all of them.
def FindsRoom (n : Nat) (s : Service) : Event → Prop
  | .turn => ∀ (c i : Nat) (cursor : Cursor) (accepted : Bool) (session : Session) (rest : List Turn),
      s.ready = .resumeCall c :: rest → s.sessions[i]? = some session →
      s.stage? c = some (.debouncing i cursor session.generation accepted) →
      s.gatheringOn i ≤ n ∨ s.load i < s.settings.pendingLimit.toNat + n
  | _ => True

theorem pendingLimit_pos {settings : Setup} (h : settings.Valid) : 0 < settings.pendingLimit := by
  apply Int.lt_of_not_ge
  intro hle
  simp only [Settings.Valid, Settings.complaint?] at h
  split at h
  case isTrue  => contradiction
  case isFalse => simp at h

theorem findsRoom_of_gatheringOn_le (h : ∀ i < s.sessions.size, s.gatheringOn i ≤ n) (e : Event) :
    FindsRoom n s e := by
  cases e
  case turn =>
    intro c i cursor accepted session rest _ hi _
    have hlt := (Array.getElem?_eq_some_iff.mp hi).1
    exact .inl (h i hlt)
  all_goals trivial

namespace Limited

theorem takes (h : Limited n s) {t : Turn} (ht : Takes s t s')
    (hr : ∀ (c i : Nat) (cursor : Cursor) (accepted : Bool) (session : Session), t = .resumeCall c →
      s.sessions[i]? = some session → s.stage? c = some (.debouncing i cursor session.generation accepted) →
      s.gatheringOn i ≤ n ∨ s.load i < s.settings.pendingLimit.toNat + n) : Limited n s' where
  sound    := h.sound.takes ht
  positive := ht.settings ▸ h.positive
  load     := fun j => by
    rw [ht.settings]
    have hle (hl : s'.load j ≤ s.load j) := Nat.le_trans hl (h.load j)
    cases ht
    case start h' => exact hle (h'.load_le j)
    case pass c i generation cursor accepted hc h' =>
      cases h'
      case inl h' => exact hle (h'.load_le j)
      case inr h' =>
        have hm := Moves.enforceLimit (c := 0) s i
        have hu : (s.enforceLimit i).stage? c = s.stage? c := by rw [stage?, calls_enforceLimit, stage?]
        cases h'.load_le (h.sound.moves hm) (by simp [hu, hc])
        case inl hl => exact hle (Nat.le_trans (hl j) (hm.load_le j))
        case inr hl =>
          obtain ⟨i', stage, hsend, hst, hl⟩ := hl
          have hsend := (h.sound.sending_of_moves (Moves.enforceLimit s i) hsend (by simp [hc])).1
          obtain ⟨hi, session, hs, hg⟩ := hsend.of_debouncing hc
          subst hi hg
          have hlt := load_enforceLimit_lt h.positive (h.load i) (hr c i cursor accepted session rfl hs hc)
          have hl := hl j
          split at hl
          case isTrue hij => subst hij; omega
          case isFalse    => exact hle (Nat.le_trans (Nat.le_of_add_right_le hl) (hm.load_le j))
    case goOn hc h'      => exact hle (h'.load_le_of_gathering h.sound hc j)
    case deliver h' _    => exact hle (h'.load_le j)
    case live r d hd ht' h' => exact hle (h'.load_le hd j)
    all_goals exact hle (Nat.le_refl _)

theorem acts (h : Limited n s) (ha : Acts s s') : Limited n s' where
  sound    := h.sound.acts ha
  positive := ha.settings ▸ h.positive
  load     := fun j => by
    rw [ha.settings]
    refine Nat.le_trans ?_ (h.load j)
    cases ha
    case moves h' => exact h'.load_le j
    case provide call hc =>
      apply Nat.add_le_add_left
      simp [gatheringOn, queue, total_append, total, hc, Stage.gathersOn]
    case cancel c stage hc _ _ =>
      apply Nat.add_le_add_left
      have := gatheringOn_setCall (s := s.dropAlarm (.call c)) hc .cancelled j
      exact Nat.le_of_add_right_le (Nat.le_of_eq this)

theorem after (h : Limited n s) {e : Event} (hr : FindsRoom n s e) : Limited n (s.after e) := by
  rcases h.sound.after_cases e with ha | ⟨t, rest, he, hq, ht⟩
  case inl => exact h.acts ha
  case inr =>
    subst he
    have hp : Limited n { s with ready := rest } := ⟨h.sound.popped, h.positive, h.load⟩
    exact hp.takes ht fun c i cursor accepted session hc hi hs =>
      hr c i cursor accepted session rest (hc ▸ hq) hi hs

theorem run {settings : Setup} {backend : Backend} {features : Option LanguageFeatures} (hv : settings.Valid)
    (h : Run (FindsRoom n) (start settings backend features) s) : Limited n s ∧ s.settings = settings := by
  induction h
  case refl =>
    have hl (i : Nat) : (Service.start settings backend features).load i = 0 := rfl
    exact ⟨⟨.start, pendingLimit_pos hv, fun i => hl i ▸ Nat.zero_le _⟩, rfl⟩
  case step _ hr ih => exact ⟨ih.1.after hr, (ih.1.sound.settings_after _).trans ih.2⟩

end Limited

-- As long as every call that goes on finds room, no session has more pending predictions than are allowed.
theorem pending_le_of_findsRoom {settings : Setup} {backend : Backend} {features : Option LanguageFeatures}
    {session : Session} (hv : settings.Valid) (h : Run (FindsRoom n) (start settings backend features) s)
    (hi : s.sessions[i]? = some session) :
    ((s.predictionsIn session).filter (·.2.isPending)).length ≤ settings.pendingLimit.toNat + n := by
  obtain ⟨hl, he⟩ := Limited.run hv h
  calc ((s.predictionsIn session).filter (·.2.isPending)).length
    _ = s.pendingOn i := length_pending hi
    _ ≤ s.load i := Nat.le_add_right _ _
    _ ≤ settings.pendingLimit.toNat + n := he ▸ hl.load i

def slowBackend : Backend :=
  { answers := .always [], delay := some 1000 }

def slowFeatures : LanguageFeatures :=
  { delay := some 10 }

def askedAlone : Service :=
  ((start { debounce := 0, pendingLimit := 1, useHints := false } slowBackend none).after
    (.openBuffer ['a'] "x = ".toList)).after (.provide ['a'] ⟨0, 4⟩)

-- The call has sent its request, and no other gathered hints meanwhile.
def sentAlone : Service :=
  (askedAlone.after .turn).after .turn

theorem pending_le_of_findsRoom_sentAlone :
    Run (FindsRoom 0) (start { debounce := 0, pendingLimit := 1, useHints := false } slowBackend none) sentAlone ∧
      (sentAlone.sessions[0]?.map fun session =>
        ((sentAlone.predictionsIn session).filter (·.2.isPending)).length) = some 1 ∧
      ∀ session, sentAlone.sessions[0]? = some session →
        ((sentAlone.predictionsIn session).filter (·.2.isPending)).length ≤ 1 := by
  have hasked : Run (FindsRoom 0) (start { debounce := 0, pendingLimit := 1, useHints := false } slowBackend none)
      askedAlone :=
    .step (.step .refl trivial) trivial
  have hfirst := hasked.step (findsRoom_of_gatheringOn_le (n := 0) (by decide +kernel) .turn)
  have hsent := hfirst.step (findsRoom_of_gatheringOn_le (n := 0) (by decide +kernel) .turn)
  have hv : ({ debounce := 0, pendingLimit := 1, useHints := false } : Settings).Valid := rfl
  exact ⟨hsent, by decide +kernel, fun _ hi => pending_le_of_findsRoom hv hsent hi⟩

-- A call comes to gather hints, and so does another before the first has sent its request.
def gatheredTogether : Service :=
  let s := (start { debounce := 0, pendingLimit := 1 } slowBackend (some slowFeatures)).after
    (.openBuffer ['a'] "x = ".toList)
  let s := (s.after (.provide ['a'] ⟨0, 4⟩)).settle 5
  ((s.after (.provide ['a'] ⟨0, 4⟩)).settle 27).settle 10

-- Only one may be pending.
theorem two_pending_gatheredTogether :
    ({ debounce := 0, pendingLimit := 1 } : Settings).Valid ∧
      (start { debounce := 0, pendingLimit := 1 } slowBackend (some slowFeatures)).Reaches gatheredTogether ∧
      ((gatheredTogether.predictionsOf ['a']).filter (·.isPending)).length = 2 := by
  refine ⟨rfl, ?_, by decide +kernel⟩
  apply Reaches.trans ?_ (.settle _ 10)
  apply Reaches.trans ?_ (.settle _ 27)
  apply Reaches.after ?_ (.provide ['a'] ⟨0, 4⟩)
  apply Reaches.trans ?_ (.settle _ 5)
  exact .after (.after (.refl _) (.openBuffer ['a'] "x = ".toList)) (.provide ['a'] ⟨0, 4⟩)

end GhostText.Service
