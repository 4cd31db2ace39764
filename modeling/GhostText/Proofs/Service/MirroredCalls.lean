import GhostText.Proofs.Service.MirroredRequests

namespace GhostText

open Service

variable {ρ ρ' : Renaming}

theorem Completion.same_of {p q : Prediction} (h : p.Same ρ q) (rule : RepeatRule) (cursor : Cursor)
    (position : Position) (typed : Int) :
    (Completion.of rule p cursor position typed).Same ρ (Completion.of rule q cursor position typed) := by
  obtain ⟨id, hid, rfl⟩ := h
  have hexcerpt : Excerpt.of rule { p with id } cursor typed = Excerpt.of rule p cursor typed := rfl
  have htext : ({ p with id } : Prediction).insertText = p.insertText := rfl
  simp only [Completion.of, hexcerpt, ofExcerpt, redo, htext]
  split
  case isFalse => exact ⟨p.id, id, rfl, hid, rfl⟩
  case isTrue  =>
    generalize Redo.of cursor.right p.insertText = x
    cases x <;> exact ⟨p.id, id, rfl, hid, rfl⟩

namespace Service

variable {uri : Text} {s t : Service} {c i j k l r : Nat} {cursor : Cursor}

-- A prediction under its number.
def Named (ρ : Renaming) (x y : Nat × Prediction) : Prop :=
  ρ.number x.1 = some y.1 ∧ x.2.Same ρ y.2

theorem Session.Same.keys {x y : Session} (h : x.Same ρ y) :
    List.Forall₂ (ρ.number · = some ·) x.cache.keys y.cache.keys := by
  simpa only [Cache.keys, List.forall₂_map_left_iff, List.forall₂_map_right_iff] using h.entries

section Entries

variable {xs ys : List (Nat × Unit)} (he : List.Forall₂ (fun a b => ρ.number a.1 = some b.1) xs ys)
  (hn : ∀ r r' k, ρ.number r = some k → ρ.number r' = some k → r = r') (hr : ρ.number r = some k)
include he hn hr

theorem contains_of_entries (n : Nat) : (Cache.mk n ys).contains k = (Cache.mk n xs).contains r := by
  simp only [Cache.contains]
  induction he
  case nil => rfl
  case cons a b _ _ hab _ ih =>
    have : b.1 = k ↔ a.1 = r := by grind
    simp only [List.any_cons, ih, this]

theorem get?_of_entries (n : Nat) : (Cache.mk n ys).get? k = (Cache.mk n xs).get? r := by
  simp only [Cache.get?]
  induction he
  case nil => rfl
  case cons a b _ _ hab _ ih =>
    have : b.1 = k ↔ a.1 = r := by grind
    by_cases ha : a.1 = r
    case pos => simp [this, ha]
    case neg => simpa [this, ha] using ih

theorem without_of_entries :
    List.Forall₂ (fun a b => ρ.number a.1 = some b.1) (Cache.without r xs) (Cache.without k ys) := by
  simp only [Cache.without]
  induction he
  case nil => exact .nil
  case cons a b _ _ hab _ ih =>
    have : b.1 = k ↔ a.1 = r := by grind
    by_cases ha : a.1 = r
    case pos => simpa [this, ha] using ih
    case neg => simpa [this, ha] using And.intro hab (by simpa using ih)

end Entries

namespace Mirrors

variable (h : Mirrors ρ uri s t)
include h

theorem stopAll {ks ks' : List Nat} (hk : List.Forall₂ (ρ.number · = some ·) ks ks') :
    Mirrors ρ uri (s.stopAll ks) (t.stopAll ks') := by
  induction hk generalizing s t
  case nil            => exact h
  case cons hk _ ih   => exact ih (h.cancelRequest hk)

-- A session with its cache laid open.
theorem exists_session (hi : ρ.session i = some j) : ∃ size xs ys generation lastAccept,
    s.sessions[i]? = some { cache := ⟨size, xs⟩, generation, lastAccept } ∧
      t.sessions[j]? = some { cache := ⟨size, ys⟩, generation, lastAccept } ∧
      List.Forall₂ (fun a b => ρ.number a.1 = some b.1) xs ys := by
  obtain ⟨⟨⟨size, xs⟩, generation, lastAccept⟩, ⟨⟨size', ys⟩, generation', lastAccept'⟩, hx, hy, hm, he, hg, hl⟩ :=
    h.sessions.found i j hi
  obtain rfl : size' = size := hm
  obtain rfl : generation' = generation := hg
  obtain rfl : lastAccept' = lastAccept := hl
  exact ⟨size', xs, ys, generation', lastAccept', hx, hy, he⟩

theorem forget (hi : ρ.session i = some j) (hr : ρ.number r = some k) :
    Mirrors ρ uri (s.forget i r) (t.forget j k) := by
  obtain ⟨size, xs, ys, generation, lastAccept, hx, hy, he⟩ := h.exists_session hi
  simp only [Service.forget, withCache, hx, hy, Cache.delete, get?_of_entries he h.dispatches.distinct hr]
  cases (Cache.mk size xs).get? r
  case none   => exact h.setSession hi ⟨rfl, he, rfl, rfl⟩
  case some v =>
    exact (h.cancelRequest hr).setSession hi ⟨rfl, without_of_entries he h.dispatches.distinct hr, rfl, rfl⟩

theorem keep (hi : ρ.session i = some j) (hr : ρ.number r = some k) :
    Mirrors ρ uri (s.keep i r) (t.keep j k) := by
  have hlast {a b : List (Nat × Unit)} (hab : List.Forall₂ (fun a b => ρ.number a.1 = some b.1) a b) :
      List.Forall₂ (fun a b => ρ.number a.1 = some b.1) (a ++ [(r, ())]) (b ++ [(k, ())]) :=
    List.rel_append hab (.cons hr .nil)
  obtain ⟨size, xs, ys, generation, lastAccept, hx, hy, he⟩ := h.exists_session hi
  simp only [Service.keep, withCache, hx, hy, Cache.set, contains_of_entries he h.dispatches.distinct hr, Cache.size,
    ← he.length_eq]
  by_cases hm : (Cache.mk size xs).contains r = true
  case pos =>
    simp only [hm, if_true]
    exact h.setSession hi ⟨rfl, hlast (without_of_entries he h.dispatches.distinct hr), rfl, rfl⟩
  case neg =>
    by_cases hl : xs.length < size
    case pos =>
      simp only [hm, hl, if_true]
      exact h.setSession hi ⟨rfl, hlast he, rfl, rfl⟩
    case neg =>
      simp only [hm, hl, if_false]
      cases he
      case nil         => exact h.setSession hi ⟨rfl, hlast .nil, rfl, rfl⟩
      case cons hab he => exact (h.cancelRequest hab).setSession hi ⟨rfl, hlast he, rfl, rfl⟩

theorem clear (hi : ρ.session i = some j) : Mirrors ρ uri (s.withCache i fun cache s => cache.clear disposal s)
    (t.withCache j fun cache s => cache.clear disposal s) := by
  obtain ⟨x, y, hx, hy, hxy⟩ := h.sessions.found i j hi
  rw [clear_eq hx, clear_eq hy]
  exact (h.stopAll hxy.keys).setSession hi ⟨hxy.maxSize, .nil, hxy.generation, hxy.lastAccept⟩

theorem prediction? (hr : ρ.number r = some k) :
    ∃ p q, s.prediction? r = some p ∧ t.prediction? k = some q ∧ p.Same ρ q := by
  obtain ⟨d, d', hd, hd', hdd⟩ := h.dispatches.found r k hr
  exact ⟨d.prediction, d'.prediction, by simp [Service.prediction?, hd], by simp [Service.prediction?, hd'],
    hdd.prediction⟩

theorem predictionsIn {x y : Session} (hxy : x.Same ρ y) :
    List.Forall₂ (Named ρ) (s.predictionsIn x) (t.predictionsIn y) := by
  have hkeys := hxy.keys
  simp only [Service.predictionsIn]
  generalize x.cache.keys = xs at hkeys ⊢
  generalize y.cache.keys = ys at hkeys ⊢
  induction hkeys
  case nil          => exact .nil
  case cons hk _ ih =>
    obtain ⟨p, q, hp, hq, hpq⟩ := h.prediction? hk
    simpa [hp, hq] using And.intro ⟨hk, hpq⟩ ih

theorem complete (hc : ρ.call c = some k) {x y : Call} (hxy : x.Same ρ y) {p q : Prediction} (hpq : p.Same ρ q)
    (b : Bounds) : Mirrors ρ uri (s.complete c x cursor p b) (t.complete k y cursor q b) := by
  simp only [Service.complete, answer, h.settings, hxy.position]
  exact (h.noteAll _ _).setCall hc (.answered (.cons (Completion.same_of hpq _ _ _ _) .nil))

theorem answerNone (hc : ρ.call c = some k) : Mirrors ρ uri (s.answer c []) (t.answer k []) :=
  h.setCall hc (.answered .nil)

theorem failCall (hc : ρ.call c = some k) (x y : Call) : Mirrors ρ uri (s.failCall c x) (t.failCall k y) :=
  ((h.note _ _).count _ _).answerNone hc

theorem serveCached (hc : ρ.call c = some k) (hi : ρ.session i = some j) {x y : Call} (hxy : x.Same ρ y)
    (hr : ρ.number r = some l) {p q : Prediction} (hpq : p.Same ρ q) (b : Bounds) :
    Mirrors ρ uri (s.serveCached c x i cursor r p b) (t.serveCached k y j cursor l q b) := by
  simp only [Service.serveCached, hpq.status]
  split
  case h_1 => exact ((h.count _ _).note _ _).complete hc hxy hpq b
  case h_2 => exact ((h.count _ _).note _ _).setCall hc (.awaiting cursor false hi hr)
  case h_3 => exact ((h.count _ _).note _ _).answerNone hc

theorem debounce (hc : ρ.call c = some k) (hi : ρ.session i = some j) (a b : Call) {x y : Session}
    (hxy : x.Same ρ y) (accepted : Bool) :
    Mirrors ρ uri (s.debounce c a i x cursor accepted) (t.debounce k b j y cursor accepted) := by
  simp only [Service.debounce, hxy.generation]
  have hset : Mirrors ρ uri (s.setSession i { x with generation := x.generation + 1 })
      (t.setSession j { y with generation := x.generation + 1 }) :=
    h.setSession hi { hxy with generation := rfl }
  rw [hset.settings]
  split
  case isTrue  => exact hset.failCall hc a b
  case isFalse => exact (hset.setCall hc (.debouncing cursor _ accepted hi)).resumeAfter hc _

omit h in
theorem findMatch (before : Text) {xs ys : List (Nat × Prediction)} (hxy : List.Forall₂ (Named ρ) xs ys) :
    Option.Rel (fun a b => ρ.number a.1 = some b.1 ∧ a.2.1.Same ρ b.2.1 ∧ a.2.2 = b.2.2) (findMatch before xs).1
      (findMatch before ys).1 := by
  induction hxy
  case nil => exact .none
  case cons a b _ _ hab _ ih =>
    obtain ⟨r, p⟩ := a
    obtain ⟨k, q⟩ := b
    obtain ⟨hr, hpq⟩ : ρ.number r = some k ∧ p.Same ρ q := hab
    simp only [Service.findMatch, hpq.before, hpq.insertText]
    split
    case h_1 b _ => exact .some ⟨hr, hpq, rfl⟩
    case h_2     => exact ih

theorem justAccepted? {x y : Session} (hxy : x.Same ρ y) : t.justAccepted? y = s.justAccepted? x := by
  simp only [Service.justAccepted?, h.settings, h.now, hxy.lastAccept]

theorem seek (hc : ρ.call c = some k) {x y : Call} (hu : x.uri = uri) (hxy : x.Same ρ y) :
    ∃ ρ', ρ.Grows ρ' ∧ Mirrors ρ' uri (s.seek c x) (t.seek k y) := by
  obtain ⟨ρ', hρ, h', hi⟩ := h.sessionFor
  have hc := hρ.call _ _ hc
  have hxy := hxy.mono hρ
  refine ⟨ρ', hρ, ?_⟩
  simp only [Service.seek, hxy.uri, hu]
  generalize s.sessionFor uri = u at h' hi ⊢
  generalize t.sessionFor uri = v at h' hi ⊢
  obtain ⟨document, _, hs, ht, rfl⟩ := h'.buffers.found _ _ hxy.buffer
  obtain ⟨xs, ys, hxs, hys, hsame⟩ := h'.sessions.found _ _ hi
  simp only [hs, ht, hxs, hys, hxy.position]
  have hmatch := findMatch (document.cursorAt x.position).before (h'.predictionsIn hsame)
  generalize Service.findMatch _ (u.1.predictionsIn xs) = m at hmatch ⊢
  generalize Service.findMatch _ (v.1.predictionsIn ys) = n at hmatch ⊢
  obtain ⟨found, ns⟩ := m
  obtain ⟨found', ns'⟩ := n
  have hn := h'.noteAll ns ns'
  cases hmatch
  case some m n hmn =>
    obtain ⟨r, p, bounds⟩ := m
    obtain ⟨l, q, bounds'⟩ := n
    obtain ⟨hr, hpq, rfl⟩ : ρ'.number r = some l ∧ p.Same ρ' q ∧ bounds = bounds' := hmn
    exact hn.serveCached hc hi hxy hr hpq bounds
  case none =>
    simp only [hn.justAccepted? hsame]
    split
    case h_1 accepted _ => exact hn.debounce hc hi x y hsame accepted
    case h_2            => exact hn.failCall hc x y

theorem startCall (hc : ρ.call c = some k) {x y : Call} (hu : x.uri = uri) (hxy : x.Same ρ y) :
    ∃ ρ', ρ.Grows ρ' ∧ Mirrors ρ' uri (s.startCall c x) (t.startCall k y) := by
  have hs := hxy.stage
  simp only [Service.startCall, h.settings]
  generalize x.stage = xs at hs ⊢
  generalize y.stage = ys at hs ⊢
  cases hs
  case queued =>
    cases s.settings.enabled
    case true  => exact h.seek hc hu hxy
    case false => exact ⟨ρ, .refl ρ, h.answerNone hc⟩
  all_goals exact ⟨ρ, .refl ρ, h⟩

theorem enforceLimit (hi : ρ.session i = some j) : Mirrors ρ uri (s.enforceLimit i) (t.enforceLimit j) := by
  obtain ⟨x, y, hx, hy, hxy⟩ := h.sessions.found i j hi
  have hpending : List.Forall₂ (Named ρ) ((s.predictionsIn x).filter (·.2.isPending))
      ((t.predictionsIn y).filter (·.2.isPending)) :=
    List.rel_filter (fun _ _ hab => by simp only [hab.2.isPending]) (h.predictionsIn hxy)
  simp only [Service.enforceLimit, hx, hy]
  generalize (s.predictionsIn x).filter (·.2.isPending) = xs at hpending ⊢
  generalize (t.predictionsIn y).filter (·.2.isPending) = ys at hpending ⊢
  cases hpending
  case nil => exact h
  case cons hab he =>
    simp only [h.settings, he.length_eq]
    split
    case isTrue  => exact ((h.note _ _).forget hi hab.1).count _ _
    case isFalse => exact h

theorem dispatch (hc : ρ.call c = some k) (hi : ρ.session i = some j) (cursor : Cursor) (o : Options) (before : Text) :
    ∃ ρ', ρ.Grows ρ' ∧ Mirrors ρ' uri (s.dispatch c i cursor o before) (t.dispatch k j cursor o before) := by
  simp only [Service.dispatch]
  generalize [Notice.requested s.dispatches.size _, _, _] = ns
  generalize [Notice.requested t.dispatches.size _, _, _] = ns'
  generalize hd : ({ call := c, session := i, prediction := _, request := _ } : Dispatch) = d
  generalize hd' : ({ call := k, session := j, prediction := _, request := _ } : Dispatch) = d'
  have hsame : d.Same (ρ.learnNumber s.dispatches.size t.dispatches.size) d' := by
    rw [← hd, ← hd', h.now]
    refine ⟨⟨t.dispatches.size, ?_, rfl⟩, rfl, rfl, rfl, rfl, ?_⟩
    case refine_1 => simp [Renaming.id?, Renaming.learnNumber, learn_self]
    case refine_2 => simp [Renaming.learnNumber, hi]
  have hn := h.noteAll ns ns'
  rw [← dispatches_noteAll (s := s) ns, ← dispatches_noteAll (s := t) ns'] at hsame ⊢
  generalize s.noteAll ns = u at hn hsame ⊢
  generalize t.noteAll ns' = v at hn hsame ⊢
  have hρ := Renaming.Grows.learnNumber hn.dispatches.next v.dispatches.size
  have hr : (ρ.learnNumber u.dispatches.size v.dispatches.size).number u.dispatches.size = some v.dispatches.size :=
    learn_self ..
  refine ⟨_, hρ, ?_⟩
  exact ((((hn.addDispatch hsame).queue (.startRequest hr)).keep hi hr).count _ _).setCall hc
    (.awaiting cursor true hi hr)

theorem gather (hc : ρ.call c = some k) (hi : ρ.session i = some j) (cursor : Cursor) (o : Options) (x : Hints)
    (unasked : List Hints.Provider) :
    ∃ ρ', ρ.Grows ρ' ∧ Mirrors ρ' uri (s.gather c i cursor o x unasked) (t.gather k j cursor o x unasked) := by
  induction unasked generalizing s t x
  case nil => exact h.dispatch hc hi cursor o _
  case cons p rest ih =>
    simp only [Service.gather, h.features]
    cases s.features
    case none   => exact h.dispatch hc hi cursor o _
    case some f =>
      dsimp only
      cases f.delay
      case none       => exact ih (h.noteAll _ _) _
      case some delay =>
        exact ⟨ρ, .refl ρ, (h.setCall hc (.gathering cursor o x (p :: rest) hi)).resumeAfter hc delay⟩

theorem request (hc : ρ.call c = some k) (hi : ρ.session i = some j) {x y : Call} (hxy : x.Same ρ y) (cursor : Cursor)
    (o : Options) : ∃ ρ', ρ.Grows ρ' ∧ Mirrors ρ' uri (s.request c x i cursor o) (t.request k y j cursor o) := by
  obtain ⟨document, _, hs, ht, rfl⟩ := h.buffers.found _ _ hxy.buffer
  simp only [Service.request, h.settings, hs, ht, hxy.position]
  cases o.generate
  case false => exact ⟨ρ, .refl ρ, h.answerNone hc⟩
  case true  =>
    cases s.settings.useHints
    case false => exact h.dispatch hc hi cursor o _
    case true  =>
      cases Hints.inText document.text x.position
      case error => exact ⟨ρ, .refl ρ, h.failCall hc x y⟩
      case ok hs => exact h.gather hc hi cursor o hs _

theorem endDebounce (hc : ρ.call c = some k) (hi : ρ.session i = some j) {x y : Call} (hxy : x.Same ρ y)
    (cursor : Cursor) (generation : Nat) (accepted : Bool) : ∃ ρ', ρ.Grows ρ' ∧
      Mirrors ρ' uri (s.endDebounce c x i cursor generation accepted)
        (t.endDebounce k y j cursor generation accepted) := by
  obtain ⟨a, b, ha, hb, hab⟩ := h.sessions.found i j hi
  simp only [Service.endDebounce, ha, hb, hab.generation, (h.enforceLimit hi).settings]
  by_cases hg : a.generation = generation
  case pos => simpa [hg] using (h.enforceLimit hi).request hc hi hxy cursor _
  case neg =>
    refine ⟨ρ, .refl ρ, ?_⟩
    rw [if_pos hg, if_pos hg]
    exact (h.count _ _).answerNone hc

theorem askNext (hc : ρ.call c = some k) (hi : ρ.session i = some j) (cursor : Cursor) (o : Options) (x : Hints)
    (unasked : List Hints.Provider) :
    ∃ ρ', ρ.Grows ρ' ∧ Mirrors ρ' uri (s.askNext c i cursor o x unasked) (t.askNext k j cursor o x unasked) := by
  cases unasked
  case nil            => exact h.dispatch hc hi cursor o _
  case cons p rest =>
    simp only [Service.askNext, h.features]
    cases s.features
    case none   => exact h.dispatch hc hi cursor o _
    case some f => exact (h.noteAll _ _).gather hc hi cursor o _ rest

theorem deliver (hc : ρ.call c = some k) (hi : ρ.session i = some j) {x y : Call} (hxy : x.Same ρ y) (cursor : Cursor)
    (hr : ρ.number r = some l) (own : Bool) :
    Mirrors ρ uri (s.deliver c x i cursor r own) (t.deliver k y j cursor l own) := by
  obtain ⟨p, q, hp, hq, hpq⟩ := h.prediction? hr
  simp only [Service.deliver, hp, hq, hpq.result?, hpq.before, hpq.insertText]
  cases p.result?
  case none        => exact h
  case some result =>
    dsimp only
    split
    case isTrue  => exact (h.forget hi hr).answerNone hc
    case isFalse =>
      split
      case isTrue  => exact h.complete hc hxy hpq _
      case isFalse =>
        split
        case h_1 b _ => exact (h.noteAll _ _).complete hc hxy hpq b
        case h_2     => exact (h.noteAll _ _).answerNone hc

theorem resumeCall (hc : ρ.call c = some k) {x y : Call} (hxy : x.Same ρ y) :
    ∃ ρ', ρ.Grows ρ' ∧ Mirrors ρ' uri (s.resumeCall c x) (t.resumeCall k y) := by
  have hs := hxy.stage
  simp only [Service.resumeCall]
  generalize x.stage = xs at hs ⊢
  generalize y.stage = ys at hs ⊢
  cases hs
  case debouncing hi  => exact h.endDebounce hc hi hxy _ _ _
  case gathering hi   => exact h.askNext hc hi _ _ _ _
  case awaiting hi hr => exact ⟨ρ, .refl ρ, h.deliver hc hi hxy _ hr _⟩
  all_goals exact ⟨ρ, .refl ρ, h⟩

theorem relay (hc : ρ.call c = some k) {x y : Call} (hxy : x.Same ρ y) :
    Mirrors ρ uri (s.relay c x) (t.relay k y) := by
  have hs := hxy.stage
  simp only [Service.relay]
  generalize x.stage = xs at hs ⊢
  generalize y.stage = ys at hs ⊢
  cases hs
  case awaiting => exact h.queue (.resumeCall hc)
  all_goals exact h

-- A turn that is known is the same turn in both.
theorem takeTurn {a b : Turn} (hab : a.Same ρ b) :
    ∃ ρ', ρ.Grows ρ' ∧ Mirrors ρ' uri (s.takeTurn a) (t.takeTurn b) := by
  have hdispatch {r k : Nat} (hr : ρ.number r = some k) {f g : Dispatch → Service}
      (hfg : ∀ d d', d.Same ρ d' → Mirrors ρ uri (f d) (g d')) :
      ∃ ρ', ρ.Grows ρ' ∧ Mirrors ρ' uri (s.withDispatch r f) (t.withDispatch k g) := by
    obtain ⟨d, d', hs, ht, hd⟩ := h.dispatches.found r k hr
    exact ⟨ρ, .refl ρ, by simpa only [withDispatch, hs, ht] using hfg d d' hd⟩
  have hcall {c k : Nat} (hc : ρ.call c = some k) {f g : Call → Service}
      (hfg : ∀ x y, x.uri = uri → x.Same ρ y → ∃ ρ', ρ.Grows ρ' ∧ Mirrors ρ' uri (f x) (g y)) :
      ∃ ρ', ρ.Grows ρ' ∧ Mirrors ρ' uri (s.withCall c f) (t.withCall k g) := by
    obtain ⟨x, y, hs, ht, hu, hxy⟩ := h.calls.found c k hc
    simpa only [withCall, hs, ht] using hfg x y hu hxy
  cases hab
  case startCall hc     => exact hcall hc fun _ _ hu hxy => h.startCall hc hu hxy
  case resumeCall hc    => exact hcall hc fun _ _ _ hxy => h.resumeCall hc hxy
  case relay hc         => exact hcall hc fun _ _ _ hxy => ⟨ρ, .refl ρ, h.relay hc hxy⟩
  case startRequest hr  => exact hdispatch hr fun _ _ hd => h.startRequest hr hd
  case resumeRequest hr => exact hdispatch hr fun _ _ hd => h.resumeRequest hr hd
  case startReading hr  => exact hdispatch hr fun _ _ hd => h.startReading hr hd
  case resumeReading hr => exact hdispatch hr fun _ _ hd => h.resumeReading hr hd
  case readingOver hr   => exact hdispatch hr fun _ _ hd => h.rouse hr hd
  case retire hr        => exact hdispatch hr fun _ _ hd => h.retire hr hd
  case ring hb          =>
    refine ⟨ρ, .refl ρ, ?_⟩
    cases hb
    case call hc     => exact h.queue (.resumeCall hc)
    case answer hr   => exact h.answerComes hr
    case deadline hr => exact h.expire hr

end Mirrors
end Service
end GhostText
