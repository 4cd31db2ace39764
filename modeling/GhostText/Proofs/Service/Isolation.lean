import GhostText.Proofs.Service.Lags

namespace GhostText

-- The same under another id.
def Prediction.rename (f : Int → Int) (p : Prediction) : Prediction :=
  { p with id := f p.id }

def Completion.rename (f : Int → Int) (x : Completion) : Completion :=
  { x with prediction := x.prediction.map f }

namespace Service

-- What an editor does. The calls for a document are counted from the first one, whatever is asked about others.
inductive Action
  | openBuffer (uri text : Text)
  | edit (uri : Text) (span : Span) (text : Text)
  | provide (uri : Text) (position : Position)
  | cancel (uri : Text) (n : Nat)
  | free (uri : Text) (position : Position) (shown : Option (List Int))
  | close (uri : Text)
  | dispose
  | setDelay (delay : Option Nat)
  | wait

namespace Action

def uri? : Action → Option Text
  | .openBuffer uri _ | .edit uri _ _ | .provide uri _ | .cancel uri _ | .free uri _ _ | .close uri => some uri
  | .dispose | .setDelay _ | .wait => none

-- It concerns another document.
def isApart (uri : Text) (a : Action) : Bool :=
  a.uri?.any (· ≠ uri)

def rename (f : Int → Int) : Action → Action
  | .free uri position shown => .free uri position (shown.map (·.map f))
  | a                        => a

-- The editor waits instead of doing something with another document.
def alone (uri : Text) (f : Int → Int) (a : Action) : Action :=
  if a.isApart uri then .wait else a.rename f

end Action

-- The editor does something, and then some time goes by.
structure Step where
  action : Action
  ms     : Nat

def Step.alone (uri : Text) (f : Int → Int) (x : Step) : Step :=
  { x with action := x.action.alone uri f }

-- What has become of a call.
inductive Reply
  | pending
  | cancelled
  | completions (xs : List Completion)
deriving DecidableEq

def Reply.rename (f : Int → Int) : Reply → Reply
  | .completions xs => .completions (xs.map (·.rename f))
  | x               => x

-- What is seen of a document after a step: what has become of the calls for it, what was accepted in the step, and the
-- predictions that are kept.
structure View where
  replies : List Reply
  freed   : List Int
  kept    : List Prediction
deriving DecidableEq

def View.rename (f : Int → Int) (v : View) : View where
  replies := v.replies.map (·.rename f)
  freed   := v.freed.map f
  kept    := v.kept.map (·.rename f)

def callsFor (s : Service) (uri : Text) : List Nat :=
  (List.range s.calls.size).filter fun c => s.calls[c]?.any (·.uri = uri)

def reply (s : Service) (c : Nat) : Reply :=
  match s.stage? c with
  | some (.answered xs) => .completions xs
  | some .cancelled     => .cancelled
  | _                   => .pending

-- With the ids of what is accepted.
def act (s : Service) : Action → Service × List Int
  | .openBuffer uri text     => (s.openBuffer uri text, [])
  | .edit uri span text      => ((s.edit uri span text).1, [])
  | .provide uri position    => (s.provide uri position, [])
  | .cancel uri n            => (((s.callsFor uri)[n]?).elim s fun c => (s.cancelCall c).1, [])
  | .free uri position shown => s.free uri position shown
  | .close uri               => (s.close uri, [])
  | .dispose                 => (s.dispose, [])
  | .setDelay delay          => (s.setDelay delay, [])
  | .wait                    => (s, [])

def view (s : Service) (uri : Text) (freed : List Int) : View where
  replies := (s.callsFor uri).map s.reply
  freed   := freed
  kept    := s.predictionsOf uri

-- What is accepted of a document.
def freedOf (s : Service) (uri : Text) (a : Action) : List Int :=
  if a.isApart uri then [] else (s.act a).2

def takeStep (s : Service) (x : Step) : Service :=
  (s.act x.action).1.settle x.ms

-- What is seen of a document after each step.
def trail (uri : Text) : List Step → Service → List View
  | [],      _ => []
  | x :: xs, s => (s.takeStep x).view uri (s.freedOf uri x.action) :: trail uri xs (s.takeStep x)

variable {ρ ρ' : Renaming} {uri : Text} {s t : Service} {c i j k n : Nat} {f g : Int → Int} {a : Action}

section Renaming

theorem Renaming.id?_eq_some_iff {x y : Int} :
    ρ.id? x = some y ↔ ∃ n k : Nat, x = n ∧ y = k ∧ ρ.number n = some k := by
  cases x
  case negSucc => simp [Renaming.id?]
  case ofNat n =>
    simp only [Renaming.id?, Option.map_eq_some_iff, Int.ofNat_eq_natCast, Int.natCast_inj]
    constructor
    case mp =>
      rintro ⟨k, hk, rfl⟩
      exact ⟨n, k, rfl, rfl, hk⟩
    case mpr =>
      rintro ⟨_, k, rfl, rfl, hk⟩
      exact ⟨k, hk, rfl⟩

-- Every id has another one, and those that are known have the ones under which they are known.
structure Renaming.Extended (ρ : Renaming) (f : Int → Int) : Prop where
  injective : f.Injective
  agrees    : ∀ x y, ρ.id? x = some y → f x = y

theorem Renaming.Extended.mono (hρ : ρ.Grows ρ') (h : ρ'.Extended f) : ρ.Extended f :=
  ⟨h.injective, fun x y hx => h.agrees x y (hρ.id? hx)⟩

-- What is not known goes beyond all that is.
def Renaming.extend (ρ : Renaming) (n : Nat) (x : Int) : Int :=
  (ρ.id? x).getD (if x < 0 then x else n + x)

theorem Renaming.extended_extend (hd : ∀ i i' j, ρ.number i = some j → ρ.number i' = some j → i = i')
    (hn : ∀ i j, ρ.number i = some j → j < n) : ρ.Extended (ρ.extend n) where
  injective := fun x x' he => by
    have hlt {x y : Int} (hx : ρ.id? x = some y) : 0 ≤ y ∧ y < n := by
      obtain ⟨i, j, -, rfl, hj⟩ := id?_eq_some_iff.mp hx
      exact ⟨Int.natCast_nonneg j, Int.ofNat_lt.mpr (hn i j hj)⟩
    simp only [extend] at he
    cases hx : ρ.id? x <;> cases hx' : ρ.id? x' <;> simp only [hx, hx', Option.getD_none, Option.getD_some] at he
    case none.none       => split at he <;> split at he <;> omega
    case none.some y'    => have := hlt hx'; split at he <;> omega
    case some.none y     => have := hlt hx; split at he <;> omega
    case some.some y y'  =>
      obtain ⟨i, j, rfl, rfl, hj⟩ := id?_eq_some_iff.mp hx
      obtain ⟨i', j', rfl, rfl, hj'⟩ := id?_eq_some_iff.mp hx'
      obtain rfl := Int.natCast_inj.mp he
      rw [hd i i' j hj hj']
  agrees    := fun x y hx => by simp [extend, hx]

theorem Renaming.Extended.prediction (hf : ρ.Extended f) {p q : Prediction} (h : p.Same ρ q) : q = p.rename f := by
  obtain ⟨id, hid, rfl⟩ := h
  rw [Prediction.rename, hf.agrees _ _ hid]

theorem Renaming.Extended.completion (hf : ρ.Extended f) {x y : Completion} (h : x.Same ρ y) : y = x.rename f := by
  obtain ⟨id, id', hid, hid', rfl⟩ := h
  rw [Completion.rename, hid, Option.map_some, hf.agrees _ _ hid']

theorem eq_map_of_forall₂ {α β : Type} {R : α → β → Prop} {g : α → β} {xs : List α} {ys : List β}
    (h : List.Forall₂ R xs ys) (hg : ∀ x y, R x y → y = g x) : ys = xs.map g := by
  induction h
  case nil           => rfl
  case cons hxy _ ih => rw [List.map_cons, ← ih, hg _ _ hxy]

end Renaming

namespace Mirrors

variable (h : Mirrors ρ uri s t)
include h

theorem extended : ρ.Extended (ρ.extend t.dispatches.size) :=
  Renaming.extended_extend h.dispatches.distinct fun _ _ hi => (h.dispatches.lt hi).2

theorem callsFor : List.Forall₂ (ρ.call · = some ·) (s.callsFor uri) (t.callsFor uri) := by
  have hown : ∀ x y, ρ.call x = some y → s.calls[x]?.any (·.uri = uri) = t.calls[y]?.any (·.uri = uri) := by
    intro x y hxy
    obtain ⟨a, b, ha, hb, hu, hab⟩ := h.calls.found x y hxy
    simp [ha, hb, hab.uri, hu]
  refine (h.order.filter hown).forall₂ fun c hc hforeign => ?_
  obtain ⟨-, hu⟩ := List.mem_filter.mp hc
  obtain ⟨call, hcall, hu⟩ := (Option.any_eq_true ..).mp hu
  exact (h.others c call hcall hforeign.1).1 (of_decide_eq_true hu)

theorem reply (hf : ρ.Extended f) (hc : ρ.call c = some k) : t.reply k = (s.reply c).rename f := by
  obtain ⟨x, y, hx, hy, -, hxy⟩ := h.calls.found c k hc
  have hs := hxy.stage
  simp only [Service.reply, stage?, hx, hy, Option.map_some]
  generalize x.stage = xs at hs ⊢
  generalize y.stage = ys at hs ⊢
  cases hs
  case answered hxs => rw [Reply.rename, eq_map_of_forall₂ hxs fun _ _ => hf.completion]
  all_goals rfl

theorem view (hf : ρ.Extended f) (freed : List Int) : t.view uri (freed.map f) = (s.view uri freed).rename f := by
  have hreplies : List.Forall₂ (fun c k => t.reply k = (s.reply c).rename f) (s.callsFor uri) (t.callsFor uri) :=
    h.callsFor.imp fun _ _ => h.reply hf
  have hkept := eq_map_of_forall₂ h.predictionsOf fun _ _ => hf.prediction
  simp only [Service.view, View.rename, hkept, List.map_map, View.mk.injEq, and_true]
  rw [← List.forall₂_eq_eq_eq, List.forall₂_map_left_iff, List.forall₂_map_right_iff]
  exact hreplies.flip

end Mirrors

theorem Action.uri_eq_of_isApart (ha : a.isApart uri = false) {uri' : Text} (hu : a.uri? = some uri') : uri' = uri := by
  simpa [isApart, hu] using ha

theorem Action.exists_uri_of_isApart (ha : a.isApart uri = true) : ∃ uri', a.uri? = some uri' ∧ uri' ≠ uri := by
  simpa [isApart, Option.any_eq_true] using ha

theorem Action.alone_eq_rename (ha : a.isApart uri = false) (f : Int → Int) : a.alone uri f = a.rename f := by
  simp [alone, ha]

theorem getElem?_of_forall₂ {α β : Type} {R : α → β → Prop} {xs : List α} {ys : List β} (h : List.Forall₂ R xs ys)
    (n : Nat) : Option.Rel R xs[n]? ys[n]? := by
  induction h generalizing n
  case nil           => exact .none
  case cons hxy _ ih =>
    cases n
    case zero   => exact .some hxy
    case succ n => simpa using ih n

theorem Renaming.Extended.all_contains (hf : ρ.Extended f) {x y : Int} (hx : ρ.id? x = some y)
    (shown : Option (List Int)) : (shown.map (·.map f)).all (·.contains y) = shown.all (·.contains x) := by
  cases shown
  case none   => rfl
  case some l =>
    have hmem := List.mem_map_of_injective hf.injective (a := x) (l := l)
    simp only [Option.map_some, Option.all_some, List.contains_eq_mem, ← hf.agrees x y hx, hmem]

-- Whether other completions were shown is not asked.
theorem free_congr {shown shown' : Option (List Int)}
    (hs : ∀ p ∈ s.predictionsOf uri, shown.all (·.contains p.id) = shown'.all (·.contains p.id)) (position : Position) :
    s.free uri position shown = s.free uri position shown' := by
  simp only [Service.free]
  cases hi : s.session? uri <;> cases hb : s.buffer? uri
  case some.some i b =>
    cases hx : s.sessions[i]? <;> simp only [hx]
    case some session =>
      have hkept : s.predictionsOf uri = (s.predictionsIn session).map (·.2) := by simp [predictionsOf, hi, hx]
      have htaken (typed : Text) : (s.predictionsIn session).filter
            (fun x => shown.all (·.contains x.2.id) && isAccepted typed x.2) =
          (s.predictionsIn session).filter fun x => shown'.all (·.contains x.2.id) && isAccepted typed x.2 :=
        List.filter_congr fun x hx => by rw [hs x.2 (hkept ▸ List.mem_map_of_mem hx)]
      simp only [htaken]
  all_goals rfl

theorem Reaches.act (s : Service) (a : Action) : s.Reaches (s.act a).1 := by
  have hafter (e : Event) : s.Reaches (s.after e) := (Reaches.refl s).after e
  cases a
  case openBuffer uri text     => exact hafter (.openBuffer uri text)
  case edit uri span text      => exact hafter (.edit uri span text)
  case provide uri position    => exact hafter (.provide uri position)
  case free uri position shown => exact hafter (.free uri position shown)
  case close uri               => exact hafter (.close uri)
  case dispose                 => exact hafter .dispose
  case setDelay delay          => exact hafter (.serve { s.backend with delay })
  case wait                    => exact .refl s
  case cancel uri n            =>
    simp only [Service.act]
    cases (s.callsFor uri)[n]?
    case none   => exact .refl s
    case some c => exact hafter (.cancel c)

namespace Mirrors

variable (h : Mirrors ρ uri s t)
include h

-- What concerns the document is done in both.
theorem act (hf : ρ.Extended f) (ha : a.isApart uri = false) :
    ∃ ρ', ρ.Grows ρ' ∧ Mirrors ρ' uri (s.act a).1 (t.act (a.rename f)).1 ∧
      (t.act (a.rename f)).2 = (s.act a).2.map f := by
  have hu {uri' : Text} (hu : a.uri? = some uri') : uri' = uri := Action.uri_eq_of_isApart ha hu
  have hsame {s' t' : Service} (h' : Mirrors ρ uri s' t') :
      ∃ ρ', ρ.Grows ρ' ∧ Mirrors ρ' uri s' t' ∧ ([] : List Int) = [].map f :=
    ⟨ρ, .refl ρ, h', rfl⟩
  cases a
  case openBuffer uri' text =>
    obtain rfl := hu rfl
    exact ⟨_, .learnBuffer h.buffers.next _, h.openBuffer text, rfl⟩
  case edit uri' span text =>
    obtain rfl := hu rfl
    exact hsame (h.edit span text)
  case provide uri' position =>
    obtain rfl := hu rfl
    obtain ⟨ρ', hρ, h'⟩ := h.provide position
    exact ⟨ρ', hρ, h', rfl⟩
  case cancel uri' n =>
    obtain rfl := hu rfl
    refine hsame ?_
    have hn := getElem?_of_forall₂ h.callsFor n
    simp only [Service.act, Action.rename]
    generalize (s.callsFor uri')[n]? = x at hn ⊢
    generalize (t.callsFor uri')[n]? = y at hn ⊢
    cases hn
    case none    => exact h
    case some hc => exact h.cancelCall hc
  case free uri' position shown =>
    obtain rfl := hu rfl
    have hshown (x y : Int) (hx : ρ.id? x = some y) : shown.all (·.contains x) =
        (shown.map (·.map f)).all (·.contains y) :=
      (hf.all_contains hx shown).symm
    obtain ⟨h', hfreed⟩ := h.free position hshown
    exact ⟨ρ, .refl ρ, h', eq_map_of_forall₂ hfreed fun x y hx => (hf.agrees x y hx).symm⟩
  case close uri' =>
    obtain rfl := hu rfl
    exact hsame h.close
  case dispose        => exact hsame h.dispose
  case setDelay delay => exact hsame (h.setDelay delay)
  case wait           => exact hsame h

-- What concerns another document is done in one only.
theorem act_other (ha : a.isApart uri = true) : Mirrors ρ uri (s.act a).1 t := by
  obtain ⟨uri', hu, hne⟩ := Action.exists_uri_of_isApart ha
  cases a <;> simp only [Action.uri?, Option.some.injEq, reduceCtorEq] at hu <;> obtain rfl := hu
  case openBuffer text     => exact h.openBuffer_other hne text
  case edit span text      => exact h.edit_other hne span text
  case provide position    => exact h.provide_other hne position
  case free position shown => exact h.free_other hne position shown
  case close               => exact h.close_other hne
  case cancel uri' n       =>
    simp only [Service.act]
    cases hn : (s.callsFor uri')[n]?
    case none   => exact h
    case some c =>
      refine h.cancelCall_other ?_
      obtain ⟨-, hc⟩ := List.mem_filter.mp (List.mem_of_getElem? hn)
      obtain ⟨call, hcall, hc⟩ := (Option.any_eq_true ..).mp hc
      cases hk : ρ.call c
      case none   => rfl
      case some k =>
        obtain ⟨x, _, hx, -, hu, -⟩ := h.calls.found c k hk
        obtain rfl := Option.some.inj (hcall.symm.trans hx)
        exact absurd ((of_decide_eq_true hc).symm.trans hu) hne

theorem exists_id? {q : Prediction} (hq : q ∈ t.predictionsOf uri) : ∃ x, ρ.id? x = some q.id := by
  obtain ⟨n, hn⟩ := List.mem_iff_getElem?.mp hq
  have hpq := getElem?_of_forall₂ h.predictionsOf n
  rw [hn] at hpq
  generalize (s.predictionsOf uri)[n]? = p at hpq
  cases hpq
  case some hpq => exact ⟨_, hpq.id?⟩

-- It does not matter how other ids than the known ones are renamed.
theorem act_congr (hf : ρ.Extended f) (hg : ρ.Extended g) (a : Action) :
    t.act (a.alone uri f) = t.act (a.alone uri g) := by
  cases ha : a.isApart uri
  case true  => simp only [Action.alone, ha, if_true]
  case false =>
    rw [Action.alone_eq_rename ha, Action.alone_eq_rename ha]
    cases a
    case free uri' position shown =>
      obtain rfl := Action.uri_eq_of_isApart ha rfl
      refine free_congr (fun q hq => ?_) position
      obtain ⟨x, hx⟩ := h.exists_id? hq
      rw [hf.all_contains hx, hg.all_contains hx]
    all_goals rfl

theorem act_alone (hf : ρ.Extended f) (a : Action) :
    ∃ ρ', ρ.Grows ρ' ∧ Mirrors ρ' uri (s.act a).1 (t.act (a.alone uri f)).1 := by
  cases ha : a.isApart uri
  case true  => exact ⟨ρ, .refl ρ, by simpa [Action.alone, ha, Service.act] using h.act_other ha⟩
  case false =>
    obtain ⟨ρ', hρ, h', -⟩ := h.act hf ha
    exact ⟨ρ', hρ, Action.alone_eq_rename ha f ▸ h'⟩

theorem freedOf (hf : ρ.Extended f) (a : Action) : t.freedOf uri (a.alone uri f) = (s.freedOf uri a).map f := by
  cases ha : a.isApart uri
  case true  => simp [Service.freedOf, Action.alone, ha, Service.act]
  case false =>
    obtain ⟨_, -, -, hfreed⟩ := h.act hf ha
    have hrename : (a.rename f).isApart uri = a.isApart uri := by cases a <;> rfl
    simpa [Service.freedOf, Action.alone_eq_rename ha, ha, hrename] using hfreed

variable {settings : Setup} {backend : Backend} {features : Option LanguageFeatures}

theorem takeStep (hs : (start settings backend features).Reaches s) (hf : ρ.Extended f) (x : Step) :
    ∃ ρ', ρ.Grows ρ' ∧ Mirrors ρ' uri (s.takeStep x) (t.takeStep (x.alone uri f)) := by
  obtain ⟨ρ₁, hρ₁, h₁⟩ := h.act_alone hf x.action
  obtain ⟨ρ₂, hρ₂, h₂⟩ := h₁.settle (hs.trans (.act s x.action)) x.ms
  exact ⟨ρ₂, hρ₁.trans hρ₂, h₂⟩

-- The ids are known in the end. However those that are not known are renamed, the other service does the same.
theorem trail (hs : (start settings backend features).Reaches s) (steps : List Step) :
    ∃ ρ', ρ.Grows ρ' ∧ (∃ f, ρ'.Extended f) ∧ ∀ f, ρ'.Extended f →
      Service.trail uri (steps.map (·.alone uri f)) t = (Service.trail uri steps s).map (·.rename f) := by
  induction steps generalizing ρ s t
  case nil            => exact ⟨ρ, .refl ρ, ⟨_, h.extended⟩, fun _ _ => rfl⟩
  case cons x rest ih =>
    obtain ⟨ρ₁, hρ₁, h₁⟩ := h.takeStep hs h.extended x
    obtain ⟨ρ₂, hρ₂, hext, hrest⟩ := ih h₁ ((hs.trans (.act s x.action)).trans (.settle _ x.ms))
    refine ⟨ρ₂, hρ₁.trans hρ₂, hext, fun f hf => ?_⟩
    have hf₀ : ρ.Extended f := hf.mono (hρ₁.trans hρ₂)
    have hstep : t.takeStep (x.alone uri f) = t.takeStep (x.alone uri (ρ.extend t.dispatches.size)) := by
      simp only [Service.takeStep, Step.alone, h.act_congr hf₀ h.extended]
    have hfreed : t.freedOf uri (x.alone uri f).action = (s.freedOf uri x.action).map f := h.freedOf hf₀ x.action
    simp only [List.map_cons, Service.trail, hstep, hfreed, h₁.view (hf.mono hρ₂), hrest f hf]

end Mirrors

-- Nothing is known when the service starts.
theorem Mirrors.start {settings : Setup} (hc : settings.chime = .inTurn) {backend : Backend}
    (hb : backend.answers.Steady) (features : Option LanguageFeatures) (uri : Text) :
    Mirrors ⟨fun _ => none, fun _ => none, fun _ => none, fun _ => none⟩ uri (start settings backend features)
      (start settings backend features) where
  settings   := rfl
  inTurn     := hc
  features   := rfl
  backend    := rfl
  steady     := hb
  now        := rfl
  buffers    := ⟨by simp, by simp⟩
  sessions   := ⟨by simp, by simp⟩
  dispatches := ⟨by simp, by simp⟩
  calls      := ⟨by simp, by simp⟩
  opened     := .none
  current    := .none
  order      := .nil
  ready      := .nil
  alarms     := .nil
  others     := by simp [Service.start, Service.note]
  kept       := by simp [Service.start, Service.note, Service.kept]
  homes      := by simp [Service.start, Service.note, session?]
  places     := by simp [Service.start, Service.note]
  alone      := by simp [Service.start, Service.note, session?]
  ahead      := by simp [Service.start, Service.note]

end Service
end GhostText
