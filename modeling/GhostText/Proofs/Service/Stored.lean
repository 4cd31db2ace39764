import GhostText.Proofs.Answer.Shape
import GhostText.Proofs.Service.Touches

namespace GhostText.Service

variable {s s' : Service} {q rest : List Turn} {t : Turn} {r : Nat} {d : Dispatch} {e : Deed}

-- What is still to be read of an answer that has arrived.
def Reading.unread : Reading → Text
  | .waiting _ (some rest) => rest.text
  | _                      => []

def Reading.hasBegun : Reading → Bool
  | .queued | .waiting _ none => false
  | _                         => true

-- What has been read and what is still to be read stops where the kind has to, and the text was made of what was read.
structure Worded (d : Dispatch) : Prop where
  stops  : d.request.stops = d.prediction.kind.stops
  before : d.reading.hasBegun = false → d.prediction.rawText = []
  allows : d.prediction.kind.Allows (d.prediction.rawText ++ d.reading.unread)
  stored : ∀ text time, d.prediction.stage = .finished text time → d.prediction.kind.Shaped text

theorem Fresh.worded {c i : Nat} (h : s.Fresh c i d) : Worded d where
  stops  := h.stops
  before := fun _ => h.rawText
  allows := by
    rw [h.rawText, h.reading]
    exact Kind.allows_nil _
  stored := fun text time hs => by
    have := h.pending
    simp [Prediction.isPending, hs] at this

theorem shaped_storedText {p : Prediction} (h : p.kind.Allows p.rawText) : p.kind.Shaped (storedText p) :=
  h.shaped

namespace Worded

-- Neither the prediction nor its reading has changed.
theorem of_eq {d' : Dispatch} (h : Worded d) (hq : d'.request = d.request) (hp : d'.prediction = d.prediction)
    (hr : d'.reading = d.reading) : Worded d' :=
  ⟨by rw [hq, hp]; exact h.stops, by rw [hr, hp]; exact h.before, by rw [hp, hr]; exact h.allows,
    by rw [hp]; exact h.stored⟩

theorem read_allows (h : Worded d) : d.prediction.kind.Allows d.prediction.rawText :=
  h.allows.within (List.prefix_append _ _).isInfix

theorem settle (h : Worded d) {stage : GhostText.Stage} {q : List Turn} (hs : Resolves s r d t stage q) :
    Worded { d with prediction := { d.prediction with stage }, watch := .ended } where
  stops  := h.stops
  before := h.before
  allows := h.allows
  stored := by
    intro text time he
    cases hs
    case read =>
      obtain ⟨rfl, _⟩ := GhostText.Stage.finished.inj he
      exact shaped_storedText h.read_allows
    all_goals simp at he

-- The reading has nothing more to read than before.
theorem setReading (h : Worded d) {x : Reading} (hx : x.unread <+: d.reading.unread)
    (hb : x.hasBegun = false → d.prediction.rawText = []) : Worded { d with reading := x } :=
  ⟨h.stops, hb, h.allows.within ((List.prefix_append_right_inj _).mpr hx).isInfix, h.stored⟩

-- What a turn has to read goes on from what has been read before.
theorem hears {delivery : Delivery} {b : Backend} (h : Worded d) (hb : s.backend.honorsStops = true)
    (hh : Hears s r d t delivery b) : d.prediction.kind.Allows (d.prediction.rawText ++ delivery.text) := by
  cases hh
  case atOnce hr hd =>
    rw [h.before (by rw [hr]; rfl)]
    exact Backend.allows_text_answer (b := s.backend.receive d.request) hb h.stops
  case atLast hr =>
    rw [h.before (by rw [hr]; rfl)]
    exact Backend.allows_text_answer hb h.stops
  case rest hr =>
    have := h.allows
    rwa [hr] at this

theorem read {delivery : Delivery} {p : Prediction} {x : Reading} {set? : Option (Nat × Bell)} {budget : Int}
    (h : Worded d) (ha : d.prediction.kind.Allows (d.prediction.rawText ++ delivery.text))
    (hr : Reads budget r d.prediction delivery p x q set?) : Worded { d with prediction := p, reading := x } := by
  cases hr
  case nothing fault => exact h.setReading List.nil_prefix (by simp [Reading.hasBegun])
  case enough chunk rest fault hp =>
    obtain ⟨hk, hs, _⟩ := Prediction.kind_of_read hp
    have hpre : p.rawText <+: d.prediction.rawText ++ Delivery.text ⟨chunk :: rest, fault⟩ := by
      rw [Delivery.text_cons, ← List.append_assoc]
      exact (Prediction.rawText_of_read hp).1.trans (List.prefix_append _ _)
    refine ⟨hk ▸ h.stops, by simp [Reading.hasBegun], ?_, fun text time he => ?_⟩
    case refine_1 => simpa [Reading.unread, hk] using ha.within hpre.isInfix
    case refine_2 => exact hk ▸ h.stored text time (hs ▸ he)
  case chunk chunk rest fault hp hw =>
    obtain ⟨hk, hs, _⟩ := Prediction.kind_of_read hp
    have hx : x.hasBegun = true ∧ x.unread = Delivery.text ⟨rest, fault⟩ := by cases hw <;> exact ⟨rfl, rfl⟩
    refine ⟨hk ▸ h.stops, by simp [hx.1], ?_, fun text time he => ?_⟩
    case refine_1 =>
      rw [Delivery.text_cons, ← List.append_assoc] at ha
      simpa only [hx.2, hk, (Prediction.rawText_of_read hp).2 rfl] using ha
    case refine_2 => exact hk ▸ h.stored text time (hs ▸ he)

theorem wait (h : Worded d) {x : Reading} {set? : Option (Nat × Bell)} (hr : d.reading = .queued)
    (hw : Pauses r none x q set?) : Worded { d with reading := x } := by
  have hx : x.unread = [] := by cases hw <;> rfl
  exact h.setReading (hx ▸ List.nil_prefix) fun _ => h.before (by rw [hr]; rfl)

theorem wake (h : Worded d) {rest? : Option Delivery} (hr : d.reading = .waiting false rest?) :
    Worded { d with reading := .waiting true rest? } := by
  have hx : (Reading.waiting true rest?).unread = d.reading.unread := by rw [hr]; cases rest? <;> rfl
  refine h.setReading (hx ▸ List.prefix_rfl) fun hb => h.before ?_
  rw [hr]
  cases rest? <;> first | rfl | cases hb

theorem does (h : Worded d) (hb : s.backend.honorsStops = true) (he : Does s r t d e) : Worded e.dispatch := by
  cases he
  case settle hs      => exact h.settle hs
  case wait hw hr     => exact h.wait hr hw
  case read hr hh     => exact h.read (h.hears hb hh) hr
  case giveUp         => exact h.setReading List.nil_prefix (by simp [Reading.hasBegun])
  case stopWaiting hr => exact (h.wake hr).of_eq rfl rfl rfl
  case wake hr        => exact h.wake hr
  case retire         => exact ⟨h.stops, h.before, h.allows, by simp⟩
  all_goals exact h.of_eq rfl rfl rfl

end Worded

-- No turn changes whether the backend honours the stop tokens.
theorem Does.honorsStops (h : Does s r t d e) : e.backend.honorsStops = s.backend.honorsStops := by
  cases h
  case read hh => cases hh <;> rfl
  all_goals rfl

structure Legible (s : Service) : Prop where
  honors : s.backend.honorsStops = true
  worded : ∀ d ∈ s.dispatches, Worded d

namespace Legible

theorem touch (h : s.Legible) (ht : Touch s s') : s'.Legible := by
  cases ht
  case apart ha => exact ⟨by rw [ha.backend]; exact h.honors, by rw [ha.dispatches]; exact h.worded⟩
  case stop k   =>
    have hs : (s.cancelRequest k).backend = s.backend := by rw [cancelRequest_eq]
    refine ⟨hs ▸ h.honors, fun d hd => ?_⟩
    obtain ⟨r, hd⟩ := Array.mem_iff_getElem?.mp hd
    rw [getElem?_cancelRequest] at hd
    split at hd
    case isFalse => exact h.worded d (Array.mem_of_getElem? hd)
    case isTrue  =>
      obtain ⟨x, hx, rfl⟩ := Option.map_eq_some_iff.mp hd
      have hx := h.worded x (Array.mem_of_getElem? hx)
      rcases x.stop_cases k with ⟨he, _⟩ | ⟨he, _⟩ | ⟨he, _⟩ | ⟨he, _⟩ <;> rw [he] <;> exact hx.of_eq rfl rfl rfl
  case enlist c i d hd =>
    refine ⟨h.honors, fun x hx => ?_⟩
    rcases Array.mem_push.mp hx with hx | rfl
    case inl => exact h.worded x hx
    case inr => exact hd.worded
  case deed t rest r d e hr hreq hd htd he notices =>
    refine ⟨he.honorsStops.trans h.honors, fun x hx => ?_⟩
    rcases Array.mem_or_eq_of_mem_setIfInBounds hx with hx | rfl
    case inl => exact h.worded x hx
    case inr =>
      exact (h.worded d (Array.mem_of_getElem? hd)).does (s := { s with ready := rest }) h.honors he

end Legible

-- Every backend honours the stop tokens.
def Honoring (_ : Service) : Event → Prop
  | .serve b => b.honorsStops = true
  | _        => True

theorem Honoring.settle (s : Service) (ms : Nat) : Run Honoring s (s.settle ms) :=
  .settle (fun _ => trivial) (fun _ _ _ => trivial) s ms

theorem Legible.reaches {settings : Setup} {backend : Backend} {features : Option LanguageFeatures}
    (hb : backend.honorsStops = true) (h : Run Honoring (start settings backend features) s) : s.Legible := by
  induction h
  case refl => exact ⟨hb, by simp [start, note]⟩
  case step e hr he ih =>
    rcases Touches.after_cases (.reaches hr.reaches) (.reaches hr.reaches) e with ht | ⟨time, rfl⟩ | ⟨b, rfl⟩
    case inl     => exact ht.keeps (fun _ _ h => h.touch) ih
    case inr.inl => exact ⟨ih.honors, ih.worded⟩
    case inr.inr => exact ⟨he, ih.worded⟩

-- Whatever the backend answers, in whatever chunks, a finished prediction has a text of the shape of its kind: on a
-- single line, or on the lines below the cursor's with a single break before and no blank line within.
theorem shaped_insertText {settings : Setup} {backend : Backend} {features : Option LanguageFeatures}
    (hb : backend.honorsStops = true) (h : Run Honoring (start settings backend features) s) :
    ∀ d ∈ s.dispatches, d.prediction.status = .finished → d.prediction.kind.Shaped d.prediction.insertText := by
  intro d hd hs
  have hw := (Legible.reaches hb h).worded d hd
  cases hst : d.prediction.stage
  case finished text time => simpa [Prediction.insertText, hst] using hw.stored text time hst
  all_goals simp [Prediction.status, hst] at hs

-- The answer begins and ends with blanks, and would go on after a blank line.
def ramblingBackend : Backend :=
  { answers := .always "   y = 1 \nz = 2\n\nw = 3".toList, chunkSize := some 4 }

-- A completion was accepted, and the next one goes on below.
def wentOnBelow : Service :=
  let s := (start { debounce := 0, useHints := false } ramblingBackend none).after (.openBuffer ['a'] "x = ".toList)
  let s := (s.after (.provide ['a'] ⟨0, 4⟩)).settle 10
  let s := s.after (.edit ['a'] ⟨⟨0, 4⟩, ⟨0, 4⟩⟩ "y = 1".toList)
  let s := s.after (.free ['a'] ⟨0, 9⟩ none)
  (s.after (.provide ['a'] ⟨0, 9⟩)).settle 10

theorem shaped_insertText_wentOnBelow :
    ramblingBackend.honorsStops = true ∧
      Run Honoring (start { debounce := 0, useHints := false } ramblingBackend none) wentOnBelow ∧
      ∃ d ∈ wentOnBelow.dispatches, d.prediction.kind = .continueBelow ∧
        d.prediction.insertText = "\n y = 1 \nz = 2".toList ∧
        d.prediction.kind.Shaped d.prediction.insertText := by
  have hrun : Run Honoring (start { debounce := 0, useHints := false } ramblingBackend none) wentOnBelow := by
    apply Run.trans ?_ (Honoring.settle _ 10)
    refine .step (.step (.step ?_ trivial) trivial) trivial
    apply Run.trans ?_ (Honoring.settle _ 10)
    exact .step (.step .refl trivial) trivial
  have hd : ∃ d ∈ wentOnBelow.dispatches, d.prediction.status = .finished ∧ d.prediction.kind = .continueBelow ∧
      d.prediction.insertText = "\n y = 1 \nz = 2".toList := by
    decide +kernel
  obtain ⟨d, hd, hf, hk, hi⟩ := hd
  exact ⟨rfl, hrun, d, hd, hk, hi, shaped_insertText rfl hrun d hd hf⟩

end GhostText.Service
