import Mathlib.Logic.Relation
import GhostText.Proofs.Buffer.Positions
import GhostText.Proofs.Service.Answering
import GhostText.Replay.Typing

namespace GhostText.Replay

open Relation
open Service (Run Patient Lasts)

variable {s s' : Service} {t : Typist} {truth rest more text : Text} {c : Char} {accepting : Bool}
  {shown : Option Completion} {completion : Completion}

-- While the typist waits, the service goes on by itself, and those it works with may begin to behave otherwise.
def Waiting (s : Service) (e : Service.Event) : Prop :=
  s.Passing e ∧ s.Timely e

namespace Waiting

theorem exhaust (s : Service) : Run Waiting s s.exhaust :=
  .exhaust (fun _ => ⟨trivial, trivial⟩) (fun _ _ hr => ⟨trivial, hr⟩) s

theorem patient (h : Run Waiting s s') : Run (Patient uri) s s' :=
  h.mono fun s e he => ⟨⟨by rintro rfl; exact he.1, by rintro rfl; exact he.1⟩, he.2, by rintro _ rfl; exact he.1⟩

theorem buffer? (h : Run Waiting s s') (uri : Text) : s'.buffer? uri = s.buffer? uri := by
  induction h
  case refl       => rfl
  case step he ih =>
    refine (Service.buffer?_after ?_ ?_ uri).trans ih
    case refine_1 => rintro _ _ rfl; exact he.1
    case refine_2 => rintro _ _ _ rfl; exact he.1

end Waiting

-- The typist asks, waits for the answer, and goes on with it.
inductive Pass (accepting : Bool) : Typist × Text → Typist × Text → Prop
  | mk {t : Typist} {c : Char} {more : Text} {s : Service} {l : List Completion}
    (hrun : Run Waiting (t.service.provide uri t.position) s) (ha : s.answer? t.service.calls.size = some l) :
    Pass accepting (t, c :: more) ({ t with service := s }.goOn accepting (shown? s t.service.calls.size) c more)

theorem take_append_of_prefix_drop {n : Nat} (h : text <+: truth.drop n) :
    truth.take n ++ text = truth.take (n + text.length) := by
  rw [List.take_add, ← List.prefix_iff_eq_take.mp h]

theorem mem_of_shown? {k : Nat} {l : List Completion} (ha : s.answer? k = some l)
    (hs : shown? s k = some completion) : completion ∈ l := by
  simp only [shown?, ha] at hs
  split at hs
  case h_2   => simp at hs
  case h_1 h =>
    obtain rfl := Option.some.inj h
    split at hs
    case isTrue  => simp at hs
    case isFalse => obtain rfl := Option.some.inj hs; exact List.mem_cons_self

namespace Typist

-- The buffer holds the first part of the text. The typist stands at its end, and the rest is still to be typed.
structure Follows (truth : Text) (t : Typist) (rest : Text) : Prop where
  buffer   : ∃ b, t.service.buffer? uri = some (b, ⟨truth.take t.typed⟩)
  position : t.position = Text.positionAt (truth.take t.typed) t.typed
  typed    : t.typed ≤ truth.length
  rest     : rest = truth.drop t.typed

def acceptedChars (t : Typist) : Nat :=
  total ((t.events.filterMap (·.accepted?)).map List.length)

-- Every character typed and every completion shown is accounted for.
structure Counts (accepting : Bool) (t : Typist) : Prop where
  typed   : t.typed = t.keystrokes + t.acceptedChars
  shown   : t.shown = t.events.length
  refused : accepting = false → ∀ event ∈ t.events, event.accepted? = none

namespace Follows

-- What comes next in the text is put in at the end.
theorem edit (h : t.Follows truth rest) (hr : '\r' ∉ truth) (ht : text <+: rest) :
    (t.edit (.empty t.position) text).Follows truth (rest.drop text.length) := by
  obtain ⟨b, hb⟩ := h.buffer
  obtain ⟨hopened, hget⟩ := Service.buffer?_eq_some_iff.mp hb
  have htyped := h.typed
  have hlen := ht.length_le
  rw [h.rest, List.length_drop] at hlen
  have hlength : (truth.take (t.typed + text.length)).length = t.typed + text.length := by
    rw [List.length_take]; omega
  have hposition : t.position =
      (⟨truth.take t.typed⟩ : Document).positionAt (⟨truth.take t.typed⟩ : Document).text.length := by
    rw [h.position, List.length_take_of_le h.typed]; rfl
  have hedit := Document.insert_positionAt_length ⟨truth.take t.typed⟩ (t := text) fun hm =>
    hr (List.mem_of_mem_drop (ht.mem hm |> (h.rest ▸ ·)))
  rw [← hposition, take_append_of_prefix_drop (h.rest ▸ ht), hlength, Document.insert] at hedit
  simp only [Typist.edit, Service.edit, hb, hedit, Option.getD_some]
  have hlt := (Array.getElem?_eq_some_iff.mp hget).1
  constructor
  case buffer   => exact ⟨b, Service.buffer?_eq_some_iff.mpr ⟨hopened, by simp [hlt]⟩⟩
  case position => rfl
  case typed    => dsimp only; omega
  case rest     => rw [h.rest, List.drop_drop]

theorem press (h : t.Follows truth (c :: more)) (hr : '\r' ∉ truth) : (t.press c).Follows truth more :=
  have h := h.edit hr (show [c] <+: c :: more by simp)
  ⟨h.buffer, h.position, h.typed, h.rest⟩

theorem reject (h : t.Follows truth rest) (completion : Completion) : (t.reject completion).Follows truth rest :=
  ⟨h.buffer, h.position, h.typed, h.rest⟩

-- A completion that is taken begins where the typist stands and replaces nothing.
theorem accept (h : t.Follows truth rest) (hr : '\r' ∉ truth) (hs : completion.span.start = t.position)
    (ha : agrees completion rest) : (t.accept completion).Follows truth (rest.drop completion.text.length) := by
  simp only [agrees, Bool.and_eq_true, Span.isEmpty, decide_eq_true_eq, List.isPrefixOf_iff_prefix] at ha
  have hspan : completion.span = .empty t.position := calc
    completion.span = ⟨completion.span.start, completion.span.stop⟩ := rfl
    _               = .empty t.position                             := by rw [← ha.1.1, hs]; rfl
  have hedit := h.edit hr ha.2
  rw [← hspan] at hedit
  have hfree := Service.buffer?_after (s := (t.edit completion.span completion.text).service)
    (e := .free uri (t.edit completion.span completion.text).position (some completion.prediction.toList))
    (by simp) (by simp) uri
  exact ⟨hfree ▸ hedit.buffer, hedit.position, hedit.typed, hedit.rest⟩

theorem goOn (h : t.Follows truth (c :: more)) (hr : '\r' ∉ truth)
    (hs : ∀ completion, shown = some completion → completion.span.start = t.position) :
    (t.goOn accepting shown c more).1.Follows truth (t.goOn accepting shown c more).2 := by
  have hshown : ({ t with shown := t.shown + 1 } : Typist).Follows truth (c :: more) :=
    ⟨h.buffer, h.position, h.typed, h.rest⟩
  simp only [Typist.goOn]
  split
  case h_1            => exact h.press hr
  case h_2 completion =>
    split
    case isTrue ha => exact hshown.accept hr (hs completion rfl) ha.2
    case isFalse   => exact (hshown.reject completion).press hr

end Follows

namespace Counts

theorem press (h : t.Counts accepting) (c : Char) : (t.press c).Counts accepting where
  typed   := by
    have : t.typed = _ := h.typed
    change t.typed + 1 = t.keystrokes + 1 + t.acceptedChars
    omega
  shown   := h.shown
  refused := h.refused

theorem accept (h : t.Counts true) (completion : Completion) :
    ({ t with shown := t.shown + 1 }.accept completion).Counts true where
  typed   := by
    have : t.typed = _ := h.typed
    change t.typed + completion.text.length = t.keystrokes + (completion.text.length + t.acceptedChars)
    omega
  shown   := congrArg (· + 1) h.shown
  refused := by simp

theorem reject (h : t.Counts accepting) (completion : Completion) :
    ({ t with shown := t.shown + 1 }.reject completion).Counts accepting where
  typed   := h.typed
  shown   := congrArg (· + 1) h.shown
  refused := fun ha => List.forall_mem_cons.mpr ⟨rfl, h.refused ha⟩

theorem goOn (h : t.Counts accepting) : (t.goOn accepting shown c more).1.Counts accepting := by
  simp only [Typist.goOn]
  split
  case h_1            => exact h.press c
  case h_2 completion =>
    split
    case isFalse   => exact (h.reject completion).press c
    case isTrue ha =>
      obtain rfl : accepting = true := ha.1
      exact h.accept completion

end Counts

-- At least one character is typed.
theorem typed_lt_goOn (accepting : Bool) (t : Typist) (shown : Option Completion) (c : Char) (more : Text) :
    t.typed < (t.goOn accepting shown c more).1.typed := by
  simp only [goOn]
  split
  case h_1            => exact Nat.lt_succ_self _
  case h_2 completion =>
    split
    case isFalse   => exact Nat.lt_succ_self _
    case isTrue ha => exact Nat.lt_add_of_pos_right (length_pos_of_agrees ha.2)

theorem run_goOn (h : Run (Patient uri) s t.service) :
    Run (Patient uri) s (t.goOn accepting shown c more).1.service := by
  have hedit {t : Typist} (h : Run (Patient uri) s t.service) (span : Span) (text : Text) :
      Run (Patient uri) s (t.edit span text).service :=
    h.step (e := .edit uri span text) ⟨⟨nofun, nofun⟩, trivial, nofun⟩
  simp only [goOn]
  split
  case h_1            => exact hedit h _ _
  case h_2 completion =>
    split
    case isFalse => exact hedit (t := t.reject completion) h _ _
    case isTrue  =>
      exact (hedit (t := { t with shown := t.shown + 1 }) h _ _).step
        (e := .free uri _ (some completion.prediction.toList)) ⟨⟨nofun, nofun⟩, trivial, nofun⟩

-- What is true of the typist before and after every pass.
structure Sound (settings : Service.Setup) (backend : Backend) (truth : Text) (accepting : Bool) (t : Typist)
    (rest : Text) : Prop where
  run     : Run (Patient uri) (.start settings backend none) t.service
  follows : t.Follows truth rest
  counts  : t.Counts accepting

namespace Sound

variable {settings : Service.Setup} {backend : Backend}

theorem start : (Typist.start (.start settings backend none)).Sound settings backend truth accepting truth where
  run     := Run.refl.step (e := .openBuffer uri []) ⟨⟨nofun, nofun⟩, trivial, nofun⟩
  follows := ⟨⟨0, rfl⟩, rfl, Nat.zero_le _, rfl⟩
  counts  := ⟨rfl, rfl, by simp [Typist.start]⟩

variable (h : t.Sound settings backend truth accepting rest)
include h

theorem run_provide : Run (Patient uri) (.start settings backend none) (t.service.provide uri t.position) :=
  h.run.step (e := .provide uri t.position) ⟨⟨nofun, nofun⟩, trivial, nofun⟩

-- What the typist asks is noted as a call for the place where the typist stands.
theorem asked (hrun : Run Waiting (t.service.provide uri t.position) s) :
    ∃ call : Service.Call, s.calls[t.service.calls.size]? = some call ∧ call.position = t.position := by
  obtain ⟨b, hb⟩ := h.follows.buffer
  have hc : (t.service.provide uri t.position).calls[t.service.calls.size]? =
      some { uri, buffer := b, position := t.position } := by
    simp [Service.provide, hb, Service.queue]
  obtain ⟨_, hc⟩ := (Lasts.run ((Waiting.patient hrun).mono fun _ _ he => he.1)).calls _ _ hc
  exact ⟨_, hc, rfl⟩

theorem wait (hrun : Run Waiting (t.service.provide uri t.position) s) :
    ({ t with service := s } : Typist).Sound settings backend truth accepting rest where
  run     := h.run_provide.trans (Waiting.patient hrun)
  counts  := ⟨h.counts.typed, h.counts.shown, h.counts.refused⟩
  follows := by
    have hb : s.buffer? uri = t.service.buffer? uri :=
      (Waiting.buffer? hrun uri).trans
        (Service.buffer?_after (s := t.service) (e := .provide uri t.position) (by simp) (by simp) uri)
    exact ⟨hb ▸ h.follows.buffer, h.follows.position, h.follows.typed, h.follows.rest⟩

theorem answered (hrun : Run Waiting (t.service.provide uri t.position) s) :
    ∃ l, s.exhaust.answer? t.service.calls.size = some l := by
  obtain ⟨_, hc, _⟩ := h.asked hrun
  exact Service.answered_exhaust (h.run_provide.trans (Waiting.patient hrun)) hc

theorem pass (hr : '\r' ∉ truth) {x : Typist × Text} (hp : Pass accepting (t, rest) x) :
    x.1.Sound settings backend truth accepting x.2 := by
  obtain ⟨hrun, ha⟩ := hp
  have hwait := h.wait hrun
  refine ⟨run_goOn hwait.run, hwait.follows.goOn hr fun completion hs => ?_, hwait.counts.goOn⟩
  obtain ⟨_, hc, hposition⟩ := h.asked hrun
  exact (Service.start_span_of_answer? hwait.run hc ha completion (mem_of_shown? ha hs)).trans hposition

theorem passes (hr : '\r' ∉ truth) {x : Typist × Text} (hp : ReflTransGen (Pass accepting) (t, rest) x) :
    x.1.Sound settings backend truth accepting x.2 := by
  induction hp
  case refl         => exact h
  case tail _ hp ih => exact ih.pass hr hp

-- Every question is answered, so the typist goes on until nothing is left.
theorem type (hr : '\r' ∉ truth) : ReflTransGen (Pass accepting) (t, rest) (t.type accepting rest, []) := by
  induction hn : rest.length using Nat.strong_induction_on generalizing t rest
  case _ n ih =>
    cases rest
    case nil         => rw [Typist.type]
    case cons c more =>
      obtain ⟨l, ha⟩ := h.answered .refl
      have hp : Pass accepting (t, c :: more) _ := .mk (Waiting.exhaust _) ha
      have hlt := length_goOn_lt accepting t.ask.1 t.ask.2 c more
      rw [Typist.type]
      exact .head hp (ih _ (hn ▸ hlt) (h.pass hr hp) rfl)

end Sound
end Typist

theorem length_accepted_add_length_rejected (events : List Event) :
    (events.filterMap (·.accepted?)).length + (events.filterMap (·.rejected?)).length = events.length := by
  induction events
  case nil                  => rfl
  case cons event events ih =>
    cases event
    case accepted =>
      change (events.filterMap (·.accepted?)).length + 1 + (events.filterMap (·.rejected?)).length = events.length + 1
      omega
    case rejected =>
      change (events.filterMap (·.accepted?)).length + ((events.filterMap (·.rejected?)).length + 1) = events.length + 1
      omega

-- The service ends with the typing, and leaves the buffer as it is.
theorem buffer?_dispose_settle (s : Service) (uri : Text) : (s.dispose.settle 0).buffer? uri = s.buffer? uri := by
  have hrun : Run Waiting s.dispose (s.dispose.settle 0) :=
    .settle (fun _ => ⟨trivial, trivial⟩) (fun _ _ hr => ⟨trivial, hr⟩) _ 0
  exact (Waiting.buffer? hrun uri).trans (Service.buffer?_after (e := .dispose) (by simp) (by simp) uri)

-- A text without carriage returns is typed to its end, whatever the model answers and whether or not completions are
-- taken. Every question is answered, and every pass types at least one character.
theorem run_eq_ok (settings : Service.Setup) (backend : Backend) (accepting : Bool) (hr : '\r' ∉ truth) :
    (∃ tally : Tally, (run settings backend accepting truth).1 = .ok tally ∧
      tally.keystrokes + tally.acceptedChars = truth.length ∧ tally.shown = tally.accepted + tally.rejected ∧
      (accepting = false → tally.acceptedChars = 0)) ∧
    ReflTransGen (Pass accepting) (.start (.start settings backend none), truth)
      ((Typist.start (.start settings backend none)).type accepting truth, []) ∧
    ∀ t rest, ReflTransGen (Pass accepting) (.start (.start settings backend none), truth) (t, rest) →
      t.Follows truth rest ∧ t.Counts accepting ∧
      (∀ s, Run Waiting (t.service.provide uri t.position) s →
        ∃ l, s.exhaust.answer? t.service.calls.size = some l) ∧
      ∀ x, Pass accepting (t, rest) x → t.typed < x.1.typed := by
  have hstart : (Typist.start (.start settings backend none)).Sound settings backend truth accepting truth := .start
  have htype := hstart.type hr
  refine ⟨?_, htype, fun t rest hp => ?_⟩
  case refine_2 =>
    have hsound := hstart.passes hr hp
    refine ⟨hsound.follows, hsound.counts, fun s hrun => hsound.answered hrun, fun x hp => ?_⟩
    cases hp
    case mk s _ _ _ => exact Typist.typed_lt_goOn accepting { t with service := s } _ _ _
  case refine_1 =>
    have hend := hstart.passes hr htype
    generalize hs : (Typist.start (.start settings backend none)).type accepting truth = t at hend
    have hle := List.drop_eq_nil_iff.mp hend.follows.rest.symm
    have htyped : t.typed = truth.length := Nat.le_antisymm hend.follows.typed hle
    obtain ⟨b, hb⟩ := hend.follows.buffer
    rw [htyped, List.take_length, ← buffer?_dispose_settle] at hb
    simp only [run, hs, hb]
    refine ⟨_, if_pos trivial, ?_, ?_, fun ha => ?_⟩
    all_goals simp only [Tally.acceptedChars, Tally.accepted, Tally.rejected, Tally.acceptedTexts, Tally.rejectedTexts,
      List.filterMap_reverse, List.map_reverse, total_reverse, List.length_reverse]
    case refine_1 => rw [← htyped, hend.counts.typed]; rfl
    case refine_2 => rw [hend.counts.shown, length_accepted_add_length_rejected]
    case refine_3 => rw [List.filterMap_eq_nil_iff.mpr (hend.counts.refused ha)]; rfl

-- A model that always goes on with the same character. It is right once, and shown four times.
theorem run_eq_ok_abab :
    '\r' ∉ "abab".toList ∧ ∃ tally : Tally,
      (run { debounce := 0, useHints := false } { answers := .always "b".toList } true "abab".toList).1 = .ok tally ∧
        tally.keystrokes + tally.acceptedChars = 4 ∧ tally.acceptedChars = 1 ∧ tally.shown = 4 ∧
        tally.accepted + tally.rejected = 4 := by
  have hr : '\r' ∉ "abab".toList := by decide
  obtain ⟨tally, hrun, hchars, hshown, _⟩ :=
    (run_eq_ok { debounce := 0, useHints := false } { answers := .always "b".toList } true hr).1
  have htally : (run { debounce := 0, useHints := false } { answers := .always "b".toList } true
      "abab".toList).1.toOption.map (fun tally => (tally.acceptedChars, tally.shown)) = some (1, 4) := by
    decide +kernel
  simp only [hrun, Except.toOption, Option.map_some, Option.some.injEq, Prod.mk.injEq] at htally
  exact ⟨hr, tally, hrun, hchars, htally.1, htally.2, hshown ▸ htally.2⟩

end GhostText.Replay
