import Mathlib.Data.List.Nodup
import GhostText.Proofs.Match.Pending
import GhostText.Proofs.Service.Closing
import GhostText.Proofs.Service.Waiting

namespace GhostText.Service

open Text (normalForm)

variable {s s' : Service} {c i k : Nat} {cursor : Cursor} {session : Session}

-- The normal form of the text that a prediction was made for.
def form? (s : Service) (k : Nat) : Option Text :=
  (s.prediction? k).map fun p => normalForm p.before

theorem form?_of_made (h : s'.dispatches[k]?.map Dispatch.made = s.dispatches[k]?.map Dispatch.made) :
    s'.form? k = s.form? k := by
  have := congrArg (Option.map fun x : Nat × Nat × Prediction => normalForm x.2.2.before) h
  rw [Option.map_map, Option.map_map] at this
  rwa [form?, prediction?, form?, prediction?, Option.map_map, Option.map_map]

-- The latest call that waits has a text for which nothing is kept.
structure Distinct (s : Service) : Prop where
  unaided : s.Unaided
  counted : s.Counted
  kept    : ∀ i, ((s.kept i).map s.form?).Nodup
  latest  : ∀ c i cursor, s.Latest c i cursor → some (normalForm cursor.before) ∉ (s.kept i).map s.form?

namespace Distinct

theorem ease (h : s.Distinct) (he : Eases s s') (hu : s'.Unaided) (hc : s'.Counted) : s'.Distinct := by
  have hform : s'.form? = s.form? := funext fun k => form?_of_made (he.dispatches k)
  refine ⟨hu, hc, fun i => ?_, fun c i cursor hl hm => ?_⟩ <;> rw [hform] at *
  case refine_1 => exact ((he.kept i).map s.form?).nodup (h.kept i)
  case refine_2 => exact h.latest c i cursor (he.latest h.unaided.sound hl) (((he.kept i).map s.form?).mem hm)

-- Nothing that is kept applies to the text of the call that comes to wait.
theorem wait (h : s.Distinct) {c i : Nat} (hw : Waits c i cursor s s') (hu : s'.Unaided) (hc : s'.Counted) :
    s'.Distinct := by
  have hform : s'.form? = s.form? := funext fun k => form?_of_made (by rw [hw.dispatches])
  refine ⟨hu, hc, fun j => by rw [hw.kept, hform]; exact h.kept j, fun k j cursor' hl hm => ?_⟩
  rw [hw.kept, hform] at hm
  rcases hw.latest_cases h.unaided.sound hl with ⟨_, rfl, rfl⟩ | ⟨_, hl⟩
  case inr => exact h.latest k j cursor' hl hm
  case inl =>
    obtain ⟨k, hk, hform⟩ := List.mem_map.mp hm
    obtain ⟨p, hp, hn⟩ := Option.map_eq_some_iff.mp hform
    exact Bounds.match?_ne_none_of_normalForm_eq hn.symm p.insertText (hw.missed k hk p hp)

-- The latest call adds a prediction for its own text, and is not the latest any more.
theorem post (h : s.Distinct) (hl : s.Latest c i cursor) (hp : Posts c i cursor s s') (hu : s'.Unaided)
    (hc : s'.Counted) : s'.Distinct := by
  have hold {j k : Nat} (hk : k ∈ s.kept j) : s'.form? k = s.form? k := by
    obtain ⟨d, hd, _⟩ := h.unaided.sound.kept j k hk
    exact form?_of_made (hp.old k (Nat.ne_of_lt (Array.getElem?_eq_some_iff.mp hd).1))
  have hmap (j : Nat) : (s.kept j).map s'.form? = (s.kept j).map s.form? := List.map_congr_left fun k hk => hold hk
  have hnew : s'.form? s.dispatches.size = some (normalForm cursor.before) := by
    obtain ⟨d, hd, _, _, hb, _⟩ := hp.new
    rw [form?, prediction?, hd, Option.map_some, Option.map_some, hb]
  refine ⟨hu, hc, fun j => ?_, fun k j cursor' hl' hm => ?_⟩
  case refine_1 =>
    refine ((hp.kept j).map s'.form?).nodup ?_
    split
    case isFalse    => rw [hmap]; exact h.kept j
    case isTrue hji =>
      subst hji
      rw [List.map_append, List.map_singleton, hmap, hnew]
      refine List.nodup_append.mpr ⟨h.kept j, List.nodup_singleton _, ?_⟩
      rintro _ ha _ hb rfl
      exact h.latest c j cursor hl (List.mem_singleton.mp hb ▸ ha)
  case refine_2 =>
    obtain ⟨_, hji, hl'⟩ := hp.latest h.unaided.sound h.counted hl hl'
    have hkept := hp.kept j
    rw [if_neg hji] at hkept
    exact h.latest k j cursor' hl' (hmap j ▸ (hkept.map s'.form?).mem hm)

theorem after (h : s.Distinct) (e : Event) : (s.after e).Distinct := by
  have hu := h.unaided.after e
  have hc := h.counted.after h.unaided e
  generalize hs' : s.after e = s' at hu hc
  have hpopped (rest : List Turn) : ({ s with ready := rest } : Service).Distinct :=
    ⟨h.unaided.popped, h.counted, h.kept, h.latest⟩
  cases hs' ▸ h.unaided.happens e
  case ease he           => exact h.ease he hu hc
  case wait rest _ hw    => exact (hpopped rest).wait hw hu hc
  case post rest _ hl hp => exact (hpopped rest).post hl hp hu hc

variable {settings : Setup} {backend : Backend}

theorem start : (start settings backend none).Distinct where
  unaided := .start
  counted := .run (Reaches.refl _)
  kept    := fun i => by simp [Service.start, note, Service.kept]
  latest  := fun c i cursor hl => by simp [Latest, Service.start, note] at hl

theorem reaches (h : (Service.start settings backend none).Reaches s) : s.Distinct :=
  h.induct start fun _ e hs => hs.after e

end Distinct

theorem map_predictionsIn_sublist (s : Service) (session : Session) :
    ((s.predictionsIn session).map fun x => some (normalForm x.2.before)).Sublist (session.cache.keys.map s.form?) := by
  simp only [predictionsIn]
  induction session.cache.keys
  case nil            => exact .refl _
  case cons k keys ih =>
    cases hk : s.prediction? k
    case none   => simpa [hk] using ih.cons (s.form? k)
    case some p => simpa [hk, form?] using ih

variable {settings : Setup} {backend : Backend}

-- Whatever happens, no two predictions that a session keeps were made for the same text in normal form.
theorem nodup_normalForm (h : (start settings backend none).Reaches s) (hi : s.sessions[i]? = some session) :
    ((s.predictionsIn session).map fun x => normalForm x.2.before).Nodup := by
  have hk : ((s.kept i).map s.form?).Nodup := (Distinct.reaches h).kept i
  rw [kept, hi, Option.map_some, Option.getD_some] at hk
  have := (map_predictionsIn_sublist s session).nodup hk
  refine List.Nodup.of_map some ?_
  rwa [List.map_map]

-- Calls in two lines, and a third one that adds nothing to the text of the first.
def askedTwice : Service :=
  let s := (start { debounce := 0, useHints := false } lateBackend none).after (.openBuffer ['a'] "x = \ny =  ".toList)
  [⟨0, 4⟩, ⟨1, 4⟩, ⟨1, 5⟩].foldl (fun s position => (s.after (.provide ['a'] position)).settle 0) s

theorem reaches_askedTwice : (start { debounce := 0, useHints := false } lateBackend none).Reaches askedTwice :=
  let hfirst := (((Reaches.refl _).after _).after _).trans (.settle _ 0)
  ((hfirst.after _).trans (.settle _ 0) |>.after _).trans (.settle _ 0)

-- Three calls wait for two predictions.
theorem nodup_normalForm_askedTwice :
    ∃ session, askedTwice.sessions[0]? = some session ∧ askedTwice.calls.size = 3 ∧
      (askedTwice.predictionsIn session).map (·.1) = [0, 1] ∧
        ((askedTwice.predictionsIn session).map fun x => normalForm x.2.before).Nodup := by
  have hs : askedTwice.sessions[0]?.map (fun session => (askedTwice.predictionsIn session).map (·.1)) =
      some [0, 1] := by
    decide +kernel
  obtain ⟨session, hi, hk⟩ := Option.map_eq_some_iff.mp hs
  exact ⟨session, hi, by decide +kernel, hk, nodup_normalForm reaches_askedTwice hi⟩

end GhostText.Service
