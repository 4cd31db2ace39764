import GhostText.Service.Editor
import GhostText.Service.Settling

namespace GhostText.Service

inductive Event
  -- the turn that waits longest is taken
  | turn
  | advance (time : Nat)
  | openBuffer (uri t : Text)
  | edit (uri : Text) (span : Span) (t : Text)
  | provide (uri : Text) (position : Position)
  | cancel (c : Nat)
  | free (uri : Text) (position : Position) (shown : Option (List Int))
  | close (uri : Text)
  | dispose
  -- from now on the backend and the language features are these
  | serve (b : Backend)
  | assist (f : LanguageFeatures)

def takeNext (s : Service) : Service :=
  match s.ready with
  | []        => s
  | t :: rest => { s with ready := rest }.takeTurn t

def after (s : Service) : Event → Service
  | .turn                    => s.takeNext
  | .advance time            => s.advanceTo time
  | .openBuffer uri t        => s.openBuffer uri t
  | .edit uri span t         => (s.edit uri span t).1
  | .provide uri position    => s.provide uri position
  | .cancel c                => (s.cancelCall c).1
  | .free uri position shown => (s.free uri position shown).1
  | .close uri               => s.close uri
  | .dispose                 => s.dispose
  | .serve b                 => { s with backend := b }
  | .assist f                => { s with features := s.features.map fun _ => f }

-- From one state to another by events that are allowed in the states they meet.
inductive Run (allowed : Service → Event → Prop) (s : Service) : Service → Prop
  | refl : Run allowed s s
  | step {t : Service} {e : Event} (run : Run allowed s t) (h : allowed t e) : Run allowed s (t.after e)

-- By any events at all.
def Reaches : Service → Service → Prop :=
  Run fun _ _ => True

variable {s t u : Service} {allowed : Service → Event → Prop}

theorem Run.trans (h₁ : Run allowed s t) (h₂ : Run allowed t u) : Run allowed s u := by
  induction h₂
  case refl           => exact h₁
  case step _ _ ha ih => exact .step ih ha

theorem Run.mono {allowed' : Service → Event → Prop} (h : Run allowed s t) (ha : ∀ s e, allowed s e → allowed' s e) :
    Run allowed' s t := by
  induction h
  case refl           => exact .refl
  case step _ _ he ih => exact ih.step (ha _ _ he)

section Settling

-- The service goes on by itself. The clock stands still while a turn is due.
variable (hturn : ∀ s, allowed s .turn) (hadvance : ∀ s time, s.ready = [] → allowed s (.advance time))
include hturn hadvance

theorem Run.step? {limit : Option Nat} (h : s.step? limit = some t) : Run allowed s t := by
  simp only [Service.step?] at h
  split at h
  case h_1 turn rest hr =>
    obtain rfl := Option.some.inj h
    have := Run.refl.step (hturn s)
    rwa [Service.after, takeNext, hr] at this
  case h_2 hr =>
    split at h
    case h_1 => contradiction
    case h_2 time _ =>
      split at h
      case isTrue  => exact Option.some.inj h ▸ Run.refl.step (hadvance s time hr)
      case isFalse => contradiction

theorem Run.run (fuel : Nat) (limit : Option Nat) (s : Service) : Run allowed s (Service.run fuel limit s) := by
  induction fuel generalizing s
  case zero      => exact .refl
  case succ n ih =>
    simp only [Service.run]
    split
    case h_1   => exact .refl
    case h_2 h => exact (Run.step? hturn hadvance h).trans (ih _)

theorem Run.exhaust (s : Service) : Run allowed s s.exhaust :=
  Run.run hturn hadvance s.work none s

theorem Run.settle (s : Service) (ms : Nat) : Run allowed s (s.settle ms) := by
  refine (Run.run hturn hadvance s.work (some (s.now + ms)) s).step (hadvance _ (s.now + ms) ?_)
  exact (step?_eq_none_iff.mp (step?_run_eq_none _ (Nat.le_refl _))).1

end Settling

namespace Reaches

theorem refl (s : Service) : s.Reaches s :=
  Run.refl

theorem trans (h₁ : s.Reaches t) (h₂ : t.Reaches u) : s.Reaches u :=
  Run.trans h₁ h₂

theorem after (h : s.Reaches t) (e : Event) : s.Reaches (t.after e) :=
  .step h trivial

-- What holds at first and is kept by every event holds all along.
theorem induct {P : Service → Prop} (h : s.Reaches t) (h₀ : P s) (hs : ∀ s e, P s → P (s.after e)) : P t := by
  induction h
  case refl          => exact h₀
  case step _ _ _ ih => exact hs _ _ ih

theorem settle (s : Service) (ms : Nat) : s.Reaches (s.settle ms) :=
  Run.settle (fun _ => trivial) (fun _ _ _ => trivial) s ms

end Reaches

theorem Run.reaches (h : Run allowed s t) : s.Reaches t := by
  induction h
  case refl          => exact .refl s
  case step e _ _ ih => exact ih.after e

end GhostText.Service
