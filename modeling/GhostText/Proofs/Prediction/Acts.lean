import GhostText.Prediction.Waiting

namespace GhostText

variable {w : Watched} {p : Prediction} {r : RequestResult} {t : Nat}

namespace Prediction

theorem status_eq_pending_iff : p.status = .pending ↔ p.result? = none := by
  cases h : p.stage <;> simp [status, result?, h]

theorem result?_eq_none_iff : p.result? = none ↔ p.completedAt? = none := by
  cases h : p.stage <;> simp [result?, completedAt?, h]

theorem isPending_iff : p.isPending ↔ p.result? = none := by
  cases h : p.stage <;> simp [isPending, result?, h]

theorem isPending_eq_false_iff : p.isPending = false ↔ ∃ r, p.result? = some r := by
  cases h : p.stage <;> simp [isPending, result?, h]

theorem result?_of_finished (h : p.status = .finished) :
    p.result? = some { outcome := .success, text := p.insertText } := by
  cases hs : p.stage <;> simp_all [status, result?, insertText]

theorem result?_of_failed (h : p.status = .failed) : ∃ r, p.result? = some r ∧ r.ok = false ∧ p.insertText = [] := by
  cases hs : p.stage <;> simp_all [status, result?, insertText, RequestResult.ok]

end Prediction

namespace Watched

-- What can be done at any time. To advance is only to let time pass here: turns are taken one by one.
inductive Act
  | finish (text : Text) (time : Int)
  | fail (outcome : Outcome) (message : Text) (time : Int)
  | read (chunk : Text) (budget : Int)
  | cancel
  | attach
  | wait (name : Text)
  | stop (t : Nat)
  | turn
  | pass (ms : Nat)
deriving DecidableEq

def Act.isWait : Act → Bool
  | .wait _ => true
  | _       => false

def perform (w : Watched) : Act → Watched
  | .finish text time => (w.finish text time).1
  | .fail outcome message time =>
    match w.fail outcome message time with
    | .ok (w, _) => w
    | .error _   => w
  | .read chunk budget => (w.read chunk budget).1
  | .cancel    => w.cancel
  | .attach    => w.attach
  | .wait name => w.wait name
  | .stop t    => (w.stop t).1
  | .turn      => w.step
  | .pass ms   => { w with now := w.now + ms }

def performAll (w : Watched) (acts : List Act) : Watched :=
  acts.foldl perform w

-- To let everything happen is to take enough turns.
theorem run_eq_performAll (n : Nat) (w : Watched) : run n w = w.performAll (List.replicate n .turn) := by
  induction n generalizing w
  case zero      => rfl
  case succ n ih => exact ih w.step

section Parts

variable (w : Watched) (t : Nat) (x : Wait) (n : Turn)

@[simp] theorem prediction_queue : (w.queue n).prediction = w.prediction := rfl

@[simp] theorem waits_queue : (w.queue n).waits = w.waits := rfl

@[simp] theorem ready_queue : (w.queue n).ready = w.ready ++ [n] := rfl

@[simp] theorem prediction_setWait : (w.setWait t x).prediction = w.prediction := rfl

@[simp] theorem waits_setWait : (w.setWait t x).waits = w.waits.setIfInBounds t x := rfl

@[simp] theorem ready_setWait : (w.setWait t x).ready = w.ready := rfl

end Parts

@[simp] theorem waits_resolve (w : Watched) (p : Prediction) : (w.resolve p).waits = w.waits := by
  unfold resolve
  split <;> rfl

@[simp] theorem prediction_resolve (w : Watched) (p : Prediction) : (w.resolve p).prediction = p := by
  unfold resolve
  split <;> rfl

section Settling

-- A pending prediction takes the result, and one that is settled is left as it is.

theorem finish_of_pending (h : w.prediction.isPending = true) (text : Text) (time : Int) :
    w.finish text time = (w.resolve { w.prediction with stage := .finished text time }, true) := by
  simp only [finish, Prediction.finish?, if_pos h]

theorem finish_of_settled (h : w.prediction.isPending = false) (text : Text) (time : Int) :
    w.finish text time = (w, false) := by
  simp [finish, Prediction.finish?, h]

theorem fail_of_pending (h : w.prediction.isPending = true) (cause : Failure) (message : Text) (time : Int) :
    w.fail (.failure cause) message time =
      .ok (w.resolve { w.prediction with stage := .failed cause message time }, true) := by
  simp only [fail, Outcome.cause, Prediction.fail?, if_pos h]
  rfl

theorem fail_of_settled (h : w.prediction.isPending = false) (cause : Failure) (message : Text) (time : Int) :
    w.fail (.failure cause) message time = .ok (w, false) := by
  simp only [fail, Outcome.cause, Prediction.fail?, h]
  rfl

theorem fail_success (w : Watched) (message : Text) (time : Int) :
    w.fail .success message time = .error .needsFailure :=
  rfl

end Settling

-- What an act can do, told apart by what it touches.
inductive Effect (w : Watched) : Act → Watched → Prop
  | idle {a : Act} {w' : Watched} (hp : w'.prediction.stage = w.prediction.stage) (hf : w'.future = w.future)
      (hw : w'.waits = w.waits) (hr : w'.ready = w.ready) (ha : ∀ t, a = .stop t → (w.stop t).2 = false) : Effect w a w'
  | resolve {a : Act} (p : Prediction) (hw : w.prediction.isPending) (hp : p.isPending = false)
      (ha : ∀ t, a ≠ .stop t) : Effect w a (w.resolve p)
  | wait (name : Text) : Effect w (.wait name) (w.wait name)
  | stop (t : Nat) (h : (w.stop t).2 = true) : Effect w (.stop t) (w.stop t).1
  | turn (n : Turn) (rest : List Turn) (h : w.ready = n :: rest) :
      Effect w .turn ({ w with ready := rest }.takeTurn n)

theorem stop_eq_self (h : (w.stop t).2 = false) : (w.stop t).1 = w := by
  unfold stop at h ⊢
  split at h <;> simp_all

theorem effect_perform (w : Watched) (a : Act) : Effect w a (w.perform a) := by
  have idle {a : Act} {w' : Watched} (ha : ∀ t, a ≠ .stop t) (hp : w'.prediction.stage = w.prediction.stage)
      (hf : w'.future = w.future) (hw : w'.waits = w.waits) (hr : w'.ready = w.ready) : Effect w a w' :=
    Effect.idle hp hf hw hr fun t h => absurd h (ha t)
  cases a
  case finish text time =>
    cases hp : w.prediction.isPending
    case true =>
      simp only [perform, finish_of_pending hp]
      exact .resolve _ hp rfl (by simp)
    case false =>
      simp only [perform, finish_of_settled hp]
      exact idle (by simp) rfl rfl rfl rfl
  case fail outcome message time =>
    cases outcome
    case success =>
      simp only [perform, fail_success]
      exact idle (by simp) rfl rfl rfl rfl
    case failure cause =>
      cases hp : w.prediction.isPending
      case true =>
        simp only [perform, fail_of_pending hp]
        exact .resolve _ hp rfl (by simp)
      case false =>
        simp only [perform, fail_of_settled hp]
        exact idle (by simp) rfl rfl rfl rfl
  case read chunk budget =>
    refine idle (by simp) ?_ rfl rfl rfl
    simp only [perform, read, Prediction.read]
    split <;> rfl
  case cancel =>
    simp only [perform, cancel]
    split
    case h_1 => exact idle (by simp) rfl rfl rfl rfl
    case h_2 => split <;> exact idle (by simp) rfl rfl rfl rfl
  case attach    => exact idle (by simp) rfl rfl rfl rfl
  case wait name => exact .wait name
  case stop t =>
    cases h : (w.stop t).2
    case false =>
      rw [perform, stop_eq_self h]
      exact .idle rfl rfl rfl rfl fun u hu => by cases hu; exact h
    case true => exact .stop t h
  case turn =>
    cases h : w.ready
    case nil =>
      simp only [perform, step, h]
      exact idle (by simp) rfl rfl rfl rfl
    case cons n rest =>
      simp only [perform, step, h]
      exact .turn n rest h
  case pass ms => exact idle (by simp) rfl rfl rfl rfl

@[simp] theorem prediction_start (w : Watched) (t : Nat) (x : Wait) : (w.start t x).prediction = w.prediction := by
  unfold start
  split <;> try rfl
  split <;> rfl

@[simp] theorem prediction_relay (w : Watched) (t : Nat) (x : Wait) : (w.relay t x).prediction = w.prediction := by
  unfold relay
  split <;> rfl

@[simp] theorem prediction_resume (w : Watched) (t : Nat) (x : Wait) : (w.resume t x).prediction = w.prediction := by
  unfold resume
  split <;> try rfl
  split <;> rfl

@[simp] theorem prediction_takeTurn (w : Watched) (n : Turn) : (w.takeTurn n).prediction = w.prediction := by
  cases n <;> simp only [takeTurn, withWait] <;> split <;> simp

@[simp] theorem prediction_stop (w : Watched) (t : Nat) : (w.stop t).1.prediction = w.prediction := by
  unfold stop
  split <;> rfl

-- What is settled stays so.
theorem stage_perform (h : w.prediction.isPending = false) (a : Act) :
    (w.perform a).prediction.stage = w.prediction.stage := by
  have he := effect_perform w a
  generalize w.perform a = w' at he ⊢
  cases he
  case idle hp _ _ _    => exact hp
  case resolve p hw _ _ => simp [h] at hw
  case wait             => rfl
  case stop             => rw [prediction_stop]
  case turn             => rw [prediction_takeTurn]

theorem stage_performAll (h : w.prediction.isPending = false) (acts : List Act) :
    (w.performAll acts).prediction.stage = w.prediction.stage := by
  induction acts generalizing w
  case nil => rfl
  case cons a acts ih =>
    have ha := stage_perform h a
    have hs : (w.perform a).prediction.isPending = false := by simpa only [Prediction.isPending, ha] using h
    exact (ih hs).trans ha

end Watched
end GhostText
