import GhostText.Proofs.Service.Mirrors

namespace GhostText

open Service

variable {ρ : Renaming}

namespace Prediction.Same

variable {p q : Prediction} (h : p.Same ρ q)
include h

theorem id? : ρ.id? p.id = some q.id := by
  obtain ⟨_, hid, rfl⟩ := h
  exact hid

theorem isPending : q.isPending = p.isPending := by
  obtain ⟨_, _, rfl⟩ := h
  rfl

theorem status : q.status = p.status := by
  obtain ⟨_, _, rfl⟩ := h
  rfl

theorem result? : q.result? = p.result? := by
  obtain ⟨_, _, rfl⟩ := h
  rfl

theorem before : q.before = p.before := by
  obtain ⟨_, _, rfl⟩ := h
  rfl

theorem insertText : q.insertText = p.insertText := by
  obtain ⟨_, _, rfl⟩ := h
  rfl

theorem storedText : Service.storedText q = Service.storedText p := by
  obtain ⟨_, _, rfl⟩ := h
  rfl

theorem setStage (stage : GhostText.Stage) : ({ p with stage } : Prediction).Same ρ { q with stage } := by
  obtain ⟨id, hid, rfl⟩ := h
  exact ⟨id, hid, rfl⟩

theorem read (chunk : Text) (budget : Int) :
    (p.read chunk budget).1.Same ρ (q.read chunk budget).1 ∧ (q.read chunk budget).2 = (p.read chunk budget).2 := by
  obtain ⟨id, hid, rfl⟩ := h
  simp only [Prediction.read]
  split
  case isTrue  => exact ⟨⟨id, hid, rfl⟩, rfl⟩
  case isFalse => exact ⟨⟨id, hid, rfl⟩, rfl⟩

end Prediction.Same

namespace Service

variable {uri : Text} {s t : Service} {r k : Nat} {d d' : Dispatch} {p p' : Prediction}

theorem answer_of_steady {b : Backend} (h : b.answers.Steady) (q : FillRequest) : (b.answer q).2 = b := by
  simp only [Backend.answer, h q]

namespace Mirrors

variable (h : Mirrors ρ uri s t)
include h

-- What the backends have been asked does not matter.
theorem receive (q q' : FillRequest) :
    Mirrors ρ uri { s with backend := s.backend.receive q } { t with backend := t.backend.receive q' } := by
  refine { h with backend := ?_ }
  rw [h.backend]
  rfl

variable (hr : ρ.number r = some k) (hd : d.Same ρ d')
include hr hd

theorem setReading (x : Reading) :
    Mirrors ρ uri (s.setDispatch r { d with reading := x }) (t.setDispatch k { d' with reading := x }) :=
  h.setDispatch hr { hd with reading := rfl }

theorem setWatch (x : Watch) :
    Mirrors ρ uri (s.setDispatch r { d with watch := x }) (t.setDispatch k { d' with watch := x }) :=
  h.setDispatch hr { hd with watch := rfl }

theorem conclude (hp : p.Same ρ p') : Mirrors ρ uri (s.conclude r d p) (t.conclude k d' p') := by
  have hset : Mirrors ρ uri (s.setDispatch r { d with prediction := p, watch := .ended })
      (t.setDispatch k { d' with prediction := p', watch := .ended }) :=
    h.setDispatch hr { hd with prediction := hp, watch := rfl }
  have htold := (hset.dropAlarm (.deadline hr)).relayAll hr
  simp only [Service.conclude, hp.result?]
  split
  case h_1 => exact htold
  case h_2 => exact (htold.count _ _).noteAll _ _

theorem fail (cause : Failure) (message : Text) :
    Mirrors ρ uri (s.fail r d cause message) (t.fail k d' cause message) := by
  simp only [Service.fail, Prediction.fail?, hd.prediction.isPending, h.now]
  cases d.prediction.isPending
  case false => exact h.conclude hr hd hd.prediction
  case true  => exact h.conclude hr hd (hd.prediction.setStage _)

theorem finish : Mirrors ρ uri (s.finish r d) (t.finish k d') := by
  simp only [Service.finish, Prediction.finish?, hd.prediction.isPending, hd.prediction.storedText, h.now]
  cases d.prediction.isPending
  case false => exact h.conclude hr hd hd.prediction
  case true  => exact h.conclude hr hd (hd.prediction.setStage _)

theorem failWith (fault : Fault) : Mirrors ρ uri (s.failWith r d fault) (t.failWith k d' fault) := by
  simp only [Service.failWith]
  split
  case h_1 => exact h.fail hr hd _ _
  case h_2 => exact (h.note _ _).fail hr hd _ _

theorem endReading (fault : Option Fault) : Mirrors ρ uri (s.endReading r d fault) (t.endReading k d' fault) :=
  (h.setReading hr hd _).queue (.readingOver hr)

theorem pauseReading (rest? : Option Delivery) (pause : Nat) :
    Mirrors ρ uri (s.pauseReading r d rest? pause) (t.pauseReading k d' rest? pause) := by
  simp only [Service.pauseReading]
  split
  case h_1 => exact (h.setReading hr hd _).queue (.resumeReading hr)
  case h_2 => exact (h.setReading hr hd _).setAlarm _ (.answer hr)

theorem readDelivery (delivery : Delivery) :
    Mirrors ρ uri (s.readDelivery r d delivery) (t.readDelivery k d' delivery) := by
  simp only [Service.readDelivery, h.settings]
  split
  case h_1 fault => exact h.endReading hr hd fault
  case h_2 chunk rest fault =>
    obtain ⟨hp, he⟩ := hd.prediction.read chunk.text s.settings.breakBudget
    generalize d.prediction.read chunk.text s.settings.breakBudget = x at hp he ⊢
    generalize d'.prediction.read chunk.text s.settings.breakBudget = y at hp he ⊢
    obtain ⟨p, enough⟩ := x
    obtain ⟨p', enough'⟩ := y
    obtain rfl : enough' = enough := he
    have hd : ({ d with prediction := p } : Dispatch).Same ρ { d' with prediction := p' } :=
      { hd with prediction := hp }
    cases enough'
    case true  => exact (h.note _ _).endReading hr hd none
    case false => exact h.pauseReading hr hd (some ⟨rest, fault⟩) chunk.pause

theorem receiveAnswer : Mirrors ρ uri (s.receiveAnswer r d) (t.receiveAnswer k d') := by
  have ht : t.backend.answers.Steady := by
    rw [h.backend]
    exact h.steady
  have hanswer : (t.backend.answer d'.request).1 = (s.backend.answer d.request).1 := by
    rw [hd.request, h.backend]
    rfl
  simp only [Service.receiveAnswer, answer_of_steady ht, answer_of_steady h.steady, hanswer]
  exact (h.noteAll _ _).readDelivery hr hd _

theorem awaitAnswer (delay : Option Nat) : Mirrors ρ uri (s.awaitAnswer r d delay) (t.awaitAnswer k d' delay) := by
  simp only [Service.awaitAnswer]
  split
  case h_1       => exact h.receiveAnswer hr hd
  case h_2 delay => exact h.pauseReading hr hd none delay

theorem startReading : Mirrors ρ uri (s.startReading r d) (t.startReading k d') := by
  have hdelay : t.backend.delay = s.backend.delay := by rw [h.backend]
  simp only [Service.startReading, hd.reading, hdelay]
  split
  case h_2 => exact h
  case h_1 => exact (h.receive _ _).awaitAnswer hr hd _

theorem giveUp : Mirrors ρ uri (s.giveUp r d) (t.giveUp k d') := by
  have hgiven : Mirrors ρ uri { s with backend := s.backend.giveUp } { t with backend := t.backend.giveUp } := by
    refine { h with backend := ?_ }
    rw [h.backend]
    rfl
  exact hgiven.endReading hr hd none

theorem resumeReading : Mirrors ρ uri (s.resumeReading r d) (t.resumeReading k d') := by
  have hgoes : d'.goesOn = d.goesOn := by simp only [Dispatch.goesOn, hd.watch]
  simp only [Service.resumeReading, hd.reading, hgoes]
  split
  case h_3 => exact h
  case h_1 =>
    split
    case isTrue  => exact h.receiveAnswer hr hd
    case isFalse => exact h.giveUp hr hd
  case h_2 rest _ =>
    split
    case isTrue  => exact h.readDelivery hr hd rest
    case isFalse => exact h.giveUp hr hd

theorem wake : Mirrors ρ uri (s.wake r d) (t.wake k d') := by
  simp only [Service.wake, hd.reading]
  split
  case h_1 => exact ((h.setReading hr hd _).dropAlarm (.answer hr)).queue (.resumeReading hr)
  case h_2 => exact h.setDispatch hr hd

theorem rouse : Mirrors ρ uri (s.rouse r d) (t.rouse k d') := by
  simp only [Service.rouse, hd.watch]
  split
  case h_1 => exact (h.setWatch hr hd _).queue (.resumeRequest hr)
  case h_2 => exact (h.setWatch hr hd _).queue (.resumeRequest hr)
  case h_3 => exact h.setDispatch hr hd

theorem watchOver : Mirrors ρ uri (s.watchOver r d) (t.watchOver k d') := by
  simp only [Service.watchOver, h.settings]
  exact ((h.setAlarm _ (.deadline hr)).setWatch hr hd _).queue (.startReading hr)

theorem startRequest : Mirrors ρ uri (s.startRequest r d) (t.startRequest k d') := by
  simp only [Service.startRequest, hd.watch, hd.cancelled, h.settings]
  split
  case h_2 => exact h
  case h_1 =>
    split
    case isTrue  =>
      refine (h.setDispatch hr ?_).queue (.retire hr)
      exact { hd with watch := rfl, cancelled := rfl }
    case isFalse =>
      split
      case isTrue  => exact h.failWith hr hd .endless
      case isFalse => exact h.watchOver hr hd

theorem settleRead (fault : Option Fault) : Mirrors ρ uri (s.settleRead r d fault) (t.settleRead k d' fault) := by
  cases fault
  case none       => exact h.finish hr hd
  case some fault => exact h.failWith hr hd fault

theorem settleUnread : Mirrors ρ uri (s.settleUnread r d) (t.settleUnread k d') := by
  simp only [Service.settleUnread, hd.cancelled]
  split
  case isTrue  => exact (h.fail hr hd _ _).queue (.retire hr)
  case isFalse => exact h.fail hr hd _ _

theorem resumeRequest : Mirrors ρ uri (s.resumeRequest r d) (t.resumeRequest k d') := by
  simp only [Service.resumeRequest, hd.watch, hd.reading]
  split
  case h_3 => exact h
  case h_2 => exact h.settleUnread hr hd
  case h_1 =>
    split
    case h_1 fault _ => exact h.settleRead hr hd fault
    case h_2         =>
      refine h.wake hr ?_
      exact { hd with watch := rfl, reading := rfl }

theorem retire : Mirrors ρ uri (s.retire r d) (t.retire k d') := by
  simp only [Service.retire, Prediction.fail?, hd.prediction.isPending, h.now]
  cases d.prediction.isPending
  case false => exact h.note _ _
  case true  =>
    refine (h.setDispatch hr ?_).relayAll hr
    exact { hd with prediction := hd.prediction.setStage _ }

omit hd

theorem expire : Mirrors ρ uri (s.expire r) (t.expire k) := by
  obtain ⟨d, d', hs, ht, hd⟩ := h.dispatches.found r k hr
  simp only [Service.expire, hs, ht, hd.watch]
  split
  case isTrue  => exact h.rouse hr hd
  case isFalse => exact h

theorem answerComes : Mirrors ρ uri (s.answerComes r) (t.answerComes k) := by
  obtain ⟨d, d', hs, ht, hd⟩ := h.dispatches.found r k hr
  simp only [Service.answerComes, hs, ht]
  exact h.wake hr hd

end Mirrors
end Service
end GhostText
