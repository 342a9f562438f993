import SafetyTrolley.CanBus

/-! The dispatcher of the CAN messages, seen from one motor. The identifiers,
the message branches and the array positions name the same wheel. -/

namespace SafetyTrolley

def feedbackId (k : Fin 4) : BitVec 11 := 0x201 + BitVec.ofNat 11 k

def isFeedback (k : Fin 4) (canp : CANDriver) (rxmsg : CANRxFrame) : Bool :=
  canp == .cand1 && rxmsg.sid == feedbackId k

def ChassisNum.ofIndex : Fin 4 → ChassisNum
  | 0 => .frontRight
  | 1 => .backRight
  | 2 => .frontLeft
  | 3 => .backLeft

@[simp] theorem ChassisNum.index_ofIndex (k : Fin 4) : (ofIndex k).index = k := by
  revert k
  decide

theorem feedback_chassisEncoder (db : CanData) (k j : Fin 4) (rxmsg : CANRxFrame) :
    (db.feedback (ChassisNum.ofIndex j) rxmsg).chassisEncoder k =
      if j = k then countFeedback (db.chassisEncoder k) rxmsg else db.chassisEncoder k := by
  simp only [CanData.feedback, ChassisNum.index_ofIndex, Function.update_apply, eq_comm (a := k)]
  split_ifs with h
  · rw [h]
  · rfl

/-- The standard identifier decides the wheel: a branch of the dispatcher is
the feedback of the wheel at the distance of its identifier from the first. -/
theorem canProcessEncoderMessage_cand1 (rxmsg : CANRxFrame) (db : CanData) :
    (∃ j, rxmsg.sid = feedbackId j ∧
      canProcessEncoderMessage .cand1 rxmsg db = db.feedback (ChassisNum.ofIndex j) rxmsg) ∨
    (∀ j, rxmsg.sid ≠ feedbackId j) ∧ canProcessEncoderMessage .cand1 rxmsg db = db := by
  by_cases hfl : rxmsg.sid = canChassisFlFeedbackMsgId
  · exact Or.inl ⟨2, hfl, by simp only [canProcessEncoderMessage, hfl, if_true]; rfl⟩
  by_cases hfr : rxmsg.sid = canChassisFrFeedbackMsgId
  · exact Or.inl ⟨0, hfr, by simp only [canProcessEncoderMessage, hfr, if_true]; rfl⟩
  by_cases hbl : rxmsg.sid = canChassisBlFeedbackMsgId
  · exact Or.inl ⟨3, hbl, by simp only [canProcessEncoderMessage, hbl, if_true]; rfl⟩
  by_cases hbr : rxmsg.sid = canChassisBrFeedbackMsgId
  · exact Or.inl ⟨1, hbr, by simp only [canProcessEncoderMessage, hbr, if_true]; rfl⟩
  refine Or.inr ⟨fun j => ?_, by simp only [canProcessEncoderMessage, hfl, hfr, hbl, hbr, if_false]⟩
  match j with
  | 0 => exact hfr
  | 1 => exact hbr
  | 2 => exact hfl
  | 3 => exact hbl

theorem feedbackId_injective {j k : Fin 4} (h : feedbackId j = feedbackId k) : j = k := by
  revert j k
  decide

theorem canProcessEncoderMessage_chassisEncoder (canp : CANDriver) (rxmsg : CANRxFrame)
    (db : CanData) (k : Fin 4) :
    (canProcessEncoderMessage canp rxmsg db).chassisEncoder k =
      if isFeedback k canp rxmsg then countFeedback (db.chassisEncoder k) rxmsg
      else db.chassisEncoder k := by
  cases canp with
  | cand2 =>
    simp only [canProcessEncoderMessage]
    split_ifs <;> simp_all [isFeedback]
  | cand1 =>
    rcases canProcessEncoderMessage_cand1 rxmsg db with ⟨j, hj, he⟩ | ⟨hno, he⟩
    · rw [he, feedback_chassisEncoder]
      by_cases hjk : j = k
      · simp [isFeedback, hj, hjk]
      · have hne : feedbackId j ≠ feedbackId k := fun h => hjk (feedbackId_injective h)
        simp [isFeedback, hj, hjk, hne]
    · simp [isFeedback, he, hno k]

end SafetyTrolley
