import SafetyTrolley.Calibration
import SafetyTrolley.Lib.Projection

/-! Which received frames leave a trace. The filters accept every frame and the
dispatcher looks at eleven bits of the identifier: the format, the type and the
length of the frame play no part. -/

namespace SafetyTrolley

theorem CANRxFrame.sid_eq_iff (rxmsg : CANRxFrame) (b : BitVec 11) :
    rxmsg.sid = b ↔ rxmsg.id.toNat % 2 ^ 11 = b.toNat := by
  rw [← BitVec.toNat_inj, CANRxFrame.sid, BitVec.toNat_setWidth]

theorem feedbackId_toNat (k : Fin 4) : (feedbackId k).toNat = 0x201 + k := by
  revert k
  decide

def isRemote (canp : CANDriver) (rxmsg : CANRxFrame) : Bool :=
  canp == .cand2 && rxmsg.sid == canRemoteReceiverId

theorem isFeedback_iff (k : Fin 4) (canp : CANDriver) (rxmsg : CANRxFrame) :
    isFeedback k canp rxmsg = true ↔ canp = .cand1 ∧ rxmsg.id.toNat % 2 ^ 11 = 0x201 + k := by
  rw [isFeedback, Bool.and_eq_true, beq_iff_eq, beq_iff_eq, rxmsg.sid_eq_iff, feedbackId_toNat]

theorem isRemote_iff (canp : CANDriver) (rxmsg : CANRxFrame) :
    isRemote canp rxmsg = true ↔ canp = .cand2 ∧ rxmsg.id.toNat % 2 ^ 11 = 0x050 := by
  rw [isRemote, Bool.and_eq_true, beq_iff_eq, beq_iff_eq, rxmsg.sid_eq_iff]
  rfl

theorem feedback_remoteCommand (db : CanData) (num : ChassisNum) (rxmsg : CANRxFrame) :
    (db.feedback num rxmsg).remoteCommand = db.remoteCommand := rfl

theorem canProcessEncoderMessage_remoteCommand (canp : CANDriver) (rxmsg : CANRxFrame)
    (db : CanData) :
    (canProcessEncoderMessage canp rxmsg db).remoteCommand =
      if isRemote canp rxmsg then canProcessRemoteCommand rxmsg else db.remoteCommand := by
  cases canp with
  | cand1 =>
    rcases canProcessEncoderMessage_cand1 rxmsg db with ⟨j, _, he⟩ | ⟨_, he⟩
    · rw [he, feedback_remoteCommand]
      rfl
    · rw [he]
      rfl
  | cand2 =>
    by_cases hid : rxmsg.sid = canRemoteReceiverId
    · simp [canProcessEncoderMessage, isRemote, hid]
    · simp [canProcessEncoderMessage, isRemote, hid]

theorem CanData.ext_parts {db db' : CanData} (henc : ∀ k, db.chassisEncoder k = db'.chassisEncoder k)
    (hremote : db.remoteCommand = db'.remoteCommand) : db = db' := by
  cases db
  cases db'
  simp only [CanData.mk.injEq]
  exact ⟨funext henc, hremote⟩

/-- A frame is counted even where it repeats what the record already says. -/
theorem countFeedback_ne (cm : ChassisEncoderCanStruct) (rxmsg : CANRxFrame) :
    countFeedback cm rxmsg ≠ cm := by
  intro h
  have hcount := congrArg ChassisEncoderCanStruct.msgCount h
  rw [countFeedback_msgCount] at hcount
  exact absurd (UInt32.add_eq_left.mp hcount) (by decide)

theorem countFeedback_congr {rxmsg rxmsg' : CANRxFrame} (h : rxmsg'.data8 = rxmsg.data8)
    (cm : ChassisEncoderCanStruct) : countFeedback cm rxmsg' = countFeedback cm rxmsg := by
  obtain ⟨_, _, _, _, data⟩ := rxmsg
  obtain ⟨_, _, _, _, data'⟩ := rxmsg'
  obtain rfl : data' = data := h
  rfl

theorem canProcessRemoteCommand_congr {rxmsg rxmsg' : CANRxFrame} (h : rxmsg'.data8 = rxmsg.data8) :
    canProcessRemoteCommand rxmsg' = canProcessRemoteCommand rxmsg := by
  simp only [canProcessRemoteCommand, h]

theorem canProcessEncoderMessage_congr {canp : CANDriver} {rxmsg rxmsg' : CANRxFrame}
    (hsid : rxmsg'.sid = rxmsg.sid) (hdata : rxmsg'.data8 = rxmsg.data8) (db : CanData) :
    canProcessEncoderMessage canp rxmsg' db = canProcessEncoderMessage canp rxmsg db := by
  refine CanData.ext_parts (fun k => ?_) ?_
  · have hfeedback : isFeedback k canp rxmsg' = isFeedback k canp rxmsg := by
      rw [isFeedback, hsid, isFeedback]
    rw [canProcessEncoderMessage_chassisEncoder, canProcessEncoderMessage_chassisEncoder, hfeedback,
      countFeedback_congr hdata]
  · have hremote : isRemote canp rxmsg' = isRemote canp rxmsg := by
      rw [isRemote, hsid, isRemote]
    rw [canProcessEncoderMessage_remoteCommand, canProcessEncoderMessage_remoteCommand, hremote,
      canProcessRemoteCommand_congr hdata]

/-- A record changes on the low eleven bits of the identifier alone, and a frame
that agrees in them and in its bytes has the same effect. -/
theorem changed_by_identifier (canp : CANDriver) (rxmsg : CANRxFrame) (db : CanData) :
    let db' := canProcessEncoderMessage canp rxmsg db
    (∀ k : Fin 4, db'.chassisEncoder k ≠ db.chassisEncoder k ↔
      canp = .cand1 ∧ rxmsg.id.toNat % 2 ^ 11 = 0x201 + k) ∧
    (db'.remoteCommand ≠ db.remoteCommand ↔ canp = .cand2 ∧ rxmsg.id.toNat % 2 ^ 11 = 0x050 ∧
      canProcessRemoteCommand rxmsg ≠ db.remoteCommand) ∧
    ∀ rxmsg' : CANRxFrame, rxmsg'.id.toNat % 2 ^ 11 = rxmsg.id.toNat % 2 ^ 11 →
      rxmsg'.data8 = rxmsg.data8 → canProcessEncoderMessage canp rxmsg' db = db' := by
  intro db'
  refine ⟨fun k => ?_, ?_, fun rxmsg' hid hdata => ?_⟩
  · rw [canProcessEncoderMessage_chassisEncoder, ← isFeedback_iff]
    split_ifs with hfeedback
    · exact iff_of_true (countFeedback_ne _ _) hfeedback
    · exact iff_of_false (fun hne => hne rfl) hfeedback
  · rw [canProcessEncoderMessage_remoteCommand, ← and_assoc, ← isRemote_iff]
    split_ifs with hremote
    · simp only [hremote, true_and]
    · simp only [hremote, ne_eq, not_true_eq_false, false_and, Bool.false_eq_true]
  · have hsid : rxmsg'.sid = rxmsg.sid := by
      rw [CANRxFrame.sid_eq_iff, hid, CANRxFrame.sid, BitVec.toNat_setWidth]
    exact canProcessEncoderMessage_congr hsid hdata db

-- A remote request in the extended format, with no data.
def extendedRequest : CANRxFrame where
  dlc := 0
  rtr := true
  ide := true
  id := 0x10000201
  data8 := #v[0, 0, 0, 0, 0, 0, 0, 0]

theorem foreign_frame_counted : ¬ ∀ (canp : CANDriver) (rxmsg : CANRxFrame) (db : CanData),
    rxmsg.dlc.toNat ≤ 8 →
    let db' := canProcessEncoderMessage canp rxmsg db
    ((∃ k, db'.chassisEncoder k ≠ db.chassisEncoder k) → canp = .cand1 ∧ rxmsg.ide = false ∧
      rxmsg.rtr = false ∧ (∃ k, rxmsg.sid = feedbackId k) ∧ 7 ≤ rxmsg.dlc.toNat) ∧
    (db'.remoteCommand ≠ db.remoteCommand → canp = .cand2 ∧ rxmsg.ide = false ∧
      rxmsg.rtr = false ∧ rxmsg.sid = canRemoteReceiverId ∧ 5 ≤ rxmsg.dlc.toNat) := by
  intro h
  have hchanged : (canProcessEncoderMessage .cand1 extendedRequest {}).chassisEncoder 0 ≠ {} := by
    rw [canProcessEncoderMessage_chassisEncoder, if_pos (by decide)]
    exact countFeedback_ne _ _
  have hstandard := ((h .cand1 extendedRequest {} (by decide)).1 ⟨0, hchanged⟩).2.1
  cases hstandard

def deliver (db : CanData) (message : CANDriver × CANRxFrame) : CanData :=
  canProcessEncoderMessage message.1 message.2 db

def addressed (message : CANDriver × CANRxFrame) : Bool :=
  isRemote message.1 message.2 || decide (∃ k, isFeedback k message.1 message.2)

theorem deliver_foreign {message : CANDriver × CANRxFrame} (h : addressed message = false)
    (db : CanData) :
    deliver db message = db := by
  obtain ⟨hremote, hfeedback⟩ := Bool.or_eq_false_iff.mp h
  have hno : ∀ k, isFeedback k message.1 message.2 = false := by
    simpa using hfeedback
  refine CanData.ext_parts (fun k => ?_) ?_
  · rw [deliver, canProcessEncoderMessage_chassisEncoder, hno k, if_neg Bool.false_ne_true]
  · rw [deliver, canProcessEncoderMessage_remoteCommand, hremote, if_neg Bool.false_ne_true]

theorem deliver_isolated : Machine.Isolated deliver id addressed where
  frame db _ h := deliver_foreign h db
  determined _ _ message _ hdb := congrArg (deliver · message) hdb

/-- The frames of other nodes may be left out of what the two buses bring. -/
theorem foldl_deliver_addressed (messages : List (CANDriver × CANRxFrame)) (db : CanData) :
    messages.foldl deliver db = (messages.filter addressed).foldl deliver db :=
  deliver_isolated.foldl_filter rfl messages

end SafetyTrolley
