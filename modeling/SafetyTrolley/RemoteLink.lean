import SafetyTrolley.Remote

/-! From the samples of the remote's joystick to the record on the chassis.
The two boards agree on the message, and no 16-bit value on the way overflows. -/

namespace SafetyTrolley

open Accumulate

def AdcDriver.InRange (adc : AdcDriver) : Prop :=
  ∀ row ∈ adc.sample.toList, ∀ x ∈ row.toList, x.toNat ≤ 4095

theorem AdcDriver.InRange.channel {adc : AdcDriver} (h : adc.InRange) (channelno : Nat) :
    ∀ x ∈ adc.channel channelno, x.toNat ≤ 4095 := by
  intro x hx
  obtain ⟨row, hrow, rfl⟩ := List.mem_map.mp hx
  cases hx : row[channelno]? with
  | none => exact Nat.zero_le _
  | some x => exact h row hrow x (by simpa using Vector.mem_of_getElem? hx)

theorem AdcDriver.channel_length (adc : AdcDriver) (channelno : Nat) :
    (adc.channel channelno).length = 10 :=
  (List.length_map _).trans adc.sample.length_toList

/-- Every partial sum is exact, since ten samples of 12 bits do not fill 16 bits. -/
theorem AdcDriver.InRange.partial_sum {adc : AdcDriver} (h : adc.InRange) (channelno n : Nat) :
    (accumulate ((adc.channel channelno).take n)).toNat = total ((adc.channel channelno).take n) := by
  apply accumulate_exact
  have hle : total ((adc.channel channelno).take n) ≤
      ((adc.channel channelno).take n).length * 4095 :=
    total_le fun x hx => h.channel channelno x (List.mem_of_mem_take hx)
  have hlen : ((adc.channel channelno).take n).length ≤ 10 := by
    rw [List.length_take, adc.channel_length]
    exact min_le_right _ _
  omega

theorem AdcDriver.InRange.average {adc : AdcDriver} (h : adc.InRange) (channelno : Nat) :
    (adc.average channelno).toNat = total (adc.channel channelno) / 10 ∧
      total (adc.channel channelno) / 10 ≤ 4095 := by
  have hall := h.partial_sum channelno 10
  have hle := total_le (h.channel channelno)
  rw [List.take_of_length_le (adc.channel_length channelno).le] at hall
  rw [adc.channel_length] at hle
  refine ⟨?_, by omega⟩
  rw [AdcDriver.average, UInt16.toNat_div, hall]
  rfl

theorem AdcDriver.InRange.pots {adc : AdcDriver} (h : adc.InRange) :
    let pots := (adcDriverUpdate adc).2
    pots.xPot.toInt = (total (adc.channel 0) / 10 : Nat) - 2070 ∧
      pots.yPot.toInt = (total (adc.channel 1) / 10 : Nat) - 2025 := by
  obtain ⟨hx, hxle⟩ := h.average 0
  obtain ⟨hy, hyle⟩ := h.average 1
  simp only [adcDriverUpdate, xPotMidpoint, yPotMidpoint, hx, hy]
  constructor <;> exact Int16.toInt_ofInt_of_le (by omega) (by omega)

theorem palReadPad_le (port pad : UInt32) : (palReadPad port pad).toNat ≤ 1 := by
  rw [palReadPad, UInt32.toNat_and]
  exact Nat.and_le_right

theorem memcpy_byteAt (data8 : Vector UInt8 8) (bytes : List UInt8) {i : Nat} (hi : i < bytes.length)
    (hi8 : i < 8) : Bytes.byteAt (memcpy data8 bytes) i = bytes[i].toNat := by
  simp [Bytes.byteAt, memcpy, hi8, hi]

theorem int16_of_le16 {data8 : Vector UInt8 8} {i : Nat} {x : Int16}
    (hlo : Bytes.byteAt data8 i = (UInt8.ofInt x.toInt).toNat)
    (hhi : Bytes.byteAt data8 (i + 1) = (UInt8.ofInt (x.toInt >>> (8 : Nat))).toNat) :
    Int16.ofNat (Bytes.le16 data8 i) = x := by
  rw [Bytes.le16, hlo, hhi, Nat.add_comm, ← Bytes.be16_eq]
  exact Bytes.int16_of_bytes x

/-- The chassis reads back the record that the remote has copied into the frame. -/
theorem canProcessRemoteCommand_memcpy (feedbackData : CanFeedback) (data8 : Vector UInt8 8)
    {rxmsg : CANRxFrame} (h : rxmsg.data8 = memcpy data8 feedbackData.bytes) :
    canProcessRemoteCommand rxmsg =
      { xJoystick := feedbackData.xJoystick
        yJoystick := feedbackData.yJoystick
        button := feedbackData.button
        updated := 1 } := by
  have hbyte (i : Nat) (hi : i < 5) : Bytes.byteAt rxmsg.data8 i = feedbackData.bytes[i].toNat := by
    rw [h, memcpy_byteAt _ _ hi (by omega)]
  have hx := int16_of_le16 (i := 0) (hbyte 0 (by decide)) (hbyte 1 (by decide))
  have hy := int16_of_le16 (i := 2) (hbyte 2 (by decide)) (hbyte 3 (by decide))
  have hbutton : rxmsg.data8[4] = feedbackData.button := by
    simp [h, memcpy, CanFeedback.bytes]
  rw [canProcessRemoteCommand, hx, hy, hbutton]

theorem storeSid_setWidth (id : BitVec 29) (sid : BitVec 11) :
    (storeSid id sid).setWidth 11 = sid := by
  have hmask : ∀ i < 11, (0x7FF : BitVec 29).getLsbD i = true := by decide
  apply BitVec.eq_of_getLsbD_eq
  intro i hi
  rw [storeSid, BitVec.getLsbD_setWidth, BitVec.getLsbD_or, BitVec.getLsbD_and, BitVec.getLsbD_not,
    hmask i hi, BitVec.getLsbD_setWidth]
  simp [hi, show i < 29 by omega]

theorem transmitted_standard {txmsg : CANTxFrame} (hide : txmsg.ide = false) :
    (canLldTransmit txmsg).ir.getLsbD 2 = false ∧
      ((canLldTransmit txmsg).ir >>> 21).setWidth 11 = txmsg.id.setWidth 11 := by
  simp only [canLldTransmit, hide, Bool.false_eq_true, if_false]
  constructor
  · cases txmsg.rtr <;> simp [bit]
  · -- the two format bits and the request lie below the identifier
    have hbelow : ∀ i < 11, (bit txmsg.rtr <<< 1).getLsbD (21 + i) = false ∧
        (1 : BitVec 32).getLsbD (21 + i) = false := by
      cases txmsg.rtr <;> decide
    apply BitVec.eq_of_getLsbD_eq
    intro i hi
    rw [BitVec.getLsbD_setWidth, BitVec.getLsbD_ushiftRight, BitVec.getLsbD_or, BitVec.getLsbD_or,
      (hbelow i hi).1, (hbelow i hi).2, BitVec.getLsbD_shiftLeft]
    simp [hi, show 21 + i < 32 by omega, show i < 32 by omega]

theorem received_standard {txmsg : CANTxFrame} {wire : CANMailbox} (hide : txmsg.ide = false)
    (h : Carries (canLldTransmit txmsg) wire) (rxmsg : CANRxFrame) :
    (canLldReceive wire rxmsg).sid = txmsg.id.setWidth 11 ∧
      (canLldReceive wire rxmsg).data8 = txmsg.data8 := by
  obtain ⟨hformat, hsid⟩ := transmitted_standard hide
  have hid := h.identifier
  rw [hformat, if_neg Bool.false_ne_true] at hid
  refine ⟨?_, h.data8⟩
  simp only [CANRxFrame.sid, canLldReceive, h.ide, hformat, Bool.false_eq_true, if_false]
  rw [storeSid_setWidth, hid, hsid]

theorem canFeedbackPass_button (gpioa : UInt32) (joystickData : Voltages) (txmsg : CANTxFrame) :
    ((canFeedbackPass gpioa joystickData txmsg).1.button.toNat : Int) = 1 -
    (palReadPad gpioa 0).toNat := by
  have hpad := palReadPad_le gpioa 0
  have hsub : (1 - palReadPad gpioa 0).toNat = 1 - (palReadPad gpioa 0).toNat :=
    UInt32.toNat_sub_of_le _ _ hpad
  change ((1 - palReadPad gpioa 0).toUInt8.toNat : Int) = _
  rw [UInt32.toNat_toUInt8, hsub]
  omega

/-- The record of the chassis becomes that of the remote, and nothing else changes. -/
theorem canFeedbackPass_received {gpioa : UInt32} {joystickData : Voltages} {txmsg : CANTxFrame}
    {wire : CANMailbox}
    (hwire : Carries
      (canLldTransmit (canFeedbackPass gpioa joystickData (canFeedbackThdStart txmsg)).2) wire)
    (rxmsg : CANRxFrame) (db : CanData) :
    let feedbackData := (canFeedbackPass gpioa joystickData (canFeedbackThdStart txmsg)).1
    canProcessEncoderMessage .cand2 (canLldReceive wire rxmsg) db = { db with remoteCommand :=
      { xJoystick := feedbackData.xJoystick
        yJoystick := feedbackData.yJoystick
        button := feedbackData.button
        updated := 1 } } := by
  intro feedbackData
  obtain ⟨hsid, hdata⟩ := received_standard (by rfl) hwire rxmsg
  have hid : (canLldReceive wire rxmsg).sid = canRemoteReceiverId :=
    hsid.trans (storeSid_setWidth _ _)
  rw [canProcessEncoderMessage, if_pos hid, canProcessRemoteCommand_memcpy feedbackData _ hdata]

/-- One sampling, one message and its reception bring the position of the
joystick and the button into the chassis's record, all of it without overflow. -/
theorem remote_round_trip (adc : AdcDriver) (gpioa : UInt32) (txmsg : CANTxFrame) (wire : CANMailbox)
    (rxmsg : CANRxFrame) (db : CanData) (hadc : adc.InRange)
    (hwire : Carries (canLldTransmit
      (canFeedbackPass gpioa (adcDriverUpdate adc).2 (canFeedbackThdStart txmsg)).2) wire) :
    let pots := (adcDriverUpdate adc).2
    let feedbackData := (canFeedbackPass gpioa pots (canFeedbackThdStart txmsg)).1
    let db' := canProcessEncoderMessage .cand2 (canLldReceive wire rxmsg) db
    let mean (channelno : Nat) : Int := (total (adc.channel channelno) / 10 : Nat)
    (db'.remoteCommand.xJoystick.toInt = -(mean 0 - 2070) ∧
      db'.remoteCommand.yJoystick.toInt = mean 1 - 2025 ∧
      (db'.remoteCommand.button.toNat : Int) = 1 - (palReadPad gpioa 0).toNat ∧
      db'.remoteCommand.updated = 1 ∧ db'.chassisEncoder = db.chassisEncoder) ∧
    (∀ channelno n, (accumulate ((adc.channel channelno).take n)).toNat =
      total ((adc.channel channelno).take n)) ∧
    pots.xPot.toInt = mean 0 - 2070 ∧ pots.yPot.toInt = mean 1 - 2025 ∧
    feedbackData.xJoystick.toInt = -pots.xPot.toInt := by
  intro pots feedbackData db' mean
  obtain ⟨hx, hy⟩ := hadc.pots
  have hmean (channelno : Nat) : 0 ≤ mean channelno ∧ mean channelno ≤ 4095 := by
    exact ⟨Int.natCast_nonneg _, Int.ofNat_le.mpr (hadc.average channelno).2⟩
  have hneg : feedbackData.xJoystick.toInt = -pots.xPot.toInt := by
    have hrange := hmean 0
    refine Int16.toInt_ofInt_of_le ?_ ?_
    · rw [hx]
      change -2 ^ 15 ≤ -(mean 0 - 2070)
      omega
    · rw [hx]
      change -(mean 0 - 2070) < 2 ^ 15
      omega
  have hrecord : db' = _ := canFeedbackPass_received hwire rxmsg db
  rw [hrecord]
  exact ⟨⟨hneg.trans (congrArg Neg.neg hx), hy, canFeedbackPass_button gpioa pots txmsg, rfl, rfl⟩,
    hadc.partial_sum, hx, hy, hneg⟩

theorem Carries.refl (mailbox : CANMailbox) : Carries mailbox mailbox :=
  ⟨rfl, rfl, by split_ifs <;> rfl, rfl, rfl⟩

def pushedStick : AdcDriver where
  sample := Vector.replicate adcDepth #v[3000, 4095]
  avg := #v[7, 7]

def staleFrame : CANTxFrame := ⟨3, true, true, 0x1FFFFFFF, Vector.replicate 8 255⟩

theorem remote_round_trip_pushedStick :
    let sent := canLldTransmit
      (canFeedbackPass 1 (adcDriverUpdate pushedStick).2 (canFeedbackThdStart staleFrame)).2
    let db' := canProcessEncoderMessage .cand2
      (canLldReceive sent (⟨0, true, true, 0, #v[0, 0, 0, 0, 0, 0, 0, 0]⟩)) {}
    db'.remoteCommand.xJoystick.toInt = -((total (pushedStick.channel 0) / 10 : Nat) - 2070) ∧
      db'.remoteCommand.yJoystick.toInt = (total (pushedStick.channel 1) / 10 : Nat) - 2025 := by
  have hrange : pushedStick.InRange := by
    intro row hrow x hx
    have hrow : row ∈ List.replicate adcDepth #v[3000, 4095] := hrow
    rw [List.eq_of_mem_replicate hrow] at hx
    rcases List.mem_pair.mp hx with rfl | rfl
    · decide
    · decide
  have htrip := remote_round_trip pushedStick 1 staleFrame _
    (⟨0, true, true, 0, #v[0, 0, 0, 0, 0, 0, 0, 0]⟩) {}
    hrange (Carries.refl _)
  exact ⟨htrip.1.1, htrip.1.2.1⟩

end SafetyTrolley
