import SafetyTrolley.CanBus
import SafetyTrolley.Lib.Accumulate

/-! The remote: the samples of its joystick, the message that its own firmware
makes of them, and the mailboxes through which a message goes to the chassis. -/

namespace SafetyTrolley

def adcDepth : Nat := 10
def adcNumCh : Nat := 2
def xPotMidpoint : Int := 2070
def yPotMidpoint : Int := 2025

structure Voltages where
  xPot : Int16 := 0
  yPot : Int16 := 0
  deriving DecidableEq, Repr

structure AdcDriver where
  sample : Vector (Vector UInt16 adcNumCh) adcDepth
  avg : Vector UInt16 adcNumCh
  deriving DecidableEq

-- The channel numbers used are within the array.
def AdcDriver.channel (adc : AdcDriver) (channelno : Nat) : List UInt16 :=
  adc.sample.toList.map fun row => row[channelno]?.getD 0

def AdcDriver.average (adc : AdcDriver) (channelno : Nat) : UInt16 :=
  Accumulate.accumulate (adc.channel channelno) / UInt16.ofNat adcDepth

/-- Both the averages and the record are written anew, whatever they held. -/
def adcDriverUpdate (adc : AdcDriver) : AdcDriver × Voltages :=
  ({ adc with avg := Vector.ofFn fun channelno => adc.average channelno },
    { xPot := Int16.ofInt ((adc.average 0).toNat - xPotMidpoint)
      yPot := Int16.ofInt ((adc.average 1).toNat - yPotMidpoint) })

/-- `canFeedback_t`, packed. -/
structure CanFeedback where
  xJoystick : Int16 := 0
  yJoystick : Int16 := 0
  button : UInt8 := 0
  deriving DecidableEq, Repr

def canFeedbackId : BitVec 11 := 0x050

def palReadPad (port pad : UInt32) : UInt32 := (port >>> pad) &&& 1

def CanFeedback.bytes (feedbackData : CanFeedback) : List UInt8 :=
  [UInt8.ofInt feedbackData.xJoystick.toInt, UInt8.ofInt (feedbackData.xJoystick.toInt >>> (8 : Nat)),
    UInt8.ofInt feedbackData.yJoystick.toInt, UInt8.ofInt
      (feedbackData.yJoystick.toInt >>> (8 : Nat)),
    feedbackData.button]

-- The bytes past the end of the source stay as they were.
def memcpy (data8 : Vector UInt8 8) (bytes : List UInt8) : Vector UInt8 8 :=
  Vector.ofFn fun i => bytes.getD i (data8.get i)

/-- A store to the low 11 bits of the union. -/
def storeSid (id : BitVec 29) (sid : BitVec 11) : BitVec 29 := id &&& ~~~0x7FF ||| sid.setWidth 29

def canFeedbackThdStart (txmsg : CANTxFrame) : CANTxFrame :=
  { txmsg with
    ide := false
    id := storeSid txmsg.id canFeedbackId
    rtr := false
    dlc := 8 }

def canFeedbackPass (gpioa : UInt32) (joystickData : Voltages) (txmsg : CANTxFrame) :
    CanFeedback × CANTxFrame :=
  let feedbackData : CanFeedback :=
    { button := (1 - palReadPad gpioa 0).toUInt8
      xJoystick := Int16.ofInt (-joystickData.xPot.toInt)
      yJoystick := joystickData.yPot }
  (feedbackData, { txmsg with data8 := memcpy txmsg.data8 feedbackData.bytes })

/-- The registers of a CAN mailbox. -/
structure CANMailbox where
  ir : BitVec 32
  dtr : BitVec 32
  data8 : Vector UInt8 8
  deriving DecidableEq

def bit (b : Bool) : BitVec 32 := if b then 1 else 0

def canLldTransmit (ctfp : CANTxFrame) : CANMailbox where
  ir :=
    (if ctfp.ide then ctfp.id.setWidth 32 <<< 3 ||| bit ctfp.rtr <<< 1 ||| 4
      else (ctfp.id.setWidth 11).setWidth 32 <<< 21 ||| bit ctfp.rtr <<< 1) ||| 1
  dtr := ctfp.dlc.setWidth 32
  data8 := ctfp.data8

def canLldReceive (mailbox : CANMailbox) (crfp : CANRxFrame) : CANRxFrame :=
  let ide := mailbox.ir.getLsbD 2
  { crfp with
    rtr := mailbox.ir.getLsbD 1
    ide := ide
    id :=
      if ide then (mailbox.ir >>> 3).setWidth 29
      else storeSid crfp.id ((mailbox.ir >>> 21).setWidth 11)
    dlc := mailbox.dtr.setWidth 4
    data8 := mailbox.data8 }

/-- What the bus carries from a transmit mailbox to a receive mailbox: the
identifier of the format in use, the two format bits, the length, the data. -/
structure Carries (tx rx : CANMailbox) : Prop where
  rtr : rx.ir.getLsbD 1 = tx.ir.getLsbD 1
  ide : rx.ir.getLsbD 2 = tx.ir.getLsbD 2
  identifier : if tx.ir.getLsbD 2 then rx.ir >>> 3 = tx.ir >>> 3 else rx.ir >>> 21 = tx.ir >>> 21
  dlc : rx.dtr.setWidth 4 = tx.dtr.setWidth 4
  data8 : rx.data8 = tx.data8

end SafetyTrolley
