import Mathlib.Algebra.Order.Field.Rat
import SafetyTrolley.Lib.Bytes

/-! The chassis's CAN messages: motor feedback and its unwrapping, the
remote's command, and the current message sent to the motors. -/

namespace SafetyTrolley

inductive CANDriver where
  | cand1 | cand2
  deriving DecidableEq, Repr

/-- The identifier is the union of the received frame: the extended identifier
is all of its 29 bits and overlays the standard one on the low 11. -/
structure CANRxFrame where
  dlc : BitVec 4
  rtr : Bool
  ide : Bool
  id : BitVec 29
  data8 : Vector UInt8 8
  deriving DecidableEq, Repr

def CANRxFrame.sid (rxmsg : CANRxFrame) : BitVec 11 := rxmsg.id.setWidth 11

def CANRxFrame.eid (rxmsg : CANRxFrame) : BitVec 29 := rxmsg.id

structure CANTxFrame where
  dlc : BitVec 4
  rtr : Bool
  ide : Bool
  id : BitVec 29
  data8 : Vector UInt8 8
  deriving DecidableEq, Repr

def canChassisControlId : BitVec 16 := 0x200
def canChassisFrFeedbackMsgId : BitVec 11 := 0x201
def canChassisFlFeedbackMsgId : BitVec 11 := 0x203
def canChassisBlFeedbackMsgId : BitVec 11 := 0x204
def canChassisBrFeedbackMsgId : BitVec 11 := 0x202
def canRemoteReceiverId : BitVec 11 := 0x050

def canEncoderRange : Int := 8192
def canEncoderRadianRatio : ℚ := 7.669904e-4

inductive ChassisNum where
  | frontRight | frontLeft | backLeft | backRight
  deriving DecidableEq, Repr

def ChassisNum.index : ChassisNum → Fin 4
  | .frontRight => 0
  | .frontLeft => 2
  | .backLeft => 3
  | .backRight => 1

structure ChassisEncoderCanStruct where
  rawAngle : UInt16 := 0
  rawSpeed : Int16 := 0
  actCurrent : Int16 := 0
  temperature : UInt8 := 0
  lastRawAngle : UInt16 := 0
  offsetRawAngle : UInt16 := 0
  msgCount : UInt32 := 0
  roundCount : Int32 := 0
  totalEcd : Int32 := 0
  radianAngle : ℚ := 0
  updated : Bool := false
  deriving DecidableEq, Repr

structure RemoteCanStruct where
  xJoystick : Int16 := 0
  yJoystick : Int16 := 0
  button : UInt8 := 0
  updated : UInt8 := 0
  deriving DecidableEq, Repr

def canProcessRemoteCommand (rxmsg : CANRxFrame) : RemoteCanStruct :=
  { xJoystick := Int16.ofNat (Bytes.le16 rxmsg.data8 0)
    yJoystick := Int16.ofNat (Bytes.le16 rxmsg.data8 2)
    button := rxmsg.data8[4]
    updated := 1 }

def CANRxFrame.rawAngle (rxmsg : CANRxFrame) : UInt16 :=
  UInt16.ofNat (Bytes.be16 rxmsg.data8[0] rxmsg.data8[1])

def CANRxFrame.rawSpeed (rxmsg : CANRxFrame) : Int16 :=
  Int16.ofNat (Bytes.be16 rxmsg.data8[2] rxmsg.data8[3])

def storeFeedback (cm : ChassisEncoderCanStruct) (rxmsg : CANRxFrame) : ChassisEncoderCanStruct :=
  { cm with
    updated := true
    rawAngle := rxmsg.rawAngle
    rawSpeed := rxmsg.rawSpeed
    actCurrent := Int16.ofNat (Bytes.be16 rxmsg.data8[4] rxmsg.data8[5])
    temperature := rxmsg.data8[6] }

def canGetMotorOffset (cm : ChassisEncoderCanStruct) (rxmsg : CANRxFrame) : ChassisEncoderCanStruct :=
  let cm := storeFeedback cm rxmsg
  { cm with offsetRawAngle := cm.rawAngle }

def countRound (cm : ChassisEncoderCanStruct) : Int32 :=
  let diff : Int := cm.rawAngle.toNat - cm.lastRawAngle.toNat
  if diff > canEncoderRange / 2 then cm.roundCount - 1
  else if diff < -canEncoderRange / 2 then cm.roundCount + 1
  else cm.roundCount

def canProcessChassisEncoder (cm : ChassisEncoderCanStruct) (rxmsg : CANRxFrame) :
    ChassisEncoderCanStruct :=
  let cm := storeFeedback { cm with lastRawAngle := cm.rawAngle } rxmsg
  let cm := { cm with roundCount := countRound cm }
  let cm := { cm with
    totalEcd := cm.roundCount * Int32.ofInt canEncoderRange + Int32.ofNat cm.rawAngle.toNat -
      Int32.ofNat cm.offsetRawAngle.toNat }
  { cm with radianAngle := cm.totalEcd.toInt * canEncoderRadianRatio }

/-- The exact values of the `int` expressions that `canProcessChassisEncoder`
evaluates on the record, in the order in which it does. -/
def trackingValues (cm : ChassisEncoderCanStruct) (rxmsg : CANRxFrame) : List Int :=
  let cm' := canProcessChassisEncoder cm rxmsg
  let diff : Int := cm'.rawAngle.toNat - cm.rawAngle.toNat
  let counted : List Int :=
    if diff > canEncoderRange / 2 then [cm.roundCount.toInt - 1]
    else if diff < -canEncoderRange / 2 then [cm.roundCount.toInt + 1]
    else []
  let turns := cm'.roundCount.toInt * canEncoderRange
  diff :: counted ++
    [turns, turns + cm'.rawAngle.toNat, turns + cm'.rawAngle.toNat - cm'.offsetRawAngle.toNat]

def countFeedback (cm : ChassisEncoderCanStruct) (rxmsg : CANRxFrame) : ChassisEncoderCanStruct :=
  let cm := { cm with msgCount := cm.msgCount + 1 }
  if cm.msgCount ≤ 50 then canGetMotorOffset cm rxmsg else canProcessChassisEncoder cm rxmsg

structure CanData where
  chassisEncoder : Fin 4 → ChassisEncoderCanStruct := fun _ => {}
  remoteCommand : RemoteCanStruct := {}

def CanData.feedback (db : CanData) (num : ChassisNum) (rxmsg : CANRxFrame) : CanData :=
  { db with
    chassisEncoder := Function.update db.chassisEncoder num.index
      (countFeedback (db.chassisEncoder num.index) rxmsg) }

def canProcessEncoderMessage (canp : CANDriver) (rxmsg : CANRxFrame) (db : CanData) : CanData :=
  match canp with
  | .cand1 =>
    if rxmsg.sid = canChassisFlFeedbackMsgId then db.feedback .frontLeft rxmsg
    else if rxmsg.sid = canChassisFrFeedbackMsgId then db.feedback .frontRight rxmsg
    else if rxmsg.sid = canChassisBlFeedbackMsgId then db.feedback .backLeft rxmsg
    else if rxmsg.sid = canChassisBrFeedbackMsgId then db.feedback .backRight rxmsg
    else db
  | .cand2 =>
    if rxmsg.sid = canRemoteReceiverId then
      { db with remoteCommand := canProcessRemoteCommand rxmsg }
    else db

def canMotorSetCurrent (eid : BitVec 16) (cm1 cm2 cm3 cm4 : Int16) : CANTxFrame where
  ide := false
  id := eid.setWidth 29
  rtr := false
  dlc := 8
  data8 := #v[
    UInt8.ofInt (cm1.toInt >>> (8 : Nat)), UInt8.ofInt cm1.toInt,
    UInt8.ofInt (cm2.toInt >>> (8 : Nat)), UInt8.ofInt cm2.toInt,
    UInt8.ofInt (cm3.toInt >>> (8 : Nat)), UInt8.ofInt cm3.toInt,
    UInt8.ofInt (cm4.toInt >>> (8 : Nat)), UInt8.ofInt cm4.toInt]

end SafetyTrolley
