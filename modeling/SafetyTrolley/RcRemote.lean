import SafetyTrolley.CanBus

/-! The joystick packet received on the serial port, and the width reading of
the time-of-flight sensor. -/

namespace SafetyTrolley

/-- `joystick_t`; the first three fields are packed at the start of the record. -/
structure Joystick where
  forceReading : Int32 := 0
  xReading : Int16 := 0
  yReading : Int16 := 0
  correctedForceReading : ℚ := 0
  deriving DecidableEq, Repr

def judgeBufferSize : Nat := 128

abbrev RxBuffer := Vector UInt8 judgeBufferSize

/-- The zeroed buffer after a read of the given bytes into it. -/
def RxBuffer.ofBytes (bytes : List UInt8) : RxBuffer := Vector.ofFn fun i => bytes.getD i 0

def serialPacket (p : Vector UInt8 8) : List UInt8 := 170 :: p.toList ++ [170]

def serialPayload (sdrxbuf : RxBuffer) : Vector UInt8 8 :=
  #v[sdrxbuf[1], sdrxbuf[2], sdrxbuf[3], sdrxbuf[4], sdrxbuf[5], sdrxbuf[6], sdrxbuf[7], sdrxbuf[8]]

def Joystick.ofPayload (p : Vector UInt8 8) : Joystick :=
  let forceReading := Int32.ofNat (Bytes.le32 p 0)
  { forceReading := forceReading
    xReading := Int16.ofNat (Bytes.le16 p 4)
    yReading := Int16.ofNat (Bytes.le16 p 6)
    correctedForceReading := (8315500 - forceReading.toInt) / 100 }

def serialAccepts (sdrxbuf : RxBuffer) : Bool := sdrxbuf[0] == 170 && sdrxbuf[9] == 170

structure RcData where
  joystick : Joystick := {}
  remoteData : RemoteCanStruct := {}
  deriving DecidableEq, Repr

def serialDecode (sdrxbuf : RxBuffer) (rc : RcData) : RcData :=
  if serialAccepts sdrxbuf then
    { joystick := Joystick.ofPayload (serialPayload sdrxbuf)
      remoteData := { rc.remoteData with updated := 1 } }
  else rc

inductive ICUDriver where
  | icud4 | icud5 | icud8
  deriving DecidableEq, Repr

def tofSensorsNum : Nat := 1

abbrev TofData := Vector UInt32 tofSensorsNum

-- The array has one element; a store past it has no meaning in C.
def TofData.store (lastWidth : TofData) (i : Nat) (w : UInt32) : Option TofData :=
  if h : i < tofSensorsNum then some (lastWidth.set i w h) else none

def icuWidthCb (icup : ICUDriver) (width : UInt32) (lastWidth : TofData) : Option TofData :=
  match icup with
  | .icud4 => lastWidth.store 0 (width / 100)
  | .icud5 => lastWidth.store 1 (width / 100)
  | .icud8 => lastWidth.store 2 (width / 100)

end SafetyTrolley
