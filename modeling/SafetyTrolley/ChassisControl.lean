import Mathlib.Data.Fin.VecNotation
import Mathlib.Data.Rat.Floor
import SafetyTrolley.RcRemote

/-! The closed loop of the four wheels and the control thread around it, over
exact rationals in place of `float`. -/

namespace SafetyTrolley

inductive MotorPos where
  | frontRight | backRight | frontLeft | backLeft
  deriving DecidableEq, Repr

theorem MotorPos.ctorIdx_lt (p : MotorPos) : p.ctorIdx < 4 := by
  cases p <;> decide

def MotorPos.index (p : MotorPos) : Fin 4 := ⟨p.ctorIdx, p.ctorIdx_lt⟩

inductive Movement where
  | MOVE | BREAK
  deriving DecidableEq, Repr

structure PidProfile where
  error : ℚ := 0
  lastError : ℚ := 0
  P : ℚ := 0
  I : ℚ := 0
  D : ℚ := 0
  deriving DecidableEq, Repr

def maxXJoystickVal : ℚ := 550
def xGain : ℚ := 0.8
def maxForceVal : ℚ := 5000
def forceGain : ℚ := 1.9
def forceDecay : ℚ := 1
def fError : ℚ := 200
def gearRatio : ℚ := 36
def rpm2Rps : ℚ := 60
def wheelCircum : ℚ := 0.08
def pi : ℚ := 3.14159265
def rpm2Mps (x : ℚ) : ℚ := x / gearRatio / rpm2Rps * wheelCircum * pi
def maxSpeed : ℚ := 1.5

structure Gains where
  kP : ℚ := 1000
  kI : ℚ := 0
  kD : ℚ := 0
  maxCurrent : ℚ := 10000
  maxI : ℚ := 100
  deriving DecidableEq, Repr

structure Controller where
  velCommand : Fin 4 → ℚ := fun _ => 0
  currentCommand : Fin 4 → ℚ := fun _ => 0
  wheelPID : Fin 4 → PidProfile := fun _ => {}
  lastForce : ℚ := 0
  sumForce : ℚ := 0
  gains : Gains := {}

def absLimit (a absMax : ℚ) : ℚ × Bool :=
  if a > absMax then (absMax, true)
  else if a < -absMax then (-absMax, true)
  else (a, false)

def moveDrive (stick : Joystick) (tofData : TofData) : ℚ :=
  if stick.correctedForceReading > 200 ∧ tofData[0] > 25 then
    stick.correctedForceReading / maxForceVal * forceGain
  else 0

def moveStrafe (stick : Joystick) : ℚ := (stick.xReading.toInt - 2050) / maxXJoystickVal * xGain

def driveSetpoint (move : Movement) (stick : Joystick) (tofData : TofData) : Fin 4 → ℚ :=
  match move with
  | .MOVE =>
    let drive := moveDrive stick tofData
    let strafe := moveStrafe stick
    let rotate := 0
    -- in the order of `MotorPos.index`
    ![-(-1 * rotate + strafe + drive) * maxSpeed,
      -(rotate + strafe + drive) * maxSpeed,
      (rotate - strafe + drive) * maxSpeed,
      (-1 * rotate - strafe + drive) * maxSpeed]
  | .BREAK => ![0, 0, 0, 0]

theorem driveSetpoint_break (stick : Joystick) (tofData : TofData) (i : Fin 4) :
    driveSetpoint .BREAK stick tofData i = 0 := by
  match i with
  | 0 | 1 | 2 | 3 => rfl

def wheelError (vel : ℚ) (rawSpeed : Int16) : ℚ := vel - rpm2Mps rawSpeed.toInt

def wheelCurrent (g : Gains) (error : ℚ) (pid : PidProfile) : ℚ × Bool :=
  absLimit (g.kP * error + g.kD * (error - pid.lastError) + pid.I * g.kI) g.maxCurrent

def wheelIntegral (g : Gains) (error : ℚ) (pid : PidProfile) : ℚ :=
  if (wheelCurrent g error pid).2 then 0 else error + pid.I

def wheelLoop (g : Gains) (vel : ℚ) (rawSpeed : Int16) (pid : PidProfile) : PidProfile × ℚ :=
  let error := wheelError vel rawSpeed
  ({ error := error
     P := g.kP * error
     D := g.kD * (error - pid.lastError)
     I := (absLimit (wheelIntegral g error pid) g.maxI).1
     lastError := error },
    (wheelCurrent g error pid).1)

-- Pass `i` of the loop reads and writes only the entries at `i`.
def wheelLoops (vel : Fin 4 → ℚ) (chassisData : Fin 4 → ChassisEncoderCanStruct) (c : Controller) :
    Controller :=
  { c with
    velCommand := vel
    wheelPID := fun i => (wheelLoop c.gains (vel i) (chassisData i).rawSpeed (c.wheelPID i)).1
    currentCommand := fun i => (wheelLoop c.gains (vel i) (chassisData i).rawSpeed (c.wheelPID i)).2 }

def driveCloseLoop (move : Movement) (stick : Joystick) (tofData : TofData)
    (chassisData : Fin 4 → ChassisEncoderCanStruct) (c : Controller) : Controller :=
  let c := match move with
    | .MOVE =>
      { c with
        lastForce := stick.correctedForceReading - fError
        sumForce := (c.sumForce + (stick.correctedForceReading - fError)) * forceDecay }
    | .BREAK => c
  wheelLoops (driveSetpoint move stick tofData) chassisData c

theorem driveCloseLoop_wheel (move : Movement) (stick : Joystick) (tofData : TofData)
    (data : Fin 4 → ChassisEncoderCanStruct) (c : Controller) (k : Fin 4) :
    let pass := wheelLoop c.gains (driveSetpoint move stick tofData k) (data k).rawSpeed
      (c.wheelPID k)
    (driveCloseLoop move stick tofData data c).wheelPID k = pass.1 ∧
      (driveCloseLoop move stick tofData data c).currentCommand k = pass.2 ∧
      (driveCloseLoop move stick tofData data c).gains = c.gains := by
  cases move <;> exact ⟨rfl, rfl, rfl⟩

def chassisControlThdStart (c : Controller) : Controller :=
  { c with
    gains := { c.gains with kP := 30000, kI := 1000, kD := 0, maxI := 100000 }
    velCommand := fun _ => 0
    currentCommand := fun _ => 0
    wheelPID := fun _ => {} }

def padMovement (pad : UInt32) : Movement := if pad = 0 then .MOVE else .BREAK

/-- The conversion of a real to an integer type, toward zero; the narrowing to
16 bits that follows it is only defined within their range. -/
def truncate (q : ℚ) : Int := if 0 ≤ q then ⌊q⌋ else ⌈q⌉

def motorFrame (currentCommand : Fin 4 → ℚ) : CANTxFrame :=
  canMotorSetCurrent canChassisControlId
    (Int16.ofInt (truncate (currentCommand MotorPos.frontRight.index)))
    (Int16.ofInt (truncate (currentCommand MotorPos.backRight.index)))
    (Int16.ofInt (truncate (currentCommand MotorPos.frontLeft.index)))
    (Int16.ofInt (truncate (currentCommand MotorPos.backLeft.index)))

def controlTick (pad : UInt32) (stick : Joystick) (tofData : TofData)
    (chassisData : Fin 4 → ChassisEncoderCanStruct) (c : Controller) : Controller × CANTxFrame :=
  let c := driveCloseLoop (padMovement pad) stick tofData chassisData c
  (c, motorFrame c.currentCommand)

end SafetyTrolley
