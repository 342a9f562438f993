import SafetyTrolley.Lib.Machine
import SafetyTrolley.ChassisControl

/-! The chassis firmware as a machine: the start-up calls of `main`, and the
four activities they start, whose events interleave freely from then on. -/

namespace SafetyTrolley

inductive MainPc where
  | tofInit | judgeInit | canProcessInit | chassisInit | idle
  deriving DecidableEq, Repr

structure Firmware where
  main : MainPc := .tofInit
  lastWidth : TofData := Vector.replicate tofSensorsNum 0
  rc : RcData := {}
  can : CanData := {}
  control : Controller := {}

/-- `width` is a capture of an input timer, `burst` the buffer that the serial
thread hands to the decoder, `frame` a message taken from a CAN driver, and
`tick` one pass of the control thread with the level it reads on its pad. -/
inductive FirmwareEvent where
  | main
  | width (icup : ICUDriver) (w : UInt32)
  | burst (sdrxbuf : RxBuffer)
  | frame (canp : CANDriver) (rxmsg : CANRxFrame)
  | tick (pad : UInt32)
  deriving DecidableEq

namespace Firmware

def mainStep (s : Firmware) : Option Firmware :=
  match s.main with
  | .tofInit => some { s with main := .judgeInit, lastWidth := Vector.replicate tofSensorsNum 0 }
  | .judgeInit => some { s with main := .canProcessInit, rc := {} }
  | .canProcessInit =>
    some { s with main := .chassisInit, can := { s.can with remoteCommand := {} } }
  | .chassisInit => some { s with main := .idle, control := chassisControlThdStart s.control }
  | .idle => none

def controlPass (s : Firmware) (pad : UInt32) : Controller × CANTxFrame :=
  controlTick pad s.rc.joystick s.lastWidth s.can.chassisEncoder s.control

def tick (s : Firmware) (pad : UInt32) : Firmware :=
  { s with
    control := (s.controlPass pad).1
    rc := { s.rc with remoteData := { s.rc.remoteData with updated := 0 } } }

def transmitted (s : Firmware) (pad : UInt32) : CANTxFrame := (s.controlPass pad).2

-- An activity has no events before its start-up call; only the fourth timer is ever started.
def step (s : Firmware) : FirmwareEvent → Option Firmware
  | .main => s.mainStep
  | .width icup w =>
    if s.main ≠ .tofInit ∧ icup = .icud4 then
      (icuWidthCb icup w s.lastWidth).map fun lastWidth => { s with lastWidth := lastWidth }
    else none
  | .burst sdrxbuf =>
    if s.main ≠ .tofInit ∧ s.main ≠ .judgeInit then
      some { s with rc := serialDecode sdrxbuf s.rc }
    else none
  | .frame canp rxmsg =>
    if s.main = .chassisInit ∨ s.main = .idle then
      some { s with can := canProcessEncoderMessage canp rxmsg s.can }
    else none
  | .tick pad => if s.main = .idle then some (s.tick pad) else none

/-- The controller changes in two ways only: it is started by `main`, or it ticks. -/
theorem step_control {s t : Firmware} {e : FirmwareEvent} (h : s.step e = some t) :
    (∃ pad, e = .tick pad ∧ s.main = .idle ∧ t = s.tick pad) ∨
    (s.main ≠ .idle ∧ t.main = .idle ∧ t.control = chassisControlThdStart s.control) ∨
    (t.control = s.control ∧ (t.main = .idle ↔ s.main = .idle)) := by
  cases e with
  | main =>
    cases hm : s.main <;> simp only [step, mainStep, hm] at h <;> cases h <;> simp
  | width icup w =>
    simp only [step] at h
    split_ifs at h
    obtain ⟨lastWidth, _, rfl⟩ := Option.map_eq_some_iff.mp h
    simp
  | burst sdrxbuf =>
    simp only [step] at h
    split_ifs at h
    cases h
    simp
  | frame canp rxmsg =>
    simp only [step] at h
    split_ifs at h
    cases h
    simp
  | tick pad =>
    simp only [step] at h
    split_ifs at h with hm
    cases h
    exact Or.inl ⟨pad, rfl, hm, rfl⟩

theorem tick_of_step {s t : Firmware} {pad : UInt32} (h : s.step (.tick pad) = some t) :
    s.main = .idle ∧ t = s.tick pad := by
  simp only [step] at h
  split_ifs at h with hm
  exact ⟨hm, (Option.some.inj h).symm⟩

theorem step_tick {s : Firmware} (hm : s.main = .idle) (pad : UInt32) :
    s.step (.tick pad) = some (s.tick pad) := if_pos hm

theorem tick_velCommand (s : Firmware) (pad : UInt32) :
    (s.tick pad).control.velCommand = driveSetpoint (padMovement pad) s.rc.joystick s.lastWidth := by
  simp only [tick, controlPass, controlTick, driveCloseLoop]
  cases padMovement pad <;> rfl

abbrev run (es : List FirmwareEvent) : Option Firmware := Machine.run step {} es

def motorFeedback (id : BitVec 29) (speed : UInt8) : CANRxFrame where
  dlc := 8
  rtr := false
  ide := false
  id := id
  data8 := #v[0, 0, 0, speed, 0, 0, 0, 0]

def startUp : List FirmwareEvent := [.main, .main, .main, .main]

def pushThenTurn : List FirmwareEvent :=
  startUp ++ [.width .icud4 2600,
    .burst (RxBuffer.ofBytes (serialPacket #v[60, 109, 126, 0, 2, 8, 0, 0])), .tick 0,
    .frame .cand1 (motorFeedback 0x203 1)]

theorem run_pushThenTurn : ∃ s, run pushThenTurn = some s ∧ s.main = .idle := by
  have hrun : (run pushThenTurn).any (fun s => decide (s.main = .idle)) = true := by decide +kernel
  obtain ⟨s, hs, hm⟩ := (Option.any_eq_true _ _).mp hrun
  exact ⟨s, hs, of_decide_eq_true hm⟩

end Firmware

end SafetyTrolley
