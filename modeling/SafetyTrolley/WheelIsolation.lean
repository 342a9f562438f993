import SafetyTrolley.EncoderDispatch
import SafetyTrolley.Lib.Projection
import SafetyTrolley.MotorFrame

/-! The path from a motor's feedback to the current sent back to it. The
motor frames and the control ticks form a machine of their own, in which the
slot of a motor depends on its own frames and on no other's. -/

namespace SafetyTrolley

structure WheelPath where
  can : CanData := {}
  control : Controller := {}

/-- A message from the motors' bus, or a pass of the control thread with the
pad level, joystick record and sensor reading that it finds. -/
inductive WheelEvent where
  | frame (rxmsg : CANRxFrame)
  | tick (pad : UInt32) (stick : Joystick) (tofData : TofData)
  deriving DecidableEq

namespace WheelPath

def step (s : WheelPath) : WheelEvent → WheelPath
  | .frame rxmsg => { s with can := canProcessEncoderMessage .cand1 rxmsg s.can }
  | .tick pad stick tofData =>
    { s with control := (controlTick pad stick tofData s.can.chassisEncoder s.control).1 }

def transmit (s : WheelPath) : WheelEvent → Option CANTxFrame
  | .frame _ => none
  | .tick pad stick tofData =>
    some (controlTick pad stick tofData s.can.chassisEncoder s.control).2

def sent (s : WheelPath) (es : List WheelEvent) : List CANTxFrame :=
  Machine.outputs step transmit s es

end WheelPath

def WheelEvent.concerns (k : Fin 4) : WheelEvent → Bool
  | .frame rxmsg => rxmsg.sid == feedbackId k
  | .tick _ _ _ => true

def WheelPath.wheel (k : Fin 4) (s : WheelPath) : ChassisEncoderCanStruct × PidProfile × Gains :=
  (s.can.chassisEncoder k, s.control.wheelPID k, s.control.gains)

theorem wheel_isolated (k : Fin 4) :
    Machine.Isolated WheelPath.step (WheelPath.wheel k) (WheelEvent.concerns k) where
  frame s e he := by
    cases e with
    | tick => simp [WheelEvent.concerns] at he
    | frame rxmsg =>
      have hno : isFeedback k .cand1 rxmsg = false := by
        simpa [isFeedback, WheelEvent.concerns] using he
      simp [WheelPath.wheel, WheelPath.step, canProcessEncoderMessage_chassisEncoder, hno]
  determined s t e he hst := by
    simp only [WheelPath.wheel, Prod.mk.injEq] at hst ⊢
    obtain ⟨hdata, hpid, hgains⟩ := hst
    cases e with
    | frame rxmsg =>
      refine ⟨?_, hpid, hgains⟩
      simp only [WheelPath.step, canProcessEncoderMessage_chassisEncoder, hdata]
    | tick pad stick tofData =>
      refine ⟨hdata, ?_, ?_⟩
      · simp only [WheelPath.step, controlTick, (driveCloseLoop_wheel _ _ _ _ _ k).1, hdata, hpid,
          hgains]
      · simp only [WheelPath.step, controlTick, (driveCloseLoop_wheel _ _ _ _ _ k).2.2, hgains]

namespace Firmware

def wheelPath (s : Firmware) : WheelPath where
  can := s.can
  control := s.control

def wheelEvent (s : Firmware) : FirmwareEvent → Option WheelEvent
  | .frame .cand1 rxmsg => some (.frame rxmsg)
  | .tick pad => some (.tick pad s.rc.joystick s.lastWidth)
  | _ => none

theorem step_wheel {s t : Firmware} {e : FirmwareEvent} (hm : s.main = .idle) (h : s.step e = some t)
    (k : Fin 4) : t.main = .idle ∧
      t.wheelPath.wheel k = ((s.wheelEvent e).elim s.wheelPath s.wheelPath.step).wheel k := by
  cases e with
  | main => simp [step, mainStep, hm] at h
  | width icup w =>
    simp only [step] at h
    split_ifs at h
    obtain ⟨lastWidth, _, rfl⟩ := Option.map_eq_some_iff.mp h
    exact ⟨hm, rfl⟩
  | burst sdrxbuf =>
    simp only [step] at h
    split_ifs at h
    cases h
    exact ⟨hm, rfl⟩
  | frame canp rxmsg =>
    simp only [step] at h
    split_ifs at h
    cases h
    cases canp with
    | cand1 => exact ⟨hm, rfl⟩
    | cand2 =>
      have hno : isFeedback k .cand2 rxmsg = false := rfl
      refine ⟨hm, ?_⟩
      simp [wheelEvent, wheelPath, WheelPath.wheel, canProcessEncoderMessage_chassisEncoder, hno]
  | tick pad =>
    obtain ⟨_, rfl⟩ := tick_of_step h
    exact ⟨hm, rfl⟩

/-- Once started, the firmware runs the wheel path, seen from any one wheel. -/
theorem run_wheel {s t : Firmware} {es : List FirmwareEvent} (hm : s.main = .idle)
    (h : Machine.run step s es = some t) :
    ∃ ws : List WheelEvent, ∀ k, t.wheelPath.wheel k =
      (ws.foldl WheelPath.step s.wheelPath).wheel k := by
  refine (Machine.run_induction (P := fun _ m => m.main = .idle ∧ ∃ ws : List WheelEvent,
    ∀ k, m.wheelPath.wheel k = (ws.foldl WheelPath.step s.wheelPath).wheel k)
    ⟨hm, [], fun _ => rfl⟩ ?_ h).2
  rintro _ m e m' - ⟨hidle, ws, hws⟩ he
  refine ⟨(step_wheel hidle he 0).1, ws ++ (m.wheelEvent e).toList, fun k => ?_⟩
  rw [(step_wheel hidle he k).2, List.foldl_append]
  cases m.wheelEvent e with
  | none => exact hws k
  | some w => exact (wheel_isolated k).congr (hws k) w

end Firmware

theorem transmit_slot {k : Fin 4} {s t : WheelPath} (e : WheelEvent) (hst : s.wheel k = t.wheel k) :
    (s.transmit e).map (·.slot k) = (t.transmit e).map (·.slot k) := by
  simp only [WheelPath.wheel, Prod.mk.injEq] at hst
  obtain ⟨hdata, hpid, hgains⟩ := hst
  cases e with
  | frame rxmsg => rfl
  | tick pad stick tofData =>
    simp only [WheelPath.transmit, Option.map_some, controlTick, motorFrame_slot,
      (driveCloseLoop_wheel _ _ _ _ _ k).2.1, hdata, hpid, hgains]

/-- The slot of motor `0x201 + k` closes the loop on that motor's own frames:
the frames with other identifiers may differ in any way between two runs. -/
theorem wheel_slot_isolated (k : Fin 4) (s : WheelPath) (es es' : List WheelEvent)
    (h : es.filter (WheelEvent.concerns k) = es'.filter (WheelEvent.concerns k)) :
    (s.sent es).map (·.slot k) = (s.sent es').map (·.slot k) :=
  (wheel_isolated k).outputs_congr
    (fun s e he => by cases e <;> simp_all [WheelEvent.concerns, WheelPath.transmit])
    (fun s t e _ hst => transmit_slot e hst) rfl h

theorem wheel_slot_isolated_sample :
    let es : List WheelEvent := [.frame (Firmware.motorFeedback 0x202 9),
      .frame (Firmware.motorFeedback 0x201 1), .tick 1 {} #v[0]]
    let es' : List WheelEvent := [.frame (Firmware.motorFeedback 0x201 1), .tick 1 {} #v[0]]
    (WheelPath.sent {} es).map (·.slot 0) = (WheelPath.sent {} es').map (·.slot 0) :=
  wheel_slot_isolated 0 {} _ _ (by decide)

end SafetyTrolley
