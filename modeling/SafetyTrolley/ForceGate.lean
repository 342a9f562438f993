import SafetyTrolley.Firmware

/-! When the trolley is commanded forward, in terms of the events so far and
of nothing else: the pad, the latest capture and the latest accepted packet. -/

namespace SafetyTrolley

def FirmwareEvent.capture : FirmwareEvent → Option UInt32
  | .width _ w => some w
  | _ => none

def FirmwareEvent.acceptance : FirmwareEvent → Option Joystick
  | .burst sdrxbuf =>
    if serialAccepts sdrxbuf then some (Joystick.ofPayload (serialPayload sdrxbuf)) else none
  | _ => none

def latestWidth (es : List FirmwareEvent) : Option UInt32 :=
  (es.filterMap FirmwareEvent.capture).getLast?

def latestPacket (es : List FirmwareEvent) : Option Joystick :=
  (es.filterMap FirmwareEvent.acceptance).getLast?

@[simp] theorem latestWidth_concat (es : List FirmwareEvent) (e : FirmwareEvent) :
    latestWidth (es ++ [e]) = e.capture.or (latestWidth es) := by
  cases h : e.capture <;> simp [latestWidth, List.filterMap_append, h]

@[simp] theorem latestPacket_concat (es : List FirmwareEvent) (e : FirmwareEvent) :
    latestPacket (es ++ [e]) = e.acceptance.or (latestPacket es) := by
  cases h : e.acceptance <;> simp [latestPacket, List.filterMap_append, h]

namespace Firmware

structure Tracks (es : List FirmwareEvent) (s : Firmware) : Prop where
  width : s.lastWidth[0] = (latestWidth es).elim 0 (· / 100)
  packet : s.rc.joystick = (latestPacket es).getD {}
  no_width : s.main = .tofInit → latestWidth es = none
  no_packet : s.main = .tofInit ∨ s.main = .judgeInit → latestPacket es = none

theorem Tracks.step {es : List FirmwareEvent} {s t : Firmware} {e : FirmwareEvent}
    (h : Tracks es s) (he : s.step e = some t) : Tracks (es ++ [e]) t := by
  obtain ⟨hwidth, hpacket, hnw, hnp⟩ := h
  cases e with
  | main =>
    cases hm : s.main <;> simp only [Firmware.step, mainStep, hm] at he <;> cases he <;>
      constructor <;> simp_all [FirmwareEvent.capture, FirmwareEvent.acceptance]
  | width icup w =>
    simp only [Firmware.step] at he
    split_ifs at he with hen
    obtain ⟨hmain, rfl⟩ := hen
    cases he
    constructor <;> simp_all [FirmwareEvent.capture, FirmwareEvent.acceptance]
  | burst sdrxbuf =>
    simp only [Firmware.step] at he
    split_ifs at he with hen
    cases he
    cases hacc : serialAccepts sdrxbuf <;> constructor <;>
      simp_all [FirmwareEvent.capture, FirmwareEvent.acceptance, serialDecode]
  | frame canp rxmsg =>
    simp only [Firmware.step] at he
    split_ifs at he
    cases he
    constructor <;> simp_all [FirmwareEvent.capture, FirmwareEvent.acceptance]
  | tick pad =>
    simp only [Firmware.step] at he
    split_ifs at he
    cases he
    constructor <;> simp_all [FirmwareEvent.capture, FirmwareEvent.acceptance, tick]

theorem tracks {es : List FirmwareEvent} {s : Firmware} (h : run es = some s) : Tracks es s :=
  Machine.run_induction (P := Tracks) ⟨rfl, rfl, fun _ => rfl, fun _ => rfl⟩
    (fun _ _ _ _ _ hs he => hs.step he) h

theorem driveSetpoint_move (stick : Joystick) (tofData : TofData) (p : MotorPos) :
    driveSetpoint .MOVE stick tofData p.index =
      (match p with
        | .frontRight | .backRight => -(moveStrafe stick + moveDrive stick tofData)
        | .frontLeft | .backLeft => moveDrive stick tofData - moveStrafe stick) * maxSpeed := by
  cases p with
  | frontRight =>
    change -(-1 * 0 + moveStrafe stick + moveDrive stick tofData) * maxSpeed = _
    ring
  | backRight =>
    change -(0 + moveStrafe stick + moveDrive stick tofData) * maxSpeed = _
    ring
  | frontLeft =>
    change (0 - moveStrafe stick + moveDrive stick tofData) * maxSpeed = _
    ring
  | backLeft =>
    change (-1 * 0 - moveStrafe stick + moveDrive stick tofData) * maxSpeed = _
    ring

def netForward (s : Firmware) : ℚ :=
  s.control.velCommand MotorPos.frontLeft.index + s.control.velCommand MotorPos.backLeft.index -
    s.control.velCommand MotorPos.frontRight.index - s.control.velCommand MotorPos.backRight.index

theorem tick_netForward (s : Firmware) (pad : UInt32) :
    (s.tick pad).netForward = if pad = 0 then 6 * moveDrive s.rc.joystick s.lastWidth else 0 := by
  simp only [netForward, tick_velCommand, padMovement]
  split_ifs
  · simp only [driveSetpoint_move, maxSpeed]
    ring
  · simp [driveSetpoint_break]

end Firmware

def ForwardGate (es : List FirmwareEvent) (pad : UInt32) : Prop :=
  pad = 0 ∧ (∃ w, latestWidth es = some w ∧ 2600 ≤ w) ∧
    ∃ j, latestPacket es = some j ∧ j.forceReading.toInt < 8295500

theorem moveDrive_nonneg (stick : Joystick) (tofData : TofData) : 0 ≤ moveDrive stick tofData := by
  unfold moveDrive maxForceVal forceGain
  split_ifs with h
  · have := h.1
    positivity
  · exact le_rfl

theorem moveDrive_pos_iff (stick : Joystick) (tofData : TofData) :
    0 < moveDrive stick tofData ↔ 200 < stick.correctedForceReading ∧ (25 : UInt32) < tofData[0] := by
  unfold moveDrive maxForceVal forceGain
  split_ifs with h
  · have := h.1
    exact iff_of_true (by positivity) h
  · exact iff_of_false (lt_irrefl 0) h

theorem gate_width_iff (w : Option UInt32) :
    25 < w.elim 0 (· / 100) ↔ ∃ v, w = some v ∧ 2600 ≤ v := by
  cases w with
  | none => simp
  | some v =>
    simp only [Option.elim_some, Option.some.injEq, exists_eq_left', UInt32.lt_iff_toNat_lt,
      UInt32.le_iff_toNat_le, UInt32.toNat_div]
    change 25 < v.toNat / 100 ↔ 2600 ≤ v.toNat
    omega

theorem acceptance_ofPayload {e : FirmwareEvent} {j : Joystick} (h : e.acceptance = some j) :
    ∃ p, j = Joystick.ofPayload p := by
  cases e with
  | burst sdrxbuf =>
    simp only [FirmwareEvent.acceptance] at h
    split_ifs at h
    cases h
    exact ⟨_, rfl⟩
  | _ => simp [FirmwareEvent.acceptance] at h

theorem latestPacket_ofPayload {es : List FirmwareEvent} {j : Joystick}
    (h : latestPacket es = some j) : ∃ p, j = Joystick.ofPayload p := by
  obtain ⟨e, _, he⟩ := List.mem_filterMap.mp (List.mem_of_getLast? h)
  exact acceptance_ofPayload he

theorem gate_force_iff (es : List FirmwareEvent) :
    200 < ((latestPacket es).getD {}).correctedForceReading ↔
      ∃ j, latestPacket es = some j ∧ j.forceReading.toInt < 8295500 := by
  cases h : latestPacket es with
  | none => simp
  | some j =>
    obtain ⟨p, rfl⟩ := latestPacket_ofPayload h
    simp only [Option.getD_some, Option.some.injEq, exists_eq_left', Joystick.ofPayload]
    generalize (Int32.ofNat (Bytes.le32 p 0)).toInt = force
    rw [lt_div_iff₀ (by norm_num)]
    constructor
    · intro hh
      have : (force : ℚ) < 8295500 := by linarith
      exact_mod_cast this
    · intro hh
      have : (force : ℚ) < 8295500 := by exact_mod_cast hh
      linarith

/-- The trolley is never driven backward, and driven forward exactly under the
gate, whatever the x reading and the earlier history. -/
theorem forward_iff_gate (es : List FirmwareEvent) (pad : UInt32) (s t : Firmware)
    (hs : Firmware.run es = some s) (ht : s.step (.tick pad) = some t) :
    0 ≤ t.netForward ∧ (0 < t.netForward ↔ ForwardGate es pad) ∧
      (¬ ForwardGate es pad → t.netForward = 0) := by
  have htr := Firmware.tracks hs
  obtain ⟨_, rfl⟩ := Firmware.tick_of_step ht
  have hnonneg : 0 ≤ (s.tick pad).netForward := by
    rw [Firmware.tick_netForward]
    split_ifs
    · linarith [moveDrive_nonneg s.rc.joystick s.lastWidth]
    · exact le_rfl
  have hgate : 0 < (s.tick pad).netForward ↔ ForwardGate es pad := by
    rw [Firmware.tick_netForward, ForwardGate]
    split_ifs with hpad
    · have hsix : 0 < 6 * moveDrive s.rc.joystick s.lastWidth ↔
          0 < moveDrive s.rc.joystick s.lastWidth := by
        constructor <;> intro h <;> linarith
      rw [hsix, moveDrive_pos_iff, htr.width, htr.packet, gate_width_iff, gate_force_iff]
      simp only [hpad, true_and, and_comm]
    · simp [hpad]
  refine ⟨hnonneg, hgate, fun hno => ?_⟩
  exact le_antisymm (not_lt.mp (mt hgate.mp hno)) hnonneg

theorem forward_pushThenTurn : ∃ s t, Firmware.run Firmware.pushThenTurn = some s ∧
    s.step (.tick 0) = some t ∧ 0 ≤ t.netForward ∧
    (0 < t.netForward ↔ ForwardGate Firmware.pushThenTurn 0) ∧
    (¬ ForwardGate Firmware.pushThenTurn 0 → t.netForward = 0) := by
  obtain ⟨s, hs, hm⟩ := Firmware.run_pushThenTurn
  have ht := Firmware.step_tick hm 0
  exact ⟨s, s.tick 0, hs, ht, forward_iff_gate _ 0 s _ hs ht⟩

end SafetyTrolley
