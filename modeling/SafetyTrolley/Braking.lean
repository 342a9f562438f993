import SafetyTrolley.Firmware
import SafetyTrolley.Integrator

/-! What a braking tick commands. The setpoint is zero, but the integral that
was accumulated while moving still takes part. -/

namespace SafetyTrolley

namespace Firmware

/-- Until the control thread starts, the gains are those of the initialisers;
from then on its integrals stay within the abstract loop's bound. -/
structure ControlOk (s : Firmware) : Prop where
  before : s.main ≠ .idle → s.control.gains = {}
  started : s.main = .idle → s.control.Refines threadGains_admissible

theorem ControlOk.step {s t : Firmware} {e : FirmwareEvent} (h : s.ControlOk)
    (he : s.step e = some t) : t.ControlOk := by
  rcases step_control he with ⟨pad, _, hm, rfl⟩ | ⟨hm, ht, hc⟩ | ⟨hc, hm⟩
  · have hidle : (s.tick pad).main = .idle := hm
    refine ⟨fun hno => absurd hidle hno, fun _ => ?_⟩
    exact (h.started hm).apply
      (.drive (padMovement pad) s.rc.joystick s.lastWidth s.can.chassisEncoder)
  · refine ⟨fun hno => absurd ht hno, fun _ => ?_⟩
    have hgains : t.control.gains = threadGains := by
      rw [hc, chassisControlThdStart, h.before hm]
      rfl
    refine ⟨hgains, fun i => ⟨(threadGains.loop threadGains_admissible).zero, ?_⟩⟩
    rw [hc]
    rfl
  · refine ⟨fun hno => ?_, fun hidle => ?_⟩
    · rw [hc]
      exact h.before (mt hm.mpr hno)
    · rw [hc]
      exact h.started (hm.mp hidle)

theorem controlOk {es : List FirmwareEvent} {s : Firmware} (h : run es = some s) : s.ControlOk :=
  Machine.run_invariant ⟨fun _ => rfl, fun h => by cases h⟩ (fun _ _ _ hs he => hs.step he) h

end Firmware

theorem rpm2Mps_mul_self (x : ℚ) : rpm2Mps x * x = rpm2Mps 1 * |x| ^ 2 := by
  simp only [rpm2Mps, gearRatio, rpm2Rps, wheelCircum, pi, sq_abs]
  ring

theorem integral_outweighed {I raw : ℚ} (hI : |I| ≤ 10) (hraw : 2865 ≤ |raw|) :
    I * raw ≤ 30 * (rpm2Mps raw * raw) := by
  have hunit : (10 : ℚ) ≤ 30 * rpm2Mps 1 * 2865 := by
    norm_num [rpm2Mps, gearRatio, rpm2Rps, wheelCircum, pi]
  have hrate : 0 ≤ 30 * rpm2Mps 1 := by
    norm_num [rpm2Mps, gearRatio, rpm2Rps, wheelCircum, pi]
  calc I * raw ≤ |I| * |raw| := (le_abs_self _).trans_eq (abs_mul I raw)
    _ ≤ 10 * |raw| := mul_le_mul_of_nonneg_right hI (abs_nonneg raw)
    _ ≤ 30 * rpm2Mps 1 * 2865 * |raw| := mul_le_mul_of_nonneg_right hunit (abs_nonneg raw)
    _ ≤ 30 * rpm2Mps 1 * |raw| * |raw| :=
        mul_le_mul_of_nonneg_right (mul_le_mul_of_nonneg_left hraw hrate) (abs_nonneg raw)
    _ = 30 * (rpm2Mps raw * raw) := by rw [rpm2Mps_mul_self]; ring

namespace Firmware

theorem tick_break_current {s : Firmware} {pad : UInt32} (hpad : pad ≠ 0) {i : Fin 4}
    {I : (threadGains.loop threadGains_admissible).Integral}
    (hgains : s.control.gains = threadGains) (hI : (s.control.wheelPID i).I = I.val) :
    (s.tick pad).control.currentCommand i =
      (threadGains.loop threadGains_admissible).command
        (-rpm2Mps (s.can.chassisEncoder i).rawSpeed.toInt) I := by
  have hbreak : padMovement pad = .BREAK := if_neg hpad
  have hcurrent := (driveCloseLoop_wheel (padMovement pad) s.rc.joystick s.lastWidth
    s.can.chassisEncoder s.control i).2.1
  rw [hbreak, hgains, driveSetpoint_break, (wheelLoop_refines threadGains_admissible hI 0 _).2,
    wheelError, zero_sub] at hcurrent
  rw [← hcurrent, ← hbreak]
  rfl

/-- A braking tick opposes the wheel exactly as long as the integral left over
from moving is outweighed, which a fast wheel guarantees. -/
theorem brake_opposes_iff (es : List FirmwareEvent) (pad : UInt32) (s t : Firmware)
    (hs : run es = some s) (ht : s.step (.tick pad) = some t) (hpad : pad ≠ 0) (i : Fin 4) :
    let raw : ℚ := (s.can.chassisEncoder i).rawSpeed.toInt
    let I := (s.control.wheelPID i).I
    (t.control.currentCommand i * raw ≤ 0 ↔ I * raw ≤ 30 * (rpm2Mps raw * raw)) ∧
      |I| ≤ 10 ∧ (2865 ≤ |raw| → t.control.currentCommand i * raw ≤ 0) := by
  intro raw I
  obtain ⟨hidle, rfl⟩ := tick_of_step ht
  obtain ⟨hgains, hinv⟩ := (controlOk hs).started hidle
  obtain ⟨J, hJ⟩ := hinv i
  have hI : |I| ≤ 10 := by
    have hbound : threadGains.maxCurrent / threadGains.kI = 10 := by norm_num [threadGains]
    rw [← hbound, show I = J.val from hJ]
    exact J.property
  have hiff : (s.tick pad).control.currentCommand i * raw ≤ 0 ↔
      I * raw ≤ 30 * (rpm2Mps raw * raw) := by
    rw [tick_break_current hpad hgains hJ, Saturation.PI.command,
      Saturation.clamp_mul_nonpos_iff (Saturation.PI.limit_pos _), Saturation.PI.demand, ← hJ]
    change (30000 * -rpm2Mps raw + 1000 * I) * raw ≤ 0 ↔ _
    constructor <;> intro h <;> linarith
  exact ⟨hiff, hI, fun hfast => hiff.mpr (integral_outweighed hI hfast)⟩

theorem brake_opposes_pushThenTurn : ∃ s, run pushThenTurn = some s ∧
    let raw : ℚ := (s.can.chassisEncoder 2).rawSpeed.toInt
    let I := (s.control.wheelPID 2).I
    ((s.tick 1).control.currentCommand 2 * raw ≤ 0 ↔ I * raw ≤ 30 * (rpm2Mps raw * raw)) ∧
      |I| ≤ 10 ∧ (2865 ≤ |raw| → (s.tick 1).control.currentCommand 2 * raw ≤ 0) := by
  obtain ⟨s, hs, hm⟩ := run_pushThenTurn
  exact ⟨s, hs, brake_opposes_iff pushThenTurn 1 s _ hs (step_tick hm 1) (by decide) 2⟩

theorem brake_drives_wheel : ¬ ∀ es pad s t, run es = some s → s.step (.tick pad) = some t → pad ≠ 0 →
    ∀ i, t.control.currentCommand i * ((s.can.chassisEncoder i).rawSpeed.toInt : ℚ) ≤ 0 := by
  intro h
  have hrun : (run pushThenTurn).any (fun s => (s.step (.tick 1)).any fun t =>
      decide (0 < t.control.currentCommand 2 *
        ((s.can.chassisEncoder 2).rawSpeed.toInt : ℚ))) = true := by
    decide +kernel
  obtain ⟨s, hs, hstep⟩ := (Option.any_eq_true _ _).mp hrun
  obtain ⟨t, ht, hpos⟩ := (Option.any_eq_true _ _).mp hstep
  exact (h pushThenTurn 1 s t hs ht (by decide) 2).not_gt (of_decide_eq_true hpos)

end Firmware

end SafetyTrolley
