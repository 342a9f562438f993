import SafetyTrolley.Lib.Saturation
import SafetyTrolley.ChassisControl

/-! The wheel loop as a saturated proportional-integral loop. Its integral
stays within the saturation of the command, far below the limit in the code. -/

namespace SafetyTrolley

open Saturation

theorem absLimit_fst {a m : ℚ} (hm : 0 ≤ m) : (absLimit a m).1 = clamp m a := by
  unfold absLimit
  split_ifs with hhi hlo
  · exact (clamp_of_le hm hhi.le).symm
  · have h := clamp_of_le hm (show m ≤ -a by linarith)
    rw [clamp_neg m a hm] at h
    exact (neg_eq_iff_eq_neg.mp h).symm
  · exact (clamp_of_abs_le (abs_le.mpr ⟨not_lt.mp hlo, not_lt.mp hhi⟩)).symm

theorem absLimit_snd (a m : ℚ) : (absLimit a m).2 = false ↔ |a| ≤ m := by
  unfold absLimit
  split_ifs with hhi hlo <;> simp only [false_iff, true_iff, not_le]
  · exact lt_of_lt_of_le hhi (le_abs_self a)
  · exact lt_of_lt_of_le (by linarith) (neg_le_abs a)
  · exact abs_le.mpr ⟨not_lt.mp hlo, not_lt.mp hhi⟩

theorem absLimit_of_abs_le {a m : ℚ} (h : |a| ≤ m) : absLimit a m = (a, false) := by
  obtain ⟨hlo, hhi⟩ := abs_le.mp h
  rw [absLimit, if_neg hhi.not_gt, if_neg hlo.not_gt]

/-- The tunings for which the clamp on the integral is out of reach. -/
structure Gains.Admissible (g : Gains) : Prop where
  kI_pos : 0 < g.kI
  kI_le_kP : g.kI ≤ g.kP
  kD_zero : g.kD = 0
  maxCurrent_pos : 0 < g.maxCurrent
  bound_le_maxI : g.maxCurrent / g.kI ≤ g.maxI

def threadGains : Gains where
  kP := 30000
  kI := 1000
  kD := 0
  maxCurrent := 10000
  maxI := 100000

theorem threadGains_admissible : threadGains.Admissible where
  kI_pos := by norm_num [threadGains]
  kI_le_kP := by norm_num [threadGains]
  kD_zero := rfl
  maxCurrent_pos := by norm_num [threadGains]
  bound_le_maxI := by norm_num [threadGains]

def Gains.loop (g : Gains) (hg : g.Admissible) : PI ℚ where
  kP := g.kP
  kI := g.kI
  limit := g.maxCurrent
  kI_pos := hg.kI_pos
  kI_le_kP := hg.kI_le_kP
  limit_pos := hg.maxCurrent_pos

section Refinement

variable {g : Gains} (hg : g.Admissible) {pid : PidProfile} {I : (g.loop hg).Integral}

theorem wheelCurrent_refines (hI : pid.I = I.val) (e : ℚ) :
    (wheelCurrent g e pid).1 = (g.loop hg).command e I ∧
      ((wheelCurrent g e pid).2 = false ↔ |(g.loop hg).demand e I| ≤ (g.loop hg).limit) := by
  have hdemand : g.kP * e + g.kD * (e - pid.lastError) + pid.I * g.kI = (g.loop hg).demand e I := by
    rw [hg.kD_zero, hI, zero_mul, add_zero, mul_comm I.val]
    rfl
  rw [wheelCurrent, hdemand]
  exact ⟨absLimit_fst hg.maxCurrent_pos.le, absLimit_snd _ _⟩

theorem wheelIntegral_refines (hI : pid.I = I.val) (e : ℚ) :
    wheelIntegral g e pid = ((g.loop hg).next e I).val := by
  have hsat := (wheelCurrent_refines hg hI e).2
  by_cases h : |(g.loop hg).demand e I| ≤ (g.loop hg).limit
  · rw [wheelIntegral, hsat.mpr h, PI.next, dif_pos h, hI]
    rfl
  · have htrue : (wheelCurrent g e pid).2 = true := by
      simpa using mt hsat.mp h
    rw [wheelIntegral, htrue, PI.next, dif_neg h]
    rfl

theorem wheelIntegral_unclamped (hI : pid.I = I.val) (e : ℚ) :
    absLimit (wheelIntegral g e pid) g.maxI = (wheelIntegral g e pid, false) := by
  apply absLimit_of_abs_le
  rw [wheelIntegral_refines hg hI]
  exact ((g.loop hg).next e I).property.trans hg.bound_le_maxI

theorem wheelLoop_refines (hI : pid.I = I.val) (vel : ℚ) (rawSpeed : Int16) :
    (wheelLoop g vel rawSpeed pid).1.I = ((g.loop hg).next (wheelError vel rawSpeed) I).val ∧
      (wheelLoop g vel rawSpeed pid).2 = (g.loop hg).command (wheelError vel rawSpeed) I := by
  refine ⟨?_, (wheelCurrent_refines hg hI _).1⟩
  rw [← wheelIntegral_refines hg hI]
  exact congrArg Prod.fst (wheelIntegral_unclamped hg hI _)

end Refinement

/-- A call of `driveCloseLoop`, or of its wheel loop alone under a setpoint
that no joystick has to produce. -/
inductive LoopCall where
  | drive (move : Movement) (stick : Joystick) (tofData : TofData)
      (chassisData : Fin 4 → ChassisEncoderCanStruct)
  | setpoint (vel : Fin 4 → ℚ) (chassisData : Fin 4 → ChassisEncoderCanStruct)

def LoopCall.apply (c : Controller) : LoopCall → Controller
  | .drive move stick tofData chassisData => driveCloseLoop move stick tofData chassisData c
  | .setpoint vel chassisData => wheelLoops vel chassisData c

def LoopCall.vel : LoopCall → Fin 4 → ℚ
  | .drive move stick tofData _ => driveSetpoint move stick tofData
  | .setpoint vel _ => vel

def LoopCall.data : LoopCall → Fin 4 → ChassisEncoderCanStruct
  | .drive _ _ _ chassisData => chassisData
  | .setpoint _ chassisData => chassisData

theorem LoopCall.apply_wheel (c : Controller) (call : LoopCall) (i : Fin 4) :
    let pass := wheelLoop c.gains (call.vel i) (call.data i).rawSpeed (c.wheelPID i)
    (call.apply c).wheelPID i = pass.1 ∧ (call.apply c).currentCommand i = pass.2 ∧
      (call.apply c).gains = c.gains := by
  cases call with
  | drive move stick tofData data => exact driveCloseLoop_wheel move stick tofData data c i
  | setpoint => exact ⟨rfl, rfl, rfl⟩

def Controller.Refines (c : Controller) {g : Gains} (hg : g.Admissible) : Prop :=
  c.gains = g ∧ ∀ i, ∃ I : (g.loop hg).Integral, (c.wheelPID i).I = I.val

theorem Controller.Refines.apply {c : Controller} {g : Gains} {hg : g.Admissible}
    (h : c.Refines hg) (call : LoopCall) : (call.apply c).Refines hg := by
  obtain ⟨rfl, hI⟩ := h
  refine ⟨(LoopCall.apply_wheel c call 0).2.2, fun i => ?_⟩
  obtain ⟨I, hI⟩ := hI i
  refine ⟨(c.gains.loop hg).next (wheelError (call.vel i) (call.data i).rawSpeed) I, ?_⟩
  rw [(LoopCall.apply_wheel c call i).1]
  exact (wheelLoop_refines hg hI _ _).1

theorem Controller.Refines.foldl {c : Controller} {g : Gains} {hg : g.Admissible}
    (h : c.Refines hg) (calls : List LoopCall) : (calls.foldl LoopCall.apply c).Refines hg := by
  induction calls generalizing c with
  | nil => exact h
  | cons call calls ih => exact ih (h.apply call)

theorem Controller.refines_of_zero {c : Controller} (hzero : c.wheelPID = fun _ => {})
    (hg : c.gains.Admissible) : c.Refines hg :=
  ⟨rfl, fun i => ⟨(c.gains.loop hg).zero, by rw [hzero]; rfl⟩⟩

/-- Over any sequence of calls the limit on the integral is never reached, and
a large enough error gets its own sign, and then the full current. -/
theorem integral_bounded (c₀ : Controller) (hzero : c₀.wheelPID = fun _ => {})
    (hg : c₀.gains.Admissible) (calls : List LoopCall) (call : LoopCall) (i : Fin 4) :
    let g := c₀.gains
    let c := calls.foldl LoopCall.apply c₀
    let t := call.apply c
    let e := wheelError (call.vel i) (call.data i).rawSpeed
    |(c.wheelPID i).I| ≤ g.maxCurrent / g.kI ∧
      (absLimit (wheelIntegral g e (c.wheelPID i)) g.maxI).2 = false ∧
      (t.wheelPID i).error = e ∧
      (g.maxCurrent / g.kP < |e| → 0 < t.currentCommand i * e) ∧
      (2 * g.maxCurrent / g.kP ≤ e → t.currentCommand i = g.maxCurrent) ∧
      (e ≤ -(2 * g.maxCurrent / g.kP) → t.currentCommand i = -g.maxCurrent) := by
  intro g c t e
  obtain ⟨hgains, hI⟩ := (Controller.refines_of_zero hzero hg).foldl calls
  obtain ⟨I, hI⟩ := hI i
  have hpass := LoopCall.apply_wheel c call i
  have herror : (t.wheelPID i).error = e := congrArg PidProfile.error hpass.1
  have hcurrent : t.currentCommand i = (g.loop hg).command e I := by
    rw [hpass.2.1, show c.gains = g from hgains]
    exact (wheelLoop_refines hg hI _ _).2
  refine ⟨?_, ?_, herror, ?_, ?_, ?_⟩
  · rw [show (c.wheelPID i).I = I.val from hI]
    exact I.property
  · rw [wheelIntegral_unclamped hg hI]
  · intro he
    rw [hcurrent]
    rcases lt_abs.mp he with he | he
    · have hpos : 0 < e := (div_pos hg.maxCurrent_pos (g.loop hg).kP_pos).trans he
      exact mul_pos ((g.loop hg).command_pos I he) hpos
    · have hpos : 0 < -e := (div_pos hg.maxCurrent_pos (g.loop hg).kP_pos).trans he
      have hneg : (g.loop hg).command e I < 0 := (g.loop hg).command_neg I (lt_neg_of_lt_neg he)
      exact mul_pos_of_neg_of_neg hneg (neg_pos.mp hpos)
  · intro he
    rw [hcurrent]
    exact (g.loop hg).command_eq_limit I he
  · intro he
    rw [hcurrent]
    exact (g.loop hg).command_eq_neg_limit I he

theorem integral_bounded_threadGains :
    let c₀ := chassisControlThdStart {}
    let g := c₀.gains
    let c := [LoopCall.setpoint (fun _ => 1 / 10) fun _ => {}].foldl LoopCall.apply c₀
    let call := LoopCall.drive .MOVE {} #v[26] fun _ => {}
    let t := call.apply c
    let e := wheelError (call.vel 2) (call.data 2).rawSpeed
    |(c.wheelPID 2).I| ≤ g.maxCurrent / g.kI ∧
      (absLimit (wheelIntegral g e (c.wheelPID 2)) g.maxI).2 = false ∧
      (t.wheelPID 2).error = e ∧
      (g.maxCurrent / g.kP < |e| → 0 < t.currentCommand 2 * e) ∧
      (2 * g.maxCurrent / g.kP ≤ e → t.currentCommand 2 = g.maxCurrent) ∧
      (e ≤ -(2 * g.maxCurrent / g.kP) → t.currentCommand 2 = -g.maxCurrent) :=
  integral_bounded (chassisControlThdStart {}) rfl threadGains_admissible _ _ 2

end SafetyTrolley
