import SafetyTrolley.ForceGate

/-! Which readings keep the setpoints within their declared limits. The two
components are scaled for a stick of 550 counts, and nothing clamps them. -/

namespace SafetyTrolley

theorem abs_mix_le_iff {s d m : ℚ} (hd : 0 ≤ d) : (|s + d| ≤ m ∧ |d - s| ≤ m) ↔ |s| + d ≤ m := by
  constructor
  · rintro ⟨hsum, hdiff⟩
    rcases abs_cases s with ⟨hs, -⟩ | ⟨hs, -⟩
    · rw [hs]
      exact (le_abs_self _).trans hsum
    · rw [hs, neg_add_eq_sub]
      exact (le_abs_self _).trans hdiff
  · intro h
    obtain ⟨hlo, hhi⟩ := abs_le.mp (le_refl |s|)
    exact ⟨abs_le.mpr ⟨by linarith, by linarith⟩, abs_le.mpr ⟨by linarith, by linarith⟩⟩

def MotorPos.ofIndex : Fin 4 → MotorPos := ![.frontRight, .backRight, .frontLeft, .backLeft]

theorem MotorPos.index_ofIndex (i : Fin 4) : (ofIndex i).index = i := by
  revert i
  decide

/-- The wheels of one side get the sum of the two components, those of the
other the difference. -/
theorem velocity_le_iff (stick : Joystick) (tofData : TofData) :
    (∀ i, |driveSetpoint .MOVE stick tofData i| ≤ maxSpeed) ↔
      |moveStrafe stick| + moveDrive stick tofData ≤ 1 := by
  have hpos : (0 : ℚ) < maxSpeed := by norm_num [maxSpeed]
  have hscale (v : ℚ) : |v * maxSpeed| ≤ maxSpeed ↔ |v| ≤ 1 := by
    rw [abs_mul, abs_of_pos hpos]
    exact mul_le_iff_le_one_left hpos
  have hwheel (p : MotorPos) := Firmware.driveSetpoint_move stick tofData p
  rw [← abs_mix_le_iff (moveDrive_nonneg stick tofData)]
  constructor
  · intro h
    have hright := h MotorPos.frontRight.index
    have hleft := h MotorPos.frontLeft.index
    rw [hwheel, hscale] at hright hleft
    exact ⟨by rwa [abs_neg] at hright, hleft⟩
  · rintro ⟨hright, hleft⟩ i
    obtain ⟨p, rfl⟩ : ∃ p : MotorPos, p.index = i := ⟨_, MotorPos.index_ofIndex i⟩
    rw [hwheel, hscale]
    cases p
    · rwa [abs_neg]
    · rwa [abs_neg]
    · exact hleft
    · exact hleft

def forwardReading (force : Int) (width : UInt32) : Prop := force < 8295500 ∧ 25 < width

theorem moveDrive_ofPayload (p : Vector UInt8 8) (tofData : TofData) :
    let force := (Joystick.ofPayload p).forceReading.toInt
    (forwardReading force tofData[0] →
      moveDrive (Joystick.ofPayload p) tofData = (8315500 - force) / 100 / 5000 * 1.9) ∧
    (¬ forwardReading force tofData[0] → moveDrive (Joystick.ofPayload p) tofData = 0) := by
  intro force
  have hcorrected : (Joystick.ofPayload p).correctedForceReading = (8315500 - force) / 100 := rfl
  have hgate : (200 < (8315500 - (force : ℚ)) / 100) ↔ force < 8295500 := by
    rw [lt_div_iff₀ (by norm_num), ← Int.cast_lt (R := ℚ)]
    push_cast
    constructor <;> intro h <;> linarith
  rw [moveDrive, hcorrected, maxForceVal, forceGain]
  constructor
  · intro h
    exact if_pos ⟨hgate.mpr h.1, h.2⟩
  · intro h
    exact if_neg fun hno => h ⟨hgate.mp hno.1, hno.2⟩

theorem abs_moveStrafe (stick : Joystick) :
    |moveStrafe stick| = (|stick.xReading.toInt - 2050| : Int) / 550 * 0.8 := by
  rw [moveStrafe, maxXJoystickVal, xGain, abs_mul, abs_div,
    abs_of_pos (show (0 : ℚ) < 550 by norm_num),
    abs_of_pos (show (0 : ℚ) < 0.8 by norm_num)]
  push_cast
  rfl

/-- The limits hold for a stick near its centre when it is not pushed, and for
a bounded mix of the two readings when it is. -/
theorem setpoints_limited_iff (p : Vector UInt8 8) (tofData : TofData)
    (data : Fin 4 → ChassisEncoderCanStruct) (c : Controller) :
    let stick := Joystick.ofPayload p
    let force := stick.forceReading.toInt
    let offset := |stick.xReading.toInt - 2050|
    (|moveDrive stick tofData| ≤ 1 ∧ |moveStrafe stick| ≤ 1 ∧
      ∀ i, |(driveCloseLoop .MOVE stick tofData data c).velCommand i| ≤ maxSpeed) ↔
    (forwardReading force tofData[0] → 209 * (8315500 - force) + 80000 * offset ≤ 55000000) ∧
      (¬ forwardReading force tofData[0] → offset ≤ 687) := by
  intro stick force offset
  obtain ⟨hopen, hclosed⟩ := moveDrive_ofPayload p tofData
  have hnonneg := moveDrive_nonneg stick tofData
  have hvel : (|moveDrive stick tofData| ≤ 1 ∧ |moveStrafe stick| ≤ 1 ∧
      ∀ i, |(driveCloseLoop .MOVE stick tofData data c).velCommand i| ≤ maxSpeed) ↔
      (offset : ℚ) / 550 * 0.8 + moveDrive stick tofData ≤ 1 := by
    have hmix := velocity_le_iff stick tofData
    rw [abs_moveStrafe] at hmix
    rw [abs_of_nonneg hnonneg, abs_moveStrafe]
    constructor
    · exact fun h => hmix.mp h.2.2
    · intro h
      have hoffset : (0 : ℚ) ≤ (offset : ℚ) / 550 * 0.8 := by
        have := abs_nonneg (stick.xReading.toInt - 2050)
        positivity
      exact ⟨by linarith, by linarith, hmix.mpr h⟩
  rw [hvel]
  by_cases hgate : forwardReading force tofData[0]
  · simp only [hgate, true_imp_iff, not_true_eq_false, false_imp_iff, and_true]
    rw [hopen hgate, ← Int.cast_le (R := ℚ)]
    push_cast
    constructor <;> intro h <;> linarith
  · simp only [hgate, false_imp_iff, not_false_eq_true, true_imp_iff, true_and]
    rw [hclosed hgate, add_zero]
    have hle : (offset : ℚ) / 550 * 0.8 ≤ 1 ↔ 8 * offset ≤ 5500 := by
      rw [← Int.cast_le (R := ℚ)]
      push_cast
      constructor <;> intro h <;> linarith
    rw [hle]
    omega

-- The stick at one end of its range, with nobody pushing.
def endOfStick : Vector UInt8 8 := #v[0x6C, 0xE2, 0x7E, 0, 0xFF, 0x0F, 0, 0]

theorem setpoints_unlimited : ¬ ∀ p tofData data c, |moveDrive (Joystick.ofPayload p) tofData| ≤ 1 ∧
    |moveStrafe (Joystick.ofPayload p)| ≤ 1 ∧
    ∀ i, |(driveCloseLoop .MOVE (Joystick.ofPayload p) tofData data c).velCommand i| ≤ maxSpeed := by
  intro h
  have hstrafe := (h endOfStick #v[0] (fun _ => {}) {}).2.1
  have hx : (Joystick.ofPayload endOfStick).xReading.toInt = 4095 := by decide
  rw [abs_moveStrafe, hx] at hstrafe
  norm_num at hstrafe

end SafetyTrolley
