import SafetyTrolley.Firmware
import SafetyTrolley.Integrator

/-! The current message of the control thread: what its payload says, and
that nothing in it ever left the range of its type. -/

namespace SafetyTrolley

def CANTxFrame.slot (f : CANTxFrame) (k : Fin 4) : UInt8 × UInt8 :=
  (f.data8[2 * k.val], f.data8[2 * k.val + 1])

-- The rule by which the chassis itself decodes a pair of feedback bytes.
def CANTxFrame.decode (f : CANTxFrame) (k : Fin 4) : Int16 :=
  Int16.ofNat (Bytes.be16 (f.slot k).1 (f.slot k).2)

theorem motorFrame_slot (current : Fin 4 → ℚ) (k : Fin 4) :
    (motorFrame current).slot k =
      (UInt8.ofInt ((Int16.ofInt (truncate (current k))).toInt >>> (8 : Nat)),
        UInt8.ofInt (Int16.ofInt (truncate (current k))).toInt) := by
  match k with
  | 0 | 1 | 2 | 3 => rfl

theorem motorFrame_decode (current : Fin 4 → ℚ) (k : Fin 4) :
    (motorFrame current).decode k = Int16.ofInt (truncate (current k)) := by
  rw [CANTxFrame.decode, motorFrame_slot]
  exact Bytes.int16_of_bytes _

theorem abs_truncate_le {q : ℚ} {n : ℤ} (h : |q| ≤ n) : |truncate q| ≤ n := by
  obtain ⟨hlo, hhi⟩ := abs_le.mp h
  have hn : (0 : ℤ) ≤ n := by exact_mod_cast (abs_nonneg q).trans h
  unfold truncate
  split_ifs with hq
  · have := Int.floor_nonneg.mpr hq
    have : ⌊q⌋ ≤ n := by exact_mod_cast (Int.floor_le q).trans hhi
    exact abs_le.mpr ⟨by omega, this⟩
  · have : ⌈q⌉ ≤ 0 := Int.ceil_le.mpr (by simpa using (not_le.mp hq).le)
    have : -n ≤ ⌈q⌉ := by exact_mod_cast hlo.trans (Int.le_ceil q)
    exact abs_le.mpr ⟨this, by omega⟩

theorem driveCloseLoop_current_le (move : Movement) (stick : Joystick) (tofData : TofData)
    (data : Fin 4 → ChassisEncoderCanStruct) (c : Controller) (hpos : 0 ≤ c.gains.maxCurrent)
    (i : Fin 4) :
    |(driveCloseLoop move stick tofData data c).currentCommand i| ≤ c.gains.maxCurrent := by
  rw [(driveCloseLoop_wheel move stick tofData data c i).2.1]
  simp only [wheelLoop, wheelCurrent, absLimit_fst hpos]
  exact Saturation.abs_clamp_le hpos _

namespace Firmware

theorem run_maxCurrent {es : List FirmwareEvent} {s : Firmware} (h : run es = some s) :
    s.control.gains.maxCurrent = 10000 := by
  refine Machine.run_invariant (P := fun m => m.control.gains.maxCurrent = 10000) rfl ?_ h
  intro m e t hm he
  rcases step_control he with ⟨pad, _, _, rfl⟩ | ⟨_, _, hc⟩ | ⟨hc, _⟩
  · exact (congrArg Gains.maxCurrent (driveCloseLoop_wheel _ _ _ _ _ 0).2.2).trans hm
  · rw [hc]
    exact hm
  · rw [hc]
    exact hm

theorem tick_current_le {es : List FirmwareEvent} {s : Firmware} (h : run es = some s)
    (pad : UInt32) (i : Fin 4) : |(s.tick pad).control.currentCommand i| ≤ 10000 := by
  have hmax := run_maxCurrent h
  rw [← hmax]
  exact driveCloseLoop_current_le _ _ _ _ _ (by rw [hmax]; norm_num) i

/-- Every payload the control thread builds is the truncation of the four
commanded currents, wheel by wheel, and far inside the 16-bit range. -/
theorem transmitted_payload (es : List FirmwareEvent) (pad : UInt32) (s t : Firmware)
    (hs : run es = some s) (ht : s.step (.tick pad) = some t) :
    let f := s.transmitted pad
    let current (p : MotorPos) := t.control.currentCommand p.index
    ((f.decode 0).toInt = truncate (current .frontRight) ∧
      (f.decode 1).toInt = truncate (current .backRight) ∧
      (f.decode 2).toInt = truncate (current .frontLeft) ∧
      (f.decode 3).toInt = truncate (current .backLeft)) ∧
    ∀ p, -10000 ≤ truncate (current p) ∧ truncate (current p) ≤ 10000 := by
  obtain ⟨_, rfl⟩ := tick_of_step ht
  intro f current
  have hrange (i : Fin 4) : -10000 ≤ truncate ((s.tick pad).control.currentCommand i) ∧
      truncate ((s.tick pad).control.currentCommand i) ≤ 10000 :=
    abs_le.mp (abs_truncate_le (n := 10000) (by exact_mod_cast tick_current_le hs pad i))
  have hdecode (i : Fin 4) :
      (f.decode i).toInt = truncate ((s.tick pad).control.currentCommand i) := by
    have hf : f = motorFrame (s.tick pad).control.currentCommand := rfl
    have hi := hrange i
    rw [hf, motorFrame_decode, Int16.toInt_ofInt_of_le (by omega) (by omega)]
  exact ⟨⟨hdecode 0, hdecode 1, hdecode 2, hdecode 3⟩, fun p => hrange p.index⟩

theorem transmitted_pushThenTurn : ∃ s t, run pushThenTurn = some s ∧ s.step (.tick 1) = some t ∧
    let f := s.transmitted 1
    let current (p : MotorPos) := t.control.currentCommand p.index
    ((f.decode 0).toInt = truncate (current .frontRight) ∧
      (f.decode 1).toInt = truncate (current .backRight) ∧
      (f.decode 2).toInt = truncate (current .frontLeft) ∧
      (f.decode 3).toInt = truncate (current .backLeft)) ∧
    ∀ p, -10000 ≤ truncate (current p) ∧ truncate (current p) ≤ 10000 := by
  obtain ⟨s, hs, hm⟩ := run_pushThenTurn
  have ht := step_tick hm 1
  exact ⟨s, s.tick 1, hs, ht, transmitted_payload _ 1 s _ hs ht⟩

end Firmware

end SafetyTrolley
