import SafetyTrolley.ForceGate
import SafetyTrolley.MotorFrame

/-! The two sides of the trolley. Swapping them in the feedback and reflecting
the stick about its centre swaps the currents and turns their signs. -/

namespace SafetyTrolley

def MotorPos.mirror : MotorPos → MotorPos
  | .frontRight => .frontLeft
  | .backRight => .backLeft
  | .frontLeft => .frontRight
  | .backLeft => .backRight

structure DriveInput where
  move : Movement
  stick : Joystick
  tofData : TofData
  chassisData : Fin 4 → ChassisEncoderCanStruct

def DriveInput.apply (c : Controller) (a : DriveInput) : Controller :=
  driveCloseLoop a.move a.stick a.tofData a.chassisData c

def DriveInput.speed (a : DriveInput) (p : MotorPos) : Int := (a.chassisData p.index).rawSpeed.toInt

structure Mirrored (a a' : DriveInput) : Prop where
  move : a'.move = a.move
  force : a'.stick.correctedForceReading = a.stick.correctedForceReading
  tofData : a'.tofData = a.tofData
  x : a'.stick.xReading.toInt = 4100 - a.stick.xReading.toInt
  speed : ∀ p, a'.speed p.mirror = -a.speed p

def PidProfile.neg (pid : PidProfile) : PidProfile where
  error := -pid.error
  lastError := -pid.lastError
  P := -pid.P
  I := -pid.I
  D := -pid.D

theorem PidProfile.neg_zero : ({} : PidProfile).neg = {} := by
  simp [PidProfile.neg]

theorem absLimit_neg {a m : ℚ} (hm : 0 ≤ m) :
    absLimit (-a) m = (-(absLimit a m).1, (absLimit a m).2) := by
  refine Prod.ext ?_ ?_
  · change (absLimit (-a) m).1 = -(absLimit a m).1
    rw [absLimit_fst hm, absLimit_fst hm, Saturation.clamp_neg m a hm]
  · have h : (absLimit (-a) m).2 = false ↔ (absLimit a m).2 = false := by
      rw [absLimit_snd, absLimit_snd, abs_neg]
    change (absLimit (-a) m).2 = (absLimit a m).2
    cases ha : (absLimit a m).2 <;> simp_all

section WheelLoop

variable {g : Gains} (hmax : 0 ≤ g.maxCurrent)
include hmax

theorem wheelCurrent_neg (error : ℚ) (pid : PidProfile) :
    wheelCurrent g (-error) pid.neg =
      (-(wheelCurrent g error pid).1, (wheelCurrent g error pid).2) := by
  have hsum : g.kP * -error + g.kD * (-error - -pid.lastError) + -pid.I * g.kI =
      -(g.kP * error + g.kD * (error - pid.lastError) + pid.I * g.kI) := by
    ring
  rw [wheelCurrent, wheelCurrent, PidProfile.neg, hsum]
  exact absLimit_neg hmax

theorem wheelIntegral_neg (error : ℚ) (pid : PidProfile) :
    wheelIntegral g (-error) pid.neg = -wheelIntegral g error pid := by
  rw [wheelIntegral, wheelIntegral, wheelCurrent_neg hmax]
  split_ifs
  · exact neg_zero.symm
  · rw [PidProfile.neg]
    ring

theorem wheelLoop_neg (hI : 0 ≤ g.maxI) (vel : ℚ) {speed speed' : Int16}
    (hspeed : speed'.toInt = -speed.toInt) (pid : PidProfile) :
    wheelLoop g (-vel) speed' pid.neg =
      ((wheelLoop g vel speed pid).1.neg, -(wheelLoop g vel speed pid).2) := by
  have herror : wheelError (-vel) speed' = -wheelError vel speed := by
    rw [wheelError, wheelError, rpm2Mps, rpm2Mps, hspeed]
    push_cast
    ring
  have hD : g.kD * (-wheelError vel speed - -pid.lastError) =
      -(g.kD * (wheelError vel speed - pid.lastError)) := by
    ring
  simp only [wheelLoop, herror, wheelIntegral_neg hmax, wheelCurrent_neg hmax, absLimit_neg hI]
  simp only [PidProfile.neg, hD, mul_neg]

end WheelLoop

theorem driveSetpoint_mirror {a a' : DriveInput} (h : Mirrored a a') (p : MotorPos) :
    driveSetpoint a'.move a'.stick a'.tofData p.mirror.index =
      -driveSetpoint a.move a.stick a.tofData p.index := by
  rw [h.move]
  cases a.move with
  | BREAK => simp [driveSetpoint_break]
  | MOVE =>
    have hstrafe : moveStrafe a'.stick = -moveStrafe a.stick := by
      rw [moveStrafe, moveStrafe, h.x]
      push_cast
      ring
    have hdrive : moveDrive a'.stick a'.tofData = moveDrive a.stick a.tofData := by
      rw [moveDrive, moveDrive, h.force, h.tofData]
    rw [Firmware.driveSetpoint_move, Firmware.driveSetpoint_move, hstrafe, hdrive]
    cases p <;> simp only [MotorPos.mirror] <;> ring

structure Mirrors (c c' : Controller) : Prop where
  gains : c'.gains = c.gains
  wheelPID : ∀ p : MotorPos, c'.wheelPID p.mirror.index = (c.wheelPID p.index).neg

theorem Mirrors.pass {c c' : Controller} {a a' : DriveInput} (h : Mirrors c c')
    (hmax : 0 ≤ c.gains.maxCurrent) (hI : 0 ≤ c.gains.maxI) (ha : Mirrored a a') :
    Mirrors (a.apply c) (a'.apply c') ∧
      ∀ p : MotorPos, (a'.apply c').currentCommand p.mirror.index =
        -(a.apply c).currentCommand p.index := by
  have hwheel (p : MotorPos) :
      wheelLoop c'.gains (driveSetpoint a'.move a'.stick a'.tofData p.mirror.index)
        (a'.chassisData p.mirror.index).rawSpeed (c'.wheelPID p.mirror.index) =
      ((wheelLoop c.gains (driveSetpoint a.move a.stick a.tofData p.index)
        (a.chassisData p.index).rawSpeed (c.wheelPID p.index)).1.neg,
        -(wheelLoop c.gains (driveSetpoint a.move a.stick a.tofData p.index)
        (a.chassisData p.index).rawSpeed (c.wheelPID p.index)).2) := by
    rw [h.gains, h.wheelPID, driveSetpoint_mirror ha]
    exact wheelLoop_neg hmax hI _ (ha.speed p) _
  have hleft (p : MotorPos) := driveCloseLoop_wheel a.move a.stick a.tofData a.chassisData c p.index
  have hright (p : MotorPos) :=
    driveCloseLoop_wheel a'.move a'.stick a'.tofData a'.chassisData c' p.mirror.index
  refine ⟨⟨?_, fun p => ?_⟩, fun p => ?_⟩
  · exact ((hright .frontRight).2.2.trans h.gains).trans (hleft .frontRight).2.2.symm
  · exact (hright p).1.trans
      ((congrArg Prod.fst (hwheel p)).trans (congrArg PidProfile.neg (hleft p).1.symm))
  · exact (hright p).2.1.trans
      ((congrArg Prod.snd (hwheel p)).trans (congrArg Neg.neg (hleft p).2.1.symm))

theorem DriveInput.apply_gains (c : Controller) (a : DriveInput) : (a.apply c).gains = c.gains :=
  (driveCloseLoop_wheel a.move a.stick a.tofData a.chassisData c 0).2.2

theorem DriveInput.foldl_gains (c : Controller) (as : List DriveInput) :
    (as.foldl DriveInput.apply c).gains = c.gains := by
  induction as generalizing c with
  | nil => rfl
  | cons a as ih => exact (ih (a.apply c)).trans (apply_gains c a)

theorem Mirrors.foldl {c c' : Controller} {as as' : List DriveInput} (h : Mirrors c c')
    (hmax : 0 ≤ c.gains.maxCurrent) (hI : 0 ≤ c.gains.maxI) (has : List.Forall₂ Mirrored as as') :
    Mirrors (as.foldl DriveInput.apply c) (as'.foldl DriveInput.apply c') := by
  induction has generalizing c c' with
  | nil => exact h
  | @cons a a' _ _ ha _ ih =>
    have hgains := DriveInput.apply_gains c a
    exact ih (h.pass hmax hI ha).1 (by rwa [hgains]) (by rwa [hgains])

theorem mirrors_of_zero {c c' : Controller} (hzero : c.wheelPID = fun _ => {})
    (hzero' : c'.wheelPID = fun _ => {}) (hgains : c'.gains = c.gains) : Mirrors c c' := by
  refine ⟨hgains, fun p => ?_⟩
  rw [hzero, hzero', PidProfile.neg_zero]

theorem truncate_neg (q : ℚ) : truncate (-q) = -truncate q := by
  unfold truncate
  rcases lt_trichotomy q 0 with hneg | rfl | hpos
  · rw [if_pos (by linarith), if_neg (by linarith), Int.floor_neg]
  · simp
  · rw [if_neg (by linarith), if_pos hpos.le, Int.ceil_neg]

theorem motorFrame_decode_toInt {current : Fin 4 → ℚ} {k : Fin 4} (h : |current k| ≤ 32767) :
    ((motorFrame current).decode k).toInt = truncate (current k) := by
  obtain ⟨hlo, hhi⟩ := abs_le.mp (abs_truncate_le (n := 32767) (by exact_mod_cast h))
  rw [motorFrame_decode, Int16.toInt_ofInt_of_le (by omega) (by omega)]

/-- Mirrored inputs give mirrored currents of the other sign, also in the
message. With the stick at its centre that holds within one run. -/
theorem mirrored_currents (c₀ c₀' : Controller) (hzero : c₀.wheelPID = fun _ => {})
    (hzero' : c₀'.wheelPID = fun _ => {}) (hgains : c₀'.gains = c₀.gains)
    (hmax : 0 ≤ c₀.gains.maxCurrent) (hI : 0 ≤ c₀.gains.maxI) (as as' : List DriveInput)
    (a a' : DriveInput) (has : List.Forall₂ Mirrored as as') (ha : Mirrored a a') :
    let c := a.apply (as.foldl DriveInput.apply c₀)
    let c' := a'.apply (as'.foldl DriveInput.apply c₀')
    (∀ p : MotorPos, c'.currentCommand p.mirror.index = -c.currentCommand p.index) ∧
    (c₀.gains.maxCurrent ≤ 32767 → ∀ p : MotorPos,
      ((motorFrame c'.currentCommand).decode p.mirror.index).toInt =
        -((motorFrame c.currentCommand).decode p.index).toInt) ∧
    ((∀ b ∈ as ++ [a], b.stick.xReading = 2050 ∧ ∀ p, b.speed p.mirror = -b.speed p) →
      ∀ p : MotorPos, c.currentCommand p.mirror.index = -c.currentCommand p.index) := by
  intro c c'
  have hpass {d : Controller} {bs : List DriveInput} {b : DriveInput} (hd : Mirrors c₀ d)
      (hbs : List.Forall₂ Mirrored as bs) (hb : Mirrored a b) (p : MotorPos) :
      (b.apply (bs.foldl DriveInput.apply d)).currentCommand p.mirror.index =
        -c.currentCommand p.index := by
    have hg := DriveInput.foldl_gains c₀ as
    exact ((hd.foldl hmax hI hbs).pass (by rwa [hg]) (by rwa [hg]) hb).2 p
  have hmirror := hpass (mirrors_of_zero hzero hzero' hgains) has ha
  refine ⟨hmirror, fun hfit p => ?_, fun hcentred => ?_⟩
  · have hbound : |c.currentCommand p.index| ≤ 32767 := by
      have hg := DriveInput.foldl_gains c₀ as
      have hle := driveCloseLoop_current_le a.move a.stick a.tofData a.chassisData
        (as.foldl DriveInput.apply c₀) (by rwa [hg]) p.index
      rw [hg] at hle
      exact hle.trans hfit
    have hbound' : |c'.currentCommand p.mirror.index| ≤ 32767 := by rwa [hmirror p, abs_neg]
    rw [motorFrame_decode_toInt hbound, motorFrame_decode_toInt hbound', hmirror p, truncate_neg]
  · have hself (b : DriveInput) (hb : b ∈ as ++ [a]) : Mirrored b b := by
      obtain ⟨hx, hspeed⟩ := hcentred b hb
      exact ⟨rfl, rfl, rfl, by rw [hx]; rfl, hspeed⟩
    refine hpass (mirrors_of_zero hzero hzero rfl) ?_ (hself a (by simp))
    exact List.forall₂_same.mpr fun b hb => hself b (by simp [hb])

def wheelSpeeds (right left : Int16) : Fin 4 → ChassisEncoderCanStruct :=
  ![{ rawSpeed := right }, { rawSpeed := right }, { rawSpeed := left }, { rawSpeed := left }]

theorem mirrored_sample :
    let turn (x : Int16) (right left : Int16) : DriveInput :=
      ⟨.MOVE, { xReading := x, correctedForceReading := 1000 }, #v[26], wheelSpeeds right left⟩
    let c := (turn 2600 300 (-7)).apply
      ([turn 1800 5 40].foldl DriveInput.apply (chassisControlThdStart {}))
    let c' := (turn 1500 7 (-300)).apply
      ([turn 2300 (-40) (-5)].foldl DriveInput.apply (chassisControlThdStart {}))
    ∀ p : MotorPos, c'.currentCommand p.mirror.index = -c.currentCommand p.index := by
  have hspeeds (right left right' left' : Int16) (h : right'.toInt = -left.toInt)
      (h' : left'.toInt = -right.toInt) (p : MotorPos) :
      ((wheelSpeeds right' left') p.mirror.index).rawSpeed.toInt =
        -((wheelSpeeds right left) p.index).rawSpeed.toInt := by
    cases p
    · exact h'
    · exact h'
    · exact h
    · exact h
  intro turn c c'
  have hturn : Mirrored (turn 2600 300 (-7)) (turn 1500 7 (-300)) :=
    ⟨rfl, rfl, rfl, rfl, hspeeds 300 (-7) 7 (-300) rfl rfl⟩
  have hbefore : Mirrored (turn 1800 5 40) (turn 2300 (-40) (-5)) :=
    ⟨rfl, rfl, rfl, rfl, hspeeds 5 40 (-40) (-5) rfl rfl⟩
  exact (mirrored_currents (chassisControlThdStart {}) (chassisControlThdStart {}) rfl rfl rfl
    (by norm_num [chassisControlThdStart]) (by norm_num [chassisControlThdStart]) _ _ _ _
    (List.Forall₂.cons hbefore List.Forall₂.nil) hturn).1

end SafetyTrolley
