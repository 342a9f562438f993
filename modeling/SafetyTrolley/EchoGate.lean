import SafetyTrolley.ForceGate
import SafetyTrolley.PulseCapture

/-! The chassis firmware with the timer of its sensor: what the wheels are commanded to do,
in terms of the pulses on the pin. -/

namespace SafetyTrolley

structure SensedFirmware where
  sensor : PulseCapture
  firmware : Firmware := {}

inductive SensedEvent where
  | sensor (e : PulseEvent)
  | firmware (e : FirmwareEvent)

/-- The capture that the width callback reads in this step of the handler. -/
def PulseCapture.widthRead (s : PulseCapture) (e : PulseEvent) : Option UInt32 :=
  match e, s.isr with
  | .irq, .width sr => if sr.cc2 ∧ s.state = .active then some (icuLldGetWidth s.ccr2) else none
  | _, _ => none

/-- After tofInit only the callback writes the variable. -/
theorem Firmware.step_frame {s t : Firmware} {e : FirmwareEvent} (hmain : s.main ≠ .tofInit)
    (he : ¬ ∃ icup w, e = .width icup w) (h : s.step e = some t) :
    t.main ≠ .tofInit ∧ t.lastWidth = s.lastWidth := by
  cases e with
  | width icup w => exact absurd ⟨icup, w, rfl⟩ he
  | main =>
    cases hm : s.main <;> simp only [Firmware.step, Firmware.mainStep, hm, reduceCtorEq] at h hmain
    · exact absurd rfl hmain
    all_goals
      cases h
      simp
  | burst sdrxbuf | frame canp rxmsg | tick pad =>
    simp only [Firmware.step] at h
    split_ifs at h
    cases h
    exact ⟨hmain, rfl⟩

namespace SensedFirmware

/-- The event of the firmware that a step of the timer is; tofInit returns with its last statement. -/
def firmwareStep (s : SensedFirmware) (e : PulseEvent) : Option Firmware :=
  match s.sensor.widthRead e with
  | some w => s.firmware.step (.width .icud4 w)
  | none => if e = .main ∧ s.sensor.main = .notifyDier then s.firmware.step .main else some s.firmware

-- The captures and the statements of tofInit are steps of the timer.
def step (s : SensedFirmware) : SensedEvent → Option SensedFirmware
  | .sensor e =>
    (s.sensor.step e).bind fun sensor => (s.firmwareStep e).map fun firmware => ⟨sensor, firmware⟩
  | .firmware (.width _ _) => none
  | .firmware e =>
    if s.firmware.main = .tofInit then none
    else (s.firmware.step e).map fun firmware => { s with firmware }

def start (level : Bool) : SensedFirmware where
  sensor := .start level

def log (s : SensedFirmware) (e : SensedEvent) (l : PulseLog) : PulseLog :=
  match e with
  | .sensor e => l.next s.sensor e
  | .firmware _ => l

/-- The two views of the variable and of where tofInit stands agree. -/
structure Agree (s : SensedFirmware) (l : PulseLog) : Prop where
  sound : s.sensor.Sound l
  main : s.firmware.main = .tofInit ↔ s.sensor.main ≠ .done
  lastWidth : s.firmware.lastWidth = s.sensor.lastWidth

theorem tofInit_frame {s t : PulseCapture} (hdier : s.dier = {}) (hwidth : s.lastWidth = #v[0])
    (h : s.tofInit = some t) : (t.main = .done ↔ s.main = .notifyDier) ∧ t.lastWidth = #v[0] := by
  cases hmain : s.main <;> simp only [PulseCapture.tofInit, hmain, reduceCtorEq, Option.some_inj] at h
  case notifySr =>
    rw [if_pos hdier, Option.some_inj] at h
    subst h
    exact ⟨by simp, hwidth⟩
  case palSetPadMode =>
    subst h
    refine ⟨by simp, ?_⟩
    split <;> exact hwidth
  case memset =>
    subst h
    exact ⟨by simp, rfl⟩
  all_goals
    subst h
    exact ⟨by simp, hwidth⟩

theorem widthRead_eq_none {s : PulseCapture} {e : PulseEvent} (h : ∀ sr, s.isr ≠ .width sr) :
    s.widthRead e = none := by
  unfold PulseCapture.widthRead
  split
  · next sr hisr => exact absurd hisr (h sr)
  · rfl

/-- A step that reads no width leaves the variable as it is. -/
theorem sensor_frame {s t : PulseCapture} {e : PulseEvent} (he : e ≠ .main) (h : s.step e = some t) :
    t.main = s.main ∧ ((s.widthRead e = none ∧ t.lastWidth = s.lastWidth) ∨
      ∃ w, s.widthRead e = some w ∧ t.lastWidth = #v[w / 100]) := by
  cases e with
  | main => exact absurd rfl he
  | tick =>
    rw [PulseCapture.step, Option.some_inj] at h
    subst h
    split <;> exact ⟨rfl, Or.inl ⟨rfl, rfl⟩⟩
  | rise | fall =>
    simp only [PulseCapture.step] at h
    split_ifs at h <;> cases h <;> exact ⟨rfl, Or.inl ⟨rfl, rfl⟩⟩
  | irq =>
    simp only [PulseCapture.step, PulseCapture.icuLldServeInterrupt] at h
    cases hisr : s.isr with
    | idle =>
      simp only [hisr] at h
      split_ifs at h
      cases h
      exact ⟨rfl, Or.inl ⟨widthRead_eq_none (by simp [hisr]), rfl⟩⟩
    | clear sr =>
      simp only [hisr] at h
      cases h
      exact ⟨rfl, Or.inl ⟨widthRead_eq_none (by simp [hisr]), rfl⟩⟩
    | width sr =>
      simp only [hisr] at h
      obtain ⟨u, hu, rfl⟩ := Option.map_eq_some_iff.mp h
      simp only [PulseCapture.widthRead, hisr]
      obtain ⟨hread, rfl⟩ | ⟨hskip, rfl⟩ := PulseCapture.width_cases hu
      · exact ⟨rfl, Or.inr ⟨_, if_pos hread, rfl⟩⟩
      · exact ⟨rfl, Or.inl ⟨if_neg hskip, rfl⟩⟩
    | period sr =>
      simp only [hisr] at h
      obtain ⟨u, hu, rfl⟩ := Option.map_eq_some_iff.mp h
      have hframe : u.main = s.main ∧ u.lastWidth = s.lastWidth := by
        unfold PulseCapture.icuIsrInvokePeriodCb at hu
        split_ifs at hu
        · obtain ⟨lastPeriod, -, rfl⟩ := Option.map_eq_some_iff.mp hu
          exact ⟨rfl, rfl⟩
        · cases hu
          exact ⟨rfl, rfl⟩
        · cases hu
          exact ⟨rfl, rfl⟩
      exact ⟨hframe.1, Or.inl ⟨widthRead_eq_none (by simp [hisr]), hframe.2⟩⟩

theorem step_firmware {s : SensedFirmware} {e : FirmwareEvent} (h : ¬ ∃ icup w, e = .width icup w) :
    s.step (.firmware e) =
      if s.firmware.main = .tofInit then none
      else (s.firmware.step e).map fun firmware => { s with firmware } := by
  cases e with
  | width icup w => exact absurd ⟨icup, w, rfl⟩ h
  | _ => rfl

namespace Agree

theorem sensor_main {s : SensedFirmware} {l : PulseLog} {sensor : PulseCapture} {firmware : Firmware}
    (h : s.Agree l) (hs : s.sensor.tofInit = some sensor)
    (hf : s.firmwareStep .main = some firmware) : Agree ⟨sensor, firmware⟩ l := by
  have hsound : sensor.Sound l := h.sound.step (e := .main) hs
  obtain ⟨hmain, hstarting⟩ | ⟨hmain, -⟩ := h.sound
  · obtain ⟨hdone, hwidth⟩ := tofInit_frame hstarting.dier hstarting.lastWidth hs
    have htof : s.firmware.main = .tofInit := h.main.mpr hmain
    rw [firmwareStep, show s.sensor.widthRead .main = none from rfl] at hf
    by_cases hlast : s.sensor.main = .notifyDier
    · simp only [hlast, and_self, if_true, Firmware.step, Firmware.mainStep, htof,
        Option.some_inj] at hf
      subst hf
      exact ⟨hsound, by simp [hdone.mpr hlast], hwidth.symm⟩
    · simp only [hlast, and_false, if_false, Option.some_inj] at hf
      subst hf
      refine ⟨hsound, iff_of_true htof fun hd => hlast (hdone.mp hd), ?_⟩
      rw [hwidth]
      exact h.lastWidth.trans hstarting.lastWidth
  · simp [PulseCapture.tofInit, hmain] at hs

theorem sensor {s : SensedFirmware} {l : PulseLog} {e : PulseEvent} {sensor : PulseCapture}
    {firmware : Firmware}
    (h : s.Agree l) (hs : s.sensor.step e = some sensor) (hf : s.firmwareStep e = some firmware) :
    Agree ⟨sensor, firmware⟩ (l.next s.sensor e) := by
  by_cases he : e = .main
  · subst he
    exact h.sensor_main hs hf
  · have hsound := h.sound.step hs
    obtain ⟨hmain, ⟨hw, hkeep⟩ | ⟨w, hw, hwidth⟩⟩ := sensor_frame he hs
    · simp only [firmwareStep, hw, he, false_and, if_false, Option.some_inj] at hf
      subst hf
      exact ⟨hsound, by rw [hmain]; exact h.main, h.lastWidth.trans hkeep.symm⟩
    · simp only [firmwareStep, hw, Firmware.step] at hf
      split_ifs at hf with hen
      obtain ⟨lastWidth, hstore, rfl⟩ := Option.map_eq_some_iff.mp hf
      have hlast : lastWidth = #v[w / 100] :=
        Option.some_inj.mp (hstore.symm.trans (TofData.store_zero _ _))
      exact ⟨hsound, by rw [hmain]; exact h.main, by rw [hwidth]; exact hlast⟩

theorem firmware {s t : SensedFirmware} {l : PulseLog} {e : FirmwareEvent} (h : s.Agree l)
    (hst : s.step (.firmware e) = some t) : t.Agree l := by
  by_cases hw : ∃ icup w, e = .width icup w
  · obtain ⟨icup, w, rfl⟩ := hw
    cases hst
  · rw [step_firmware hw] at hst
    split_ifs at hst with hmain
    obtain ⟨firmware, hf, rfl⟩ := Option.map_eq_some_iff.mp hst
    obtain ⟨hmain', hlast⟩ := Firmware.step_frame hmain hw hf
    exact ⟨h.sound, iff_of_false hmain' fun hne => hmain (h.main.mpr hne), hlast.trans h.lastWidth⟩

theorem step {s t : SensedFirmware} {l : PulseLog} {e : SensedEvent} (h : s.Agree l)
    (hst : s.step e = some t) :
    t.Agree (s.log e l) := by
  cases e with
  | firmware e => exact h.firmware hst
  | sensor e =>
    obtain ⟨sensor, hs, hst⟩ := Option.bind_eq_some_iff.mp hst
    obtain ⟨firmware, hf, rfl⟩ := Option.map_eq_some_iff.mp hst
    exact h.sensor hs hf

end Agree

theorem countOf_div (w : Nat) : 25 < countOf w / 100 ↔ 2599 ≤ w % 65536 := by
  rw [UInt32.lt_iff_toNat_lt, UInt32.toNat_div, countOf, UInt32.toNat_ofNat']
  change 25 < (w % 65536 + 1) % 4294967296 / 100 ↔ 2599 ≤ w % 65536
  omega

theorem tick_forward {s t : SensedFirmware} {pad : UInt32}
    (h : s.step (.firmware (.tick pad)) = some t) :
    0 < t.firmware.netForward ↔
      pad = 0 ∧ 200 < s.firmware.rc.joystick.correctedForceReading ∧
        (25 : UInt32) < s.firmware.lastWidth[0] := by
  rw [step_firmware (by simp)] at h
  split_ifs at h
  obtain ⟨firmware, hf, rfl⟩ := Option.map_eq_some_iff.mp h
  obtain ⟨-, rfl⟩ := Firmware.tick_of_step hf
  rw [Firmware.tick_netForward]
  split_ifs with hpad
  · rw [mul_pos_iff_of_pos_left (by norm_num), moveDrive_pos_iff]
    simp [hpad]
  · simp [hpad]

/-- The wheels are driven forward only after a pulse of 2.6 ms or more, and while the handler has
nothing to do, exactly when that is the last pulse on the pin. -/
theorem forward_pulse {level : Bool} {es : List SensedEvent} {s t : SensedFirmware} {l : PulseLog}
    {pad : UInt32} (h : Machine.run (Machine.watch step log) (start level, {}) es = some (s, l))
    (hst : s.step (.firmware (.tick pad)) = some t) :
    (0 < t.firmware.netForward →
      pad = 0 ∧ 200 < s.firmware.rc.joystick.correctedForceReading ∧
        ∃ w ∈ l.pulses, 2599 ≤ w % 65536) ∧
    (s.sensor.isr = .idle → s.sensor.sr.cc2 = false →
      (0 < t.firmware.netForward ↔
        pad = 0 ∧ 200 < s.firmware.rc.joystick.correctedForceReading ∧ s.firmware.lastWidth[0] ≠ 0 ∧
          ∃ w, l.pulses.getLast? = some w ∧ 2599 ≤ w % 65536)) := by
  have hagree : Agree s l := by
    refine Machine.watch_invariant (P := Agree) ⟨PulseCapture.Sound.start level, ?_, rfl⟩ ?_ h
    · exact iff_of_true rfl (by simp [start, PulseCapture.start])
    · intro s l e t hs hst
      exact hs.step hst
  rw [tick_forward hst, hagree.lastWidth]
  constructor
  · rintro ⟨hpad, hforce, hwidth⟩
    refine ⟨hpad, hforce, ?_⟩
    obtain hzero | ⟨w, hw, hlast⟩ := hagree.sound.latched.1.stored
    · rw [hzero] at hwidth
      exact absurd hwidth (by decide)
    · rw [hlast] at hwidth
      exact ⟨w, hw, (countOf_div w).mp hwidth⟩
  · intro hisr hcc2
    refine and_congr_right fun _ => and_congr_right fun _ => ?_
    obtain hzero | ⟨w, hw, hlast⟩ := (hagree.sound.current hisr).1 hcc2
    · rw [hzero]
      exact iff_of_false (by decide) fun hne => hne.1 rfl
    · rw [hlast, hw]
      simp only [Option.some_inj, exists_eq_left']
      refine (countOf_div w).trans (iff_and_self.mpr fun hlong hzero => ?_)
      have hpos : 25 < countOf w / 100 := (countOf_div w).mpr hlong
      rw [show countOf w / 100 = 0 from hzero] at hpos
      exact absurd hpos (by decide)

/-- A hand pushes, and the sensor answers with a pulse of 0.13 ms. -/
def echoAndPush : List SensedEvent :=
  [List.replicate 9 (.sensor .main), List.replicate 3 (.firmware .main),
    [.firmware (.burst (RxBuffer.ofBytes [170, 60, 109, 126, 0, 2, 8, 0, 0, 170])), .sensor .rise],
    List.replicate 4 (.sensor .irq), List.replicate 130 (.sensor .tick), [.sensor .fall],
    List.replicate 4 (.sensor .irq)].flatten

theorem forward_pulse_echoAndPush : ∃ (s t : SensedFirmware) (l : PulseLog),
    Machine.run (Machine.watch step log) (start false, {}) echoAndPush = some (s, l) ∧
      s.step (.firmware (.tick 0)) = some t ∧ 200 < s.firmware.rc.joystick.correctedForceReading ∧
      l.pulses = [130] ∧ ¬ 0 < t.firmware.netForward ∧
      (0 < t.firmware.netForward ↔
        (0 : UInt32) = 0 ∧ 200 < s.firmware.rc.joystick.correctedForceReading ∧
          s.firmware.lastWidth[0] ≠ 0 ∧
          ∃ w, l.pulses.getLast? = some w ∧ 2599 ≤ w % 65536) := by
  have hrun : (Machine.run (Machine.watch step log) (start false, {}) echoAndPush).any
      (fun x => decide (x.1.firmware.main = .idle ∧
        200 < x.1.firmware.rc.joystick.correctedForceReading ∧ x.2.pulses = [130] ∧
        x.1.sensor.isr = .idle ∧ x.1.sensor.sr.cc2 = false)) = true := by decide +kernel
  obtain ⟨⟨s, l⟩, h, hs⟩ := (Option.any_eq_true _ _).mp hrun
  obtain ⟨hmain, hforce, hpulses, hisr, hcc2⟩ : s.firmware.main = .idle ∧
      200 < s.firmware.rc.joystick.correctedForceReading ∧ l.pulses = [130] ∧ s.sensor.isr = .idle ∧
      s.sensor.sr.cc2 = false := of_decide_eq_true hs
  have hst : s.step (.firmware (.tick 0)) = some { s with firmware := s.firmware.tick 0 } := by
    simp only [step, hmain, reduceCtorEq, if_false, Firmware.step_tick hmain, Option.map_some]
  obtain ⟨hgate, hserved⟩ := forward_pulse h hst
  refine ⟨s, _, l, h, hst, hforce, hpulses, fun hforward => ?_, hserved hisr hcc2⟩
  obtain ⟨-, -, w, hw, hlong⟩ := hgate hforward
  rw [hpulses, List.mem_singleton] at hw
  subst hw
  exact absurd hlong (by decide)

end SensedFirmware

end SafetyTrolley
