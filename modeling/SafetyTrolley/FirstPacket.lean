import SafetyTrolley.ForceGate

/-! The trolley before its first accepted packet. The zeroed joystick record
is neutral for the force and far off centre for the steering. -/

namespace SafetyTrolley

theorem moveStrafe_zero : moveStrafe {} = -164 / 55 := by
  simp only [moveStrafe, maxXJoystickVal, xGain, Int16.toInt_zero]
  norm_num

theorem latestPacket_eq_none {es : List FirmwareEvent}
    (h : ∀ sdrxbuf, .burst sdrxbuf ∈ es → serialAccepts sdrxbuf = false) :
    latestPacket es = none := by
  have hnil : es.filterMap FirmwareEvent.acceptance = [] := by
    apply List.filterMap_eq_nil_iff.mpr
    intro e he
    cases e with
    | burst sdrxbuf => simp [FirmwareEvent.acceptance, h sdrxbuf he]
    | _ => rfl
  rw [latestPacket, hnil]
  rfl

/-- Before the first packet the setpoints stay zero exactly as long as every
tick brakes: the zeroed record is read as a full stick to one side. -/
theorem zero_until_first_packet_iff (es : List FirmwareEvent) (s : Firmware)
    (hs : Firmware.run es = some s)
    (hrejected : ∀ sdrxbuf, .burst sdrxbuf ∈ es → serialAccepts sdrxbuf = false) :
    (∀ pre pad t, pre ++ [.tick pad] <+: es → Firmware.run (pre ++ [.tick pad]) = some t →
      ∀ i, t.control.velCommand i = 0) ↔ ∀ pad, .tick pad ∈ es → pad ≠ 0 := by
  constructor
  · rintro hzero pad hmem rfl
    obtain ⟨pre, post, rfl⟩ := List.append_of_mem hmem
    have hcut : pre ++ .tick 0 :: post = (pre ++ [.tick 0]) ++ post := by simp
    rw [Firmware.run, hcut, Machine.run_append, Option.bind_eq_some_iff] at hs
    obtain ⟨t, ht, _⟩ := hs
    obtain ⟨m, hm, hstep⟩ := Machine.run_concat.mp ht
    have hvel := hzero pre 0 t (by simp) ht 0
    obtain ⟨_, rfl⟩ := Firmware.tick_of_step hstep
    have hnone : latestPacket pre = none :=
      latestPacket_eq_none fun b hb => hrejected b (by simp [hb])
    have hstick : m.rc.joystick = {} := by rw [(Firmware.tracks hm).packet, hnone]; rfl
    rw [Firmware.tick_velCommand, hstick] at hvel
    simp [padMovement, driveSetpoint, moveStrafe_zero, moveDrive, maxSpeed] at hvel
    norm_num at hvel
  · intro hpad pre pad t hpre ht i
    obtain ⟨m, _, hstep⟩ := Machine.run_concat.mp ht
    obtain ⟨_, rfl⟩ := Firmware.tick_of_step hstep
    have hne : pad ≠ 0 := hpad pad (hpre.subset (by simp))
    rw [Firmware.tick_velCommand, padMovement, if_neg hne, driveSetpoint_break]

/-- The pad holds the brake while a burst without an end byte is refused, the beam
reports a width and a wheel turns. -/
def brakedStartUp : List FirmwareEvent :=
  Firmware.startUp ++ [.tick 1, .width .icud4 2600, .burst (RxBuffer.ofBytes [170, 1, 2, 3]),
    .frame .cand1 (Firmware.motorFeedback 0x203 1), .tick 1]

theorem brakedStartUp_rejected (sdrxbuf : RxBuffer) (h : .burst sdrxbuf ∈ brakedStartUp) :
    serialAccepts sdrxbuf = false := by
  simp [brakedStartUp, Firmware.startUp] at h
  subst h
  decide +kernel

theorem zero_until_first_packet_brakedStartUp : ∃ s, Firmware.run brakedStartUp = some s ∧
    ∀ pre pad t, pre ++ [.tick pad] <+: brakedStartUp →
      Firmware.run (pre ++ [.tick pad]) = some t → ∀ i, t.control.velCommand i = 0 := by
  obtain ⟨s, hs⟩ := Option.isSome_iff_exists.mp
    (by decide +kernel : (Firmware.run brakedStartUp).isSome = true)
  have hbrake : ∀ pad, .tick pad ∈ brakedStartUp → pad ≠ 0 := by
    intro pad h
    simp [brakedStartUp, Firmware.startUp] at h
    subst h
    decide
  exact ⟨s, hs, (zero_until_first_packet_iff brakedStartUp s hs brakedStartUp_rejected).mpr hbrake⟩

theorem first_tick_steers : ¬ ∀ es pad s t, Firmware.run es = some s →
    (∀ sdrxbuf, .burst sdrxbuf ∈ es → serialAccepts sdrxbuf = false) →
    s.step (.tick pad) = some t → ∀ i, t.control.velCommand i = 0 := by
  intro h
  have hstep : (Firmware.run Firmware.startUp).any (fun s => (s.step (.tick 0)).any fun t =>
      decide (t.control.velCommand 0 ≠ 0)) = true := by
    decide +kernel
  obtain ⟨s, hs, hstep⟩ := (Option.any_eq_true _ _).mp hstep
  obtain ⟨t, ht, hne⟩ := (Option.any_eq_true _ _).mp hstep
  exact of_decide_eq_true hne
    (h _ 0 s t hs (fun _ hb => by simp [Firmware.startUp] at hb) ht 0)

end SafetyTrolley
