import SafetyTrolley.CommandLink

/-! The values that reach the chassis: those of a 12-bit converter about the two midpoints,
whatever is torn, lost or still at its initial value on the way. -/

namespace SafetyTrolley

structure RemoteCanStruct.InRange (command : RemoteCanStruct) : Prop where
  xJoystick : -2025 ≤ command.xJoystick.toInt ∧ command.xJoystick.toInt ≤ 2070
  yJoystick : -2025 ≤ command.yJoystick.toInt ∧ command.yJoystick.toInt ≤ 2070
  button : command.button.toNat ≤ 1

theorem RemoteCanStruct.inRange_rest (updated : UInt8) : ({ updated } : RemoteCanStruct).InRange :=
  have hrest : -2025 ≤ (0 : Int16).toInt ∧ (0 : Int16).toInt ≤ 2070 := by decide
  ⟨hrest, hrest, Nat.zero_le 1⟩

def Band.full : Band where
  lo _ := 0
  hi _ := 4095
  hi_le _ := le_rfl

theorem Band.full_rest : full.ReadX {} ∧ full.ReadY {} := by
  unfold ReadX ReadY
  decide

theorem Band.full_admits (s : RemoteFirmware) (e : RemoteEvent) : full.Admits s e := by
  cases e with
  | convert x =>
    have := x.isLt
    exact ⟨Nat.zero_le _, by change x.toNat ≤ 4095; omega⟩
  | _ => trivial

namespace RemoteFirmware

structure Bounded (s : RemoteFirmware) : Prop where
  reading : Band.full.Reading s
  xPot : Band.full.ReadX s.voltData
  yPot : Band.full.ReadY s.voltData
  feedbackData : s.feedbackData.command.InRange

theorem inRange_fill {voltData : Voltages} (hx : Band.full.ReadX voltData)
    (hy : Band.full.ReadY voltData) (gpioa : UInt32) (txmsg : CANTxFrame) :
    (canFeedbackPass gpioa voltData txmsg).1.command.InRange := by
  obtain ⟨hylo, hyhi⟩ := hy
  have hbutton := canFeedbackPass_button gpioa voltData txmsg
  refine ⟨Band.message_x hx gpioa txmsg, ⟨hylo, hyhi⟩, ?_⟩
  change (canFeedbackPass gpioa voltData txmsg).1.button.toNat ≤ 1
  omega

theorem feedbackData_step {s t : RemoteFirmware} {e : RemoteEvent} (h : s.step e = some t) :
    t.feedbackData = s.feedbackData ∨
      ∃ gpioa, t.feedbackData = (canFeedbackPass gpioa s.voltData s.txmsg).1 := by
  cases e with
  | feedback gpioa =>
    simp only [step, canFeedbackThd] at h
    split at h <;> cases h
    · exact Or.inl rfl
    · exact Or.inr ⟨gpioa, rfl⟩
    · unfold canTransmit
      split_ifs <;> exact Or.inl rfl
  | main =>
    simp only [step] at h
    split at h <;> cases h <;> exact Or.inl rfl
  | voltMon =>
    simp only [step, voltMonThd] at h
    split at h <;> cases h <;> exact Or.inl rfl
  | convert x | timeout | transmitted | txIrq =>
    simp only [step] at h
    split_ifs at h <;> cases h <;> exact Or.inl rfl

theorem Bounded.step {s t : RemoteFirmware} {e : RemoteEvent} (h : s.Bounded)
    (hst : s.step e = some t) : t.Bounded := by
  obtain ⟨hx, hy, -⟩ := h.reading.voltData hst
  refine ⟨h.reading.step (Band.full_admits s e) hst, hx h.xPot, hy h.yPot, ?_⟩
  rcases feedbackData_step hst with hsame | ⟨gpioa, hfill⟩
  · rw [hsame]
    exact h.feedbackData
  · rw [hfill]
    exact inRange_fill h.xPot h.yPot gpioa s.txmsg

theorem bounded_start (txmsg : CANTxFrame) : (start txmsg).Bounded := by
  refine ⟨⟨?_, trivial⟩, Band.full_rest.1, Band.full_rest.2, RemoteCanStruct.inRange_rest 1⟩
  intro sampleno hs channelno hc
  simp [start, Band.full, Band.Holds, AdcDriver.sampleAt, hs, hc]

end RemoteFirmware

namespace CommandLink

/-- The boards take turns on the bus, and one step of the link is at most one of the remote. -/
theorem remote_step {s t : CommandLink} {e : LinkEvent} (h : s.step e = some t) :
    t.remote = s.remote ∨ ∃ e', s.remote.step e' = some t.remote := by
  cases e with
  | remote e =>
    simp only [step] at h
    split_ifs at h
    obtain ⟨remote, hremote, rfl⟩ := Option.map_eq_some_iff.mp h
    exact Or.inr ⟨e, hremote⟩
  | chassis e =>
    simp only [step] at h
    split_ifs at h
    obtain ⟨chassis, -, rfl⟩ := Option.map_eq_some_iff.mp h
    exact Or.inl rfl
  | deliver wire rxmsg =>
    simp only [step] at h
    split at h
    · cases h
    · split_ifs at h
      obtain ⟨remote, hremote, h⟩ := Option.bind_eq_some_iff.mp h
      obtain ⟨chassis, -, rfl⟩ := Option.map_eq_some_iff.mp h
      exact Or.inr ⟨.transmitted, hremote⟩
  | missed =>
    simp only [step] at h
    obtain ⟨remote, hremote, rfl⟩ := Option.map_eq_some_iff.mp h
    exact Or.inr ⟨.transmitted, hremote⟩

theorem sends_inRange {s : CommandLink} (h : s.remote.Bounded) (e : RemoteEvent) :
    ∀ feedbackData ∈ s.remote.sends e, feedbackData.command.InRange := by
  intro feedbackData hmem
  unfold RemoteFirmware.sends at hmem
  split at hmem
  · split_ifs at hmem
    · rw [List.mem_singleton.mp hmem]
      exact h.feedbackData
    · cases hmem
  · cases hmem

/-- Everything sent in a run is in range. -/
structure Ranged (s : CommandLink) (l : LinkLog) : Prop where
  remote : s.remote.Bounded
  sent : ∀ feedbackData ∈ l.sent, feedbackData.command.InRange

theorem Ranged.step {s t : CommandLink} {l : LinkLog} {e : LinkEvent} (h : s.Ranged l)
    (hst : s.step e = some t) :
    t.Ranged (l.next s e) := by
  refine ⟨?_, ?_⟩
  · rcases remote_step hst with hsame | ⟨e', he'⟩
    · rw [hsame]
      exact h.remote
    · exact h.remote.step he'
  · cases e with
    | remote e =>
      intro feedbackData hmem
      rcases List.mem_append.mp hmem with hmem | hmem
      · exact h.sent feedbackData hmem
      · exact sends_inRange h.remote e feedbackData hmem
    | chassis e =>
      cases e with
      | arrive canp rxmsg => cases canp <;> exact h.sent
      | thread canp => cases canp <;> exact h.sent
      | _ => exact h.sent
    | deliver wire rxmsg => exact h.sent
    | missed => exact h.sent

/-- In every run of the two boards and the bus, the command in force on the chassis has both
components between -2025 and 2070 and a button of 0 or 1. -/
theorem command_in_range {txmsg : CANTxFrame} {es : List LinkEvent} {s : CommandLink}
    (h : Machine.run step (start txmsg) es = some s) : s.chassis.can.remoteCommand.InRange := by
  obtain ⟨⟨t, l⟩, hlog, heq⟩ := Option.map_eq_some_iff.mp
    ((Machine.run_watch_fst step LinkLog.next (start txmsg, {}) es).trans h)
  obtain rfl : t = s := heq
  have hranged : t.Ranged l := by
    refine Machine.watch_invariant (P := fun s l => s.Ranged l)
      ⟨RemoteFirmware.bounded_start txmsg, by simp⟩ ?_ hlog
    intro s l e t hs hst
    exact hs.step hst
  have hordered := Ordered.run hlog
  rw [hordered.latest]
  cases hlast : l.stored.getLast? with
  | none =>
    rw [List.getLast?_eq_none_iff.mp hlast]
    exact RemoteCanStruct.inRange_rest 0
  | some command =>
    rw [List.getLastD_eq_getLast?, hlast, Option.getD_some]
    obtain ⟨feedbackData, hmem, rfl⟩ :=
      List.mem_map.mp (hordered.conveys.stored_sublist.subset (List.mem_of_getLast? hlast))
    exact hranged.sent feedbackData hmem

/-- The matrix is filled, and both first samples are overwritten during the pass: that of
the first channel after it is added, that of the second before. -/
def sampledCommand : List LinkEvent :=
  linkStart ++ List.replicate 20 (.remote (.convert 2000)) ++ List.replicate 5 (.remote .voltMon) ++
    List.replicate 2 (.remote (.convert 4095)) ++ List.replicate 20 (.remote .voltMon) ++
    List.replicate 2 (.remote (.feedback 0)) ++
      storeCommand (commandMailbox { xPot := -70, yPot := 184 } 0)

theorem command_in_range_sampledCommand : ∃ s : CommandLink,
    Machine.run step (start staleFrame) sampledCommand = some s ∧
      s.chassis.can.remoteCommand = { xJoystick := 70, yJoystick := 184, button := 1, updated := 1 } ∧
      s.chassis.can.remoteCommand.InRange := by
  obtain ⟨s, h, hcommand⟩ := Option.map_eq_some_iff.mp (by decide +kernel :
    (Machine.run step (start staleFrame) sampledCommand).map (fun s => s.chassis.can.remoteCommand) =
      some { xJoystick := 70, yJoystick := 184, button := 1, updated := 1 })
  exact ⟨s, h, hcommand, command_in_range h⟩

end CommandLink

end SafetyTrolley
