import SafetyTrolley.BurstWatch

/-! The part of an iteration from which the serial thread no longer turns
away from the decoder. -/

namespace SafetyTrolley

/-- The points of an iteration from which the thread, left to itself, goes on
to the decoder: input is the last flag that is left to serve, or is served. -/
def JudgeThread.committed (s : JudgeThread) : Bool :=
  match s.pc with
  | .loop => s.pendingFlags &&& ~~~chnConnected == chnInputAvailable
  | .sleep => s.pendingFlags == 0
  | .read _ | .decode => true
  | _ => false

namespace JudgeThread

/-- Serving the input flag leaves others, unless it was the last one. -/
theorem isolate_input {s : JudgeThread} (hin : leastSetBit s.pendingFlags = chnInputAvailable)
    (hzero : s.isolate.pendingFlags = 0) : s.pendingFlags = chnInputAvailable := by
  have hsplit := LowestBit.clear_or_lowest s.pendingFlags
  change s.isolate.pendingFlags ||| leastSetBit s.pendingFlags = _ at hsplit
  rw [hzero, hin] at hsplit
  simpa using hsplit.symm

theorem leastSetBit_connected {flags : BitVec 32} (h : flags.getLsbD 0 = true) :
    leastSetBit flags = chnConnected :=
  LowestBit.lowest_eq_twoPow ((LowestBit.getLsbD_lowest _ 0).mpr ⟨h,
    fun i hi => absurd hi i.not_lt_zero⟩)

theorem isolate_other {s : JudgeThread} (hno : leastSetBit s.pendingFlags ∉ flushFlags)
    (hlast : s.isolate.pendingFlags &&& ~~~chnConnected = chnInputAvailable) :
    s.pendingFlags &&& ~~~chnConnected = chnInputAvailable := by
  have hinput : s.isolate.pendingFlags.getLsbD 2 = true := by
    have hbit : (s.isolate.pendingFlags &&& ~~~chnConnected).getLsbD 2 = true := by
      rw [hlast]
      decide
    rw [BitVec.getLsbD_and, Bool.and_eq_true] at hbit
    exact hbit.1
  by_cases hzero : s.pendingFlags.getLsbD 0 = true
  · -- served by the switch's default, which leaves everything else
    have hclear : s.isolate.pendingFlags = s.pendingFlags &&& ~~~chnConnected := by
      rw [isolate, leastSetBit_connected hzero]
    rw [hclear, BitVec.and_assoc, BitVec.and_self] at hlast
    exact hlast
  · obtain ⟨i, hi, hbit⟩ := LowestBit.exists_below hinput
    have hone : i = 1 := by
      rcases Nat.eq_zero_or_pos i with rfl | hpos
      · exact absurd hbit hzero
      · omega
    subst hone
    have hdown : ∀ j < 1, s.pendingFlags.getLsbD j = false := by
      intro j hj
      rw [Nat.lt_one_iff.mp hj]
      exact (Bool.not_eq_true _).mp hzero
    have hlow : leastSetBit s.pendingFlags = BitVec.twoPow 32 1 :=
      LowestBit.lowest_eq_twoPow ((LowestBit.getLsbD_lowest _ 1).mpr ⟨hbit, hdown⟩)
    rw [hlow] at hno
    exact absurd (by decide) hno

/-- The thread alone takes the burst to the decoder. -/
def Decodes (s : JudgeThread) (m : BurstWatch) : Prop :=
  ∃ n t, Machine.run (Machine.watch step BurstWatch.next) (s, m) (List.replicate n .thread) =
    some (t, m) ∧ t.pc = .decode

theorem Decodes.of_step {s t : JudgeThread} {m : BurstWatch} (h : Decodes t m)
    (hst : s.step .thread = some t) (hpc : ¬ (s.pc = .flush ∨ s.pc = .finalFlush)) : Decodes s m := by
  obtain ⟨n, u, hrun, hdec⟩ := h
  refine ⟨n + 1, u, ?_, hdec⟩
  have hwatch : Machine.watch step BurstWatch.next (s, m) .thread = some (t, m) :=
    Machine.watch_eq_some.mpr ⟨hst, (BurstWatch.next_thread hpc).symm⟩
  rw [List.replicate_succ, Machine.run_cons, hwatch]
  exact hrun

theorem decodes_read {s : JudgeThread} {m : BurstWatch} {r : Nat} (hpc : s.pc = .read r) :
    Decodes s m := by
  have hst : s.step .thread = some (s.readByte r) := by simp [step, threadStep, hpc]
  have hno : ¬ (s.pc = .flush ∨ s.pc = .finalFlush) := by simp [hpc]
  have hdone {t : JudgeThread} (ht : t.pc = .decode) : Decodes t m := ⟨0, t, rfl, ht⟩
  -- the queue shrinks with each byte that is read
  induction hq : s.iqueue generalizing s r with
  | nil =>
    refine Decodes.of_step ?_ hst hno
    exact hdone (by simp [readByte, hq])
  | cons b rest ih =>
    refine Decodes.of_step ?_ hst hno
    by_cases hfull : r + 1 = judgeBufferSize
    · exact hdone (by simp [readByte, hq, hfull])
    · have hnext : (s.readByte r).pc = .read (r + 1) := by simp [readByte, hq, hfull]
      refine ih hnext ?_ ?_ ?_
      · simp [step, threadStep, hnext]
      · simp [hnext]
      · simp [readByte, hq, hfull]

theorem decodes_sleep {s : JudgeThread} {m : BurstWatch} (hpc : s.pc = .sleep)
    (hzero : s.pendingFlags = 0) : Decodes s m := by
  have hst : s.step .thread = some { s with pc := .read 0 } := by
    simp [step, threadStep, hpc, hzero]
  exact Decodes.of_step (decodes_read rfl) hst (by simp [hpc])

theorem decodes_input {s : JudgeThread} {m : BurstWatch} (hpc : s.pc = .loop)
    (hinput : s.pendingFlags = chnInputAvailable) : Decodes s m := by
  have hlow : leastSetBit s.pendingFlags = chnInputAvailable := by rw [hinput]; decide
  refine Decodes.of_step (decodes_sleep rfl ?_) (step_of_input hpc hlow) (by simp [hpc])
  change s.pendingFlags &&& ~~~leastSetBit s.pendingFlags = 0
  rw [hlow, hinput]
  decide

theorem decodes_loop {s : JudgeThread} {m : BurstWatch} (hpc : s.pc = .loop)
    (hlast : s.pendingFlags &&& ~~~chnConnected = chnInputAvailable) : Decodes s m := by
  by_cases hzero : s.pendingFlags.getLsbD 0 = true
  · have hlow : leastSetBit s.pendingFlags = chnConnected := leastSetBit_connected hzero
    have hclear : s.isolate.pendingFlags = chnInputAvailable := by
      rw [← hlast, ← hlow]
      rfl
    have hnext : s.isolate.nextFlag = { s.isolate with pc := .loop } :=
      if_pos (by rw [hclear]; decide)
    have hst : s.step .thread = some { s.isolate with pc := .loop } := by
      rcases serveFlag_cases s with ⟨hin, -⟩ | ⟨hflush, -⟩ | ⟨-, -, ht⟩
      · exact absurd (hlow.symm.trans hin) (by decide)
      · rw [hlow] at hflush
        exact absurd hflush (by decide)
      · rw [← hnext, ← ht]
        simp only [step, threadStep, hpc]
    have hinput : Decodes { s.isolate with pc := .loop } m := decodes_input rfl hclear
    exact hinput.of_step hst (by simp [hpc])
  · have hkeep : s.pendingFlags &&& ~~~chnConnected = s.pendingFlags :=
      LowestBit.clear_of_down ((Bool.not_eq_true _).mp hzero)
    exact decodes_input hpc (hkeep.symm.trans hlast)

theorem decodes_of_committed {s : JudgeThread} (m : BurstWatch) (h : s.committed = true) :
    Decodes s m := by
  rw [committed] at h
  cases hpc : s.pc with
  | loop =>
    simp only [hpc, beq_iff_eq] at h
    exact decodes_loop hpc h
  | sleep =>
    simp only [hpc, beq_iff_eq] at h
    exact decodes_sleep hpc h
  | read r => exact decodes_read hpc
  | decode => exact ⟨0, s, rfl, hpc⟩
  | _ => simp [hpc] at h

end JudgeThread

end SafetyTrolley
