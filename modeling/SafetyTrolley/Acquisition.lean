import SafetyTrolley.JudgeWakeup

/-! The flags that the serial thread fetches when no error has been raised.
Those of the transmitter do not wake it, but are fetched with those that do. -/

namespace SafetyTrolley

def JudgePc.isAcquiring : JudgePc → Bool
  | .blocked | .fetch | .loop => true
  | _ => false

def JudgePc.stepsToSleep : JudgePc → Nat
  | .blocked => 3
  | .fetch => 2
  | .loop => 1
  | _ => 0

namespace JudgeThread

/-- No disconnect or line error, and the thread gets no further than the sleep
that comes before its read. -/
def Undisturbed (s : JudgeThread) (e : JudgeEvent) : Prop :=
  s.raisesError e = false ∧ (e = .thread → s.pc.isAcquiring = true)

/-- The transmitter raises no flag before the thread fetches them. -/
def Silent (s : JudgeThread) (e : JudgeEvent) : Prop :=
  s.pc = .blocked ∨ s.pc = .fetch → e ≠ .outputEmpty ∧ e ≠ .transmissionEnd

instance (s : JudgeThread) (e : JudgeEvent) : Decidable (s.Undisturbed e) :=
  inferInstanceAs (Decidable (_ ∧ _))

instance (s : JudgeThread) (e : JudgeEvent) : Decidable (s.Silent e) :=
  inferInstanceAs (Decidable (_ → _))

theorem errorFlags_connected (sr : UsartSr) : (errorFlags sr).getLsbD 0 = false := by
  rcases sr with ⟨_ | _, _ | _, _ | _, _ | _, rxne⟩ <;> revert rxne <;> decide

theorem broadcasts_connected {s : JudgeThread} {e : JudgeEvent} {flags : BitVec 32}
    (h : flags ∈ s.broadcasts e) : flags.getLsbD 0 = false := by
  cases e with
  | receive sr b =>
    simp only [broadcasts, List.mem_append, List.mem_ite_nil_right, List.mem_singleton] at h
    rcases h with (⟨-, rfl⟩ | ⟨-, rfl⟩) | ⟨-, rfl⟩
    · exact errorFlags_connected sr
    · decide
    · decide
  | breakDetected | outputEmpty | transmissionEnd =>
    rw [List.mem_singleton.mp h]
    decide
  | thread => cases h

theorem connected_down {es : List JudgeEvent} {s : JudgeThread}
    (h : Machine.run step {} es = some s) :
    s.source.elFlags.getLsbD 0 = false := by
  refine Machine.run_invariant
    (P := fun s : JudgeThread => s.source.elFlags.getLsbD 0 = false) rfl ?_ h
  intro m e t hm hst
  by_cases he : e = .thread
  · subst he
    cases thread_cases hst with
    | register => simp
    | fetch => simp
    | _ => exact hm
  · refine driver_source (P := fun es => es.elFlags.getLsbD 0 = false)
      (fun es flags hmem hes => ?_) he hst hm
    rw [EventSource.elFlags_broadcast]
    split_ifs
    · rw [BitVec.getLsbD_or, hes, broadcasts_connected hmem]
      rfl
    · rfl

/-- A source with the flags of the transmitter only, or with the input flag
beside them, which has to be up for the thread to be woken. -/
structure Calm (es : EventSource) : Prop where
  listener : es.listener = some ⟨serialEvtMask, es.elFlags, serialWkupFlags⟩
  down : ∀ i ∈ [0, 1, 5, 6, 7, 8, 9], es.elFlags.getLsbD i = false
  pending : es.pEpending &&& 1 ≠ 0 → es.elFlags.getLsbD 2 = true

theorem wkup_bit {i : Nat} (h : serialWkupFlags.getLsbD i = true) :
    i = 2 ∨ i ∈ [0, 1, 5, 6, 7, 8, 9] := by
  have hlt : i < 32 := BitVec.lt_of_getLsbD h
  have hall : ∀ i < 32, serialWkupFlags.getLsbD i = true → i = 2 ∨ i ∈ [0, 1, 5, 6, 7, 8, 9] := by
    decide
  exact hall i hlt h

theorem mild_flags {flags : BitVec 32}
    (h : flags ∈ [chnInputAvailable, chnOutputEmpty, chnTransmissionEnd]) :
    flags ≠ 0 ∧ ∀ i ∈ [0, 1, 5, 6, 7, 8, 9], flags.getLsbD i = false := by
  simp only [List.mem_cons, List.not_mem_nil, or_false] at h
  rcases h with rfl | rfl | rfl <;> decide

theorem Calm.broadcast {es : EventSource} (h : Calm es) {flags : BitVec 32}
    (hflags : flags ∈ [chnInputAvailable, chnOutputEmpty, chnTransmissionEnd]) :
    Calm (es.chEvtBroadcastFlagsI flags) := by
  obtain ⟨hne, hmild⟩ := mild_flags hflags
  have hnew : (es.chEvtBroadcastFlagsI flags).elFlags = es.elFlags ||| flags := by
    rw [EventSource.elFlags_broadcast, h.listener]
    rfl
  have hdown : ∀ i ∈ [0, 1, 5, 6, 7, 8, 9], (es.elFlags ||| flags).getLsbD i = false := by
    intro i hi
    rw [BitVec.getLsbD_or, h.down i hi, hmild i hi]
    rfl
  refine ⟨?_, by rwa [hnew], fun hp => ?_⟩
  · rw [EventSource.listener_broadcast, hnew, h.listener]
    rfl
  by_contra hno
  rw [hnew, Bool.not_eq_true] at hno
  -- nothing that the thread waits for is up, so the broadcast has not woken it
  have hzero : (es.elFlags ||| flags) &&& serialWkupFlags = 0 := by
    apply BitVec.eq_of_getLsbD_eq
    intro i _
    rw [BitVec.getLsbD_and, show (0 : BitVec 32).getLsbD i = false from BitVec.getLsbD_zero]
    by_cases hi : serialWkupFlags.getLsbD i = true
    · rcases wkup_bit hi with rfl | hi
      · rw [hno, Bool.false_and]
      · rw [hdown i hi, Bool.false_and]
    · rw [(Bool.not_eq_true _).mp hi, Bool.and_false]
  have hsame : (es.chEvtBroadcastFlagsI flags).pEpending = es.pEpending := by
    rw [EventSource.chEvtBroadcastFlagsI, h.listener]
    simpa [hzero] using fun hno => absurd hno hne
  rw [hsame] at hp
  rw [BitVec.getLsbD_or, h.pending hp] at hno
  cases hno

theorem broadcasts_mild {s : JudgeThread} {e : JudgeEvent} (h : s.raisesError e = false)
    {flags : BitVec 32} (hmem : flags ∈ s.broadcasts e) :
    flags ∈ [chnInputAvailable, chnOutputEmpty, chnTransmissionEnd] := by
  cases e with
  | receive sr b =>
    simp only [raisesError, Bool.or_eq_false_iff, Bool.and_eq_false_imp, decide_eq_false_iff_not] at h
    simp only [broadcasts, List.mem_append, List.mem_ite_nil_right, List.mem_singleton] at hmem
    rcases hmem with (⟨herr, -⟩ | ⟨-, rfl⟩) | ⟨hover, -⟩
    · exact absurd (h.1.symm.trans herr) Bool.false_ne_true
    · simp
    · exact absurd hover.2 (h.2 hover.1)
  | breakDetected => cases h
  | outputEmpty | transmissionEnd =>
    rw [List.mem_singleton.mp hmem]
    simp
  | thread => cases hmem

theorem raised_receive {s : JudgeThread} {sr : UsartSr} {b : UInt8}
    (h : s.raisesError (.receive sr b) = false) :
    s.raised (.receive sr b) = if sr.rxne ∧ s.iqueue = [] then chnInputAvailable else 0 := by
  simp only [raisesError, Bool.or_eq_false_iff, Bool.and_eq_false_imp, decide_eq_false_iff_not] at h
  have hroom : ¬ (sr.rxne = true ∧ judgeBufferSize ≤ s.iqueue.length) := fun hno => h.2 hno.1 hno.2
  rw [raised, if_neg (by simp [h.1]), if_neg hroom]
  simp

theorem raised_first {s : JudgeThread} {e : JudgeEvent} (h : s.raisesError e = false)
    (hb : e.brings = true) (hq : s.iqueue = []) : (s.raised e).getLsbD 2 = true := by
  cases e with
  | receive sr b =>
    rw [raised_receive h, if_pos ⟨hb, hq⟩]
    rfl
  | _ => cases hb

theorem raised_other_iff {s : JudgeThread} {e : JudgeEvent} (h : s.raisesError e = false) :
    s.raised e &&& ~~~chnInputAvailable = 0 ↔ e ≠ .outputEmpty ∧ e ≠ .transmissionEnd := by
  cases e with
  | receive sr b =>
    refine iff_of_true ?_ (by simp)
    rw [raised_receive h]
    split_ifs <;> decide
  | breakDetected => cases h
  | outputEmpty =>
    exact iff_of_false (by decide : chnOutputEmpty &&& ~~~chnInputAvailable ≠ 0) (by simp)
  | transmissionEnd =>
    exact iff_of_false (by decide : chnTransmissionEnd &&& ~~~chnInputAvailable ≠ 0) (by simp)
  | thread => exact iff_of_true (by decide : (0 : BitVec 32) &&& ~~~chnInputAvailable = 0) (by simp)

/-- What is known of the flags from the wait to the sleep, where `clean` says
that the transmitter has kept out of them. -/
structure Acquires (s : JudgeThread) (clean : Prop) : Prop where
  calm : s.pc = .blocked ∨ s.pc = .fetch → Calm s.source ∧
    (s.source.elFlags &&& ~~~chnInputAvailable = 0 ↔ clean)
  input : s.pc = .blocked ∧ s.iqueue ≠ [] ∨ s.pc = .fetch → s.source.elFlags.getLsbD 2 = true
  served : s.pc = .loop → leastSetBit s.pendingFlags = chnInputAvailable ∧
    (s.pendingFlags &&& ~~~chnInputAvailable = 0 ↔ clean)
  acquired : s.pc = .sleep → (s.pendingFlags = 0 ↔ clean)
  underway : s.pc.isAcquiring = true ∨ s.pc = .sleep

theorem Acquires.driver {s t : JudgeThread} {clean : Prop} {e : JudgeEvent} (h : Acquires s clean)
    (herr : s.raisesError e = false) (he : e ≠ .thread) (hst : s.step e = some t) :
    Acquires t (clean ∧ s.Silent e) := by
  have hcalm (hpc : s.pc = .blocked ∨ s.pc = .fetch) : Calm t.source :=
    driver_source (P := Calm)
      (fun es flags hmem hes => hes.broadcast (broadcasts_mild herr hmem)) he hst
      (h.calm hpc).1
  obtain ⟨source, rfl, hl⟩ := driver_step he hst
  have hflags (hpc : s.pc = .blocked ∨ s.pc = .fetch) :
      source.elFlags = s.source.elFlags ||| s.raised e := by
    rw [EventSource.elFlags_map hl, (h.calm hpc).1.listener]
    rfl
  have hother (hpc : ¬ (s.pc = .blocked ∨ s.pc = .fetch)) : (clean ∧ s.Silent e) ↔ clean :=
    and_iff_left fun hno => absurd hno hpc
  refine ⟨fun hpc => ⟨hcalm hpc, ?_⟩, fun hpc => ?_, fun hpc => ?_, fun hpc => ?_, h.underway⟩
  · have hzero (x y : BitVec 32) : x ||| y = 0 ↔ x = 0 ∧ y = 0 := BitVec.or_eq_zero_iff
    rw [hflags hpc, BitVec.and_or_distrib_right, hzero, raised_other_iff herr, (h.calm hpc).2]
    exact and_congr_right fun _ => ⟨fun hno _ => hno, fun hno => hno hpc⟩
  · have hwait : s.pc = .blocked ∨ s.pc = .fetch := hpc.imp_left And.left
    change source.elFlags.getLsbD 2 = true
    rw [hflags hwait, BitVec.getLsbD_or, Bool.or_eq_true]
    by_cases hq : s.pc = .blocked ∧ s.iqueue = []
    · have hb : e.brings = true := brings_of_queued hq.2 (hpc.resolve_right (by simp [hq.1])).2
      exact Or.inr (raised_first herr hb hq.2)
    · refine Or.inl (h.input (hpc.imp_left fun hblocked => ⟨hblocked.1,
        fun hnil => hq ⟨hblocked.1, hnil⟩⟩))
  · rw [hother (by simp [show s.pc = .loop from hpc])]
    exact h.served hpc
  · rw [hother (by simp [show s.pc = .sleep from hpc])]
    exact h.acquired hpc

theorem Acquires.thread {s t : JudgeThread} {clean : Prop} (h : Acquires s clean)
    (hpc : s.pc.isAcquiring = true) (hst : s.step .thread = some t) : Acquires t clean := by
  cases thread_cases hst with
  | take hp hpend =>
    obtain ⟨hcalm, hclean⟩ := h.calm
      (Or.inl (by rcases hp with hp | hp <;> simp_all [JudgePc.isAcquiring]))
    have hinput := hcalm.pending hpend
    exact ⟨fun _ => ⟨⟨hcalm.listener, hcalm.down, fun _ => hinput⟩, hclean⟩, fun _ => hinput,
      nofun, nofun, Or.inl rfl⟩
  | fetch hp =>
    obtain ⟨hcalm, hclean⟩ := h.calm (Or.inr hp)
    have hlow : leastSetBit s.source.elFlags = chnInputAvailable := by
      refine LowestBit.lowest_eq_twoPow ((LowestBit.getLsbD_lowest _ 2).mpr ⟨h.input (Or.inr hp), ?_⟩)
      intro i hi
      rcases (show i = 0 ∨ i = 1 by omega) with rfl | rfl <;> exact hcalm.down _ (by simp)
    exact ⟨fun hno => by simp at hno, fun hno => by simp at hno, fun _ => ⟨hlow, hclean⟩, nofun,
      Or.inl rfl⟩
  | input hp hin =>
    refine ⟨fun hno => by simp at hno, fun hno => by simp at hno, nofun, fun _ => ?_, Or.inr rfl⟩
    rw [← (h.served hp).2, ← hin]
    rfl
  | reset hp hflush =>
    rw [(h.served hp).1] at hflush
    exact absurd hflush (by decide)
  | ignore hp hin | ignoreLast hp hin => exact absurd (h.served hp).1 hin
  | register hp | block hp | read hp | skip hp | byte r b rest hp | full r b rest hp | empty r hp
  | decode hp | flush hp | flushLast hp | finalFlush hp | memset hp =>
    simp [hp, JudgePc.isAcquiring] at hpc

theorem Acquires.step {s t : JudgeThread} {clean : Prop} {e : JudgeEvent} (h : Acquires s clean)
    (hund : s.Undisturbed e) (hst : s.step e = some t) : Acquires t (clean ∧ s.Silent e) := by
  by_cases he : e = .thread
  · subst he
    have hsilent : s.Silent .thread := fun _ => by simp
    rw [and_iff_left hsilent]
    exact h.thread (hund.2 rfl) hst
  · exact h.driver hund.1 he hst

/-- With a byte in the queue the thread can go on, and comes closer to its sleep. -/
theorem Acquires.advance {s : JudgeThread} {clean : Prop} (h : Acquires s clean) (hw : Wired s)
    (hq : s.iqueue ≠ []) (hpc : s.pc ≠ .sleep) :
    ∃ t, s.step .thread = some t ∧ s.pc.stepsToSleep = t.pc.stepsToSleep + 1 := by
  have hacq := h.underway.resolve_right hpc
  cases hs : s.pc with
  | blocked =>
    have hpend : s.source.pEpending &&& 1 ≠ 0 :=
      (hw.pending_of_flag (by simp [hs]) (by decide) (h.input (Or.inl ⟨hs, hq⟩))).ne_zero
    exact ⟨{ s with source := s.source.takeEvents 1, pc := .fetch }, by
      simp only [JudgeThread.step, threadStep, hs, if_neg hpend], rfl⟩
  | fetch =>
    exact ⟨{ s with source := s.source.clearFlags, pendingFlags := s.source.elFlags, pc := .loop }, by
      simp only [JudgeThread.step, threadStep, hs, EventSource.chEvtGetAndClearFlagsI], rfl⟩
  | loop => exact ⟨{ s.isolate with pc := .sleep }, step_of_input hs (h.served hs).1, rfl⟩
  | _ => simp [hs, JudgePc.isAcquiring] at hacq

/-- The flags of the transmitter that earlier iterations have left behind are
the only ones a thread at rest has not seen. -/
theorem Acquires.of_blocked {es : List JudgeEvent} {s : JudgeThread}
    (h : Machine.run JudgeThread.step {} es = some s) (hpc : s.pc = .blocked)
    (hpend : s.source.pEpending &&& 1 = 0) (hq : s.iqueue = []) :
    Acquires s (s.source.elFlags = 0) := by
  have hw := wired h
  have hdown : ∀ i, serialWkupFlags.getLsbD i = true → s.source.elFlags.getLsbD i = false := by
    intro i hi
    by_contra hup
    rw [Bool.not_eq_false] at hup
    exact (hw.pending_of_flag (by simp [hpc]) hi hup).ne_zero hpend
  refine ⟨fun _ => ⟨⟨?_, fun i hi => ?_, fun hno => absurd hpend hno⟩, ?_⟩, fun hno => ?_,
    fun hno => ?_,
    fun hno => ?_, Or.inl (by rw [hpc]; rfl)⟩
  · obtain ⟨flags, hl⟩ := hw.registered (by simp [hpc])
    simp [EventSource.elFlags, hl]
  · by_cases hzero : i = 0
    · rw [hzero]
      exact connected_down h
    · refine hdown i ?_
      have hall : ∀ i ∈ [1, 5, 6, 7, 8, 9], serialWkupFlags.getLsbD i = true := by decide
      exact hall i (by simpa [hzero] using hi)
  · have hkeep : s.source.elFlags &&& ~~~chnInputAvailable = s.source.elFlags :=
      LowestBit.clear_of_down (hdown 2 (by decide))
    rw [hkeep]
  · rcases hno with ⟨-, hne⟩ | hno
    · exact absurd hq hne
    · rw [hpc] at hno
      cases hno
  · rw [hpc] at hno
    cases hno
  · rw [hpc] at hno
    cases hno

end JudgeThread

end SafetyTrolley
