import SafetyTrolley.PacketFreshness

/-! The loop over the flags of one fetch. It takes them from the lowest up, and
what it does for the available input depends on whether a flag is left. -/

namespace SafetyTrolley

/-- The values that the body of the loop is entered for: it runs once, for no
flag at all, where none has been fetched. -/
def passes (flags : BitVec 32) : List (BitVec 32) := if flags = 0 then [0] else LowestBit.bits flags

theorem passes_of_ne {flags : BitVec 32} (h : flags ≠ 0) : passes flags = LowestBit.bits flags :=
  if_neg h

theorem passes_eq_cons (flags : BitVec 32) :
    passes flags = leastSetBit flags :: LowestBit.bits (flags &&& ~~~leastSetBit flags) := by
  by_cases h : flags = 0
  · subst h
    decide
  · rw [passes_of_ne h]
    exact LowestBit.bits_eq_cons h

theorem length_passes (flags : BitVec 32) : (passes flags).length =
    max 1 (LowestBit.bits flags).length := by
  by_cases h : flags = 0
  · subst h
    rfl
  · rw [passes_of_ne h, LowestBit.bits_eq_cons h, List.length_cons]
    omega

theorem getLast?_passes (flags : BitVec 32) :
    (passes flags).getLast? = some chnInputAvailable ↔
      chnInputAvailable ∈ LowestBit.bits flags ∧ ∀ flag ∈ LowestBit.bits flags,
        flag ≤ chnInputAvailable := by
  by_cases h : flags = 0
  · have hnone : LowestBit.bits flags = [] := h ▸ LowestBit.bits_zero
    rw [passes, if_pos h, hnone]
    simp [chnInputAvailable]
  · rw [passes_of_ne h]
    exact LowestBit.getLast?_bits

theorem input_notMem_flushFlags : chnInputAvailable ∉ flushFlags := by decide

/-- What one iteration of the thread has done since its fetch: the flags it has
taken up, its calls of the read and of the decoder, whether it has read since it
last reset the queue, and the bytes that came after that. -/
structure FlagLog where
  served : List (BitVec 32) := []
  reads : Nat := 0
  decodes : Nat := 0
  unreset : Bool := false
  delivered : List UInt8 := []

def FlagLog.next (s : JudgeThread) (e : JudgeEvent) (log : FlagLog) : FlagLog :=
  let log := { log with delivered := s.nextDelivered e log.delivered }
  if e = .thread then
    match s.pc with
    | .loop => { log with served := log.served ++ [leastSetBit s.pendingFlags] }
    | .read r => { log with reads := if r = 0 then log.reads + 1 else log.reads, unreset := true }
    | .decode => { log with decodes := log.decodes + 1 }
    | .flush | .finalFlush => { log with unreset := false }
    | _ => log
  else log

/-- The flags that are left and the calls made so far. -/
structure FlagLog.Counts (log : FlagLog) (F : BitVec 32) (left : List (BitVec 32))
    (reads decodes : Nat) : Prop where
  order : log.served ++ left = passes F
  reads_eq : log.reads = reads
  decodes_eq : log.decodes = decodes

theorem FlagLog.Counts.deliver {log : FlagLog} {F : BitVec 32} {left : List (BitVec 32)}
    {reads decodes : Nat} (h : log.Counts F left reads decodes) (delivered : List UInt8) :
    FlagLog.Counts { log with delivered := delivered } F left reads decodes :=
  ⟨h.order, h.reads_eq, h.decodes_eq⟩

theorem FlagLog.next_driver {e : JudgeEvent} (he : e ≠ .thread) (s : JudgeThread) (log : FlagLog) :
    log.next s e = { log with delivered := s.nextDelivered e log.delivered } := if_neg he

namespace JudgeThread

/-- How often the decoder is called in serving these flags, with `pending` left. -/
def decodesDue (served : List (BitVec 32)) (pending : BitVec 32) : Nat :=
  if pending = 0 ∧ served.getLast? = some chnInputAvailable then 1 else 0

/-- The iteration for the flags `F`, at each place of the thread. -/
def Serving (F : BitVec 32) (s : JudgeThread) (log : FlagLog) : Prop :=
  match s.pc with
  | .loop => log.Counts F (passes s.pendingFlags) 0 0
  | .sleep => log.Counts F (LowestBit.bits s.pendingFlags) 0 0 ∧
    log.served.getLast? = some chnInputAvailable
  | .read r => log.Counts F [] (min r 1) 0 ∧ log.served.getLast? = some chnInputAvailable ∧
    s.pendingFlags = 0 ∧ r < judgeBufferSize
  | .decode => log.Counts F [] 1 0 ∧ log.served.getLast? = some chnInputAvailable ∧ s.pendingFlags = 0
  | .flush => log.Counts F (LowestBit.bits s.pendingFlags) (decodesDue log.served s.pendingFlags)
    (decodesDue log.served s.pendingFlags)
  | .finalFlush => log.Counts F [] (decodesDue log.served 0) (decodesDue log.served 0)
  | .memset => log.Counts F [] (decodesDue log.served 0) (decodesDue log.served 0) ∧
    log.unreset = false ∧ s.iqueue = log.delivered
  | .wait => log.Counts F [] (decodesDue log.served 0) (decodesDue log.served 0) ∧
    log.unreset = false ∧ s.iqueue = log.delivered ∧ s.sdrxbuf = Vector.replicate judgeBufferSize 0
  | _ => False

theorem decodesDue_of_pending {served : List (BitVec 32)} {pending : BitVec 32} (h : pending ≠ 0) :
    decodesDue served pending = 0 := if_neg fun hdue => h hdue.1

theorem decodesDue_of_last {served : List (BitVec 32)} {pending : BitVec 32}
    (h : served.getLast? ≠ some chnInputAvailable) : decodesDue served pending = 0 :=
  if_neg fun hdue => h hdue.2

theorem Serving.driver {F : BitVec 32} {s t : JudgeThread} {log : FlagLog} {e : JudgeEvent}
    (h : Serving F s log) (he : e ≠ .thread) (hst : s.step e = some t) :
    Serving F t (log.next s e) := by
  obtain ⟨source, rfl, -⟩ := driver_step he hst
  have hqueue : s.iqueue = log.delivered → s.queued e = s.nextDelivered e log.delivered := by
    intro hq
    rw [queued_eq, nextDelivered, if_neg he, hq]
  rw [FlagLog.next_driver he]
  cases hpc : s.pc with
  | start | blocked | fetch => simp only [Serving, hpc] at h
  | loop | flush | finalFlush =>
    simp only [Serving, hpc] at h ⊢
    exact h.deliver _
  | sleep | read r | decode =>
    simp only [Serving, hpc] at h ⊢
    exact ⟨h.1.deliver _, h.2⟩
  | memset =>
    simp only [Serving, hpc] at h ⊢
    obtain ⟨hcounts, hreset, hq⟩ := h
    exact ⟨hcounts.deliver _, hreset, hqueue hq⟩
  | wait =>
    simp only [Serving, hpc] at h ⊢
    obtain ⟨hcounts, hreset, hq, hbuf⟩ := h
    exact ⟨hcounts.deliver _, hreset, hqueue hq, hbuf⟩

theorem Serving.not_waiting {F : BitVec 32} {s : JudgeThread} {log : FlagLog} (h : Serving F s log)
    (hbusy : s.pc ≠ .wait) : ¬ (s.pc = .wait ∨ s.pc = .blocked) := by
  rintro (hpc | hpc)
  · exact hbusy hpc
  · simp only [Serving, hpc] at h

theorem Serving.pass {F : BitVec 32} {s : JudgeThread} {log : FlagLog} (h : Serving F s log)
    (hpc : s.pc = .loop) :
    (log.next s .thread).Counts F (LowestBit.bits s.isolate.pendingFlags) 0 0 ∧
      (log.next s .thread).served.getLast? = some (leastSetBit s.pendingFlags) := by
  simp only [Serving, hpc] at h
  simp only [FlagLog.next, hpc, if_true]
  refine ⟨⟨?_, h.reads_eq, h.decodes_eq⟩, List.getLast?_concat⟩
  rw [← h.order, passes_eq_cons, List.append_assoc]
  rfl

theorem Serving.pass_other {F : BitVec 32} {s : JudgeThread} {log : FlagLog} (h : Serving F s log)
    (hpc : s.pc = .loop) (hin : leastSetBit s.pendingFlags ≠ chnInputAvailable)
    (pending : BitVec 32) :
    (log.next s .thread).Counts F (LowestBit.bits s.isolate.pendingFlags)
      (decodesDue (log.next s .thread).served pending)
      (decodesDue (log.next s .thread).served pending) := by
  obtain ⟨hcounts, hlast⟩ := h.pass hpc
  have hother : (log.next s .thread).served.getLast? ≠ some chnInputAvailable := by
    rw [hlast]
    exact fun heq => hin (Option.some.inj heq)
  rw [decodesDue_of_last hother]
  exact hcounts

theorem Serving.room {F : BitVec 32} {s : JudgeThread} {log : FlagLog} {r : Nat} (h : Serving F s log)
    (hpc : s.pc = .read r) : r < judgeBufferSize := by
  simp only [Serving, hpc] at h
  exact h.2.2.2

theorem Serving.take {F : BitVec 32} {s : JudgeThread} {log : FlagLog} {r : Nat} (h : Serving F s log)
    (hpc : s.pc = .read r) :
    (log.next s .thread).Counts F [] 1 0 ∧
      (log.next s .thread).served.getLast? = some chnInputAvailable ∧ s.pendingFlags = 0 := by
  simp only [Serving, hpc] at h
  obtain ⟨hcounts, hlast, hzero, -⟩ := h
  have hreads : (if r = 0 then log.reads + 1 else log.reads) = 1 := by
    rw [hcounts.reads_eq]
    split_ifs <;> omega
  simp only [FlagLog.next, hpc, if_true]
  exact ⟨⟨hcounts.order, hreads, hcounts.decodes_eq⟩, hlast, hzero⟩

theorem Serving.thread {F : BitVec 32} {s t : JudgeThread} {log : FlagLog} (h : Serving F s log)
    (hbusy : s.pc ≠ .wait) (hst : s.step .thread = some t) : Serving F t (log.next s .thread) := by
  cases thread_cases hst with
  | register hpc | fetch hpc => simp only [Serving, hpc] at h
  | block hpc => exact absurd hpc hbusy
  | take hpc => exact absurd hpc (h.not_waiting hbusy)
  | input hpc hin =>
    obtain ⟨hcounts, hlast⟩ := h.pass hpc
    exact ⟨hcounts, hlast.trans (congrArg some hin)⟩
  | reset hpc hfl => exact h.pass_other hpc (fun hin => input_notMem_flushFlags (hin ▸ hfl)) _
  | ignore hpc hin hfl hmore =>
    obtain ⟨hcounts, hlast⟩ := h.pass hpc
    rw [← passes_of_ne hmore] at hcounts
    exact hcounts
  | ignoreLast hpc hin hfl hzero =>
    have hcounts := h.pass_other hpc hin 0
    rw [hzero, LowestBit.bits_zero] at hcounts
    exact hcounts
  | read hpc hzero =>
    simp only [Serving, hpc, hzero, LowestBit.bits_zero] at h
    simp only [Serving, FlagLog.next, hpc, if_true]
    exact ⟨h.1.deliver _, h.2, hzero, by decide⟩
  | skip hpc hmore =>
    simp only [Serving, hpc] at h
    simp only [Serving, FlagLog.next, hpc, if_true, decodesDue_of_pending hmore]
    exact h.1.deliver _
  | byte r b rest hpc hq hmore =>
    have hr := h.room hpc
    obtain ⟨hcounts, hlast, hzero⟩ := h.take hpc
    have hone : min (r + 1) 1 = 1 := by omega
    simp only [Serving, hone]
    exact ⟨hcounts, hlast, hzero, by omega⟩
  | full r b rest hpc | empty r hpc => exact h.take hpc
  | decode hpc =>
    simp only [Serving, hpc] at h
    obtain ⟨hcounts, hlast, hzero⟩ := h
    simp only [Serving, FlagLog.next, hpc, if_true, hzero, LowestBit.bits_zero, decodesDue, hlast,
      and_self]
    exact ⟨hcounts.order, hcounts.reads_eq, by rw [hcounts.decodes_eq]⟩
  | flush hpc hmore =>
    simp only [Serving, hpc, decodesDue_of_pending hmore, ← passes_of_ne hmore] at h
    simp only [Serving, FlagLog.next, hpc, if_true]
    exact ⟨h.order, h.reads_eq, h.decodes_eq⟩
  | flushLast hpc hzero =>
    simp only [Serving, hpc, hzero, LowestBit.bits_zero] at h
    simp only [Serving, FlagLog.next, hpc, if_true]
    exact ⟨h.order, h.reads_eq, h.decodes_eq⟩
  | finalFlush hpc =>
    simp only [Serving, hpc] at h
    simp only [Serving, FlagLog.next, hpc, if_true, nextDelivered, or_true, and_true]
    exact ⟨h.order, h.reads_eq, h.decodes_eq⟩
  | memset hpc =>
    simp only [Serving, hpc] at h
    obtain ⟨hcounts, hreset, hq⟩ := h
    simp only [Serving, FlagLog.next, hpc, if_true, nextDelivered_thread (s := s) (by simp [hpc]),
      and_true]
    exact ⟨hcounts.deliver _, hreset, hq⟩

theorem Serving.step {F : BitVec 32} {s t : JudgeThread} {log : FlagLog} {e : JudgeEvent}
    (h : Serving F s log) (hiter : e = .thread → s.pc ≠ .wait) (hst : s.step e = some t) :
    Serving F t (log.next s e) := by
  by_cases he : e = .thread
  · subst he
    exact h.thread (hiter rfl) hst
  · exact h.driver he hst

/-- A bound on the steps that the thread still takes before its next wait. -/
def work (s : JudgeThread) : Nat :=
  match s.pc with
  | .loop => 3 * (passes s.pendingFlags).length + judgeBufferSize + 3
  | .sleep => 3 * (LowestBit.bits s.pendingFlags).length + judgeBufferSize + 5
  | .read r => judgeBufferSize + 4 - r
  | .decode => 4
  | .flush =>
    if s.pendingFlags = 0 then 3 else 3 * (LowestBit.bits s.pendingFlags).length + judgeBufferSize + 4
  | .finalFlush => 2
  | .memset => 1
  | _ => 0

theorem driver_work {s t : JudgeThread} {e : JudgeEvent} (he : e ≠ .thread)
    (hst : s.step e = some t) :
    t.work = s.work := by
  obtain ⟨source, rfl, -⟩ := driver_step he hst
  rfl

theorem work_of_loop {s : JudgeThread} (hpc : s.pc = .loop) :
    s.work = 3 * (LowestBit.bits s.isolate.pendingFlags).length + judgeBufferSize + 6 := by
  simp only [work, hpc, passes_eq_cons, List.length_cons, isolate]
  omega

theorem Serving.work_lt {F : BitVec 32} {s t : JudgeThread} {log : FlagLog} (h : Serving F s log)
    (hbusy : s.pc ≠ .wait) (hst : s.step .thread = some t) : t.work < s.work := by
  cases thread_cases hst with
  | register hpc | fetch hpc => simp only [Serving, hpc] at h
  | block hpc => exact absurd hpc hbusy
  | take hpc => exact absurd hpc (h.not_waiting hbusy)
  | input hpc | ignoreLast hpc =>
    rw [work_of_loop hpc]
    simp only [work]
    omega
  | reset hpc =>
    rw [work_of_loop hpc]
    simp only [work]
    split_ifs <;> omega
  | ignore hpc _ _ hmore =>
    rw [work_of_loop hpc]
    simp only [work, passes_of_ne hmore]
    omega
  | read hpc | finalFlush hpc | memset hpc =>
    simp only [work, hpc]
    omega
  | skip hpc hmore =>
    simp only [work, hpc, if_neg hmore]
    omega
  | byte r b rest hpc | full r b rest hpc | empty r hpc =>
    have hr := h.room hpc
    simp only [work, hpc]
    omega
  | decode hpc =>
    simp only [Serving, hpc] at h
    simp only [work, hpc, if_pos h.2.2]
    omega
  | flush hpc hmore =>
    simp only [work, hpc, if_neg hmore, passes_of_ne hmore]
    omega
  | flushLast hpc hzero =>
    simp only [work, hpc, if_pos hzero]
    omega

theorem Serving.thread_isSome {F : BitVec 32} {s : JudgeThread} {log : FlagLog}
    (h : Serving F s log) :
    (s.step .thread).isSome = true := by
  cases hpc : s.pc with
  | blocked => simp only [Serving, hpc] at h
  | wait =>
    simp only [JudgeThread.step, threadStep, hpc]
    split_ifs <;> rfl
  | _ => simp only [JudgeThread.step, threadStep, hpc, Option.isSome_some]

/-- What has been done is a beginning of what there is to do. -/
theorem Serving.so_far {F : BitVec 32} {s : JudgeThread} {log : FlagLog} (h : Serving F s log) :
    log.served <+: passes F ∧ log.decodes ≤ log.reads ∧ log.reads ≤ 1 := by
  have hcounts : ∃ left reads decodes, log.Counts F left reads decodes ∧ decodes ≤ reads ∧
      reads ≤ 1 := by
    have hdue : ∀ pending, decodesDue log.served pending ≤ 1 := by
      intro pending
      rw [decodesDue]
      split_ifs <;> omega
    cases hpc : s.pc with
    | start | blocked | fetch => simp only [Serving, hpc] at h
    | loop =>
      simp only [Serving, hpc] at h
      exact ⟨_, _, _, h, le_rfl, by omega⟩
    | sleep | read r | decode =>
      simp only [Serving, hpc] at h
      exact ⟨_, _, _, h.1, by omega, by omega⟩
    | flush | finalFlush =>
      simp only [Serving, hpc] at h
      exact ⟨_, _, _, h, le_rfl, hdue _⟩
    | memset | wait =>
      simp only [Serving, hpc] at h
      exact ⟨_, _, _, h.1, le_rfl, hdue _⟩
  obtain ⟨left, reads, decodes, hcounts, hle, hone⟩ := hcounts
  refine ⟨⟨left, hcounts.order⟩, ?_, ?_⟩
  · rw [hcounts.reads_eq, hcounts.decodes_eq]
    exact hle
  · rw [hcounts.reads_eq]
    exact hone

def InIteration (s : JudgeThread) (e : JudgeEvent) : Prop := e = .thread → s.pc ≠ .wait

instance (s : JudgeThread) (e : JudgeEvent) : Decidable (s.InIteration e) :=
  inferInstanceAs (Decidable (_ → _))

theorem serving_run {F : BitVec 32} {x y : JudgeThread × FlagLog} {es : List JudgeEvent}
    (hinit : Serving F x.1 x.2) (hiter : Machine.Always step InIteration x.1 es)
    (hrun : Machine.run (Machine.watch step FlagLog.next) x es = some y) :
    Serving F y.1 y.2 ∧ es.count .thread + y.1.work ≤ x.1.work := by
  refine Machine.run_countP_le (P := fun x : JudgeThread × FlagLog => Serving F x.1 x.2)
    (· == .thread) (fun x => x.1.work) hinit ?_ (hiter.watch FlagLog.next) hrun
  intro m e t hm ha hst
  obtain ⟨hst, hnext⟩ := Machine.watch_eq_some.mp hst
  refine ⟨hnext ▸ hm.step ha hst, ?_⟩
  by_cases he : e = .thread
  · subst he
    exact hm.work_lt (ha rfl) hst
  · simp [he, driver_work he hst]

theorem serving_ends {F : BitVec 32} {x : JudgeThread × FlagLog} (h : Serving F x.1 x.2) :
    ∃ k y, k ≤ x.1.work ∧
      Machine.run (Machine.watch step FlagLog.next) x (List.replicate k .thread) = some y ∧
      y.1.pc = .wait := by
  refine Machine.exists_run_le (P := fun x : JudgeThread × FlagLog => Serving F x.1 x.2)
    (fun x => x.1.work) JudgeEvent.thread ?_ h
  intro m hm hbusy
  obtain ⟨t, hst⟩ := Option.isSome_iff_exists.mp hm.thread_isSome
  exact ⟨(t, FlagLog.next m.1 .thread m.2), Machine.watch_eq_some.mpr ⟨hst, rfl⟩, hm.thread hbusy hst,
    hm.work_lt hbusy hst⟩

theorem serving_fetched {s : JudgeThread} (hpc : s.pc = .fetch) :
    ∃ t, s.step .thread = some t ∧ Serving s.source.elFlags t (FlagLog.next s .thread {}) ∧
      t.work = 3 * max 1 (LowestBit.bits s.source.elFlags).length + judgeBufferSize + 3 := by
  refine ⟨{ s with source := s.source.clearFlags, pendingFlags := s.source.elFlags, pc := .loop },
    ?_, ?_, ?_⟩
  · simp only [step, threadStep, hpc, EventSource.chEvtGetAndClearFlagsI]
  · simp only [Serving, FlagLog.next, hpc, if_true]
    exact ⟨rfl, rfl, rfl⟩
  · rw [← length_passes]
    rfl

def disconnectedThread : JudgeThread where
  source := { listener := some { elEvents := 1, elFlags := 6, elWflags := serialWkupFlags } }
  iqueue := [7]
  pc := .fetch

-- One byte comes in time to be read, and one after the last reset of the queue.
def serveBoth : List JudgeEvent :=
  List.replicate 4 .thread ++ [.receive { rxne := true } 8] ++ List.replicate 5 .thread ++
    [.receive { rxne := true } 9, .thread]

end JudgeThread

end SafetyTrolley
