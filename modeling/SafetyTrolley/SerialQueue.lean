import SafetyTrolley.InputQueue
import SafetyTrolley.JudgeThread

/-! The serial receiver on the driver's own queue. The list of bytes of `JudgeThread` is
what its ring buffer holds. -/

namespace SafetyTrolley

/-- The queue of `judge` is not used. -/
structure SerialReceiver where
  judge : JudgeThread := {}
  iqueue : InputQueue Unit judgeBufferSize

namespace SerialReceiver

def chnAddFlagsI (s : SerialReceiver) (flags : BitVec 32) : SerialReceiver :=
  { s with judge := s.judge.chnAddFlagsI flags }

def sdIncomingDataI (s : SerialReceiver) (b : UInt8) : SerialReceiver :=
  let s := if s.iqueue.chIQIsEmptyI then s.chnAddFlagsI chnInputAvailable else s
  let (msg, _, iqueue) := s.iqueue.chIQPutI b
  let s := { s with iqueue }
  if msg.slt qOk then s.chnAddFlagsI sdOverrunError else s

def receive (s : SerialReceiver) (sr : UsartSr) (b : UInt8) : SerialReceiver :=
  let s := if sr.isError then s.chnAddFlagsI (JudgeThread.errorFlags sr) else s
  if sr.rxne then s.sdIncomingDataI b else s

-- One pass of the loop of chIQReadTimeout, which does not wait.
def readByte (s : SerialReceiver) (r : Nat) : SerialReceiver :=
  if s.iqueue.chIQIsEmptyI then
    { s with judge := { s.judge with datalength := UInt8.ofNat r, pc := .decode } }
  else
    let (b, iqueue) := s.iqueue.takeByte
    let judge := { s.judge with sdrxbuf := s.judge.sdrxbuf.setIfInBounds r b }
    if r + 1 = judgeBufferSize then
      { iqueue, judge := { judge with datalength := UInt8.ofNat (r + 1), pc := .decode } }
    else { iqueue, judge := { judge with pc := .read (r + 1) } }

def flushIQueue (s : SerialReceiver) : SerialReceiver := { s with iqueue := s.iqueue.chIQResetI.2 }

def threadStep (s : SerialReceiver) : Option SerialReceiver :=
  match s.judge.pc with
  | .read r => some (s.readByte r)
  | .flush => some { s.flushIQueue with judge := s.judge.nextFlag }
  | .finalFlush => some { s.flushIQueue with judge := { s.judge with pc := .memset } }
  | _ => s.judge.threadStep.map fun judge => { s with judge }

def step (s : SerialReceiver) : JudgeEvent → Option SerialReceiver
  | .receive sr b => if sr.isError || sr.rxne then some (s.receive sr b) else none
  | .breakDetected => some (s.chnAddFlagsI sdBreakDetected)
  | .outputEmpty => some (s.chnAddFlagsI chnOutputEmpty)
  | .transmissionEnd => some (s.chnAddFlagsI chnTransmissionEnd)
  | .thread => s.threadStep

theorem judgeBufferSize_pos : 0 < judgeBufferSize := by decide

def start (ib : Vector UInt8 judgeBufferSize) : SerialReceiver where
  iqueue := InputQueue.chIQObjectInit ib judgeBufferSize_pos

/-- The receiver with its bytes in a list. -/
def listed (s : SerialReceiver) : JudgeThread := { s.judge with iqueue := s.iqueue.ring.toList }

theorem listed_chnAddFlagsI (s : SerialReceiver) (flags : BitVec 32) :
    (s.chnAddFlagsI flags).listed = s.listed.chnAddFlagsI flags := rfl

theorem isEmpty_iff (s : SerialReceiver) : s.iqueue.chIQIsEmptyI = true ↔ s.listed.iqueue = [] :=
  RingBuffer.isEmpty_iff _

/-- A byte put into the ring is put into the list, and refused by both alike. -/
theorem listed_sdIncomingDataI {s : SerialReceiver} (h : s.iqueue.ring.Valid) (b : UInt8) :
    (s.sdIncomingDataI b).listed = s.listed.sdIncomingDataI b ∧
    (s.sdIncomingDataI b).iqueue.ring.Valid := by
  have hlen : s.listed.iqueue.length = s.iqueue.ring.counter := RingBuffer.length_toList _
  let s' := if s.iqueue.chIQIsEmptyI then s.chnAddFlagsI chnInputAvailable else s
  have hqueue : s'.iqueue = s.iqueue := by
    unfold s'
    split_ifs <;> rfl
  have hlisted : s'.listed = if s.listed.iqueue = [] then s.listed.chnAddFlagsI chnInputAvailable
      else s.listed := by
    unfold s'
    by_cases hempty : s.iqueue.chIQIsEmptyI = true
    · rw [if_pos hempty, if_pos (s.isEmpty_iff.mp hempty), listed_chnAddFlagsI]
    · rw [if_neg hempty, if_neg (fun hnil => hempty (s.isEmpty_iff.mpr hnil))]
  have hres : s.sdIncomingDataI b = (let s'' := { s' with iqueue := (s.iqueue.chIQPutI b).2.2 }
      if (s.iqueue.chIQPutI b).1.slt qOk then s''.chnAddFlagsI sdOverrunError else s'') := by
    rw [← hqueue]
    rfl
  have hjudge : s'.listed.iqueue = s.listed.iqueue := by
    change s'.iqueue.ring.toList = _
    rw [hqueue]
    rfl
  rw [hres, JudgeThread.sdIncomingDataI, ← hlisted, hjudge, hlen]
  rcases InputQueue.chIQPutI_cases h b with ⟨hfull, heq⟩ | ⟨hroom, hmsg, heq⟩
  · rw [heq, hfull, if_pos (show qFull.slt qOk = true by decide), if_neg (lt_irrefl _),
      listed_chnAddFlagsI]
    refine ⟨?_, h⟩
    rw [← hqueue]
  · rw [hmsg, if_neg (show ¬ qOk.slt qOk = true by decide), if_pos hroom, heq]
    refine ⟨?_, h.put hroom b⟩
    change { s'.judge with iqueue := (s.iqueue.ring.put b).toList } = _
    rw [h.toList_put hroom]
    rfl

theorem listed_receive {s : SerialReceiver} (h : s.iqueue.ring.Valid) (sr : UsartSr) (b : UInt8) :
    (s.receive sr b).listed = s.listed.receive sr b ∧ (s.receive sr b).iqueue.ring.Valid := by
  let s' := if sr.isError then s.chnAddFlagsI (JudgeThread.errorFlags sr) else s
  have hvalid : s'.iqueue.ring.Valid := by
    unfold s'
    split_ifs <;> exact h
  have hlisted : s'.listed = if sr.isError then s.listed.setError sr else s.listed := by
    unfold s'
    split_ifs <;> rfl
  rw [JudgeThread.receive, ← hlisted, receive]
  by_cases hrx : sr.rxne = true
  · rw [if_pos hrx, if_pos hrx]
    exact listed_sdIncomingDataI hvalid b
  · rw [if_neg hrx, if_neg hrx]
    exact ⟨rfl, hvalid⟩

theorem listed_readByte {s : SerialReceiver} (h : s.iqueue.ring.Valid) (r : Nat) :
    (s.readByte r).listed = s.listed.readByte r ∧ (s.readByte r).iqueue.ring.Valid := by
  rw [JudgeThread.readByte]
  split
  · next hnil =>
    rw [readByte, if_pos (s.isEmpty_iff.mpr hnil)]
    exact ⟨rfl, h⟩
  · next b rest hcons =>
    have hcounter : s.iqueue.ring.counter ≠ 0 := by
      rw [← RingBuffer.length_toList, show s.iqueue.ring.toList = b :: rest from hcons]
      exact Nat.succ_ne_zero _
    have hempty : ¬ s.iqueue.chIQIsEmptyI = true := by
      rw [s.isEmpty_iff, hcons]
      exact List.cons_ne_nil b rest
    obtain ⟨rfl, rfl⟩ := List.cons.inj ((RingBuffer.toList_eq_cons hcounter).symm.trans hcons)
    rw [readByte, if_neg hempty]
    by_cases hlast : r + 1 = judgeBufferSize
    · simp only [hlast, if_true]
      exact ⟨rfl, h.drop hcounter⟩
    · simp only [hlast, if_false]
      exact ⟨rfl, h.drop hcounter⟩

theorem listed_nextFlag (s : SerialReceiver) :
    ({ s.flushIQueue with judge := s.judge.nextFlag } : SerialReceiver).listed =
      ({ s.listed with iqueue := [] } : JudgeThread).nextFlag := by
  rw [JudgeThread.nextFlag, JudgeThread.nextFlag, listed]
  by_cases hmore : s.judge.pendingFlags ≠ 0
  · rw [if_pos hmore, if_pos (show s.listed.pendingFlags ≠ 0 from hmore)]
    rfl
  · rw [if_neg hmore, if_neg (show ¬ s.listed.pendingFlags ≠ 0 from hmore)]
    rfl

theorem serveFlag_queue (j : JudgeThread) (q : List UInt8) :
    ({ j with iqueue := q } : JudgeThread).serveFlag = { j.serveFlag with iqueue := q } := by
  simp only [JudgeThread.serveFlag, JudgeThread.nextFlag]
  by_cases hin : leastSetBit j.pendingFlags = chnInputAvailable
  · simp only [if_pos hin]
  · simp only [if_neg hin]
    split_ifs <;> rfl

/-- Only three steps of the thread touch the queue. -/
theorem threadStep_queue {j : JudgeThread} (q : List UInt8) (hread : ∀ r, j.pc ≠ .read r)
    (hflush : j.pc ≠ .flush) (hfinal : j.pc ≠ .finalFlush) :
    ({ j with iqueue := q } : JudgeThread).threadStep = j.threadStep.map fun t =>
    { t with iqueue := q } := by
  cases h : j.pc with
  | read r => exact absurd h (hread r)
  | flush => exact absurd h hflush
  | finalFlush => exact absurd h hfinal
  | wait | blocked =>
    simp only [JudgeThread.threadStep, h]
    split_ifs <;> rfl
  | loop =>
    simp only [JudgeThread.threadStep, h, Option.map_some]
    rw [← serveFlag_queue]
    rfl
  | sleep | start | fetch | decode | memset =>
    simp only [JudgeThread.threadStep, h]
    rfl

/-- A step of the thread is the same step on the list, and leaves the ring valid. -/
theorem listed_threadStep {s : SerialReceiver} (h : s.iqueue.ring.Valid) :
    s.threadStep.map listed = s.listed.threadStep ∧ ∀ t, s.threadStep = some t →
      t.iqueue.ring.Valid := by
  have hpc : s.listed.pc = s.judge.pc := rfl
  have hother : (∀ r, s.judge.pc ≠ .read r) → s.judge.pc ≠ .flush → s.judge.pc ≠ .finalFlush →
      s.threadStep.map listed = s.listed.threadStep ∧ ∀ t, s.threadStep = some t →
        t.iqueue.ring.Valid := by
    intro hread hflush hfinal
    have hstep : s.threadStep = s.judge.threadStep.map fun judge => { s with judge } := by
      unfold threadStep
      split <;> simp_all
    refine ⟨?_, fun t ht => ?_⟩
    · rw [hstep, Option.map_map]
      exact (threadStep_queue s.iqueue.ring.toList hread hflush hfinal).symm
    · rw [hstep] at ht
      obtain ⟨judge, -, rfl⟩ := Option.map_eq_some_iff.mp ht
      exact h
  cases hj : s.judge.pc with
  | read r =>
    obtain ⟨hlisted, hvalid⟩ := listed_readByte h r
    simp only [threadStep, JudgeThread.threadStep, hpc, hj, Option.map_some, hlisted,
      Option.some.injEq]
    exact ⟨trivial, fun t ht => ht ▸ hvalid⟩
  | flush =>
    simp only [threadStep, JudgeThread.threadStep, hpc, hj, Option.map_some, listed_nextFlag,
      Option.some.injEq]
    exact ⟨trivial, fun t ht => ht ▸ RingBuffer.valid_start _ _⟩
  | finalFlush =>
    simp only [threadStep, JudgeThread.threadStep, hpc, hj, Option.map_some, Option.some.injEq]
    exact ⟨rfl, fun t ht => ht ▸ RingBuffer.valid_start _ _⟩
  | _ => exact hother (by simp [hj]) (by simp [hj]) (by simp [hj])

theorem listed_step {s : SerialReceiver} (h : s.iqueue.ring.Valid) (e : JudgeEvent) :
    (s.step e).map listed = s.listed.step e ∧ ∀ t, s.step e = some t → t.iqueue.ring.Valid := by
  cases e with
  | receive sr b =>
    obtain ⟨hlisted, hvalid⟩ := listed_receive h sr b
    simp only [step, JudgeThread.step]
    split_ifs
    · exact ⟨congrArg some hlisted, fun t ht => Option.some.inj ht ▸ hvalid⟩
    · exact ⟨rfl, fun t ht => by cases ht⟩
  | thread => exact listed_threadStep h
  | breakDetected | outputEmpty | transmissionEnd => exact ⟨rfl, fun t ht => Option.some.inj ht ▸ h⟩

/-- Through any interleaving of the interrupts with the thread, the receiver on the ring of
the driver does what the receiver on a list does: a step is possible for both or for
neither, and the ring holds the bytes of the list. -/
theorem runs_as_list (ib : Vector UInt8 judgeBufferSize) (es : List JudgeEvent) :
    (Machine.run step (start ib) es).map listed = Machine.run JudgeThread.step {} es :=
  Machine.run_map (P := fun s => s.iqueue.ring.Valid) listed (RingBuffer.valid_start _ _)
    (fun _ e h => listed_step h e) es

end SerialReceiver

end SafetyTrolley
