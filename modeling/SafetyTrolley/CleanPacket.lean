import SafetyTrolley.Acquisition
import SafetyTrolley.Commitment
import SafetyTrolley.PacketFreshness
import SafetyTrolley.SerialFraming

/-! A packet that comes alone and unharmed to a thread that waits for it.
It is dropped exactly if a flag of the transmitter is fetched with its own. -/

namespace SafetyTrolley

def JudgePc.isReading : JudgePc → Bool
  | .sleep | .read _ => true
  | _ => false

structure Received (p : Vector UInt8 8) (rc : RcData) : Prop where
  force : rc.joystick.forceReading = Int32.ofNat (Bytes.le32 p 0)
  x : rc.joystick.xReading = Int16.ofNat (Bytes.le16 p 4)
  y : rc.joystick.yReading = Int16.ofNat (Bytes.le16 p 6)
  corrected : rc.joystick.correctedForceReading = (8315500 - rc.joystick.forceReading.toInt) / 100
  updated : rc.remoteData.updated = 1

namespace JudgeThread

/-- The packet arrives at a thread that has not got to its read, and nothing else does. -/
def Arrives (p : Vector UInt8 8) (s : JudgeThread) (es : List JudgeEvent) (t : JudgeThread) : Prop :=
  Machine.run (Machine.watch step nextDelivered) (s, []) es = some (t, serialPacket p) ∧
    Machine.Always step Undisturbed s es

/-- A run on from the sleep up to the end of the read, with any interrupts. -/
def Reads (s : JudgeThread) (es : List JudgeEvent) (t : JudgeThread) : Prop :=
  Machine.run step s es = some t ∧
    Machine.Always step (fun m e => e = .thread → m.pc.isReading = true) s es

/-- The thread decodes before it resets the queue, and what it decodes is the packet. -/
structure Accepts (p : Vector UInt8 8) (s : JudgeThread) : Prop where
  decodes : Decodes s { begun := true }
  received : ∀ es t, Reads s es t → t.pc ≠ .flush ∧
    ∀ u, t.pc = .decode → t.step .thread = some u → Received p u.rc

theorem Arrives.run {p : Vector UInt8 8} {s t : JudgeThread} {es : List JudgeEvent}
    (h : Arrives p s es t) : Machine.run JudgeThread.step s es = some t := by
  rw [← Machine.run_watch_fst JudgeThread.step nextDelivered (s, []) es, h.1]
  rfl

theorem Arrives.thread {p : Vector UInt8 8} {s t u : JudgeThread} {es : List JudgeEvent}
    (h : Arrives p s es t) (hpc : t.pc.isAcquiring = true) (hst : t.step .thread = some u) :
    Arrives p s (es ++ [.thread]) u := by
  have hsame : nextDelivered t .thread (serialPacket p) = serialPacket p :=
    nextDelivered_thread (by rintro (hno | hno) <;> simp [hno, JudgePc.isAcquiring] at hpc) _
  refine ⟨Machine.run_concat.mpr ⟨_, h.1, Machine.watch_eq_some.mpr ⟨hst, hsame.symm⟩⟩, ?_⟩
  exact (Machine.always_concat h.run).mpr ⟨h.2, rfl, fun _ => hpc⟩

theorem Arrives.acquires {p : Vector UInt8 8} {s t : JudgeThread} {clean : Prop}
    {es : List JudgeEvent} (hs : Acquires s clean) (h : Arrives p s es t) :
    Acquires t (clean ∧ Machine.Always JudgeThread.step Silent s es) := by
  refine Machine.run_induction_of_always (A := Undisturbed)
    (P := fun es t => Acquires t (clean ∧
      Machine.Always JudgeThread.step Silent s es)) ?_ ?_ h.2 h.run
  · rwa [and_iff_left (Machine.always_nil _ _ _)]
  · intro es m e u hm hacq hund hst
    rw [Machine.always_concat hm, ← and_assoc]
    exact hacq.step hund hst

theorem Arrives.fresh {p : Vector UInt8 8} {s t : JudgeThread} {es : List JudgeEvent}
    (hs : Fresh s []) (h : Arrives p s es t) : Fresh t (serialPacket p) := by
  refine Machine.watch_invariant hs ?_ h.1
  intro m delivered e u hm hst
  exact hm.step hst

/-- Once the packet is there the thread goes on to its sleep by itself. -/
theorem Arrives.to_sleep {p : Vector UInt8 8} {s t : JudgeThread} {clean : Prop}
    {es : List JudgeEvent}
    (hs : Acquires s clean) (hfresh : Fresh s []) (hw : Wired s) (h : Arrives p s es t) :
    ∃ n u, Arrives p s (es ++ List.replicate n .thread) u ∧ u.pc = .sleep := by
  have hacq := h.acquires hs
  by_cases hpc : t.pc = .sleep
  · exact ⟨0, t, by simpa using h, hpc⟩
  have hmore : t.pc.isAcquiring = true := hacq.underway.resolve_right hpc
  have hq : t.iqueue = serialPacket p := by
    refine (h.fresh hfresh).intact (Or.inl ?_)
    cases ht : t.pc <;> simp [ht, JudgePc.isAcquiring, JudgePc.beforeRead] at hmore ⊢
  have hwired : Wired t := Machine.run_invariant hw (fun _ _ _ hm hst => hm.step hst) h.run
  obtain ⟨u, hst, hcloser⟩ := hacq.advance hwired (by rw [hq]; exact List.cons_ne_nil _ _) hpc
  obtain ⟨n, v, hv, hsleep⟩ := to_sleep hs hfresh hw (h.thread hmore hst)
  refine ⟨n + 1, v, ?_, hsleep⟩
  rwa [List.replicate_succ, List.append_cons]
termination_by t.pc.stepsToSleep

/-- The read gets the whole packet, with whatever has come after it. -/
structure Reading (p : Vector UInt8 8) (s : JudgeThread) : Prop where
  fresh : ∃ rest, Fresh s (serialPacket p ++ rest)
  underway : s.pc.isReading = true ∨ s.pc = .decode
  alone : s.pendingFlags = 0
  whole : s.pc = .decode → 10 ≤ s.datalength.toNat

theorem Reading.step {p : Vector UInt8 8} {s t : JudgeThread} {e : JudgeEvent} (h : Reading p s)
    (hpc : e = .thread → s.pc.isReading = true) (hst : s.step e = some t) : Reading p t := by
  obtain ⟨rest, hfresh⟩ := h.fresh
  by_cases he : e = .thread
  · subst he
    have hread := hpc rfl
    have hsame : s.nextDelivered .thread (serialPacket p ++ rest) = serialPacket p ++ rest :=
      nextDelivered_thread (by rintro (hno | hno) <;> simp [hno, JudgePc.isReading] at hread) _
    have hnext := hfresh.step hst
    rw [hsame] at hnext
    have halone := h.alone
    cases thread_cases hst with
    | read => exact ⟨⟨rest, hnext⟩, Or.inl rfl, halone, (by simp)⟩
    | skip _ hne => exact absurd halone hne
    | byte => exact ⟨⟨rest, hnext⟩, Or.inl rfl, halone, (by simp)⟩
    | full r b q _ _ hfull =>
      refine ⟨⟨rest, hnext⟩, Or.inr rfl, halone, fun _ => ?_⟩
      change 10 ≤ (UInt8.ofNat (r + 1)).toNat
      rw [hfull]
      decide
    | empty r _ hq =>
      -- an empty queue: all that was delivered has been read
      refine ⟨⟨rest, hnext⟩, Or.inr rfl, halone, fun _ => ?_⟩
      obtain ⟨-, taken, hlen, hdel, -⟩ := hnext.taken _ rfl
      have hall := congrArg List.length hdel
      simp only [List.length_append, serialPacket_length, hq, List.length_nil] at hall
      omega
    | take hno => rcases hno with hno | hno <;> simp [hno, JudgePc.isReading] at hread
    | register hno | block hno | fetch hno | input hno | reset hno | ignore hno | ignoreLast hno
    | decode hno | flush hno | flushLast hno | finalFlush hno | memset hno =>
      simp [hno, JudgePc.isReading] at hread
  · have hnext := hfresh.step hst
    obtain ⟨source, rfl, -⟩ := driver_step he hst
    refine ⟨⟨rest ++ s.delivers e, ?_⟩, h.underway, h.alone, h.whole⟩
    rw [nextDelivered, if_neg he, List.append_assoc] at hnext
    exact hnext

theorem Reading.received {p : Vector UInt8 8} {s t : JudgeThread} (h : Reading p s)
    (hpc : s.pc = .decode) (hst : s.step .thread = some t) : Received p t.rc := by
  obtain ⟨rest, hfresh⟩ := h.fresh
  obtain ⟨-, taken, hlen, hdel, hbuf⟩ := hfresh.taken s.datalength.toNat (by simp [readSoFar, hpc])
  have hwhole := h.whole hpc
  have hbyte : ∀ i < 10, taken[i]? = (serialPacket p)[i]? := by
    intro i hi
    have htaken : (taken ++ s.iqueue)[i]? = taken[i]? := List.getElem?_append_left (by omega)
    rw [← htaken, ← hdel, List.getElem?_append_left (by rw [serialPacket_length]; omega)]
  obtain ⟨hacc, hpay⟩ := packet_accepts hbyte
  rw [← hbuf] at hacc hpay
  have hrc : t.rc = serialDecode s.sdrxbuf s.rc := by
    simp only [JudgeThread.step, threadStep, hpc, Option.some.injEq] at hst
    rw [← hst]
  rw [hrc, serialDecode, if_pos hacc, hpay]
  exact ⟨rfl, rfl, rfl, rfl, rfl⟩

theorem accepts_of_alone {p : Vector UInt8 8} {s : JudgeThread} (hfresh : Fresh s (serialPacket p))
    (hpc : s.pc = .sleep) (hzero : s.pendingFlags = 0) : Accepts p s := by
  have hs : Reading p s :=
    ⟨⟨[], by rwa [List.append_nil]⟩, Or.inl (by rw [hpc]; rfl), hzero,
      fun hno => nomatch hpc.symm.trans hno⟩
  refine ⟨decodes_sleep hpc hzero, fun es t hreads => ?_⟩
  have ht : Reading p t := Machine.run_induction_of_always (P := fun _ t => Reading p t) hs
    (fun _ _ _ _ _ hm hpc hst => hm.step hpc hst) hreads.2 hreads.1
  refine ⟨fun hflush => ?_, fun u hdec hst => ht.received hdec hst⟩
  rcases ht.underway with hread | hdec
  · simp [hflush, JudgePc.isReading] at hread
  · exact nomatch hflush.symm.trans hdec

theorem not_accepts_of_others {p : Vector UInt8 8} {s : JudgeThread} (hpc : s.pc = .sleep)
    (hne : s.pendingFlags ≠ 0) : ¬ Accepts p s := by
  intro h
  have hst : s.step .thread = some { s with pc := .flush } := by
    simp only [JudgeThread.step, threadStep, hpc, if_neg hne]
  have hreads : Reads s [.thread] { s with pc := .flush } := by
    refine ⟨by rw [Machine.run_cons, hst]; rfl,
      Machine.always_cons.mpr ⟨fun _ => by rw [hpc]; rfl, ?_⟩⟩
    exact fun t _ => Machine.always_nil _ _ t
  exact (h.received _ _ hreads).1 rfl

def restingThread : JudgeThread where
  source := { listener := some ⟨serialEvtMask, 0, serialWkupFlags⟩ }
  pc := .blocked

theorem run_restingThread : Machine.run step {} [.thread, .thread] = some restingThread := rfl

def wakingPacket : List JudgeEvent :=
  (serialPacket #v[8, 7, 6, 5, 4, 3, 2, 1]).map (.receive { rxne := true }) ++
    List.replicate 3 .thread

end JudgeThread

end SafetyTrolley
