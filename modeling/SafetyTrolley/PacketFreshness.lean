import SafetyTrolley.JudgeThread

/-! What the decoder looks at. The bytes that a read has taken and those that
are still queued are, in this order, the ones delivered since the last reset. -/

namespace SafetyTrolley

def JudgePc.beforeRead : JudgePc → Bool
  | .start | .wait | .blocked | .fetch | .loop | .sleep => true
  | _ => false

namespace JudgeThread

def delivers (s : JudgeThread) : JudgeEvent → List UInt8
  | .receive sr b => if sr.rxne ∧ s.iqueue.length < judgeBufferSize then [b] else []
  | _ => []

/-- The bytes delivered to the queue since its last reset. -/
def nextDelivered (s : JudgeThread) (e : JudgeEvent) (delivered : List UInt8) : List UInt8 :=
  if e = .thread then
    if s.pc = .flush ∨ s.pc = .finalFlush then [] else delivered
  else delivered ++ s.delivers e

theorem nextDelivered_thread {s : JudgeThread} (hpc : ¬ (s.pc = .flush ∨ s.pc = .finalFlush))
    (delivered : List UInt8) : s.nextDelivered .thread delivered = delivered := by
  rw [nextDelivered, if_pos rfl, if_neg hpc]

abbrev logged (es : List JudgeEvent) : Option (JudgeThread × List UInt8) :=
  Machine.run (Machine.watch step nextDelivered) ({}, []) es

theorem logged_run (es : List JudgeEvent) : (logged es).map Prod.fst = Machine.run step {} es :=
  Machine.run_watch_fst step nextDelivered ({}, []) es

theorem queued_eq (s : JudgeThread) (e : JudgeEvent) : s.queued e = s.iqueue ++ s.delivers e := by
  cases e with
  | receive sr b =>
    simp only [queued, delivers]
    split_ifs <;> simp
  | _ => exact (List.append_nil _).symm

theorem ofBytes_nil : RxBuffer.ofBytes [] = Vector.replicate judgeBufferSize 0 := by
  apply Vector.ext
  intro i hi
  simp [RxBuffer.ofBytes]

theorem ofBytes_concat (taken : List UInt8) (b : UInt8) :
    (RxBuffer.ofBytes taken).setIfInBounds taken.length b = RxBuffer.ofBytes (taken ++ [b]) := by
  apply Vector.ext
  intro i hi
  rw [Vector.getElem_setIfInBounds]
  simp only [RxBuffer.ofBytes, Vector.getElem_ofFn, List.getD_eq_getElem?_getD]
  rcases Nat.lt_trichotomy i taken.length with hlt | rfl | hgt
  · rw [if_neg (by omega), List.getElem?_append_left hlt]
  · simp
  · rw [if_neg (by omega), List.getElem?_eq_none hgt.le, List.getElem?_eq_none (by simp; omega)]

theorem ofBytes_take {taken : List UInt8} {n : Nat} (hn : n ≤ taken.length)
    (hle : taken.length ≤ judgeBufferSize) : (RxBuffer.ofBytes taken).toList.take n =
      taken.take n := by
  apply List.ext_getElem?
  intro i
  rw [List.getElem?_take, List.getElem?_take]
  split_ifs with hi
  · rw [List.getElem?_eq_getElem (by simp; omega), List.getElem?_eq_getElem (by omega)]
    simp [RxBuffer.ofBytes, List.getElem?_eq_getElem (show i < taken.length by omega)]
  · rfl

/-- How many bytes the read of this iteration has put into the buffer, while
they wait for the decoder. -/
def readSoFar (s : JudgeThread) : Option Nat :=
  match s.pc with
  | .read r => some r
  | .decode => some s.datalength.toNat
  | _ => none

structure Fresh (s : JudgeThread) (delivered : List UInt8) : Prop where
  intact : s.pc.beforeRead = true ∨ s.pc = .memset → s.iqueue = delivered
  zeroed : s.pc.beforeRead = true ∨ s.pc = .flush ∧ s.pendingFlags ≠ 0 →
    s.sdrxbuf = RxBuffer.ofBytes []
  taken : ∀ r, s.readSoFar = some r → s.pendingFlags = 0 ∧ ∃ taken : List UInt8, taken.length = r ∧
    delivered = taken ++ s.iqueue ∧ s.sdrxbuf = RxBuffer.ofBytes taken
  short : (∀ r, s.pc = .read r → r < judgeBufferSize) ∧
    (s.pc = .decode → s.datalength.toNat ≤ judgeBufferSize)

theorem Fresh.driver {s t : JudgeThread} {delivered : List UInt8} {e : JudgeEvent}
    (h : Fresh s delivered) (he : e ≠ .thread) (hst : s.step e = some t) :
    Fresh t (s.nextDelivered e delivered) := by
  obtain ⟨source, rfl, -⟩ := driver_step he hst
  rw [nextDelivered, if_neg he]
  refine ⟨fun hpc => ?_, h.zeroed, fun r hr => ?_, h.short⟩
  · rw [← h.intact hpc, ← queued_eq]
  · obtain ⟨hzero, taken, hlen, hdel, hbuf⟩ := h.taken r hr
    refine ⟨hzero, taken, hlen, ?_, hbuf⟩
    rw [hdel, List.append_assoc, ← queued_eq]

theorem Fresh.of_before {s : JudgeThread} {delivered : List UInt8} (hpc : s.pc.beforeRead = true)
    (hq : s.iqueue = delivered) (hbuf : s.sdrxbuf = RxBuffer.ofBytes []) : Fresh s delivered := by
  refine ⟨fun _ => hq, fun _ => hbuf, fun r hr => ?_, fun r hr => ?_, fun hdec => ?_⟩
  · cases hs : s.pc <;> simp [readSoFar, hs, JudgePc.beforeRead] at hr hpc
  · simp [hr, JudgePc.beforeRead] at hpc
  · simp [hdec, JudgePc.beforeRead] at hpc

theorem Fresh.of_flush {s : JudgeThread} {delivered : List UInt8} (hpc : s.pc = .flush)
    (hbuf : s.pendingFlags ≠ 0 → s.sdrxbuf = RxBuffer.ofBytes []) : Fresh s delivered := by
  refine ⟨fun hno => ?_, fun h => hbuf ?_, fun r hr => ?_, fun r hr => ?_, fun hdec => ?_⟩
  · simp [hpc, JudgePc.beforeRead] at hno
  · simpa [hpc, JudgePc.beforeRead] using h
  · simp [readSoFar, hpc] at hr
  · cases hpc.symm.trans hr
  · cases hpc.symm.trans hdec

theorem Fresh.of_taken {s : JudgeThread} {delivered : List UInt8} (taken : List UInt8)
    (hr : s.readSoFar = some taken.length) (hzero : s.pendingFlags = 0)
    (hdel : delivered = taken ++ s.iqueue) (hbuf : s.sdrxbuf = RxBuffer.ofBytes taken)
    (hle : taken.length ≤ judgeBufferSize) (hlt : s.pc ≠ .decode → taken.length < judgeBufferSize) :
    Fresh s delivered := by
  refine ⟨fun hno => ?_, fun hno => ?_, fun r hr' => ?_, fun r hpc => ?_, fun hpc => ?_⟩
  · cases hpc : s.pc <;> simp [readSoFar, hpc, JudgePc.beforeRead] at hr hno
  · cases hpc : s.pc <;> simp [readSoFar, hpc, JudgePc.beforeRead] at hr hno
  · exact ⟨hzero, taken, Option.some.inj (hr.symm.trans hr'), hdel, hbuf⟩
  · have hlen : some r = some taken.length := by simpa [readSoFar, hpc] using hr
    rw [Option.some.inj hlen]
    exact hlt (by simp [hpc])
  · have hlen : some s.datalength.toNat = some taken.length := by simpa [readSoFar, hpc] using hr
    rw [Option.some.inj hlen]
    exact hle

theorem Fresh.thread {s t : JudgeThread} {delivered : List UInt8} (h : Fresh s delivered)
    (hst : s.step .thread = some t) : Fresh t (s.nextDelivered .thread delivered) := by
  rw [nextDelivered, if_pos rfl]
  cases thread_cases hst with
  | register hpc | block hpc | fetch hpc | input hpc | ignore hpc =>
    have hs : s.pc.beforeRead = true := by simp [hpc, JudgePc.beforeRead]
    rw [if_neg (by simp [hpc])]
    exact Fresh.of_before rfl (h.intact (Or.inl hs)) (h.zeroed (Or.inl hs))
  | take hpc =>
    have hs : s.pc.beforeRead = true := by
      rcases hpc with hpc | hpc <;> simp [hpc, JudgePc.beforeRead]
    rw [if_neg (by rcases hpc with hpc | hpc <;> simp [hpc])]
    exact Fresh.of_before rfl (h.intact (Or.inl hs)) (h.zeroed (Or.inl hs))
  | reset hpc | skip hpc =>
    have hs : s.pc.beforeRead = true := by simp [hpc, JudgePc.beforeRead]
    exact Fresh.of_flush rfl fun _ => h.zeroed (Or.inl hs)
  | read hpc hzero =>
    have hs : s.pc.beforeRead = true := by simp [hpc, JudgePc.beforeRead]
    rw [if_neg (by simp [hpc])]
    exact Fresh.of_taken [] rfl hzero (h.intact (Or.inl hs)).symm (h.zeroed (Or.inl hs))
      (Nat.zero_le _) fun _ => by decide
  | byte r b rest hpc hq hmore =>
    obtain ⟨hzero, taken, rfl, hdel, hbuf⟩ := h.taken r (by simp [readSoFar, hpc])
    have hshort := h.short.1 _ hpc
    have hlen : (taken ++ [b]).length = taken.length + 1 := by simp
    rw [if_neg (by simp [hpc])]
    refine Fresh.of_taken (taken ++ [b]) (by rw [hlen]; rfl) hzero ?_ ?_ (by omega) fun _ => by omega
    · rw [hdel, hq, List.append_cons]
    · rw [← ofBytes_concat, ← hbuf]
  | full r b rest hpc hq hfull =>
    obtain ⟨hzero, taken, rfl, hdel, hbuf⟩ := h.taken r (by simp [readSoFar, hpc])
    have hlen : (taken ++ [b]).length = judgeBufferSize := by simpa using hfull
    have hread : (UInt8.ofNat (taken.length + 1)).toNat = (taken ++ [b]).length := by
      rw [hfull, hlen]
      decide
    rw [if_neg (by simp [hpc])]
    refine Fresh.of_taken (taken ++ [b]) (congrArg some hread) hzero ?_ ?_ hlen.le
      fun hno => absurd rfl hno
    · rw [hdel, hq, List.append_cons]
    · rw [← ofBytes_concat, ← hbuf]
  | empty r hpc hq =>
    obtain ⟨hzero, taken, rfl, hdel, hbuf⟩ := h.taken r (by simp [readSoFar, hpc])
    have hshort : taken.length < 128 := h.short.1 _ hpc
    have hlen : (UInt8.ofNat taken.length).toNat = taken.length := by
      rw [UInt8.toNat_ofNat']
      omega
    rw [if_neg (by simp [hpc])]
    exact Fresh.of_taken taken (congrArg some hlen) hzero hdel hbuf hshort.le fun hno =>
      absurd rfl hno
  | decode hpc =>
    have hzero := (h.taken s.datalength.toNat (by simp [readSoFar, hpc])).1
    exact Fresh.of_flush rfl fun hno => absurd hzero hno
  | flush hpc hmore =>
    rw [if_pos (Or.inl hpc)]
    exact Fresh.of_before rfl rfl (h.zeroed (Or.inr ⟨hpc, hmore⟩))
  | finalFlush hpc =>
    rw [if_pos (Or.inr hpc)]
    exact ⟨fun _ => rfl, fun hno => by simp [JudgePc.beforeRead] at hno, nofun, nofun, nofun⟩
  | memset hpc =>
    rw [if_neg (by simp [hpc])]
    exact Fresh.of_before rfl (h.intact (Or.inr hpc)) ofBytes_nil.symm
  | ignoreLast hpc | flushLast hpc =>
    exact ⟨fun hno => by simp [JudgePc.beforeRead] at hno,
      fun hno => by simp [JudgePc.beforeRead] at hno,
      nofun, nofun, nofun⟩

theorem Fresh.step {s t : JudgeThread} {delivered : List UInt8} {e : JudgeEvent}
    (h : Fresh s delivered) (hst : s.step e = some t) : Fresh t (s.nextDelivered e delivered) := by
  by_cases he : e = .thread
  · subst he
    exact h.thread hst
  · exact h.driver he hst

theorem fresh {es : List JudgeEvent} {x : JudgeThread × List UInt8} (h : logged es = some x) :
    Fresh x.1 x.2 := by
  have hinit : Fresh {} [] := Fresh.of_before rfl rfl ofBytes_nil.symm
  refine Machine.watch_invariant hinit ?_ h
  intro s delivered e t hs hst
  exact hs.step hst

def Accepting (s : JudgeThread) (e : JudgeEvent) : Prop :=
  e = .thread ∧ s.pc = .decode ∧ serialAccepts s.sdrxbuf = true

/-- The ten bytes of an accepted packet are the first ten delivered since the
last reset, and were all read; nothing else touches the records. -/
theorem accepted_fresh (es : List JudgeEvent) (x : JudgeThread × List UInt8) (h : logged es = some x)
    (e : JudgeEvent) (t : JudgeThread) (hst : x.1.step e = some t) :
    (Accepting x.1 e → 10 ≤ x.1.datalength.toNat ∧
      x.1.sdrxbuf.toList.take 10 = x.2.take 10 ∧ 10 ≤ x.2.length) ∧
    (¬ Accepting x.1 e → t.rc = x.1.rc) := by
  constructor
  · rintro ⟨rfl, hpc, hacc⟩
    have hfresh := fresh h
    obtain ⟨-, taken, hlen, hdel, hbuf⟩ := hfresh.taken x.1.datalength.toNat
      (by simp [readSoFar, hpc])
    have hle := hfresh.short.2 hpc
    -- the second marker is not zero, so it was read
    have hlong : 10 ≤ taken.length := by
      by_contra hshort
      rw [hbuf, serialAccepts, Bool.and_eq_true, beq_iff_eq, beq_iff_eq] at hacc
      simp [RxBuffer.ofBytes, List.getElem?_eq_none (show taken.length ≤ 9 by omega)] at hacc
    refine ⟨by omega, ?_, ?_⟩
    · rw [hbuf, ofBytes_take hlong (by omega), hdel, List.take_append_of_le_length hlong]
    · rw [hdel, List.length_append]
      omega
  · intro hno
    rcases step_rc hst with ⟨he, hpc, hrc⟩ | hrc
    · rw [hrc, serialDecode, if_neg fun hacc => hno ⟨he, hpc, hacc⟩]
    · exact hrc

def packetArrives : List JudgeEvent :=
  [.thread, .thread] ++ (serialPacket #v[1, 2, 3, 4, 5, 6, 7, 8]).map (.receive { rxne := true }) ++
    List.replicate 15 .thread

theorem accepted_packetArrives : ∃ x, logged packetArrives = some x ∧ 10 ≤ x.1.datalength.toNat ∧
    x.1.sdrxbuf.toList.take 10 = x.2.take 10 ∧ 10 ≤ x.2.length := by
  have hrun : (logged packetArrives).any
      (fun x => decide (x.1.pc = .decode) && serialAccepts x.1.sdrxbuf &&
      (x.1.step .thread).isSome) = true := by
    decide +kernel
  obtain ⟨x, hx, hdec⟩ := (Option.any_eq_true _ _).mp hrun
  simp only [Bool.and_eq_true, decide_eq_true_eq] at hdec
  obtain ⟨⟨hpc, hacc⟩, hen⟩ := hdec
  obtain ⟨t, ht⟩ := Option.isSome_iff_exists.mp hen
  exact ⟨x, hx, (accepted_fresh packetArrives x hx .thread t ht).1 ⟨rfl, hpc, hacc⟩⟩

end JudgeThread

end SafetyTrolley
