import SafetyTrolley.CanReceiver
import SafetyTrolley.ForeignFrames
import SafetyTrolley.Lib.LossyLink

/-! The order of the received frames. Interrupts, time-outs and the two threads interleave
in any way, and a frame is lost only where it is replaced in a full FIFO. -/

namespace SafetyTrolley

def CanRxPc.held : CanRxPc → List CANRxFrame
  | .released rxmsg | .process rxmsg => [rxmsg]
  | _ => []

/-- The messages that a driver has received and its thread has not processed yet. -/
def CanChannel.received (ch : CanChannel) : List CANRxFrame := ch.pc.held ++ ch.fifo0

namespace CanChannel

theorem received_canRx {ch ch' : CanChannel} (h : ch.canRx = some ch') :
    (∃ rxmsg, ch.pc = .process rxmsg ∧ ch.received = rxmsg :: ch'.received) ∨
      ((∀ rxmsg, ch.pc ≠ .process rxmsg) ∧ ch'.received = ch.received) := by
  unfold canRx at h
  cases hpc : ch.pc with
  | notCreated => simp [hpc] at h
  | created =>
    simp only [hpc, Option.some.injEq] at h
    subst h
    exact Or.inr ⟨by simp, by simp [received, CanRxPc.held, hpc]⟩
  | loopHead | blocked =>
    simp only [hpc] at h
    split_ifs at h <;> cases h <;> exact Or.inr ⟨by simp, by simp [received, CanRxPc.held, hpc]⟩
  | drain =>
    simp only [hpc] at h
    split at h
    · next hfifo =>
      cases h
      exact Or.inr ⟨by simp, by simp [received, CanRxPc.held, hpc]⟩
    · next rxmsg rest hfifo =>
      cases h
      exact Or.inr ⟨by simp, by simp [received, CanRxPc.held, hpc, hfifo]⟩
  | released rxmsg =>
    simp only [hpc, Option.some.injEq] at h
    subst h
    exact Or.inr ⟨by simp, by simp [received, CanRxPc.held, hpc]⟩
  | process rxmsg =>
    simp only [hpc, Option.some.injEq] at h
    subst h
    exact Or.inl ⟨rxmsg, rfl, by simp [received, CanRxPc.held, hpc]⟩

/-- Only an arrival and the processing of a message change what is received. -/
theorem received_step {ch ch' : CanChannel} {e : ChannelEvent} (h : ch.step e = some ch')
    (harrive : ∀ rxmsg, e ≠ .arrive rxmsg) (hthread : e = .thread → ∀ rxmsg, ch.pc ≠ .process rxmsg) :
    ch'.received = ch.received := by
  cases e with
  | arrive rxmsg => exact absurd rfl (harrive rxmsg)
  | thread =>
    rcases received_canRx h with ⟨rxmsg, hpc, -⟩ | ⟨-, heq⟩
    · exact absurd hpc (hthread rfl rxmsg)
    · exact heq
  | canStart | create | timeout =>
    simp only [step] at h
    split_ifs at h with hif
    cases h
    simp [received, CanRxPc.held, hif]
  | rx0Irq =>
    have hhandler : ch.canLldRx0Handler.received = ch.received := by
      unfold canLldRx0Handler
      split_ifs <;> rfl
    simp only [step] at h
    split at h
    · cases h
    · split_ifs at h
      cases h
      exact hhandler

end CanChannel

/-- The messages that each driver received and those that a full FIFO lost, with the
messages processed by either thread in their common order. -/
structure FrameLog where
  arrived : CANDriver → List CANRxFrame := fun _ => []
  processed : List (CANDriver × CANRxFrame) := []
  overruns : CANDriver → Nat := fun _ => 0

def CanRxPc.inProcess : CanRxPc → List CANRxFrame
  | .process rxmsg => [rxmsg]
  | _ => []

theorem CanRxPc.inProcess_eq_nil {pc : CanRxPc} (h : ∀ rxmsg, pc ≠ .process rxmsg) :
    pc.inProcess = [] := by
  cases pc with
  | process rxmsg => exact absurd rfl (h rxmsg)
  | _ => rfl

def CanChannel.replaced (ch : CanChannel) : List CANRxFrame :=
  if ch.fifo0.length < canRxMailboxes then [] else ch.fifo0.getLast?.toList

def FrameLog.next (s : CanReceiver) (e : CanEvent) (l : FrameLog) : FrameLog :=
  match e with
  | .arrive canp rxmsg => { l with
      arrived := Function.update l.arrived canp (l.arrived canp ++ [rxmsg])
      overruns := Function.update l.overruns canp
        (l.overruns canp + (s.channel canp).replaced.length) }
  | .thread canp => { l with
      processed := l.processed ++ (s.channel canp).pc.inProcess.map fun rxmsg => (canp, rxmsg) }
  | _ => l

def FrameLog.processedBy (l : FrameLog) (canp : CANDriver) : List CANRxFrame :=
  l.processed.filterMap fun message => if message.1 = canp then some message.2 else none

namespace CanChannel

theorem received_arrive (ch : CanChannel) (rxmsg : CANRxFrame) :
    ∃ xs, ch.received = xs ++ ch.replaced ∧ (ch.arrive rxmsg).received = xs ++ [rxmsg] := by
  unfold arrive replaced received
  by_cases hroom : ch.fifo0.length < canRxMailboxes
  · exact ⟨ch.pc.held ++ ch.fifo0, by simp [hroom], by simp [hroom]⟩
  · refine ⟨ch.pc.held ++ ch.fifo0.dropLast, ?_, by simp [hroom]⟩
    have hne : ch.fifo0 ≠ [] := by
      intro hnil
      simp [hnil, canRxMailboxes] at hroom
    rw [if_neg hroom, List.getLast?_eq_some_getLast hne, List.append_assoc]
    simp [List.dropLast_append_getLast hne]

end CanChannel

namespace CanReceiver

open LossyLink

theorem target_arrive {s : CanReceiver} {e : CanEvent} {canp : CANDriver} {rxmsg : CANRxFrame}
    (h : s.target e = some (canp, .arrive rxmsg)) : e = .arrive canp rxmsg := by
  cases e with
  | main =>
    simp only [target] at h
    split at h <;> simp at h
  | _ => simp_all [target]

theorem target_thread {s : CanReceiver} {e : CanEvent} {canp : CANDriver}
    (h : s.target e = some (canp, .thread)) : e = .thread canp := by
  cases e with
  | main =>
    simp only [target] at h
    split at h <;> simp at h
  | _ => simp_all [target]

/-- What a step of the two receivers does to the messages of one driver. -/
theorem received_step {s t : CanReceiver} {e : CanEvent} (h : s.step e = some t) (canp : CANDriver) :
    (∃ rxmsg xs, e = .arrive canp rxmsg ∧ (s.channel canp).received = xs ++
      (s.channel canp).replaced ∧
      (t.channel canp).received = xs ++ [rxmsg]) ∨
    (∃ rxmsg, e = .thread canp ∧ (s.channel canp).pc = .process rxmsg ∧
      (s.channel canp).received = rxmsg :: (t.channel canp).received) ∨
    ((∀ rxmsg, e ≠ .arrive canp rxmsg) ∧ (e = .thread canp → (s.channel canp).pc.inProcess = []) ∧
      (t.channel canp).received = (s.channel canp).received) := by
  obtain ⟨canp', e', ch, htarget, hch, hchannel, -⟩ := step_eq_some h
  rw [hchannel]
  by_cases heq : canp = canp'
  · subst heq
    rw [Function.update_self]
    by_cases harrive : ∃ rxmsg, e' = .arrive rxmsg
    · obtain ⟨rxmsg, rfl⟩ := harrive
      obtain ⟨xs, hold, hnew⟩ := CanChannel.received_arrive (s.channel canp) rxmsg
      simp only [CanChannel.step] at hch
      split_ifs at hch
      cases hch
      exact Or.inl ⟨rxmsg, xs, target_arrive htarget, hold, hnew⟩
    · by_cases hprocess : e' = .thread ∧ ∃ rxmsg, (s.channel canp).pc = .process rxmsg
      · obtain ⟨rfl, rxmsg, hpc⟩ := hprocess
        rcases CanChannel.received_canRx hch with ⟨rxmsg', hpc', hreceived⟩ | ⟨hidle, -⟩
        · exact Or.inr (Or.inl ⟨rxmsg', target_thread htarget, hpc', hreceived⟩)
        · exact absurd hpc (hidle rxmsg)
      · have hthread : e' = .thread → ∀ rxmsg, (s.channel canp).pc ≠ .process rxmsg :=
          fun he rxmsg hpc => hprocess ⟨he, rxmsg, hpc⟩
        have hsame := CanChannel.received_step hch (fun rxmsg he => harrive ⟨rxmsg, he⟩) hthread
        refine Or.inr (Or.inr ⟨?_, ?_, hsame⟩)
        · rintro rxmsg rfl
          exact harrive ⟨rxmsg, (Prod.mk.inj (Option.some.inj htarget)).2.symm⟩
        · rintro rfl
          exact CanRxPc.inProcess_eq_nil (hthread (Prod.mk.inj (Option.some.inj htarget)).2.symm)
  · rw [Function.update_of_ne heq]
    refine Or.inr (Or.inr ⟨?_, ?_, rfl⟩)
    · rintro rxmsg rfl
      exact heq (Prod.mk.inj (Option.some.inj htarget)).1
    · rintro rfl
      exact absurd (Prod.mk.inj (Option.some.inj htarget)).1 heq

def InOrder (canp : CANDriver) (s : CanReceiver) (l : FrameLog) : Prop :=
  Conveys (l.arrived canp) (l.processedBy canp) (s.channel canp).received (l.overruns canp)

theorem inOrder_init (canp : CANDriver) : InOrder canp {} {} := conveys_nil

theorem processedBy_append (l : FrameLog) (canp canp' : CANDriver) (frames : List CANRxFrame) :
    ({ l with processed := l.processed ++
      frames.map fun rxmsg => (canp', rxmsg) } : FrameLog).processedBy canp =
      l.processedBy canp ++ if canp' = canp then frames else [] := by
  rw [FrameLog.processedBy, List.filterMap_append, List.filterMap_map, ← FrameLog.processedBy]
  congr 1
  split_ifs with heq
  · simp [heq]
  · simp [heq]

theorem InOrder.step {canp : CANDriver} {s t : CanReceiver} {e : CanEvent} {l : FrameLog}
    (h : InOrder canp s l) (hst : s.step e = some t) : InOrder canp t (l.next s e) := by
  unfold InOrder at h ⊢
  rcases received_step hst canp with ⟨rxmsg, xs, rfl, hold, hnew⟩ | ⟨rxmsg, rfl, hpc, hreceived⟩ |
    ⟨harrive, hthread, hreceived⟩
  · rw [hold] at h
    simp only [FrameLog.next, Function.update_self, hnew]
    exact (h.send [rxmsg]).miss
  · rw [hreceived] at h
    simp only [FrameLog.next, processedBy_append, hpc, if_true]
    exact h.store
  · rw [hreceived]
    cases e with
    | arrive canp' rxmsg =>
      have hne : canp ≠ canp' := fun heq => harrive rxmsg (heq ▸ rfl)
      simp only [FrameLog.next, Function.update_of_ne hne]
      exact h
    | thread canp' =>
      simp only [FrameLog.next, processedBy_append]
      by_cases heq : canp' = canp
      · rw [heq, if_pos rfl, hthread (heq ▸ rfl), List.append_nil]
        exact h
      · rw [if_neg heq, List.append_nil]
        exact h
    | _ => exact h

/-- The database is what the processed messages make of it, in the order of processing. -/
theorem can_step {s t : CanReceiver} {e : CanEvent} {l : FrameLog}
    (h : s.can = l.processed.foldl deliver {})
    (hst : s.step e = some t) : t.can = (l.next s e).processed.foldl deliver {} := by
  obtain ⟨canp', e', ch, htarget, hch, -, hcan⟩ := step_eq_some hst
  rw [hcan]
  cases e with
  | thread canp =>
    simp only [FrameLog.next, List.foldl_append, ← h, nextCan]
    cases (s.channel canp).pc <;> rfl
  | _ => exact h

def blankFrame (id : BitVec 29) : CANRxFrame where
  rtr := false
  ide := false
  id := id
  dlc := 8
  data8 := Vector.replicate 8 0

/-- Four messages reach three mailboxes, and the thread takes the first of them. -/
def overrunOnce : List CanEvent :=
  [.main, .main, .main, .main, .thread .cand1, .arrive .cand1 (blankFrame 1),
    .arrive .cand1 (blankFrame 2),
    .arrive .cand1 (blankFrame 3), .arrive .cand1 (blankFrame 4), .rx0Irq .cand1, .thread .cand1,
      .thread .cand1,
    .thread .cand1, .thread .cand1]

end CanReceiver

end SafetyTrolley
