import SafetyTrolley.FrameOrder
import SafetyTrolley.StickReading

/-! The link from the stick to the chassis: the two firmwares with the bus between them,
whose only buffers are the three mailboxes on each side. -/

namespace SafetyTrolley

instance (tx rx : CANMailbox) : Decidable (Carries tx rx) :=
  decidable_of_iff
    (rx.ir.getLsbD 1 = tx.ir.getLsbD 1 ∧ rx.ir.getLsbD 2 = tx.ir.getLsbD 2 ∧
      (if tx.ir.getLsbD 2 then rx.ir >>> 3 = tx.ir >>> 3 else rx.ir >>> 21 = tx.ir >>> 21) ∧
      rx.dtr.setWidth 4 = tx.dtr.setWidth 4 ∧ rx.data8 = tx.data8)
    ⟨fun ⟨hrtr, hide, hid, hdlc, hdata⟩ => ⟨hrtr, hide, hid, hdlc, hdata⟩,
      fun h => ⟨h.rtr, h.ide, h.identifier, h.dlc, h.data8⟩⟩

structure CommandLink where
  remote : RemoteFirmware
  chassis : CanReceiver := {}

/-- A message of the remote is delivered in some mailbox of the chassis, or the chassis
misses it; `chassis` has the messages of all other nodes. -/
inductive LinkEvent where
  | remote (e : RemoteEvent)
  | chassis (e : CanEvent)
  | deliver (wire : CANMailbox) (rxmsg : CANRxFrame)
  | missed
  deriving DecidableEq

namespace CommandLink

def isForeign : CanEvent → Bool
  | .arrive canp rxmsg => !isRemote canp rxmsg
  | _ => true

def step (s : CommandLink) : LinkEvent → Option CommandLink
  | .remote e =>
    if e = .transmitted then none
    else (s.remote.step e).map fun remote => { s with remote }
  | .chassis e =>
    if isForeign e then (s.chassis.step e).map fun chassis => { s with chassis } else none
  | .deliver wire rxmsg =>
    match s.remote.pending with
    | [] => none
    | mailbox :: _ =>
      if Carries mailbox wire then
        (s.remote.step .transmitted).bind fun remote =>
          (s.chassis.step (.arrive .cand2 (canLldReceive wire rxmsg))).map fun chassis =>
            { remote, chassis }
      else none
  | .missed => (s.remote.step .transmitted).map fun remote => { s with remote }

def start (txmsg : CANTxFrame) : CommandLink where
  remote := RemoteFirmware.start txmsg

end CommandLink

/-- The record that the chassis makes of a message. -/
def CanFeedback.command (feedbackData : CanFeedback) : RemoteCanStruct where
  xJoystick := feedbackData.xJoystick
  yJoystick := feedbackData.yJoystick
  button := feedbackData.button
  updated := 1

/-- The same record read from the registers of a mailbox. -/
def CANMailbox.command (mailbox : CANMailbox) : RemoteCanStruct :=
  canProcessRemoteCommand { rtr := false, ide := false, id := 0, dlc := 8, data8 := mailbox.data8 }

def commands (frames : List CANRxFrame) : List RemoteCanStruct :=
  (frames.filter (isRemote .cand2)).map canProcessRemoteCommand

@[simp] theorem commands_append (frames frames' : List CANRxFrame) :
    commands (frames ++ frames') = commands frames ++ commands frames' := by
  simp [commands]

theorem commands_singleton (rxmsg : CANRxFrame) :
    commands [rxmsg] = if isRemote .cand2 rxmsg then [canProcessRemoteCommand rxmsg] else [] := by
  cases h : isRemote .cand2 rxmsg <;> simp [commands, h]

/-- A data frame of eight bytes under the identifier of the remote. -/
structure CANTxFrame.IsFeedback (txmsg : CANTxFrame) : Prop where
  ide : txmsg.ide = false
  rtr : txmsg.rtr = false
  dlc : txmsg.dlc = 8
  sid : txmsg.id.setWidth 11 = canFeedbackId

theorem isFeedback_start (txmsg : CANTxFrame) : (canFeedbackThdStart txmsg).IsFeedback :=
  ⟨rfl, rfl, rfl, storeSid_setWidth _ _⟩

namespace RemoteFirmware

/-- Every message that waits in a mailbox, or will be put into one, has its header. -/
structure Framed (s : RemoteFirmware) : Prop where
  header : s.feedback ≠ .notCreated → s.feedback ≠ .start → s.txmsg.IsFeedback
  data : s.feedback = .transmit ∨ s.feedback = .blocked →
    ∃ data8, s.txmsg.data8 = memcpy data8 s.feedbackData.bytes
  pending : ∀ mailbox ∈ s.pending, ∃ txmsg, CANTxFrame.IsFeedback txmsg ∧
    mailbox = canLldTransmit txmsg

def sends (s : RemoteFirmware) : RemoteEvent → List CanFeedback
  | .feedback _ =>
    if s.feedback = .transmit ∧ s.pending.length < canTxMailboxes then [s.feedbackData] else []
  | _ => []

theorem Framed.canTransmit {s : RemoteFirmware} (h : s.Framed) (hpc : s.feedback = .transmit) :
    s.canTransmit.Framed ∧ s.canTransmit.pending.map CANMailbox.command =
      s.pending.map CANMailbox.command ++
        (if s.pending.length < canTxMailboxes then [s.feedbackData] else []).map CanFeedback.command := by
  have hheader : s.txmsg.IsFeedback := h.header (by simp [hpc]) (by simp [hpc])
  obtain ⟨data8, hdata⟩ := h.data (Or.inl hpc)
  unfold RemoteFirmware.canTransmit
  split_ifs with hroom
  · refine ⟨⟨fun _ _ => hheader, by simp, ?_⟩, ?_⟩
    · intro mailbox hmem
      rcases List.mem_append.mp hmem with hmem | hmem
      · exact h.pending mailbox hmem
      · exact ⟨s.txmsg, hheader, List.mem_singleton.mp hmem⟩
    · have hcommand : (canLldTransmit s.txmsg).command = s.feedbackData.command :=
        canProcessRemoteCommand_memcpy s.feedbackData data8 hdata
      simp [hcommand]
  · exact ⟨⟨fun _ _ => hheader, fun _ => ⟨data8, hdata⟩, h.pending⟩, by simp⟩

/-- The mailboxes get what the thread sends, and nothing else. -/
theorem Framed.step {s t : RemoteFirmware} {e : RemoteEvent} (h : s.Framed) (he : e ≠ .transmitted)
    (hst : s.step e = some t) :
    t.Framed ∧ t.pending.map CANMailbox.command =
      s.pending.map CANMailbox.command ++ (s.sends e).map CanFeedback.command := by
  cases e with
  | transmitted => exact absurd rfl he
  | main =>
    simp only [RemoteFirmware.step] at hst
    split at hst <;> cases hst
    · exact ⟨⟨h.header, h.data, h.pending⟩, by simp [sends]⟩
    · exact ⟨⟨fun _ hne => absurd rfl hne, by simp, h.pending⟩, by simp [sends]⟩
  | convert x =>
    simp only [RemoteFirmware.step] at hst
    split_ifs at hst
    cases hst
    exact ⟨⟨h.header, h.data, h.pending⟩, by simp [sends]⟩
  | voltMon =>
    simp only [RemoteFirmware.step, RemoteFirmware.voltMonThd] at hst
    split at hst <;> cases hst <;> exact ⟨⟨h.header, h.data, h.pending⟩, by simp [sends]⟩
  | timeout =>
    simp only [RemoteFirmware.step] at hst
    split_ifs at hst with hpc
    cases hst
    exact ⟨⟨fun _ _ => h.header (by simp [hpc]) (by simp [hpc]), by simp, h.pending⟩, by simp [sends]⟩
  | txIrq =>
    simp only [RemoteFirmware.step] at hst
    split_ifs at hst with hirq hpc <;> cases hst
    · exact ⟨⟨fun _ _ => h.header (by simp [hpc]) (by simp [hpc]), fun _ => h.data (Or.inr hpc),
        h.pending⟩,
        by simp [sends]⟩
    · exact ⟨⟨h.header, h.data, h.pending⟩, by simp [sends]⟩
  | feedback gpioa =>
    simp only [RemoteFirmware.step, canFeedbackThd] at hst
    cases hpc : s.feedback with
    | notCreated => simp [hpc] at hst
    | blocked => simp [hpc] at hst
    | start =>
      simp only [hpc, Option.some.injEq] at hst
      subst hst
      exact ⟨⟨fun _ _ => isFeedback_start s.txmsg, by simp, h.pending⟩, by simp [sends, hpc]⟩
    | fill =>
      simp only [hpc, Option.some.injEq] at hst
      subst hst
      have hheader := h.header (by simp [hpc]) (by simp [hpc])
      refine ⟨⟨fun _ _ => ?_, fun _ => ⟨s.txmsg.data8, rfl⟩, h.pending⟩, by simp [sends, hpc]⟩
      exact ⟨hheader.ide, hheader.rtr, hheader.dlc, hheader.sid⟩
    | transmit =>
      simp only [hpc, Option.some.injEq] at hst
      subst hst
      simp only [sends, hpc, true_and]
      exact h.canTransmit hpc

end RemoteFirmware

namespace CommandLink

open LossyLink

def receiver (s : CommandLink) : CanChannel := s.chassis.channel .cand2

/-- The messages between the two programs, the oldest first. -/
def inFlight (s : CommandLink) : List RemoteCanStruct :=
  commands s.receiver.received ++ s.remote.pending.map CANMailbox.command

/-- What the remote put into its mailboxes, the records that the chassis stored, and how
many messages were lost: replaced in the chassis's FIFO, or missed on the bus. -/
structure LinkLog where
  sent : List CanFeedback := []
  stored : List RemoteCanStruct := []
  missed : Nat := 0
  deriving DecidableEq, Repr

def LinkLog.next (s : CommandLink) (e : LinkEvent) (l : LinkLog) : LinkLog :=
  match e with
  | .remote e => { l with sent := l.sent ++ s.remote.sends e }
  | .chassis (.thread .cand2) => { l with stored := l.stored ++ commands s.receiver.pc.inProcess }
  | .chassis (.arrive .cand2 _) | .deliver _ _ =>
    { l with missed := l.missed + (commands s.receiver.replaced).length }
  | .missed => { l with missed := l.missed + 1 }
  | _ => l

structure Ordered (s : CommandLink) (l : LinkLog) : Prop where
  framed : s.remote.Framed
  conveys : Conveys (l.sent.map CanFeedback.command) l.stored s.inFlight l.missed
  latest : s.chassis.can.remoteCommand = l.stored.getLastD {}

theorem commands_received {wire : CANMailbox} {txmsg : CANTxFrame} (h : txmsg.IsFeedback)
    (hwire : Carries (canLldTransmit txmsg) wire) (rxmsg : CANRxFrame) :
    commands [canLldReceive wire rxmsg] = [(canLldTransmit txmsg).command] := by
  obtain ⟨hsid, hdata⟩ := received_standard h.ide hwire rxmsg
  have hremote : isRemote .cand2 (canLldReceive wire rxmsg) = true := by
    rw [isRemote, hsid, h.sid]
    rfl
  rw [commands_singleton, if_pos hremote]
  exact congrArg (fun c => [c]) (canProcessRemoteCommand_congr hdata)

theorem stored_chassis (s : CommandLink) (e : CanEvent) (l : LinkLog) :
    (l.next s (.chassis e)).stored =
      l.stored ++ if e = .thread .cand2 then commands s.receiver.pc.inProcess else [] := by
  cases e with
  | thread canp | arrive canp rxmsg => cases canp <;> simp [LinkLog.next]
  | _ => simp [LinkLog.next]

/-- The record of the chassis is written by the thread of its second driver alone. -/
theorem latest_chassis {s : CommandLink} {l : LinkLog} {e : CanEvent} {chassis : CanReceiver}
    (h : s.chassis.can.remoteCommand = l.stored.getLastD {}) (hst : s.chassis.step e = some chassis) :
    chassis.can.remoteCommand = (l.next s (.chassis e)).stored.getLastD {} := by
  obtain ⟨-, -, -, -, -, -, hcan⟩ := CanReceiver.step_eq_some hst
  rw [stored_chassis, hcan]
  cases e with
  | thread canp =>
    have hnext : ∀ rxmsg, (canProcessEncoderMessage canp rxmsg s.chassis.can).remoteCommand =
        (l.stored ++ if canp = .cand2 then commands [rxmsg] else []).getLastD {} := by
      intro rxmsg
      rw [canProcessEncoderMessage_remoteCommand, commands_singleton]
      cases canp with
      | cand1 => simpa [isRemote] using h
      | cand2 => cases isRemote .cand2 rxmsg <;> simp [h]
    simp only [CanReceiver.nextCan, CanEvent.thread.injEq]
    cases canp with
    | cand1 =>
      cases (s.chassis.channel .cand1).pc with
      | process rxmsg => exact hnext rxmsg
      | _ => simpa using h
    | cand2 =>
      rw [receiver]
      cases (s.chassis.channel .cand2).pc with
      | process rxmsg => exact hnext rxmsg
      | _ => simpa [CanRxPc.inProcess, commands] using h
  | _ => simpa [CanReceiver.nextCan] using h

theorem Ordered.chassis {s : CommandLink} {l : LinkLog} {e : CanEvent} {chassis : CanReceiver}
    (h : s.Ordered l) (hforeign : isForeign e = true) (hst : s.chassis.step e = some chassis) :
    Ordered { s with chassis } (l.next s (.chassis e)) := by
  refine ⟨h.framed, ?_, latest_chassis h.latest hst⟩
  have hconveys := h.conveys
  unfold inFlight at hconveys
  change Conveys _ _ (commands (chassis.channel .cand2).received ++ _) _
  rcases CanReceiver.received_step hst .cand2 with ⟨rxmsg, xs, rfl, hold, hnew⟩ |
      ⟨rxmsg, rfl, hpc, hreceived⟩ |
    ⟨harrive, hthread, hreceived⟩
  · have hno : commands [rxmsg] = [] := by
      rw [commands_singleton, if_neg]
      simpa [isForeign] using hforeign
    rw [receiver, hold, commands_append] at hconveys
    rw [hnew, commands_append, hno, List.append_nil]
    exact hconveys.miss
  · have hpc' : s.receiver.pc = .process rxmsg := hpc
    rw [receiver, hreceived, ← List.singleton_append, commands_append, commands_singleton] at hconveys
    rw [stored_chassis, if_pos rfl, hpc', CanRxPc.inProcess, commands_singleton]
    split_ifs at hconveys ⊢
    · exact hconveys.store
    · rw [List.append_nil]
      exact hconveys
  · have hnext : l.next s (.chassis e) = l := by
      cases e with
      | arrive canp rxmsg =>
        cases canp with
        | cand1 => rfl
        | cand2 => exact absurd rfl (harrive rxmsg)
      | thread canp =>
        cases canp with
        | cand1 => rfl
        | cand2 => simp [LinkLog.next, receiver, hthread rfl, commands]
      | _ => rfl
    rw [hreceived, hnext]
    exact hconveys

theorem arrive_received {s t : CanReceiver} {canp : CANDriver} {rxmsg : CANRxFrame}
    (h : s.step (.arrive canp rxmsg) = some t) :
    ∃ xs, (s.channel canp).received = xs ++ (s.channel canp).replaced ∧
      (t.channel canp).received = xs ++ [rxmsg] := by
  rcases CanReceiver.received_step h canp with ⟨rxmsg', xs, he, hold, hnew⟩ | ⟨-, he, -⟩ |
      ⟨harrive, -⟩
  · cases he
    exact ⟨xs, hold, hnew⟩
  · cases he
  · exact absurd rfl (harrive rxmsg)

/-- The end of a transmission: the oldest message leaves its mailbox. -/
theorem Ordered.transmitted {s : CommandLink} {l : LinkLog} {remote : RemoteFirmware}
    (h : s.Ordered l) (hst : s.remote.step .transmitted = some remote) :
    ∃ mailbox, s.remote.pending = mailbox :: remote.pending ∧ remote.Framed := by
  simp only [RemoteFirmware.step] at hst
  split_ifs at hst with hpending
  cases hst
  obtain ⟨mailbox, rest, hcons⟩ := List.exists_cons_of_ne_nil hpending
  refine ⟨mailbox, by simp [hcons], h.framed.header, h.framed.data, ?_⟩
  intro m hm
  exact h.framed.pending m (List.mem_of_mem_tail hm)

theorem Ordered.step {s t : CommandLink} {l : LinkLog} {e : LinkEvent} (h : s.Ordered l)
    (hst : s.step e = some t) :
    t.Ordered (l.next s e) := by
  cases e with
  | remote e =>
    simp only [CommandLink.step] at hst
    split_ifs at hst with he
    obtain ⟨remote, hremote, rfl⟩ := Option.map_eq_some_iff.mp hst
    obtain ⟨hframed, hpending⟩ := h.framed.step he hremote
    refine ⟨hframed, ?_, h.latest⟩
    change Conveys _ _ (commands s.receiver.received ++ remote.pending.map CANMailbox.command) _
    simp only [LinkLog.next, List.map_append]
    rw [hpending, ← List.append_assoc]
    exact h.conveys.send _
  | chassis e =>
    simp only [CommandLink.step] at hst
    split_ifs at hst with hforeign
    obtain ⟨chassis, hchassis, rfl⟩ := Option.map_eq_some_iff.mp hst
    exact h.chassis hforeign hchassis
  | deliver wire rxmsg =>
    simp only [CommandLink.step] at hst
    split at hst
    · cases hst
    next mailbox rest hpending =>
    split_ifs at hst with hwire
    obtain ⟨remote, hremote, hst⟩ := Option.bind_eq_some_iff.mp hst
    obtain ⟨chassis, hchassis, rfl⟩ := Option.map_eq_some_iff.mp hst
    obtain ⟨mailbox', hpending', hframed⟩ := h.transmitted hremote
    obtain ⟨rfl, rfl⟩ := List.cons.inj (hpending.symm.trans hpending')
    obtain ⟨txmsg, hfeedback, rfl⟩ := h.framed.pending mailbox (by simp [hpending])
    obtain ⟨xs, hold, hnew⟩ := arrive_received hchassis
    have hconveys := h.conveys
    unfold inFlight at hconveys
    rw [receiver, hold, commands_append, hpending', List.map_cons] at hconveys
    refine ⟨hframed, ?_, ?_⟩
    · change Conveys _ _ (commands (chassis.channel .cand2).received ++ _) _
      rw [hnew, commands_append, commands_received hfeedback hwire rxmsg, List.append_assoc]
      exact hconveys.miss
    · obtain ⟨-, -, -, -, -, -, hcan⟩ := CanReceiver.step_eq_some hchassis
      change chassis.can.remoteCommand = _
      rw [hcan]
      exact h.latest
  | missed =>
    simp only [CommandLink.step] at hst
    obtain ⟨remote, hremote, rfl⟩ := Option.map_eq_some_iff.mp hst
    obtain ⟨mailbox, hpending, hframed⟩ := h.transmitted hremote
    refine ⟨hframed, ?_, h.latest⟩
    have hconveys := h.conveys
    unfold inFlight at hconveys
    rw [hpending, List.map_cons, ← List.singleton_append, ← List.append_assoc] at hconveys
    exact hconveys.miss

theorem ordered_start (txmsg : CANTxFrame) : (start txmsg).Ordered {} :=
  ⟨⟨fun hne => absurd rfl hne, by simp [start, RemoteFirmware.start],
      by simp [start, RemoteFirmware.start]⟩,
    conveys_nil, rfl⟩

theorem Ordered.run {txmsg : CANTxFrame} {es : List LinkEvent} {s : CommandLink} {l : LinkLog}
    (h : Machine.run (Machine.watch CommandLink.step LinkLog.next) (start txmsg, {}) es = some (s, l)) :
    s.Ordered l := by
  refine Machine.watch_invariant (P := fun s l => s.Ordered l) (ordered_start txmsg) ?_ h
  intro s l e t hs hst
  exact hs.step hst

/-- The chassis never goes back to an older command: in every run of the two boards and the
bus, the records that it stores are those of the messages sent, in their order and without
repetition. Every message is stored, on its way, or counted as missed, and the record in
force is the last one stored. -/
theorem commands_in_order {txmsg : CANTxFrame} {es : List LinkEvent} {s : CommandLink} {l : LinkLog}
    (h : Machine.run (Machine.watch step LinkLog.next) (start txmsg, {}) es = some (s, l)) :
    l.stored.Sublist (l.sent.map CanFeedback.command) ∧
      l.stored.length + s.inFlight.length + l.missed = l.sent.length ∧
      (l.missed = 0 → l.stored ++ s.inFlight = l.sent.map CanFeedback.command) ∧
      s.chassis.can.remoteCommand = l.stored.getLastD {} := by
  have hinv := Ordered.run h
  refine ⟨hinv.conveys.stored_sublist, by simpa using hinv.conveys.count, fun hzero => ?_,
    hinv.latest⟩
  have hconveys := hinv.conveys
  rw [hzero] at hconveys
  exact hconveys.lossless

/-- The mailbox of a message filled from these readings. -/
def commandMailbox (voltData : Voltages) (gpioa : UInt32) : CANMailbox :=
  canLldTransmit (canFeedbackPass gpioa voltData (canFeedbackThdStart staleFrame)).2

/-- The threads of both boards start, up to the first pass of the remote's sender. -/
def linkStart : List LinkEvent :=
  List.replicate 4 (.chassis .main) ++ [.chassis (.thread .cand2)] ++
    List.replicate 2 (.remote .main) ++
    [.remote (.feedback 0)]

/-- The bus brings a message, and the chassis stores it. -/
def storeCommand (wire : CANMailbox) : List LinkEvent :=
  [.deliver wire { rtr := true, ide := true, id := 7, dlc := 0, data8 := Vector.replicate 8 1 },
    .chassis (.rx0Irq .cand2)] ++ List.replicate 4 (.chassis (.thread .cand2))

/-- Of three messages the first is missed, the second stored, and the third still under way. -/
def secondCommand : List LinkEvent :=
  linkStart ++ List.replicate 2 (.remote (.feedback 0)) ++ List.replicate 2 (.remote (.feedback 1)) ++
    [.missed] ++ storeCommand (commandMailbox {} 1) ++ List.replicate 2 (.remote (.feedback 0))

theorem commands_in_order_secondCommand : ∃ (s : CommandLink) (l : LinkLog),
    Machine.run (Machine.watch step LinkLog.next) (start staleFrame, {}) secondCommand = some (s, l) ∧
      l.sent = [{ button := 1 }, { button := 0 }, { button := 1 }] ∧ s.inFlight.length = 1 ∧
        l.missed = 1 ∧
      l.stored.Sublist (l.sent.map CanFeedback.command) ∧
      l.stored.length + s.inFlight.length + l.missed = l.sent.length ∧
      s.chassis.can.remoteCommand = l.stored.getLastD {} := by
  have hrun : (Machine.run (Machine.watch step LinkLog.next) (start staleFrame, {}) secondCommand).any
      (fun x => decide (x.2.sent = [{ button := 1 }, { button := 0 }, { button := 1 }] ∧
        x.1.inFlight.length = 1 ∧ x.2.missed = 1)) = true := by decide +kernel
  obtain ⟨⟨s, l⟩, h, hs⟩ := (Option.any_eq_true _ _).mp hrun
  obtain ⟨hsent, hflight, hmissed⟩ : l.sent = [{ button := 1 }, { button := 0 }, { button := 1 }] ∧
      s.inFlight.length = 1 ∧ l.missed = 1 := of_decide_eq_true hs
  obtain ⟨hsub, hcount, -, hlatest⟩ := commands_in_order h
  exact ⟨s, l, h, hsent, hflight, hmissed, hsub, hcount, hlatest⟩

end CommandLink

end SafetyTrolley
