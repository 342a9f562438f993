import SafetyTrolley.Lib.Machine
import SafetyTrolley.Lib.RingBuffer
import SafetyTrolley.RemoteLink

/-! The firmware of the remote: the converter fills the buffer of samples, one thread
averages it, and one of higher priority sends the averages, all at their own pace. -/

namespace SafetyTrolley

inductive RemoteMainPc where
  | voltInit | canFeedbackInit | done
  deriving DecidableEq, Repr

/-- The statements of adcDriverUpdate, with the counters of its loops. -/
inductive VoltMonPc where
  | notCreated | memset
  | sum (channelno sampleno : Nat)
  | divide (channelno : Nat)
  | xPot | yPot
  deriving DecidableEq, Repr

/-- `fill` is the locked section; the thread is blocked while all mailboxes are pending. -/
inductive CanFeedbackPc where
  | notCreated | start | fill | transmit | blocked
  deriving DecidableEq, Repr

theorem adcLength_pos : 0 < adcDepth * adcNumCh := by decide

structure RemoteFirmware where
  main : RemoteMainPc := .voltInit
  adc : AdcDriver := ⟨Vector.replicate adcDepth (Vector.replicate adcNumCh 0),
    Vector.replicate adcNumCh 0⟩
  dma : Fin (adcDepth * adcNumCh) := ⟨0, adcLength_pos⟩
  voltMon : VoltMonPc := .notCreated
  voltData : Voltages := {}
  feedback : CanFeedbackPc := .notCreated
  feedbackData : CanFeedback := {}
  txmsg : CANTxFrame
  pending : List CANMailbox := []
  rqcp : Bool := false
  deriving DecidableEq

/-- `convert` is the end of a conversion, `transmitted` that of the oldest message. -/
inductive RemoteEvent where
  | main
  | convert (x : BitVec 12)
  | voltMon
  | feedback (gpioa : UInt32)
  | timeout
  | transmitted
  | txIrq
  deriving DecidableEq, Repr

def canTxMailboxes : Nat := 3

-- The matrix is written row by row and has no gaps.
def AdcDriver.store (adc : AdcDriver) (dma : Fin (adcDepth * adcNumCh)) (x : BitVec 12) : AdcDriver :=
  have hrow : dma / adcNumCh < adcDepth := (Nat.div_lt_iff_lt_mul (by decide)).mpr dma.isLt
  have hcol : dma % adcNumCh < adcNumCh := Nat.mod_lt _ (by decide)
  let row := adc.sample[dma / adcNumCh].set (dma % adcNumCh) (UInt16.ofNat x.toNat)
  { adc with sample := adc.sample.set (dma / adcNumCh) row }

-- The indices used are within the two arrays.
def AdcDriver.sampleAt (adc : AdcDriver) (sampleno channelno : Nat) : UInt16 :=
  (adc.sample[sampleno]?.bind fun row => row[channelno]?).getD 0

def AdcDriver.avgAt (adc : AdcDriver) (channelno : Nat) : UInt16 := adc.avg[channelno]?.getD 0

def AdcDriver.add (adc : AdcDriver) (channelno sampleno : Nat) : AdcDriver :=
  { adc with avg :=
      adc.avg.setIfInBounds channelno (adc.avgAt channelno + adc.sampleAt sampleno channelno) }

def AdcDriver.divide (adc : AdcDriver) (channelno : Nat) : AdcDriver :=
  { adc with avg := adc.avg.setIfInBounds channelno (adc.avgAt channelno / UInt16.ofNat adcDepth) }

namespace AdcDriver

theorem sampleAt_store (adc : AdcDriver) (dma : Fin (adcDepth * adcNumCh)) (x : BitVec 12)
    (sampleno channelno : Nat) :
    (adc.store dma x).sampleAt sampleno channelno =
      if sampleno = dma / adcNumCh ∧ channelno = dma % adcNumCh then UInt16.ofNat x.toNat
      else adc.sampleAt sampleno channelno := by
  have hrow : dma / adcNumCh < adcDepth := (Nat.div_lt_iff_lt_mul (by decide)).mpr dma.isLt
  have hcol : dma % adcNumCh < adcNumCh := Nat.mod_lt _ (by decide)
  unfold sampleAt store
  by_cases hs : sampleno = dma / adcNumCh
  · subst hs
    by_cases hc : channelno = dma % adcNumCh
    · subst hc
      simp [hrow, hcol]
    · have hne : ¬ dma % adcNumCh = channelno := fun heq => hc heq.symm
      simp [hrow, hc, hne]
  · have hne : ¬ dma / adcNumCh = sampleno := fun heq => hs heq.symm
    simp [hs, hne]

theorem avgAt_add (adc : AdcDriver) {channelno : Nat} (h : channelno < adcNumCh) (sampleno c : Nat) :
    (adc.add channelno sampleno).avgAt c =
      if c = channelno then adc.avgAt channelno + adc.sampleAt sampleno channelno
        else adc.avgAt c := by
  unfold avgAt add
  by_cases hc : c = channelno
  · subst hc
    simp [h, avgAt]
  · have hne : ¬ channelno = c := fun heq => hc heq.symm
    simp [hc, hne]

theorem avgAt_divide (adc : AdcDriver) {channelno : Nat} (h : channelno < adcNumCh) (c : Nat) :
    (adc.divide channelno).avgAt c =
      if c = channelno then adc.avgAt channelno / UInt16.ofNat adcDepth else adc.avgAt c := by
  unfold avgAt divide
  by_cases hc : c = channelno
  · subst hc
    simp [h, avgAt]
  · have hne : ¬ channelno = c := fun heq => hc heq.symm
    simp [hc, hne]

end AdcDriver

namespace RemoteFirmware

/-- adcDriverUpdate statement by statement, again and again. -/
def voltMonThd (s : RemoteFirmware) : Option RemoteFirmware :=
  match s.voltMon with
  | .notCreated => none
  | .memset => some { s with adc.avg := Vector.replicate adcNumCh 0, voltMon := .sum 0 0 }
  | .sum channelno sampleno =>
    some { s with
      adc := s.adc.add channelno sampleno
      voltMon := if sampleno + 1 < adcDepth then .sum channelno (sampleno + 1)
        else .divide channelno }
  | .divide channelno =>
    some { s with
      adc := s.adc.divide channelno
      voltMon := if channelno + 1 < adcNumCh then .sum (channelno + 1) 0 else .xPot }
  | .xPot =>
    some { s with
      voltData.xPot := Int16.ofInt ((s.adc.avgAt 0).toNat - xPotMidpoint), voltMon := .yPot }
  | .yPot =>
    some { s with
      voltData.yPot := Int16.ofInt ((s.adc.avgAt 1).toNat - yPotMidpoint), voltMon := .memset }

def canTransmit (s : RemoteFirmware) : RemoteFirmware :=
  if s.pending.length < canTxMailboxes then
    { s with pending := s.pending ++ [canLldTransmit s.txmsg], feedback := .fill }
  else { s with feedback := .blocked }

def canFeedbackThd (s : RemoteFirmware) (gpioa : UInt32) : Option RemoteFirmware :=
  match s.feedback with
  | .notCreated | .blocked => none
  | .start => some { s with txmsg := canFeedbackThdStart s.txmsg, feedback := .fill }
  | .fill =>
    let (feedbackData, txmsg) := canFeedbackPass gpioa s.voltData s.txmsg
    some { s with feedbackData, txmsg, feedback := .transmit }
  | .transmit => some s.canTransmit

def step (s : RemoteFirmware) : RemoteEvent → Option RemoteFirmware
  | .main =>
    match s.main with
    | .voltInit => some { s with main := .canFeedbackInit, voltMon := .memset }
    | .canFeedbackInit => some { s with main := .done, feedback := .start }
    | .done => none
  | .convert x =>
    if s.main = .voltInit then none
    else some { s with adc := s.adc.store s.dma x, dma := RingBuffer.next s.dma }
  | .voltMon => s.voltMonThd
  | .feedback gpioa => s.canFeedbackThd gpioa
  | .timeout => if s.feedback = .blocked then some { s with feedback := .fill } else none
  | .transmitted => if s.pending = [] then none
    else some { s with pending := s.pending.tail, rqcp := true }
  | .txIrq =>
    if s.rqcp then
      some { s with rqcp := false, feedback := if s.feedback = .blocked then .transmit else s.feedback }
    else none

def start (txmsg : CANTxFrame) : RemoteFirmware where
  txmsg := txmsg

theorem canTransmit_frame (s : RemoteFirmware) :
    s.canTransmit.adc = s.adc ∧ s.canTransmit.voltMon = s.voltMon ∧
      s.canTransmit.voltData = s.voltData := by
  unfold canTransmit
  split_ifs <;> exact ⟨rfl, rfl, rfl⟩

/-- The sender only reads what the other thread writes. -/
theorem canFeedbackThd_frame {s t : RemoteFirmware} {gpioa : UInt32}
    (h : s.canFeedbackThd gpioa = some t) :
    t.adc = s.adc ∧ t.voltMon = s.voltMon ∧ t.voltData = s.voltData := by
  unfold canFeedbackThd at h
  split at h <;> cases h
  · exact ⟨rfl, rfl, rfl⟩
  · exact ⟨rfl, rfl, rfl⟩
  · exact canTransmit_frame s

theorem voltData_step {s t : RemoteFirmware} {e : RemoteEvent} (he : e ≠ .voltMon)
    (h : s.step e = some t) :
    t.voltData = s.voltData := by
  cases e with
  | voltMon => exact absurd rfl he
  | feedback gpioa => exact (canFeedbackThd_frame h).2.2
  | main =>
    simp only [step] at h
    split at h <;> cases h <;> rfl
  | convert x | timeout | transmitted | txIrq =>
    simp only [step] at h
    split_ifs at h <;> cases h <;> rfl

/-- The samples left to add, from where the inner loop stands. -/
theorem drop_channel (adc : AdcDriver) {sampleno : Nat} (h : sampleno < adcDepth) (channelno : Nat) :
    (adc.channel channelno).drop sampleno =
      adc.sampleAt sampleno channelno :: (adc.channel channelno).drop (sampleno + 1) := by
  have hlen : sampleno < (adc.channel channelno).length := by
    rw [adc.channel_length]
    exact h
  rw [List.drop_eq_getElem_cons hlen]
  simp [AdcDriver.channel, AdcDriver.sampleAt, h]

theorem run_sum {channelno n sampleno : Nat} (hc : channelno < adcNumCh)
    (hn : sampleno + (n + 1) = adcDepth)
    {s : RemoteFirmware} (hpc : s.voltMon = .sum channelno sampleno) :
    Machine.run step s (List.replicate (n + 1) .voltMon) = some { s with
      adc.avg := s.adc.avg.setIfInBounds channelno
        (((s.adc.channel channelno).drop sampleno).foldl (· + ·) (s.adc.avgAt channelno))
      voltMon := .divide channelno } := by
  induction n generalizing sampleno s with
  | zero =>
    have hlast : ¬ sampleno + 1 < adcDepth := by omega
    have hdrop : (s.adc.channel channelno).drop (sampleno + 1) = [] :=
      List.drop_eq_nil_of_le (by rw [s.adc.channel_length]; exact hn.ge)
    rw [drop_channel _ (by omega), hdrop]
    simp [Machine.run, step, voltMonThd, hpc, hlast, AdcDriver.add]
  | succ n ih =>
    have hmore : sampleno + 1 < adcDepth := by omega
    rw [List.replicate_succ, Machine.run_cons]
    simp only [step, voltMonThd, hpc, hmore, if_true, Option.bind_some]
    rw [ih (by omega) rfl, drop_channel s.adc (by omega), List.foldl_cons]
    have hadd := s.adc.avgAt_add hc sampleno channelno
    rw [if_pos rfl] at hadd
    simp only [hadd]
    simp [AdcDriver.add, AdcDriver.channel]

/-- The two loops over one channel leave its average. -/
theorem run_channel {channelno : Nat} (hc : channelno < adcNumCh) {s : RemoteFirmware}
    (hpc : s.voltMon = .sum channelno 0) (havg : s.adc.avgAt channelno = 0) :
    Machine.run step s (List.replicate (adcDepth + 1) .voltMon) = some { s with
      adc.avg := s.adc.avg.setIfInBounds channelno (s.adc.average channelno)
      voltMon := if channelno + 1 < adcNumCh then .sum (channelno + 1) 0 else .xPot } := by
  have hsum : Machine.run step s (List.replicate adcDepth .voltMon) = _ :=
    run_sum hc (show 0 + (9 + 1) = adcDepth from rfl) hpc
  rw [List.replicate_add, Machine.run_append, hsum, Option.bind_some, havg]
  simp [Machine.run, step, voltMonThd, AdcDriver.divide, AdcDriver.avgAt, hc, AdcDriver.average,
    Accumulate.accumulate]

theorem run_pots {s : RemoteFirmware} (hpc : s.voltMon = .xPot) :
    Machine.run step s (List.replicate 2 .voltMon) = some { s with
      voltData :=
        { xPot := Int16.ofInt ((s.adc.avgAt 0).toNat - xPotMidpoint)
          yPot := Int16.ofInt ((s.adc.avgAt 1).toNat - yPotMidpoint) }
      voltMon := .memset } := by
  simp [List.replicate_succ, Machine.run, step, voltMonThd, hpc]

/-- With no conversion in between, the statements of a pass do what the function does. -/
theorem run_adcDriverUpdate {s : RemoteFirmware} (hpc : s.voltMon = .memset) :
    Machine.run step s (List.replicate (1 + (adcDepth + 1) + (adcDepth + 1) + 2) .voltMon) =
      some { s with
      adc := (adcDriverUpdate s.adc).1
      voltData := (adcDriverUpdate s.adc).2 } := by
  rw [List.replicate_add, List.replicate_add, List.replicate_add, Machine.run_append,
    Machine.run_append,
    Machine.run_append]
  have hmemset : Machine.run step s (List.replicate 1 .voltMon) =
      some { s with adc.avg := Vector.replicate adcNumCh 0, voltMon := .sum 0 0 } := by
    simp [Machine.run, step, voltMonThd, hpc]
  let adc : AdcDriver := { s.adc with avg :=
    ((Vector.replicate adcNumCh 0).setIfInBounds 0 (s.adc.average 0)).setIfInBounds 1 (s.adc.average 1) }
  have hadc : adc = (adcDriverUpdate s.adc).1 := by
    rw [adcDriverUpdate, AdcDriver.mk.injEq]
    refine ⟨rfl, ?_⟩
    ext i hi
    have hi' : i < 2 := hi
    obtain rfl | rfl : i = 0 ∨ i = 1 := by omega
    · simp
    · simp
  rw [hmemset, Option.bind_some, run_channel (by decide) rfl (by rfl), Option.bind_some,
    run_channel (by decide) rfl (by rfl), Option.bind_some, run_pots rfl]
  change some { s with
    adc := adc
    voltData :=
      { xPot := Int16.ofInt ((adc.avgAt 0).toNat - xPotMidpoint)
        yPot := Int16.ofInt ((adc.avgAt 1).toNat - yPotMidpoint) }
    voltMon := .memset } = _
  rw [hadc, ← hpc]
  simp [AdcDriver.avgAt, adcDriverUpdate, show 0 < adcNumCh by decide, show 1 < adcNumCh by decide]

/-- The mailboxes of the bus controller hold what is pending, and a sender that sleeps is one
that the controller is still going to wake. -/
structure SenderServed (s : RemoteFirmware) : Prop where
  room : s.pending.length ≤ canTxMailboxes
  woken : s.feedback = .blocked → s.rqcp = true ∨ s.pending.length = canTxMailboxes

namespace SenderServed

theorem of_eq {s t : RemoteFirmware} (h : s.SenderServed) (hp : t.pending = s.pending)
    (hr : t.rqcp = s.rqcp)
    (hf : t.feedback = .blocked → s.feedback = .blocked) : t.SenderServed := by
  constructor
  · rw [hp]
    exact h.room
  · rw [hp, hr]
    exact fun hb => h.woken (hf hb)

theorem canTransmit {s : RemoteFirmware} (h : s.SenderServed) : s.canTransmit.SenderServed := by
  unfold RemoteFirmware.canTransmit
  split_ifs with hroom
  · refine ⟨?_, nofun⟩
    rw [List.length_append, List.length_singleton]
    exact hroom
  · exact ⟨h.room, fun _ => Or.inr (le_antisymm h.room (not_lt.mp hroom))⟩

theorem canFeedbackThd {s t : RemoteFirmware} {gpioa : UInt32} (h : s.SenderServed)
    (hst : s.canFeedbackThd gpioa = some t) : t.SenderServed := by
  unfold RemoteFirmware.canFeedbackThd at hst
  split at hst <;> cases hst
  · exact h.of_eq rfl rfl nofun
  · exact h.of_eq rfl rfl nofun
  · exact h.canTransmit

theorem voltMonThd {s t : RemoteFirmware} (h : s.SenderServed) (hst : s.voltMonThd = some t) :
    t.SenderServed := by
  unfold RemoteFirmware.voltMonThd at hst
  split at hst <;> cases hst <;> exact h.of_eq rfl rfl id

theorem step {s t : RemoteFirmware} {e : RemoteEvent} (h : s.SenderServed) (hst : s.step e = some t) :
    t.SenderServed := by
  cases e with
  | voltMon => exact h.voltMonThd hst
  | feedback gpioa => exact h.canFeedbackThd hst
  | main =>
    simp only [RemoteFirmware.step] at hst
    split at hst <;> cases hst
    · exact h.of_eq rfl rfl id
    · exact h.of_eq rfl rfl nofun
  | convert x =>
    simp only [RemoteFirmware.step] at hst
    split_ifs at hst
    cases hst
    exact h.of_eq rfl rfl id
  | timeout =>
    simp only [RemoteFirmware.step] at hst
    split_ifs at hst
    cases hst
    exact h.of_eq rfl rfl nofun
  | transmitted =>
    simp only [RemoteFirmware.step] at hst
    split_ifs at hst
    cases hst
    refine ⟨?_, fun _ => Or.inl rfl⟩
    rw [List.length_tail]
    exact (Nat.sub_le _ _).trans h.room
  | txIrq =>
    simp only [RemoteFirmware.step] at hst
    split_ifs at hst with hr hb
    · cases hst
      exact ⟨h.room, nofun⟩
    · cases hst
      exact ⟨h.room, fun hblocked => absurd hblocked hb⟩

end SenderServed

/-- With no timeout, the end of at most one more message gets the frame of a sleeping sender
into a mailbox, unchanged and behind the others. -/
theorem SenderServed.exists_run {s : RemoteFirmware} (h : s.SenderServed) (hb : s.feedback = .blocked)
    (gpioa : UInt32) :
    ∃ n ≤ 1, ∃ t, Machine.run RemoteFirmware.step s (List.replicate n .transmitted ++
      [.txIrq, .feedback gpioa]) =
      some t ∧ t.feedback = .fill ∧ t.pending = s.pending.drop n ++ [canLldTransmit s.txmsg] := by
  by_cases hroom : s.pending.length < canTxMailboxes
  · have hr : s.rqcp = true := (h.woken hb).resolve_right hroom.ne
    refine ⟨0, Nat.zero_le _, { s with
      rqcp := false, pending := s.pending ++ [canLldTransmit s.txmsg], feedback := .fill }, ?_, rfl,
        rfl⟩
    simp [Machine.run, RemoteFirmware.step, RemoteFirmware.canFeedbackThd,
      RemoteFirmware.canTransmit, hr, hb, hroom]
  · have hfull : s.pending.length = canTxMailboxes := le_antisymm h.room (not_lt.mp hroom)
    have hne : s.pending ≠ [] := List.ne_nil_of_length_pos (hfull ▸ Nat.zero_lt_succ 2)
    have htail : s.pending.tail.length < canTxMailboxes := by
      rw [List.length_tail, hfull]
      exact Nat.lt_succ_self 2
    refine ⟨1, le_rfl, { s with
      rqcp := false, pending := s.pending.tail ++ [canLldTransmit s.txmsg], feedback := .fill },
      ?_, rfl, by rw [List.drop_one]⟩
    simp only [Machine.run, RemoteFirmware.step, RemoteFirmware.canFeedbackThd,
      RemoteFirmware.canTransmit,
      List.replicate_one, List.singleton_append, List.foldlM_cons, List.foldlM_nil, hb, hne, htail,
        if_true,
      if_false, Option.bind_eq_bind, Option.bind_some, Option.pure_def]

/-- The sender sleeps only while every mailbox is taken or the interrupt that wakes it is
already pending, so the end of a message never passes it by. -/
theorem sender_woken {txmsg : CANTxFrame} {es : List RemoteEvent} {s : RemoteFirmware}
    (h : Machine.run step (start txmsg) es = some s) :
    s.pending.length ≤ canTxMailboxes ∧
      (s.feedback = .blocked → (s.rqcp = true ∨ s.pending.length = canTxMailboxes) ∧
        ∀ gpioa, ∃ n ≤ 1, ∃ t,
          Machine.run step s (List.replicate n .transmitted ++ [.txIrq, .feedback gpioa]) = some t ∧
            t.feedback = .fill ∧ t.pending = s.pending.drop n ++ [canLldTransmit s.txmsg]) := by
  have hinv : s.SenderServed :=
    Machine.run_invariant ⟨Nat.zero_le _, nofun⟩ (fun _ _ _ hs hst => hs.step hst) h
  exact ⟨hinv.room, fun hb => ⟨hinv.woken hb, hinv.exists_run hb⟩⟩

/-- Four passes before the first message is on the bus. -/
def fourPasses : List RemoteEvent :=
  [.main, .main, .feedback 0] ++ (List.replicate 4 [.feedback 0, .feedback 0]).flatten

theorem sender_woken_fourPasses : ∃ s : RemoteFirmware,
    Machine.run step (start staleFrame) fourPasses = some s ∧ s.feedback = .blocked ∧
      ∃ n ≤ 1, ∃ t, Machine.run step s (List.replicate n .transmitted ++ [.txIrq, .feedback 0]) =
        some t ∧
        t.feedback = .fill ∧ t.pending = s.pending.drop n ++ [canLldTransmit s.txmsg] := by
  obtain ⟨s, h, hb⟩ := Option.map_eq_some_iff.mp (by decide +kernel :
    (Machine.run step (start staleFrame) fourPasses).map (fun s => s.feedback) = some .blocked)
  exact ⟨s, h, hb, ((sender_woken h).2 hb).2 0⟩

end RemoteFirmware

end SafetyTrolley
