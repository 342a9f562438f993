import SafetyTrolley.RemoteFirmware

/-! What the remote reads from its stick. A pass over the samples may be preempted, and the
converter writes on under it, so each average is of samples taken during its pass. -/

namespace SafetyTrolley

/-- A range of 12-bit samples for each channel. -/
structure Band where
  lo : Nat → Nat
  hi : Nat → Nat
  hi_le : ∀ channelno, hi channelno ≤ 4095

namespace Band

def Holds (b : Band) (channelno x : Nat) : Prop := b.lo channelno ≤ x ∧ x ≤ b.hi channelno

def Sampled (b : Band) (adc : AdcDriver) : Prop :=
  ∀ sampleno < adcDepth, ∀ channelno < adcNumCh, b.Holds channelno
    (adc.sampleAt sampleno channelno).toNat

instance (b : Band) (channelno x : Nat) : Decidable (b.Holds channelno x) :=
  inferInstanceAs (Decidable (_ ≤ x ∧ x ≤ _))

instance (b : Band) (adc : AdcDriver) : Decidable (b.Sampled adc) :=
  inferInstanceAs (Decidable (∀ sampleno < adcDepth, ∀ channelno < adcNumCh, b.Holds _ _))

/-- Every conversion is within the range of its channel. -/
def Admits (b : Band) (s : RemoteFirmware) : RemoteEvent → Prop
  | .convert x => b.Holds (s.dma % adcNumCh) x.toNat
  | _ => True

instance (b : Band) (s : RemoteFirmware) : (e : RemoteEvent) → Decidable (b.Admits s e)
  | .convert x => inferInstanceAs (Decidable (b.Holds _ x.toNat))
  | .main | .voltMon | .feedback _ | .timeout | .transmitted | .txIrq => isTrue trivial

def ReadX (b : Band) (voltData : Voltages) : Prop :=
  (b.lo 0 : Int) - xPotMidpoint ≤ voltData.xPot.toInt ∧ voltData.xPot.toInt ≤ b.hi 0 - xPotMidpoint

def ReadY (b : Band) (voltData : Voltages) : Prop :=
  (b.lo 1 : Int) - yPotMidpoint ≤ voltData.yPot.toInt ∧ voltData.yPot.toInt ≤ b.hi 1 - yPotMidpoint

/-- A sum of so many samples of the channel. -/
def Sums (b : Band) (channelno n x : Nat) : Prop := n * b.lo channelno ≤ x ∧ x ≤ n * b.hi channelno

def Averaged (b : Band) (adc : AdcDriver) (n : Nat) : Prop :=
  ∀ channelno < n, b.Holds channelno (adc.avgAt channelno).toNat

/-- What a pass has done so far. -/
def Progress (b : Band) (s : RemoteFirmware) : Prop :=
  match s.voltMon with
  | .notCreated | .memset => True
  | .sum channelno sampleno =>
    channelno < adcNumCh ∧ sampleno < adcDepth ∧ b.Averaged s.adc channelno ∧
      b.Sums channelno sampleno (s.adc.avgAt channelno).toNat ∧ ∀ c, channelno < c → s.adc.avgAt c = 0
  | .divide channelno =>
    channelno < adcNumCh ∧ b.Averaged s.adc channelno ∧
      b.Sums channelno adcDepth (s.adc.avgAt channelno).toNat ∧ ∀ c, channelno < c → s.adc.avgAt c = 0
  | .xPot => b.Averaged s.adc adcNumCh
  | .yPot => b.Averaged s.adc adcNumCh ∧ b.ReadX s.voltData

structure Reading (b : Band) (s : RemoteFirmware) : Prop where
  sampled : b.Sampled s.adc
  progress : b.Progress s

theorem Sampled.store {b : Band} {adc : AdcDriver} (h : b.Sampled adc)
    {dma : Fin (adcDepth * adcNumCh)} {x : BitVec 12}
    (hx : b.Holds (dma % adcNumCh) x.toNat) : b.Sampled (adc.store dma x) := by
  intro sampleno hs channelno hc
  rw [AdcDriver.sampleAt_store]
  split_ifs with hat
  · have hfit : (UInt16.ofNat x.toNat).toNat = x.toNat := UInt16.toNat_ofNat_of_lt' (by
      have := x.isLt
      change x.toNat < 65536
      omega)
    rw [hfit, hat.2]
    exact hx
  · exact h sampleno hs channelno hc

/-- The sum of ten samples does not fill its word. -/
theorem Sums.add {b : Band} {channelno n : Nat} {x y : UInt16} (h : b.Sums channelno n x.toNat)
    (hn : n < adcDepth)
    (hy : b.Holds channelno y.toNat) : b.Sums channelno (n + 1) (x + y).toNat := by
  have hhi := b.hi_le channelno
  have hmul : n * b.hi channelno ≤ 9 * 4095 := Nat.mul_le_mul (Nat.le_of_lt_succ hn) hhi
  obtain ⟨hlo, hle⟩ := h
  obtain ⟨hylo, hyle⟩ := hy
  have hadd : (x + y).toNat = x.toNat + y.toNat := by
    rw [UInt16.toNat_add]
    omega
  unfold Sums
  rw [hadd, Nat.succ_mul, Nat.succ_mul]
  omega

theorem Sums.average {b : Band} {channelno : Nat} {x : UInt16}
    (h : b.Sums channelno adcDepth x.toNat) :
    b.Holds channelno (x / UInt16.ofNat adcDepth).toNat := by
  obtain ⟨hlo, hle⟩ := h
  have hdiv : (x / UInt16.ofNat adcDepth).toNat = x.toNat / 10 := UInt16.toNat_div _ _
  simp only [adcDepth] at hlo hle
  unfold Holds
  rw [hdiv]
  omega

theorem readX_of_average {b : Band} {x : UInt16} (h : b.Holds 0 x.toNat) (yPot : Int16) :
    b.ReadX { xPot := Int16.ofInt (x.toNat - xPotMidpoint), yPot } := by
  obtain ⟨hlo, hhi⟩ := h
  have := b.hi_le 0
  have hfit : (Int16.ofInt (x.toNat - xPotMidpoint)).toInt = x.toNat - xPotMidpoint :=
    Int16.toInt_ofInt_of_le (by simp only [xPotMidpoint]; omega) (by simp only [xPotMidpoint]; omega)
  unfold ReadX
  rw [hfit]
  omega

theorem readY_of_average {b : Band} {y : UInt16} (h : b.Holds 1 y.toNat) (xPot : Int16) :
    b.ReadY { xPot, yPot := Int16.ofInt (y.toNat - yPotMidpoint) } := by
  obtain ⟨hlo, hhi⟩ := h
  have := b.hi_le 1
  have hfit : (Int16.ofInt (y.toNat - yPotMidpoint)).toInt = y.toNat - yPotMidpoint :=
    Int16.toInt_ofInt_of_le (by simp only [yPotMidpoint]; omega) (by simp only [yPotMidpoint]; omega)
  unfold ReadY
  rw [hfit]
  omega

theorem Averaged.add {b : Band} {adc : AdcDriver} {channelno : Nat} (h : b.Averaged adc channelno)
    (hc : channelno < adcNumCh) (sampleno : Nat) :
    b.Averaged (adc.add channelno sampleno) channelno := by
  intro c hlt
  rw [adc.avgAt_add hc, if_neg hlt.ne]
  exact h c hlt

theorem Averaged.divide {b : Band} {adc : AdcDriver} {channelno : Nat} (h : b.Averaged adc channelno)
    (hc : channelno < adcNumCh) (hsum : b.Sums channelno adcDepth (adc.avgAt channelno).toNat) :
    b.Averaged (adc.divide channelno) (channelno + 1) := by
  intro c hlt
  rw [adc.avgAt_divide hc]
  split_ifs with heq
  · rw [heq]
    exact hsum.average
  · exact h c (by omega)

/-- The thread adds samples that are in range, and its words do not overflow. -/
theorem Reading.voltMonThd {b : Band} {s t : RemoteFirmware} (h : b.Reading s)
    (hst : s.voltMonThd = some t) :
    b.Reading t := by
  obtain ⟨hsampled, hprogress⟩ := h
  unfold Progress at hprogress
  cases hpc : s.voltMon with
  | notCreated => simp [RemoteFirmware.voltMonThd, hpc] at hst
  | memset =>
    simp only [RemoteFirmware.voltMonThd, hpc, Option.some.injEq] at hst
    subst hst
    refine ⟨hsampled, by decide, by decide, fun c hc => absurd hc (Nat.not_lt_zero c), ?_, ?_⟩
    · simp [Sums, AdcDriver.avgAt, show 0 < adcNumCh by decide]
    · intro c _
      unfold AdcDriver.avgAt
      by_cases hc : c < adcNumCh
      · simp [hc]
      · simp [hc]
  | sum channelno sampleno =>
    simp only [hpc] at hprogress
    obtain ⟨hc, hs, havg, hsum, hzero⟩ := hprogress
    simp only [RemoteFirmware.voltMonThd, hpc, Option.some.injEq] at hst
    subst hst
    refine ⟨hsampled, ?_⟩
    have hsum' : b.Sums channelno (sampleno + 1)
        ((s.adc.add channelno sampleno).avgAt channelno).toNat := by
      rw [s.adc.avgAt_add hc, if_pos rfl]
      exact hsum.add hs (hsampled sampleno hs channelno hc)
    have hzero' : ∀ c, channelno < c → (s.adc.add channelno sampleno).avgAt c = 0 := by
      intro c hlt
      rw [s.adc.avgAt_add hc, if_neg hlt.ne']
      exact hzero c hlt
    unfold Progress
    by_cases hmore : sampleno + 1 < adcDepth
    · simp only [hmore, if_true]
      exact ⟨hc, trivial, havg.add hc sampleno, hsum', hzero'⟩
    · simp only [hmore, if_false]
      rw [show sampleno + 1 = adcDepth by omega] at hsum'
      exact ⟨hc, havg.add hc sampleno, hsum', hzero'⟩
  | divide channelno =>
    simp only [hpc] at hprogress
    obtain ⟨hc, havg, hsum, hzero⟩ := hprogress
    simp only [RemoteFirmware.voltMonThd, hpc, Option.some.injEq] at hst
    subst hst
    refine ⟨hsampled, ?_⟩
    have havg' := havg.divide hc hsum
    have hzero' : ∀ c, channelno < c → (s.adc.divide channelno).avgAt c = 0 := by
      intro c hlt
      rw [s.adc.avgAt_divide hc, if_neg hlt.ne']
      exact hzero c hlt
    unfold Progress
    by_cases hmore : channelno + 1 < adcNumCh
    · simp only [hmore, if_true]
      refine ⟨trivial, by decide, havg', ?_, fun c hlt => hzero' c (by omega)⟩
      rw [hzero' _ (Nat.lt_succ_self _)]
      simp [Sums]
    · simp only [hmore, if_false]
      rwa [show channelno + 1 = adcNumCh by omega] at havg'
  | xPot =>
    simp only [hpc] at hprogress
    simp only [RemoteFirmware.voltMonThd, hpc, Option.some.injEq] at hst
    subst hst
    exact ⟨hsampled, hprogress, readX_of_average (hprogress 0 (by decide)) _⟩
  | yPot =>
    simp only [RemoteFirmware.voltMonThd, hpc, Option.some.injEq] at hst
    subst hst
    exact ⟨hsampled, trivial⟩

theorem Reading.step {b : Band} {s t : RemoteFirmware} {e : RemoteEvent} (h : b.Reading s)
    (ha : b.Admits s e) (hst : s.step e = some t) : b.Reading t := by
  cases e with
  | main =>
    simp only [RemoteFirmware.step] at hst
    cases hmain : s.main with
    | done => simp [hmain] at hst
    | voltInit =>
      simp only [hmain, Option.some.injEq] at hst
      subst hst
      exact ⟨h.sampled, trivial⟩
    | canFeedbackInit =>
      simp only [hmain, Option.some.injEq] at hst
      subst hst
      exact ⟨h.sampled, h.progress⟩
  | convert x =>
    simp only [RemoteFirmware.step] at hst
    split_ifs at hst
    cases hst
    exact ⟨h.sampled.store ha, h.progress⟩
  | voltMon => exact h.voltMonThd hst
  | feedback gpioa =>
    simp only [RemoteFirmware.step] at hst
    obtain ⟨hadc, hpc, hdata⟩ := RemoteFirmware.canFeedbackThd_frame hst
    refine ⟨hadc ▸ h.sampled, ?_⟩
    have hprogress := h.progress
    unfold Progress at hprogress ⊢
    rwa [hpc, hadc, hdata]
  | timeout | transmitted | txIrq =>
    simp only [RemoteFirmware.step] at hst
    split_ifs at hst <;> cases hst <;> exact ⟨h.sampled, h.progress⟩

/-- The record of the thread after a step: it writes one component at a time. -/
theorem Reading.voltData {b : Band} {s t : RemoteFirmware} {e : RemoteEvent} (h : b.Reading s)
    (hst : s.step e = some t) :
    (b.ReadX s.voltData → b.ReadX t.voltData) ∧ (b.ReadY s.voltData → b.ReadY t.voltData) ∧
      (e = .voltMon → s.voltMon = .yPot → b.ReadX t.voltData ∧ b.ReadY t.voltData) := by
  have hprogress := h.progress
  unfold Progress at hprogress
  by_cases he : e = .voltMon
  · subst he
    simp only [RemoteFirmware.step, RemoteFirmware.voltMonThd] at hst
    cases hpc : s.voltMon with
    | xPot =>
      simp only [hpc] at hst hprogress
      cases hst
      exact ⟨fun _ => readX_of_average (hprogress 0 (by decide)) _, id, fun _ hne => by simp at hne⟩
    | yPot =>
      simp only [hpc] at hst hprogress
      cases hst
      have hy := readY_of_average (hprogress.1 1 (by decide)) s.voltData.xPot
      exact ⟨id, fun _ => hy, fun _ _ => ⟨hprogress.2, hy⟩⟩
    | notCreated => simp [hpc] at hst
    | _ =>
      simp only [hpc] at hst
      cases hst
      exact ⟨id, id, fun _ hne => by simp at hne⟩
  · rw [RemoteFirmware.voltData_step he hst]
    exact ⟨id, id, fun heq => absurd heq he⟩

/-- No 12-bit reading is lost where the message turns the axis round. -/
theorem message_x {b : Band} {voltData : Voltages} (h : b.ReadX voltData) (gpioa : UInt32)
    (txmsg : CANTxFrame) :
    let message := (canFeedbackPass gpioa voltData txmsg).1
    xPotMidpoint - b.hi 0 ≤ message.xJoystick.toInt ∧
      message.xJoystick.toInt ≤ xPotMidpoint - b.lo 0 := by
  intro message
  obtain ⟨hlo, hhi⟩ := h
  have := b.hi_le 0
  simp only [xPotMidpoint] at hlo hhi ⊢
  have hneg : message.xJoystick.toInt = -voltData.xPot.toInt :=
    Int16.toInt_ofInt_of_le (by omega) (by omega)
  rw [hneg]
  omega

/-- The passes that have ended. -/
def passes (s : RemoteFirmware) (e : RemoteEvent) (n : Nat) : Nat :=
  if e = .voltMon ∧ s.voltMon = .yPot then n + 1 else n

/-- A stick held within a range is read within it: from a pass on that begins with all
samples in range, however the converter and the other thread interleave, the message in
every state has both components in range once a pass has ended. -/
theorem held_stick {b : Band} {s t : RemoteFirmware} {n : Nat} {es : List RemoteEvent}
    (hpc : s.voltMon = .memset)
    (hsampled : b.Sampled s.adc) (hall : Machine.Always RemoteFirmware.step b.Admits s es)
    (h : Machine.run (Machine.watch RemoteFirmware.step passes) (s, 0) es = some (t, n)) (hn : 0 < n)
    (gpioa : UInt32) :
    let message := (canFeedbackPass gpioa t.voltData t.txmsg).1
    (xPotMidpoint - b.hi 0 ≤ message.xJoystick.toInt ∧
      message.xJoystick.toInt ≤ xPotMidpoint - b.lo 0) ∧
      b.lo 1 - yPotMidpoint ≤ message.yJoystick.toInt ∧
        message.yJoystick.toInt ≤ b.hi 1 - yPotMidpoint := by
  intro message
  have hstart : b.Reading s := ⟨hsampled, by unfold Progress; rw [hpc]; trivial⟩
  have hinv : b.Reading t ∧ (0 < n → b.ReadX t.voltData ∧ b.ReadY t.voltData) := by
    refine Machine.run_induction_of_always
      (P := fun _ (x : RemoteFirmware × Nat) => b.Reading x.1 ∧
        (0 < x.2 → b.ReadX x.1.voltData ∧ b.ReadY x.1.voltData))
      ⟨hstart, fun h0 => absurd h0 (Nat.lt_irrefl 0)⟩ ?_ (hall.watch passes) h
    rintro es ⟨u, k⟩ e ⟨v, l⟩ - ⟨hreading, hread⟩ ha hst
    obtain ⟨hst, hl⟩ := Machine.watch_eq_some.mp hst
    refine ⟨hreading.step ha hst, fun hpos => ?_⟩
    obtain ⟨hx, hy, hend⟩ := hreading.voltData hst
    by_cases hlast : e = .voltMon ∧ u.voltMon = .yPot
    · exact hend hlast.1 hlast.2
    · have hk : 0 < k := by
        have hl : l = k := hl.trans (if_neg hlast)
        exact hl ▸ hpos
      exact ⟨hx (hread hk).1, hy (hread hk).2⟩
  obtain ⟨hx, hy⟩ := hinv.2 hn
  exact ⟨message_x hx gpioa t.txmsg, hy⟩

/-- Both potentiometers rest, and the converter writes on during the pass. -/
def restingStick : RemoteFirmware where
  main := .done
  adc := ⟨Vector.replicate adcDepth #v[2070, 3000], #v[0, 0]⟩
  voltMon := .memset
  txmsg := staleFrame

def resting : Band where
  lo channelno := if channelno = 0 then 2070 else 3000
  hi channelno := if channelno = 0 then 2070 else 3000
  hi_le channelno := by split_ifs <;> decide

def restingPass : List RemoteEvent :=
  List.replicate 5 .voltMon ++ [.convert 2070] ++ List.replicate 15 .voltMon ++ [.convert 3000] ++
    List.replicate 5 .voltMon

theorem held_stick_restingStick : ∃ t : RemoteFirmware,
    Machine.run (Machine.watch RemoteFirmware.step passes) (restingStick, 0) restingPass = some
      (t, 1) ∧
      (canFeedbackPass 0 t.voltData t.txmsg).1.xJoystick.toInt = 0 ∧
      (canFeedbackPass 0 t.voltData t.txmsg).1.yJoystick.toInt = 975 := by
  obtain ⟨⟨t, n⟩, h, rfl⟩ := Option.map_eq_some_iff.mp (by decide :
    (Machine.run (Machine.watch RemoteFirmware.step passes) (restingStick, 0) restingPass).map Prod.snd =
      some 1)
  obtain ⟨⟨hxlo, hxhi⟩, hylo, hyhi⟩ := held_stick (b := resting) rfl (by decide)
    (by decide) h Nat.one_pos 0
  exact ⟨t, h, le_antisymm hxhi hxlo, le_antisymm hyhi hylo⟩

end Band

end SafetyTrolley
