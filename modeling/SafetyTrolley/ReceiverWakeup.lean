import SafetyTrolley.CanReceiver

/-! Whether a receiver asleep will be woken by the next frame. The interrupt
masks itself for a listener that may not be there yet. -/

namespace SafetyTrolley

/-- Whether the receive interrupt has found a message while its driver had no
listener, and whether it has found one since. -/
structure HandlerWatch where
  before : Bool := false
  since : Bool := false
  deriving DecidableEq, Repr

def HandlerWatch.next (ch : CanChannel) (e : ChannelEvent) (m : HandlerWatch) : HandlerWatch :=
  if e = .rx0Irq ∧ ch.fifo0 ≠ [] then
    if ch.source.listener = none then { m with before := true } else { m with since := true }
  else m

def CanRxPc.isIdle : CanRxPc → Bool
  | .notCreated | .created | .loopHead | .blocked => true
  | _ => false

namespace CanChannel

/-- Until its first event the thread leaves the interrupt as the handler left
it; from then on a masked interrupt has its event pending or being served. -/
structure Alert (ch : CanChannel) (m : HandlerWatch) : Prop where
  unstarted : ch.started = false → ch.pc = .notCreated ∧ m = {}
  unregistered : ch.pc = .notCreated ∨ ch.pc = .created → ch.source = {} ∧ m.since = false
  registered : ch.pc ≠ .notCreated → ch.pc ≠ .created →
    ∃ flags, ch.source.listener = some ⟨1, flags, BitVec.allOnes 32⟩
  masked : ch.started = true → (∀ rxmsg, ch.pc ≠ .released rxmsg) → ch.fmpie0 = false → ch.fifo0 ≠ []
  quiet : ch.started = true → m.since = false →
    ch.source.pEpending = 0 ∧ ch.fmpie0 = !m.before ∧ ch.pc.isIdle = true
  awake : m.since = true → ch.pc = .loopHead ∨ ch.pc = .blocked →
    ch.fmpie0 = true ∨ ch.source.pEpending ≠ 0

theorem Alert.init : Alert {} {} where
  unstarted _ := ⟨rfl, rfl⟩
  unregistered _ := ⟨rfl, rfl⟩
  registered h := absurd rfl h
  masked h := by cases h
  quiet h := by cases h
  awake h := by cases h

theorem Alert.started {ch : CanChannel} {m : HandlerWatch} (h : ch.Alert m)
    (hpc : ch.pc ≠ .notCreated) : ch.started = true := by
  by_contra hno
  exact hpc (h.unstarted (by simpa using hno)).1

theorem Alert.since_of_pending {ch : CanChannel} {m : HandlerWatch} (h : ch.Alert m)
    (hs : ch.started = true) (hp : ch.source.pEpending ≠ 0) : m.since = true := by
  by_contra hno
  exact hp (h.quiet hs (by simpa using hno)).1

theorem Alert.since_of_busy {ch : CanChannel} {m : HandlerWatch} (h : ch.Alert m)
    (hpc : ch.pc.isIdle = false) : m.since = true := by
  have hs : ch.started = true := h.started (by rintro h; rw [h] at hpc; cases hpc)
  by_contra hno
  have hidle := (h.quiet hs (by simpa using hno)).2.2
  rw [hpc] at hidle
  cases hidle

/-- Once the thread has registered, only the mask and the event remain to be shown. -/
theorem Alert.of_registered {ch : CanChannel} {m : HandlerWatch} (hs : ch.started = true)
    (hn : ch.pc ≠ .notCreated) (hc : ch.pc ≠ .created)
    (hl : ∃ flags, ch.source.listener = some ⟨1, flags, BitVec.allOnes 32⟩)
    (hmask : (∀ rxmsg, ch.pc ≠ .released rxmsg) → ch.fmpie0 = false → ch.fifo0 ≠ [])
    (hquiet : m.since = false → ch.source.pEpending = 0 ∧ ch.fmpie0 = !m.before ∧ ch.pc.isIdle = true)
    (hawake : m.since = true → ch.pc = .loopHead ∨ ch.pc = .blocked →
      ch.fmpie0 = true ∨ ch.source.pEpending ≠ 0) : ch.Alert m where
  unstarted hno := by simp [hs] at hno
  unregistered hno := absurd hno (not_or.mpr ⟨hn, hc⟩)
  registered _ _ := hl
  masked _ := hmask
  quiet _ := hquiet
  awake := hawake

theorem Alert.of_busy {ch : CanChannel} {m : HandlerWatch} (hs : ch.started = true)
    (hsince : m.since = true) (hl : ∃ flags, ch.source.listener = some ⟨1, flags, BitVec.allOnes 32⟩)
    (hpc : ch.pc.isIdle = false)
    (hmask : (∀ rxmsg, ch.pc ≠ .released rxmsg) → ch.fmpie0 = false → ch.fifo0 ≠ []) :
    ch.Alert m := by
  have hbusy {pc : CanRxPc} (hidle : pc.isIdle = true) : ch.pc ≠ pc := by
    intro heq
    rw [heq, hidle] at hpc
    cases hpc
  refine Alert.of_registered hs (hbusy rfl) (hbusy rfl) hl hmask (fun hno => ?_) (fun _ hno => ?_)
  · simp [hsince] at hno
  · exact absurd hno (not_or.mpr ⟨hbusy rfl, hbusy rfl⟩)

theorem Alert.canStart {ch : CanChannel} {m : HandlerWatch} (h : ch.Alert m)
    (hno : ch.started = false) : Alert { ch with started := true, fmpie0 := true } m := by
  obtain ⟨hpc, rfl⟩ := h.unstarted hno
  obtain ⟨hsource, -⟩ := h.unregistered (Or.inl hpc)
  constructor
  · exact fun hs => nomatch hs
  · exact h.unregistered
  · exact h.registered
  · exact fun _ _ hm => nomatch hm
  · exact fun _ _ => ⟨by rw [hsource], rfl, by rw [hpc]; rfl⟩
  · exact fun hs => nomatch hs

theorem Alert.create {ch : CanChannel} {m : HandlerWatch} (h : ch.Alert m)
    (hs : ch.started = true) (hpc : ch.pc = .notCreated) : Alert { ch with pc := .created } m := by
  obtain ⟨hsource, hsince⟩ := h.unregistered (Or.inl hpc)
  obtain ⟨hpend, hmask, -⟩ := h.quiet hs hsince
  constructor
  · exact fun hno => nomatch hs.symm.trans hno
  · exact fun _ => ⟨hsource, hsince⟩
  · exact fun _ hno => absurd rfl hno
  · exact fun _ _ hm => h.masked hs (by simp [hpc]) hm
  · exact fun _ _ => ⟨hpend, hmask, rfl⟩
  · exact fun hyes => nomatch hyes.symm.trans hsince

theorem arrive_eq (ch : CanChannel) (rxmsg : CANRxFrame) :
    ∃ fovr0 fifo0, fifo0 ≠ [] ∧ ch.arrive rxmsg = { ch with fovr0 := fovr0, fifo0 := fifo0 } := by
  unfold CanChannel.arrive
  split_ifs
  · exact ⟨ch.fovr0, ch.fifo0 ++ [rxmsg], by simp, rfl⟩
  · exact ⟨true, ch.fifo0.dropLast ++ [rxmsg], by simp, rfl⟩

theorem Alert.arrive {ch : CanChannel} {m : HandlerWatch} (h : ch.Alert m) (rxmsg : CANRxFrame) :
    Alert (ch.arrive rxmsg) m := by
  obtain ⟨fovr0, fifo0, hne, heq⟩ := arrive_eq ch rxmsg
  rw [heq]
  exact ⟨h.unstarted, h.unregistered, h.registered, fun _ _ _ => hne, h.quiet, h.awake⟩

theorem broadcast_pending {es : EventSource} {flags : BitVec 32}
    (h : es.listener = some ⟨1, flags, BitVec.allOnes 32⟩) :
    (es.chEvtBroadcastFlagsI (canMailboxToMask 1)).listener =
        some ⟨1, flags ||| canMailboxToMask 1, BitVec.allOnes 32⟩ ∧
      (es.chEvtBroadcastFlagsI (canMailboxToMask 1)).pEpending ≠ 0 := by
  have hbit : (flags ||| canMailboxToMask 1) &&& BitVec.allOnes 32 ≠ 0 := by
    intro hzero
    have hlow := congrArg (BitVec.getLsbD · 0) hzero
    simp [canMailboxToMask] at hlow
  have hpend : es.pEpending ||| 1 ≠ 0 := by
    intro hzero
    have hlow := congrArg (BitVec.getLsbD · 0) hzero
    simp at hlow
  simp only [EventSource.chEvtBroadcastFlagsI, h, hbit, ne_eq, not_false_eq_true, or_true, if_true]
  exact ⟨trivial, hpend⟩

theorem canLldRx0Handler_eq (ch : CanChannel) :
    ch.canLldRx0Handler =
      { ch with
        fmpie0 := if ch.fifo0 = [] then ch.fmpie0 else false
        source := if ch.fifo0 = [] then ch.source
          else ch.source.chEvtBroadcastFlagsI (canMailboxToMask 1)
        fovr0 := false } := by
  obtain ⟨started, fmpie0, fovr0, fifo0, source, pc⟩ := ch
  cases fovr0 <;> by_cases hf : fifo0 = [] <;> simp [canLldRx0Handler, hf]

theorem Alert.rx0Irq {ch : CanChannel} {m : HandlerWatch} (h : ch.Alert m)
    (hs : ch.started = true) : Alert ch.canLldRx0Handler (m.next ch .rx0Irq) := by
  rw [canLldRx0Handler_eq]
  by_cases hf : ch.fifo0 = []
  · simp only [hf, HandlerWatch.next, ne_eq, not_true_eq_false, and_false, if_false, if_true]
    rw [← hf]
    exact ⟨h.unstarted, h.unregistered, h.registered, h.masked, h.quiet, h.awake⟩
  simp only [hf, HandlerWatch.next, ne_eq, not_false_eq_true, and_self, if_false, if_true]
  by_cases hpc : ch.pc = .notCreated ∨ ch.pc = .created
  · obtain ⟨hsource, hsince⟩ := h.unregistered hpc
    have hidle := (h.quiet hs hsince).2.2
    simp only [hsource, EventSource.chEvtBroadcastFlagsI, if_true]
    constructor
    · exact fun hno => absurd (hs.symm.trans hno) (by decide)
    · exact fun _ => ⟨rfl, hsince⟩
    · exact fun hn hc => absurd hpc (not_or.mpr ⟨hn, hc⟩)
    · exact fun _ _ _ => hf
    · exact fun _ _ => ⟨rfl, rfl, hidle⟩
    · exact fun hyes => absurd (hyes.symm.trans hsince) (by decide)
  · obtain ⟨hn, hc⟩ := not_or.mp hpc
    obtain ⟨flags, hl⟩ := h.registered hn hc
    obtain ⟨hl', hpend⟩ := broadcast_pending hl
    simp only [hl, reduceCtorEq, if_false]
    refine Alert.of_registered hs hn hc ⟨_, hl'⟩ (fun _ _ => hf) (fun hno => ?_) fun _ _ =>
      Or.inr hpend
    cases hno

theorem and_allEvents (x : BitVec 32) : x &&& allEvents = x := BitVec.and_allOnes

theorem Alert.register {ch : CanChannel} {m : HandlerWatch} (h : ch.Alert m)
    (hpc : ch.pc = .created) :
    Alert { ch with
      source := ch.source.chEvtRegisterMaskWithFlags 1 (BitVec.allOnes 32), pc := .loopHead } m := by
  have hs := h.started (by simp [hpc])
  obtain ⟨-, hsince⟩ := h.unregistered (Or.inr hpc)
  obtain ⟨hpend, hmask, -⟩ := h.quiet hs hsince
  refine Alert.of_registered hs (by simp) (by simp) ⟨0, rfl⟩ (fun _ => h.masked hs (by simp [hpc]))
    (fun _ => ⟨hpend, hmask, rfl⟩) fun hyes => ?_
  simp [hsince] at hyes

/-- Without an event the thread goes to sleep, and wakes up again after its timeout. -/
theorem Alert.rest {ch : CanChannel} {m : HandlerWatch} (h : ch.Alert m) {pc : CanRxPc}
    (hpc : ch.pc = .loopHead ∨ ch.pc = .blocked) (hpc' : pc = .loopHead ∨ pc = .blocked)
    (hp : ch.source.pEpending = 0) : Alert { ch with pc } m := by
  have hapart : ch.pc ≠ .notCreated ∧ ch.pc ≠ .created ∧ ∀ rxmsg, ch.pc ≠ .released rxmsg := by
    rcases hpc with hpc | hpc <;> simp [hpc]
  have hapart' : pc ≠ .notCreated ∧ pc ≠ .created ∧ pc.isIdle = true := by
    rcases hpc' with rfl | rfl <;> simp [CanRxPc.isIdle]
  have hs := h.started hapart.1
  exact Alert.of_registered hs hapart'.1 hapart'.2.1 (h.registered hapart.1 hapart.2.1)
    (fun _ => h.masked hs hapart.2.2) (fun hno => ⟨hp, (h.quiet hs hno).2.1, hapart'.2.2⟩)
    fun hyes _ => h.awake hyes hpc

theorem Alert.takeEvents {ch : CanChannel} {m : HandlerWatch} (h : ch.Alert m)
    (hpc : ch.pc = .loopHead ∨ ch.pc = .blocked) (hp : ch.source.pEpending ≠ 0) :
    Alert { ch with source := ch.source.takeEvents allEvents, pc := .drain } m := by
  have hapart : ch.pc ≠ .notCreated ∧ ch.pc ≠ .created ∧ ∀ rxmsg, ch.pc ≠ .released rxmsg := by
    rcases hpc with hpc | hpc <;> simp [hpc]
  have hs := h.started hapart.1
  exact Alert.of_busy hs (h.since_of_pending hs hp) (h.registered hapart.1 hapart.2.1) rfl
    fun _ => h.masked hs hapart.2.2

/-- Between its event and the next wait the thread leaves the listener alone. -/
theorem Alert.serving {ch : CanChannel} {m : HandlerWatch} (h : ch.Alert m)
    (hbusy : ch.pc.isIdle = false) :
    ch.started = true ∧ (∃ flags, ch.source.listener = some ⟨1, flags, BitVec.allOnes 32⟩) ∧
      m.since = true := by
  have hn : ch.pc ≠ .notCreated := by
    intro hpc
    simp [hpc, CanRxPc.isIdle] at hbusy
  have hc : ch.pc ≠ .created := by
    intro hpc
    simp [hpc, CanRxPc.isIdle] at hbusy
  exact ⟨h.started hn, h.registered hn hc, h.since_of_busy hbusy⟩

/-- An empty FIFO ends the loop with the interrupt enabled. -/
theorem Alert.drained {ch : CanChannel} {m : HandlerWatch} (h : ch.Alert m) (hpc : ch.pc = .drain)
    (hf : ch.fifo0 = []) : Alert { ch with pc := .loopHead } m := by
  obtain ⟨hs, hl, hsince⟩ := h.serving (by rw [hpc]; rfl)
  have hopen : ch.fmpie0 = true := by
    by_contra hm
    exact h.masked hs (by simp [hpc]) (by simpa using hm) hf
  refine Alert.of_registered hs (by simp) (by simp) hl (fun _ hm => ?_) (fun hno => ?_) fun _ _ =>
    Or.inl hopen
  · simp [hopen] at hm
  · simp [hsince] at hno

theorem Alert.canRx {ch ch' : CanChannel} {m : HandlerWatch} (h : ch.Alert m)
    (hst : ch.canRx = some ch') : ch'.Alert m := by
  simp only [CanChannel.canRx, and_allEvents] at hst
  cases hpc : ch.pc with
  | notCreated => simp [hpc] at hst
  | created =>
    simp only [hpc] at hst
    cases hst
    exact h.register hpc
  | loopHead =>
    simp only [hpc] at hst
    split_ifs at hst with hp <;> cases hst
    · exact h.rest (Or.inl hpc) (Or.inr rfl) hp
    · exact h.takeEvents (Or.inl hpc) hp
  | blocked =>
    simp only [hpc] at hst
    split_ifs at hst with hp
    cases hst
    exact h.takeEvents (Or.inr hpc) hp
  | drain =>
    obtain ⟨hs, hl, hsince⟩ := h.serving (by rw [hpc]; rfl)
    simp only [hpc] at hst
    cases hf : ch.fifo0 with
    | nil =>
      simp only [hf] at hst
      cases hst
      simpa only [hf] using h.drained hpc hf
    | cons rxmsg rest =>
      simp only [hf] at hst
      cases hst
      exact Alert.of_busy hs hsince hl rfl fun hno => absurd rfl (hno rxmsg)
  | released rxmsg =>
    obtain ⟨hs, hl, hsince⟩ := h.serving (by rw [hpc]; rfl)
    simp only [hpc] at hst
    cases hst
    refine Alert.of_busy hs hsince hl rfl fun _ hm hf => ?_
    rw [show ch.fifo0 = [] from hf] at hm
    simp at hm
  | process rxmsg =>
    obtain ⟨hs, hl, hsince⟩ := h.serving (by rw [hpc]; rfl)
    simp only [hpc] at hst
    cases hst
    exact Alert.of_busy hs hsince hl rfl fun _ => h.masked hs (by simp [hpc])

theorem Alert.step {ch ch' : CanChannel} {m : HandlerWatch} {e : ChannelEvent} (h : ch.Alert m)
    (hst : ch.step e = some ch') : ch'.Alert (m.next ch e) := by
  cases e with
  | canStart =>
    simp only [CanChannel.step] at hst
    split_ifs at hst with hen
    cases hst
    exact h.canStart hen.1
  | create =>
    simp only [CanChannel.step] at hst
    split_ifs at hst with hen
    cases hst
    exact h.create hen.1 hen.2
  | arrive rxmsg =>
    simp only [CanChannel.step] at hst
    split_ifs at hst
    cases hst
    exact h.arrive rxmsg
  | rx0Irq =>
    simp only [CanChannel.step] at hst
    split at hst
    · cases hst
    · split_ifs at hst with hen
      cases hst
      exact h.rx0Irq (Bool.and_eq_true_iff.mp hen).1
  | timeout =>
    simp only [CanChannel.step, and_allEvents] at hst
    split_ifs at hst with hen
    cases hst
    exact h.rest (Or.inr hen.1) (Or.inl rfl) hen.2
  | thread => exact h.canRx hst

end CanChannel

namespace CanReceiver

def watchAt (canp : CANDriver) (s : CanReceiver) (e : CanEvent) (m : HandlerWatch) : HandlerWatch :=
  match s.target e with
  | some (canp', e') => if canp' = canp then m.next (s.channel canp) e' else m
  | none => m

abbrev watched (canp : CANDriver) (es : List CanEvent) : Option (CanReceiver × HandlerWatch) :=
  Machine.run (Machine.watch step (watchAt canp)) ({}, {}) es

theorem watched_run (canp : CANDriver) (es : List CanEvent) :
    (watched canp es).map Prod.fst = Machine.run step {} es :=
  Machine.run_watch_fst step (watchAt canp) ({}, {}) es

theorem alert {canp : CANDriver} {es : List CanEvent} {x : CanReceiver × HandlerWatch}
    (h : watched canp es = some x) : (x.1.channel canp).Alert x.2 := by
  refine Machine.watch_invariant (P := fun s m => (s.channel canp).Alert m) CanChannel.Alert.init ?_ h
  intro s m e t hs hst
  obtain ⟨canp', e', ch, htarget, hch, ht, -⟩ := step_eq_some hst
  rw [ht, watchAt, htarget]
  by_cases heq : canp' = canp
  · subst heq
    simp only [Function.update_self, if_true]
    exact hs.step hch
  · simp only [Function.update_of_ne (Ne.symm heq), if_neg heq]
    exact hs

theorem wakes {ch : CanChannel} {m : HandlerWatch} (h : ch.Alert m) (hpc : ch.pc = .blocked)
    (hopen : ch.fmpie0 = true) (rxmsg : CANRxFrame) :
    ∃ ch₁ ch₂, ch.step (.arrive rxmsg) = some ch₁ ∧ ch₁.step .rx0Irq = some ch₂ ∧
      ch₂.source.pEpending ≠ 0 := by
  have hs := h.started (by simp [hpc])
  obtain ⟨flags, hl⟩ := h.registered (by simp [hpc]) (by simp [hpc])
  obtain ⟨fovr0, fifo0, hne, heq⟩ := CanChannel.arrive_eq ch rxmsg
  refine ⟨ch.arrive rxmsg, (ch.arrive rxmsg).canLldRx0Handler, if_pos hs, ?_, ?_⟩
  · simp [CanChannel.step, heq, hpc, hs, CanChannel.rx0Pending, hopen, hne]
  · rw [CanChannel.canLldRx0Handler_eq, heq]
    simp only [if_neg hne]
    exact (CanChannel.broadcast_pending hl).2

/-- A receiver asleep with no event pending will be woken by the next frame,
unless its interrupt was spent before there was a listener and not since. -/
theorem blocked_enabled_iff (canp : CANDriver) (es : List CanEvent) (x : CanReceiver × HandlerWatch)
    (h : watched canp es = some x) (hpc : (x.1.channel canp).pc = .blocked)
    (hpend : (x.1.channel canp).source.pEpending = 0) :
    ((x.1.channel canp).fmpie0 = true ↔ ¬ (x.2.before = true ∧ x.2.since = false)) ∧
      ((x.1.channel canp).fmpie0 = true → ∀ rxmsg, ∃ ch₁ ch₂,
        (x.1.channel canp).step (.arrive rxmsg) = some ch₁ ∧ ch₁.step .rx0Irq = some ch₂ ∧
        ch₂.source.pEpending ≠ 0) := by
  have halert := alert h
  refine ⟨?_, fun hopen => wakes halert hpc hopen⟩
  cases hsince : x.2.since with
  | false =>
    rw [(halert.quiet (halert.started (by simp [hpc])) hsince).2.1]
    simp
  | true =>
    have hopen := (halert.awake hsince (Or.inr hpc)).resolve_right (not_not.mpr hpend)
    simp [hopen]

def earlyFrame : List CanEvent :=
  [.main, .arrive .cand1 { dlc := 8, rtr := false, ide := false, id := 0x201, data8 := .replicate 8 0 },
    .rx0Irq .cand1, .main, .main, .thread .cand1, .thread .cand1]

theorem blocked_earlyFrame : ∃ x, watched .cand1 earlyFrame = some x ∧
    ((x.1.channel .cand1).fmpie0 = true ↔ ¬ (x.2.before = true ∧ x.2.since = false)) := by
  have hrun : (watched .cand1 earlyFrame).any (fun x => decide ((x.1.channel .cand1).pc = .blocked ∧
      (x.1.channel .cand1).source.pEpending = 0)) = true := by
    decide +kernel
  obtain ⟨x, hx, hstate⟩ := (Option.any_eq_true _ _).mp hrun
  obtain ⟨hpc, hpend⟩ := of_decide_eq_true hstate
  exact ⟨x, hx, (blocked_enabled_iff .cand1 earlyFrame x hx hpc hpend).1⟩

theorem receiver_deaf : ¬ ∀ canp es x, watched canp es = some x → (x.1.channel canp).pc = .blocked →
    (x.1.channel canp).source.pEpending = 0 → (x.1.channel canp).fmpie0 = true := by
  intro h
  have hrun : (watched .cand1 earlyFrame).any (fun x => decide ((x.1.channel .cand1).pc = .blocked ∧
      (x.1.channel .cand1).source.pEpending = 0 ∧ (x.1.channel .cand1).fmpie0 = false)) = true := by
    decide +kernel
  obtain ⟨x, hx, hstate⟩ := (Option.any_eq_true _ _).mp hrun
  obtain ⟨hpc, hpend, hmask⟩ := of_decide_eq_true hstate
  exact nomatch hmask.symm.trans (h .cand1 earlyFrame x hx hpc hpend)

end CanReceiver

end SafetyTrolley
