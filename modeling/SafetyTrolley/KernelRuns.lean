import SafetyTrolley.KernelSound
import SafetyTrolley.Lib.LowestBit
import SafetyTrolley.Lib.Machine

/-! Runs of the kernel from chSysInit on: every call that the threads and the interrupts
may make succeeds, and what it does to the events and to the order of the threads. -/

namespace SafetyTrolley

namespace Kernel

variable {τ σ ℓ : Type*} [DecidableEq τ] [DecidableEq σ] [DecidableEq ℓ]

/-- The events that the step makes pending for a thread. -/
def posted (k : Kernel τ σ ℓ) (u : τ) : KernelEvent τ σ ℓ → BitVec 32
  | .addEvents events => if u = k.current then events else 0
  | .signal tp events | .isrSignal tp events => if u = tp then events else 0
  | .broadcast esp flags | .isrBroadcast esp flags =>
    signals flags u ((k.addFlags esp flags).esNext esp)
  | _ => 0

/-- The events that the step takes from a thread. -/
def consumed (k : Kernel τ σ ℓ) (u : τ) : KernelEvent τ σ ℓ → BitVec 32
  | .wait kind events time =>
    if u = k.current then (k.returned (.wait kind events time)).getD 0 else 0
  | .resume => if u = k.current then (k.returned .resume).getD 0 else 0
  | .getAndClearEvents events =>
    if u = k.current then (k.returned (.getAndClearEvents events)).getD 0 else 0
  | .create tp _ => if u = tp then -1 else 0
  | _ => 0

/-- The listeners of the sources after the step. -/
def listeners (k : Kernel τ σ ℓ) : KernelEvent τ σ ℓ → σ → List (Listener τ ℓ)
  | .register esp elp events wflags => (k.chEvtRegisterMaskWithFlags esp elp events wflags).esNext
  | .unregister esp elp => (k.chEvtUnregister esp elp).esNext
  | .getAndClearFlags esp elp => (k.chEvtGetAndClearFlags esp elp).esNext
  | .broadcast esp flags | .isrBroadcast esp flags => (k.addFlags esp flags).esNext
  | _ => k.esNext

structure StepSpec (idle : τ) (k : Kernel τ σ ℓ) (e : KernelEvent τ σ ℓ) (k' : Kernel τ σ ℓ) :
    Prop where
  sound : k'.Sound idle
  ahead : ∀ u v, Ahead u v k → k'.current = u ∨ Ahead u v k'
  pEpending : ∀ u, (k'.thread u).pEpending =
    ((k.thread u).pEpending ||| k.posted u e) &&& ~~~k.consumed u e
  esNext : k'.esNext = k.listeners e

theorem and_not_zero (x : BitVec 32) : x &&& ~~~0 = x := by
  change x &&& ~~~0#32 = x
  rw [BitVec.not_zero, BitVec.and_allOnes]

omit [DecidableEq ℓ] in
theorem pEpending_posted {k k' : Kernel τ σ ℓ} {u : τ} {e : KernelEvent τ σ ℓ}
    (hconsumed : k.consumed u e = 0)
    (h : (k'.thread u).pEpending = (k.thread u).pEpending ||| k.posted u e) :
    (k'.thread u).pEpending = ((k.thread u).pEpending ||| k.posted u e) &&& ~~~k.consumed u e := by
  rw [h, hconsumed, and_not_zero]

omit [DecidableEq ℓ] in
theorem pEpending_kept {k k' : Kernel τ σ ℓ} {u : τ} {e : KernelEvent τ σ ℓ}
    (hposted : k.posted u e = 0)
    (hconsumed : k.consumed u e = 0) (h : (k'.thread u).pEpending = (k.thread u).pEpending) :
    (k'.thread u).pEpending = ((k.thread u).pEpending ||| k.posted u e) &&& ~~~k.consumed u e := by
  refine pEpending_posted hconsumed ?_
  rw [h, hposted]
  simp

/-- A call of class I in an interrupt. -/
theorem Sound.spec_isr {idle : τ} {k k' : Kernel τ σ ℓ} {e : KernelEvent τ σ ℓ} (h : k.Sound idle)
    (hin : k.inIsr = true) (hcoherent : k'.Coherent idle) (hstays : k.Stays k')
    (hpending : ∀ u, (k'.thread u).pEpending =
      ((k.thread u).pEpending ||| k.posted u e) &&& ~~~k.consumed u e)
    (hlisteners : k.listeners e = k.esNext) : StepSpec idle k e k' :=
  ⟨h.stays hin hcoherent hstays, fun u v ha => Or.inr (hstays.ahead u v ha), hpending,
    hstays.esNext.trans hlisteners.symm⟩

theorem Sound.isrSignal {idle : τ} {k : Kernel τ σ ℓ} (h : k.Sound idle) (hin : k.inIsr = true)
    (tp : τ) (events : BitVec 32) : ∃ k', k.chEvtSignalI tp events = some k' ∧
      StepSpec idle k (.isrSignal tp events) k' := by
  obtain ⟨k', hres, hcoherent, hstays, hp⟩ := h.coherent.chEvtSignalI tp events
  exact ⟨k', hres, h.spec_isr hin hcoherent hstays (fun u => pEpending_posted rfl (hp u)) rfl⟩

omit [DecidableEq ℓ] in
theorem Coherent.chEvtBroadcastFlagsI {idle : τ} {k : Kernel τ σ ℓ} (h : k.Coherent idle) (esp : σ)
    (flags : BitVec 32) : ∃ k', k.chEvtBroadcastFlagsI esp flags = some k' ∧ k'.Coherent idle ∧
      (k.addFlags esp flags).Stays k' ∧ ∀ u, (k'.thread u).pEpending =
        (k.thread u).pEpending ||| signals flags u ((k.addFlags esp flags).esNext esp) :=
  Coherent.signalAll (k := k.addFlags esp flags) (h.setListeners _) flags _

theorem Sound.isrBroadcast {idle : τ} {k : Kernel τ σ ℓ} (h : k.Sound idle) (hin : k.inIsr = true)
    (esp : σ) (flags : BitVec 32) : ∃ k', k.chEvtBroadcastFlagsI esp flags = some k' ∧
      StepSpec idle k (.isrBroadcast esp flags) k' := by
  obtain ⟨k', hres, hcoherent, hstays, hp⟩ := h.coherent.chEvtBroadcastFlagsI esp flags
  refine ⟨k', hres, ⟨hcoherent, ?_, ?_⟩, ?_, fun u => pEpending_posted rfl (hp u), hstays.esNext⟩
  · intro hout
    rw [hstays.inIsr] at hout
    exact absurd hin (by simpa [addFlags] using hout)
  · intro _
    rw [hstays.current, hstays.call]
    exact h.isr hin
  · intro u v ha
    exact Or.inr (hstays.ahead u v (ha.setListeners _))

theorem Sound.signal {idle : τ} {k : Kernel τ σ ℓ} (h : k.Sound idle) (hout : k.inIsr = false)
    (tp : τ) (events : BitVec 32) : ∃ k', k.chEvtSignal tp events = some k' ∧
      StepSpec idle k (.signal tp events) k' := by
  obtain ⟨k₁, hres₁, h₁, hstays, hp⟩ := h.coherent.chEvtSignalI tp events
  obtain ⟨k', hres, hcoherent, htop, hswitch⟩ := h₁.reschedule
  refine ⟨k', ?_, hcoherent.sound htop ?_, ?_, fun u => ?_, hswitch.esNext.trans hstays.esNext⟩
  · rw [Kernel.chEvtSignal, hres₁, Option.bind_some, Kernel.chSchRescheduleS, chSchIsRescRequiredI]
    simpa using hres
  · rw [hswitch.inIsr, hstays.inIsr, hout]
  · intro u v ha
    exact hswitch.ahead u v (hstays.ahead u v ha)
  · exact pEpending_posted rfl ((hswitch.pEpending u).trans (hp u))

theorem Sound.broadcast {idle : τ} {k : Kernel τ σ ℓ} (h : k.Sound idle) (hout : k.inIsr = false)
    (esp : σ) (flags : BitVec 32) : ∃ k', k.chEvtBroadcastFlags esp flags = some k' ∧
      StepSpec idle k (.broadcast esp flags) k' := by
  obtain ⟨k₁, hres₁, h₁, hstays, hp⟩ := h.coherent.chEvtBroadcastFlagsI esp flags
  obtain ⟨k', hres, hcoherent, htop, hswitch⟩ := h₁.reschedule
  refine ⟨k', ?_, hcoherent.sound htop ?_, ?_, fun u => ?_, hswitch.esNext.trans hstays.esNext⟩
  · rw [Kernel.chEvtBroadcastFlags, hres₁, Option.bind_some, Kernel.chSchRescheduleS,
      chSchIsRescRequiredI]
    simpa using hres
  · rw [hswitch.inIsr, hstays.inIsr]
    exact hout
  · intro u v ha
    exact hswitch.ahead u v (hstays.ahead u v (ha.setListeners _))
  · exact pEpending_posted rfl ((hswitch.pEpending u).trans (hp u))

theorem Sound.isrExit {idle : τ} {k : Kernel τ σ ℓ} (h : k.Sound idle) :
    ∃ k', ({ k with inIsr := false } : Kernel τ σ ℓ).portIrqEpilogue = some k' ∧
      StepSpec idle k .isrExit k' := by
  obtain ⟨⟨⟨h1, h2, h3, h4, h5, h6, h7⟩, hc⟩, -, -⟩ := h
  have hcoherent : ({ k with inIsr := false } : Kernel τ σ ℓ).Coherent idle :=
    ⟨⟨h1, h2, h3, h4, h5, h6, h7⟩, hc⟩
  obtain ⟨k', hres, hcoherent', htop, hswitch⟩ := hcoherent.reschedule
  refine ⟨k', ?_, hcoherent'.sound htop hswitch.inIsr, ?_, fun u => ?_, hswitch.esNext⟩
  · rw [portIrqEpilogue, chSchIsPreemptionRequired, Kernel.chSchDoReschedule]
    simpa using hres
  · intro u v ha
    exact hswitch.ahead u v ⟨ha.ready, ha.prio, ha.behind⟩
  · exact pEpending_kept rfl rfl (hswitch.pEpending u)

theorem Sound.yield {idle : τ} {k : Kernel τ σ ℓ} (h : k.Sound idle) (hout : k.inIsr = false) :
    ∃ k', k.chSchDoYieldS = some k' ∧ StepSpec idle k .yield k' := by
  obtain ⟨k', hres, hcoherent, htop, hswitch⟩ := h.coherent.chSchDoYieldS (h.top hout)
  exact ⟨k', hres, hcoherent.sound htop (hswitch.inIsr.trans hout), hswitch.ahead,
    fun u => pEpending_kept rfl rfl (hswitch.pEpending u), hswitch.esNext⟩

theorem Sound.isrEnter {idle : τ} {k : Kernel τ σ ℓ} (h : k.Sound idle) (hrun : k.running) :
    StepSpec idle k .isrEnter { k with inIsr := true } := by
  obtain ⟨⟨⟨h1, h2, h3, h4, h5, h6, h7⟩, hc⟩, -, -⟩ := h
  refine ⟨⟨⟨⟨h1, h2, h3, h4, h5, h6, h7⟩, hc⟩, fun hout => by simp at hout, fun _ => hrun.2⟩, ?_,
    ?_, rfl⟩
  · intro u v ha
    exact Or.inr ⟨ha.ready, ha.prio, ha.behind⟩
  · exact fun u => pEpending_kept rfl rfl rfl

/-- A change of the current thread alone, in which it stays out of a wait. -/
theorem Sound.modify_current {idle : τ} {k : Kernel τ σ ℓ} {e : KernelEvent τ σ ℓ} (h : k.Sound idle)
    (hout : k.inIsr = false) {f : Thread → Thread}
    (hprio : (f (k.thread k.current)).pPrio = (k.thread k.current).pPrio)
    (hstate : (f (k.thread k.current)).pState = (k.thread k.current).pState)
    (hcall : (f (k.thread k.current)).call = none)
    (harmed : (f (k.thread k.current)).vtArmed = false)
    (hpending : ∀ u, ((k.modify k.current f).thread u).pEpending =
      ((k.thread u).pEpending ||| k.posted u e) &&& ~~~k.consumed u e)
    (hlisteners : k.listeners e = k.esNext) : StepSpec idle k e (k.modify k.current f) := by
  have hrun : (f (k.thread k.current)).pState = .current := hstate.trans h.coherent.ranked.running
  have hth : (f (k.thread k.current)).Consistent :=
    (Thread.ended_of_call_eq_none hcall).consistent (by simp [harmed]) (Or.inr hrun)
  refine ⟨(h.coherent.modify hprio hstate hth).sound ((h.top hout).modify hprio) hout, ?_, hpending,
    hlisteners.symm⟩
  intro u v ha
  refine Or.inr (ha.grow (List.Sublist.refl _) ?_ ?_)
  · rw [prio_modify hprio]
    exact ha.prio
  · rw [state_modify hstate]
    exact id

omit [DecidableEq τ] [DecidableEq σ] [DecidableEq ℓ] in
theorem Sound.unarmed {idle : τ} {k : Kernel τ σ ℓ} (h : k.Sound idle)
    (hcall : (k.thread k.current).call = none) : (k.thread k.current).vtArmed = false := by
  obtain ⟨-, harmed⟩ := (h.coherent.consistent k.current).ended (Or.inr h.coherent.ranked.running)
  by_contra hne
  exact harmed (by simpa using hne) hcall

theorem Sound.addEvents {idle : τ} {k : Kernel τ σ ℓ} (h : k.Sound idle) (hrun : k.running)
    (events : BitVec 32) : StepSpec idle k (.addEvents events)
      (k.modify k.current fun th => { th with pEpending := th.pEpending ||| events }) := by
  refine h.modify_current hrun.1 rfl rfl hrun.2 (h.unarmed hrun.2)
    (fun u => pEpending_posted rfl ?_) rfl
  rw [pEpending_modify, posted]
  split_ifs with hu
  · rw [hu]
  · simp

omit [DecidableEq ℓ] in
/-- Events taken from the current thread. -/
theorem pEpending_take {k : Kernel τ σ ℓ} {e : KernelEvent τ σ ℓ} {f : Thread → Thread}
    {events : BitVec 32}
    (hf : (f (k.thread k.current)).pEpending = (k.thread k.current).pEpending &&& ~~~events)
    (hposted : ∀ u, k.posted u e = 0)
    (hconsumed : ∀ u, k.consumed u e = if u = k.current then events else 0) (u : τ) :
    ((k.modify k.current f).thread u).pEpending =
      ((k.thread u).pEpending ||| k.posted u e) &&& ~~~k.consumed u e := by
  rw [pEpending_modify, hposted, hconsumed]
  split_ifs with hu
  · rw [hf, hu]
    simp
  · rw [and_not_zero]
    simp

theorem and_not_and (x events : BitVec 32) : x &&& ~~~events = x &&& ~~~(x &&& events) := by
  ext i
  simp [Bool.and_or_distrib_left]

theorem Sound.getAndClearEvents {idle : τ} {k : Kernel τ σ ℓ} (h : k.Sound idle) (hrun : k.running)
    (events : BitVec 32) : StepSpec idle k (.getAndClearEvents events) (k.take events) := by
  refine h.modify_current hrun.1 rfl rfl hrun.2 (h.unarmed hrun.2)
    (pEpending_take (and_not_and _ events) (fun _ => rfl) fun u => ?_) rfl
  simp only [consumed, returned, Option.getD_some]

omit [DecidableEq σ] [DecidableEq ℓ] in
theorem consumed_resume {k : Kernel τ σ ℓ} {events : Option (BitVec 32)}
    (h : k.returned .resume = events)
    (u : τ) : k.consumed u .resume = if u = k.current then events.getD 0 else 0 := by
  rw [consumed, h]

/-- The end of a call takes what it returns, and nothing where it has timed out. -/
theorem Sound.resume {idle : τ} {k : Kernel τ σ ℓ} (h : k.Sound idle) (hout : k.inIsr = false)
    (hcall : (k.thread k.current).call ≠ none) :
    ∃ k', k.finishWait = some k' ∧ StepSpec idle k .resume k' := by
  have hnothing : ∀ u, k.consumed u .resume = 0 →
      ((k.modify k.current fun th => { th with call := none, vtArmed := false }).thread u).pEpending =
        ((k.thread u).pEpending ||| k.posted u .resume) &&& ~~~k.consumed u .resume := by
    intro u hc
    refine pEpending_kept rfl hc ?_
    rw [pEpending_modify]
    split_ifs with hu <;> simp [hu]
  cases hwait : (k.thread k.current).call with
  | none => exact absurd hwait hcall
  | some call =>
    cases call with
    | sleep =>
      have hreturned : k.returned .resume = none := by simp only [returned, hwait]
      refine ⟨_, by simp only [finishWait, hwait], h.modify_current hout rfl rfl rfl rfl
        (fun u => hnothing u ?_) rfl⟩
      simp [consumed_resume hreturned]
    | events kind events time =>
      by_cases hto : k.timedOut time = true
      · have hreturned : k.returned .resume = some 0 := by simp only [returned, hwait, if_pos hto]
        refine ⟨_, by simp only [finishWait, hwait, if_pos hto],
          h.modify_current hout rfl rfl rfl rfl (fun u => hnothing u ?_) rfl⟩
        simp [consumed_resume hreturned]
      · have hreturned : k.returned .resume =
            some (kind.taken (k.thread k.current).pEpending events) := by
          simp only [returned, hwait, if_neg hto]
        refine ⟨_, by simp only [finishWait, hwait, if_neg hto]; rfl, ?_⟩
        rw [take, current_modify, modify_modify]
        exact h.modify_current hout rfl rfl rfl rfl
          (pEpending_take rfl (fun _ => rfl) (consumed_resume hreturned)) rfl

omit [DecidableEq σ] [DecidableEq ℓ] in
theorem consumed_wait {k : Kernel τ σ ℓ} {kind : WaitKind} {want : BitVec 32} {time : Option Systime}
    {events : Option (BitVec 32)} (h : k.returned (.wait kind want time) = events) (u : τ) :
    k.consumed u (.wait kind want time) = if u = k.current then events.getD 0 else 0 := by
  rw [consumed, h]

theorem WaitKind.waits_newstate (kind : WaitKind) : kind.newstate.waits = true := by
  cases kind <;> rfl

/-- A change of the current thread's call before it waits. -/
theorem Sound.goSleep {idle : τ} {k : Kernel τ σ ℓ} {e : KernelEvent τ σ ℓ} (h : k.Sound idle)
    (hout : k.inIsr = false) (hne : k.current ≠ idle) {f : Thread → Thread} {newstate : ThreadState}
    (hwaits : newstate.waits = true)
    (hprio : (f (k.thread k.current)).pPrio = (k.thread k.current).pPrio)
    (hstate : (f (k.thread k.current)).pState = (k.thread k.current).pState)
    (hp : (f (k.thread k.current)).pEpending = (k.thread k.current).pEpending)
    (hth : ({ f (k.thread k.current) with pState := newstate } : Thread).Consistent)
    (hposted : ∀ u, k.posted u e = 0) (hconsumed : ∀ u, k.consumed u e = 0)
    (hlisteners : k.listeners e = k.esNext) :
    ∃ k', (k.modify k.current f).chSchGoSleepS newstate = some k' ∧ StepSpec idle k e k' := by
  obtain ⟨k', hres, hcoherent, htop, hswitch⟩ := h.coherent.goSleep hne hwaits hprio hstate hth
  refine ⟨k', hres, hcoherent.sound htop (hswitch.inIsr.trans hout), ?_, fun u => ?_,
    hswitch.esNext.trans hlisteners.symm⟩
  · intro u v ha
    refine hswitch.ahead u v (ha.grow (List.Sublist.refl _) ?_ ?_)
    · rw [prio_modify hprio]
      exact ha.prio
    · rw [state_modify hstate]
      exact id
  · refine pEpending_kept (hposted u) (hconsumed u) ((hswitch.pEpending u).trans ?_)
    rw [pEpending_modify]
    split_ifs with hu
    · rw [hp, hu]
    · rfl

theorem Sound.sleep {idle : τ} {k : Kernel τ σ ℓ} (h : k.Sound idle) (hrun : k.running)
    (hne : k.current ≠ idle) (time : Systime) :
    ∃ k', k.chSchGoSleepTimeoutS .sleeping .sleep (some time) = some k' ∧
      StepSpec idle k (.sleep time) k' :=
  h.goSleep hrun.1 hne rfl rfl rfl rfl rfl (fun _ => rfl) (fun _ => rfl) rfl

theorem Sound.wait {idle : τ} {k : Kernel τ σ ℓ} (h : k.Sound idle) (hrun : k.running)
    (hne : k.current ≠ idle) (kind : WaitKind) (events : BitVec 32) (time : Option Systime) :
    ∃ k', k.chEvtWait kind events time = some k' ∧ StepSpec idle k (.wait kind events time) k' := by
  unfold chEvtWait
  by_cases hsat : kind.satisfied (k.thread k.current).pEpending events = true
  · have hreturned : k.returned (.wait kind events time) =
        some (kind.taken (k.thread k.current).pEpending events) := by
      simp only [returned, if_pos hsat]
    simp only [if_pos hsat]
    refine ⟨_, rfl, h.modify_current hrun.1 rfl rfl hrun.2 (h.unarmed hrun.2)
      (pEpending_take rfl (fun _ => rfl) (consumed_wait hreturned)) rfl⟩
  · simp only [if_neg hsat]
    by_cases htime : time = some timeImmediate
    · have hreturned : k.returned (.wait kind events time) = some 0 := by
        simp only [returned, if_neg hsat, if_pos htime]
      rw [if_pos htime]
      refine ⟨k, rfl, h, fun u v ha => Or.inr ha, fun u => pEpending_kept rfl ?_ rfl, rfl⟩
      simp [consumed_wait hreturned]
    · have hreturned : k.returned (.wait kind events time) = none := by
        simp only [returned, if_neg hsat, if_neg htime]
      rw [if_neg htime, chSchGoSleepTimeoutS]
      simp only [modify_modify, current_modify]
      refine h.goSleep hrun.1 hne (WaitKind.waits_newstate kind) rfl rfl rfl ?_ (fun _ => rfl) ?_ rfl
      · refine Thread.Awaits.consistent ⟨rfl, rfl, rfl, by simpa using hsat, ?_⟩
        intro harmed
        cases time with
        | none => cases harmed
        | some time => rfl
      · intro u
        simp [consumed_wait hreturned]

omit [DecidableEq τ] [DecidableEq σ] [DecidableEq ℓ] in
/-- A thread with its timer armed waits, or is ready again. -/
theorem Sound.waits_of_armed {idle : τ} {k : Kernel τ σ ℓ} (h : k.Sound idle) (hin : k.inIsr = true)
    {tp : τ} (harmed : (k.thread tp).vtArmed = true) (hready : k.state tp ≠ .ready) :
    (k.state tp).waits = true ∧ ({ k.thread tp with
      vtArmed := false, pU := msgTimeout, pState := .ready } : Thread).Ended := by
  have hconsistent := h.coherent.consistent tp
  cases hs : (k.thread tp).pState with
  | wtstart =>
    simp only [Thread.Consistent, hs, harmed] at hconsistent
    cases hconsistent.2
  | ready => exact absurd hs hready
  | current =>
    rw [h.coherent.ranked.only tp hs, h.unarmed (h.isr hin)] at harmed
    cases harmed
  | sleeping =>
    have hcall : (k.thread tp).call = some .sleep := by
      simpa only [Thread.Consistent, hs] using hconsistent
    refine ⟨by rw [Kernel.state, hs]; rfl, ?_⟩
    intro kind events time heq
    cases hcall.symm.trans heq
  | wtorevt | wtandevt =>
    obtain ⟨kind, events, time, haw⟩ := hconsistent.awaits (by simp [hs])
    refine ⟨by rw [Kernel.state, hs]; rfl, ?_⟩
    intro kind' events' time' heq
    obtain ⟨rfl, rfl, rfl⟩ := by simpa using haw.call.symm.trans heq
    exact Or.inl ⟨haw.timed harmed, rfl⟩

/-- The callback of a timer ends the wait of its thread, unless events have ended it. -/
theorem Sound.isrTimeout {idle : τ} {k : Kernel τ σ ℓ} (h : k.Sound idle) (hin : k.inIsr = true)
    {tp : τ} (harmed : (k.thread tp).vtArmed = true) :
    ∃ k', (k.modify tp fun th => { th with vtArmed := false }).wakeup tp = some k' ∧
      StepSpec idle k (.isrTimeout tp) k' := by
  have hstate : (k.modify tp fun th => { th with vtArmed := false }).state = k.state :=
    state_modify rfl
  have hconsistent := h.coherent.consistent tp
  rw [wakeup, hstate]
  by_cases hready : k.state tp = .ready
  · obtain ⟨hended, -⟩ := hconsistent.ended (Or.inl hready)
    have hth : ({ k.thread tp with vtArmed := false } : Thread).Consistent :=
      Thread.Ended.consistent hended (fun hx => by simp at hx) (Or.inl hready)
    rw [if_pos hready]
    refine ⟨_, rfl,
      h.spec_isr hin (h.coherent.modify rfl rfl hth) (stays_modify rfl rfl rfl) (fun u => ?_) rfl⟩
    refine pEpending_kept rfl rfl ?_
    rw [pEpending_modify]
    split_ifs with hu <;> simp [hu]
  · obtain ⟨hwaits, hended⟩ := h.waits_of_armed hin harmed hready
    have hth :
        ({ k.thread tp with vtArmed := false, pU := msgTimeout, pState := .ready } : Thread).Consistent :=
      hended.consistent (fun hx => by simp at hx) (Or.inl rfl)
    obtain ⟨k', hres, hcoherent, hstays, hp⟩ := h.coherent.ready
      (f := fun th => { th with vtArmed := false, pU := msgTimeout }) hwaits rfl rfl rfl hth
    rw [if_neg hready, modify_modify]
    refine ⟨k', hres, h.spec_isr hin hcoherent hstays (fun u => pEpending_kept rfl rfl ?_) rfl⟩
    rw [hp, pEpending_modify]
    split_ifs with hu <;> simp [hu]

theorem Sound.create {idle : τ} {k : Kernel τ σ ℓ} (h : k.Sound idle) (hrun : k.running) {tp : τ}
    (hstart : k.state tp = .wtstart) (prio : Nat) :
    ∃ k', k.chThdCreateStatic tp prio = some k' ∧ StepSpec idle k (.create tp prio) k' := by
  have hcall : (k.thread tp).call = none := by
    have hconsistent := h.coherent.consistent tp
    simp only [Thread.Consistent, show (k.thread tp).pState = .wtstart from hstart] at hconsistent
    exact hconsistent.1
  have hstays := h.coherent.ranked.stays_threadInit hstart hcall prio
  obtain ⟨k', hres, hcoherent, htop, hswitch⟩ := h.coherent.create (h.top hrun.1) hstart prio
  refine ⟨k', hres, hcoherent.sound htop (hswitch.inIsr.trans hrun.1), ?_, fun u => ?_,
    hswitch.esNext⟩
  · intro u v ha
    exact hswitch.ahead u v (hstays.ahead u v ha)
  · have hposted : k.posted u (.create tp prio) = 0 := rfl
    rw [hswitch.pEpending, pEpending_modify, hposted, consumed]
    split_ifs with hu
    · simp [threadInit]
    · rw [and_not_zero]
      simp

theorem Sound.setListeners {idle : τ} {k : Kernel τ σ ℓ} {e : KernelEvent τ σ ℓ} (h : k.Sound idle)
    (esNext : σ → List (Listener τ ℓ)) (hposted : ∀ u, k.posted u e = 0)
    (hconsumed : ∀ u, k.consumed u e = 0) (hlisteners : k.listeners e = esNext) :
    StepSpec idle k e { k with esNext } :=
  ⟨⟨h.coherent.setListeners esNext, h.top, h.isr⟩, fun _ _ ha => Or.inr (ha.setListeners esNext),
    fun u => pEpending_kept (hposted u) (hconsumed u) rfl, hlisteners.symm⟩

/-- Every call that may be made succeeds: no assertion fails, and a thread is always there
to run. -/
theorem Sound.apply {idle : τ} {k : Kernel τ σ ℓ} {e : KernelEvent τ σ ℓ} (h : k.Sound idle)
    (henabled : k.enabled idle e) : ∃ k', k.apply e = some k' ∧ StepSpec idle k e k' := by
  cases e with
  | wait kind events time => exact h.wait henabled.1 henabled.2 kind events time
  | sleep time => exact h.sleep henabled.1 henabled.2.1 time
  | resume => exact h.resume henabled.1 henabled.2
  | yield => exact h.yield henabled.1
  | create tp prio => exact h.create henabled.1 henabled.2.1 prio
  | register esp elp events wflags =>
    exact ⟨_, rfl, h.setListeners _ (fun _ => rfl) (fun _ => rfl) rfl⟩
  | unregister esp elp => exact ⟨_, rfl, h.setListeners _ (fun _ => rfl) (fun _ => rfl) rfl⟩
  | getAndClearFlags esp elp => exact ⟨_, rfl, h.setListeners _ (fun _ => rfl) (fun _ => rfl) rfl⟩
  | addEvents events => exact ⟨_, rfl, h.addEvents henabled events⟩
  | getAndClearEvents events => exact ⟨_, rfl, h.getAndClearEvents henabled events⟩
  | signal tp events => exact h.signal henabled.1 tp events
  | broadcast esp flags => exact h.broadcast henabled.1 esp flags
  | isrEnter => exact ⟨_, rfl, h.isrEnter henabled⟩
  | isrSignal tp events => exact h.isrSignal henabled tp events
  | isrBroadcast esp flags => exact h.isrBroadcast henabled esp flags
  | isrTimeout tp => exact h.isrTimeout henabled.1 henabled.2
  | isrExit => exact h.isrExit

theorem Sound.step {idle : τ} {k k' : Kernel τ σ ℓ} {e : KernelEvent τ σ ℓ} (h : k.Sound idle)
    (hstep : k.step idle e = some k') : StepSpec idle k e k' := by
  rw [Kernel.step] at hstep
  split_ifs at hstep with henabled
  obtain ⟨k'', hres, hspec⟩ := h.apply henabled
  cases hres.symm.trans hstep
  exact hspec

omit [DecidableEq σ] [DecidableEq ℓ] in
theorem sound_boot {main idle : τ} (hne : main ≠ idle) :
    (boot main idle : Kernel τ σ ℓ).Sound idle := by
  have hthread : ∀ u, (boot main idle : Kernel τ σ ℓ).thread u =
      if u = main then { pPrio := normalprio, pState := .current }
      else if u = idle then { pPrio := idleprio, pState := .ready } else {} := by
    intro u
    simp only [boot, Function.update_apply]
  have hstate : ∀ u, (boot main idle : Kernel τ σ ℓ).state u =
      if u = main then .current else if u = idle then .ready else .wtstart := by
    intro u
    rw [Kernel.state, hthread]
    split_ifs <;> rfl
  have hprio : ∀ u, (boot main idle : Kernel τ σ ℓ).prio u =
      if u = main then normalprio else if u = idle then idleprio else 0 := by
    intro u
    rw [Kernel.prio, hthread]
    split_ifs <;> rfl
  refine ⟨⟨⟨?_, ?_, ?_, List.nodup_singleton idle, List.pairwise_singleton _ _,
    Or.inl (by simp [boot]), ?_⟩,
    ?_⟩, ?_, fun hin => by simp [boot] at hin⟩
  · rw [hstate]
    exact if_pos rfl
  · intro u hu
    rw [hstate] at hu
    split_ifs at hu with hmain
    exact hmain
  · intro u
    rw [hstate]
    by_cases hmain : u = main
    · simp [boot, hmain, hne]
    · simp [boot, hmain]
  · rw [hprio, if_neg hne.symm, if_pos rfl]
    decide
  · intro u
    rw [hthread]
    split_ifs
    · exact (Thread.ended_of_call_eq_none rfl).consistent (fun hx => by cases hx) (Or.inr rfl)
    · exact (Thread.ended_of_call_eq_none rfl).consistent (fun hx => by cases hx) (Or.inl rfl)
    · exact ⟨rfl, rfl⟩
  · intro _ u hu
    obtain rfl : u = idle := by simpa [boot] using hu
    rw [hprio, hprio, if_neg hne.symm, if_pos rfl]
    change _ ≤ ite (main = main) _ _
    rw [if_pos rfl]
    decide

end Kernel

end SafetyTrolley
