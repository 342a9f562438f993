import SafetyTrolley.Lib.Spacing
import SafetyTrolley.TimerService

/-! The period of chassisControlThd: how far apart its passes start, with its sleep
carried out by the virtual timers, which the rest of the program uses as well. -/

namespace SafetyTrolley

def us2st (usec : UInt32) : Systime := (usec * 50000 + 999999) / 1000000

def chVTIsTimeWithinX (time start stop : Systime) : Bool := time - start < stop - start

inductive ControlPc where
  | created
  | reading
  | working (now next : Systime)
  | sleeping
  deriving DecidableEq, Repr

structure ControlThread (ι : Type*) where
  timers : VirtualTimers ι := {}
  pc : ControlPc := .created
  deriving DecidableEq

/-- A step of the kernel's timers, or of the thread; its call of the kernel takes `lag` ticks. -/
inductive ControlEvent (ι : Type*) where
  | kernel (e : TimerEvent ι)
  | thread (lag : Nat)
  deriving DecidableEq

namespace ControlThread

variable {ι : Type*} [DecidableEq ι]

/-- The call of the kernel's timers that the step makes, `vtp` being the thread's own timer. -/
def timerEvent (vtp : ι) (s : ControlThread ι) : ControlEvent ι → Option (TimerEvent ι)
  | .kernel e => some e
  | .thread lag =>
    match s.pc with
    | .working now next =>
      let time := s.timers.st.stLldGetCounter
      if chVTIsTimeWithinX time now next then some (.set vtp (next - time) lag) else none
    | .created | .reading | .sleeping => none

def nextPc (vtp : ι) (s : ControlThread ι) : ControlEvent ι → ControlPc
  | .kernel _ => s.pc
  | .thread lag =>
    match s.pc with
    | .created | .sleeping => .reading
    | .reading =>
      let now := s.timers.st.stLldGetCounter
      .working now (now + us2st 1000)
    | .working _ _ => if (s.timerEvent vtp (.thread lag)).isSome then .sleeping else .reading

-- The thread's timer is on its stack: nobody else uses it, and only its expiry ends the sleep.
def enabled (vtp : ι) (s : ControlThread ι) : ControlEvent ι → Prop
  | .kernel e => e.sets vtp = false ∧ e.resets vtp = false
  | .thread _ => s.timers.inHandler = false ∧ (s.pc = .sleeping → vtp ∉ s.timers.vtlist.map Prod.fst)

instance (vtp : ι) (s : ControlThread ι) : (e : ControlEvent ι) → Decidable (s.enabled vtp e)
  | .kernel e => inferInstanceAs (Decidable (e.sets vtp = false ∧ e.resets vtp = false))
  | .thread _ => inferInstanceAs (Decidable (s.timers.inHandler = false ∧ (s.pc = .sleeping → _)))

def step (vtp : ι) (s : ControlThread ι) (e : ControlEvent ι) : Option (ControlThread ι) :=
  if s.enabled vtp e then
    match s.timerEvent vtp e with
    | some e' => (s.timers.step e').map fun timers => { timers, pc := s.nextPc vtp e }
    | none => some { s with pc := s.nextPc vtp e }
  else none

/-- The ticks at which passes have started. -/
def starts (s : ControlThread ι) (e : ControlEvent ι) (ts : List Nat) : List Nat :=
  match e, s.pc with
  | .thread _, .reading => ts ++ [s.timers.st.ticks]
  | _, _ => ts

def InRange (vtp : ι) (s : ControlThread ι) (e : ControlEvent ι) : Prop :=
  ∀ e' ∈ s.timerEvent vtp e, s.timers.InRange e'

instance (vtp : ι) (s : ControlThread ι) (e : ControlEvent ι) : Decidable (s.InRange vtp e) :=
  inferInstanceAs (Decidable (∀ e' ∈ s.timerEvent vtp e, s.timers.InRange e'))

/-- The five ways in which a step can go. -/
inductive ControlStep (vtp : ι) (s : ControlThread ι) : ControlEvent ι → ControlThread ι → Prop where
  | kernel {e : TimerEvent ι} {timers : VirtualTimers ι} (hset : e.sets vtp = false)
      (hreset : e.resets vtp = false) (htimers : s.timers.step e = some timers) :
      ControlStep vtp s (.kernel e) { s with timers }
  | init (lag : Nat) (hpc : s.pc = .created) :
      ControlStep vtp s (.thread lag) { s with pc := .reading }
  | wake (lag : Nat) (hpc : s.pc = .sleeping) (hfree : vtp ∉ s.timers.vtlist.map Prod.fst) :
      ControlStep vtp s (.thread lag) { s with pc := .reading }
  | read (lag : Nat) (hpc : s.pc = .reading) :
      ControlStep vtp s (.thread lag)
        { s with pc := .working s.timers.st.stLldGetCounter (s.timers.st.stLldGetCounter + 50) }
  | late (lag : Nat) {now next : Systime} (hpc : s.pc = .working now next)
      (hlate : next - now ≤ s.timers.st.stLldGetCounter - now) :
      ControlStep vtp s (.thread lag) { s with pc := .reading }
  | sleep {lag : Nat} {now next : Systime} {timers : VirtualTimers ι} (hpc : s.pc = .working now next)
      (hwithin : s.timers.st.stLldGetCounter - now < next - now)
      (htimers : s.timers.step (.set vtp (next - s.timers.st.stLldGetCounter) lag) = some timers) :
      ControlStep vtp s (.thread lag) { timers, pc := .sleeping }

theorem step_cases {vtp : ι} {s t : ControlThread ι} {e : ControlEvent ι}
    (h : s.step vtp e = some t) :
    ControlStep vtp s e t := by
  unfold step at h
  split_ifs at h with henabled
  cases e with
  | kernel e =>
    simp only [timerEvent, Option.map_eq_some_iff] at h
    obtain ⟨timers, htimers, rfl⟩ := h
    exact .kernel henabled.1 henabled.2 htimers
  | thread lag =>
    cases hpc : s.pc with
    | created =>
      simp only [timerEvent, nextPc, hpc] at h
      cases h
      exact .init lag hpc
    | reading =>
      simp only [timerEvent, nextPc, hpc] at h
      cases h
      exact .read lag hpc
    | sleeping =>
      simp only [timerEvent, nextPc, hpc] at h
      cases h
      exact .wake lag hpc (henabled.2 hpc)
    | working now next =>
      by_cases hwithin : s.timers.st.stLldGetCounter - now < next - now
      · simp only [timerEvent, nextPc, hpc, chVTIsTimeWithinX, hwithin, decide_true, if_true,
          Option.isSome_some, Option.map_eq_some_iff] at h
        obtain ⟨timers, htimers, rfl⟩ := h
        exact .sleep hpc hwithin htimers
      · simp only [timerEvent, nextPc, hpc, chVTIsTimeWithinX, hwithin, decide_false,
          Bool.false_eq_true, if_false, Option.isSome_none] at h
        cases h
        exact .late lag hpc (UInt32.not_lt.mp hwithin)

/-- The passes so far start at least 50 ticks apart, and so will the next one. -/
structure Paced (vtp : ι) (s : ControlThread ι) (ts : List Nat) : Prop where
  anchored : s.timers.Anchored
  apart : Spacing.Apart 50 ts
  awake : s.pc ≠ .sleeping → vtp ∉ s.timers.vtlist.map Prod.fst
  working : ∀ now next, s.pc = .working now next →
    ∃ t ∈ ts.getLast?, t ≤ s.timers.st.ticks ∧ now = UInt32.ofNat t ∧ next = now + 50
  armed : ∀ deadline, (vtp, deadline) ∈ s.timers.deadlines.armed → ∀ t ∈ ts.getLast?,
    t + 50 ≤ deadline
  ended : s.pc = .reading ∨ s.pc = .sleeping → vtp ∉ s.timers.vtlist.map Prod.fst →
    ∀ t ∈ ts.getLast?, t + 50 ≤ s.timers.st.ticks
  fresh : s.pc = .created → ts = []

/-- What other users of the timers do to the thread's own one: nothing until it is due. -/
theorem own_timer_step {vtp : ι} {s t : VirtualTimers ι} {e : TimerEvent ι}
    (hset : e.sets vtp = false)
    (hreset : e.resets vtp = false) (he : s.deadlines.step e = some t.deadlines) :
    (∀ deadline, (vtp, deadline) ∈ t.deadlines.armed → (vtp, deadline) ∈ s.deadlines.armed) ∧
      ∀ deadline, (vtp, deadline) ∈ s.deadlines.armed → vtp ∉ t.vtlist.map Prod.fst →
        deadline ≤ s.st.ticks := by
  constructor
  · intro deadline hx
    rcases Deadlines.mem_armed_step he hx with ⟨hx, -⟩ | ⟨delay, lag, rfl, -⟩
    · exact hx
    · simp [TimerEvent.sets] at hset
  · intro deadline hx hnot
    rcases Deadlines.armed_step_or_due he hx hreset with hstill | hdue
    · exact absurd (VirtualTimers.mem_vtlist.mpr ⟨deadline, hstill⟩) hnot
    · exact hdue

theorem Paced.kernel {vtp : ι} {s : ControlThread ι} {ts : List Nat} {e : TimerEvent ι}
    {timers : VirtualTimers ι} (h : s.Paced vtp ts) (hr : s.timers.InRange e)
    (hset : e.sets vtp = false)
    (hreset : e.resets vtp = false) (he : s.timers.step e = some timers) :
    Paced vtp { s with timers } ts := by
  obtain ⟨hanchored, hdeadlines⟩ := VirtualTimers.step_deadlines h.anchored hr he
  have hnow : timers.st.ticks = s.timers.st.ticks + e.ticks := Deadlines.now_step hdeadlines
  obtain ⟨hback, hdue⟩ := own_timer_step hset hreset hdeadlines
  refine ⟨hanchored, h.apart, ?_, ?_, fun deadline hx => h.armed deadline (hback deadline hx), ?_,
    h.fresh⟩
  · intro hpc hmem
    obtain ⟨deadline, hx⟩ := VirtualTimers.mem_vtlist.mp hmem
    exact h.awake hpc (VirtualTimers.mem_vtlist.mpr ⟨deadline, hback deadline hx⟩)
  · intro now next hpc
    obtain ⟨t, ht, hle, heq⟩ := h.working now next hpc
    exact ⟨t, ht, by dsimp only; omega, heq⟩
  · intro hpc hnot t ht
    dsimp only at hnot ⊢
    by_cases hmem : vtp ∈ s.timers.vtlist.map Prod.fst
    · obtain ⟨deadline, hx⟩ := VirtualTimers.mem_vtlist.mp hmem
      have hle := h.armed deadline hx t ht
      have := hdue deadline hx hnot
      omega
    · have := h.ended hpc hmem t ht
      omega

/-- The thread's sleep ends no earlier than 50 ticks after its pass has started. -/
theorem sleep_deadline {vtp : ι} {s timers : VirtualTimers ι} {t lag : Nat} {next : Systime}
    (hanchored : s.Anchored) (hle : t ≤ s.st.ticks) (hnext : next = UInt32.ofNat t + 50)
    (hwithin : s.st.stLldGetCounter - UInt32.ofNat t < next - UInt32.ofNat t)
    (hr : s.InRange (.set vtp (next - s.st.stLldGetCounter) lag))
    (he : s.step (.set vtp (next - s.st.stLldGetCounter) lag) = some timers) :
    ∃ deadline, timers.deadlines.armed =
        s.deadlines.armed.orderedInsert (fun x y => x.2 ≤ y.2) (vtp, deadline) ∧
      deadline = s.st.ticks + max (50 - (s.st.ticks - t) % 2 ^ 32) 2 := by
  have hdeadlines := (VirtualTimers.step_deadlines hanchored hr he).2
  simp only [Deadlines.step] at hdeadlines
  split_ifs at hdeadlines
  refine ⟨_, (congrArg Deadlines.armed (Option.some.inj hdeadlines)).symm, ?_⟩
  have hsub := VirtualTimers.toNat_counter_sub hle
  have hfifty : next - UInt32.ofNat t = 50 := by grind
  have hdelay : next - s.st.stLldGetCounter = 50 - (s.st.stLldGetCounter - UInt32.ofNat t) := by grind
  rw [hfifty] at hwithin
  rw [hdelay, UInt32.toNat_sub_of_le _ _ (UInt32.le_of_lt hwithin), hsub]
  rfl

omit [DecidableEq ι] in
theorem timerEvent_sleep {vtp : ι} {s : ControlThread ι} {now next : Systime}
    (hpc : s.pc = .working now next) (hwithin : s.timers.st.stLldGetCounter - now < next - now)
    (lag : Nat) :
    s.timerEvent vtp (.thread lag) = some (.set vtp (next - s.timers.st.stLldGetCounter) lag) := by
  simp only [timerEvent, hpc, chVTIsTimeWithinX, hwithin, decide_true, if_true]

theorem Paced.sleep {vtp : ι} {s : ControlThread ι} {ts : List Nat} {now next : Systime} {lag : Nat}
    {timers : VirtualTimers ι} (h : s.Paced vtp ts) (hpc : s.pc = .working now next)
    (hwithin : s.timers.st.stLldGetCounter - now < next - now)
    (hr : s.timers.InRange (.set vtp (next - s.timers.st.stLldGetCounter) lag))
    (he : s.timers.step (.set vtp (next - s.timers.st.stLldGetCounter) lag) = some timers) :
    Paced vtp { timers, pc := .sleeping } ts := by
  obtain ⟨t, ht, hle, rfl, hnext⟩ := h.working now next hpc
  obtain ⟨deadline, harmed, hdeadline⟩ := sleep_deadline h.anchored hle hnext hwithin hr he
  have hfree := h.awake (by simp [hpc])
  have hmod := Nat.mod_le (s.timers.st.ticks - t) (2 ^ 32)
  have hin : (vtp, deadline) ∈ timers.deadlines.armed := by
    rw [harmed]
    exact (List.mem_orderedInsert _).mpr (Or.inl rfl)
  refine ⟨(VirtualTimers.step_deadlines h.anchored hr he).1, h.apart, by simp, by simp, ?_,
    ?_, by simp⟩
  · intro d hd t' ht'
    cases ht.symm.trans ht'
    rw [harmed] at hd
    rcases (List.mem_orderedInsert _).mp hd with heq | hd
    · cases heq
      omega
    · exact absurd (VirtualTimers.mem_vtlist.mpr ⟨d, hd⟩) hfree
  · intro _ hnot
    exact absurd (VirtualTimers.mem_vtlist.mpr ⟨deadline, hin⟩) hnot

theorem Paced.step {vtp : ι} {s t : ControlThread ι} {ts : List Nat} {e : ControlEvent ι}
    (h : s.Paced vtp ts) (hr : s.InRange vtp e) (he : s.step vtp e = some t) :
    t.Paced vtp (s.starts e ts) := by
  cases step_cases he with
  | kernel hset hreset htimers => exact h.kernel (hr _ rfl) hset hreset htimers
  | init lag hpc =>
    have hts : s.starts (.thread lag) ts = ts := by simp [starts, hpc]
    have hnil := h.fresh hpc
    rw [hts]
    exact ⟨h.anchored, h.apart, fun _ => h.awake (by simp [hpc]), by simp, h.armed, by simp [hnil],
      fun _ => hnil⟩
  | wake lag hpc hfree =>
    have hts : s.starts (.thread lag) ts = ts := by simp [starts, hpc]
    rw [hts]
    exact ⟨h.anchored, h.apart, fun _ => hfree, by simp, h.armed,
      fun _ => h.ended (Or.inr hpc), by simp⟩
  | read lag hpc =>
    have hts : s.starts (.thread lag) ts = ts ++ [s.timers.st.ticks] := by simp [starts, hpc]
    have hfree := h.awake (by simp [hpc])
    rw [hts]
    refine ⟨h.anchored, ?_, fun _ => hfree, ?_, ?_, by simp, by simp⟩
    · refine List.IsChain.append h.apart (List.isChain_singleton _) ?_
      intro x hx y hy
      cases hy
      exact h.ended (Or.inl hpc) hfree x hx
    · intro now next heq
      cases heq
      exact ⟨s.timers.st.ticks, by simp, Nat.le_refl _, rfl, rfl⟩
    · intro deadline hx
      exact absurd (VirtualTimers.mem_vtlist.mpr ⟨deadline, hx⟩) hfree
  | @late lag now next hpc hlate =>
    have hts : s.starts (.thread lag) ts = ts := by simp [starts, hpc]
    obtain ⟨t, ht, hle, rfl, hnext⟩ := h.working now next hpc
    have hsub := VirtualTimers.toNat_counter_sub hle
    have hfifty : next - UInt32.ofNat t = 50 := by grind
    have hmod := Nat.mod_le (s.timers.st.ticks - t) (2 ^ 32)
    rw [hfifty, UInt32.le_iff_toNat_le, hsub] at hlate
    have hfree := h.awake (by simp [hpc])
    rw [hts]
    refine ⟨h.anchored, h.apart, fun _ => hfree, by simp, h.armed, ?_, by simp⟩
    intro _ _ t' ht'
    cases ht.symm.trans ht'
    change 50 ≤ _ at hlate
    dsimp only
    omega
  | @sleep lag now next timers hpc hwithin htimers =>
    have hts : s.starts (.thread lag) ts = ts := by simp [starts, hpc]
    rw [hts]
    exact h.sleep hpc hwithin (hr _ (timerEvent_sleep hpc hwithin lag)) htimers

omit [DecidableEq ι] in
theorem paced_init (vtp : ι) : Paced vtp {} [] := by
  refine ⟨VirtualTimers.anchored_init, List.isChain_nil, by simp, by simp, by simp, by simp, by simp⟩

/-- However the other users of the timers interleave, and however long its passes take,
passes of the thread start at least 50 ticks apart, that is a millisecond. -/
theorem passes_apart {vtp : ι} {es : List (ControlEvent ι)} {s : ControlThread ι} {ts : List Nat}
    (hall : Machine.Always (step vtp) (InRange vtp) {} es)
    (h : Machine.run (Machine.watch (step vtp) starts) ({}, []) es = some (s, ts)) :
    Spacing.Apart 50 ts ∧
      ∀ start width, ts.countP (fun t => start ≤ t ∧ t < start + width) ≤ width / 50 + 1 := by
  have hpaced := Machine.run_induction_of_always
    (P := fun _ (x : ControlThread ι × List Nat) => x.1.Paced vtp x.2) (paced_init vtp) ?_
    (hall.watch starts) h
  · exact ⟨hpaced.apart, fun start width => hpaced.apart.countP_window (by omega) start width⟩
  · rintro - x e y - hx hr he
    obtain ⟨hst, hnext⟩ := Machine.watch_eq_some.mp he
    rw [hnext]
    exact hx.step hr hst

/-- Two passes of the thread, and the sleep between them. -/
def twoPasses : List (ControlEvent Nat) :=
  [.thread 0, .thread 0, .kernel .tick, .thread 1] ++ List.replicate 48 (.kernel .tick) ++
    [.kernel .irq, .kernel (.handler 0), .kernel (.handler 0), .thread 0, .thread 0]

theorem starts_twoPasses :
    (Machine.run (Machine.watch (step 0) starts) ({}, []) twoPasses).map Prod.snd = some [0, 50] := by
  decide +kernel

theorem inRange_twoPasses : Machine.Always (step 0) (InRange 0) {} twoPasses := by decide +kernel

theorem passes_apart_twoPasses :
    ∃ s, Machine.run (Machine.watch (step 0) starts) ({}, []) twoPasses = some (s, [0, 50]) ∧
      Spacing.Apart 50 [0, 50] ∧
        ∀ start width, [0, 50].countP (fun t => start ≤ t ∧ t < start + width) ≤ width / 50 + 1 := by
  obtain ⟨⟨s, ts⟩, hrun, rfl⟩ := Option.map_eq_some_iff.mp starts_twoPasses
  exact ⟨s, hrun, passes_apart inRange_twoPasses hrun⟩

def mayWait (vtp : ι) (s : ControlThread ι) (ticks : Nat) : Bool :=
  match s.pc with
  | .created => true
  | .reading => false
  | .working now _ => (s.timers.st.stLldGetCounter - now).toNat + ticks ≤ 48
  | .sleeping => vtp ∈ s.timers.vtlist.map Prod.fst

/-- The thread gets the processor as soon as it is ready, and its pass takes at most 48 ticks. -/
def OnCpu (vtp : ι) (s : ControlThread ι) : ControlEvent ι → Prop
  | .kernel e => 0 < e.ticks → s.mayWait vtp e.ticks
  | .thread _ => True

instance (vtp : ι) (s : ControlThread ι) : (e : ControlEvent ι) → Decidable (s.OnCpu vtp e)
  | .kernel e => inferInstanceAs (Decidable (0 < e.ticks → s.mayWait vtp e.ticks))
  | .thread _ => inferInstanceAs (Decidable True)

def Prompt (vtp : ι) (s : ControlThread ι) (e : ControlEvent ι) : Prop :=
  ∀ e' ∈ s.timerEvent vtp e, s.timers.Prompt e'

instance (vtp : ι) (s : ControlThread ι) (e : ControlEvent ι) : Decidable (s.Prompt vtp e) :=
  inferInstanceAs (Decidable (∀ e' ∈ s.timerEvent vtp e, s.timers.Prompt e'))

/-- The next pass starts no later than 51 ticks after the last one. -/
structure Steady (vtp : ι) (s : ControlThread ι) (ts : List Nat) : Prop where
  paced : s.Paced vtp ts
  alarmed : s.timers.Alarmed
  onTime : s.timers.OnTime
  close : ts.IsChain (fun a b => a + 50 ≤ b ∧ b ≤ a + 51)
  working : ∀ now next, s.pc = .working now next → ∀ t ∈ ts.getLast?, s.timers.st.ticks ≤ t + 48
  armed : ∀ deadline, (vtp, deadline) ∈ s.timers.deadlines.armed → ∀ t ∈ ts.getLast?,
    deadline = t + 50
  ended : s.pc = .reading ∨ s.pc = .sleeping → vtp ∉ s.timers.vtlist.map Prod.fst →
    ∀ t ∈ ts.getLast?, s.timers.st.ticks ≤ t + 51

theorem Steady.kernel {vtp : ι} {s : ControlThread ι} {ts : List Nat} {e : TimerEvent ι}
    {timers : VirtualTimers ι} (h : s.Steady vtp ts) (hr : s.timers.InRange e)
    (hp : s.timers.Prompt e)
    (hcpu : s.OnCpu vtp (.kernel e)) (hset : e.sets vtp = false) (hreset : e.resets vtp = false)
    (he : s.timers.step e = some timers) : Steady vtp { s with timers } ts := by
  obtain ⟨hanchored, hdeadlines⟩ := VirtualTimers.step_deadlines h.paced.anchored hr he
  have hnow : timers.st.ticks = s.timers.st.ticks + e.ticks := Deadlines.now_step hdeadlines
  obtain ⟨hback, hdue⟩ := own_timer_step hset hreset hdeadlines
  have honTime := h.onTime.step h.paced.anchored h.alarmed hr hp he
  refine ⟨h.paced.kernel hr hset hreset he,
    VirtualTimers.step_alarmed h.paced.anchored h.alarmed hr he,
    honTime, h.close, ?_, fun deadline hx => h.armed deadline (hback deadline hx), ?_⟩
  · intro now next hpc t ht
    dsimp only at hpc ⊢
    have hbefore := h.working now next hpc t ht
    by_cases hpos : 0 < e.ticks
    · have hle := hcpu hpos
      obtain ⟨t', ht', hstart, rfl, -⟩ := h.paced.working now next hpc
      cases ht.symm.trans ht'
      simp only [mayWait, hpc, VirtualTimers.toNat_counter_sub hstart, decide_eq_true_eq] at hle
      omega
    · omega
  · intro hpc hnot t ht
    dsimp only at hpc hnot ⊢
    by_cases hmem : vtp ∈ s.timers.vtlist.map Prod.fst
    · obtain ⟨deadline, hx⟩ := VirtualTimers.mem_vtlist.mp hmem
      have heq := h.armed deadline hx t ht
      by_cases hpos : 0 < e.ticks
      · have hle := hp.ticks_le h.alarmed hr hpos hx
        dsimp only at hle
        omega
      · have hle := h.onTime _ hx
        dsimp only at hle
        omega
    · have hbefore := h.ended hpc hmem t ht
      have hquiet : e.ticks = 0 := by
        by_contra hpos
        have hready := hcpu (Nat.pos_of_ne_zero hpos)
        rcases hpc with hpc | hpc
        · simp [mayWait, hpc] at hready
        · simp only [mayWait, hpc, decide_eq_true_eq] at hready
          exact hmem hready
      omega

theorem Steady.sleep {vtp : ι} {s : ControlThread ι} {ts : List Nat} {now next : Systime} {lag : Nat}
    {timers : VirtualTimers ι} (h : s.Steady vtp ts) (hpc : s.pc = .working now next)
    (hwithin : s.timers.st.stLldGetCounter - now < next - now)
    (hr : s.timers.InRange (.set vtp (next - s.timers.st.stLldGetCounter) lag))
    (hp : s.timers.Prompt (.set vtp (next - s.timers.st.stLldGetCounter) lag))
    (he : s.timers.step (.set vtp (next - s.timers.st.stLldGetCounter) lag) = some timers) :
    Steady vtp { timers, pc := .sleeping } ts := by
  have hpaced := h.paced.sleep hpc hwithin hr he
  obtain ⟨t, ht, hle, rfl, hnext⟩ := h.paced.working now next hpc
  have hbefore := h.working _ next hpc t ht
  obtain ⟨deadline, harmed, hdeadline⟩ := sleep_deadline h.paced.anchored hle hnext hwithin hr he
  have hfree := h.paced.awake (by simp [hpc])
  have hin : (vtp, deadline) ∈ timers.deadlines.armed := by
    rw [harmed]
    exact (List.mem_orderedInsert _).mpr (Or.inl rfl)
  refine ⟨hpaced, VirtualTimers.step_alarmed h.paced.anchored h.alarmed hr he,
    h.onTime.step h.paced.anchored h.alarmed hr hp he, h.close, by simp, ?_, ?_⟩
  · intro d hd t' ht'
    cases ht.symm.trans ht'
    rw [harmed] at hd
    rcases (List.mem_orderedInsert _).mp hd with heq | hd
    · cases heq
      rw [hdeadline, Nat.mod_eq_of_lt (by omega)]
      omega
    · exact absurd (VirtualTimers.mem_vtlist.mpr ⟨d, hd⟩) hfree
  · intro _ hnot
    exact absurd (VirtualTimers.mem_vtlist.mpr ⟨deadline, hin⟩) hnot

theorem Steady.step {vtp : ι} {s t : ControlThread ι} {ts : List Nat} {e : ControlEvent ι}
    (h : s.Steady vtp ts) (hr : s.InRange vtp e) (hp : s.Prompt vtp e) (hcpu : s.OnCpu vtp e)
    (he : s.step vtp e = some t) : t.Steady vtp (s.starts e ts) := by
  have hpaced := h.paced.step hr he
  cases step_cases he with
  | kernel hset hreset htimers => exact h.kernel (hr _ rfl) (hp _ rfl) hcpu hset hreset htimers
  | init lag hpc =>
    have hts : s.starts (.thread lag) ts = ts := by simp [starts, hpc]
    have hnil := h.paced.fresh hpc
    rw [hts] at hpaced ⊢
    exact ⟨hpaced, h.alarmed, h.onTime, h.close, by simp, h.armed, by simp [hnil]⟩
  | wake lag hpc hfree =>
    have hts : s.starts (.thread lag) ts = ts := by simp [starts, hpc]
    rw [hts] at hpaced ⊢
    exact ⟨hpaced, h.alarmed, h.onTime, h.close, by simp, h.armed, fun _ => h.ended (Or.inr hpc)⟩
  | read lag hpc =>
    have hts : s.starts (.thread lag) ts = ts ++ [s.timers.st.ticks] := by simp [starts, hpc]
    have hfree := h.paced.awake (by simp [hpc])
    rw [hts] at hpaced ⊢
    refine ⟨hpaced, h.alarmed, h.onTime, ?_, by simp, ?_, by simp⟩
    · refine h.close.append (List.isChain_singleton _) ?_
      intro x hx y hy
      cases hy
      exact ⟨h.paced.ended (Or.inl hpc) hfree x hx, h.ended (Or.inl hpc) hfree x hx⟩
    · intro deadline hx
      exact absurd (VirtualTimers.mem_vtlist.mpr ⟨deadline, hx⟩) hfree
  | @late lag now next hpc hlate =>
    -- A pass of at most 48 ticks is never too late for its sleep.
    obtain ⟨t, ht, hle, rfl, hnext⟩ := h.paced.working now next hpc
    have hbefore := h.working _ next hpc t ht
    have hfifty : next - UInt32.ofNat t = 50 := by grind
    rw [hfifty, UInt32.le_iff_toNat_le, VirtualTimers.toNat_counter_sub hle,
      Nat.mod_eq_of_lt (by omega)] at hlate
    change 50 ≤ _ at hlate
    omega
  | @sleep lag now next timers hpc hwithin htimers =>
    have hts : s.starts (.thread lag) ts = ts := by simp [starts, hpc]
    have hevent : s.timerEvent vtp (.thread lag) = some
        (.set vtp (next - s.timers.st.stLldGetCounter) lag) :=
      timerEvent_sleep hpc hwithin lag
    rw [hts]
    exact h.sleep hpc hwithin (hr _ hevent) (hp _ hevent) htimers

end ControlThread

end SafetyTrolley
