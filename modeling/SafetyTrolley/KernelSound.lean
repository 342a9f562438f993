import SafetyTrolley.SchedulerOrder

/-! What each call of the kernel does to the threads: none of its assertions fails, and
no thread waits for events that it already has. -/

namespace SafetyTrolley

/-- A thread in a wait for events, which are not there. -/
structure Thread.Awaits (th : Thread) (kind : WaitKind) (events : BitVec 32) (time : Option Systime) :
    Prop where
  call : th.call = some (.events kind events time)
  pState : th.pState = kind.newstate
  pU : th.pU = events
  missing : kind.satisfied th.pEpending events = false
  timed : th.vtArmed = true → time.isSome = true

/-- The wait of the thread has ended, by its timeout or because the events are there. -/
def Thread.Ended (th : Thread) : Prop :=
  ∀ kind events time, th.call = some (.events kind events time) →
    (time.isSome = true ∧ th.pU = msgTimeout) ∨
      (th.pU = msgOk ∧ kind.satisfied th.pEpending events = true)

/-- What a thread keeps of its call agrees with its state. -/
def Thread.Consistent (th : Thread) : Prop :=
  match th.pState with
  | .wtstart => th.call = none ∧ th.vtArmed = false
  | .sleeping => th.call = some .sleep
  | .wtorevt | .wtandevt => ∃ kind events time, th.Awaits kind events time
  | .ready | .current => th.Ended ∧ (th.vtArmed = true → th.call ≠ none)

namespace Thread

theorem Consistent.ended {th : Thread} (h : th.Consistent)
    (hrun : th.pState = .ready ∨ th.pState = .current) :
    th.Ended ∧ (th.vtArmed = true → th.call ≠ none) := by
  rcases hrun with hrun | hrun <;> simpa only [Consistent, hrun] using h

theorem Consistent.awaits {th : Thread} (h : th.Consistent)
    (hwait : th.pState = .wtorevt ∨ th.pState = .wtandevt) :
    ∃ kind events time, th.Awaits kind events time := by
  rcases hwait with hwait | hwait <;> simpa only [Consistent, hwait] using h

theorem Consistent.missing {th : Thread} (h : th.Consistent) {kind : WaitKind} {events : BitVec 32}
    {time : Option Systime} (hcall : th.call = some (.events kind events time))
    (hwaits : th.pState.waits = true) :
    kind.satisfied th.pEpending events = false := by
  cases hs : th.pState with
  | wtstart | ready | current => simp [hs, ThreadState.waits] at hwaits
  | sleeping =>
    have hsleep : th.call = some .sleep := by simpa only [Consistent, hs] using h
    cases hcall.symm.trans hsleep
  | wtorevt | wtandevt =>
    obtain ⟨kind', events', time', haw⟩ := h.awaits (by simp [hs])
    obtain ⟨rfl, rfl, rfl⟩ := by simpa using hcall.symm.trans haw.call
    exact haw.missing

theorem Ended.consistent {th : Thread} (h : th.Ended) (harmed : th.vtArmed = true → th.call ≠ none)
    (hrun : th.pState = .ready ∨ th.pState = .current) : th.Consistent := by
  rcases hrun with hrun | hrun <;> simp only [Consistent, hrun] <;> exact ⟨h, harmed⟩

theorem Awaits.consistent {th : Thread} {kind : WaitKind} {events : BitVec 32} {time : Option Systime}
    (h : th.Awaits kind events time) : th.Consistent := by
  have hstate := h.pState
  cases kind <;> simp only [Consistent, hstate, WaitKind.newstate] <;> exact ⟨_, _, _, h⟩

theorem ended_of_call_eq_none {th : Thread} (h : th.call = none) : th.Ended := by
  intro kind events time hcall
  rw [h] at hcall
  cases hcall

/-- Between ready and current a thread changes nothing else. -/
theorem Consistent.setRun {th : Thread} (h : th.Consistent)
    (hrun : th.pState = .ready ∨ th.pState = .current) {state : ThreadState}
    (hstate : state = .ready ∨ state = .current) :
    ({ th with pState := state } : Thread).Consistent := by
  obtain ⟨hended, harmed⟩ := h.ended hrun
  exact Ended.consistent hended harmed hstate

end Thread

theorem WaitKind.satisfied_or {kind : WaitKind} {pending events : BitVec 32}
    (h : kind.satisfied pending events = true) (more : BitVec 32) :
    kind.satisfied (pending ||| more) events = true := by
  cases kind with
  | one | any =>
    simp only [satisfied, decide_eq_true_eq, BitVec.and_or_distrib_right] at h ⊢
    intro hzero
    exact h (BitVec.or_eq_zero_iff.mp hzero).1
  | all =>
    simp only [satisfied, decide_eq_true_eq, BitVec.and_or_distrib_right] at h ⊢
    rw [h]
    ext i
    simp +contextual

namespace Thread

theorem awaited_iff {th : Thread} {kind : WaitKind} (hstate : th.pState = kind.newstate) :
    Kernel.awaited th = kind.satisfied th.pEpending th.pU := by
  cases kind <;> simp [Kernel.awaited, WaitKind.satisfied, hstate, WaitKind.newstate]

theorem not_awaited {th : Thread} (hor : th.pState ≠ .wtorevt) (hand : th.pState ≠ .wtandevt) :
    Kernel.awaited th = false := by
  simp [Kernel.awaited, hor, hand]

/-- More events leave a thread as it is, or end its wait. -/
theorem Consistent.signal {th th' : Thread} (h : th.Consistent) (events : BitVec 32)
    (heq : th' = { th with pEpending := th.pEpending ||| events }) :
    if Kernel.awaited th' then
      (th.pState = .wtorevt ∨ th.pState = .wtandevt) ∧
        ({ th' with pU := msgOk, pState := .ready } : Thread).Consistent
    else th'.Consistent := by
  by_cases hwait : th.pState = .wtorevt ∨ th.pState = .wtandevt
  · obtain ⟨kind, want, time, haw⟩ := h.awaits hwait
    obtain ⟨hcall, hstate, hpU, -, htimed⟩ := haw
    have hpU' : th'.pU = want := by rw [heq, hpU]
    have hstate' : th'.pState = kind.newstate := by rw [heq, hstate]
    have hcall' : th'.call = some (.events kind want time) := by rw [heq, hcall]
    rw [awaited_iff hstate', hpU']
    split_ifs with hsat
    · refine ⟨hwait, Ended.consistent ?_ (fun _ => by simp [hcall']) (Or.inl rfl)⟩
      intro kind' events' time' heq'
      obtain ⟨rfl, rfl, rfl⟩ := by simpa using hcall'.symm.trans heq'
      exact Or.inr ⟨rfl, hsat⟩
    · refine Awaits.consistent ⟨hcall', hstate', hpU', by simpa using hsat, ?_⟩
      rw [heq]
      exact htimed
  · obtain ⟨hor, hand⟩ := not_or.mp hwait
    have hnot : Kernel.awaited th' = false := not_awaited (by simp [heq, hor]) (by simp [heq, hand])
    rw [hnot, if_neg Bool.false_ne_true]
    cases hs : th.pState with
    | wtorevt => exact absurd hs hor
    | wtandevt => exact absurd hs hand
    | wtstart | sleeping => simpa only [Consistent, heq, hs] using h
    | ready | current =>
      obtain ⟨hended, harmed⟩ := h.ended (by simp [hs])
      refine Ended.consistent ?_ (by simpa [heq] using harmed) (by simp [heq, hs])
      intro kind' events' time' hcall
      rw [heq] at hcall ⊢
      exact (hended kind' events' time' hcall).imp id fun hok =>
        ⟨hok.1, WaitKind.satisfied_or hok.2 events⟩

end Thread

namespace Kernel

variable {τ σ ℓ : Type*} [DecidableEq τ]

structure Coherent (idle : τ) (k : Kernel τ σ ℓ) : Prop where
  ranked : k.Ranked idle
  consistent : ∀ tp, (k.thread tp).Consistent

/-- What holds between two steps. In an interrupt the current thread is not in a call. -/
structure Sound (idle : τ) (k : Kernel τ σ ℓ) : Prop where
  coherent : k.Coherent idle
  top : k.inIsr = false → k.Top
  isr : k.inIsr = true → (k.thread k.current).call = none

theorem forall_update {P : Thread → Prop} {thread : τ → Thread} (h : ∀ u, P (thread u)) {tp : τ}
    {th : Thread} (hth : P th) (u : τ) : P (Function.update thread tp th u) := by
  by_cases hu : u = tp
  · subst hu
    rwa [Function.update_self]
  · rw [Function.update_of_ne hu]
    exact h u

theorem Coherent.modify {idle tp : τ} {k : Kernel τ σ ℓ} (h : k.Coherent idle) {f : Thread → Thread}
    (hprio : (f (k.thread tp)).pPrio = (k.thread tp).pPrio)
    (hstate : (f (k.thread tp)).pState = (k.thread tp).pState) (hth : (f (k.thread tp)).Consistent) :
    (k.modify tp f).Coherent idle :=
  ⟨h.ranked.modify hprio hstate, forall_update h.consistent hth⟩

/-- A thread changed and then made ready. -/
theorem Coherent.ready {idle tp : τ} {k : Kernel τ σ ℓ} (h : k.Coherent idle) {f : Thread → Thread}
    (hwaits : (k.state tp).waits = true)
    (hprio : (f (k.thread tp)).pPrio = (k.thread tp).pPrio)
    (hstate : (f (k.thread tp)).pState = (k.thread tp).pState)
    (hcall : (f (k.thread tp)).call = (k.thread tp).call)
    (hth : ({ f (k.thread tp) with pState := .ready } : Thread).Consistent) :
    ∃ k', (k.modify tp f).chSchReadyI tp = some k' ∧ k'.Coherent idle ∧ k.Stays k' ∧
      ∀ u, (k'.thread u).pEpending = ((k.modify tp f).thread u).pEpending := by
  have hranked : (k.modify tp f).Ranked idle := h.ranked.modify hprio hstate
  have hstate' : (k.modify tp f).state tp = k.state tp := by rw [state_modify hstate]
  have hready : (k.modify tp f).state tp ≠ .ready := by
    intro heq
    rw [← hstate', heq] at hwaits
    cases hwaits
  have hcurrent : (k.modify tp f).state tp ≠ .current := by
    intro heq
    rw [← hstate', heq] at hwaits
    cases hwaits
  obtain ⟨k', hres, hranked', hthread, -⟩ := hranked.chSchReadyI hready hcurrent
  obtain ⟨hstays, hpending⟩ := hranked.stays_chSchReadyI hres
  refine ⟨k', hres, ⟨hranked', ?_⟩, (stays_modify hprio hstate hcall).trans hstays, hpending⟩
  rw [hthread]
  intro u
  by_cases hu : u = tp
  · subst hu
    rw [Function.update_self, thread_modify_self]
    exact hth
  · rw [Function.update_of_ne hu, thread_modify_of_ne k f hu]
    exact h.consistent u

theorem modify_modify (k : Kernel τ σ ℓ) (tp : τ) (f g : Thread → Thread) :
    (k.modify tp f).modify tp g = k.modify tp fun th => g (f th) := by
  simp [Kernel.modify, Function.update_idem]

theorem pEpending_modify (k : Kernel τ σ ℓ) (tp u : τ) (f : Thread → Thread) :
    ((k.modify tp f).thread u).pEpending =
      if u = tp then (f (k.thread tp)).pEpending else (k.thread u).pEpending := by
  split_ifs with hu
  · rw [hu, thread_modify_self]
  · rw [thread_modify_of_ne k f hu]

theorem Coherent.chEvtSignalI {idle : τ} {k : Kernel τ σ ℓ} (h : k.Coherent idle) (tp : τ)
    (events : BitVec 32) :
    ∃ k', k.chEvtSignalI tp events = some k' ∧ k'.Coherent idle ∧ k.Stays k' ∧
      ∀ u, (k'.thread u).pEpending = (k.thread u).pEpending ||| (if u = tp then events else 0) := by
  have hsignal := (h.consistent tp).signal events rfl
  have hpending : ∀ u,
      (if u = tp then (k.thread tp).pEpending ||| events else (k.thread u).pEpending) =
      (k.thread u).pEpending ||| (if u = tp then events else 0) := by
    intro u
    split_ifs with hu
    · rw [hu]
    · simp
  unfold Kernel.chEvtSignalI
  simp only [thread_modify_self]
  split_ifs at hsignal ⊢ with haw
  · obtain ⟨hwait, hth⟩ := hsignal
    have hwaits : (k.state tp).waits = true := by
      rcases hwait with hwait | hwait <;> rw [Kernel.state, hwait] <;> rfl
    rw [modify_modify]
    obtain ⟨k', hres, hcoherent, hstays, hp⟩ := h.ready
      (f := fun th => { th with pEpending := th.pEpending ||| events, pU := msgOk })
      hwaits rfl rfl rfl hth
    refine ⟨k', hres, hcoherent, hstays, fun u => ?_⟩
    rw [hp, pEpending_modify]
    exact hpending u
  · refine ⟨_, rfl, h.modify rfl rfl hsignal, stays_modify rfl rfl rfl, fun u => ?_⟩
    rw [pEpending_modify]
    exact hpending u

/-- The events that a broadcast makes pending for a thread. -/
def signals (flags : BitVec 32) (u : τ) (listeners : List (Listener τ ℓ)) : BitVec 32 :=
  (listeners.filter fun elp => signalled flags elp ∧ elp.elListener = u).foldr
    (fun elp events => elp.elEvents ||| events) 0

theorem Coherent.signalAll {idle : τ} {k : Kernel τ σ ℓ} (h : k.Coherent idle) (flags : BitVec 32)
    (listeners : List (Listener τ ℓ)) :
    ∃ k', Kernel.signalAll flags listeners k = some k' ∧ k'.Coherent idle ∧ k.Stays k' ∧
      ∀ u, (k'.thread u).pEpending = (k.thread u).pEpending ||| signals flags u listeners := by
  induction listeners generalizing k with
  | nil => exact ⟨k, rfl, h, Stays.refl k, fun u => by simp [signals]⟩
  | cons elp rest ih =>
    rw [Kernel.signalAll]
    split_ifs with hsig
    · obtain ⟨k₁, hres₁, h₁, hstays₁, hp₁⟩ := h.chEvtSignalI elp.elListener elp.elEvents
      obtain ⟨k', hres, hcoherent, hstays, hp⟩ := ih h₁
      refine ⟨k', by rw [hres₁]; exact hres, hcoherent, hstays₁.trans hstays, fun u => ?_⟩
      rw [hp, hp₁, BitVec.or_assoc]
      congr 1
      by_cases hu : elp.elListener = u
      · simp [signals, hsig, hu]
      · simp [signals, hu, Ne.symm hu]
    · obtain ⟨k', hres, hcoherent, hstays, hp⟩ := ih h
      refine ⟨k', hres, hcoherent, hstays, fun u => ?_⟩
      rw [hp]
      simp [signals, hsig]

omit [DecidableEq τ] in
/-- The scheduler reads no listener. -/
theorem Coherent.setListeners {idle : τ} {k : Kernel τ σ ℓ} (h : k.Coherent idle)
    (esNext : σ → List (Listener τ ℓ)) : ({ k with esNext } : Kernel τ σ ℓ).Coherent idle := by
  obtain ⟨⟨h1, h2, h3, h4, h5, h6, h7⟩, hc⟩ := h
  exact ⟨⟨h1, h2, h3, h4, h5, h6, h7⟩, hc⟩

omit [DecidableEq τ] in
theorem Ahead.setListeners {u v : τ} {k : Kernel τ σ ℓ} (h : Ahead u v k)
    (esNext : σ → List (Listener τ ℓ)) :
    Ahead u v { k with esNext } := ⟨h.ready, h.prio, h.behind⟩

theorem GivesWay.coherent {idle tp : τ} {k k' : Kernel τ σ ℓ} (h : k.Coherent idle)
    (hway : k.GivesWay k' tp) (hranked : k'.Ranked idle) : k'.Coherent idle := by
  refine ⟨hranked, ?_⟩
  obtain ⟨rest, hlist, -⟩ := hway.queue
  have hready : k.state tp = .ready := (h.ranked.ready tp).mp (by simp [hlist])
  rw [hway.thread]
  refine forall_update (forall_update h.consistent ?_) ?_
  · exact (h.consistent tp).setRun (Or.inl hready) (Or.inr rfl)
  · exact (h.consistent k.current).setRun (Or.inr h.ranked.running) (Or.inl rfl)

theorem Coherent.reschedule {idle : τ} {k : Kernel τ σ ℓ} (h : k.Coherent idle) :
    ∃ k', (if k.prio k.current < k.firstprio then k.chSchDoRescheduleAhead else some k) = some k' ∧
      k'.Coherent idle ∧ k'.Top ∧ k.Switches k' := by
  obtain ⟨k', hres, hranked, htop, rfl | ⟨tp, hway⟩⟩ := h.ranked.reschedule
  · exact ⟨k', hres, h, htop, Switches.refl k'⟩
  · exact ⟨k', hres, hway.coherent h hranked, htop, hway.switches h.ranked⟩

theorem Coherent.chSchDoYieldS {idle : τ} {k : Kernel τ σ ℓ} (h : k.Coherent idle) (htop : k.Top) :
    ∃ k', k.chSchDoYieldS = some k' ∧ k'.Coherent idle ∧ k'.Top ∧ k.Switches k' := by
  obtain ⟨k', hres, hranked, htop', rfl | ⟨tp, hway⟩⟩ := h.ranked.chSchDoYieldS htop
  · exact ⟨k', hres, h, htop', Switches.refl k'⟩
  · exact ⟨k', hres, hway.coherent h hranked, htop', hway.switches h.ranked⟩

/-- The current thread is changed and then waits. -/
theorem Coherent.goSleep {idle : τ} {k : Kernel τ σ ℓ} (h : k.Coherent idle) (hne : k.current ≠ idle)
    {f : Thread → Thread} {newstate : ThreadState} (hwaits : newstate.waits = true)
    (hprio : (f (k.thread k.current)).pPrio = (k.thread k.current).pPrio)
    (hstate : (f (k.thread k.current)).pState = (k.thread k.current).pState)
    (hth : ({ f (k.thread k.current) with pState := newstate } : Thread).Consistent) :
    ∃ k', (k.modify k.current f).chSchGoSleepS newstate = some k' ∧ k'.Coherent idle ∧ k'.Top ∧
      (k.modify k.current f).Switches k' := by
  have hranked : (k.modify k.current f).Ranked idle := h.ranked.modify hprio hstate
  have hnew : newstate ≠ .current := by
    rintro rfl
    cases hwaits
  have hwait : newstate ≠ .ready := by
    rintro rfl
    cases hwaits
  obtain ⟨tp, k', hres, hranked', htop, htp, hthread, -⟩ := hranked.chSchGoSleepS hne hnew hwait
  refine ⟨k', hres, ⟨hranked', ?_⟩, htop, hranked.switches_chSchGoSleepS hres⟩
  have hready : k.state tp = .ready := (h.ranked.ready tp).mp htp
  have htpcur : tp ≠ k.current := by
    rintro rfl
    rw [h.ranked.running] at hready
    cases hready
  have hother : (k.modify k.current f).thread tp = k.thread tp := thread_modify_of_ne k f htpcur
  rw [hthread, hother, current_modify, thread_modify_self]
  refine forall_update ?_ ((h.consistent tp).setRun (Or.inl hready) (Or.inr rfl))
  intro u
  by_cases hu : u = k.current
  · subst hu
    rw [Function.update_self]
    exact hth
  · rw [Function.update_of_ne hu, thread_modify_of_ne k f hu]
    exact h.consistent u

/-- A thread that is initialized for its start, and started. -/
theorem Coherent.create {idle ntp : τ} {k : Kernel τ σ ℓ} (h : k.Coherent idle) (htop : k.Top)
    (hstart : k.state ntp = .wtstart) (prio : Nat) :
    ∃ k', k.chThdCreateStatic ntp prio = some k' ∧ k'.Coherent idle ∧ k'.Top ∧
      (k.modify ntp fun _ => threadInit prio).Switches k' := by
  have hranked := h.ranked.threadInit hstart prio
  have htop₁ := h.ranked.top_threadInit hstart prio htop
  have hstart₁ : (k.modify ntp fun _ => threadInit prio).state ntp = .wtstart := by
    rw [Kernel.state, thread_modify_self]
    rfl
  have hconsistent : ∀ u, ((k.modify ntp fun _ => threadInit prio).thread u).Consistent :=
    forall_update h.consistent ⟨rfl, rfl⟩
  obtain ⟨k', hres, hranked', htop', -, -, -, hcases⟩ := hranked.chSchWakeupS htop₁ hstart₁ msgOk
  obtain ⟨k'', hres'', -, -, hswitch⟩ := hranked.switches_chSchWakeupS htop₁ hstart₁ msgOk
  cases hres.symm.trans hres''
  refine ⟨k', hres, ⟨hranked', ?_⟩, htop', hswitch⟩
  rw [thread_modify_self] at hcases
  have hnew : ∀ state, state = .ready ∨ state = .current →
      ({ threadInit prio with pU := msgOk, pState := state } : Thread).Consistent :=
        fun state hstate =>
    (Thread.ended_of_call_eq_none rfl).consistent (fun hx => by cases hx) hstate
  rcases hcases with ⟨-, -, -, hthread⟩ | ⟨-, -, -, hthread⟩ <;> rw [hthread]
  · exact forall_update hconsistent (hnew .ready (Or.inl rfl))
  · refine forall_update (forall_update hconsistent ?_) (hnew .current (Or.inr rfl))
    exact (hconsistent _).setRun (Or.inr hranked.running) (Or.inl rfl)

omit [DecidableEq τ] in
theorem Coherent.sound {idle : τ} {k : Kernel τ σ ℓ} (h : k.Coherent idle) (htop : k.Top)
    (hisr : k.inIsr = false) : k.Sound idle :=
  ⟨h, fun _ => htop, fun hin => by simp [hisr] at hin⟩

omit [DecidableEq τ] in
theorem Sound.stays {idle : τ} {k k' : Kernel τ σ ℓ} (h : k.Sound idle) (hin : k.inIsr = true)
    (hcoherent : k'.Coherent idle) (hstays : k.Stays k') : k'.Sound idle := by
  refine ⟨hcoherent, ?_, ?_⟩
  · intro hout
    rw [hstays.inIsr, hin] at hout
    cases hout
  · intro _
    rw [hstays.current, hstays.call]
    exact h.isr hin

omit [DecidableEq τ] in
theorem Switches.pEpending {k k' : Kernel τ σ ℓ} (h : k.Switches k') (u : τ) :
    (k'.thread u).pEpending = (k.thread u).pEpending := by
  obtain ⟨pState, pU, heq⟩ := h.thread u
  rw [heq]

end Kernel

end SafetyTrolley
