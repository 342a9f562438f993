import SafetyTrolley.SchedulerInvariant

/-! What the scheduler's calls leave alone: the order of the threads on the ready list,
and of those that will come behind them, is part of it. -/

namespace SafetyTrolley

def ThreadState.waits : ThreadState → Bool
  | .sleeping | .wtorevt | .wtandevt => true
  | .wtstart | .ready | .current => false

namespace Kernel

variable {τ σ ℓ : Type*}

/-- A ready thread that runs before another one of no higher priority, which waits or
stands behind it. -/
structure Ahead (u v : τ) (k : Kernel τ σ ℓ) : Prop where
  ready : u ∈ k.rQueue
  prio : k.prio v ≤ k.prio u
  behind : (k.state v).waits = true ∨ List.Sublist [u, v] k.rQueue

/-- An operation on the other threads, by which the current one goes on. -/
structure Stays (k k' : Kernel τ σ ℓ) : Prop where
  current : k'.current = k.current
  inIsr : k'.inIsr = k.inIsr
  esNext : k'.esNext = k.esNext
  call : ∀ u, (k'.thread u).call = (k.thread u).call
  ahead : ∀ u v, Ahead u v k → Ahead u v k'

/-- A change of the current thread, if any. -/
structure Switches (k k' : Kernel τ σ ℓ) : Prop where
  inIsr : k'.inIsr = k.inIsr
  esNext : k'.esNext = k.esNext
  thread : ∀ u, ∃ pState pU, k'.thread u = { k.thread u with pState, pU }
  ahead : ∀ u v, Ahead u v k → k'.current = u ∨ Ahead u v k'

theorem Stays.refl (k : Kernel τ σ ℓ) : k.Stays k := ⟨rfl, rfl, rfl, fun _ => rfl, fun _ _ h => h⟩

theorem Stays.trans {k₁ k₂ k₃ : Kernel τ σ ℓ} (h : k₁.Stays k₂) (h' : k₂.Stays k₃) : k₁.Stays k₃ :=
  ⟨h'.current.trans h.current, h'.inIsr.trans h.inIsr, h'.esNext.trans h.esNext,
    fun u => (h'.call u).trans (h.call u), fun u v ha => h'.ahead u v (h.ahead u v ha)⟩

theorem Switches.refl (k : Kernel τ σ ℓ) : k.Switches k :=
  ⟨rfl, rfl, fun _ => ⟨_, _, rfl⟩, fun _ _ h => Or.inr h⟩

/-- The order is kept where the list only grows and neither thread is changed. -/
theorem Ahead.grow {u v : τ} {k k' : Kernel τ σ ℓ} (h : Ahead u v k)
    (hqueue : List.Sublist k.rQueue k'.rQueue)
    (hprio : k'.prio v ≤ k'.prio u) (hstate : (k.state v).waits = true → (k'.state v).waits = true) :
    Ahead u v k' :=
  ⟨hqueue.subset h.ready, hprio, h.behind.imp hstate fun hs => hs.trans hqueue⟩

theorem Ahead.tail {u v tp : τ} {rest : List τ} {k : Kernel τ σ ℓ} (h : Ahead u v k)
    (hlist : k.rQueue = tp :: rest) (hne : u ≠ tp) :
    u ∈ rest ∧ ((k.state v).waits = true ∨ List.Sublist [u, v] rest) := by
  obtain ⟨hready, -, hbehind⟩ := h
  rw [hlist] at hready hbehind
  refine ⟨(List.mem_cons.mp hready).resolve_left hne, hbehind.imp_right fun hs => ?_⟩
  cases hs with
  | cons _ hs => exact hs
  | cons_cons _ hs => exact absurd rfl hne

/-- The order is kept where the first thread leaves the list, unless it is the thread in front. -/
theorem Ahead.dispatch {u v tp : τ} {rest : List τ} {k k' : Kernel τ σ ℓ} (h : Ahead u v k)
    (hlist : k.rQueue = tp :: rest) (hcur : k'.current = tp) (hqueue : List.Sublist rest k'.rQueue)
    (hprio : k'.prio = k.prio) (hstate : (k.state v).waits = true → (k'.state v).waits = true) :
    k'.current = u ∨ Ahead u v k' := by
  by_cases hne : u = tp
  · exact Or.inl (hcur.trans hne.symm)
  · obtain ⟨hin, hbehind⟩ := h.tail hlist hne
    refine Or.inr ⟨hqueue.subset hin, ?_, hbehind.imp hstate fun hs => hs.trans hqueue⟩
    rw [hprio]
    exact h.prio

theorem Ranked.waits {idle v : τ} {k : Kernel τ σ ℓ} (h : k.Ranked idle)
    (hw : (k.state v).waits = true) :
    v ∉ k.rQueue ∧ v ≠ k.current := by
  constructor
  · intro hin
    rw [(h.ready v).mp hin] at hw
    cases hw
  · rintro rfl
    rw [h.running] at hw
    cases hw

variable [DecidableEq τ]

theorem stays_modify {k : Kernel τ σ ℓ} {tp : τ} {f : Thread → Thread}
    (hprio : (f (k.thread tp)).pPrio = (k.thread tp).pPrio)
    (hstate : (f (k.thread tp)).pState = (k.thread tp).pState)
    (hcall : (f (k.thread tp)).call = (k.thread tp).call) : k.Stays (k.modify tp f) := by
  refine ⟨rfl, rfl, rfl, ?_, ?_⟩
  · intro u
    by_cases hu : u = tp
    · subst hu
      rw [thread_modify_self, hcall]
    · rw [thread_modify_of_ne k f hu]
  · intro u v h
    refine h.grow (List.Sublist.refl _) ?_ ?_
    · rw [prio_modify hprio]
      exact h.prio
    · rw [state_modify hstate]
      exact id

/-- A thread that becomes ready goes behind the ready ones of its priority. -/
theorem Ranked.stays_chSchReadyI {idle tp : τ} {k k' : Kernel τ σ ℓ} (h : k.Ranked idle)
    (hres : k.chSchReadyI tp = some k') :
    k.Stays k' ∧ ∀ u, (k'.thread u).pEpending = (k.thread u).pEpending := by
  rw [Kernel.chSchReadyI] at hres
  split_ifs at hres with hready
  cases hres
  have hthread : ∀ u, ({ k.setState tp .ready with
      rQueue := PriorityList.insertBehind k.prio tp k.rQueue } : Kernel τ σ ℓ).thread u =
      if u = tp then { k.thread tp with pState := .ready } else k.thread u :=
    fun u => k.thread_setState tp u .ready
  refine ⟨⟨rfl, rfl, rfl, ?_, ?_⟩, ?_⟩
  · intro u
    rw [hthread]
    split_ifs with hu <;> simp [hu]
  · intro u v ha
    have hprio : ({ k.setState tp .ready with
        rQueue := PriorityList.insertBehind k.prio tp k.rQueue } : Kernel τ σ ℓ).prio = k.prio :=
      k.prio_setState tp .ready
    by_cases hv : v = tp
    · subst hv
      refine ⟨(PriorityList.sublist_insertBehind v k.rQueue).subset ha.ready, ?_, Or.inr ?_⟩
      · rw [hprio]
        exact ha.prio
      · exact h.sorted.pair_sublist_insertBehind ha.ready ha.prio
    · refine ha.grow (PriorityList.sublist_insertBehind tp k.rQueue) ?_ ?_
      · rw [hprio]
        exact ha.prio
      · intro hw
        rw [Kernel.state, hthread, if_neg hv]
        exact hw
  · intro u
    rw [hthread]
    split_ifs with hu <;> simp [hu]

theorem Ranked.switches_chSchGoSleepS {idle : τ} {k k' : Kernel τ σ ℓ} (h : k.Ranked idle)
    {newstate : ThreadState} (hres : k.chSchGoSleepS newstate = some k') : k.Switches k' := by
  cases hlist : k.rQueue with
  | nil => simp [Kernel.chSchGoSleepS, nextCurrent, setState, hlist] at hres
  | cons tp rest =>
    have htp := h.head_ne hlist
    have hnext : k.chSchGoSleepS newstate = some
        ((k.setState k.current newstate).dispatch tp rest) := by
      rw [Kernel.chSchGoSleepS]
      exact nextCurrent_cons hlist
    cases hnext.symm.trans hres
    have hthread : ∀ u, ((k.setState k.current newstate).dispatch tp rest).thread u =
        if u = tp then { k.thread tp with pState := .current }
        else if u = k.current then { k.thread k.current with pState := newstate }
          else k.thread u := by
      intro u
      change ((k.setState k.current newstate).setState tp .current).thread u = _
      simp [thread_setState, htp.symm]
    refine ⟨rfl, rfl, ?_, ?_⟩
    · intro u
      rw [hthread]
      split_ifs with hu hcur
      · exact ⟨_, _, by rw [hu]⟩
      · exact ⟨_, _, by rw [hcur]⟩
      · exact ⟨_, _, rfl⟩
    · intro u v ha
      refine ha.dispatch hlist rfl (List.Sublist.refl _) ?_ ?_
      · change ((k.setState k.current newstate).setState tp .current).prio = k.prio
        simp
      · intro hw
        obtain ⟨hvq, hvcur⟩ := h.waits hw
        have hvtp : v ≠ tp := fun heq => hvq (by simp [hlist, heq])
        rw [Kernel.state, hthread, if_neg hvtp, if_neg hvcur]
        exact hw

theorem GivesWay.switches {idle tp : τ} {k k' : Kernel τ σ ℓ} (h : k.Ranked idle)
    (hway : k.GivesWay k' tp) :
    k.Switches k' := by
  obtain ⟨rest, hlist, hqueue⟩ := hway.queue
  have htp := h.head_ne hlist
  refine ⟨hway.inIsr, hway.esNext, ?_, ?_⟩
  · intro u
    rw [hway.thread]
    by_cases hcur : u = k.current
    · exact ⟨.ready, (k.thread u).pU, by simp [hcur]⟩
    · by_cases hu : u = tp
      · subst hu
        exact ⟨.current, (k.thread u).pU, by simp [hcur]⟩
      · exact ⟨(k.thread u).pState, (k.thread u).pU, by simp [hcur, hu]⟩
  · intro u v ha
    refine ha.dispatch hlist hway.current hqueue hway.prio ?_
    intro hw
    obtain ⟨hvq, hvcur⟩ := h.waits hw
    have hvtp : v ≠ tp := fun heq => hvq (by simp [hlist, heq])
    rw [hway.state, if_neg hvcur, if_neg hvtp]
    exact hw

theorem Ranked.stays_threadInit {idle tp : τ} {k : Kernel τ σ ℓ} (h : k.Ranked idle)
    (hstart : k.state tp = .wtstart) (hcall : (k.thread tp).call = none) (prio : Nat) :
    k.Stays (k.modify tp fun _ => Kernel.threadInit prio) := by
  refine ⟨rfl, rfl, rfl, ?_, ?_⟩
  · intro u
    by_cases hu : u = tp
    · subst hu
      rw [thread_modify_self, hcall]
      rfl
    · rw [thread_modify_of_ne k _ hu]
  · intro u v ha
    have hstate : (k.modify tp fun _ => Kernel.threadInit prio).state = k.state :=
      state_modify hstart.symm
    have hu : k.state u = .ready := (h.ready u).mp ha.ready
    have hv : k.state v ≠ .wtstart := by
      rcases ha.behind with hw | hs
      · rintro heq
        rw [heq] at hw
        cases hw
      · simp [(h.ready v).mp (hs.subset (by simp))]
    refine ha.grow (List.Sublist.refl _) ?_ ?_
    · rw [prio_threadInit hstart prio hv, prio_threadInit hstart prio (by simp [hu])]
      exact ha.prio
    · rw [hstate]
      exact id

/-- The waking of a thread that waits to be started passes nobody. -/
theorem Ranked.switches_chSchWakeupS {idle ntp : τ} {k : Kernel τ σ ℓ} (h : k.Ranked idle)
    (htop : k.Top) (hstart : k.state ntp = .wtstart) (msg : BitVec 32) :
    ∃ k', k.chSchWakeupS ntp msg = some k' ∧ k'.Ranked idle ∧ k'.Top ∧ k.Switches k' := by
  obtain ⟨k', hres, hranked, htop', hisr, hes, hprio, hcases⟩ := h.chSchWakeupS htop hstart msg
  refine ⟨k', hres, hranked, htop', hisr, hes, ?_, ?_⟩
  · intro u
    rcases hcases with ⟨-, -, -, hthread⟩ | ⟨-, -, -, hthread⟩
    · by_cases hu : u = ntp
      · subst hu
        exact ⟨.ready, msg, by simp [hthread]⟩
      · exact ⟨(k.thread u).pState, (k.thread u).pU, by simp [hthread, hu]⟩
    · by_cases hu : u = ntp
      · subst hu
        exact ⟨.current, msg, by simp [hthread]⟩
      · by_cases hcur : u = k.current
        · subst hcur
          exact ⟨.ready, (k.thread k.current).pU, by simp [hthread, hu]⟩
        · exact ⟨(k.thread u).pState, (k.thread u).pU, by simp [hthread, hu, hcur]⟩
  · intro u v ha
    have hqueue : List.Sublist k.rQueue k'.rQueue := by
      rcases hcases with ⟨-, -, hqueue, -⟩ | ⟨-, -, hqueue, -⟩ <;> rw [hqueue]
      · exact PriorityList.sublist_insertBehind ntp k.rQueue
      · exact PriorityList.sublist_insertBehind k.current k.rQueue
    refine Or.inr (ha.grow hqueue (by rw [hprio]; exact ha.prio) ?_)
    intro hw
    have hv : v ≠ ntp := by
      rintro rfl
      rw [hstart] at hw
      cases hw
    rw [Kernel.state]
    rcases hcases with ⟨-, -, -, hthread⟩ | ⟨-, -, -, hthread⟩
    · rw [hthread, Function.update_of_ne hv]
      exact hw
    · rw [hthread, Function.update_of_ne hv, Function.update_of_ne (h.waits hw).2]
      exact hw

end Kernel

end SafetyTrolley
