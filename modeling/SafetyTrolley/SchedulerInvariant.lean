import SafetyTrolley.KernelEvents

/-! What every call of the kernel keeps: the ready list holds the ready threads in
order of priority, and outside interrupts the current thread has the highest one. -/

namespace SafetyTrolley

namespace Kernel

variable {τ σ ℓ : Type*} [DecidableEq τ]

@[simp] theorem thread_modify_self (k : Kernel τ σ ℓ) (tp : τ) (f : Thread → Thread) :
    (k.modify tp f).thread tp = f (k.thread tp) := by
  simp [modify]

theorem thread_modify_of_ne (k : Kernel τ σ ℓ) {tp u : τ} (f : Thread → Thread) (h : u ≠ tp) :
    (k.modify tp f).thread u = k.thread u := by
  simp [modify, Function.update_of_ne h]

@[simp] theorem current_modify (k : Kernel τ σ ℓ) (tp : τ) (f : Thread → Thread) :
    (k.modify tp f).current = k.current := rfl

@[simp] theorem rQueue_modify (k : Kernel τ σ ℓ) (tp : τ) (f : Thread → Thread) :
    (k.modify tp f).rQueue = k.rQueue := rfl

@[simp] theorem inIsr_modify (k : Kernel τ σ ℓ) (tp : τ) (f : Thread → Thread) :
    (k.modify tp f).inIsr = k.inIsr := rfl

/-- The scheduler's view of the threads: what it keeps of each, and its queues. -/
structure Ranked (idle : τ) (k : Kernel τ σ ℓ) : Prop where
  running : k.state k.current = .current
  only : ∀ tp, k.state tp = .current → tp = k.current
  ready : ∀ tp, tp ∈ k.rQueue ↔ k.state tp = .ready
  nodup : k.rQueue.Nodup
  sorted : PriorityList.Sorted k.prio k.rQueue
  idleRuns : idle ∈ k.rQueue ∨ k.current = idle
  idlePrio : 0 < k.prio idle

/-- No ready thread has a higher priority than the current one. -/
def Top (k : Kernel τ σ ℓ) : Prop := ∀ tp ∈ k.rQueue, k.prio tp ≤ k.prio k.current

theorem prio_modify {k : Kernel τ σ ℓ} {tp : τ} {f : Thread → Thread}
    (hprio : (f (k.thread tp)).pPrio = (k.thread tp).pPrio) : (k.modify tp f).prio = k.prio := by
  funext u
  by_cases h : u = tp
  · subst h
    simp [prio, hprio]
  · simp [prio, thread_modify_of_ne k f h]

@[simp] theorem prio_setState (k : Kernel τ σ ℓ) (tp : τ) (state : ThreadState) :
    (k.setState tp state).prio = k.prio := prio_modify rfl

theorem state_modify {k : Kernel τ σ ℓ} {tp : τ} {f : Thread → Thread}
    (hstate : (f (k.thread tp)).pState = (k.thread tp).pState) : (k.modify tp f).state = k.state := by
  funext u
  by_cases h : u = tp
  · subst h
    simp [state, hstate]
  · simp [state, thread_modify_of_ne k f h]

@[simp] theorem state_setState_self (k : Kernel τ σ ℓ) (tp : τ) (state : ThreadState) :
    (k.setState tp state).state tp = state := by
  simp [setState, Kernel.state]

theorem state_setState_of_ne (k : Kernel τ σ ℓ) {tp u : τ} (state : ThreadState) (h : u ≠ tp) :
    (k.setState tp state).state u = k.state u := by
  simp [setState, Kernel.state, thread_modify_of_ne k _ h]

theorem Ranked.modify {idle : τ} {k : Kernel τ σ ℓ} (h : k.Ranked idle) {tp : τ} {f : Thread → Thread}
    (hprio : (f (k.thread tp)).pPrio = (k.thread tp).pPrio)
    (hstate : (f (k.thread tp)).pState = (k.thread tp).pState) : (k.modify tp f).Ranked idle := by
  have hp := prio_modify hprio
  have hs := state_modify hstate
  exact ⟨by rw [hs]; exact h.running, by rw [hs]; exact h.only, by rw [hs]; exact h.ready, h.nodup,
    by rw [hp]; exact h.sorted, h.idleRuns, by rw [hp]; exact h.idlePrio⟩

theorem Top.modify {k : Kernel τ σ ℓ} (h : k.Top) {tp : τ} {f : Thread → Thread}
    (hprio : (f (k.thread tp)).pPrio = (k.thread tp).pPrio) : (k.modify tp f).Top := by
  rw [Top, prio_modify hprio]
  exact h

omit [DecidableEq τ] in
theorem Ranked.ne_nil {idle : τ} {k : Kernel τ σ ℓ} (h : k.Ranked idle) (hne : k.current ≠ idle) :
    k.rQueue ≠ [] := by
  intro hnil
  rcases h.idleRuns with hidle | hidle
  · simp [hnil] at hidle
  · exact hne hidle

/-- A thread that neither runs nor is ready becomes ready. -/
theorem Ranked.enqueue {idle tp : τ} {k k' : Kernel τ σ ℓ} (h : k.Ranked idle)
    (hready : k.state tp ≠ .ready) (hcurrent : k.state tp ≠ .current)
    (hstate : ∀ u, k'.state u = if u = tp then .ready else k.state u) (hprio : k'.prio = k.prio)
    (hcur : k'.current = k.current)
    (hqueue : k'.rQueue = PriorityList.insertBehind k.prio tp k.rQueue) :
    k'.Ranked idle := by
  have hperm : (PriorityList.insertBehind k.prio tp k.rQueue).Perm (tp :: k.rQueue) :=
    PriorityList.perm_insertBehind _ _
  have hmem : ∀ u, u ∈ k'.rQueue ↔ u = tp ∨ u ∈ k.rQueue := by
    intro u
    rw [hqueue, hperm.mem_iff, List.mem_cons]
  have hne : k.current ≠ tp := fun heq => hcurrent (heq ▸ h.running)
  constructor
  · rw [hcur, hstate, if_neg hne]
    exact h.running
  · intro u hu
    rw [hstate] at hu
    split_ifs at hu
    rw [hcur]
    exact h.only u hu
  · intro u
    rw [hmem, hstate, h.ready]
    split_ifs with hu <;> simp [hu]
  · rw [hqueue, hperm.nodup_iff, List.nodup_cons]
    exact ⟨fun hin => hready ((h.ready tp).mp hin), h.nodup⟩
  · rw [hprio, hqueue]
    exact h.sorted.insertBehind tp
  · rw [hmem, hcur]
    exact h.idleRuns.imp Or.inr id
  · rw [hprio]
    exact h.idlePrio

omit [DecidableEq τ] in
theorem Ranked.head_ne {idle tp : τ} {rest : List τ} {k : Kernel τ σ ℓ} (h : k.Ranked idle)
    (hlist : k.rQueue = tp :: rest) : k.current ≠ tp := by
  rintro rfl
  have hready := (h.ready k.current).mp (by simp [hlist])
  rw [h.running] at hready
  cases hready

omit [DecidableEq τ] in
theorem Ranked.current_not_mem {idle : τ} {k : Kernel τ σ ℓ} (h : k.Ranked idle) :
    k.current ∉ k.rQueue := by
  intro hin
  have hready := (h.ready k.current).mp hin
  rw [h.running] at hready
  cases hready

omit [DecidableEq τ] in
/-- Behind the first thread of the list stand all other ready ones. -/
theorem Ranked.mem_rest {idle tp : τ} {rest : List τ} {k : Kernel τ σ ℓ} (h : k.Ranked idle)
    (hlist : k.rQueue = tp :: rest) (u : τ) : u ∈ rest ↔ u ≠ tp ∧ k.state u = .ready := by
  have hnodup := h.nodup
  rw [hlist, List.nodup_cons] at hnodup
  rw [← h.ready u, hlist, List.mem_cons]
  refine ⟨fun hin => ⟨fun heq => hnodup.1 (heq ▸ hin), Or.inr hin⟩, ?_⟩
  rintro ⟨hne, heq | hin⟩
  · exact absurd heq hne
  · exact hin

/-- The list once the current thread is back on it, or waits and is not the idle one. -/
structure Requeued (idle : τ) (k : Kernel τ σ ℓ) (newstate : ThreadState) (rest q : List τ) :
    Prop where
  mem : ∀ u, u ∈ q ↔ u ∈ rest ∨ newstate = .ready ∧ u = k.current
  nodup : q.Nodup
  stays : newstate = .ready ∨ k.current ≠ idle

omit [DecidableEq τ] in
theorem Ranked.requeued {idle tp : τ} {rest q : List τ} {k : Kernel τ σ ℓ} {newstate : ThreadState}
    (h : k.Ranked idle) (hlist : k.rQueue = tp :: rest)
    (hqueue : (newstate = .ready ∧ q.Perm (k.current :: rest)) ∨
      (newstate ≠ .ready ∧ q = rest ∧ k.current ≠ idle)) : k.Requeued idle newstate rest q := by
  have hnodup := h.nodup
  rw [hlist, List.nodup_cons] at hnodup
  have hcurrent : k.current ∉ rest := fun hin => h.current_not_mem (by simp [hlist, hin])
  rcases hqueue with ⟨rfl, hperm⟩ | ⟨hwait, rfl, hidle⟩
  · refine ⟨fun u => ?_, ?_, Or.inl rfl⟩
    · rw [hperm.mem_iff, List.mem_cons, or_comm]
      simp
    · rw [hperm.nodup_iff, List.nodup_cons]
      exact ⟨hcurrent, hnodup.2⟩
  · exact ⟨fun u => by simp [hwait], hnodup.2, Or.inr hidle⟩

/-- The first ready thread takes the processor from the current one, which stays on the
list or waits. -/
theorem Ranked.switch {idle tp : τ} {rest : List τ} {k k' : Kernel τ σ ℓ} {newstate : ThreadState}
    (h : k.Ranked idle) (hlist : k.rQueue = tp :: rest) (hnew : newstate ≠ .current)
    (hstate : ∀ u, k'.state u =
      if u = k.current then newstate else if u = tp then .current else k.state u)
    (hprio : k'.prio = k.prio) (hcur : k'.current = tp)
    (hqueue : (newstate = .ready ∧ k'.rQueue.Perm (k.current :: rest)) ∨
      (newstate ≠ .ready ∧ k'.rQueue = rest ∧ k.current ≠ idle))
    (hsorted : PriorityList.Sorted k.prio k'.rQueue) : k'.Ranked idle := by
  have hrequeued := h.requeued hlist hqueue
  have hne : tp ≠ k.current := (h.head_ne hlist).symm
  constructor
  · rw [hcur, hstate, if_neg hne, if_pos rfl]
  · intro u hu
    rw [hstate] at hu
    split_ifs at hu with h1 h2
    · exact absurd hu hnew
    · exact h2.trans hcur.symm
    · exact absurd (h.only u hu) h1
  · intro u
    rw [hstate, hrequeued.mem, h.mem_rest hlist]
    split_ifs with h1 h2
    · simp [h1, h.running]
    · simp [h2, hne]
    · simp [h1, h2]
  · exact hrequeued.nodup
  · rw [hprio]
    exact hsorted
  · rw [hcur, hrequeued.mem]
    have hidle := h.idleRuns
    rw [hlist, List.mem_cons] at hidle
    rcases hidle with (rfl | hidle) | hidle
    · exact Or.inr rfl
    · exact Or.inl (Or.inl hidle)
    · have hready : newstate = .ready := hrequeued.stays.resolve_right (not_not.mpr hidle)
      exact Or.inl (Or.inr ⟨hready, hidle.symm⟩)
  · rw [hprio]
    exact h.idlePrio

theorem state_setState (k : Kernel τ σ ℓ) (tp u : τ) (state : ThreadState) :
    (k.setState tp state).state u = if u = tp then state else k.state u := by
  split_ifs with h
  · rw [h, state_setState_self]
  · exact k.state_setState_of_ne state h

theorem thread_setState (k : Kernel τ σ ℓ) (tp u : τ) (state : ThreadState) :
    (k.setState tp state).thread u =
      if u = tp then { k.thread tp with pState := state } else k.thread u := by
  split_ifs with h
  · rw [h, setState, thread_modify_self]
  · exact thread_modify_of_ne k _ h

omit [DecidableEq τ] in
theorem Ranked.rest_sorted {idle tp : τ} {rest : List τ} {k : Kernel τ σ ℓ} (h : k.Ranked idle)
    (hlist : k.rQueue = tp :: rest) :
    PriorityList.Sorted k.prio rest ∧ ∀ u ∈ rest, k.prio u ≤ k.prio tp := by
  have hsorted := h.sorted
  rw [hlist] at hsorted
  exact ⟨(List.pairwise_cons.mp hsorted).2, (List.pairwise_cons.mp hsorted).1⟩

theorem Ranked.chSchReadyI {idle tp : τ} {k : Kernel τ σ ℓ} (h : k.Ranked idle)
    (hready : k.state tp ≠ .ready) (hcurrent : k.state tp ≠ .current) :
    ∃ k', k.chSchReadyI tp = some k' ∧ k'.Ranked idle ∧
      k'.thread = Function.update k.thread tp { k.thread tp with pState := .ready } ∧
      k'.current = k.current ∧ k'.inIsr = k.inIsr ∧ k'.esNext = k.esNext ∧ k'.prio = k.prio ∧
      k'.rQueue = PriorityList.insertBehind k.prio tp k.rQueue := by
  refine ⟨_, if_pos hready, ?_, rfl, rfl, rfl, rfl, k.prio_setState tp .ready, rfl⟩
  exact h.enqueue hready hcurrent (fun u => k.state_setState tp u .ready)
    (k.prio_setState tp .ready) rfl rfl

/-- The current thread waits, and the first one of the ready list runs. -/
theorem Ranked.chSchGoSleepS {idle : τ} {k : Kernel τ σ ℓ} (h : k.Ranked idle)
    (hne : k.current ≠ idle)
    {newstate : ThreadState} (hnew : newstate ≠ .current) (hwait : newstate ≠ .ready) :
    ∃ tp k', k.chSchGoSleepS newstate = some k' ∧ k'.Ranked idle ∧ k'.Top ∧ tp ∈ k.rQueue ∧
      k'.thread = Function.update (Function.update k.thread k.current
        { k.thread k.current with pState := newstate }) tp { k.thread tp with pState := .current } ∧
      k'.current = tp ∧ k'.inIsr = k.inIsr := by
  cases hlist : k.rQueue with
  | nil => exact absurd hlist (h.ne_nil hne)
  | cons tp rest =>
    obtain ⟨hrest, hle⟩ := h.rest_sorted hlist
    have hready : k.state tp = .ready := (h.ready tp).mp (by simp [hlist])
    have htp : tp ≠ k.current := (h.head_ne hlist).symm
    have hthread : (k.setState k.current newstate).thread tp = k.thread tp :=
      thread_modify_of_ne k _ htp
    have hres : k.chSchGoSleepS newstate =
        some { (k.setState k.current newstate).setState tp .current with
          current := tp, rQueue := rest } := by
      simp [Kernel.chSchGoSleepS, nextCurrent, setState, hlist]
    refine ⟨tp, _, hres, ?_, ?_, by simp, ?_, rfl, rfl⟩
    · refine h.switch hlist hnew ?_ ?_ rfl (Or.inr ⟨hwait, rfl, hne⟩) hrest
      · intro u
        change ((k.setState k.current newstate).setState tp .current).state u = _
        rw [state_setState, state_setState]
        by_cases h1 : u = k.current
        · simp [h1, Ne.symm htp]
        · simp [h1]
      · change ((k.setState k.current newstate).setState tp .current).prio = _
        simp
    · intro u hu
      change ((k.setState k.current newstate).setState tp .current).prio u ≤
        ((k.setState k.current newstate).setState tp .current).prio tp
      simpa using hle u hu
    · change Function.update (k.setState k.current newstate).thread tp _ = _
      rw [hthread]
      rfl

/-- The threads after the current one has given way to `tp` and stays ready. -/
structure GivesWay (k k' : Kernel τ σ ℓ) (tp : τ) : Prop where
  queue : ∃ rest, k.rQueue = tp :: rest ∧ List.Sublist rest k'.rQueue
  thread : k'.thread = Function.update (Function.update k.thread tp
    { k.thread tp with pState := .current }) k.current { k.thread k.current with pState := .ready }
  current : k'.current = tp
  inIsr : k'.inIsr = k.inIsr
  esNext : k'.esNext = k.esNext

theorem GivesWay.state {tp : τ} {k k' : Kernel τ σ ℓ} (h : k.GivesWay k' tp) (u : τ) :
    k'.state u = if u = k.current then .ready else if u = tp then .current else k.state u := by
  rw [Kernel.state, h.thread]
  by_cases h1 : u = k.current
  · simp [h1]
  · by_cases h2 : u = tp
    · subst h2
      simp [h1]
    · simp [h1, h2, Kernel.state]

theorem GivesWay.prio {tp : τ} {k k' : Kernel τ σ ℓ} (h : k.GivesWay k' tp) : k'.prio = k.prio := by
  funext u
  rw [Kernel.prio, h.thread]
  by_cases h1 : u = k.current
  · simp [h1, Kernel.prio]
  · by_cases h2 : u = tp
    · subst h2
      simp [h1, Kernel.prio]
    · simp [h1, h2, Kernel.prio]

theorem Ranked.givesWay {idle tp : τ} {rest : List τ} {k k' : Kernel τ σ ℓ} (h : k.Ranked idle)
    (hlist : k.rQueue = tp :: rest) (hway : k.GivesWay k' tp)
    (hperm : k'.rQueue.Perm (k.current :: rest))
    (hsorted : PriorityList.Sorted k.prio k'.rQueue) (hle : k.prio k.current ≤ k.prio tp) :
    k'.Ranked idle ∧ k'.Top := by
  refine ⟨?_, ?_⟩
  · exact h.switch hlist (by simp) hway.state hway.prio hway.current (Or.inl ⟨rfl, hperm⟩) hsorted
  · intro u hu
    rw [hway.prio, hway.current]
    rcases List.mem_cons.mp (hperm.mem_iff.mp hu) with rfl | hu
    · exact hle
    · exact (h.rest_sorted hlist).2 u hu

/-- The kernel with the first thread of its list made the current one. -/
def dispatch (k : Kernel τ σ ℓ) (tp : τ) (rest : List τ) : Kernel τ σ ℓ :=
  { k.setState tp .current with current := tp, rQueue := rest }

theorem nextCurrent_cons {k : Kernel τ σ ℓ} {tp : τ} {rest : List τ} (hlist : k.rQueue = tp :: rest) :
    k.nextCurrent = some (k.dispatch tp rest) := by
  simp [nextCurrent, hlist, dispatch]

theorem givesWay_dispatch {k : Kernel τ σ ℓ} {tp : τ} {rest : List τ} (hlist : k.rQueue = tp :: rest)
    (htp : k.current ≠ tp) (q : List τ) (hq : List.Sublist rest q) :
    k.GivesWay { (k.dispatch tp rest).setState k.current .ready with rQueue := q } tp := by
  refine ⟨⟨rest, hlist, hq⟩, ?_, rfl, rfl, rfl⟩
  change Function.update (k.setState tp .current).thread k.current
    { (k.setState tp .current).thread k.current with pState := .ready } = _
  rw [show (k.setState tp .current).thread k.current = k.thread k.current from
    thread_modify_of_ne k _ htp]
  rfl

theorem Ranked.chSchDoRescheduleAhead {idle tp : τ} {rest : List τ} {k : Kernel τ σ ℓ}
    (h : k.Ranked idle) (hlist : k.rQueue = tp :: rest) (hle : k.prio k.current ≤ k.prio tp) :
    ∃ k', k.chSchDoRescheduleAhead = some k' ∧ k'.Ranked idle ∧ k'.Top ∧ k.GivesWay k' tp ∧
      k'.rQueue = PriorityList.insertAhead k.prio k.current rest := by
  have hway := givesWay_dispatch hlist (h.head_ne hlist)
    (PriorityList.insertAhead k.prio k.current rest) (PriorityList.sublist_insertAhead _ _)
  obtain ⟨hranked, htop⟩ := h.givesWay hlist hway (PriorityList.perm_insertAhead k.current rest)
    ((h.rest_sorted hlist).1.insertAhead k.current) hle
  refine ⟨_, ?_, hranked, htop, hway, rfl⟩
  rw [Kernel.chSchDoRescheduleAhead, nextCurrent_cons hlist]
  rfl

theorem Ranked.chSchDoRescheduleBehind {idle tp : τ} {rest : List τ} {k : Kernel τ σ ℓ}
    (h : k.Ranked idle) (hlist : k.rQueue = tp :: rest) (hle : k.prio k.current ≤ k.prio tp) :
    ∃ k', k.chSchDoRescheduleBehind = some k' ∧ k'.Ranked idle ∧ k'.Top ∧ k.GivesWay k' tp ∧
      k'.rQueue = PriorityList.insertBehind k.prio k.current rest := by
  have htp := h.head_ne hlist
  have hway := givesWay_dispatch hlist htp (PriorityList.insertBehind k.prio k.current rest)
    (PriorityList.sublist_insertBehind _ _)
  obtain ⟨hranked, htop⟩ := h.givesWay hlist hway (PriorityList.perm_insertBehind k.current rest)
    ((h.rest_sorted hlist).1.insertBehind k.current) hle
  have hnot : (k.dispatch tp rest).state k.current ≠ .ready := by
    change (k.setState tp .current).state k.current ≠ .ready
    rw [k.state_setState_of_ne _ htp, h.running]
    simp
  have hprio : (k.dispatch tp rest).prio = k.prio := k.prio_setState tp .current
  refine ⟨_, ?_, hranked, htop, hway, rfl⟩
  rw [Kernel.chSchDoRescheduleBehind, nextCurrent_cons hlist, Option.bind_some, Kernel.chSchReadyI,
    if_pos hnot, hprio]
  rfl

/-- Rescheduling gives the processor to the first ready thread where that has a higher
priority, and does nothing otherwise. -/
theorem Ranked.reschedule {idle : τ} {k : Kernel τ σ ℓ} (h : k.Ranked idle) :
    ∃ k', (if k.prio k.current < k.firstprio then k.chSchDoRescheduleAhead else some k) = some k' ∧
      k'.Ranked idle ∧ k'.Top ∧ (k' = k ∨ ∃ tp, k.GivesWay k' tp) := by
  by_cases hreq : k.prio k.current < k.firstprio
  · rw [if_pos hreq]
    cases hlist : k.rQueue with
    | nil => simp [firstprio, hlist, noprio] at hreq
    | cons tp rest =>
      simp only [firstprio, hlist] at hreq
      obtain ⟨k', hres, hranked, htop, hway, -⟩ := h.chSchDoRescheduleAhead hlist hreq.le
      exact ⟨k', hres, hranked, htop, Or.inr ⟨tp, hway⟩⟩
  · rw [if_neg hreq]
    refine ⟨k, rfl, h, ?_, Or.inl rfl⟩
    intro u hu
    cases hlist : k.rQueue with
    | nil => simp [hlist] at hu
    | cons tp rest =>
      simp only [firstprio, hlist] at hreq
      rw [hlist] at hu
      rcases List.mem_cons.mp hu with rfl | hu
      · exact Nat.le_of_not_lt hreq
      · exact ((h.rest_sorted hlist).2 u hu).trans (Nat.le_of_not_lt hreq)

theorem Ranked.chSchDoYieldS {idle : τ} {k : Kernel τ σ ℓ} (h : k.Ranked idle) (htop : k.Top) :
    ∃ k', k.chSchDoYieldS = some k' ∧ k'.Ranked idle ∧ k'.Top ∧
      (k' = k ∨ ∃ tp, k.GivesWay k' tp) := by
  unfold Kernel.chSchDoYieldS chSchCanYieldS
  split_ifs with hcan
  · simp only [decide_eq_true_eq] at hcan
    cases hlist : k.rQueue with
    | nil =>
      have hidle : k.current = idle := by
        by_contra hne
        exact h.ne_nil hne hlist
      simp only [firstprio, hlist, noprio, hidle] at hcan
      exact absurd h.idlePrio (by omega)
    | cons tp rest =>
      simp only [firstprio, hlist] at hcan
      obtain ⟨k', hres, hranked, htop', hway, -⟩ := h.chSchDoRescheduleBehind hlist hcan
      exact ⟨k', hres, hranked, htop', Or.inr ⟨tp, hway⟩⟩
  · exact ⟨k, rfl, h, htop, Or.inl rfl⟩

theorem prio_threadInit {k : Kernel τ σ ℓ} {tp u : τ} (hstart : k.state tp = .wtstart) (prio : Nat)
    (hu : k.state u ≠ .wtstart) : (k.modify tp fun _ => threadInit prio).prio u = k.prio u := by
  have hne : u ≠ tp := fun heq => hu (heq ▸ hstart)
  rw [Kernel.prio, thread_modify_of_ne k _ hne]
  rfl

/-- A thread that waits to be started may be given any priority. -/
theorem Ranked.threadInit {idle tp : τ} {k : Kernel τ σ ℓ} (h : k.Ranked idle)
    (hstart : k.state tp = .wtstart) (prio : Nat) :
    (k.modify tp fun _ => Kernel.threadInit prio).Ranked idle := by
  have hstate : (k.modify tp fun _ => Kernel.threadInit prio).state = k.state :=
    state_modify hstart.symm
  have hqueue : ∀ u ∈ k.rQueue, (k.modify tp fun _ => Kernel.threadInit prio).prio u = k.prio u := by
    intro u hu
    exact prio_threadInit hstart prio (by simp [(h.ready u).mp hu])
  constructor
  · rw [hstate]
    exact h.running
  · rw [hstate]
    exact h.only
  · rw [hstate]
    exact h.ready
  · exact h.nodup
  · refine List.Pairwise.imp_of_mem ?_ h.sorted
    intro a b ha hb hab
    rw [hqueue a ha, hqueue b hb]
    exact hab
  · exact h.idleRuns
  · have hidle : k.state idle ≠ .wtstart := by
      rcases h.idleRuns with hin | heq
      · simp [(h.ready idle).mp hin]
      · simp [← heq, h.running]
    rw [prio_threadInit hstart prio hidle]
    exact h.idlePrio

theorem Ranked.top_threadInit {idle tp : τ} {k : Kernel τ σ ℓ} (h : k.Ranked idle)
    (hstart : k.state tp = .wtstart) (prio : Nat) (htop : k.Top) :
    (k.modify tp fun _ => Kernel.threadInit prio).Top := by
  intro u hu
  have hready := (h.ready u).mp hu
  rw [prio_threadInit hstart prio (by simp [hready]), current_modify,
    prio_threadInit hstart prio (by simp [h.running])]
  exact htop u hu

/-- The kernel once a thread that is woken has taken the processor at once. -/
def preempted (k : Kernel τ σ ℓ) (ntp : τ) (msg : BitVec 32) : Kernel τ σ ℓ :=
  { ((k.modify ntp fun th => { th with pU := msg }).setState k.current .ready).setState ntp .current with
    current := ntp, rQueue := PriorityList.insertBehind k.prio k.current k.rQueue }

theorem prio_preempted (k : Kernel τ σ ℓ) (ntp : τ) (msg : BitVec 32) :
    (k.preempted ntp msg).prio = k.prio := by
  change (((k.modify ntp fun th => { th with pU := msg }).setState k.current .ready).setState ntp
    .current).prio = _
  rw [prio_setState, prio_setState, prio_modify rfl]

theorem state_preempted (k : Kernel τ σ ℓ) (ntp u : τ) (msg : BitVec 32) :
    (k.preempted ntp msg).state u = if u = ntp then .current else if u = k.current then .ready
    else k.state u := by
  change (((k.modify ntp fun th => { th with pU := msg }).setState k.current .ready).setState ntp
    .current).state u = _
  rw [state_setState, state_setState, state_modify rfl]

theorem thread_preempted (k : Kernel τ σ ℓ) {ntp : τ} (hne : k.current ≠ ntp) (msg : BitVec 32) :
    (k.preempted ntp msg).thread = Function.update (Function.update k.thread k.current
      { k.thread k.current with pState := .ready }) ntp
      { k.thread ntp with pU := msg, pState := .current } := by
  change (((k.modify ntp fun th => { th with pU := msg }).setState k.current .ready).setState ntp
    .current).thread = _
  funext u
  by_cases hu : u = ntp
  · subst hu
    simp [setState, thread_modify_of_ne _ _ hne.symm]
  · by_cases hucur : u = k.current
    · subst hucur
      simp [setState, thread_modify_of_ne _ _ hne, hne]
    · simp [setState, thread_modify_of_ne _ _ hu, thread_modify_of_ne _ _ hucur, hu, hucur]

/-- A started thread whose priority is above all others is the first of the list for a
moment, and the current thread gives way to it. -/
theorem Ranked.preempted {idle ntp : τ} {k k₁ : Kernel τ σ ℓ} (h : k.Ranked idle) (htop : k.Top)
    (hlt : k.prio k.current < k.prio ntp) (h₁ : k₁.Ranked idle) (hcons : k₁.rQueue = ntp :: k.rQueue)
    (hcur : k₁.current = k.current) (hprio : k₁.prio = k.prio)
    (hstate : ∀ u, k₁.state u = if u = ntp then .ready else k.state u) (msg : BitVec 32) :
    (k.preempted ntp msg).Ranked idle ∧ (k.preempted ntp msg).Top := by
  have hne : ntp ≠ k.current := hcur ▸ (h₁.head_ne hcons).symm
  have hperm : (k.preempted ntp msg).rQueue.Perm (k.current :: k.rQueue) :=
    PriorityList.perm_insertBehind _ _
  refine ⟨h₁.switch hcons (by simp) ?_ (by rw [prio_preempted, hprio]) rfl (Or.inl ⟨rfl, ?_⟩) ?_, ?_⟩
  · intro u
    rw [state_preempted, hstate, hcur]
    by_cases hu : u = ntp
    · simp [hu, hne]
    · simp [hu]
  · rw [hcur]
    exact hperm
  · rw [hprio]
    exact h.sorted.insertBehind k.current
  · intro u hu
    rw [prio_preempted]
    rcases List.mem_cons.mp (hperm.mem_iff.mp hu) with rfl | hu
    · exact hlt.le
    · exact (htop u hu).trans hlt.le

omit [DecidableEq τ] in
theorem Top.insertBehind {tp : τ} {k k' : Kernel τ σ ℓ} (htop : k.Top)
    (hle : k.prio tp ≤ k.prio k.current) (hprio : k'.prio = k.prio) (hcur : k'.current = k.current)
    (hqueue : k'.rQueue = PriorityList.insertBehind k.prio tp k.rQueue) : k'.Top := by
  intro u hu
  rw [hprio, hcur]
  rw [hqueue, (PriorityList.perm_insertBehind tp _).mem_iff, List.mem_cons] at hu
  rcases hu with rfl | hu
  · exact hle
  · exact htop u hu

omit [DecidableEq τ] in
/-- The assertion of the call holds where nobody of a higher priority is ready. -/
theorem Top.firstprio_le {k : Kernel τ σ ℓ} (htop : k.Top) : k.rQueue = [] ∨
    k.firstprio ≤ k.prio k.current := by
  cases hlist : k.rQueue with
  | nil => exact Or.inl rfl
  | cons tp rest =>
    refine Or.inr ?_
    rw [firstprio, hlist]
    exact htop tp (by simp [hlist])

/-- The waking of a thread that waits to be started: it is ready behind its equals, or it
runs at once and the current one is ready behind its own. -/
theorem Ranked.chSchWakeupS {idle ntp : τ} {k : Kernel τ σ ℓ} (h : k.Ranked idle) (htop : k.Top)
    (hstart : k.state ntp = .wtstart) (msg : BitVec 32) :
    ∃ k', k.chSchWakeupS ntp msg = some k' ∧ k'.Ranked idle ∧ k'.Top ∧ k'.inIsr = k.inIsr ∧
      k'.esNext = k.esNext ∧ k'.prio = k.prio ∧
      ((k.prio ntp ≤ k.prio k.current ∧ k'.current = k.current ∧
          k'.rQueue = PriorityList.insertBehind k.prio ntp k.rQueue ∧
          k'.thread =
            Function.update k.thread ntp { k.thread ntp with pU := msg, pState := .ready }) ∨
        (k.prio k.current < k.prio ntp ∧ k'.current = ntp ∧
          k'.rQueue = PriorityList.insertBehind k.prio k.current k.rQueue ∧
          k'.thread = Function.update (Function.update k.thread k.current
            { k.thread k.current with pState := .ready }) ntp
            { k.thread ntp with pU := msg, pState := .current })) := by
  have h0 : (k.modify ntp fun th => { th with pU := msg }).Ranked idle := h.modify rfl rfl
  have hprio0 : (k.modify ntp fun th => { th with pU := msg }).prio = k.prio := prio_modify rfl
  have hstate0 : (k.modify ntp fun th => { th with pU := msg }).state = k.state := state_modify rfl
  have hready : k.state ntp ≠ .ready := by simp [hstart]
  have hcurrent : k.state ntp ≠ .current := by simp [hstart]
  have hne : k.current ≠ ntp := fun heq => hcurrent (heq ▸ h.running)
  obtain ⟨k₁, hres₁, h₁, hthread₁, hcur₁, hisr₁, hes₁, hprio₁, hqueue₁⟩ :=
    h0.chSchReadyI (hstate0 ▸ hready) (hstate0 ▸ hcurrent)
  rw [hprio0] at hprio₁ hqueue₁
  rw [Kernel.chSchWakeupS, if_pos htop.firstprio_le]
  simp only [current_modify, hprio0]
  by_cases hle : k.prio ntp ≤ k.prio k.current
  · rw [if_pos hle]
    refine ⟨k₁, hres₁, h₁, htop.insertBehind hle hprio₁ hcur₁ hqueue₁, hisr₁, hes₁, hprio₁,
      Or.inl ⟨hle, hcur₁, hqueue₁, ?_⟩⟩
    rw [hthread₁, thread_modify_self]
    simp [Kernel.modify, Function.update_idem]
  · have hlt : k.prio k.current < k.prio ntp := Nat.lt_of_not_le hle
    have hcons : k₁.rQueue = ntp :: k.rQueue := by
      rw [hqueue₁]
      exact PriorityList.insertBehind_eq_cons fun u hu => (htop u hu).trans_lt hlt
    have hstate₁ : ∀ u, k₁.state u = if u = ntp then .ready else k.state u := by
      intro u
      rw [Kernel.state, hthread₁]
      split_ifs with hu
      · simp [hu]
      · simp [hu, thread_modify_of_ne, Kernel.state]
    obtain ⟨hranked, htop'⟩ := h.preempted htop hlt h₁ hcons hcur₁ hprio₁ hstate₁ msg
    rw [if_neg hle]
    refine ⟨k.preempted ntp msg, ?_, hranked, htop', rfl, rfl, k.prio_preempted ntp msg,
      Or.inr ⟨hlt, rfl, rfl, k.thread_preempted hne msg⟩⟩
    rw [Kernel.chSchReadyI, hstate0, if_pos (by simp [h.running]), Option.map_some, hprio0]
    rfl

end Kernel

end SafetyTrolley
