import SafetyTrolley.Scheduling

/-! What becomes of the events that are signalled to a thread, in every run of the kernel. -/

namespace SafetyTrolley

namespace WaitKind

/-- What a wait for `events` is to return of those pending. -/
def Answers (kind : WaitKind) (pending events m : BitVec 32) : Prop :=
  match kind with
  | .one => m ≠ 0 ∧ m = LowestBit.lowest (pending &&& events)
  | .any => m ≠ 0 ∧ m = pending &&& events
  | .all => m = events ∧ pending &&& events = events

theorem taken_one (pending events : BitVec 32) :
    WaitKind.one.taken pending events = LowestBit.lowest (pending &&& events) :=
  LowestBit.xor_and_pred _

theorem answers_taken {kind : WaitKind} {pending events : BitVec 32}
    (h : kind.satisfied pending events = true) :
    kind.Answers pending events (kind.taken pending events) := by
  cases kind with
  | one =>
    simp only [satisfied, decide_eq_true_eq] at h
    refine ⟨?_, taken_one pending events⟩
    rw [taken_one]
    intro hzero
    obtain ⟨i, hi⟩ := LowestBit.exists_lowest h
    simp [hzero] at hi
  | any =>
    simp only [satisfied, decide_eq_true_eq] at h
    exact ⟨h, rfl⟩
  | all =>
    simp only [satisfied, decide_eq_true_eq] at h
    exact ⟨rfl, h⟩

/-- No wait returns an event that is not pending. -/
theorem Answers.subset {kind : WaitKind} {pending events m : BitVec 32}
    (h : kind.Answers pending events m)
    {i : Nat} (hi : m.getLsbD i = true) : pending.getLsbD i = true ∧ events.getLsbD i = true := by
  have hand : (pending &&& events).getLsbD i = true := by
    cases kind with
    | one =>
      rw [h.2] at hi
      exact ((LowestBit.getLsbD_lowest _ i).mp hi).1
    | any =>
      rw [← h.2]
      exact hi
    | all =>
      rw [h.2, ← h.1]
      exact hi
  simpa using hand

end WaitKind

namespace Kernel

variable {τ σ ℓ : Type*} [DecidableEq τ] [DecidableEq σ] [DecidableEq ℓ]

/-- No thread is left in a wait whose events are there. -/
theorem no_missed_wakeup {main idle : τ} {es : List (KernelEvent τ σ ℓ)} {k : Kernel τ σ ℓ}
    (hne : main ≠ idle) (h : Machine.run (step idle) (boot main idle) es = some k) {tp : τ}
    {kind : WaitKind} {events : BitVec 32} {time : Option Systime}
    (hcall : (k.thread tp).call = some (.events kind events time))
    (hsat : kind.satisfied (k.thread tp).pEpending events = true) :
    k.state tp = .ready ∨ k.state tp = .current := by
  have hconsistent := (sound_run hne h).coherent.consistent tp
  cases hs : (k.thread tp).pState with
  | ready => exact Or.inl hs
  | current => exact Or.inr hs
  | wtstart =>
    simp only [Thread.Consistent, hs, hcall] at hconsistent
    cases hconsistent.1
  | sleeping | wtorevt | wtandevt =>
    have hmissing := hconsistent.missing hcall (by simp [hs, ThreadState.waits])
    simp [hmissing] at hsat

/-- A wait for two events, one of which an interrupt signals. -/
def signalWaiter : List (KernelEvent Nat Unit Unit) :=
  [.create 2 65, .wait .any 3 none, .isrEnter, .isrSignal 2 1, .isrExit]

theorem no_missed_wakeup_signalWaiter : ∃ k, Machine.run (step 1) (boot 0 1) signalWaiter = some k ∧
    (k.thread 2).pEpending = 1 ∧ (k.state 2 = .ready ∨ k.state 2 = .current) := by
  obtain ⟨k, h, hk⟩ : ∃ k, Machine.run (step 1) (boot 0 1) signalWaiter = some k ∧
      ((k.thread 2).call, (k.thread 2).pEpending) = (some (.events .any 3 none), 1) :=
    Option.map_eq_some_iff.mp
      (by decide : (Machine.run (step 1) (boot 0 1) signalWaiter).map (fun k =>
      ((k.thread 2).call, (k.thread 2).pEpending)) = some (some (.events .any 3 none), 1))
  obtain ⟨hcall, hpending⟩ := Prod.mk.inj hk
  exact ⟨k, h, hpending, no_missed_wakeup (by decide) h hcall (by rw [hpending]; decide)⟩

omit [DecidableEq τ] [DecidableEq σ] [DecidableEq ℓ] in
/-- The end of a wait in a sound state: it has timed out, or its events are there. -/
theorem Sound.answers {idle : τ} {k : Kernel τ σ ℓ} (h : k.Sound idle) {kind : WaitKind}
    {events : BitVec 32} {time : Option Systime}
    (hcall : (k.thread k.current).call = some (.events kind events time)) :
    ∃ m, k.returned .resume = some m ∧ ((time.isSome = true ∧ m = 0) ∨
      kind.Answers (k.thread k.current).pEpending events m) := by
  obtain ⟨hended, -⟩ := (h.coherent.consistent k.current).ended (Or.inr h.coherent.ranked.running)
  rcases hended kind events time hcall with ⟨htime, hpU⟩ | ⟨hpU, hsat⟩
  · have hto : k.timedOut time = true := by
      rw [timedOut, htime, hpU]
      decide
    exact ⟨0, by simp only [returned, hcall, if_pos hto], Or.inl ⟨htime, rfl⟩⟩
  · have hto : ¬ k.timedOut time = true := by
      rw [timedOut, hpU]
      simp [msgOk]
    exact ⟨_, by simp only [returned, hcall, if_neg hto], Or.inr (WaitKind.answers_taken hsat)⟩

omit [DecidableEq σ] [DecidableEq ℓ] in
theorem consumed_of_returned {k : Kernel τ σ ℓ} {e : KernelEvent τ σ ℓ} {m : BitVec 32}
    (h : k.returned e = some m) : k.consumed k.current e = m := by
  cases e with
  | wait | resume | getAndClearEvents => simp [consumed, h]
  | _ => cases h

/-- For one event of one thread: how often it was posted and how often returned, and
whether it was posted since it was last taken. -/
structure EventLedger where
  posts : Nat := 0
  returns : Nat := 0
  outstanding : Bool := false
  deriving DecidableEq, Repr

def EventLedger.next (u : τ) (i : Nat) (k : Kernel τ σ ℓ) (e : KernelEvent τ σ ℓ) (l : EventLedger) :
    EventLedger where
  posts := l.posts + if (k.posted u e).getLsbD i then 1 else 0
  returns := l.returns + if u = k.current ∧ ((k.returned e).getD 0).getLsbD i = true then 1 else 0
  outstanding := (l.outstanding || (k.posted u e).getLsbD i) && !(k.consumed u e).getLsbD i

omit [DecidableEq σ] [DecidableEq ℓ] in
/-- An event that is returned was pending. -/
theorem Sound.pending_of_returned {idle : τ} {k : Kernel τ σ ℓ} {e : KernelEvent τ σ ℓ}
    (h : k.Sound idle) {i : Nat} (hi : ((k.returned e).getD 0).getLsbD i = true) :
    (k.thread k.current).pEpending.getLsbD i = true ∧ (k.consumed k.current e).getLsbD i = true := by
  cases hm : k.returned e with
  | none => simp [hm] at hi
  | some m =>
    rw [hm, Option.getD_some] at hi
    rw [consumed_of_returned hm]
    refine ⟨?_, hi⟩
    cases e with
    | wait kind events time =>
      simp only [returned] at hm
      split_ifs at hm with hsat
      · cases hm
        exact ((WaitKind.answers_taken hsat).subset hi).1
      · cases hm
        simp at hi
    | resume =>
      cases hcall : (k.thread k.current).call with
      | none => simp [returned, hcall] at hm
      | some call =>
        cases call with
        | sleep => simp [returned, hcall] at hm
        | events kind events time =>
          obtain ⟨m', hm', ⟨-, rfl⟩ | hans⟩ := h.answers hcall
          · cases hm'.symm.trans hm
            simp at hi
          · cases hm'.symm.trans hm
            exact (hans.subset hi).1
    | getAndClearEvents events =>
      cases hm
      rw [BitVec.getLsbD_and, Bool.and_eq_true] at hi
      exact hi.1
    | _ => cases hm

theorem getLsbD_and_not (x y : BitVec 32) (i : Nat) :
    (x &&& ~~~y).getLsbD i = (x.getLsbD i && !y.getLsbD i) := by
  rw [BitVec.getLsbD_and, BitVec.getLsbD_not]
  by_cases hx : x.getLsbD i = true
  · simp [BitVec.lt_of_getLsbD hx]
  · simp [hx]

/-- An event is pending just when it was posted since it was last taken, and none is
returned that was not posted before. -/
theorem events_conserved {main idle u : τ} {i : Nat} {es : List (KernelEvent τ σ ℓ)}
    {k : Kernel τ σ ℓ} {l : EventLedger} (hne : main ≠ idle)
    (h : Machine.run (Machine.watch (step idle) (EventLedger.next u i)) (boot main idle, {}) es =
      some (k, l)) :
    (k.thread u).pEpending.getLsbD i = l.outstanding ∧
      l.returns + (if (k.thread u).pEpending.getLsbD i then 1 else 0) ≤ l.posts := by
  have hinv := Machine.watch_invariant (P := fun k l => k.Sound idle ∧
    (k.thread u).pEpending.getLsbD i = l.outstanding ∧
      l.returns + (if (k.thread u).pEpending.getLsbD i then 1 else 0) ≤ l.posts) ?_ ?_ h
  · exact hinv.2
  · have hboot : ((boot main idle : Kernel τ σ ℓ).thread u).pEpending = 0 := by
      simp only [boot, Function.update_apply]
      split_ifs <;> rfl
    rw [hboot]
    exact ⟨sound_boot hne, by simp, by simp⟩
  · rintro k l e k' ⟨hsound, hout, hle⟩ hstep
    have hspec := hsound.step hstep
    refine ⟨hspec.sound, ?_⟩
    rw [hspec.pEpending u, getLsbD_and_not, BitVec.getLsbD_or, hout]
    refine ⟨rfl, ?_⟩
    rw [hout] at hle
    simp only [EventLedger.next]
    by_cases hret : u = k.current ∧ ((k.returned e).getD 0).getLsbD i = true
    · -- what is returned was outstanding, and is taken
      obtain ⟨hpending, htaken⟩ := hsound.pending_of_returned hret.2
      rw [← hret.1, hout] at hpending
      rw [← hret.1] at htaken
      simp only [hpending, if_true] at hle
      rw [if_pos hret, htaken]
      simp only [Bool.not_true, Bool.and_false, Bool.false_eq_true, if_false]
      omega
    · rw [if_neg hret]
      cases hl : l.outstanding <;> cases (k.posted u e).getLsbD i <;> cases (k.consumed u e).getLsbD i <;>
        simp only [hl, Bool.or_true, Bool.or_false, Bool.not_true, Bool.not_false, Bool.and_true,
          Bool.and_false, Bool.false_eq_true, if_true, if_false] at hle ⊢ <;>
        omega

theorem events_conserved_signalWaiter : ∃ k l,
    Machine.run (Machine.watch (step 1) (EventLedger.next 2 0)) (boot 0 1, {})
      (signalWaiter ++ [.resume]) =
      some (k, l) ∧ l = { posts := 1, returns := 1, outstanding := false } ∧
    (k.thread 2).pEpending.getLsbD 0 = l.outstanding := by
  obtain ⟨⟨k, l⟩, h, hl⟩ := Option.map_eq_some_iff.mp (by decide :
    (Machine.run (Machine.watch (step 1) (EventLedger.next 2 0)) (boot 0 1, {})
      (signalWaiter ++ [.resume])).map Prod.snd =
        some { posts := 1, returns := 1, outstanding := false })
  exact ⟨k, l, h, hl, (events_conserved (by decide) h).1⟩

end Kernel

end SafetyTrolley
