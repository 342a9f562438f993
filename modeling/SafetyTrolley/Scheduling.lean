import SafetyTrolley.KernelRuns

/-! Which thread runs, in every run of the kernel from chSysInit on. -/

namespace SafetyTrolley

namespace Kernel

variable {τ σ ℓ : Type*} [DecidableEq τ] [DecidableEq σ] [DecidableEq ℓ]

theorem sound_run {main idle : τ} {es : List (KernelEvent τ σ ℓ)} {k : Kernel τ σ ℓ}
    (hne : main ≠ idle) (h : Machine.run (step idle) (boot main idle) es = some k) : k.Sound idle :=
  Machine.run_invariant (sound_boot hne) (fun _ _ _ hs hstep => (hs.step hstep).sound) h

/-- No call by a thread or an interrupt fails: the assertions of the kernel hold, and when a
thread waits another one is there to run. -/
theorem never_halts {main idle : τ} {es : List (KernelEvent τ σ ℓ)} {k : Kernel τ σ ℓ}
    {e : KernelEvent τ σ ℓ} (hne : main ≠ idle)
    (h : Machine.run (step idle) (boot main idle) es = some k)
    (henabled : k.enabled idle e) : (k.step idle e).isSome = true := by
  obtain ⟨k', hres, -⟩ := (sound_run hne h).apply henabled
  rw [Kernel.step, if_pos henabled, hres]
  rfl

/-- Two threads of one priority asleep, of which the interrupt wakes the first. -/
def wakeFirst : List (KernelEvent Nat Unit Unit) :=
  [.create 2 65, .sleep 10, .create 3 65, .sleep 10, .isrEnter, .isrTimeout 2]

/-- The other one woken, and their turns. -/
def wakeSecond : List (KernelEvent Nat Unit Unit) :=
  [.isrTimeout 3, .isrExit, .resume, .sleep 10, .resume]

theorem never_halts_wakeFirst : ∃ k, Machine.run (step 1) (boot 0 1) wakeFirst = some k ∧
    (k.step 1 (.isrTimeout 3)).isSome = true := by
  obtain ⟨k, h, hk⟩ : ∃ k, Machine.run (step 1) (boot 0 1) wakeFirst = some k ∧
      (k.inIsr, (k.thread 3).vtArmed) = (true, true) :=
    Option.map_eq_some_iff.mp (by decide :
      (Machine.run (step 1) (boot 0 1) wakeFirst).map (fun k => (k.inIsr, (k.thread 3).vtArmed)) =
        some (true, true))
  exact ⟨k, h, never_halts (by decide) h (by simpa [enabled] using hk)⟩

/-- One thread is current, the ready list holds each ready thread once and in order of
priority, and outside interrupts no ready thread has a higher priority than the current one. -/
theorem highest_priority_runs {main idle : τ} {es : List (KernelEvent τ σ ℓ)} {k : Kernel τ σ ℓ}
    (hne : main ≠ idle) (h : Machine.run (step idle) (boot main idle) es = some k) :
    (∀ tp, k.state tp = .current ↔ tp = k.current) ∧
      (∀ tp, k.rQueue.count tp = if k.state tp = .ready then 1 else 0) ∧
      k.rQueue.Pairwise (fun tp tp' => k.prio tp' ≤ k.prio tp) ∧
      (k.inIsr = false → ∀ tp, k.state tp = .ready → k.prio tp ≤ k.prio k.current) := by
  obtain ⟨⟨hranked, -⟩, htop, -⟩ := sound_run hne h
  refine ⟨fun tp => ⟨hranked.only tp, fun heq => heq ▸ hranked.running⟩, fun tp => ?_, hranked.sorted,
    fun hout tp hready => htop hout tp ((hranked.ready tp).mpr hready)⟩
  rw [hranked.nodup.count]
  simp only [hranked.ready]

theorem highest_priority_runs_wakeFirst : ∃ k, Machine.run (step 1) (boot 0 1) wakeFirst = some k ∧
    k.rQueue = [2, 1] ∧ k.rQueue.Pairwise fun tp tp' => k.prio tp' ≤ k.prio tp := by
  obtain ⟨k, h, hk⟩ : ∃ k, Machine.run (step 1) (boot 0 1) wakeFirst = some k ∧ k.rQueue = [2, 1] :=
    Option.map_eq_some_iff.mp (by decide :
      (Machine.run (step 1) (boot 0 1) wakeFirst).map Kernel.rQueue = some [2, 1])
  exact ⟨k, h, hk, (highest_priority_runs (by decide) h).2.2.1⟩

/-- A ready thread runs before any thread of no higher priority that waits or stands behind
it on the list, whatever calls and interrupts come in between. -/
theorem no_overtaking {main idle u v : τ} {es es' : List (KernelEvent τ σ ℓ)} {k k' : Kernel τ σ ℓ}
    (hne : main ≠ idle) (h : Machine.run (step idle) (boot main idle) es = some k)
    (hahead : Ahead u v k) (h' : Machine.run (step idle) k es' = some k') (hv : k'.current = v) :
    ∃ pre m, pre <+: es' ∧ Machine.run (step idle) k pre = some m ∧ m.current = u := by
  have huntil := Machine.run_until (P := fun m => m.Sound idle ∧ Ahead u v m)
    (Q := fun m => m.current = u)
    ⟨sound_run hne h, hahead⟩ ?_ h'
  · rcases huntil with ⟨hsound, hahead'⟩ | hreached
    · have hcur : k'.state v = .current := by
        rw [← hv]
        exact hsound.coherent.ranked.running
      rcases hahead'.behind with hw | hs
      · exact absurd hv.symm (hsound.coherent.ranked.waits hw).2
      · have hready := (hsound.coherent.ranked.ready v).mp (hs.subset (by simp))
        cases hready.symm.trans hcur
    · exact hreached
  · rintro m e t ⟨hsound, ha⟩ hstep
    have hspec := hsound.step hstep
    exact (hspec.ahead u v ha).imp_right fun ha' => ⟨hspec.sound, ha'⟩

theorem no_overtaking_wakeFirst : ∃ k k', Machine.run (step 1) (boot 0 1) wakeFirst = some k ∧
    Machine.run (step 1) k wakeSecond = some k' ∧ k'.current = 3 ∧
    ∃ pre m, pre <+: wakeSecond ∧ Machine.run (step 1) k pre = some m ∧ m.current = 2 := by
  obtain ⟨k, h, hk⟩ : ∃ k, Machine.run (step 1) (boot 0 1) wakeFirst = some k ∧
      (k.rQueue, k.prio 2, k.prio 3, k.state 3, (Machine.run (step 1) k wakeSecond).map Kernel.current) =
        ([2, 1], 65, 65, .sleeping, some 3) :=
    Option.map_eq_some_iff.mp (by decide : (Machine.run (step 1) (boot 0 1) wakeFirst).map (fun k =>
      (k.rQueue, k.prio 2, k.prio 3, k.state 3, (Machine.run (step 1) k wakeSecond).map Kernel.current)) =
        some ([2, 1], 65, 65, .sleeping, some 3))
  simp only [Prod.mk.injEq] at hk
  obtain ⟨hqueue, hprio, hprio', hstate, hrun⟩ := hk
  obtain ⟨k', h', hv⟩ := Option.map_eq_some_iff.mp hrun
  have hahead : Ahead 2 3 k := ⟨by simp [hqueue], by simp [hprio, hprio'],
    Or.inl (by rw [hstate]; rfl)⟩
  exact ⟨k, k', h, h', hv, no_overtaking (by decide) h hahead h' hv⟩

end Kernel

end SafetyTrolley
