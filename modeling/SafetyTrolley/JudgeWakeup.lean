import SafetyTrolley.BurstWatch
import SafetyTrolley.JudgeStart

/-! Whether the serial thread asleep will be woken. The input flag is raised
by the first byte of a queue only, and that byte may have come too early. -/

namespace SafetyTrolley

namespace JudgeThread

def InputPending (s : JudgeThread) : Prop := s.source.pEpending &&& 1 = 1

theorem Wired.pending_of_flag {s : JudgeThread} (h : Wired s) (hpc : s.pc ≠ .fetch) {i : Nat}
    (hi : serialWkupFlags.getLsbD i = true) (hf : s.source.elFlags.getLsbD i = true) :
    s.InputPending := by
  have hstart : s.pc ≠ .start := by
    intro hstart
    rw [h.unregistered hstart] at hf
    simp [EventSource.elFlags] at hf
  obtain ⟨flags, hl⟩ := h.registered hstart
  refine h.signalled hpc _ hl fun hzero => ?_
  have hbit := congrArg (BitVec.getLsbD · i) hzero
  have hflags : flags.getLsbD i = true := by simpa [EventSource.elFlags, hl] using hf
  simp [hflags, hi] at hbit

theorem InputPending.driver {s t : JudgeThread} {e : JudgeEvent} (h : s.InputPending)
    (he : e ≠ .thread) (hst : s.step e = some t) : t.InputPending :=
  driver_source (P := fun es => es.pEpending &&& 1 = 1)
    (fun _ flags _ hes => EventSource.pEpending_broadcast hes flags) he hst h

theorem Wired.raised_pending {s t : JudgeThread} {e : JudgeEvent} (h : Wired s) (he : e ≠ .thread)
    (hst : s.step e = some t) (hstart : s.pc ≠ .start) (hfetch : s.pc ≠ .fetch) {i : Nat}
    (hi : serialWkupFlags.getLsbD i = true) (hr : (s.raised e).getLsbD i = true) :
    t.InputPending := by
  have ht : Wired t := h.driver he hst
  obtain ⟨source, rfl, hl⟩ := driver_step he hst
  obtain ⟨flags, hreg⟩ := h.registered hstart
  refine ht.pending_of_flag hfetch hi ?_
  simp only [EventSource.elFlags_map hl, hreg, Option.isSome_some, if_true, BitVec.getLsbD_or, hr,
    Bool.or_true]

/-- A byte wakes the thread if it finds the queue empty or full. -/
theorem Wired.arrival {s t : JudgeThread} {e : JudgeEvent} (h : Wired s) (hb : e.brings = true)
    (hst : s.step e = some t) (hstart : s.pc ≠ .start) (hfetch : s.pc ≠ .fetch) :
    t.InputPending ∨ s.iqueue ≠ [] ∧ t.iqueue.length = s.iqueue.length + 1 := by
  cases e with
  | receive sr b =>
    have hrx : sr.rxne = true := hb
    by_cases hq : s.iqueue = []
    · refine Or.inl (h.raised_pending (by simp) hst hstart hfetch (i := 2) (by decide) ?_)
      simp [raised, hrx, hq, chnInputAvailable]
    by_cases hfull : s.iqueue.length < judgeBufferSize
    · obtain ⟨source, rfl, -⟩ := driver_step (by simp) hst
      exact Or.inr ⟨hq, by simp [queued, hrx, hfull]⟩
    · refine Or.inl (h.raised_pending (by simp) hst hstart hfetch (i := 7) (by decide) ?_)
      simp [raised, hrx, not_lt.mp hfull, sdOverrunError]
  | _ => cases hb

theorem Wired.arrivals {s : JudgeThread} (h : Wired s) (hpc : s.pc = .blocked) {fs : List JudgeEvent}
    {t : JudgeThread} (hfs : ∀ f ∈ fs, f ≠ .thread)
    (hrun : Machine.run JudgeThread.step s fs = some t) :
    Wired t ∧ t.pc = .blocked ∧ (t.InputPending ∨
      t.iqueue.length = s.iqueue.length + fs.countP JudgeEvent.brings ∧
        (0 < fs.countP JudgeEvent.brings → s.iqueue ≠ [])) := by
  induction fs using List.reverseRecOn generalizing t with
  | nil =>
    cases hrun
    exact ⟨h, hpc, Or.inr ⟨by simp, fun hno => absurd hno (by simp)⟩⟩
  | append_singleton fs f ih =>
    obtain ⟨m, hm, hst⟩ := Machine.run_concat.mp hrun
    obtain ⟨hwired, hblocked, hm⟩ := ih (fun f hf => hfs f (by simp [hf])) hm
    have hf : f ≠ .thread := hfs f (by simp)
    have hpc' : t.pc = .blocked := by
      obtain ⟨source, rfl, -⟩ := driver_step hf hst
      exact hblocked
    refine ⟨hwired.driver hf hst, hpc', ?_⟩
    rcases hm with hm | ⟨hlen, hne⟩
    · exact Or.inl (hm.driver hf hst)
    rw [List.countP_append, List.countP_singleton]
    by_cases hb : f.brings = true
    · rcases hwired.arrival hb hst (by simp [hblocked]) (by simp [hblocked]) with hpend | ⟨hq, hgrow⟩
      · exact Or.inl hpend
      · refine Or.inr ⟨by rw [hgrow, hlen, if_pos hb, Nat.add_assoc], fun _ hnil => ?_⟩
        rcases Nat.eq_zero_or_pos (fs.countP JudgeEvent.brings) with hzero | hpos
        · rw [hzero, hnil] at hlen
          exact hq (List.length_eq_zero_iff.mp hlen)
        · exact hne hpos hnil
    · obtain ⟨source, rfl, -⟩ := driver_step hf hst
      have hsame : m.queued f = m.iqueue := by
        cases f with
        | receive sr b => simp [queued, show ¬ sr.rxne = true from hb]
        | _ => rfl
      refine Or.inr ⟨?_, by simpa [hb] using hne⟩
      rw [if_neg hb, Nat.add_zero, ← hlen]
      exact congrArg List.length hsame

theorem brings_of_queued {s : JudgeThread} {e : JudgeEvent} (hq : s.iqueue = [])
    (h : s.queued e ≠ []) : e.brings = true := by
  by_contra hno
  cases e with
  | receive sr b => exact h (by simp [queued, hq, show ¬ sr.rxne = true from hno])
  | _ => exact h hq

/-- A byte that waits for the thread between two iterations has its event. -/
def Drained (s : JudgeThread) : Prop :=
  s.pc = .memset ∨ s.pc = .wait ∨ s.pc = .blocked → s.iqueue ≠ [] → s.InputPending

theorem Drained.driver {s t : JudgeThread} {e : JudgeEvent} (h : s.Drained) (hw : Wired s)
    (hstart : s.pc ≠ .start) (he : e ≠ .thread) (hst : s.step e = some t) : t.Drained := by
  intro hpc hq
  have hsame : t.pc = s.pc := by
    obtain ⟨source, rfl, -⟩ := driver_step he hst
    rfl
  rw [hsame] at hpc
  by_cases hempty : s.iqueue = []
  · have hb : e.brings = true := by
      obtain ⟨source, rfl, -⟩ := driver_step he hst
      exact brings_of_queued hempty hq
    have hfetch : s.pc ≠ .fetch := by
      rcases hpc with hpc | hpc | hpc <;> simp [hpc]
    exact (hw.arrival hb hst hstart hfetch).resolve_right fun hno => hno.1 hempty
  · exact (h hpc hempty).driver he hst

theorem Drained.thread {s t : JudgeThread} (h : s.Drained) (hstart : s.pc ≠ .start)
    (hst : s.step .thread = some t) : t.Drained := by
  cases thread_cases hst with
  | register hpc => exact absurd hpc hstart
  | block hpc hp =>
    intro _ hq
    have hpend : s.source.pEpending &&& 1 = 1 := h (by simp [hpc]) hq
    rw [hp] at hpend
    cases hpend
  | finalFlush hpc => exact fun _ hq => absurd rfl hq
  | memset hpc => exact fun _ hq => h (Or.inl hpc) hq
  | _ =>
    intro hno
    simp at hno

theorem step_ne_start {s t : JudgeThread} {e : JudgeEvent} (h : s.pc ≠ .start)
    (hst : s.step e = some t) : t.pc ≠ .start := by
  by_cases he : e = .thread
  · subst he
    cases thread_cases hst with
    | _ => simp
  · obtain ⟨source, rfl, -⟩ := driver_step he hst
    exact h

theorem drained_after {m s : JudgeThread} {pre fs : List JudgeEvent}
    (hm : Machine.run JudgeThread.step {} pre = some m) (hpc : m.pc = .memset) (hd : m.Drained)
    (hrun : Machine.run JudgeThread.step m fs = some s) : s.Drained := by
  refine (Machine.run_invariant (P := fun s => Wired s ∧ s.pc ≠ .start ∧ s.Drained)
    ⟨wired hm, by simp [hpc], hd⟩ ?_ hrun).2.2
  rintro s e t ⟨hw, hstart, hd⟩ hst
  refine ⟨hw.step hst, step_ne_start hstart hst, ?_⟩
  by_cases he : e = .thread
  · subst he
    exact hd.thread hstart hst
  · exact hd.driver hw hstart he hst

theorem drained_memset {es : List JudgeEvent} {s : JudgeThread}
    (h : Machine.run JudgeThread.step {} es = some s) (hpc : s.pc = .memset) : s.Drained := by
  refine (Machine.run_invariant (P := fun s => Wired s ∧ (s.pc = .memset → s.Drained))
    ⟨wired (Machine.run_nil JudgeThread.step {}), fun hno => by cases hno⟩ ?_ h).2 hpc
  rintro s e t ⟨hw, hd⟩ hst
  refine ⟨hw.step hst, fun hpc => ?_⟩
  by_cases he : e = .thread
  · subst he
    cases thread_cases hst with
    | finalFlush => exact fun _ hq => absurd rfl hq
    | _ => cases hpc
  · have hsame : t.pc = s.pc := by
      obtain ⟨source, rfl, -⟩ := driver_step he hst
      rfl
    rw [hsame] at hpc
    exact (hd hpc).driver hw (by simp [hpc]) he hst

theorem InputPending.ne_zero {s : JudgeThread} (h : s.InputPending) :
    s.source.pEpending &&& 1 ≠ 0 := by
  intro hzero
  rw [InputPending, hzero] at h
  cases h

end JudgeThread

namespace JudgeInit

theorem pending_of_arrivals {s t : JudgeInit} {fs : List JudgeInitEvent} (hw : s.judge.Wired)
    (hmain : s.main = .done) (hpc : s.judge.pc = .blocked) (hfs : ∀ f ∈ fs, f ≠ .judge .thread)
    (hrun : Machine.run step s fs = some t)
    (hcount : 128 ≤ (fs.filterMap judgeEvent).countP JudgeEvent.brings) : t.judge.InputPending := by
  have hdriver : ∀ f ∈ fs.filterMap judgeEvent, f ≠ .thread := by
    intro f hf
    obtain ⟨g, hg, hgf⟩ := List.mem_filterMap.mp hf
    cases g with
    | main => cases hgf
    | judge g =>
      cases hgf
      exact fun hno => hfs _ hg (congrArg JudgeInitEvent.judge hno)
  obtain ⟨ht, -, hgrown⟩ := hw.arrivals hpc hdriver (run_judge_from hmain hrun)
  rcases hgrown with hpending | ⟨hlen, hne⟩
  · exact hpending
  · -- the queue would hold the 128 bytes and the one that was there before
    have hpos := List.length_pos_iff.mpr (hne (by omega))
    have hbound := ht.bounded
    simp only [judgeBufferSize] at hbound
    omega

theorem drained_of_completed {pre post : List JudgeInitEvent} {m s : JudgeInit}
    (hm : run pre = some m)
    (hmemset : m.judge.pc = .memset) (h : run (pre ++ .judge .thread :: post) = some s) :
    s.judge.Drained := by
  rw [run, Machine.run_append, Option.bind_eq_some_iff] at h
  obtain ⟨m', hm', hrun⟩ := h
  cases hm.symm.trans hm'
  have hjudge := (run_judge hm).1
  have hpost := run_judge_from (created hm (by simp [hmemset])) hrun
  exact JudgeThread.drained_after hjudge hmemset (JudgeThread.drained_memset hjudge hmemset) hpost

/-- The thread asleep is woken within 128 bytes, whatever came before it had
registered, and from the end of its first iteration on by the next byte. -/
theorem blocked_wakes (es : List JudgeInitEvent) (s : JudgeInit) (h : run es = some s)
    (hpc : s.judge.pc = .blocked) (hpend : s.judge.source.pEpending &&& 1 = 0) :
    (∀ fs t, (∀ f ∈ fs, f ≠ .judge .thread) → Machine.run step s fs = some t →
      128 ≤ (fs.filterMap judgeEvent).countP JudgeEvent.brings →
      t.judge.source.pEpending &&& 1 ≠ 0) ∧
    ∀ pre post m, es = pre ++ .judge .thread :: post → run pre = some m → m.judge.pc = .memset →
      s.judge.iqueue = [] ∧ ∀ e t, e.brings = true → s.judge.step e = some t →
        t.source.pEpending &&& 1 ≠ 0 := by
  have hw : s.judge.Wired := JudgeThread.wired (run_judge h).1
  have hmain : s.main = .done := created h (by simp [hpc])
  constructor
  · intro fs t hfs hrun hcount
    exact (pending_of_arrivals hw hmain hpc hfs hrun hcount).ne_zero
  · rintro pre post m rfl hm hmemset
    have hempty : s.judge.iqueue = [] := by
      by_contra hq
      exact (drained_of_completed hm hmemset h (by simp [hpc]) hq).ne_zero hpend
    refine ⟨hempty, fun e t hb hst => ?_⟩
    rcases hw.arrival hb hst (by simp [hpc]) (by simp [hpc]) with hpending | ⟨hq, -⟩
    · exact hpending.ne_zero
    · exact absurd hempty hq

def earlyByte : List JudgeInitEvent :=
  [.main, .main, .judge (.receive { rxne := true } 170), .main, .judge .thread, .judge .thread]

/-- A byte that came too early leaves the thread asleep on a queue that is not
empty, where it takes the overrun to wake it. -/
theorem blocked_earlyByte : ∃ s, run earlyByte = some s ∧ ∀ fs t,
    (∀ f ∈ fs, f ≠ .judge .thread) → Machine.run step s fs = some t →
      128 ≤ (fs.filterMap judgeEvent).countP JudgeEvent.brings →
      t.judge.source.pEpending &&& 1 ≠ 0 := by
  have hrun : (run earlyByte).any (fun s => decide (s.judge.pc = .blocked ∧
      s.judge.source.pEpending &&& 1 = 0)) = true := by
    decide +kernel
  obtain ⟨s, hs, hstate⟩ := (Option.any_eq_true _ _).mp hrun
  obtain ⟨hpc, hpend⟩ := of_decide_eq_true hstate
  exact ⟨s, hs, (blocked_wakes earlyByte s hs hpc hpend).1⟩

end JudgeInit

end SafetyTrolley
