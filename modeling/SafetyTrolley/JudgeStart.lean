import SafetyTrolley.JudgeThread

/-! The start-up of the serial receiver, before which bytes find no listener,
and what holds of the receiver from then on. -/

namespace SafetyTrolley

inductive JudgeInitPc where
  | memset | sdStart | create | done
  deriving DecidableEq, Repr

structure JudgeInit where
  main : JudgeInitPc := .memset
  judge : JudgeThread := {}

inductive JudgeInitEvent where
  | main
  | judge (e : JudgeEvent)
  deriving DecidableEq, Repr

namespace JudgeInit

def mainStep (s : JudgeInit) : Option JudgeInit :=
  match s.main with
  | .memset => some { s with main := .sdStart, judge := { s.judge with rc := {} } }
  | .sdStart => some { s with main := .create }
  | .create => some { s with main := .done }
  | .done => none

-- The driver runs from `sdStart` on, the thread from its creation on.
def enabled (s : JudgeInit) (e : JudgeEvent) : Prop :=
  if e = .thread then s.main = .done else s.main = .create ∨ s.main = .done

instance (s : JudgeInit) (e : JudgeEvent) : Decidable (s.enabled e) :=
  inferInstanceAs (Decidable
    (if e = .thread then s.main = .done else s.main = .create ∨ s.main = .done))

def step (s : JudgeInit) : JudgeInitEvent → Option JudgeInit
  | .main => s.mainStep
  | .judge e =>
    if s.enabled e then (s.judge.step e).map fun judge => { s with judge := judge } else none

def judgeEvent : JudgeInitEvent → Option JudgeEvent
  | .main => none
  | .judge e => some e

abbrev run (es : List JudgeInitEvent) : Option JudgeInit := Machine.run step {} es

theorem step_judge {s t : JudgeInit} {e : JudgeEvent} (h : s.step (.judge e) = some t) :
    s.enabled e ∧ s.judge.step e = some t.judge ∧ t.main = s.main := by
  simp only [step] at h
  split_ifs at h with hen
  obtain ⟨judge, hj, rfl⟩ := Option.map_eq_some_iff.mp h
  exact ⟨hen, hj, rfl⟩

/-- Seen from the receiver, a run with the start-up is a run without it. -/
theorem run_judge {es : List JudgeInitEvent} {s : JudgeInit} (h : run es = some s) :
    Machine.run JudgeThread.step {} (es.filterMap judgeEvent) = some s.judge ∧
      (s.main = .memset ∨ s.main = .sdStart → s.judge = {}) := by
  refine Machine.run_induction (P := fun es s =>
    Machine.run JudgeThread.step {} (es.filterMap judgeEvent) = some s.judge ∧
      (s.main = .memset ∨ s.main = .sdStart → s.judge = {})) ⟨rfl, fun _ => rfl⟩ ?_ h
  intro es m e t _ hm he
  obtain ⟨hrun, hbefore⟩ := hm
  cases e with
  | main =>
    have hsame : t.judge = m.judge := by
      cases hpc : m.main <;> simp only [step, mainStep, hpc] at he <;> cases he
      · rw [hbefore (Or.inl hpc)]
      · rfl
      · rfl
    have hskip : (es ++ [JudgeInitEvent.main]).filterMap judgeEvent = es.filterMap judgeEvent := by
      simp [List.filterMap_append, judgeEvent]
    rw [hsame, hskip]
    refine ⟨hrun, fun ht => hbefore ?_⟩
    cases hpc : m.main <;> simp only [step, mainStep, hpc] at he <;> cases he <;> simp_all
  | judge e =>
    obtain ⟨hen, hst, hmain⟩ := step_judge he
    refine ⟨?_, fun ht => ?_⟩
    · rw [List.filterMap_append]
      exact Machine.run_concat.mpr ⟨m.judge, hrun, hst⟩
    · rw [hmain] at ht
      simp only [enabled] at hen
      rcases ht with ht | ht <;> simp [ht] at hen

theorem run_judge_from {s t : JudgeInit} {fs : List JudgeInitEvent} (hs : s.main = .done)
    (h : Machine.run step s fs = some t) :
    Machine.run JudgeThread.step s.judge (fs.filterMap judgeEvent) = some t.judge := by
  refine (Machine.run_induction (P := fun fs m => m.main = .done ∧
    Machine.run JudgeThread.step s.judge (fs.filterMap judgeEvent) = some m.judge) ⟨hs, rfl⟩ ?_ h).2
  rintro fs m e t - ⟨hm, hrun⟩ he
  cases e with
  | main => simp [step, mainStep, hm] at he
  | judge e =>
    obtain ⟨-, hst, hmain⟩ := step_judge he
    refine ⟨hmain.trans hm, ?_⟩
    rw [List.filterMap_append]
    exact Machine.run_concat.mpr ⟨m.judge, hrun, hst⟩

theorem created {es : List JudgeInitEvent} {s : JudgeInit} (h : run es = some s)
    (hpc : s.judge.pc ≠ .start) : s.main = .done := by
  refine Machine.run_invariant (P := fun s : JudgeInit => s.judge.pc ≠ .start → s.main = .done)
    (fun hno => absurd rfl hno) ?_ h hpc
  intro m e t hm he ht
  cases e with
  | main =>
    cases hpc : m.main <;> simp only [step, mainStep, hpc] at he <;> cases he
    · exact nomatch hpc.symm.trans (hm ht)
    · exact nomatch hpc.symm.trans (hm ht)
    · rfl
  | judge e =>
    obtain ⟨hen, hst, hmain⟩ := step_judge he
    rw [hmain]
    by_cases hthread : e = .thread
    · simpa only [enabled, if_pos hthread] using hen
    · obtain ⟨source, heq, -⟩ := JudgeThread.driver_step hthread hst
      rw [heq] at ht
      exact hm ht

end JudgeInit

namespace JudgeThread

def broadcasts (s : JudgeThread) : JudgeEvent → List (BitVec 32)
  | .receive sr _ =>
    (if sr.isError then [errorFlags sr] else []) ++
      (if sr.rxne ∧ s.iqueue = [] then [chnInputAvailable] else []) ++
      (if sr.rxne ∧ judgeBufferSize ≤ s.iqueue.length then [sdOverrunError] else [])
  | .breakDetected => [sdBreakDetected]
  | .outputEmpty => [chnOutputEmpty]
  | .transmissionEnd => [chnTransmissionEnd]
  | .thread => []

theorem driver_broadcasts {s t : JudgeThread} {e : JudgeEvent} (he : e ≠ .thread)
    (h : s.step e = some t) :
    t.source = (s.broadcasts e).foldl EventSource.chEvtBroadcastFlagsI s.source := by
  cases e with
  | receive sr b =>
    simp only [step] at h
    split_ifs at h
    cases h
    have hin (m : JudgeThread) : (m.sdIncomingDataI b).source =
        ((if m.iqueue = [] then [chnInputAvailable] else []) ++
          (if judgeBufferSize ≤ m.iqueue.length then [sdOverrunError] else [])).foldl
          EventSource.chEvtBroadcastFlagsI m.source := by
      by_cases hq : m.iqueue = []
      · simp [sdIncomingDataI, chnAddFlagsI, hq, judgeBufferSize]
      · by_cases hfull : m.iqueue.length < judgeBufferSize
        · simp [sdIncomingDataI, hq, hfull, hfull.not_ge]
        · simp [sdIncomingDataI, chnAddFlagsI, hq, hfull, not_lt.mp hfull]
    by_cases hrx : sr.rxne = true
    · rw [receive, if_pos hrx, hin]
      by_cases herr : sr.isError = true <;> simp [broadcasts, hrx, herr, setError, chnAddFlagsI]
    · rw [receive, if_neg hrx]
      by_cases herr : sr.isError = true <;> simp [broadcasts, hrx, herr, setError, chnAddFlagsI]
  | breakDetected | outputEmpty | transmissionEnd =>
    cases h
    rfl
  | thread => exact absurd rfl he

/-- Whatever the broadcasts of a driver's step keep of the event source, the step keeps. -/
theorem driver_source {P : EventSource → Prop} {s t : JudgeThread} {e : JudgeEvent}
    (hP : ∀ es, ∀ flags ∈ s.broadcasts e, P es → P (es.chEvtBroadcastFlagsI flags))
    (he : e ≠ .thread) (h : s.step e = some t) (hs : P s.source) : P t.source := by
  rw [driver_broadcasts he h]
  exact List.foldlRecOn _ _ hs fun es hes flags hmem => hP es flags hmem hes

/-- What the receiver's event source looks like: nothing before the thread has
registered, then its one listener, for which no flag that it waits for is left
without a signal except between the wait and the fetch. -/
structure Wired (s : JudgeThread) : Prop where
  unregistered : s.pc = .start → s.source = {}
  registered : s.pc ≠ .start → ∃ flags, s.source.listener = some
    ⟨serialEvtMask, flags, serialWkupFlags⟩
  signalled : s.pc ≠ .fetch → s.source.Signalled
  bounded : s.iqueue.length ≤ judgeBufferSize

theorem Wired.driver {s t : JudgeThread} {e : JudgeEvent} (h : Wired s) (he : e ≠ .thread)
    (hst : s.step e = some t) : Wired t := by
  have hfresh : s.source = {} → t.source = {} :=
    driver_source (P := (· = {})) (fun es flags _ h => by rw [h]; rfl) he hst
  have hlistener := driver_source
    (P := fun es => ∃ flags, es.listener = some ⟨serialEvtMask, flags, serialWkupFlags⟩)
    (fun es flags _ ⟨old,
      h⟩ => ⟨old ||| flags, by rw [EventSource.listener_broadcast, h]; rfl⟩) he hst
  have hsignalled : s.source.Signalled → t.source.Signalled :=
    driver_source (fun es flags _ _ => EventSource.signalled_broadcast es flags) he hst
  obtain ⟨source, rfl, -⟩ := driver_step he hst
  refine ⟨fun hpc => hfresh (h.unregistered hpc), fun hpc => hlistener (h.registered hpc),
    fun hpc => hsignalled (h.signalled hpc), ?_⟩
  have hbound := h.bounded
  cases e with
  | receive sr b =>
    simp only [queued]
    split_ifs with hput
    · rw [List.length_append, List.length_singleton]
      omega
    · exact hbound
  | _ => exact hbound

theorem Wired.of_source {s t : JudgeThread} (h : Wired s) (hs : s.pc ≠ .start) (ht : t.pc ≠ .start)
    (hsource : t.source = s.source) (hfetch : s.pc ≠ .fetch)
    (hq : t.iqueue.length ≤ s.iqueue.length) :
    Wired t := by
  refine ⟨fun hpc => absurd hpc ht, fun _ => ?_, fun _ => ?_, hq.trans h.bounded⟩
  · rw [hsource]
    exact h.registered hs
  · rw [hsource]
    exact h.signalled hfetch

theorem Wired.thread {s t : JudgeThread} (h : Wired s) (hst : s.step .thread = some t) : Wired t := by
  cases thread_cases hst with
  | register hpc =>
    refine ⟨fun hno => (by cases hno), fun _ => ⟨0, rfl⟩, fun _ elp hl hflags => ?_, h.bounded⟩
    simp only [EventSource.chEvtRegisterMaskWithFlags, Option.some.injEq] at hl
    subst hl
    simp at hflags
  | take hpc =>
    have hstart : s.pc ≠ .start := by
      rcases hpc with hpc | hpc <;> simp [hpc]
    exact ⟨fun hno => (by cases hno), fun _ => h.registered hstart, fun hno => absurd rfl hno,
      h.bounded⟩
  | fetch hpc =>
    obtain ⟨flags, hl⟩ := h.registered (by simp [hpc])
    refine ⟨fun hno => (by cases hno), fun _ => ⟨0, by simp [EventSource.clearFlags, hl]⟩,
      fun _ elp hl' hflags => ?_, h.bounded⟩
    simp only [EventSource.clearFlags, hl, Option.map_some, Option.some.injEq] at hl'
    subst hl'
    simp at hflags
  | byte r b rest hpc hq =>
    exact h.of_source (by simp [hpc]) (by simp) rfl (by simp [hpc]) (by simp [hq])
  | full r b rest hpc hq =>
    exact h.of_source (by simp [hpc]) (by simp) rfl (by simp [hpc]) (by simp [hq])
  | flush hpc | flushLast hpc | finalFlush hpc =>
    exact h.of_source (by simp [hpc]) (by simp) rfl (by simp [hpc]) (Nat.zero_le _)
  | block hpc | input hpc | reset hpc | ignore hpc | ignoreLast hpc | read hpc | skip hpc
  | empty r hpc | decode hpc | memset hpc =>
    exact h.of_source (by simp [hpc]) (by simp) rfl (by simp [hpc]) le_rfl

theorem Wired.step {s t : JudgeThread} {e : JudgeEvent} (h : Wired s) (hst : s.step e = some t) :
    Wired t := by
  by_cases he : e = .thread
  · subst he
    exact h.thread hst
  · exact h.driver he hst

theorem wired {es : List JudgeEvent} {s : JudgeThread}
    (h : Machine.run JudgeThread.step {} es = some s) :
    Wired s := by
  have hinit : Wired {} :=
    ⟨fun _ => rfl, fun hno => absurd rfl hno, fun _ _ hl => (by cases hl), Nat.zero_le _⟩
  exact Machine.run_invariant hinit (fun _ _ _ hs hst => hs.step hst) h

end JudgeThread

end SafetyTrolley
