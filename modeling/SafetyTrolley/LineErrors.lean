import SafetyTrolley.Commitment

/-! What becomes of a burst that a line error has hit. The thread takes one
snapshot of the flags; once that promises a decode, an error goes unseen. -/

namespace SafetyTrolley

namespace JudgeThread

structure ErrorsKept (s : JudgeThread) (m : BurstWatch) : Prop where
  registered : s.pc = .start ↔ s.source.listener = none
  waiting : s.pc.isIdle = true → Waiting s m
  uncommitted : m.hit = true → s.committed = false

theorem ErrorsKept.driver {s t : JudgeThread} {m : BurstWatch} {e : JudgeEvent} (h : ErrorsKept s m)
    (he : e ≠ .thread) (hst : s.step e = some t) (hseen : m.hitBy s e = true → s.committed = false) :
    ErrorsKept t (m.next s e) := by
  obtain ⟨source, rfl, hl⟩ := driver_step he hst
  refine ⟨?_, fun hidle => (h.waiting hidle).driver he hl, fun hm => ?_⟩
  · rw [h.registered, hl, Option.map_eq_none_iff]
  · rw [BurstWatch.next, if_neg he, Bool.or_eq_true] at hm
    exact hm.elim h.uncommitted hseen

theorem Waiting.uncommitted {s : JudgeThread} {m : BurstWatch} (h : Waiting s m)
    (hm : m.hit = true) : (s.source.elFlags &&& ~~~chnConnected == chnInputAvailable) = false := by
  by_contra hsnapshot
  rw [Bool.not_eq_false, beq_iff_eq] at hsnapshot
  have hbit (i : Nat) (hi : i ≠ 0) : s.source.elFlags.getLsbD i = chnInputAvailable.getLsbD i := by
    rw [← hsnapshot, BitVec.getLsbD_and, BitVec.getLsbD_not]
    by_cases hlt : i < 32
    · simp [hlt, chnConnected, hi]
    · simp [BitVec.getLsbD_of_ge _ i (not_lt.mp hlt)]
  rcases h.hit hm with ⟨i, hi, herr⟩ | ⟨hdown, -⟩
  · have hapart : ∀ j ∈ [5, 6, 7, 8, 9], j ≠ 0 ∧ chnInputAvailable.getLsbD j = false := by decide
    rw [hbit i (hapart i hi).1, (hapart i hi).2] at herr
    cases herr
  · rw [hbit 2 (by decide)] at hdown
    cases hdown

theorem ErrorsKept.of_busy {s : JudgeThread} {m : BurstWatch} (hl : s.source.listener ≠ none)
    (hbusy : s.pc.isIdle = false) (h : m.hit = true → s.committed = false) : ErrorsKept s m := by
  have hstart : s.pc ≠ .start := fun hpc => by rw [hpc] at hbusy; cases hbusy
  exact ⟨iff_of_false hstart hl, fun hidle => absurd hidle (by simp [hbusy]), h⟩

theorem ErrorsKept.of_idle {s : JudgeThread} {m : BurstWatch} (hl : s.source.listener ≠ none)
    (hpc : s.pc = .wait ∨ s.pc = .blocked ∨ s.pc = .fetch) (h : Waiting s m) : ErrorsKept s m := by
  refine ⟨iff_of_false ?_ hl, fun _ => h, fun _ => ?_⟩
  · rcases hpc with hpc | hpc | hpc <;> simp [hpc]
  · rcases hpc with hpc | hpc | hpc <;> simp [committed, hpc]

/-- On its way to the next event the thread keeps what it knows of the line. -/
theorem ErrorsKept.awaits {s t : JudgeThread} {m : BurstWatch} (h : ErrorsKept s m)
    (hidle : s.pc.isIdle = true)
    (hstart : s.pc ≠ .start) (hpc : t.pc = .wait ∨ t.pc = .blocked ∨ t.pc = .fetch)
    (hlistener : t.source.listener = s.source.listener) (hiqueue : t.iqueue = s.iqueue) :
    ErrorsKept t m := by
  have hflags : t.source.elFlags = s.source.elFlags := by
    rw [EventSource.elFlags, hlistener, EventSource.elFlags]
  have hkept := h.waiting hidle
  refine ErrorsKept.of_idle ?_ hpc ⟨?_, ?_⟩
  · rw [hlistener]
    exact fun hno => hstart (h.registered.mpr hno)
  · rw [hiqueue]
    exact hkept.begun
  · rw [hiqueue, hflags]
    exact hkept.hit

/-- While it serves the flags, only the commitment remains to be shown. -/
theorem ErrorsKept.serves {s t : JudgeThread} {m : BurstWatch} (h : ErrorsKept s m)
    (hstart : s.pc ≠ .start)
    (hlistener : t.source.listener = s.source.listener) (hbusy : t.pc.isIdle = false)
    (hkeep : s.committed = false → t.committed = false) : ErrorsKept t m := by
  refine ErrorsKept.of_busy ?_ hbusy fun hm => hkeep (h.uncommitted hm)
  rw [hlistener]
  exact fun hno => hstart (h.registered.mpr hno)

theorem ErrorsKept.register {s : JudgeThread} {m : BurstWatch} (h : ErrorsKept s m)
    (hpc : s.pc = .start) :
    ErrorsKept { s with
      source := s.source.chEvtRegisterMaskWithFlags serialEvtMask serialWkupFlags
      pc := .wait } m := by
  have hkept := h.waiting (by rw [hpc]; rfl)
  have hzero : s.source.elFlags = 0 := by rw [EventSource.elFlags, h.registered.mp hpc]; rfl
  refine ErrorsKept.of_idle (by simp [EventSource.chEvtRegisterMaskWithFlags]) (Or.inl rfl)
    ⟨hkept.begun, fun hm => ?_⟩
  rcases hkept.hit hm with herr | ⟨-, hq⟩
  · exact absurd (hzero ▸ herr) not_hasError_zero
  · exact Or.inr ⟨by simp, hq⟩

theorem uncommitted_input {s : JudgeThread} (hpc : s.pc = .loop)
    (hin : leastSetBit s.pendingFlags = chnInputAvailable) (h : s.committed = false) :
    JudgeThread.committed { s.isolate with pc := .sleep } = false := by
  refine beq_eq_false_iff_ne.mpr fun hzero => ?_
  rw [committed, hpc, isolate_input hin hzero] at h
  exact absurd h (by decide)

theorem uncommitted_ignore {s : JudgeThread} (hpc : s.pc = .loop)
    (hno : leastSetBit s.pendingFlags ∉ flushFlags) (h : s.committed = false) :
    JudgeThread.committed { s.isolate with pc := .loop } = false := by
  refine beq_eq_false_iff_ne.mpr fun hlast => ?_
  rw [committed, hpc] at h
  exact beq_eq_false_iff_ne.mp h (isolate_other hno hlast)

theorem ErrorsKept.thread {s t : JudgeThread} {m : BurstWatch} (h : ErrorsKept s m)
    (hst : s.step .thread = some t) : ErrorsKept t (m.next s .thread) := by
  have hl (hpc : s.pc ≠ .start) : s.source.listener ≠ none := fun hno => hpc (h.registered.mpr hno)
  cases thread_cases hst with
  | register hpc =>
    rw [BurstWatch.next_thread (by simp [hpc])]
    exact h.register hpc
  | block hpc =>
    rw [BurstWatch.next_thread (by simp [hpc])]
    exact h.awaits (by rw [hpc]; rfl) (by simp [hpc]) (Or.inr (Or.inl rfl)) rfl rfl
  | take hpc =>
    have hidle : s.pc.isIdle = true ∧ s.pc ≠ .start ∧ ¬ (s.pc = .flush ∨ s.pc = .finalFlush) := by
      rcases hpc with hpc | hpc <;> rw [hpc] <;> decide
    rw [BurstWatch.next_thread hidle.2.2]
    exact h.awaits hidle.1 hidle.2.1 (Or.inr (Or.inr rfl)) rfl rfl
  | fetch hpc =>
    rw [BurstWatch.next_thread (by simp [hpc])]
    have hkept := h.waiting (by rw [hpc]; rfl)
    refine ErrorsKept.of_busy ?_ rfl hkept.uncommitted
    simpa [EventSource.clearFlags] using hl (by simp [hpc])
  | input hpc hin =>
    rw [BurstWatch.next_thread (by simp [hpc])]
    exact h.serves (by simp [hpc]) rfl rfl (uncommitted_input hpc hin)
  | ignore hpc _ hno =>
    rw [BurstWatch.next_thread (by simp [hpc])]
    exact h.serves (by simp [hpc]) rfl rfl (uncommitted_ignore hpc hno)
  | reset hpc | ignoreLast hpc | skip hpc | decode hpc =>
    rw [BurstWatch.next_thread (by simp [hpc])]
    exact h.serves (by simp [hpc]) rfl rfl fun _ => rfl
  | read hpc hzero =>
    rw [BurstWatch.next_thread (by simp [hpc])]
    exact h.serves (by simp [hpc]) rfl rfl fun hno => by simp [committed, hpc, hzero] at hno
  | byte _ _ _ hpc | full _ _ _ hpc | empty _ hpc =>
    rw [BurstWatch.next_thread (by simp [hpc])]
    exact h.serves (by simp [hpc]) rfl rfl fun hno => by simp [committed, hpc] at hno
  | flush hpc | flushLast hpc =>
    rw [BurstWatch.next_flush (Or.inl hpc)]
    exact ErrorsKept.of_busy (hl (by simp [hpc])) rfl fun hm => by cases hm
  | finalFlush hpc =>
    rw [BurstWatch.next_flush (Or.inr hpc)]
    have hnone : Waiting { s with iqueue := [], pc := .memset } {} :=
      ⟨fun hm => (by cases hm), fun hm => (by cases hm)⟩
    exact ⟨iff_of_false (by simp) (hl (by simp [hpc])), fun _ => hnone, fun _ => rfl⟩
  | memset hpc =>
    rw [BurstWatch.next_thread (by simp [hpc])]
    exact h.awaits (by rw [hpc]; rfl) (by simp [hpc]) (Or.inl rfl) rfl rfl

theorem step_of_raisesError {s : JudgeThread} {e : JudgeEvent} (h : s.raisesError e = true) :
    e ≠ .thread ∧ ∃ t, s.step e = some t := by
  cases e with
  | receive sr b =>
    simp only [raisesError, Bool.or_eq_true, Bool.and_eq_true] at h
    have hen : (sr.isError || sr.rxne) = true := by
      rw [Bool.or_eq_true]
      exact h.imp_right And.left
    exact ⟨by simp, _, if_pos hen⟩
  | breakDetected => exact ⟨by simp, _, rfl⟩
  | _ => cases h

/-- A burst hit by a line error stays away from the decoder and the records. -/
def Dropped (x : JudgeThread × BurstWatch) : Prop :=
  x.2.hit = true → x.1.pc ≠ .decode ∧ ∀ e t, x.1.step e = some t → t.rc = x.1.rc

theorem ErrorsKept.dropped {s : JudgeThread} {m : BurstWatch} (h : ErrorsKept s m) :
    Dropped (s, m) := by
  intro hm
  have hpc : s.pc ≠ .decode := by
    intro hpc
    have hno := h.uncommitted hm
    simp [committed, hpc] at hno
  refine ⟨hpc, fun e t hst => ?_⟩
  rcases step_rc hst with ⟨-, hdec, -⟩ | hrc
  · exact absurd hdec hpc
  · exact hrc

/-- No error hits a burst to whose decoding the thread is already committed. -/
def Heeded (es : List JudgeEvent) : Prop :=
  ∀ pre e x, pre ++ [e] <+: es → watched pre = some x → x.2.hitBy x.1 e = true → x.1.committed = false

theorem errorsKept {es : List JudgeEvent} {x : JudgeThread × BurstWatch} (hseen : Heeded es)
    (h : watched es = some x) : ErrorsKept x.1 x.2 := by
  have hwaiting : Waiting {} {} := ⟨fun hm => (by cases hm), fun hm => (by cases hm)⟩
  have hinit : ErrorsKept {} {} := ⟨iff_of_true rfl rfl, fun _ => hwaiting, fun _ => rfl⟩
  refine Machine.run_induction (P := fun es x => Heeded es → ErrorsKept x.1 x.2) (fun _ => hinit) ?_
    h hseen
  intro es y e z hrun hy hst hseen
  obtain ⟨hst, hnext⟩ := Machine.watch_eq_some.mp hst
  have hkept := hy fun pre e x hpre => hseen pre e x (hpre.trans (List.prefix_append es _))
  rw [hnext]
  by_cases he : e = .thread
  · subst he
    exact hkept.thread hst
  · exact hkept.driver he hst (hseen es e y List.prefix_rfl hrun)

theorem errorsKept_thread {x y : JudgeThread × BurstWatch} (n : Nat) (hx : ErrorsKept x.1 x.2)
    (h : Machine.run (Machine.watch step BurstWatch.next) x (List.replicate n .thread) = some y) :
    ErrorsKept y.1 y.2 := by
  induction n generalizing x with
  | zero =>
    cases h
    exact hx
  | succ n ih =>
    rw [List.replicate_succ, Machine.run_cons, Option.bind_eq_some_iff] at h
    obtain ⟨z, hst, hrun⟩ := h
    obtain ⟨hst, hnext⟩ := Machine.watch_eq_some.mp hst
    refine ih ?_ hrun
    rw [hnext]
    exact hx.thread hst

/-- Every hit burst is dropped, after each beginning of a run and however long
the thread then goes on, exactly if the errors of the run are heeded. -/
theorem hit_burst_dropped_iff (es : List JudgeEvent) :
    (∀ pre n x, pre <+: es → watched (pre ++ List.replicate n .thread) = some x → Dropped x) ↔
      Heeded es := by
  constructor
  · intro h pre e x hpre hx hhit
    by_contra hcommitted
    have hraise := (hitBy_cases hhit).2
    obtain ⟨he, t, hst⟩ := step_of_raisesError hraise
    obtain ⟨source, rfl, -⟩ := driver_step he hst
    let t : JudgeThread := { x.1 with source := source, iqueue := x.1.queued e }
    have ht : watched (pre ++ [e]) = some (t, x.2.next x.1 e) :=
      Machine.run_concat.mpr ⟨x, hx, Machine.watch_eq_some.mpr ⟨hst, rfl⟩⟩
    obtain ⟨n, u, hrun, hdec⟩ :=
      decodes_of_committed (s := t) (x.2.next x.1 e) ((Bool.not_eq_false _).mp hcommitted)
    have hwatched : watched (pre ++ [e] ++ List.replicate n .thread) = some (u, x.2.next x.1 e) := by
      rw [watched, Machine.run_append]
      exact Option.bind_eq_some_iff.mpr ⟨_, ht, hrun⟩
    have hm : (x.2.next x.1 e).hit = true := by
      rw [BurstWatch.next, if_neg he, hhit]
      exact Bool.or_true _
    exact (h (pre ++ [e]) n _ hpre hwatched hm).1 hdec
  · intro hseen pre n x hpre hx
    rw [watched, Machine.run_append, Option.bind_eq_some_iff] at hx
    obtain ⟨y, hy, hrun⟩ := hx
    have hkept : ErrorsKept y.1 y.2 :=
      errorsKept (fun pre' e x hpre' => hseen pre' e x (hpre'.trans hpre)) hy
    exact (errorsKept_thread n hkept hrun).dropped

def noisyPacket : List JudgeEvent :=
  [.thread, .thread, .receive { rxne := true } 170, .thread, .thread, .thread,
    .receive { rxne := true, ne := true } 1] ++
  List.replicate 7 (.receive { rxne := true } 2) ++ [.receive { rxne := true } 170] ++
  List.replicate 12 .thread

theorem noisy_packet_decoded : ¬ ∀ es x, watched es = some x → Dropped x := by
  intro h
  have hrun : (watched noisyPacket).any (fun x => x.2.hit && decide (x.1.pc = .decode)) = true := by
    decide +kernel
  obtain ⟨x, hx, hdec⟩ := (Option.any_eq_true _ _).mp hrun
  rw [Bool.and_eq_true, decide_eq_true_eq] at hdec
  exact (h noisyPacket x hx hdec.1).1 hdec.2

end JudgeThread

end SafetyTrolley
