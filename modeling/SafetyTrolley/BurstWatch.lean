import SafetyTrolley.JudgeThread

/-! A burst and the line errors that hit it, against what the listener's flags
still show of them when the thread comes to fetch them. -/

namespace SafetyTrolley

def JudgeEvent.brings : JudgeEvent → Bool
  | .receive sr _ => sr.rxne
  | _ => false

def JudgeThread.raisesError (s : JudgeThread) : JudgeEvent → Bool
  | .receive sr _ => sr.isError || (sr.rxne && judgeBufferSize ≤ s.iqueue.length)
  | .breakDetected => true
  | _ => false

/-- The burst since the last reset of the queue: whether a byte of it has
arrived, and whether an error was raised from then on and before the end of
its read. -/
structure BurstWatch where
  begun : Bool := false
  hit : Bool := false
  deriving DecidableEq, Repr

def BurstWatch.hitBy (s : JudgeThread) (e : JudgeEvent) (m : BurstWatch) : Bool :=
  (m.begun || e.brings) && s.raisesError e && s.pc != .decode

def BurstWatch.next (s : JudgeThread) (e : JudgeEvent) (m : BurstWatch) : BurstWatch :=
  if e = .thread then
    if s.pc = .flush ∨ s.pc = .finalFlush then {} else m
  else { begun := m.begun || e.brings, hit := m.hit || m.hitBy s e }

theorem BurstWatch.next_thread {s : JudgeThread} {m : BurstWatch}
    (hpc : ¬ (s.pc = .flush ∨ s.pc = .finalFlush)) : m.next s .thread = m := by
  rw [BurstWatch.next, if_pos rfl, if_neg hpc]

theorem BurstWatch.next_flush {s : JudgeThread} {m : BurstWatch}
    (hpc : s.pc = .flush ∨ s.pc = .finalFlush) :
    m.next s .thread = {} := by
  rw [BurstWatch.next, if_pos rfl, if_pos hpc]

namespace JudgeThread

abbrev watched (es : List JudgeEvent) : Option (JudgeThread × BurstWatch) :=
  Machine.run (Machine.watch step BurstWatch.next) ({}, {}) es

theorem watched_run (es : List JudgeEvent) : (watched es).map Prod.fst = Machine.run step {} es :=
  Machine.run_watch_fst step BurstWatch.next ({}, {}) es

def HasError (flags : BitVec 32) : Prop := ∃ i ∈ [5, 6, 7, 8, 9], flags.getLsbD i = true

instance (flags : BitVec 32) : Decidable (HasError flags) :=
  inferInstanceAs (Decidable (∃ i ∈ [5, 6, 7, 8, 9], flags.getLsbD i = true))

theorem HasError.or_left {f : BitVec 32} (h : HasError f) (g : BitVec 32) : HasError (f ||| g) := by
  obtain ⟨i, hi, hf⟩ := h
  exact ⟨i, hi, by rw [BitVec.getLsbD_or, hf, Bool.true_or]⟩

theorem HasError.or_right {g : BitVec 32} (h : HasError g) (f : BitVec 32) : HasError (f ||| g) := by
  rw [BitVec.or_comm]
  exact h.or_left f

theorem hasError_errorFlags {sr : UsartSr} (h : sr.isError = true) : HasError (errorFlags sr) := by
  rcases sr with ⟨_ | _, _ | _, _ | _, _ | _, rxne⟩
  case false.false.false.false => cases h
  all_goals revert rxne; decide

theorem errorFlags_input (sr : UsartSr) : (errorFlags sr).getLsbD 2 = false := by
  rcases sr with ⟨_ | _, _ | _, _ | _, _ | _, rxne⟩ <;> revert rxne <;> decide

theorem hasError_raised {s : JudgeThread} {e : JudgeEvent} (h : s.raisesError e = true) :
    HasError (s.raised e) := by
  cases e with
  | receive sr b =>
    simp only [raisesError, Bool.or_eq_true, Bool.and_eq_true, decide_eq_true_eq] at h
    rcases h with herr | hfull
    · rw [raised, if_pos herr]
      exact ((hasError_errorFlags herr).or_left _).or_left _
    · rw [raised, if_pos hfull]
      exact HasError.or_right (by decide) _
  | breakDetected => exact (by decide : HasError sdBreakDetected)
  | _ => cases h

theorem raised_input {s : JudgeThread} {e : JudgeEvent} (hq : s.iqueue ≠ []) :
    (s.raised e).getLsbD 2 = false := by
  cases e with
  | receive sr b =>
    have herr : (if sr.isError then errorFlags sr else 0).getLsbD 2 = false := by
      split_ifs
      · exact errorFlags_input sr
      · decide
    have hempty : ¬ (sr.rxne = true ∧ s.iqueue = []) := fun h => hq h.2
    have hover :
        (if sr.rxne ∧ judgeBufferSize ≤ s.iqueue.length then sdOverrunError else 0).getLsbD 2 =
        false := by
      split_ifs <;> decide
    rw [raised, if_neg hempty, BitVec.getLsbD_or, BitVec.getLsbD_or, herr, hover]
    decide
  | breakDetected => exact (by decide : sdBreakDetected.getLsbD 2 = false)
  | outputEmpty => exact (by decide : chnOutputEmpty.getLsbD 2 = false)
  | transmissionEnd => exact (by decide : chnTransmissionEnd.getLsbD 2 = false)
  | thread => exact (by decide : (0 : BitVec 32).getLsbD 2 = false)

theorem queued_ne_nil {s : JudgeThread} {e : JudgeEvent} (h : s.iqueue ≠ [] ∨ e.brings = true) :
    s.queued e ≠ [] := by
  cases e with
  | receive sr b =>
    simp only [queued]
    split_ifs with hput
    · simp
    · rintro hnil
      rcases h with h | h
      · exact h hnil
      · exact hput ⟨h, by rw [hnil]; decide⟩
  | _ => exact h.resolve_right (by simp [JudgeEvent.brings])

theorem not_hasError_zero : ¬ HasError 0 := by decide

/-- While a hit burst waits for the thread, an error flag waits with it, or
else the input flag is down and stays down. -/
structure Waiting (s : JudgeThread) (m : BurstWatch) : Prop where
  begun : m.begun = true → s.iqueue ≠ []
  hit : m.hit = true →
    HasError s.source.elFlags ∨ s.source.elFlags.getLsbD 2 = false ∧ s.iqueue ≠ []

theorem hitBy_cases {s : JudgeThread} {m : BurstWatch} {e : JudgeEvent} (h : m.hitBy s e = true) :
    (m.begun || e.brings) = true ∧ s.raisesError e = true := by
  simp only [BurstWatch.hitBy, Bool.and_eq_true] at h
  exact h.1

theorem Waiting.driver {s : JudgeThread} {m : BurstWatch} {e : JudgeEvent} {source : EventSource}
    (h : Waiting s m) (he : e ≠ .thread)
    (hl : source.listener =
      s.source.listener.map fun elp => { elp with elFlags := elp.elFlags ||| s.raised e }) :
    Waiting { s with source := source, iqueue := s.queued e } (m.next s e) := by
  rw [BurstWatch.next, if_neg he]
  have hqueue (hb : (m.begun || e.brings) = true) : s.queued e ≠ [] := by
    rw [Bool.or_eq_true] at hb
    exact queued_ne_nil (hb.imp_left h.begun)
  refine ⟨hqueue, fun hm => ?_⟩
  simp only [Bool.or_eq_true] at hm
  simp only [EventSource.elFlags_map hl]
  cases hls : s.source.listener with
  | none =>
    have hzero : s.source.elFlags = 0 := by rw [EventSource.elFlags, hls]; rfl
    refine Or.inr ⟨by simp, ?_⟩
    rcases hm with hm | hm
    · rcases h.hit hm with herr | ⟨-, hq⟩
      · exact absurd (hzero ▸ herr) not_hasError_zero
      · exact queued_ne_nil (Or.inl hq)
    · exact hqueue (hitBy_cases hm).1
  | some elp =>
    simp only [Option.isSome_some, if_true]
    rcases hm with hm | hm
    · rcases h.hit hm with herr | ⟨hdown, hq⟩
      · exact Or.inl (herr.or_left _)
      · refine Or.inr ⟨?_, queued_ne_nil (Or.inl hq)⟩
        rw [BitVec.getLsbD_or, hdown, raised_input hq]
        rfl
    · exact Or.inl ((hasError_raised (hitBy_cases hm).2).or_right _)

end JudgeThread

end SafetyTrolley
