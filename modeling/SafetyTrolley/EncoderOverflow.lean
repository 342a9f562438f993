import Mathlib.Data.List.Infix
import SafetyTrolley.Calibration

/-! How far the position of a motor can be counted. Its turns are followed in
unbounded integers, and every `int` of the code is exact up to 2^18 of them. -/

namespace SafetyTrolley

/-- What the frames of a motor say, in integers without bounds. -/
structure Tracker where
  frames : Nat := 0
  angle : Nat := 0
  origin : Nat := 0
  turns : Int := 0

namespace Tracker

def calibrating (s : Tracker) : Prop := (s.frames + 1) % 2 ^ 32 ≤ 50

instance (s : Tracker) : Decidable s.calibrating :=
  inferInstanceAs (Decidable ((s.frames + 1) % 2 ^ 32 ≤ 50))

def next (s : Tracker) (f : CANRxFrame) : Tracker :=
  let angle := f.rawAngle.toNat
  if s.calibrating then { s with frames := s.frames + 1, angle := angle, origin := angle }
  else
    { s with
      frames := s.frames + 1
      angle := angle
      turns := s.turns + Unwrap.turn 4096 s.angle angle }

def after (fs : List CANRxFrame) : Tracker := fs.foldl next {}

def Countable (s : Tracker) : Prop := -262144 ≤ s.turns ∧ s.turns ≤ 262143

/-- The position fits into 32 bits, and so do the turns that it is computed from. -/
def Fits (s : Tracker) : Prop := s.Countable ∧ (s.turns = -262144 → s.origin ≤ s.angle)

end Tracker

/-- All that the code computes for a tracked frame is in the range of `int`,
and the position is the integer that its formula says. -/
def TracksExactly (cm : ChassisEncoderCanStruct) (f : CANRxFrame) : Prop :=
  (∀ v ∈ trackingValues cm f, -2 ^ 31 ≤ v ∧ v < 2 ^ 31) ∧
    let cm' := canProcessChassisEncoder cm f
    cm'.totalEcd.toInt = cm'.roundCount.toInt * 8192 + cm'.rawAngle.toNat - cm'.offsetRawAngle.toNat

structure Counts (cm : ChassisEncoderCanStruct) (s : Tracker) : Prop where
  count : cm.msgCount.toNat = s.frames % 2 ^ 32
  angle : cm.rawAngle.toNat = s.angle
  origin : cm.offsetRawAngle.toNat = s.origin
  turns : cm.roundCount.toInt = s.turns

theorem Counts.calibrating_iff {cm : ChassisEncoderCanStruct} {s : Tracker} (h : Counts cm s) :
    cm.calibrating ↔ s.calibrating := by
  rw [ChassisEncoderCanStruct.calibrating, UInt32.le_iff_toNat_le, UInt32.toNat_add, h.count]
  change (s.frames % 2 ^ 32 + 1) % 2 ^ 32 ≤ 50 ↔ (s.frames + 1) % 2 ^ 32 ≤ 50
  omega

theorem Counts.roundCount {cm : ChassisEncoderCanStruct} {s : Tracker} (h : Counts cm s)
    (hs : s.Countable) (f : CANRxFrame) : (canProcessChassisEncoder cm f).roundCount.toInt =
      s.turns + Unwrap.turn 4096 s.angle f.rawAngle.toNat := by
  obtain ⟨hlo, hhi⟩ := hs
  have hround := countRound_eq (storeFeedback { cm with lastRawAngle := cm.rawAngle } f) (by
    change -2 ^ 31 < cm.roundCount.toInt ∧ cm.roundCount.toInt < 2 ^ 31 - 1
    rw [h.turns]
    omega)
  rw [← h.turns, ← h.angle]
  exact hround

theorem Counts.next {cm : ChassisEncoderCanStruct} {s : Tracker} (h : Counts cm s)
    (hs : s.Countable) (f : CANRxFrame) : Counts (countFeedback cm f) (s.next f) := by
  have hcount : (countFeedback cm f).msgCount.toNat = (s.frames + 1) % 2 ^ 32 := by
    rw [countFeedback_msgCount, UInt32.toNat_add, h.count]
    change (s.frames % 2 ^ 32 + 1) % 2 ^ 32 = _
    omega
  by_cases hcal : s.calibrating
  · rw [Tracker.next, if_pos hcal]
    refine ⟨hcount, ?_, ?_, ?_⟩ <;> rw [countFeedback_eq, if_pos (h.calibrating_iff.mpr hcal)]
    · rfl
    · rfl
    · exact h.turns
  · rw [Tracker.next, if_neg hcal]
    refine ⟨hcount, ?_, ?_, ?_⟩ <;> rw [countFeedback_eq, if_neg (mt h.calibrating_iff.mp hcal)]
    · rfl
    · exact h.origin
    · have hcounted : Counts { cm with msgCount := cm.msgCount + 1 } { s with frames := s.frames + 1 } :=
        ⟨by rw [← hcount, countFeedback_msgCount], h.angle, h.origin, h.turns⟩
      exact hcounted.roundCount hs f

/-- One tracked frame is computed exactly if and only if what it says fits. -/
theorem Counts.exact_iff {cm : ChassisEncoderCanStruct} {s : Tracker} {f : CANRxFrame}
    (h : Counts cm s) (hs : s.Countable) (horigin : s.origin < 8192) (hf : f.rawAngle.toNat < 8192)
    (hcal : ¬ s.calibrating) : TracksExactly cm f ↔ (s.next f).Fits := by
  have hround := h.roundCount hs f
  obtain ⟨hlo, hhi⟩ := hs
  have hangle := cm.rawAngle.toNat_lt
  have hnew : (canProcessChassisEncoder cm f).rawAngle = f.rawAngle := rfl
  have hold : (canProcessChassisEncoder cm f).offsetRawAngle = cm.offsetRawAngle := rfl
  have hturns := h.turns
  have horigin' := h.origin
  have hfits : (s.next f).Fits ↔
      (-262144 ≤ (canProcessChassisEncoder cm f).roundCount.toInt ∧
        (canProcessChassisEncoder cm f).roundCount.toInt ≤ 262143) ∧
      ((canProcessChassisEncoder cm f).roundCount.toInt = -262144 → s.origin ≤ f.rawAngle.toNat) := by
    rw [hround, Tracker.next, if_neg hcal]
    rfl
  rw [hfits]
  constructor
  · rintro ⟨hvalues, -⟩
    have hproduct := hvalues ((canProcessChassisEncoder cm f).roundCount.toInt * 8192)
      (by simp [trackingValues, canEncoderRange])
    have hposition := hvalues ((canProcessChassisEncoder cm f).roundCount.toInt * 8192 +
      f.rawAngle.toNat - cm.offsetRawAngle.toNat) 
      (by simp [trackingValues, canEncoderRange, hnew, hold])
    rw [h.origin] at hposition
    omega
  · rintro ⟨⟨hlo', hhi'⟩, hcorner⟩
    have hsub : -2 ^ 31 ≤ (canProcessChassisEncoder cm f).roundCount.toInt * 8192 + f.rawAngle.toNat -
        cm.offsetRawAngle.toNat := by
      rw [h.origin]
      omega
    have hmul : -2 ^ 31 ≤ (canProcessChassisEncoder cm f).roundCount.toInt * 8192 ∧
        (canProcessChassisEncoder cm f).roundCount.toInt * 8192 ≤ 2 ^ 31 - 8192 := by
      omega
    have hrange : -2 ^ 31 < cm.roundCount.toInt ∧ cm.roundCount.toInt < 2 ^ 31 - 1 := by
      omega
    exact ⟨trackingValues_range hf hrange hmul hsub, totalEcd_eq hf hmul hsub⟩

theorem forall_split_concat {α : Type*} {Φ : List α → α → Prop} {es : List α} {e : α} :
    (∀ pre m post, es ++ [e] = pre ++ m :: post → Φ pre m) ↔
      (∀ pre m post, es = pre ++ m :: post → Φ pre m) ∧ Φ es e := by
  constructor
  · intro h
    refine ⟨fun pre m post hes => h pre m (post ++ [e]) (by simp [hes]), h es e [] rfl⟩
  · rintro ⟨h, hlast⟩ pre m post hes
    rcases List.eq_nil_or_concat post with rfl | ⟨post, e', rfl⟩
    · obtain ⟨rfl, rfl⟩ := List.append_singleton_inj.mp hes
      exact hlast
    · rw [List.concat_eq_append, ← List.cons_append, ← List.append_assoc] at hes
      exact h pre m post (List.append_singleton_inj.mp hes).1

theorem after_concat (k : Fin 4) (es : List (CANDriver × CANRxFrame)) (m : CANDriver × CANRxFrame) :
    Tracker.after (feedbackOf k (es ++ [m])) =
      if isFeedback k m.1 m.2 then (Tracker.after (feedbackOf k es)).next m.2
      else Tracker.after (feedbackOf k es) := by
  rw [feedbackOf_concat]
  split_ifs <;> simp [Tracker.after]

theorem forall_prefix_concat {α : Type*} {Φ : List α → Prop} {es : List α} {e : α} :
    (∀ pre, pre <+: es ++ [e] → Φ pre) ↔ (∀ pre, pre <+: es → Φ pre) ∧ Φ (es ++ [e]) := by
  simp only [List.prefix_concat_iff]
  constructor
  · exact fun h => ⟨fun pre hpre => h pre (Or.inr hpre), h _ (Or.inl rfl)⟩
  · rintro ⟨h, hlast⟩ pre (rfl | hpre)
    · exact hlast
    · exact h pre hpre

section Run

variable {k : Fin 4} {es : List (CANDriver × CANRxFrame)}

theorem counts_after (hraw : ∀ m ∈ es, isFeedback k m.1 m.2 = true → m.2.rawAngle.toNat < 8192)
    (hfits : ∀ pre, pre <+: es → (Tracker.after (feedbackOf k pre)).Fits) :
    Counts (encoderAfter k es) (Tracker.after (feedbackOf k es)) ∧
      (Tracker.after (feedbackOf k es)).origin < 8192 := by
  induction es using List.reverseRecOn with
  | nil => exact ⟨⟨rfl, rfl, rfl, rfl⟩, (by decide : 0 < 8192)⟩
  | append_singleton es m ih =>
    obtain ⟨hbefore, -⟩ := forall_prefix_concat.mp hfits
    obtain ⟨hcounts, horigin⟩ := ih (fun m' hm' => hraw m' (by simp [hm'])) hbefore
    rw [encoderAfter_concat, after_concat]
    split_ifs with hm
    · refine ⟨hcounts.next (hbefore es List.prefix_rfl).1 m.2, ?_⟩
      rw [Tracker.next]
      split_ifs
      · exact hraw m (by simp) hm
      · exact horigin
    · exact ⟨hcounts, horigin⟩

theorem Tracker.fits_zero : ({} : Tracker).Fits := ⟨⟨by decide, by decide⟩, fun _ => le_rfl⟩

theorem Tracker.Fits.calibrate {s : Tracker} (h : s.Fits) (hcal : s.calibrating) (f : CANRxFrame) :
    (s.next f).Fits := by
  rw [Tracker.next, if_pos hcal]
  exact ⟨h.1, fun _ => le_rfl⟩

/-- All that is computed from the tracked frames of a motor is exact if and
only if the position that they say has always fitted. -/
theorem position_exact_iff (k : Fin 4) (es : List (CANDriver × CANRxFrame))
    (hraw : ∀ m ∈ es, isFeedback k m.1 m.2 = true → m.2.rawAngle.toNat < 8192) :
    (∀ pre m post, es = pre ++ m :: post → isFeedback k m.1 m.2 = true →
      ¬ (encoderAfter k pre).calibrating → TracksExactly (encoderAfter k pre) m.2) ↔
    ∀ pre, pre <+: es → (Tracker.after (feedbackOf k pre)).Fits := by
  induction es using List.reverseRecOn with
  | nil =>
    refine iff_of_true (by simp) fun pre hpre => ?_
    rw [List.prefix_nil.mp hpre]
    exact Tracker.fits_zero
  | append_singleton es m ih =>
    have hraw' : ∀ m ∈ es, isFeedback k m.1 m.2 = true → m.2.rawAngle.toNat < 8192 :=
      fun m' hm' => hraw m' (by simp [hm'])
    rw [forall_prefix_concat, forall_split_concat (Φ := fun pre m => isFeedback k m.1 m.2 = true →
      ¬ (encoderAfter k pre).calibrating → TracksExactly (encoderAfter k pre) m.2), ih hraw']
    refine and_congr_right fun hfits => ?_
    obtain ⟨hcounts, horigin⟩ := counts_after hraw' hfits
    have hnow := hfits es List.prefix_rfl
    rw [after_concat]
    by_cases hm : isFeedback k m.1 m.2 = true
    · by_cases hcal : (encoderAfter k es).calibrating
      · have hnext := hnow.calibrate (hcounts.calibrating_iff.mp hcal) m.2
        simp [hm, hcal, hnext]
      · have hexact := hcounts.exact_iff hnow.1 horigin (hraw m (by simp) hm)
          (mt hcounts.calibrating_iff.mpr hcal)
        simp [hm, hcal, hexact]
    · simp [hm, hnow]

end Run

instance (s : Tracker) : Decidable s.Fits := inferInstanceAs (Decidable ((_ ∧ _) ∧ (_ → _)))

theorem steadyTurn_succ (n : Nat) :
    steadyTurn (n + 1) = steadyTurn n ++ [(.cand1, angleFrame (300 * (n + 1) % 8192))] := by
  rw [steadyTurn, List.range_succ, List.map_append]
  rfl

theorem position_exact_steadyTurn :
    TracksExactly (encoderAfter 0 (steadyTurn 59)) (angleFrame (300 * (59 + 1) % 8192)) := by
  have hfits : ∀ pre ∈ (steadyTurn 60).inits, (Tracker.after (feedbackOf 0 pre)).Fits := by
    decide +kernel
  have hraw : ∀ m ∈ steadyTurn 60, isFeedback 0 m.1 m.2 = true → m.2.rawAngle.toNat < 8192 := by
    decide +kernel
  have htracks : ¬ (encoderAfter 0 (steadyTurn 59)).calibrating := by decide +kernel
  have hexact := (position_exact_iff 0 (steadyTurn 60) hraw).mpr
    (fun pre hpre => hfits pre ((List.mem_inits pre _).mpr hpre)) _ _ _ (steadyTurn_succ 59)
    (by rfl) htracks
  exact hexact

def calibrationFrames : List CANRxFrame := List.replicate 50 (angleFrame 0)

/-- A turn of the rotor in three frames. -/
def turnFrames : List CANRxFrame := [angleFrame 4000, angleFrame 8000, angleFrame 0]

def turnsFrames (n : Nat) : List CANRxFrame := (List.replicate n turnFrames).flatten

theorem next_angleFrame {n : Nat} {angle : Nat} {turns : Int} (hn : 50 ≤ n) (hlt : n + 1 < 2 ^ 32)
    {f : CANRxFrame} {angle' : Nat} (hf : f.rawAngle.toNat = angle') :
    Tracker.next ⟨n, angle, 0, turns⟩ f =
      ⟨n + 1, angle', 0, turns + Unwrap.turn 4096 angle angle'⟩ := by
  have hcal : ¬ Tracker.calibrating ⟨n, angle, 0, turns⟩ := by
    change ¬ (n + 1) % 2 ^ 32 ≤ 50
    omega
  rw [Tracker.next, if_neg hcal, hf]

theorem counts_turn {cm : ChassisEncoderCanStruct} {n : Nat} {turns : Int}
    (h : Counts cm ⟨n, 0, 0, turns⟩) (hn : 50 ≤ n) (hlt : n + 3 < 2 ^ 32)
    (hturns : 0 ≤ turns ∧ turns ≤ 262143) :
    Counts ([angleFrame 4000, angleFrame 8000].foldl countFeedback cm) ⟨n + 2, 8000, 0, turns⟩ ∧
      Counts (turnFrames.foldl countFeedback cm) ⟨n + 3, 0, 0, turns + 1⟩ := by
  have hcountable {n angle : Nat} : Tracker.Countable ⟨n, angle, 0, turns⟩ :=
    ⟨by change -262144 ≤ turns; omega, hturns.2⟩
  have h1 := h.next hcountable (angleFrame 4000)
  rw [next_angleFrame hn (by omega) (show _ = 4000 from rfl),
    show Unwrap.turn 4096 (0 : Nat) (4000 : Nat) = 0 from rfl, add_zero] at h1
  have h2 := h1.next hcountable (angleFrame 8000)
  rw [next_angleFrame (by omega) (by omega) (show _ = 8000 from rfl),
    show Unwrap.turn 4096 (4000 : Nat) (8000 : Nat) = 0 from rfl, add_zero] at h2
  have h3 := h2.next hcountable (angleFrame 0)
  rw [next_angleFrame (by omega) (by omega) (show _ = 0 from rfl),
    show Unwrap.turn 4096 (8000 : Nat) (0 : Nat) = 1 from rfl] at h3
  simp only [turnFrames, List.foldl_cons, List.foldl_nil]
  exact ⟨h2, h3⟩

theorem counts_turns {n : Nat} (hn : n ≤ 262144) :
    Counts ((calibrationFrames ++ turnsFrames n).foldl countFeedback {}) ⟨50 + 3 * n, 0, 0, n⟩ := by
  induction n with
  | zero => exact ⟨by decide +kernel, by decide +kernel, by decide +kernel, by decide +kernel⟩
  | succ n ih =>
    have hmore : turnsFrames (n + 1) = turnsFrames n ++ turnFrames := by
      rw [turnsFrames, List.replicate_succ', List.flatten_append]
      simp [turnsFrames]
    have hturn := (counts_turn (ih (by omega)) (by omega) (by omega) (by omega)).2
    rw [hmore, ← List.append_assoc, List.foldl_append, Nat.mul_succ, ← Nat.add_assoc, Nat.cast_succ]
    exact hturn

def frontRightMotor (fs : List CANRxFrame) : List (CANDriver × CANRxFrame) :=
  fs.map fun f => (.cand1, f)

theorem encoderAfter_frontRightMotor {fs : List CANRxFrame} (h : ∀ f ∈ fs, f.sid = 0x201) :
    encoderAfter 0 (frontRightMotor fs) = fs.foldl countFeedback {} := by
  have hall : feedbackOf 0 (frontRightMotor fs) = fs := by
    rw [feedbackOf, frontRightMotor, List.filter_eq_self.mpr, List.map_map]
    · exact List.map_id _
    · intro m hm
      obtain ⟨f, hf, rfl⟩ := List.mem_map.mp hm
      simp [isFeedback, h f hf, feedbackId]
  rw [encoderAfter_eq_foldl, hall]

theorem turnFrames_sid : ∀ f ∈ turnFrames, f.sid = 0x201 := by
  simp only [turnFrames, List.forall_mem_cons, List.not_mem_nil, false_imp_iff, implies_true,
    and_true]
  exact ⟨rfl, rfl, rfl⟩

theorem turnFrames_rawAngle : ∀ f ∈ turnFrames, f.rawAngle.toNat < 8192 := by
  simp only [turnFrames, List.forall_mem_cons, List.not_mem_nil, false_imp_iff, implies_true,
    and_true]
  decide

/-- A rotor that keeps turning one way gets to the end of the range. -/
theorem position_overflows : ¬ ∀ k es, (∀ m ∈ es, isFeedback k m.1 m.2 = true →
    m.2.rawAngle.toNat < 8192) →
    ∀ pre m post, es = pre ++ m :: post → isFeedback k m.1 m.2 = true →
      ¬ (encoderAfter k pre).calibrating → TracksExactly (encoderAfter k pre) m.2 := by
  intro h
  obtain ⟨n, hn⟩ : ∃ n, n = 262143 := ⟨_, rfl⟩
  let fs : List CANRxFrame := calibrationFrames ++ turnsFrames n ++ [angleFrame 4000, angleFrame 8000]
  have hmem : ∀ f ∈ fs ++ [angleFrame 0], f ∈ turnFrames := by
    intro f hf
    simp only [fs, calibrationFrames, turnsFrames, List.mem_append, List.mem_replicate,
      List.mem_flatten] at hf
    rcases hf with ((⟨-, rfl⟩ | ⟨l, ⟨-, rfl⟩, hf⟩) | hf) | hf
    · simp [turnFrames]
    · exact hf
    · exact List.mem_append_left [angleFrame 0] hf
    · exact List.mem_append_right [angleFrame 4000, angleFrame 8000] hf
  have hcounts : Counts (fs.foldl countFeedback {}) ⟨50 + 3 * n + 2, 8000, 0, n⟩ := by
    rw [List.foldl_append]
    exact (counts_turn (counts_turns (by omega)) (by omega) (by omega) (by omega)).1
  have hafter : encoderAfter 0 (frontRightMotor fs) = fs.foldl countFeedback {} :=
    encoderAfter_frontRightMotor fun f hf => turnFrames_sid f (hmem f (by simp [hf]))
  have hcal : ¬ Tracker.calibrating ⟨50 + 3 * n + 2, 8000, 0, n⟩ := by
    change ¬ (50 + 3 * n + 2 + 1) % 2 ^ 32 ≤ 50
    omega
  have hexact : TracksExactly (fs.foldl countFeedback {}) (angleFrame 0) := by
    rw [← hafter]
    refine h 0 (frontRightMotor (fs ++ [angleFrame 0])) ?_ (frontRightMotor fs)
      (.cand1, angleFrame 0) []
      List.map_append rfl ?_
    · intro m hm _
      obtain ⟨f, hf, rfl⟩ := List.mem_map.mp hm
      exact turnFrames_rawAngle f (hmem f hf)
    · rwa [hafter, hcounts.calibrating_iff]
  have hcountable : Tracker.Countable ⟨50 + 3 * n + 2, 8000, 0, n⟩ :=
    ⟨by change (-262144 : Int) ≤ n; omega, by change (n : Int) ≤ 262143; omega⟩
  have hfits := (hcounts.exact_iff hcountable (by decide : 0 < 8192) (by decide) hcal).mp hexact
  rw [next_angleFrame (by omega) (by omega) (show _ = 0 from rfl)] at hfits
  have hturns : (n : Int) + 1 ≤ 262143 := hfits.1.2
  omega

end SafetyTrolley
