import SafetyTrolley.EncoderUnwrap

/-! How often a motor is calibrated. The counter of its messages has 32 bits,
and what follows its overflow is taken for the start. -/

namespace SafetyTrolley

/-- The test of the dispatcher, on the counter that it has just incremented. -/
def ChassisEncoderCanStruct.calibrating (cm : ChassisEncoderCanStruct) : Prop := cm.msgCount + 1 ≤ 50

instance (cm : ChassisEncoderCanStruct) : Decidable cm.calibrating :=
  inferInstanceAs (Decidable (cm.msgCount + 1 ≤ 50))

theorem countFeedback_eq (cm : ChassisEncoderCanStruct) (rxmsg : CANRxFrame) :
    countFeedback cm rxmsg =
      if cm.calibrating then canGetMotorOffset { cm with msgCount := cm.msgCount + 1 } rxmsg
      else canProcessChassisEncoder { cm with msgCount := cm.msgCount + 1 } rxmsg := rfl

theorem countFeedback_msgCount (cm : ChassisEncoderCanStruct) (rxmsg : CANRxFrame) :
    (countFeedback cm rxmsg).msgCount = cm.msgCount + 1 := by
  rw [countFeedback_eq]
  split_ifs <;> rfl

theorem countFeedback_offset (cm : ChassisEncoderCanStruct) (rxmsg : CANRxFrame) :
    (countFeedback cm rxmsg).offsetRawAngle =
      if cm.calibrating then rxmsg.rawAngle else cm.offsetRawAngle := by
  rw [countFeedback_eq]
  split_ifs <;> rfl

theorem msgCount_foldl (fs : List CANRxFrame) :
    (fs.foldl countFeedback {}).msgCount.toNat = fs.length % 2 ^ 32 := by
  induction fs using List.reverseRecOn with
  | nil => rfl
  | append_singleton fs f ih =>
    rw [List.foldl_append, List.foldl_cons, List.foldl_nil, countFeedback_msgCount,
      UInt32.toNat_add, ih,
      List.length_append]
    change (fs.length % 2 ^ 32 + 1) % 2 ^ 32 = (fs.length + 1) % 2 ^ 32
    omega

theorem calibrating_foldl_iff (fs : List CANRxFrame) :
    (fs.foldl countFeedback {}).calibrating ↔ (fs.length + 1) % 2 ^ 32 ≤ 50 := by
  rw [ChassisEncoderCanStruct.calibrating, UInt32.le_iff_toNat_le, UInt32.toNat_add, msgCount_foldl]
  change (fs.length % 2 ^ 32 + 1) % 2 ^ 32 ≤ 50 ↔ _
  omega

theorem offset_foldl {fs : List CANRxFrame} (h50 : 50 ≤ fs.length) (hlt : fs.length < 2 ^ 32) :
    fs[49]?.map CANRxFrame.rawAngle = some (fs.foldl countFeedback {}).offsetRawAngle := by
  induction fs using List.reverseRecOn with
  | nil => cases h50
  | append_singleton fs f ih =>
    rw [List.length_append, List.length_singleton] at h50 hlt
    rw [List.foldl_append, List.foldl_cons, List.foldl_nil, countFeedback_offset]
    simp only [calibrating_foldl_iff]
    rcases h50.eq_or_lt with hlast | hmore
    · rw [if_pos (by omega), List.getElem?_append_right (by omega)]
      simp [show 49 - fs.length = 0 by omega]
    · rw [if_neg (by omega), List.getElem?_append_left (by omega)]
      exact ih (by omega) (by omega)

/-- Where in the run the frame with a given number of one motor is. -/
theorem exists_feedback {k : Fin 4} {es : List (CANDriver × CANRxFrame)} {j : Nat}
    (h : j < (feedbackOf k es).length) :
    ∃ pre m post, es = pre ++ m :: post ∧ isFeedback k m.1 m.2 = true ∧
      (feedbackOf k pre).length = j := by
  induction es using List.reverseRecOn with
  | nil => cases h
  | append_singleton es m ih =>
    by_cases hj : j < (feedbackOf k es).length
    · obtain ⟨pre, m', post, rfl, hm', hlen⟩ := ih hj
      exact ⟨pre, m', post ++ [m], by simp, hm', hlen⟩
    · rw [feedbackOf_concat, List.length_append] at h
      by_cases hm : isFeedback k m.1 m.2 = true
      · rw [if_pos hm, List.length_singleton] at h
        exact ⟨es, m, [], rfl, hm, by omega⟩
      · rw [if_neg hm, List.length_nil] at h
        exact absurd h hj

/-- A motor keeps the origin of its fiftieth frame, and tracks from then on,
exactly as long as its counter does not overflow. -/
theorem calibrated_once_iff (k : Fin 4) (es : List (CANDriver × CANRxFrame))
    (h : 50 < (feedbackOf k es).length) :
    ((feedbackOf k es)[49]?.map CANRxFrame.rawAngle = some (encoderAfter k es).offsetRawAngle ∧
      ∀ pre m post, es = pre ++ m :: post → isFeedback k m.1 m.2 = true →
        50 ≤ (feedbackOf k pre).length → ¬ (encoderAfter k pre).calibrating) ↔
    (feedbackOf k es).length < 2 ^ 32 := by
  constructor
  · rintro ⟨-, htracks⟩
    by_contra hlong
    have hlast : 2 ^ 32 - 1 < (feedbackOf k es).length := by omega
    obtain ⟨pre, m, post, rfl, hm, hlen⟩ := exists_feedback hlast
    refine htracks pre m post rfl hm (by omega) ?_
    rw [encoderAfter_eq_foldl, calibrating_foldl_iff]
    omega
  · intro hlt
    refine ⟨?_, ?_⟩
    · rw [encoderAfter_eq_foldl]
      exact offset_foldl h.le hlt
    · rintro pre m post rfl hm hn
      rw [feedbackOf_append, List.length_append] at hlt
      have hlast : (feedbackOf k (m :: post)).length ≠ 0 := by
        simp [feedbackOf, hm]
      rw [encoderAfter_eq_foldl, calibrating_foldl_iff]
      omega

theorem calibrated_steadyTurn :
    (feedbackOf 0 (steadyTurn 60))[49]?.map CANRxFrame.rawAngle =
      some (encoderAfter 0 (steadyTurn 60)).offsetRawAngle := by
  have hlen : (feedbackOf 0 (steadyTurn 60)).length = 60 := by decide +kernel
  exact ((calibrated_once_iff 0 (steadyTurn 60) (by omega)).mpr (by omega)).1

theorem feedbackOf_replicate (n angle : Nat) :
    feedbackOf 0 (List.replicate n (.cand1, angleFrame angle)) = List.replicate n
      (angleFrame angle) := by
  rw [feedbackOf, List.filter_replicate_of_pos (by rfl), List.map_replicate]

/-- After as many frames as the counter can count, the next calibrates again. -/
theorem calibrated_again {n : Nat} (hn : n + 1 = 2 ^ 32) (angle angle' : Nat) :
    (encoderAfter 0 (List.replicate n (.cand1, angleFrame angle) ++
      [(.cand1, angleFrame angle')])).offsetRawAngle =
      (angleFrame angle').rawAngle := by
  have hlen : (feedbackOf 0 (List.replicate n (.cand1, angleFrame angle))).length = n := by
    rw [feedbackOf_replicate, List.length_replicate]
  have hcal : (encoderAfter 0 (List.replicate n (.cand1, angleFrame angle))).calibrating := by
    rw [encoderAfter_eq_foldl, calibrating_foldl_iff, hlen, hn]
    omega
  rw [encoderAfter_concat, if_pos (by rfl), countFeedback_offset, if_pos hcal]

theorem calibration_repeated : ¬ ∀ k es, 50 < (feedbackOf k es).length →
    (feedbackOf k es)[49]?.map CANRxFrame.rawAngle = some (encoderAfter k es).offsetRawAngle ∧
      ∀ pre m post, es = pre ++ m :: post → isFeedback k m.1 m.2 = true →
        50 ≤ (feedbackOf k pre).length → ¬ (encoderAfter k pre).calibrating := by
  intro h
  obtain ⟨n, hn⟩ : ∃ n, n + 1 = 2 ^ 32 := ⟨2 ^ 32 - 1, by norm_num⟩
  have hfeedback : feedbackOf 0 (List.replicate n (.cand1, angleFrame 0) ++
      [(.cand1, angleFrame 1)]) =
      List.replicate n (angleFrame 0) ++ [angleFrame 1] := by
    rw [feedbackOf_append, feedbackOf_replicate]
    rfl
  have hoffset := (h 0 (List.replicate n (.cand1, angleFrame 0) ++ [(.cand1, angleFrame 1)]) (by
    rw [hfeedback, List.length_append, List.length_replicate]
    omega)).1
  rw [hfeedback, calibrated_again hn,
    List.getElem?_append_left (by rw [List.length_replicate]; omega),
    List.getElem?_replicate, if_pos (by omega)] at hoffset
  revert hoffset
  decide

end SafetyTrolley
