import Mathlib.Data.List.Induction
import Mathlib.Tactic.Linarith
import SafetyTrolley.EncoderDispatch
import SafetyTrolley.Lib.Unwrap

/-! The rotor position followed through the 13-bit angle of the feedback: the
first fifty frames fix the origin, the later ones count the turns. -/

namespace SafetyTrolley

def feedbackOf (k : Fin 4) (es : List (CANDriver × CANRxFrame)) : List CANRxFrame :=
  (es.filter fun m => isFeedback k m.1 m.2).map Prod.snd

def encoderAfter (k : Fin 4) (es : List (CANDriver × CANRxFrame)) : ChassisEncoderCanStruct :=
  (es.foldl (fun db m => canProcessEncoderMessage m.1 m.2 db) ({} : CanData)).chassisEncoder k

theorem feedbackOf_concat (k : Fin 4) (es : List (CANDriver × CANRxFrame))
    (m : CANDriver × CANRxFrame) :
    feedbackOf k (es ++ [m]) = feedbackOf k es ++ if isFeedback k m.1 m.2 then [m.2] else [] := by
  by_cases h : isFeedback k m.1 m.2 = true <;> simp [feedbackOf, h]

theorem encoderAfter_concat (k : Fin 4) (es : List (CANDriver × CANRxFrame))
    (m : CANDriver × CANRxFrame) :
    encoderAfter k (es ++ [m]) =
      if isFeedback k m.1 m.2 then countFeedback (encoderAfter k es) m.2 else encoderAfter k es := by
  simp only [encoderAfter, List.foldl_append, List.foldl_cons, List.foldl_nil,
    canProcessEncoderMessage_chassisEncoder]

theorem encoderAfter_eq_foldl (k : Fin 4) (es : List (CANDriver × CANRxFrame)) :
    encoderAfter k es = (feedbackOf k es).foldl countFeedback {} := by
  induction es using List.reverseRecOn with
  | nil => rfl
  | append_singleton es m ih =>
    rw [encoderAfter_concat, feedbackOf_concat, ih]
    split_ifs <;> simp

/-- The frames report the positions `p 1, p 2, …`, sampled finely enough once
the origin `p 50` is fixed and never too far from it. -/
structure Samples (p : Nat → Int) (fs : List CANRxFrame) : Prop where
  length_lt : fs.length < 2 ^ 32
  reported : ∀ i (h : i < fs.length), (fs[i].rawAngle.toNat : Int) = p (i + 1) % 8192
  fine : ∀ i, 50 ≤ i → i < fs.length → |p (i + 1) - p i| < 4096
  near : ∀ i, 50 < i → i ≤ fs.length → |p i - p 50| ≤ 2 ^ 31 - 16384

theorem Samples.init {p : Nat → Int} {fs : List CANRxFrame} {f : CANRxFrame}
    (h : Samples p (fs ++ [f])) : Samples p fs := by
  have hlen : (fs ++ [f]).length = fs.length + 1 := List.length_append
  obtain ⟨hlt, hrep, hfine, hnear⟩ := h
  refine ⟨by omega, fun i hi => ?_, fun i h50 hi => hfine i h50 (by omega),
    fun i h50 hi => hnear i h50 (by omega)⟩
  rw [← hrep i (by omega), List.getElem_append_left hi]

structure Follows (p : Nat → Int) (n : Nat) (cm : ChassisEncoderCanStruct) : Prop where
  count : cm.msgCount.toNat = n
  angle : 0 < n → (cm.rawAngle.toNat : Int) = p n % 8192
  origin : 0 < n → (cm.offsetRawAngle.toNat : Int) = p (min n 50) % 8192
  calibrating : n ≤ 50 → cm.roundCount = 0 ∧ cm.totalEcd = 0
  turns : 50 ≤ n → 8192 * cm.roundCount.toInt + p n % 8192 - p 50 % 8192 = p n - p 50
  total : 50 ≤ n → cm.totalEcd.toInt = p n - p 50

theorem Follows.calibrate {p : Nat → Int} {n : Nat} {cm : ChassisEncoderCanStruct} {f : CANRxFrame}
    (h : Follows p n cm) (hn : n < 50) (hf : (f.rawAngle.toNat : Int) = p (n + 1) % 8192) :
    Follows p (n + 1) (countFeedback cm f) := by
  have hcount : (cm.msgCount + 1).toNat = n + 1 := by
    rw [UInt32.toNat_add, h.count]
    change (n + 1) % 2 ^ 32 = n + 1
    omega
  have hle : cm.msgCount + 1 ≤ 50 := by
    rw [UInt32.le_iff_toNat_le, hcount]
    change n + 1 ≤ 50
    omega
  obtain ⟨hround, htotal⟩ := h.calibrating hn.le
  simp only [countFeedback, if_pos hle, canGetMotorOffset, storeFeedback]
  refine ⟨hcount, fun _ => hf, fun _ => ?_, fun _ => ⟨hround, htotal⟩, fun h50 => ?_, fun h50 => ?_⟩
  · rw [hf, min_eq_left (by omega)]
  · obtain rfl : n = 49 := by omega
    simp [hround]
  · obtain rfl : n = 49 := by omega
    simp [htotal]

theorem bmod_of_int32 {x : Int} (hlo : -2 ^ 31 ≤ x) (hhi : x < 2 ^ 31) : x.bmod (2 ^ 32) = x :=
  Int.bmod_eq_of_le (by omega) (by omega)

theorem countRound_eq (cm : ChassisEncoderCanStruct)
    (h : -2 ^ 31 < cm.roundCount.toInt ∧ cm.roundCount.toInt < 2 ^ 31 - 1) :
    (countRound cm).toInt =
      cm.roundCount.toInt + Unwrap.turn 4096 cm.lastRawAngle.toNat cm.rawAngle.toNat := by
  simp only [countRound, Unwrap.turn, canEncoderRange, show (8192 : Int) / 2 = 4096 from rfl,
    show (-8192 : Int) / 2 = -4096 from rfl]
  split_ifs
  · rw [Int32.toInt_sub, Int32.toInt_one, bmod_of_int32 (by omega) (by omega)]
    omega
  · rw [Int32.toInt_add, Int32.toInt_one, bmod_of_int32 (by omega) (by omega)]
  · omega

theorem toInt_ofAngle (a : UInt16) : (Int32.ofNat a.toNat).toInt = a.toNat :=
  Int32.toInt_ofNat_of_lt (by have := a.toNat_lt; omega)

theorem totalEcd_eq {rounds : Int32} {angle origin : UInt16} (hangle : angle.toNat < 8192)
    (hmul : -2 ^ 31 ≤ rounds.toInt * 8192 ∧ rounds.toInt * 8192 ≤ 2 ^ 31 - 8192)
    (hsub : -2 ^ 31 ≤ rounds.toInt * 8192 + angle.toNat - origin.toNat) :
    (rounds * Int32.ofInt 8192 + Int32.ofNat angle.toNat - Int32.ofNat origin.toNat).toInt =
      rounds.toInt * 8192 + angle.toNat - origin.toNat := by
  have hturns : (rounds.toInt * 8192).bmod (2 ^ 32) = rounds.toInt * 8192 :=
    bmod_of_int32 hmul.1 (by omega)
  have hadd : (rounds.toInt * 8192 + angle.toNat).bmod (2 ^ 32) = rounds.toInt * 8192 + angle.toNat :=
    bmod_of_int32 (by omega) (by omega)
  rw [Int32.toInt_sub, Int32.toInt_add, Int32.toInt_mul, toInt_ofAngle, toInt_ofAngle,
    show (Int32.ofInt 8192).toInt = 8192 from rfl, hturns, hadd]
  exact bmod_of_int32 hsub (by omega)

theorem trackingValues_range {cm : ChassisEncoderCanStruct} {f : CANRxFrame}
    (hf : f.rawAngle.toNat < 8192)
    (hold : -2 ^ 31 < cm.roundCount.toInt ∧ cm.roundCount.toInt < 2 ^ 31 - 1)
    (hmul : -2 ^ 31 ≤ (canProcessChassisEncoder cm f).roundCount.toInt * 8192 ∧
      (canProcessChassisEncoder cm f).roundCount.toInt * 8192 ≤ 2 ^ 31 - 8192)
    (hsub : -2 ^ 31 ≤ (canProcessChassisEncoder cm f).roundCount.toInt * 8192 + f.rawAngle.toNat -
      cm.offsetRawAngle.toNat) : ∀ v ∈ trackingValues cm f, -2 ^ 31 ≤ v ∧ v < 2 ^ 31 := by
  intro v hv
  have hraw := cm.rawAngle.toNat_lt
  have hnew : (canProcessChassisEncoder cm f).rawAngle = f.rawAngle := rfl
  have horigin : (canProcessChassisEncoder cm f).offsetRawAngle = cm.offsetRawAngle := rfl
  simp only [trackingValues, hnew, horigin, canEncoderRange, List.cons_append, List.mem_cons,
    List.mem_append, List.not_mem_nil, or_false] at hv
  rcases hv with rfl | hv | rfl | rfl | rfl
  · omega
  · split_ifs at hv <;> simp only [List.mem_singleton, List.not_mem_nil] at hv <;> omega
  · omega
  · omega
  · omega

/-- One tracked frame at a distance `d` of the rotor from its origin: the
record arrives at the new distance, and no `int` on the way leaves its range. -/
theorem canProcessChassisEncoder_exact {cm : ChassisEncoderCanStruct} {f : CANRxFrame} {d d' : Int}
    (hcm : 8192 * cm.roundCount.toInt + cm.rawAngle.toNat - cm.offsetRawAngle.toNat = d)
    (hturn : 8192 * Unwrap.turn 4096 cm.rawAngle.toNat f.rawAngle.toNat + f.rawAngle.toNat -
      cm.rawAngle.toNat = d' - d)
    (hd : |d| ≤ 2 ^ 31 - 16384) (hd' : |d'| ≤ 2 ^ 31 - 16384) (hraw : cm.rawAngle.toNat < 8192)
    (hf : f.rawAngle.toNat < 8192) (horigin : cm.offsetRawAngle.toNat < 8192) :
    8192 * (canProcessChassisEncoder cm f).roundCount.toInt + f.rawAngle.toNat -
        cm.offsetRawAngle.toNat = d' ∧
      (canProcessChassisEncoder cm f).totalEcd.toInt = d' ∧
      ∀ v ∈ trackingValues cm f, -2 ^ 31 ≤ v ∧ v < 2 ^ 31 := by
  obtain ⟨hlo, hhi⟩ := abs_le.mp hd
  obtain ⟨hlo', hhi'⟩ := abs_le.mp hd'
  have hold : -2 ^ 31 < cm.roundCount.toInt ∧ cm.roundCount.toInt < 2 ^ 31 - 1 := by
    constructor <;> omega
  have hround : (canProcessChassisEncoder cm f).roundCount.toInt =
      cm.roundCount.toInt + Unwrap.turn 4096 cm.rawAngle.toNat f.rawAngle.toNat :=
    countRound_eq (storeFeedback { cm with lastRawAngle := cm.rawAngle } f) hold
  have hcm' : 8192 * (canProcessChassisEncoder cm f).roundCount.toInt + f.rawAngle.toNat -
      cm.offsetRawAngle.toNat = d' := by
    omega
  have hmul : -2 ^ 31 ≤ (canProcessChassisEncoder cm f).roundCount.toInt * 8192 ∧
      (canProcessChassisEncoder cm f).roundCount.toInt * 8192 ≤ 2 ^ 31 - 8192 := by
    constructor <;> omega
  have hsub : -2 ^ 31 ≤ (canProcessChassisEncoder cm f).roundCount.toInt * 8192 +
      f.rawAngle.toNat - cm.offsetRawAngle.toNat := by
    omega
  refine ⟨hcm', ?_, trackingValues_range hf hold hmul hsub⟩
  rw [← hcm', Int.mul_comm 8192]
  exact totalEcd_eq hf hmul hsub

theorem Follows.track {p : Nat → Int} {n : Nat} {cm : ChassisEncoderCanStruct} {f : CANRxFrame}
    (h : Follows p n cm) (hn : 50 ≤ n) (hlt : n + 1 < 2 ^ 32)
    (hf : (f.rawAngle.toNat : Int) = p (n + 1) % 8192) (hfine : |p (n + 1) - p n| < 4096)
    (hnear : |p n - p 50| ≤ 2 ^ 31 - 16384) (hnear' : |p (n + 1) - p 50| ≤ 2 ^ 31 - 16384) :
    Follows p (n + 1) (countFeedback cm f) ∧
      ∀ v ∈ trackingValues cm f, -2 ^ 31 ≤ v ∧ v < 2 ^ 31 := by
  have hcount : (cm.msgCount + 1).toNat = n + 1 := by
    rw [UInt32.toNat_add, h.count]
    change (n + 1) % 2 ^ 32 = n + 1
    omega
  have hgt : ¬ cm.msgCount + 1 ≤ 50 := by
    rw [UInt32.le_iff_toNat_le, hcount]
    change ¬ n + 1 ≤ 50
    omega
  have hangle := h.angle (by omega)
  have horigin := h.origin (by omega)
  have hturns := h.turns hn
  have hturn := Unwrap.turn_exact 4096 hfine
  rw [show (2 * 4096 : Int) = 8192 from rfl, ← hangle, ← hf] at hturn
  rw [min_eq_right hn] at horigin
  rw [← hangle, ← horigin] at hturns
  obtain ⟨hcm', htotal, hvalues⟩ := canProcessChassisEncoder_exact (f := f) hturns (by omega) hnear
    hnear' (by omega) (by omega) (by omega)
  refine ⟨?_, hvalues⟩
  rw [countFeedback, if_neg hgt]
  refine ⟨hcount, fun _ => hf, fun _ => ?_, fun h50 => by omega, fun _ => ?_, fun _ => htotal⟩
  · rw [min_eq_right (by omega)]
    exact horigin
  · rw [← hf, ← horigin]
    exact hcm'

theorem Follows.zero (p : Nat → Int) : Follows p 0 {} where
  count := rfl
  angle h := absurd h (lt_irrefl 0)
  origin h := absurd h (lt_irrefl 0)
  calibrating _ := ⟨rfl, rfl⟩
  turns h := absurd h (by decide)
  total h := absurd h (by decide)

theorem Samples.near_le {p : Nat → Int} {fs : List CANRxFrame} (h : Samples p fs) {n : Nat}
    (h50 : 50 ≤ n) (hn : n ≤ fs.length) : |p n - p 50| ≤ 2 ^ 31 - 16384 := by
  rcases h50.eq_or_lt with rfl | hlt
  · simp
  · exact h.near n hlt hn

theorem Samples.track_last {p : Nat → Int} {fs : List CANRxFrame} {f : CANRxFrame}
    {cm : ChassisEncoderCanStruct} (h : Samples p (fs ++ [f])) (hn : 50 ≤ fs.length)
    (hcm : Follows p fs.length cm) :
    Follows p (fs.length + 1) (countFeedback cm f) ∧
      ∀ v ∈ trackingValues cm f, -2 ^ 31 ≤ v ∧ v < 2 ^ 31 := by
  have hlen : (fs ++ [f]).length = fs.length + 1 := List.length_append
  have hlt := h.length_lt
  have hf : (f.rawAngle.toNat : Int) = p (fs.length + 1) % 8192 := by
    simpa using h.reported fs.length (by omega)
  exact hcm.track hn (by omega) hf (h.fine _ hn (by omega)) (h.near_le hn (by omega))
    (h.near_le (by omega) (by omega))

theorem Samples.follows {p : Nat → Int} {fs : List CANRxFrame} (h : Samples p fs) :
    Follows p fs.length (fs.foldl countFeedback {}) := by
  induction fs using List.reverseRecOn with
  | nil => exact Follows.zero p
  | append_singleton fs f ih =>
    have hcm := ih h.init
    rw [List.foldl_append, List.length_append]
    by_cases hn : fs.length < 50
    · have hf : (f.rawAngle.toNat : Int) = p (fs.length + 1) % 8192 := by
        simpa using h.reported fs.length (by simp)
      exact hcm.calibrate hn hf
    · exact (h.track_last (not_lt.mp hn) hcm).1

theorem Samples.of_prefix {p : Nat → Int} {fs fs' : List CANRxFrame} (h : Samples p (fs ++ fs')) :
    Samples p fs := by
  induction fs' using List.reverseRecOn with
  | nil => simpa using h
  | append_singleton fs' f ih =>
    rw [← List.append_assoc] at h
    exact ih h.init

theorem feedbackOf_append (k : Fin 4) (es es' : List (CANDriver × CANRxFrame)) :
    feedbackOf k (es ++ es') = feedbackOf k es ++ feedbackOf k es' := by
  simp [feedbackOf]

/-- The unwrapped position of a sampled motion is exact, nothing on the way
to it overflows, and it forgets the samples between its ends. -/
theorem unwrap_exact (k : Fin 4) (p : Nat → Int) (es : List (CANDriver × CANRxFrame))
    (h : Samples p (feedbackOf k es)) :
    let n := (feedbackOf k es).length
    let cm := encoderAfter k es
    (n ≤ 50 → cm.totalEcd = 0 ∧ cm.roundCount = 0) ∧
    (50 ≤ n → cm.totalEcd.toInt = p n - p 50) ∧
    (∀ pre m post, es = pre ++ m :: post → isFeedback k m.1 m.2 = true →
      50 ≤ (feedbackOf k pre).length →
      ∀ v ∈ trackingValues (encoderAfter k pre) m.2, -2 ^ 31 ≤ v ∧ v < 2 ^ 31) ∧
    ∀ p' es', Samples p' (feedbackOf k es') → 50 ≤ n → 50 ≤ (feedbackOf k es').length →
      p' 50 = p 50 → p' (feedbackOf k es').length = p n →
      (encoderAfter k es').totalEcd = cm.totalEcd := by
  intro n cm
  have hcm : Follows p n cm := by
    rw [show cm = _ from encoderAfter_eq_foldl k es]
    exact h.follows
  refine ⟨fun hn => (hcm.calibrating hn).symm, hcm.total, ?_, ?_⟩
  · rintro pre m post rfl hm hn
    have hcut : feedbackOf k (pre ++ m :: post) = (feedbackOf k pre ++ [m.2]) ++
        feedbackOf k post := by
      rw [List.append_cons, feedbackOf_append, feedbackOf_concat, if_pos hm]
    rw [hcut] at h
    rw [encoderAfter_eq_foldl]
    exact (h.of_prefix.track_last hn h.of_prefix.init.follows).2
  · intro p' es' h' hn hn' horigin hend
    have htotal := h'.follows.total hn'
    rw [← encoderAfter_eq_foldl, horigin, hend, ← hcm.total hn] at htotal
    exact Int32.toInt.inj htotal

def angleFrame (angle : Nat) : CANRxFrame where
  dlc := 8
  rtr := false
  ide := false
  id := 0x201
  data8 := #v[UInt8.ofNat (angle / 256), UInt8.ofNat angle, 0, 0, 0, 0, 0, 0]

-- A rotor that turns by 300 counts from each frame to the next, past the zero of its angle.
def steadyTurn (n : Nat) : List (CANDriver × CANRxFrame) :=
  (List.range n).map fun i => (.cand1, angleFrame (300 * (i + 1) % 8192))

theorem unwrap_steadyTurn : (encoderAfter 0 (steadyTurn 60)).totalEcd.toInt = 3000 := by
  have hlen : (feedbackOf 0 (steadyTurn 60)).length = 60 := by decide +kernel
  have hsamples : Samples (fun i => 300 * i) (feedbackOf 0 (steadyTurn 60)) := by
    refine ⟨by omega, by decide +kernel, fun i _ _ => ?_, fun i hlo hhi => ?_⟩
    · rw [abs_lt]
      omega
    · rw [abs_le]
      omega
  have htotal := (unwrap_exact 0 (fun i => 300 * i) (steadyTurn 60) hsamples).2.1 (by omega)
  rw [htotal, hlen]
  rfl

end SafetyTrolley
