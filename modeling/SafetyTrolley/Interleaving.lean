import SafetyTrolley.ForeignFrames

/-! The four motors share one bus, the remote is on the other. Of everything that
the two bring, a record sees the order of its own frames and nothing else. -/

namespace SafetyTrolley

theorem encoder_isolated (k : Fin 4) :
    Machine.Isolated deliver (fun db => db.chassisEncoder k) (fun m => isFeedback k m.1 m.2) where
  frame db m hm := by
    have hno : ¬ isFeedback k m.1 m.2 = true := by simp [hm]
    rw [deliver, canProcessEncoderMessage_chassisEncoder, if_neg hno]
  determined db db' m hm hdb := by
    rw [deliver, deliver, canProcessEncoderMessage_chassisEncoder,
      canProcessEncoderMessage_chassisEncoder, hdb]

theorem remote_isolated :
    Machine.Isolated deliver CanData.remoteCommand (fun m => isRemote m.1 m.2) where
  frame db m hm := by
    have hno : ¬ isRemote m.1 m.2 = true := by simp [hm]
    rw [deliver, canProcessEncoderMessage_remoteCommand, if_neg hno]
  determined db db' m hm hdb := by
    rw [deliver, deliver, canProcessEncoderMessage_remoteCommand,
      canProcessEncoderMessage_remoteCommand, hdb]

/-- Feedback comes on the motors' bus alone, so the frames say where each
message came from. -/
theorem filter_isFeedback (k : Fin 4) (es : List (CANDriver × CANRxFrame)) :
    (es.filter fun m => isFeedback k m.1 m.2) = (feedbackOf k es).map (Prod.mk CANDriver.cand1) := by
  have hbus : ∀ m ∈ es.filter (fun m => isFeedback k m.1 m.2), (Prod.mk .cand1 ∘ Prod.snd) m =
      id m := by
    intro m hm
    obtain ⟨hcanp, -⟩ := (isFeedback_iff k m.1 m.2).mp (List.mem_filter.mp hm).2
    exact Prod.ext hcanp.symm rfl
  rw [feedbackOf, List.map_map, List.map_congr_left hbus, List.map_id]

theorem record_agrees {k : Fin 4} {es es' : List (CANDriver × CANRxFrame)}
    (h : feedbackOf k es = feedbackOf k es') (db : CanData) :
    (es.foldl deliver db).chassisEncoder k = (es'.foldl deliver db).chassisEncoder k := by
  refine (encoder_isolated k).foldl_congr rfl ?_
  rw [filter_isFeedback, h, filter_isFeedback]

/-- What the receiver threads leave behind is fixed by five streams, the frames
of each motor and of the remote, and not by how these interleave. -/
theorem streams_determine {es es' : List (CANDriver × CANRxFrame)}
    (hmotors : ∀ k, feedbackOf k es = feedbackOf k es')
    (hremote : (es.filter fun m => isRemote m.1 m.2) = es'.filter fun m => isRemote m.1 m.2)
    (db : CanData) : es.foldl deliver db = es'.foldl deliver db :=
  CanData.ext_parts (fun k => record_agrees (hmotors k) db) (remote_isolated.foldl_congr rfl hremote)

/-- The motors may report in any order among each other: the four records are
the same in every field, whatever else the two buses bring. -/
theorem encoders_interleave (db : CanData) (es es' : List (CANDriver × CANRxFrame))
    (h : ∀ k, feedbackOf k es = feedbackOf k es') :
    (es.foldl deliver db).chassisEncoder = (es'.foldl deliver db).chassisEncoder :=
  funext fun k => record_agrees (h k) db

def motorTurn (i : Nat) (k : Fin 4) : CANDriver × CANRxFrame :=
  (.cand1, { angleFrame ((k + 1) * 300 * i % 8192) with id := 0x201 + BitVec.ofNat 29 k })

def roundRobin (n : Nat) : List (CANDriver × CANRxFrame) :=
  (List.range n).flatMap fun i => (List.finRange 4).map (motorTurn i)

-- Each motor's frames at once, with a frame on the remote's bus after every one.
def motorByMotor (n : Nat) : List (CANDriver × CANRxFrame) :=
  (List.finRange 4).flatMap fun k =>
    (List.range n).flatMap fun i => [motorTurn i k, (.cand2, angleFrame i)]

-- Every motor is one frame short of its origin.
theorem encoders_roundRobin :
    let db : CanData := { chassisEncoder := fun _ => { msgCount := 49 } }
    ((roundRobin 3).foldl deliver db).chassisEncoder =
    ((motorByMotor 3).foldl deliver db).chassisEncoder :=
  encoders_interleave _ _ _ (by decide +kernel)

end SafetyTrolley
