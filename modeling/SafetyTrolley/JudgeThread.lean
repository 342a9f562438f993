import SafetyTrolley.Events
import SafetyTrolley.Lib.LowestBit
import SafetyTrolley.Lib.Machine
import SafetyTrolley.RcRemote

/-! The serial receiver: the interrupt of the USART, which queues bytes and
raises flags, against the thread that waits for them. -/

namespace SafetyTrolley

def chnConnected : BitVec 32 := 1
def chnDisconnected : BitVec 32 := 2
def chnInputAvailable : BitVec 32 := 4
def chnOutputEmpty : BitVec 32 := 8
def chnTransmissionEnd : BitVec 32 := 16
def sdParityError : BitVec 32 := 32
def sdFramingError : BitVec 32 := 64
def sdOverrunError : BitVec 32 := 128
def sdNoiseError : BitVec 32 := 256
def sdBreakDetected : BitVec 32 := 512

def serialEvtMask : BitVec 32 := 1

def serialWkupFlags : BitVec 32 :=
  chnInputAvailable ||| chnDisconnected ||| sdNoiseError ||| sdParityError ||| sdFramingError |||
    sdOverrunError ||| sdBreakDetected

def flushFlags : List (BitVec 32) :=
  [chnDisconnected, sdNoiseError, sdParityError, sdFramingError, sdOverrunError, sdBreakDetected]

def leastSetBit (x : BitVec 32) : BitVec 32 := LowestBit.lowest x

/-- Where the thread stands: before its registration, at the call that waits
and asleep in it, then at the steps of one iteration, with the number of bytes
already read. -/
inductive JudgePc where
  | start | wait | blocked | fetch | loop | sleep
  | read (r : Nat)
  | decode | flush | finalFlush | memset
  deriving DecidableEq, Repr

def JudgePc.isIdle : JudgePc → Bool
  | .start | .wait | .blocked | .fetch | .memset => true
  | _ => false

structure JudgeThread where
  source : EventSource := {}
  iqueue : List UInt8 := []
  pc : JudgePc := .start
  pendingFlags : BitVec 32 := 0
  currentFlag : BitVec 32 := 0
  sdrxbuf : RxBuffer := Vector.replicate judgeBufferSize 0
  datalength : UInt8 := 0
  rc : RcData := {}
  deriving DecidableEq

structure UsartSr where
  ore : Bool := false
  pe : Bool := false
  fe : Bool := false
  ne : Bool := false
  rxne : Bool := false
  deriving DecidableEq, Repr

def UsartSr.isError (sr : UsartSr) : Bool := sr.ore || sr.pe || sr.fe || sr.ne

/-- `receive` is one pass of the interrupt's receive loop with the status and
the byte that it reads; the next three are its other sources, and `thread` is
the next step of the thread. -/
inductive JudgeEvent where
  | receive (sr : UsartSr) (b : UInt8)
  | breakDetected
  | outputEmpty
  | transmissionEnd
  | thread
  deriving DecidableEq, Repr

namespace JudgeThread

def chnAddFlagsI (s : JudgeThread) (flags : BitVec 32) : JudgeThread :=
  { s with source := s.source.chEvtBroadcastFlagsI flags }

def errorFlags (sr : UsartSr) : BitVec 32 :=
  (if sr.ore then sdOverrunError else 0) ||| (if sr.pe then sdParityError else 0) |||
    (if sr.fe then sdFramingError else 0) ||| (if sr.ne then sdNoiseError else 0)

def setError (s : JudgeThread) (sr : UsartSr) : JudgeThread := s.chnAddFlagsI (errorFlags sr)

def sdIncomingDataI (s : JudgeThread) (b : UInt8) : JudgeThread :=
  let s := if s.iqueue = [] then s.chnAddFlagsI chnInputAvailable else s
  if s.iqueue.length < judgeBufferSize then { s with iqueue := s.iqueue ++ [b] }
  else s.chnAddFlagsI sdOverrunError

def receive (s : JudgeThread) (sr : UsartSr) (b : UInt8) : JudgeThread :=
  let s := if sr.isError then s.setError sr else s
  if sr.rxne then s.sdIncomingDataI b else s

def nextFlag (s : JudgeThread) : JudgeThread :=
  if s.pendingFlags ≠ 0 then { s with pc := .loop } else { s with pc := .finalFlush }

def serveFlag (s : JudgeThread) : JudgeThread :=
  let currentFlag := leastSetBit s.pendingFlags
  let s := { s with currentFlag := currentFlag, pendingFlags := s.pendingFlags &&& ~~~currentFlag }
  if currentFlag = chnInputAvailable then { s with pc := .sleep }
  else if currentFlag ∈ flushFlags then { s with pc := .flush }
  else s.nextFlag

def readByte (s : JudgeThread) (r : Nat) : JudgeThread :=
  match s.iqueue with
  | [] => { s with datalength := UInt8.ofNat r, pc := .decode }
  | b :: rest =>
    let s := { s with iqueue := rest, sdrxbuf := s.sdrxbuf.setIfInBounds r b }
    if r + 1 = judgeBufferSize then { s with datalength := UInt8.ofNat (r + 1), pc := .decode }
    else { s with pc := .read (r + 1) }

def threadStep (s : JudgeThread) : Option JudgeThread :=
  match s.pc with
  | .start =>
    some { s with
      source := s.source.chEvtRegisterMaskWithFlags serialEvtMask serialWkupFlags, pc := .wait }
  | .wait =>
    if s.source.pEpending &&& 1 = 0 then some { s with pc := .blocked }
    else some { s with source := s.source.takeEvents 1, pc := .fetch }
  | .blocked =>
    if s.source.pEpending &&& 1 = 0 then none
    else some { s with source := s.source.takeEvents 1, pc := .fetch }
  | .fetch =>
    let (flags, source) := s.source.chEvtGetAndClearFlagsI
    some { s with source := source, pendingFlags := flags, pc := .loop }
  | .loop => some s.serveFlag
  | .sleep => some { s with pc := if s.pendingFlags = 0 then .read 0 else .flush }
  | .read r => some (s.readByte r)
  | .decode => some { s with rc := serialDecode s.sdrxbuf s.rc, pc := .flush }
  | .flush => some { s with iqueue := [] }.nextFlag
  | .finalFlush => some { s with iqueue := [], pc := .memset }
  | .memset => some { s with sdrxbuf := Vector.replicate judgeBufferSize 0, pc := .wait }

def step (s : JudgeThread) : JudgeEvent → Option JudgeThread
  | .receive sr b => if sr.isError || sr.rxne then some (s.receive sr b) else none
  | .breakDetected => some (s.chnAddFlagsI sdBreakDetected)
  | .outputEmpty => some (s.chnAddFlagsI chnOutputEmpty)
  | .transmissionEnd => some (s.chnAddFlagsI chnTransmissionEnd)
  | .thread => s.threadStep

def raised (s : JudgeThread) : JudgeEvent → BitVec 32
  | .receive sr _ =>
    (if sr.isError then errorFlags sr else 0) |||
      (if sr.rxne ∧ s.iqueue = [] then chnInputAvailable else 0) |||
      (if sr.rxne ∧ judgeBufferSize ≤ s.iqueue.length then sdOverrunError else 0)
  | .breakDetected => sdBreakDetected
  | .outputEmpty => chnOutputEmpty
  | .transmissionEnd => chnTransmissionEnd
  | .thread => 0

def queued (s : JudgeThread) : JudgeEvent → List UInt8
  | .receive sr b =>
    if sr.rxne ∧ s.iqueue.length < judgeBufferSize then s.iqueue ++ [b] else s.iqueue
  | _ => s.iqueue

theorem sdIncomingDataI_eq (s : JudgeThread) (b : UInt8) :
    ∃ source : EventSource,
      s.sdIncomingDataI b =
        { s with
          source := source
          iqueue := if s.iqueue.length < judgeBufferSize then s.iqueue ++ [b] else s.iqueue } ∧
      source.listener = s.source.listener.map fun elp =>
        { elp with
          elFlags := elp.elFlags ||| (if s.iqueue = [] then chnInputAvailable else 0) |||
            (if judgeBufferSize ≤ s.iqueue.length then sdOverrunError else 0) } := by
  by_cases hq : s.iqueue = []
  · refine ⟨s.source.chEvtBroadcastFlagsI chnInputAvailable, ?_, ?_⟩
    · simp [sdIncomingDataI, chnAddFlagsI, hq, judgeBufferSize]
    · simp [EventSource.listener_broadcast, hq, judgeBufferSize]
  by_cases hfull : s.iqueue.length < judgeBufferSize
  · refine ⟨s.source, ?_, ?_⟩
    · simp [sdIncomingDataI, hq, hfull]
    · simp [hq, hfull.not_ge]
  · refine ⟨s.source.chEvtBroadcastFlagsI sdOverrunError, ?_, ?_⟩
    · simp [sdIncomingDataI, chnAddFlagsI, hq, hfull]
    · simp [EventSource.listener_broadcast, hq, not_lt.mp hfull]

theorem driver_step {s t : JudgeThread} {e : JudgeEvent} (he : e ≠ .thread) (h : s.step e = some t) :
    ∃ source : EventSource, t = { s with source := source, iqueue := s.queued e } ∧
      source.listener =
        s.source.listener.map fun elp => { elp with elFlags := elp.elFlags ||| s.raised e } := by
  cases e with
  | receive sr b =>
    simp only [step] at h
    split_ifs at h
    cases h
    let s' := if sr.isError then s.setError sr else s
    have hs' : ∃ source : EventSource, s' = { s with source := source } ∧ source.listener =
        s.source.listener.map fun elp =>
          { elp with elFlags := elp.elFlags ||| (if sr.isError then errorFlags sr else 0) } := by
      by_cases herr : sr.isError = true
      · exact ⟨_, if_pos herr, by rw [EventSource.listener_broadcast, if_pos herr]⟩
      · exact ⟨s.source, if_neg herr, by simp [herr]⟩
    obtain ⟨source, hs', hsource⟩ := hs'
    by_cases hrx : sr.rxne = true
    · obtain ⟨source', hin, hsource'⟩ := sdIncomingDataI_eq { s with source := source } b
      refine ⟨source', ?_, ?_⟩
      · rw [receive, if_pos hrx, show (if sr.isError then s.setError sr else s) = _ from hs', hin]
        simp [queued, hrx]
      · rw [hsource', hsource]
        simp [raised, hrx, BitVec.or_assoc, Function.comp_def]
    · refine ⟨source, ?_, ?_⟩
      · rw [receive, if_neg hrx, show (if sr.isError then s.setError sr else s) = _ from hs']
        simp [queued, hrx]
      · rw [hsource]
        simp [raised, hrx]
  | breakDetected =>
    cases h
    exact ⟨_, rfl, EventSource.listener_broadcast _ _⟩
  | outputEmpty =>
    cases h
    exact ⟨_, rfl, EventSource.listener_broadcast _ _⟩
  | transmissionEnd =>
    cases h
    exact ⟨_, rfl, EventSource.listener_broadcast _ _⟩
  | thread => exact absurd rfl he

def isolate (s : JudgeThread) : JudgeThread :=
  { s with
    currentFlag := leastSetBit s.pendingFlags
    pendingFlags := s.pendingFlags &&& ~~~leastSetBit s.pendingFlags }

theorem step_of_input {s : JudgeThread} (hpc : s.pc = .loop)
    (hin : leastSetBit s.pendingFlags = chnInputAvailable) :
    s.step .thread = some { s.isolate with pc := .sleep } := by
  simp only [step, threadStep, hpc, serveFlag, if_pos hin]
  rfl

theorem serveFlag_cases (s : JudgeThread) :
    (leastSetBit s.pendingFlags = chnInputAvailable ∧ s.serveFlag = { s.isolate with pc := .sleep }) ∨
    (leastSetBit s.pendingFlags ∈ flushFlags ∧ s.serveFlag = { s.isolate with pc := .flush }) ∨
    (leastSetBit s.pendingFlags ≠ chnInputAvailable ∧ leastSetBit s.pendingFlags ∉ flushFlags ∧
      s.serveFlag = s.isolate.nextFlag) := by
  by_cases hin : leastSetBit s.pendingFlags = chnInputAvailable
  · exact Or.inl ⟨hin, by simp only [serveFlag, if_pos hin]; rfl⟩
  by_cases hfl : leastSetBit s.pendingFlags ∈ flushFlags
  · exact Or.inr (Or.inl ⟨hfl, by simp only [serveFlag, if_neg hin, if_pos hfl]; rfl⟩)
  · exact Or.inr (Or.inr ⟨hin, hfl, by simp only [serveFlag, if_neg hin, if_neg hfl]; rfl⟩)

/-- The steps of the thread, one constructor for each way that one can go. -/
inductive ThreadStep (s : JudgeThread) : JudgeThread → Prop
  | register : s.pc = .start → ThreadStep s { s with
      source := s.source.chEvtRegisterMaskWithFlags serialEvtMask serialWkupFlags, pc := .wait }
  | block : s.pc = .wait → s.source.pEpending &&& 1 = 0 → ThreadStep s { s with pc := .blocked }
  | take : s.pc = .wait ∨ s.pc = .blocked → s.source.pEpending &&& 1 ≠ 0 →
      ThreadStep s { s with source := s.source.takeEvents 1, pc := .fetch }
  | fetch : s.pc = .fetch → ThreadStep s { s with
      source := s.source.clearFlags, pendingFlags := s.source.elFlags, pc := .loop }
  | input : s.pc = .loop → leastSetBit s.pendingFlags = chnInputAvailable →
      ThreadStep s { s.isolate with pc := .sleep }
  | reset : s.pc = .loop → leastSetBit s.pendingFlags ∈ flushFlags →
      ThreadStep s { s.isolate with pc := .flush }
  | ignore : s.pc = .loop → leastSetBit s.pendingFlags ≠ chnInputAvailable →
      leastSetBit s.pendingFlags ∉ flushFlags → s.isolate.pendingFlags ≠ 0 →
      ThreadStep s { s.isolate with pc := .loop }
  | ignoreLast : s.pc = .loop → leastSetBit s.pendingFlags ≠ chnInputAvailable →
      leastSetBit s.pendingFlags ∉ flushFlags → s.isolate.pendingFlags = 0 →
      ThreadStep s { s.isolate with pc := .finalFlush }
  | read : s.pc = .sleep → s.pendingFlags = 0 → ThreadStep s { s with pc := .read 0 }
  | skip : s.pc = .sleep → s.pendingFlags ≠ 0 → ThreadStep s { s with pc := .flush }
  | byte (r : Nat) (b : UInt8) (rest : List UInt8) : s.pc = .read r → s.iqueue = b :: rest →
      r + 1 ≠ judgeBufferSize → ThreadStep s { s with
        iqueue := rest, sdrxbuf := s.sdrxbuf.setIfInBounds r b, pc := .read (r + 1) }
  | full (r : Nat) (b : UInt8) (rest : List UInt8) : s.pc = .read r → s.iqueue = b :: rest →
      r + 1 = judgeBufferSize → ThreadStep s { s with
        iqueue := rest, sdrxbuf := s.sdrxbuf.setIfInBounds r b
        datalength := UInt8.ofNat (r + 1), pc := .decode }
  | empty (r : Nat) : s.pc = .read r → s.iqueue = [] → ThreadStep s { s with
      datalength := UInt8.ofNat r, pc := .decode }
  | decode : s.pc = .decode → ThreadStep s { s with rc := serialDecode s.sdrxbuf s.rc, pc := .flush }
  | flush : s.pc = .flush → s.pendingFlags ≠ 0 → ThreadStep s { s with iqueue := [], pc := .loop }
  | flushLast : s.pc = .flush → s.pendingFlags = 0 →
      ThreadStep s { s with iqueue := [], pc := .finalFlush }
  | finalFlush : s.pc = .finalFlush → ThreadStep s { s with iqueue := [], pc := .memset }
  | memset : s.pc = .memset → ThreadStep s { s with
      sdrxbuf := Vector.replicate judgeBufferSize 0, pc := .wait }

theorem thread_cases {s t : JudgeThread} (h : s.step .thread = some t) : ThreadStep s t := by
  simp only [step, threadStep] at h
  cases hpc : s.pc with
  | start =>
    simp only [hpc] at h
    cases h
    exact ThreadStep.register hpc
  | wait =>
    simp only [hpc] at h
    split_ifs at h with hp <;> cases h
    · exact ThreadStep.block hpc hp
    · exact ThreadStep.take (Or.inl hpc) hp
  | blocked =>
    simp only [hpc] at h
    split_ifs at h with hp
    cases h
    exact ThreadStep.take (Or.inr hpc) hp
  | fetch =>
    simp only [hpc] at h
    cases h
    exact ThreadStep.fetch hpc
  | loop =>
    simp only [hpc] at h
    cases h
    rcases serveFlag_cases s with ⟨hin, ht⟩ | ⟨hfl, ht⟩ | ⟨hin, hfl, ht⟩ <;> rw [ht]
    · exact ThreadStep.input hpc hin
    · exact ThreadStep.reset hpc hfl
    · by_cases hmore : s.isolate.pendingFlags = 0
      · rw [nextFlag, if_neg (not_not.mpr hmore)]
        exact ThreadStep.ignoreLast hpc hin hfl hmore
      · rw [nextFlag, if_pos hmore]
        exact ThreadStep.ignore hpc hin hfl hmore
  | sleep =>
    simp only [hpc] at h
    cases h
    by_cases hzero : s.pendingFlags = 0
    · rw [if_pos hzero]
      exact ThreadStep.read hpc hzero
    · rw [if_neg hzero]
      exact ThreadStep.skip hpc hzero
  | read r =>
    simp only [hpc] at h
    cases h
    rw [readByte]
    split
    · next hq => exact ThreadStep.empty r hpc hq
    · next b rest hq =>
      split_ifs with hfull
      · exact ThreadStep.full r b rest hpc hq hfull
      · exact ThreadStep.byte r b rest hpc hq hfull
  | decode =>
    simp only [hpc] at h
    cases h
    exact ThreadStep.decode hpc
  | flush =>
    simp only [hpc, nextFlag] at h
    split_ifs at h with hmore <;> cases h
    · exact ThreadStep.flush hpc hmore
    · exact ThreadStep.flushLast hpc (not_not.mp hmore)
  | finalFlush =>
    simp only [hpc] at h
    cases h
    exact ThreadStep.finalFlush hpc
  | memset =>
    simp only [hpc] at h
    cases h
    exact ThreadStep.memset hpc

theorem step_rc {s t : JudgeThread} {e : JudgeEvent} (h : s.step e = some t) :
    (e = .thread ∧ s.pc = .decode ∧ t.rc = serialDecode s.sdrxbuf s.rc) ∨ t.rc = s.rc := by
  by_cases he : e = .thread
  · subst he
    cases thread_cases h with
    | decode hpc => exact Or.inl ⟨rfl, hpc, rfl⟩
    | _ => exact Or.inr rfl
  · obtain ⟨source, rfl, -⟩ := driver_step he h
    exact Or.inr rfl

end JudgeThread

end SafetyTrolley
