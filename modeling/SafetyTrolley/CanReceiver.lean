import SafetyTrolley.CanBus
import SafetyTrolley.Events
import SafetyTrolley.Lib.Machine

/-! The receive side of the two CAN drivers: the start-up calls, the receive
FIFO with its interrupt, and the thread that drains it. -/

namespace SafetyTrolley

/-- Where a receiver thread stands. After `released` the message has left the
FIFO, still under the kernel's lock; `process` holds it outside the lock. -/
inductive CanRxPc where
  | notCreated | created | loopHead | blocked | drain
  | released (rxmsg : CANRxFrame)
  | process (rxmsg : CANRxFrame)
  deriving DecidableEq, Repr

structure CanChannel where
  started : Bool := false
  fmpie0 : Bool := false
  fovr0 : Bool := false
  fifo0 : List CANRxFrame := []
  source : EventSource := {}
  pc : CanRxPc := .notCreated
  deriving DecidableEq

inductive ChannelEvent where
  | canStart
  | create
  | arrive (rxmsg : CANRxFrame)
  | rx0Irq
  | timeout
  | thread
  deriving DecidableEq

def canRxMailboxes : Nat := 3
def allEvents : BitVec 32 := BitVec.allOnes 32
def canMailboxToMask (mbx : Nat) : BitVec 32 := 1 <<< (mbx - 1)

namespace CanChannel

-- The FIFO is not locked: past its third mailbox the newest message replaces the last one.
def arrive (ch : CanChannel) (rxmsg : CANRxFrame) : CanChannel :=
  if ch.fifo0.length < canRxMailboxes then { ch with fifo0 := ch.fifo0 ++ [rxmsg] }
  else { ch with fifo0 := ch.fifo0.dropLast ++ [rxmsg], fovr0 := true }

def canLldRx0Handler (ch : CanChannel) : CanChannel :=
  let ch' :=
    if ch.fifo0 ≠ [] then
      { ch with fmpie0 := false, source := ch.source.chEvtBroadcastFlagsI (canMailboxToMask 1) }
    else ch
  if ch.fovr0 then { ch' with fovr0 := false } else ch'

/-- The overrun interrupt stays enabled, and its vector is that of the pending messages. -/
def rx0Pending (ch : CanChannel) : Bool := (ch.fmpie0 && !ch.fifo0.isEmpty) || ch.fovr0

def canRx (ch : CanChannel) : Option CanChannel :=
  match ch.pc with
  | .notCreated => none
  | .created =>
    some { ch with
      source := ch.source.chEvtRegisterMaskWithFlags 1 (BitVec.allOnes 32), pc := .loopHead }
  | .loopHead =>
    if ch.source.pEpending &&& allEvents = 0 then some { ch with pc := .blocked }
    else some { ch with source := ch.source.takeEvents allEvents, pc := .drain }
  | .blocked =>
    if ch.source.pEpending &&& allEvents = 0 then none
    else some { ch with source := ch.source.takeEvents allEvents, pc := .drain }
  | .drain =>
    match ch.fifo0 with
    | [] => some { ch with pc := .loopHead }
    | rxmsg :: rest => some { ch with fifo0 := rest, pc := .released rxmsg }
  | .released rxmsg => some { ch with fmpie0 := ch.fmpie0 || ch.fifo0.isEmpty, pc := .process rxmsg }
  | .process _ => some { ch with pc := .drain }

-- A driver is started once and before its thread is created: the order of the calls below.
def step (ch : CanChannel) : ChannelEvent → Option CanChannel
  | .canStart =>
    if ch.started = false ∧ ch.pc = .notCreated then
      some { ch with started := true, fmpie0 := true }
    else none
  | .create =>
    if ch.started = true ∧ ch.pc = .notCreated then some { ch with pc := .created } else none
  | .arrive rxmsg => if ch.started then some (ch.arrive rxmsg) else none
  | .rx0Irq =>
    match ch.pc with
    | .released _ => none
    | _ => if ch.started && ch.rx0Pending then some ch.canLldRx0Handler else none
  | .timeout =>
    if ch.pc = .blocked ∧ ch.source.pEpending &&& allEvents = 0 then
      some { ch with pc := .loopHead }
    else none
  | .thread => ch.canRx

end CanChannel

inductive CanInitPc where
  | canStart1 | canStart2 | create1 | create2 | done
  deriving DecidableEq, Repr

structure CanReceiver where
  main : CanInitPc := .canStart1
  channel : CANDriver → CanChannel := fun _ => {}
  can : CanData := {}

inductive CanEvent where
  | main
  | arrive (canp : CANDriver) (rxmsg : CANRxFrame)
  | rx0Irq (canp : CANDriver)
  | timeout (canp : CANDriver)
  | thread (canp : CANDriver)
  deriving DecidableEq

namespace CanReceiver

def target (s : CanReceiver) : CanEvent → Option (CANDriver × ChannelEvent)
  | .main =>
    match s.main with
    | .canStart1 => some (.cand1, .canStart)
    | .canStart2 => some (.cand2, .canStart)
    | .create1 => some (.cand1, .create)
    | .create2 => some (.cand2, .create)
    | .done => none
  | .arrive canp rxmsg => some (canp, .arrive rxmsg)
  | .rx0Irq canp => some (canp, .rx0Irq)
  | .timeout canp => some (canp, .timeout)
  | .thread canp => some (canp, .thread)

def nextMain (s : CanReceiver) : CanEvent → CanInitPc
  | .main =>
    match s.main with
    | .canStart1 => .canStart2
    | .canStart2 => .create1
    | .create1 => .create2
    | .create2 | .done => .done
  | _ => s.main

def nextCan (s : CanReceiver) : CanEvent → CanData
  | .thread canp =>
    match (s.channel canp).pc with
    | .process rxmsg => canProcessEncoderMessage canp rxmsg s.can
    | _ => s.can
  | _ => s.can

def step (s : CanReceiver) (e : CanEvent) : Option CanReceiver := do
  let (canp, e') ← s.target e
  let ch ← (s.channel canp).step e'
  return {
    main := s.nextMain e
    channel := Function.update s.channel canp ch
    can := s.nextCan e }

theorem step_eq_some {s t : CanReceiver} {e : CanEvent} (h : s.step e = some t) :
    ∃ canp e' ch, s.target e = some (canp, e') ∧ (s.channel canp).step e' = some ch ∧
      t.channel = Function.update s.channel canp ch ∧ t.can = s.nextCan e := by
  simp only [step, Option.bind_eq_bind, Option.bind_eq_some_iff, Option.pure_def,
    Option.some.injEq] at h
  obtain ⟨⟨canp, e'⟩, htarget, ch, hch, rfl⟩ := h
  exact ⟨canp, e', ch, htarget, hch, rfl, rfl⟩

end CanReceiver

end SafetyTrolley
