import SafetyTrolley.Scheduler

/-! The kernel's events with any number of sources, listeners and threads, and the
machine of all its calls: by the current thread, on its return from a wait, and by
interrupts. -/

namespace SafetyTrolley

inductive KernelEvent (τ σ ℓ : Type*) where
  | wait (kind : WaitKind) (events : BitVec 32) (time : Option Systime)
  | sleep (time : Systime)
  | resume
  | yield
  | create (tp : τ) (prio : Nat)
  | register (esp : σ) (elp : ℓ) (events wflags : BitVec 32)
  | unregister (esp : σ) (elp : ℓ)
  | getAndClearFlags (esp : σ) (elp : ℓ)
  | addEvents (events : BitVec 32)
  | getAndClearEvents (events : BitVec 32)
  | signal (tp : τ) (events : BitVec 32)
  | broadcast (esp : σ) (flags : BitVec 32)
  | isrEnter
  | isrSignal (tp : τ) (events : BitVec 32)
  | isrBroadcast (esp : σ) (flags : BitVec 32)
  | isrTimeout (tp : τ)
  | isrExit
  deriving DecidableEq

/-- The condition that ends a wait. -/
def WaitKind.satisfied (kind : WaitKind) (pending events : BitVec 32) : Bool :=
  match kind with
  | .one | .any => pending &&& events ≠ 0
  | .all => pending &&& events = events

/-- The events that a wait returns, and takes from the pending ones. -/
def WaitKind.taken (kind : WaitKind) (pending events : BitVec 32) : BitVec 32 :=
  match kind with
  | .one =>
    let m := pending &&& events
    m ^^^ (m &&& (m - 1))
  | .any => pending &&& events
  | .all => events

def WaitKind.newstate : WaitKind → ThreadState
  | .one | .any => .wtorevt
  | .all => .wtandevt

namespace Kernel

variable {τ σ ℓ : Type*} [DecidableEq τ] [DecidableEq σ] [DecidableEq ℓ]

def take (k : Kernel τ σ ℓ) (events : BitVec 32) : Kernel τ σ ℓ :=
  k.modify k.current fun th => { th with pEpending := th.pEpending &&& ~~~events }

/-- The test of chEvtSignalI on the wait states. -/
def awaited (th : Thread) : Bool :=
  (th.pState = .wtorevt ∧ th.pEpending &&& th.pU ≠ 0) ∨
    (th.pState = .wtandevt ∧ th.pEpending &&& th.pU = th.pU)

def chEvtSignalI (k : Kernel τ σ ℓ) (tp : τ) (events : BitVec 32) : Option (Kernel τ σ ℓ) :=
  let k := k.modify tp fun th => { th with pEpending := th.pEpending ||| events }
  if awaited (k.thread tp) then (k.modify tp fun th => { th with pU := msgOk }).chSchReadyI tp
  else some k

def signalled (flags : BitVec 32) (elp : Listener τ ℓ) : Bool :=
  flags = 0 ∨ elp.elFlags &&& elp.elWflags ≠ 0

def signalAll (flags : BitVec 32) : List (Listener τ ℓ) → Kernel τ σ ℓ → Option (Kernel τ σ ℓ)
  | [], k => some k
  | elp :: rest, k =>
    if signalled flags elp then (k.chEvtSignalI elp.elListener elp.elEvents).bind
      (signalAll flags rest)
    else signalAll flags rest k

def addFlags (k : Kernel τ σ ℓ) (esp : σ) (flags : BitVec 32) : Kernel τ σ ℓ :=
  { k with
    esNext := Function.update k.esNext esp
      ((k.esNext esp).map fun elp => { elp with elFlags := elp.elFlags ||| flags }) }

-- Each listener's flags are set before the test on them, which reads nothing else.
def chEvtBroadcastFlagsI (k : Kernel τ σ ℓ) (esp : σ) (flags : BitVec 32) : Option (Kernel τ σ ℓ) :=
  let k := k.addFlags esp flags
  signalAll flags (k.esNext esp) k

def chEvtSignal (k : Kernel τ σ ℓ) (tp : τ) (events : BitVec 32) : Option (Kernel τ σ ℓ) :=
  (k.chEvtSignalI tp events).bind chSchRescheduleS

def chEvtBroadcastFlags (k : Kernel τ σ ℓ) (esp : σ) (flags : BitVec 32) : Option (Kernel τ σ ℓ) :=
  (k.chEvtBroadcastFlagsI esp flags).bind chSchRescheduleS

def chEvtRegisterMaskWithFlags (k : Kernel τ σ ℓ) (esp : σ) (elp : ℓ) (events wflags : BitVec 32) :
    Kernel τ σ ℓ :=
  { k with
    esNext := Function.update k.esNext esp
      ({ elp, elListener := k.current, elEvents := events, elFlags := 0, elWflags := wflags } ::
        k.esNext esp) }

def chEvtUnregister (k : Kernel τ σ ℓ) (esp : σ) (elp : ℓ) : Kernel τ σ ℓ :=
  { k with esNext := Function.update k.esNext esp ((k.esNext esp).eraseP fun p => p.elp = elp) }

def chEvtGetAndClearFlags (k : Kernel τ σ ℓ) (esp : σ) (elp : ℓ) : Kernel τ σ ℓ :=
  { k with
    esNext := Function.update k.esNext esp
      ((k.esNext esp).map fun p => if p.elp = elp then { p with elFlags := 0 } else p) }

-- chEvtWaitOne, chEvtWaitAny and chEvtWaitAll, and those with a timeout, up to their
-- return or their wait.
def chEvtWait (k : Kernel τ σ ℓ) (kind : WaitKind) (events : BitVec 32) (time : Option Systime) :
    Option (Kernel τ σ ℓ) :=
  let pending := (k.thread k.current).pEpending
  if kind.satisfied pending events then some (k.take (kind.taken pending events))
  else if time = some timeImmediate then some k
  else
    (k.modify k.current fun th => { th with pU := events }).chSchGoSleepTimeoutS kind.newstate
      (.events kind events time) time

/-- The wait of the current thread has ended by its timeout. -/
def timedOut (k : Kernel τ σ ℓ) (time : Option Systime) : Bool :=
  time.isSome && (k.thread k.current).pU.slt msgOk

-- The rest of the call that the current thread waited in, its timer disarmed first.
def finishWait (k : Kernel τ σ ℓ) : Option (Kernel τ σ ℓ) :=
  let th := k.thread k.current
  let k' := k.modify k.current fun th => { th with call := none, vtArmed := false }
  match th.call with
  | none => none
  | some .sleep => some k'
  | some (.events kind events time) =>
    if k.timedOut time then some k' else some (k'.take (kind.taken th.pEpending events))

/-- The events that the step returns to the current thread and takes from its pending ones. -/
def returned (k : Kernel τ σ ℓ) : KernelEvent τ σ ℓ → Option (BitVec 32)
  | .wait kind events time =>
    let pending := (k.thread k.current).pEpending
    if kind.satisfied pending events then some (kind.taken pending events)
    else if time = some timeImmediate then some 0
    else none
  | .resume =>
    match (k.thread k.current).call with
    | some (.events kind events time) =>
      some (if k.timedOut time then 0 else kind.taken (k.thread k.current).pEpending events)
    | _ => none
  | .getAndClearEvents events => some ((k.thread k.current).pEpending &&& events)
  | _ => none

/-- The current thread runs its own code: not in an interrupt, nor before the end of a wait. -/
def running (k : Kernel τ σ ℓ) : Prop := k.inIsr = false ∧ (k.thread k.current).call = none

instance (k : Kernel τ σ ℓ) : Decidable k.running :=
  inferInstanceAs (Decidable (k.inIsr = false ∧ (k.thread k.current).call = none))

-- The idle thread makes no call that waits, and a thread is created once.
def enabled (idle : τ) (k : Kernel τ σ ℓ) : KernelEvent τ σ ℓ → Prop
  | .wait _ _ _ => k.running ∧ k.current ≠ idle
  | .sleep time => k.running ∧ k.current ≠ idle ∧ time ≠ timeImmediate
  | .resume => k.inIsr = false ∧ (k.thread k.current).call ≠ none
  | .create tp prio => k.running ∧ k.state tp = .wtstart ∧ noprio < prio ∧ prio ≤ highprio
  | .register esp elp _ _ => k.running ∧ elp ∉ (k.esNext esp).map Listener.elp
  | .yield | .unregister _ _ | .getAndClearFlags _ _ | .addEvents _ | .getAndClearEvents _
  | .signal _ _ | .broadcast _ _ | .isrEnter => k.running
  | .isrSignal _ _ | .isrBroadcast _ _ | .isrExit => k.inIsr = true
  | .isrTimeout tp => k.inIsr = true ∧ (k.thread tp).vtArmed = true

instance (idle : τ) (k : Kernel τ σ ℓ) (e : KernelEvent τ σ ℓ) : Decidable (k.enabled idle e) :=
  match e with
  | .wait _ _ _ | .isrTimeout _ | .resume => inferInstanceAs (Decidable (_ ∧ _))
  | .sleep _ => inferInstanceAs (Decidable (_ ∧ _ ∧ _))
  | .create _ _ => inferInstanceAs (Decidable (_ ∧ _ ∧ _ ∧ _))
  | .register _ _ _ _ => inferInstanceAs (Decidable (_ ∧ _))
  | .yield | .unregister _ _ | .getAndClearFlags _ _ | .addEvents _ | .getAndClearEvents _
  | .signal _ _ | .broadcast _ _ | .isrEnter => inferInstanceAs (Decidable k.running)
  | .isrSignal _ _ | .isrBroadcast _ _ | .isrExit => inferInstanceAs (Decidable (k.inIsr = true))

def apply (k : Kernel τ σ ℓ) : KernelEvent τ σ ℓ → Option (Kernel τ σ ℓ)
  | .wait kind events time => k.chEvtWait kind events time
  | .sleep time => k.chSchGoSleepTimeoutS .sleeping .sleep (some time)
  | .resume => k.finishWait
  | .yield => k.chSchDoYieldS
  | .create tp prio => k.chThdCreateStatic tp prio
  | .register esp elp events wflags => some (k.chEvtRegisterMaskWithFlags esp elp events wflags)
  | .unregister esp elp => some (k.chEvtUnregister esp elp)
  | .getAndClearFlags esp elp => some (k.chEvtGetAndClearFlags esp elp)
  | .addEvents events =>
    some (k.modify k.current fun th => { th with pEpending := th.pEpending ||| events })
  | .getAndClearEvents events => some (k.take events)
  | .signal tp events => k.chEvtSignal tp events
  | .broadcast esp flags => k.chEvtBroadcastFlags esp flags
  | .isrEnter => some { k with inIsr := true }
  | .isrSignal tp events => k.chEvtSignalI tp events
  | .isrBroadcast esp flags => k.chEvtBroadcastFlagsI esp flags
  | .isrTimeout tp => (k.modify tp fun th => { th with vtArmed := false }).wakeup tp
  | .isrExit => { k with inIsr := false }.portIrqEpilogue

def step (idle : τ) (k : Kernel τ σ ℓ) (e : KernelEvent τ σ ℓ) : Option (Kernel τ σ ℓ) :=
  if k.enabled idle e then k.apply e else none

/-- The kernel after chSysInit: main runs, and the idle thread is ready. -/
def boot (main idle : τ) : Kernel τ σ ℓ where
  thread := Function.update
    (Function.update (fun _ => {}) idle { pPrio := idleprio, pState := .ready })
    main { pPrio := normalprio, pState := .current }
  current := main
  rQueue := [idle]

end Kernel

end SafetyTrolley
