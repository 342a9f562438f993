import Mathlib.Logic.Function.Basic
import SafetyTrolley.Lib.PriorityList
import SafetyTrolley.VirtualTimers

/-! The kernel's scheduler: threads, the ready list in order of priority, and the
calls that take the processor from one thread and give it to another. -/

namespace SafetyTrolley

inductive ThreadState where
  | wtstart | ready | current | sleeping | wtorevt | wtandevt
  deriving DecidableEq, Repr

inductive WaitKind where
  | one | any | all
  deriving DecidableEq, Repr

/-- The call in which a thread has given up the processor. Its timeout is `none` for
the calls that take none. -/
inductive Waiting where
  | sleep
  | events (kind : WaitKind) (events : BitVec 32) (time : Option Systime)
  deriving DecidableEq, Repr

/-- A thread with what its stack holds while it waits: the call, and whether its timer
is armed. `pU` is the word that rdymsg and ewmask share. -/
structure Thread where
  pPrio : Nat := 0
  pState : ThreadState := .wtstart
  pEpending : BitVec 32 := 0
  pU : BitVec 32 := 0
  call : Option Waiting := none
  vtArmed : Bool := false
  deriving DecidableEq, Repr

def noprio : Nat := 0
def idleprio : Nat := 1
def normalprio : Nat := 64
def highprio : Nat := 127

def msgOk : BitVec 32 := 0
def msgTimeout : BitVec 32 := -1

def timeImmediate : Systime := 0
def timeInfinite : Systime := -1

structure Listener (τ ℓ : Type*) where
  elp : ℓ
  elListener : τ
  elEvents : BitVec 32
  elFlags : BitVec 32
  elWflags : BitVec 32
  deriving DecidableEq, Repr

structure Kernel (τ σ ℓ : Type*) where
  thread : τ → Thread
  current : τ
  rQueue : List τ := []
  esNext : σ → List (Listener τ ℓ) := fun _ => []
  inIsr : Bool := false

namespace Kernel

variable {τ σ ℓ : Type*} [DecidableEq τ]

def prio (k : Kernel τ σ ℓ) (tp : τ) : Nat := (k.thread tp).pPrio

def state (k : Kernel τ σ ℓ) (tp : τ) : ThreadState := (k.thread tp).pState

def modify (k : Kernel τ σ ℓ) (tp : τ) (f : Thread → Thread) : Kernel τ σ ℓ :=
  { k with thread := Function.update k.thread tp (f (k.thread tp)) }

def setState (k : Kernel τ σ ℓ) (tp : τ) (state : ThreadState) : Kernel τ σ ℓ :=
  k.modify tp fun th => { th with pState := state }

def firstprio (k : Kernel τ σ ℓ) : Nat :=
  match k.rQueue with
  | [] => noprio
  | tp :: _ => k.prio tp

-- The insertion stops at the first thread of a lower priority.
def chSchReadyI (k : Kernel τ σ ℓ) (tp : τ) : Option (Kernel τ σ ℓ) :=
  if k.state tp ≠ .ready then
    some { k.setState tp .ready with
      rQueue := PriorityList.insertBehind k.prio tp k.rQueue }
  else none

/-- The first thread of the ready list becomes the current one. -/
def nextCurrent (k : Kernel τ σ ℓ) : Option (Kernel τ σ ℓ) :=
  match k.rQueue with
  | [] => none
  | tp :: rest => some { k.setState tp .current with current := tp, rQueue := rest }

def chSchGoSleepS (k : Kernel τ σ ℓ) (newstate : ThreadState) : Option (Kernel τ σ ℓ) :=
  (k.setState k.current newstate).nextCurrent

-- The insertion stops at the first thread that is not of a higher priority.
def chSchDoRescheduleAhead (k : Kernel τ σ ℓ) : Option (Kernel τ σ ℓ) :=
  k.nextCurrent.map fun k' =>
    { k'.setState k.current .ready with
      rQueue := PriorityList.insertAhead k.prio k.current k'.rQueue }

def chSchDoRescheduleBehind (k : Kernel τ σ ℓ) : Option (Kernel τ σ ℓ) :=
  k.nextCurrent.bind fun k' => k'.chSchReadyI k.current

def chSchIsRescRequiredI (k : Kernel τ σ ℓ) : Bool := k.prio k.current < k.firstprio

def chSchRescheduleS (k : Kernel τ σ ℓ) : Option (Kernel τ σ ℓ) :=
  if k.chSchIsRescRequiredI then k.chSchDoRescheduleAhead else some k

def chSchIsPreemptionRequired (k : Kernel τ σ ℓ) : Bool := k.prio k.current < k.firstprio

def chSchDoReschedule (k : Kernel τ σ ℓ) : Option (Kernel τ σ ℓ) := k.chSchDoRescheduleAhead

def portIrqEpilogue (k : Kernel τ σ ℓ) : Option (Kernel τ σ ℓ) :=
  if k.chSchIsPreemptionRequired then k.chSchDoReschedule else some k

def chSchCanYieldS (k : Kernel τ σ ℓ) : Bool := k.prio k.current ≤ k.firstprio

def chSchDoYieldS (k : Kernel τ σ ℓ) : Option (Kernel τ σ ℓ) :=
  if k.chSchCanYieldS then k.chSchDoRescheduleBehind else some k

-- The assertion "priority order violation" comes first.
def chSchWakeupS (k : Kernel τ σ ℓ) (ntp : τ) (msg : BitVec 32) : Option (Kernel τ σ ℓ) :=
  if k.rQueue = [] ∨ k.firstprio ≤ k.prio k.current then
    let k := k.modify ntp fun th => { th with pU := msg }
    if k.prio ntp ≤ k.prio k.current then k.chSchReadyI ntp
    else (k.chSchReadyI k.current).map fun k => { k.setState ntp .current with current := ntp }
  else none

-- The callback of a timed wait; the states of other waits are not used here.
def wakeup (k : Kernel τ σ ℓ) (tp : τ) : Option (Kernel τ σ ℓ) :=
  if k.state tp = .ready then some k
  else (k.modify tp fun th => { th with pU := msgTimeout }).chSchReadyI tp

-- A wait with its call remembered; a finite timeout arms the thread's timer.
def chSchGoSleepTimeoutS (k : Kernel τ σ ℓ) (newstate : ThreadState) (call : Waiting)
    (time : Option Systime) : Option (Kernel τ σ ℓ) :=
  let vtArmed := time.any (· ≠ timeInfinite)
  (k.modify k.current fun th => { th with call := some call, vtArmed }).chSchGoSleepS newstate

def threadInit (prio : Nat) : Thread := { pPrio := prio, pState := .wtstart }

def chThdCreateStatic (k : Kernel τ σ ℓ) (tp : τ) (prio : Nat) : Option (Kernel τ σ ℓ) :=
  (k.modify tp fun _ => threadInit prio).chSchWakeupS tp msgOk

end Kernel

end SafetyTrolley
