import SafetyTrolley.Lib.Machine

/-! The kernel's virtual timers: the delta list, and the counter whose compare
register raises the alarm of its first timer. A timer is known by its pointer. -/

namespace SafetyTrolley

abbrev Systime := UInt32

def stTimedelta : Systime := 2

/-- TIM2 and its vector. `ticks` counts from the start of the counter, so that the
counter register holds its low word. -/
structure StTimer where
  ticks : Nat := 0
  ccr : Systime := 0
  cc1ie : Bool := false
  cc1if : Bool := false
  irqPending : Bool := false
  deriving DecidableEq, Repr

namespace StTimer

def stLldGetCounter (st : StTimer) : Systime := UInt32.ofNat st.ticks

def stLldStartAlarm (st : StTimer) (time : Systime) : StTimer :=
  { st with ccr := time, cc1if := false, cc1ie := true }

def stLldStopAlarm (st : StTimer) : StTimer := { st with cc1ie := false }

def stLldSetAlarm (st : StTimer) (time : Systime) : StTimer := { st with ccr := time }

-- A match is flagged whether or not its interrupt is enabled; the vector stays pending
-- once it is raised.
def tick (st : StTimer) : StTimer :=
  let cc1if := st.cc1if || UInt32.ofNat (st.ticks + 1) == st.ccr
  { st with ticks := st.ticks + 1, cc1if, irqPending := st.irqPending || (cc1if && st.cc1ie) }

def elapse (st : StTimer) : Nat → StTimer
  | 0 => st
  | n + 1 => (st.elapse n).tick

end StTimer

structure VirtualTimers (ι : Type*) where
  st : StTimer := {}
  vtLasttime : Systime := 0
  vtlist : List (ι × Systime) := []
  inHandler : Bool := false
  deriving DecidableEq, Repr

/-- The kernel's calls and the steps of its interrupt. A call takes `lag` ticks from
its reading of the counter to its programming of the alarm. -/
inductive TimerEvent (ι : Type*) where
  | tick
  | set (vtp : ι) (delay : Systime) (lag : Nat)
  | reset (vtp : ι) (lag : Nat)
  | irq
  | handler (lag : Nat)
  deriving DecidableEq, Repr

namespace VirtualTimers

variable {ι : Type*}

def raised (delay : Systime) : Systime := if delay < stTimedelta then stTimedelta else delay

-- The loop over the list and the insertion; the header's delta is greater than every other.
def link (vtp : ι) (delta : Systime) : List (ι × Systime) → List (ι × Systime)
  | [] => [(vtp, delta)]
  | (p, vtDelta) :: rest =>
    if vtDelta < delta then (p, vtDelta) :: link vtp (delta - vtDelta) rest
    else (vtp, delta) :: (p, vtDelta - delta) :: rest

def addNext (vtDelta : Systime) : List (ι × Systime) → List (ι × Systime)
  | [] => []
  | (p, delta) :: rest => (p, delta + vtDelta) :: rest

def chVTDoSetI (s : VirtualTimers ι) (vtp : ι) (delay : Systime) (lag : Nat) : VirtualTimers ι :=
  let now := s.st.stLldGetCounter
  let delay := raised delay
  match s.vtlist with
  | [] =>
    { s with
      vtLasttime := now, vtlist := [(vtp, delay)]
      st := (s.st.elapse lag).stLldStartAlarm (now + delay) }
  | (p, vtDelta) :: rest =>
    let delta := now - s.vtLasttime + delay
    if delta < now - s.vtLasttime then
      -- A very large delay: the scan starts at the second timer.
      { s with vtlist := (p, vtDelta) :: link vtp (delta - vtDelta) rest, st := s.st.elapse lag }
    else if delta < vtDelta then
      { s with
        vtlist := link vtp delta s.vtlist
        st := (s.st.elapse lag).stLldSetAlarm (s.vtLasttime + delta) }
    else { s with vtlist := link vtp delta s.vtlist, st := s.st.elapse lag }

variable [DecidableEq ι]

def unlink (vtp : ι) : List (ι × Systime) → List (ι × Systime)
  | [] => []
  | (p, vtDelta) :: rest => if p = vtp then addNext vtDelta rest else (p, vtDelta) :: unlink vtp rest

def chVTDoResetI (s : VirtualTimers ι) (vtp : ι) (lag : Nat) : VirtualTimers ι :=
  match s.vtlist with
  | [] => s
  | (p, vtDelta) :: rest =>
    if p = vtp then
      match rest with
      | [] => { s with vtlist := [], st := (s.st.elapse lag).stLldStopAlarm }
      | (next, nextDelta) :: rest =>
        let nextDelta := nextDelta + vtDelta
        let nowdelta := s.st.stLldGetCounter - s.vtLasttime
        if nextDelta ≤ nowdelta then
          { s with vtlist := (next, nextDelta) :: rest, st := s.st.elapse lag }
        else
          { s with
            vtlist := (next, nextDelta) :: rest
            st := (s.st.elapse lag).stLldSetAlarm
              (s.vtLasttime + nowdelta + raised (nextDelta - nowdelta)) }
    else { s with vtlist := (p, vtDelta) :: unlink vtp rest, st := s.st.elapse lag }

def vtlistDelta : Systime := -1

-- One test of the loop: a timer expires, or the handler ends. The kernel halts where its
-- assertion fails, and with an empty list the loop could take the header for an expired timer.
def chVTDoTickI (s : VirtualTimers ι) (lag : Nat) : Option (VirtualTimers ι) :=
  let now := s.st.stLldGetCounter
  let st := s.st.elapse lag
  match s.vtlist with
  | [] => if vtlistDelta ≤ now - s.vtLasttime then none else some { s with st, inHandler := false }
  | (_, vtDelta) :: rest =>
    if vtDelta ≤ now - s.vtLasttime then
      some { s with
        vtLasttime := s.vtLasttime + vtDelta, vtlist := rest
        st := if rest = [] then st.stLldStopAlarm else st }
    else
      let delta := raised (s.vtLasttime + vtDelta - now)
      if st.stLldGetCounter - s.vtLasttime ≤ now + delta - s.vtLasttime then
        some { s with st := st.stLldSetAlarm (now + delta), inHandler := false }
      else none

-- A latched interrupt whose flag has been cleared meanwhile is ignored.
def stHandler (s : VirtualTimers ι) : VirtualTimers ι :=
  if s.st.cc1if then
    { s with st := { s.st with irqPending := false, cc1if := false }, inHandler := true }
  else { s with st := { s.st with irqPending := false } }

def step (s : VirtualTimers ι) : TimerEvent ι → Option (VirtualTimers ι)
  | .tick => some { s with st := s.st.tick }
  | .set vtp delay lag =>
    if vtp ∉ s.vtlist.map Prod.fst ∧ delay ≠ 0 then some (s.chVTDoSetI vtp delay lag) else none
  | .reset vtp lag =>
    if vtp ∈ s.vtlist.map Prod.fst then some (s.chVTDoResetI vtp lag) else none
  | .irq => if s.st.irqPending = true ∧ s.inHandler = false then some s.stHandler else none
  | .handler lag => if s.inHandler then s.chVTDoTickI lag else none

/-- The timer that the handler's loop would find expired. -/
def expired (s : VirtualTimers ι) : Option ι :=
  match s.vtlist with
  | [] => none
  | (vtp, vtDelta) :: _ => if vtDelta ≤ s.st.stLldGetCounter - s.vtLasttime then some vtp else none

end VirtualTimers

end SafetyTrolley
