import SafetyTrolley.Lib.Machine
import SafetyTrolley.RcRemote

/-! The time-of-flight sensor answers with a pulse as long as the distance. A timer
captures the edges of the pulse, and its interrupt handler stores what was captured. -/

namespace SafetyTrolley

inductive IcuState where
  | stop | ready | waiting | active
  deriving DecidableEq, Repr

/-- The two capture bits of the status register and of the interrupt enable register. -/
structure CaptureBits where
  cc1 : Bool := false
  cc2 : Bool := false
  deriving DecidableEq, Repr

/-- The statements of tofInit, with the register writes of the calls that edges can come between. -/
inductive TofInitPc where
  | memset | icuStart | palSetPadMode
  | updateGeneration | captureSr | counterEnable | setWaiting
  | notifySr | notifyDier | done
  deriving DecidableEq, Repr

/-- The statements of icu_lld_serve_interrupt, with the bits that it has read. -/
inductive IcuIsrPc where
  | idle
  | clear (sr : CaptureBits)
  | width (sr : CaptureBits)
  | period (sr : CaptureBits)
  deriving DecidableEq, Repr

structure PulseCapture where
  level : Bool
  main : TofInitPc := .memset
  state : IcuState := .stop
  cen : Bool := false
  cnt : UInt16 := 0
  ccr1 : UInt16 := 0
  ccr2 : UInt16 := 0
  sr : CaptureBits := {}
  dier : CaptureBits := {}
  isr : IcuIsrPc := .idle
  lastWidth : TofData := Vector.replicate tofSensorsNum 0
  lastPeriod : TofData := Vector.replicate tofSensorsNum 0
  deriving DecidableEq, Repr

/-- `tick` is one period of the timer's clock, `rise` and `fall` are the edges of the pin. -/
inductive PulseEvent where
  | tick | rise | fall | main | irq
  deriving DecidableEq, Repr

def CaptureBits.and (a b : CaptureBits) : CaptureBits := ⟨a.cc1 && b.cc1, a.cc2 && b.cc2⟩

-- A bit of the status register is cleared by a zero, and a one leaves it as it is.
def CaptureBits.clear (a sr : CaptureBits) : CaptureBits := ⟨a.cc1 && !sr.cc1, a.cc2 && !sr.cc2⟩

/-- The input of the timer is low until the pin is given to it. -/
def TofInitPc.connected : TofInitPc → Bool
  | .memset | .icuStart | .palSetPadMode => false
  | _ => true

def icuPeriodCb (icup : ICUDriver) (period : UInt32) (lastPeriod : TofData) : Option TofData :=
  match icup with
  | .icud4 => lastPeriod.store 0 period
  | .icud5 => lastPeriod.store 1 period
  | .icud8 => lastPeriod.store 2 period

def icuLldGetWidth (ccr : UInt16) : UInt32 := ccr.toUInt32 + 1

def icuLldGetPeriod (ccr : UInt16) : UInt32 := ccr.toUInt32 + 1

namespace PulseCapture

/-- A rising edge captures the counter and restarts it. -/
def captureRise (s : PulseCapture) : PulseCapture :=
  { s with ccr1 := s.cnt, cnt := 0, sr.cc1 := true }

def captureFall (s : PulseCapture) : PulseCapture :=
  { s with ccr2 := s.cnt, sr.cc2 := true }

def tofInit (s : PulseCapture) : Option PulseCapture :=
  match s.main with
  | .memset =>
    some { s with
      lastPeriod := Vector.replicate tofSensorsNum 0
      lastWidth := Vector.replicate tofSensorsNum 0
      main := .icuStart }
  | .icuStart => some { s with sr := {}, dier := {}, state := .ready, main := .palSetPadMode }
  | .palSetPadMode => some { (if s.level then s.captureRise else s) with main := .updateGeneration }
  | .updateGeneration => some { s with cnt := 0, main := .captureSr }
  | .captureSr => some { s with sr := {}, main := .counterEnable }
  | .counterEnable => some { s with cen := true, main := .setWaiting }
  | .setWaiting => some { s with state := .waiting, main := .notifySr }
  | .notifySr =>
    if s.dier = {} then some { s with sr := {}, main := .notifyDier }
      else some { s with main := .done }
  | .notifyDier => some { s with dier := { cc1 := true, cc2 := true }, main := .done }
  | .done => none

-- The read of the register also clears its bit.
def icuIsrInvokeWidthCb (s : PulseCapture) : Option PulseCapture :=
  if s.state = .active then
    (icuWidthCb .icud4 (icuLldGetWidth s.ccr2) s.lastWidth).map fun lastWidth =>
      { s with lastWidth, sr.cc2 := false }
  else some s

def icuIsrInvokePeriodCb (s : PulseCapture) : Option PulseCapture :=
  if s.state = .active then
    (icuPeriodCb .icud4 (icuLldGetPeriod s.ccr1) s.lastPeriod).map fun lastPeriod =>
      { s with lastPeriod, sr.cc1 := false }
  else some { s with state := .active }

def icuLldServeInterrupt (s : PulseCapture) : Option PulseCapture :=
  match s.isr with
  | .idle =>
    if s.sr.and s.dier = {} then none else some { s with isr := .clear (s.sr.and s.dier) }
  | .clear sr => some { s with sr := s.sr.clear sr, isr := .width sr }
  | .width sr =>
    (if sr.cc2 then s.icuIsrInvokeWidthCb else some s).map fun t => { t with isr := .period sr }
  | .period sr =>
    (if sr.cc1 then s.icuIsrInvokePeriodCb else some s).map fun t => { t with isr := .idle }

def step (s : PulseCapture) : PulseEvent → Option PulseCapture
  | .tick => some (if s.cen then { s with cnt := s.cnt + 1 } else s)
  | .rise =>
    if s.level then none
    else some { (if s.main.connected then s.captureRise else s) with level := true }
  | .fall =>
    if s.level then some { (if s.main.connected then s.captureFall else s) with level := false }
    else none
  | .main => s.tofInit
  | .irq => s.icuLldServeInterrupt

def start (level : Bool) : PulseCapture where
  level := level

end PulseCapture

/-- What is on the pin, in periods of the timer's clock, whether or not the timer runs. -/
structure PulseLog where
  sinceRise : Option Nat := none
  pulses : List Nat := []
  periods : List Nat := []
  deriving DecidableEq, Repr

def PulseLog.next (_ : PulseCapture) (e : PulseEvent) (l : PulseLog) : PulseLog :=
  match e with
  | .tick => { l with sinceRise := l.sinceRise.map (· + 1) }
  | .rise => { l with sinceRise := some 0, periods := l.periods ++ l.sinceRise.toList }
  | .fall => { l with pulses := l.pulses ++ l.sinceRise.toList }
  | .main | .irq => l

/-- What the driver gives for a time of `n` periods of its clock: the counter has 16 bits. -/
def countOf (n : Nat) : UInt32 := UInt32.ofNat (n % 65536 + 1)

theorem icuLldGetWidth_ofNat (n : Nat) : icuLldGetWidth (UInt16.ofNat n) = countOf n := by
  unfold icuLldGetWidth countOf
  rw [UInt32.ofNat_add]
  congr 1
  apply UInt32.toNat_inj.mp
  rw [UInt16.toNat_toUInt32, UInt16.toNat_ofNat', UInt32.toNat_ofNat']
  omega

/-- A capture register with what the handler made of it. The last time of `ls` is in the
register when the handler comes to read it, and in the variable when it has nothing to do.
`due` says that it is on its way to the register, `kept` that it has yet to see the bit. -/
structure Latched (reading : UInt32 → UInt32) (ready soon : Prop) (due kept : Bool) (ccr : UInt16)
    (last : TofData) (ls : List Nat) : Prop where
  held : ready ∧ due = true ∨ soon ∧ kept = true → ∃ n, ls.getLast? = some n ∧ ccr = UInt16.ofNat n
  stored : last = #v[0] ∨ ∃ n ∈ ls, last = #v[reading (countOf n)]
  current : due = false → kept = false →
    last = #v[0] ∨ ∃ n, ls.getLast? = some n ∧ last = #v[reading (countOf n)]

namespace Latched

variable {reading : UInt32 → UInt32} {ready soon : Prop} {due kept : Bool} {ccr : UInt16} {last : TofData}
  {ls : List Nat}

theorem of_unread (hsoon : ¬ soon) (hready : ¬ ready) (hlast : last = #v[0]) :
    Latched reading ready soon due kept ccr last ls where
  held h := h.elim (fun h => absurd h.1 hready) (fun h => absurd h.1 hsoon)
  stored := Or.inl hlast
  current _ _ := Or.inl hlast

theorem capture (h : Latched reading ready soon due kept ccr last ls) (hready : ready → soon)
    {cnt : UInt16} {sinceRise : Option Nat} {kept' : Bool}
    (hcnt : soon → ∃ n, sinceRise = some n ∧ cnt = UInt16.ofNat n)
    (hseen : due = true ∨ kept' = true) :
    Latched reading ready soon due kept' cnt last (ls ++ sinceRise.toList) where
  held hor := by
    obtain ⟨n, rfl, rfl⟩ := hcnt (hor.elim (fun hor => hready hor.1) And.left)
    exact ⟨n, List.getLast?_concat, rfl⟩
  stored := h.stored.imp_right fun ⟨n, hn, hlast⟩ => ⟨n, List.mem_append_left _ hn, hlast⟩
  current hdue hkept := by simp [hdue, hkept] at hseen

/-- The handler takes the bit, and clears it in the step after. -/
theorem take (h : Latched reading ready soon due kept ccr last ls) {soon' : Prop}
    (hsoon : ready → soon)
    (hdue : due = false) : Latched reading ready soon' kept false ccr last ls where
  held hor := h.held (hor.elim (fun ⟨hr, hk⟩ => Or.inr ⟨hsoon hr,
    hk⟩) (fun hor => absurd hor.2 (by decide)))
  stored := h.stored
  current hkept _ := h.current hdue hkept

theorem pass (h : Latched reading ready soon due kept ccr last ls) (hnot : ready → due = false)
    (hlast : ¬ ready → last = #v[0]) : Latched reading ready soon false kept ccr last ls where
  held hor := h.held (Or.inr (hor.resolve_left fun hor => absurd hor.2 (by decide)))
  stored := h.stored
  current _ hkept := by
    by_cases hr : ready
    · exact h.current (hnot hr) hkept
    · exact Or.inl (hlast hr)

theorem read (h : Latched reading ready soon due kept ccr last ls) (hready : ready)
    (hdue : due = true) :
    Latched reading ready soon false false ccr #v[reading (icuLldGetWidth ccr)] ls := by
  obtain ⟨n, hn, rfl⟩ := h.held (Or.inl ⟨hready, hdue⟩)
  rw [icuLldGetWidth_ofNat]
  exact ⟨fun hor => hor.elim (fun hor => absurd hor.2 (by decide)) (fun hor => absurd hor.2 (by decide)),
    Or.inr ⟨n, List.mem_of_getLast? hn, rfl⟩, fun _ _ => Or.inr ⟨n, hn, rfl⟩⟩

theorem settle (h : Latched reading ready soon false kept ccr last ls) {ready' soon' : Prop}
    (hsoon : soon' → soon) : Latched reading ready' soon' false kept ccr last ls where
  held hor := by
    obtain hor | ⟨hsoon', hkept⟩ := hor
    · exact absurd hor.2 (by decide)
    · exact h.held (Or.inr ⟨hsoon hsoon', hkept⟩)
  stored := h.stored
  current := h.current

end Latched

theorem CaptureBits.and_all (sr : CaptureBits) : sr.and { cc1 := true, cc2 := true } = sr := by
  simp [CaptureBits.and]

theorem CaptureBits.clear_self (sr : CaptureBits) : sr.clear sr = {} := by
  simp [CaptureBits.clear]

namespace PulseCapture

/-- The bits that the handler has read and not yet served. -/
def due (s : PulseCapture) : CaptureBits :=
  match s.isr with
  | .idle => {}
  | .clear sr | .width sr => sr
  | .period sr => { sr with cc2 := false }

/-- The bits of the status register that outlive the next clearing of it. -/
def kept (s : PulseCapture) : CaptureBits :=
  match s.isr with
  | .clear sr => s.sr.clear sr
  | _ => s.sr

/-- The driver is active, or is once the handler is done. -/
def Soon (s : PulseCapture) : Prop := s.state = .active ∨ s.due.cc1 = true

def Synced (s : PulseCapture) (l : PulseLog) : Prop :=
  ∃ n, l.sinceRise = some n ∧ s.cnt = UInt16.ofNat n

structure Starting (s : PulseCapture) (l : PulseLog) : Prop where
  isr : s.isr = .idle
  state : s.state ≠ .active
  dier : s.dier = {}
  cen : s.main = .setWaiting ∨ s.main = .notifySr ∨ s.main = .notifyDier → s.cen = true
  synced : s.main = .notifyDier → s.sr.cc1 = true → s.Synced l
  lastWidth : s.lastWidth = #v[0]
  lastPeriod : s.lastPeriod = #v[0]

structure Capturing (s : PulseCapture) (l : PulseLog) : Prop where
  cen : s.cen = true
  dier : s.dier = { cc1 := true, cc2 := true }
  synced : s.sr.cc1 = true ∨ s.Soon → s.Synced l
  unread : s.state ≠ .active → s.lastWidth = #v[0] ∧ s.lastPeriod = #v[0]
  width : Latched (· / 100)
    (s.state = .active) s.Soon s.due.cc2 s.kept.cc2 s.ccr2 s.lastWidth l.pulses
  period : Latched id (s.state = .active) s.Soon s.due.cc1 s.kept.cc1 s.ccr1 s.lastPeriod l.periods

end PulseCapture

theorem TofData.store_zero (lastWidth : TofData) (w : UInt32) : lastWidth.store 0 w = some #v[w] := by
  rw [TofData.store, dif_pos (by decide)]
  refine congrArg some (Vector.ext fun i hi => ?_)
  obtain rfl : i = 0 := Nat.lt_one_iff.mp hi
  exact Vector.getElem_set_self hi

namespace PulseCapture

theorem icuIsrInvokeWidthCb_active {s : PulseCapture} (h : s.state = .active) :
    s.icuIsrInvokeWidthCb =
      some { s with lastWidth := #v[icuLldGetWidth s.ccr2 / 100], sr.cc2 := false } := by
  rw [icuIsrInvokeWidthCb, if_pos h]
  exact congrArg (Option.map _) (TofData.store_zero _ _)

/-- The handler reads the width of a pulse or changes nothing. -/
theorem width_cases {s t : PulseCapture} {sr : CaptureBits}
    (hst : (if sr.cc2 then s.icuIsrInvokeWidthCb else some s) = some t) :
    ((sr.cc2 = true ∧ s.state = .active) ∧
      t = { s with lastWidth := #v[icuLldGetWidth s.ccr2 / 100], sr.cc2 := false }) ∨
    (¬ (sr.cc2 = true ∧ s.state = .active) ∧ t = s) := by
  by_cases hcc2 : sr.cc2 = true
  · rw [if_pos hcc2] at hst
    by_cases hactive : s.state = .active
    · rw [icuIsrInvokeWidthCb_active hactive, Option.some_inj] at hst
      exact Or.inl ⟨⟨hcc2, hactive⟩, hst.symm⟩
    · rw [icuIsrInvokeWidthCb, if_neg hactive, Option.some_inj] at hst
      exact Or.inr ⟨fun hread => hactive hread.2, hst.symm⟩
  · rw [if_neg hcc2, Option.some_inj] at hst
    exact Or.inr ⟨fun hread => hcc2 hread.1, hst.symm⟩

theorem icuIsrInvokePeriodCb_active {s : PulseCapture} (h : s.state = .active) :
    s.icuIsrInvokePeriodCb =
      some { s with lastPeriod := #v[icuLldGetPeriod s.ccr1], sr.cc1 := false } := by
  rw [icuIsrInvokePeriodCb, if_pos h]
  exact congrArg (Option.map _) (TofData.store_zero _ _)

theorem synced_tick {s : PulseCapture} {l : PulseLog} (h : s.Synced l) :
    Synced { s with cnt := s.cnt + 1 } (l.next s .tick) := by
  obtain ⟨n, hn, hcnt⟩ := h
  refine ⟨n + 1, by simp [PulseLog.next, hn], ?_⟩
  rw [UInt16.ofNat_add, ← hcnt]
  rfl

namespace Starting

theorem latched {s : PulseCapture} {l : PulseLog} (h : s.Starting l) :
    Latched (· / 100) (s.state = .active) s.Soon s.due.cc2 s.kept.cc2 s.ccr2 s.lastWidth l.pulses ∧
      Latched id (s.state = .active) s.Soon s.due.cc1 s.kept.cc1 s.ccr1 s.lastPeriod l.periods := by
  have hsoon : ¬ s.Soon := by
    rintro (hactive | hdue)
    · exact h.state hactive
    · simp [due, h.isr] at hdue
  exact ⟨.of_unread hsoon h.state h.lastWidth, .of_unread hsoon h.state h.lastPeriod⟩

/-- The handler can run from the last statement of tofInit on, when nothing is yet stored. -/
theorem tofInit {s t : PulseCapture} {l : PulseLog} (h : s.Starting l) (hst : s.tofInit = some t) :
    (t.main ≠ .done ∧ t.Starting l) ∨ (t.main = .done ∧ t.Capturing l) := by
  obtain ⟨hwidth, hperiod⟩ := h.latched
  obtain ⟨hisr, hstate, hdier, hcen, hsynced, hlastWidth, hlastPeriod⟩ := h
  cases hmain : s.main <;> simp only [PulseCapture.tofInit, hmain, reduceCtorEq,
    Option.some_inj] at hst
  case memset =>
    subst hst
    exact Or.inl ⟨nofun, hisr, hstate, hdier, by simp, nofun, rfl, rfl⟩
  case updateGeneration | captureSr | counterEnable =>
    subst hst
    exact Or.inl ⟨nofun, hisr, hstate, hdier, by simp, nofun, hlastWidth, hlastPeriod⟩
  case icuStart =>
    subst hst
    exact Or.inl ⟨nofun, hisr, nofun, rfl, by simp, nofun, hlastWidth, hlastPeriod⟩
  case palSetPadMode =>
    subst hst
    refine Or.inl ⟨nofun, ?_⟩
    split
    · exact ⟨hisr, hstate, hdier, by simp, nofun, hlastWidth, hlastPeriod⟩
    · exact ⟨hisr, hstate, hdier, by simp, nofun, hlastWidth, hlastPeriod⟩
  case setWaiting =>
    subst hst
    have hrun : s.cen = true := hcen (Or.inl hmain)
    exact Or.inl ⟨nofun, hisr, nofun, hdier, fun _ => hrun, nofun, hlastWidth, hlastPeriod⟩
  case notifySr =>
    rw [if_pos hdier, Option.some_inj] at hst
    subst hst
    have hrun : s.cen = true := hcen (Or.inr (Or.inl hmain))
    exact Or.inl ⟨nofun, hisr, hstate, hdier, fun _ => hrun, fun _ => nofun, hlastWidth, hlastPeriod⟩
  case notifyDier =>
    subst hst
    have hrun : s.cen = true := hcen (Or.inr (Or.inr hmain))
    refine Or.inr ⟨rfl, hrun, rfl, ?_, fun _ => ⟨hlastWidth, hlastPeriod⟩, hwidth, hperiod⟩
    rintro (hcc1 | hactive | hdue)
    · exact hsynced hmain hcc1
    · exact absurd hactive hstate
    · simp [due, hisr] at hdue

theorem step {s t : PulseCapture} {l : PulseLog} {e : PulseEvent} (hmain : s.main ≠ .done)
    (h : s.Starting l) (hst : s.step e = some t) :
    (t.main ≠ .done ∧ t.Starting (l.next s e)) ∨ (t.main = .done ∧ t.Capturing (l.next s e)) := by
  cases e with
  | main => exact h.tofInit hst
  | irq =>
    simp [PulseCapture.step, icuLldServeInterrupt, h.isr, h.dier, CaptureBits.and] at hst
  | tick =>
    simp only [PulseCapture.step, Option.some_inj] at hst
    subst hst
    refine Or.inl ⟨by split <;> exact hmain, ?_⟩
    split
    · exact ⟨h.isr, h.state, h.dier, h.cen, fun hm hcc1 => synced_tick (h.synced hm hcc1),
        h.lastWidth,
        h.lastPeriod⟩
    · next hcen =>
      have hnot : s.main ≠ .notifyDier := fun hm => hcen (h.cen (Or.inr (Or.inr hm)))
      exact ⟨h.isr, h.state, h.dier, h.cen, fun hm => absurd hm hnot, h.lastWidth, h.lastPeriod⟩
  | rise =>
    simp only [PulseCapture.step] at hst
    split_ifs at hst with _ hconn
    · cases hst
      exact Or.inl ⟨hmain, h.isr, h.state, h.dier, h.cen, fun _ _ => ⟨0, rfl, rfl⟩, h.lastWidth,
        h.lastPeriod⟩
    · cases hst
      have hnot : s.main ≠ .notifyDier := fun hm => hconn (by rw [hm]; rfl)
      exact Or.inl ⟨hmain, h.isr, h.state, h.dier, h.cen, fun hm => absurd hm hnot, h.lastWidth,
        h.lastPeriod⟩
  | fall =>
    simp only [PulseCapture.step] at hst
    split_ifs at hst
    · cases hst
      exact Or.inl ⟨hmain, h.isr, h.state, h.dier, h.cen, h.synced, h.lastWidth, h.lastPeriod⟩
    · cases hst
      exact Or.inl ⟨hmain, h.isr, h.state, h.dier, h.cen, h.synced, h.lastWidth, h.lastPeriod⟩

end Starting

namespace Capturing

theorem tick {s : PulseCapture} {l : PulseLog} (h : s.Capturing l) :
    Capturing { s with cnt := s.cnt + 1 } (l.next s .tick) :=
  ⟨h.cen, h.dier, fun hor => synced_tick (h.synced hor), h.unread, h.width, h.period⟩

theorem rise {s : PulseCapture} {l : PulseLog} (h : s.Capturing l) :
    Capturing { s.captureRise with level := true } (l.next s .rise) := by
  have hseen : s.due.cc1 = true ∨ (kept { s.captureRise with level := true }).cc1 = true := by
    cases hisr : s.isr <;> simp [due, kept, captureRise, hisr, CaptureBits.clear]
  have hkept : (kept { s.captureRise with level := true }).cc2 = s.kept.cc2 := by
    cases hisr : s.isr <;> simp [kept, captureRise, hisr, CaptureBits.clear]
  refine ⟨h.cen, h.dier, fun _ => ⟨0, rfl, rfl⟩, h.unread, ?_, ?_⟩
  · rw [hkept]
    exact h.width
  · exact h.period.capture Or.inl (fun hsoon => h.synced (Or.inr hsoon)) hseen

theorem fall {s : PulseCapture} {l : PulseLog} (h : s.Capturing l) :
    Capturing { s.captureFall with level := false } (l.next s .fall) := by
  have hkept : (kept { s.captureFall with level := false }).cc1 = s.kept.cc1 := by
    cases hisr : s.isr <;> simp [kept, captureFall, hisr, CaptureBits.clear]
  have hseen : s.due.cc2 = true ∨ (kept { s.captureFall with level := false }).cc2 = true := by
    cases hisr : s.isr <;> simp [due, kept, captureFall, hisr, CaptureBits.clear]
  refine ⟨h.cen, h.dier, h.synced, h.unread, ?_, ?_⟩
  · exact h.width.capture Or.inl (fun hsoon => h.synced (Or.inr hsoon)) hseen
  · rw [hkept]
    exact h.period

/-- The handler starts with all bits that are set. -/
theorem enter {s : PulseCapture} {l : PulseLog} (h : s.Capturing l) (hisr : s.isr = .idle) :
    Capturing { s with isr := .clear s.sr } l := by
  have hdue : s.due = {} := by simp [due, hisr]
  have hkept : s.kept = s.sr := by simp [kept, hisr]
  have hgone : kept { s with isr := .clear s.sr } = {} := s.sr.clear_self
  have hwidth := h.width
  have hperiod := h.period
  rw [hdue, hkept] at hwidth hperiod
  refine ⟨h.cen, h.dier, ?_, h.unread, ?_, ?_⟩
  · rintro (hcc1 | hactive | hcc1)
    · exact h.synced (Or.inl hcc1)
    · exact h.synced (Or.inr (Or.inl hactive))
    · exact h.synced (Or.inl hcc1)
  · rw [hgone]
    exact hwidth.take Or.inl rfl
  · rw [hgone]
    exact hperiod.take Or.inl rfl

theorem clear {s : PulseCapture} {l : PulseLog} {sr : CaptureBits} (h : s.Capturing l)
    (hisr : s.isr = .clear sr) :
    Capturing { s with sr := s.sr.clear sr, isr := .width sr } l := by
  have hdue : s.due = sr := by simp [due, hisr]
  have hkept : s.kept = s.sr.clear sr := by simp [kept, hisr]
  have hwidth := h.width
  have hperiod := h.period
  rw [Soon, hdue, hkept] at hwidth hperiod
  refine ⟨h.cen, h.dier, ?_, h.unread, hwidth, hperiod⟩
  rintro (hcc1 | hsoon)
  · exact h.synced (Or.inl (Bool.and_eq_true_iff.mp hcc1).1)
  · refine h.synced (Or.inr ?_)
    rw [Soon, hdue]
    exact hsoon

theorem serveWidth {s t : PulseCapture} {l : PulseLog} {sr : CaptureBits} (h : s.Capturing l)
    (hisr : s.isr = .width sr) (hst : (if sr.cc2 then s.icuIsrInvokeWidthCb else some s) = some t) :
    t.main = s.main ∧ Capturing { t with isr := .period sr } l := by
  have hdue : s.due = sr := by simp [due, hisr]
  have hkept : s.kept = s.sr := by simp [kept, hisr]
  have hwidth := h.width
  have hperiod := h.period
  have hsynced := h.synced
  rw [Soon, hdue, hkept] at hwidth hperiod
  rw [Soon, hdue] at hsynced
  obtain ⟨⟨hcc2, hactive⟩, rfl⟩ | ⟨hskip, rfl⟩ := width_cases hst
  · exact ⟨rfl, h.cen, h.dier, hsynced, fun hne => absurd hactive hne, hwidth.read hactive hcc2,
      hperiod⟩
  · refine ⟨rfl, h.cen, h.dier, hsynced, h.unread, hwidth.pass ?_ fun hne => (h.unread hne).1,
      hperiod⟩
    exact fun hactive => Bool.eq_false_iff.mpr fun hcc2 => hskip ⟨hcc2, hactive⟩

theorem servePeriod {s t : PulseCapture} {l : PulseLog} {sr : CaptureBits} (h : s.Capturing l)
    (hisr : s.isr = .period sr) (hst : (if sr.cc1 then s.icuIsrInvokePeriodCb else some s) = some t) :
    t.main = s.main ∧ Capturing { t with isr := .idle } l := by
  have hdue : s.due = { sr with cc2 := false } := by simp [due, hisr]
  have hkept : s.kept = s.sr := by simp [kept, hisr]
  have hwidth := h.width
  have hperiod := h.period
  have hsynced := h.synced
  rw [Soon, hdue, hkept] at hwidth hperiod
  rw [Soon, hdue] at hsynced
  by_cases hcc1 : sr.cc1 = true
  · rw [if_pos hcc1] at hst
    by_cases hactive : s.state = .active
    · rw [icuIsrInvokePeriodCb_active hactive, Option.some_inj] at hst
      subst hst
      refine ⟨rfl, h.cen, h.dier, fun _ => hsynced (Or.inr (Or.inl hactive)),
        fun hne => absurd hactive hne,
        hwidth.settle fun _ => Or.inl hactive, ?_⟩
      exact (hperiod.read hactive hcc1).settle fun _ => Or.inl hactive
    · rw [icuIsrInvokePeriodCb, if_neg hactive, Option.some_inj] at hst
      subst hst
      refine ⟨rfl, h.cen, h.dier, fun _ => hsynced (Or.inr (Or.inr hcc1)), fun hne => absurd rfl hne,
        hwidth.settle fun _ => Or.inr hcc1, ?_⟩
      exact (hperiod.pass (fun hactive' => absurd hactive' hactive) fun hne => (h.unread hne).2).settle
        fun _ => Or.inr hcc1
  · rw [if_neg hcc1, Option.some_inj] at hst
    subst hst
    have hfalse : sr.cc1 = false := Bool.eq_false_iff.mpr hcc1
    rw [hfalse] at hperiod
    refine ⟨rfl, h.cen, h.dier, ?_, h.unread, hwidth.settle ?_, hperiod.settle ?_⟩
    · rintro (hbit | hactive | hdue)
      · exact hsynced (Or.inl hbit)
      · exact hsynced (Or.inr (Or.inl hactive))
      · exact absurd hdue Bool.false_ne_true
    · exact Or.imp_right fun hdue => absurd hdue Bool.false_ne_true
    · exact Or.imp_right fun hdue => absurd hdue Bool.false_ne_true

theorem icuLldServeInterrupt {s t : PulseCapture} {l : PulseLog} (h : s.Capturing l)
    (hst : s.icuLldServeInterrupt = some t) : t.main = s.main ∧ t.Capturing l := by
  unfold PulseCapture.icuLldServeInterrupt at hst
  cases hisr : s.isr with
  | idle =>
    have hall : s.sr.and s.dier = s.sr := by rw [h.dier, CaptureBits.and_all]
    simp only [hisr, hall] at hst
    split_ifs at hst
    cases hst
    exact ⟨rfl, h.enter hisr⟩
  | clear sr =>
    simp only [hisr] at hst
    cases hst
    exact ⟨rfl, h.clear hisr⟩
  | width sr =>
    simp only [hisr] at hst
    obtain ⟨u, hu, rfl⟩ := Option.map_eq_some_iff.mp hst
    obtain ⟨hm, hu⟩ := h.serveWidth hisr hu
    exact ⟨hm, hu⟩
  | period sr =>
    simp only [hisr] at hst
    obtain ⟨u, hu, rfl⟩ := Option.map_eq_some_iff.mp hst
    obtain ⟨hm, hu⟩ := h.servePeriod hisr hu
    exact ⟨hm, hu⟩

theorem step {s t : PulseCapture} {l : PulseLog} {e : PulseEvent} (hmain : s.main = .done)
    (h : s.Capturing l) (hst : s.step e = some t) : t.main = .done ∧ t.Capturing (l.next s e) := by
  have hconn : s.main.connected = true := by rw [hmain]; rfl
  cases e with
  | main => simp [PulseCapture.step, tofInit, hmain] at hst
  | irq =>
    obtain ⟨hm, ht⟩ := h.icuLldServeInterrupt hst
    exact ⟨hm.trans hmain, ht⟩
  | tick =>
    rw [PulseCapture.step, if_pos h.cen, Option.some_inj] at hst
    subst hst
    exact ⟨hmain, h.tick⟩
  | rise =>
    simp only [PulseCapture.step, hconn, if_true] at hst
    split_ifs at hst
    cases hst
    exact ⟨hmain, h.rise⟩
  | fall =>
    simp only [PulseCapture.step, hconn, if_true] at hst
    split_ifs at hst
    cases hst
    exact ⟨hmain, h.fall⟩

end Capturing

def Sound (s : PulseCapture) (l : PulseLog) : Prop :=
  (s.main ≠ .done ∧ s.Starting l) ∨ (s.main = .done ∧ s.Capturing l)

namespace Sound

theorem start (level : Bool) : (PulseCapture.start level).Sound {} :=
  Or.inl ⟨nofun, rfl, nofun, rfl, by simp [PulseCapture.start], nofun, rfl, rfl⟩

theorem step {s t : PulseCapture} {l : PulseLog} {e : PulseEvent} (h : s.Sound l)
    (hst : s.step e = some t) :
    t.Sound (l.next s e) := by
  obtain ⟨hmain, hs⟩ | ⟨hmain, hs⟩ := h
  · exact hs.step hmain hst
  · exact Or.inr (hs.step hmain hst)

theorem latched {s : PulseCapture} {l : PulseLog} (h : s.Sound l) :
    Latched (· / 100) (s.state = .active) s.Soon s.due.cc2 s.kept.cc2 s.ccr2 s.lastWidth l.pulses ∧
      Latched id (s.state = .active) s.Soon s.due.cc1 s.kept.cc1 s.ccr1 s.lastPeriod l.periods := by
  obtain ⟨-, hs⟩ | ⟨-, hs⟩ := h
  · exact hs.latched
  · exact ⟨hs.width, hs.period⟩

/-- Nothing is under way: the variables are those of the last pulse and of the last period. -/
theorem current {s : PulseCapture} {l : PulseLog} (h : s.Sound l) (hisr : s.isr = .idle) :
    (s.sr.cc2 = false →
      s.lastWidth = #v[0] ∨ ∃ w, l.pulses.getLast? = some w ∧ s.lastWidth = #v[countOf w / 100]) ∧
    (s.sr.cc1 = false →
      s.lastPeriod = #v[0] ∨ ∃ p, l.periods.getLast? = some p ∧ s.lastPeriod = #v[countOf p]) := by
  have hdue : s.due = {} := by simp [due, hisr]
  have hkept : s.kept = s.sr := by simp [kept, hisr]
  obtain ⟨hwidth, hperiod⟩ := h.latched
  rw [hdue, hkept] at hwidth hperiod
  exact ⟨hwidth.current rfl, hperiod.current rfl⟩

end Sound

/-- What the handler stores is the length of a pulse that was on the pin from its first edge to
its last, in counts of 16 bits; and it has stored the last one whenever it has nothing to do. -/
theorem last_pulse {level : Bool} {es : List PulseEvent} {s : PulseCapture} {l : PulseLog}
    (h : Machine.run (Machine.watch step PulseLog.next) (start level, {}) es = some (s, l)) :
    (s.lastWidth = #v[0] ∨ ∃ w ∈ l.pulses, s.lastWidth = #v[countOf w / 100]) ∧
      (s.lastPeriod = #v[0] ∨ ∃ p ∈ l.periods, s.lastPeriod = #v[countOf p]) ∧
      (s.isr = .idle →
        (s.sr.cc2 = false →
          s.lastWidth = #v[0] ∨ ∃ w, l.pulses.getLast? = some w ∧ s.lastWidth = #v[countOf w / 100]) ∧
        (s.sr.cc1 = false →
          s.lastPeriod = #v[0] ∨ ∃ p, l.periods.getLast? = some p ∧
            s.lastPeriod = #v[countOf p])) := by
  have hsound : Sound s l := by
    refine Machine.watch_invariant (P := Sound) (Sound.start level) ?_ h
    intro s l e t hs hst
    exact hs.step hst
  obtain ⟨hwidth, hperiod⟩ := hsound.latched
  exact ⟨hwidth.stored, hperiod.stored, hsound.current⟩

/-- The pin is high when the timer starts, and the two pulses after that are 40 and 130 counts. -/
def twoPulses : List PulseEvent :=
  [List.replicate 9 .main, [.tick, .tick, .fall, .rise], List.replicate 40 .tick, [.fall],
    List.replicate 4 .irq,
    [.tick, .tick, .tick, .rise], List.replicate 130 .tick, [.fall], List.replicate 4 .irq].flatten

theorem last_pulse_twoPulses : ∃ (s : PulseCapture) (l : PulseLog),
    Machine.run (Machine.watch step PulseLog.next) (start true, {}) twoPulses = some (s, l) ∧
      s.lastWidth[0] = 1 ∧ l.pulses = [40, 130] ∧ s.isr = .idle ∧ s.sr.cc2 = false ∧
      (s.lastWidth = #v[0] ∨ ∃ w, l.pulses.getLast? = some w ∧
        s.lastWidth = #v[countOf w / 100]) := by
  obtain ⟨⟨s, l⟩, h, hs⟩ := Option.map_eq_some_iff.mp (by decide +kernel :
    (Machine.run (Machine.watch step PulseLog.next) (start true, {}) twoPulses).map
      (fun x => (x.1.lastWidth[0], x.2.pulses, x.1.isr, x.1.sr.cc2)) =
        some (1, [40, 130], .idle, false))
  simp only [Prod.mk.injEq] at hs
  obtain ⟨hwidth, hpulses, hisr, hcc2⟩ := hs
  exact ⟨s, l, h, hwidth, hpulses, hisr, hcc2, ((last_pulse h).2.2 hisr).1 hcc2⟩

end PulseCapture

end SafetyTrolley
