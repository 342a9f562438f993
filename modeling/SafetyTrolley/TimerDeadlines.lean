import Mathlib.Algebra.Order.Ring.Nat
import Mathlib.Tactic.SplitIfs
import SafetyTrolley.Lib.DeltaList
import SafetyTrolley.VirtualTimers

/-! The virtual timers as a list of deadlines on an unbounded clock. The delta
list and its 32-bit counter follow that list as long as the counter stays within
its range of the last expiry. -/

namespace SafetyTrolley

variable {ι : Type*}

/-- What the virtual timers are for: every armed timer with the time at which it is due. -/
structure Deadlines (ι : Type*) where
  now : Nat := 0
  armed : List (ι × Nat) := []
  deriving DecidableEq, Repr

namespace Deadlines

def expired (a : Deadlines ι) : Option ι :=
  match a.armed with
  | [] => none
  | (vtp, deadline) :: _ => if deadline ≤ a.now then some vtp else none

def step [DecidableEq ι] (a : Deadlines ι) : TimerEvent ι → Option (Deadlines ι)
  | .tick => some { a with now := a.now + 1 }
  | .set vtp delay lag =>
    if vtp ∉ a.armed.map Prod.fst ∧ delay ≠ 0 then
      some {
        now := a.now + lag
        armed := a.armed.orderedInsert (fun x y => x.2 ≤ y.2) (vtp, a.now + max delay.toNat 2) }
    else none
  | .reset vtp lag =>
    if vtp ∈ a.armed.map Prod.fst then
      some { now := a.now + lag, armed := a.armed.eraseP (fun x => x.1 = vtp) }
    else none
  | .irq => some a
  | .handler lag =>
    some { now := a.now + lag, armed := if a.expired.isSome then a.armed.tail else a.armed }

end Deadlines

namespace StTimer

@[simp] theorem ticks_elapse (st : StTimer) (n : Nat) : (st.elapse n).ticks = st.ticks + n := by
  induction n with
  | zero => rfl
  | succ n ih => simp [elapse, tick, ih, Nat.add_assoc]

@[simp] theorem ticks_start (st : StTimer) (time : Systime) :
    (st.stLldStartAlarm time).ticks = st.ticks := rfl

@[simp] theorem ticks_stop (st : StTimer) : st.stLldStopAlarm.ticks = st.ticks := rfl

@[simp] theorem ticks_set (st : StTimer) (time : Systime) :
    (st.stLldSetAlarm time).ticks = st.ticks := rfl

@[simp] theorem ticks_tick (st : StTimer) : st.tick.ticks = st.ticks + 1 := rfl

end StTimer

namespace VirtualTimers

def elapsed (s : VirtualTimers ι) : Systime := s.st.stLldGetCounter - s.vtLasttime

/-- The time that the first delta counts from. -/
def base (s : VirtualTimers ι) : Nat := s.st.ticks - s.elapsed.toNat

def deltas (xs : List (ι × Systime)) : List (ι × Nat) := xs.map (Prod.map id UInt32.toNat)

def deadlines (s : VirtualTimers ι) : Deadlines ι where
  now := s.st.ticks
  armed := DeltaList.times s.base (deltas s.vtlist)

/-- With a timer armed, the counter has not come round to the last expiry. -/
def Recent (s : VirtualTimers ι) : Prop := s.vtlist ≠ [] → s.elapsed.toNat + 2 < 2 ^ 32

def delayFits (s : VirtualTimers ι) (delay : Systime) : Bool :=
  match s.vtlist with
  | [] => true
  | (_, vtDelta) :: _ => s.elapsed.toNat + max delay.toNat 2 < 2 ^ 32 + vtDelta.toNat

/-- The timer after `vtp` can take over its delta. -/
def nextFits [DecidableEq ι] (vtp : ι) : List (ι × Systime) → Bool
  | (p, vtDelta) :: (next, nextDelta) :: rest =>
    if p = vtp then vtDelta.toNat + nextDelta.toNat < 2 ^ 32
      else nextFits vtp ((next, nextDelta) :: rest)
  | _ => true

/-- The step stays within the range of the 32-bit counter, and a call programs its
alarm before the shortest delay is over. -/
def InRange [DecidableEq ι] (s : VirtualTimers ι) : TimerEvent ι → Prop
  | .tick => s.Recent
  | .set _ delay lag => lag < 2 ∧ s.Recent ∧ s.delayFits delay
  | .reset vtp lag => lag < 2 ∧ s.Recent ∧ nextFits vtp s.vtlist
  | .irq => True
  | .handler lag => lag < 2 ∧ s.elapsed.toNat + 2 < 2 ^ 32

instance (s : VirtualTimers ι) : Decidable s.Recent :=
  inferInstanceAs (Decidable (s.vtlist ≠ [] → s.elapsed.toNat + 2 < 2 ^ 32))

instance [DecidableEq ι] (s : VirtualTimers ι) : (e : TimerEvent ι) → Decidable (s.InRange e)
  | .tick => inferInstanceAs (Decidable s.Recent)
  | .set _ delay lag => inferInstanceAs (Decidable (lag < 2 ∧ s.Recent ∧ s.delayFits delay))
  | .reset vtp lag => inferInstanceAs (Decidable (lag < 2 ∧ s.Recent ∧ nextFits vtp s.vtlist))
  | .irq => inferInstanceAs (Decidable True)
  | .handler lag => inferInstanceAs (Decidable (lag < 2 ∧ s.elapsed.toNat + 2 < 2 ^ 32))

/-- The base time is no later than the present. -/
def Anchored (s : VirtualTimers ι) : Prop := s.vtlist ≠ [] → s.elapsed.toNat ≤ s.st.ticks

theorem toNat_raised (delay : Systime) : (raised delay).toNat = max delay.toNat 2 := by
  have hmin : stTimedelta.toNat = 2 := rfl
  unfold raised
  split
  · rename_i h
    rw [UInt32.lt_iff_toNat_lt] at h
    omega
  · rename_i h
    rw [UInt32.lt_iff_toNat_lt] at h
    omega

@[simp] theorem deltas_nil : deltas ([] : List (ι × Systime)) = [] := rfl

@[simp] theorem deltas_cons (p : ι) (vtDelta : Systime) (xs : List (ι × Systime)) :
    deltas ((p, vtDelta) :: xs) = (p, vtDelta.toNat) :: deltas xs := rfl

theorem deltas_link (vtp : ι) (delta : Systime) (xs : List (ι × Systime)) :
    deltas (link vtp delta xs) = DeltaList.link vtp delta.toNat (deltas xs) := by
  induction xs generalizing delta with
  | nil => rfl
  | cons x xs ih =>
    obtain ⟨p, vtDelta⟩ := x
    by_cases h : vtDelta < delta
    · have hsub := UInt32.toNat_sub_of_le delta vtDelta (UInt32.le_of_lt h)
      have hlt := UInt32.lt_iff_toNat_lt.mp h
      rw [link, if_pos h, deltas_cons, deltas_cons, DeltaList.link, if_pos hlt, ih, hsub]
    · have hsub := UInt32.toNat_sub_of_le vtDelta delta (UInt32.not_lt.mp h)
      have hnot := mt UInt32.lt_iff_toNat_lt.mpr h
      rw [link, if_neg h, deltas_cons, deltas_cons, deltas_cons, DeltaList.link, if_neg hnot, hsub]

theorem deltas_unlink [DecidableEq ι] {vtp : ι} {xs : List (ι × Systime)} (h : nextFits vtp xs) :
    deltas (unlink vtp xs) = DeltaList.unlink vtp (deltas xs) := by
  induction xs with
  | nil => rfl
  | cons x xs ih =>
    obtain ⟨p, vtDelta⟩ := x
    rw [unlink, deltas_cons, DeltaList.unlink]
    by_cases hp : p = vtp
    · rw [if_pos hp, if_pos hp]
      cases xs with
      | nil => rfl
      | cons y xs =>
        obtain ⟨next, nextDelta⟩ := y
        simp only [nextFits, hp, if_true, decide_eq_true_eq] at h
        rw [addNext, deltas_cons, deltas_cons, DeltaList.addFirst, UInt32.toNat_add,
          Nat.mod_eq_of_lt (by omega)]
    · rw [if_neg hp, if_neg hp, deltas_cons, ih]
      cases xs with
      | nil => rfl
      | cons y xs => simpa only [nextFits, hp, if_false] using h

theorem elapsed_add {s t : VirtualTimers ι} {n : Nat} (hlast : t.vtLasttime = s.vtLasttime)
    (hticks : t.st.ticks = s.st.ticks + n) (hrange : s.elapsed.toNat + n < 2 ^ 32) :
    t.elapsed.toNat = s.elapsed.toNat + n := by
  have hsum : t.elapsed = s.elapsed + UInt32.ofNat n := by
    simp only [elapsed, StTimer.stLldGetCounter, hlast, hticks, UInt32.ofNat_add]
    grind
  rw [hsum, UInt32.toNat_add, UInt32.toNat_ofNat', Nat.mod_eq_of_lt (by omega : n < 2 ^ 32),
    Nat.mod_eq_of_lt hrange]

theorem base_add {s t : VirtualTimers ι} {n : Nat} (hlast : t.vtLasttime = s.vtLasttime)
    (hticks : t.st.ticks = s.st.ticks + n) (hrange : s.elapsed.toNat + n < 2 ^ 32) :
    t.base = s.base := by
  rw [base, base, elapsed_add hlast hticks hrange, hticks]
  omega

theorem deadlines_of_nil {s : VirtualTimers ι} (h : s.vtlist = []) :
    s.deadlines = { now := s.st.ticks, armed := [] } := by
  rw [deadlines, h, deltas_nil, DeltaList.times_nil]

/-- Ticks alone leave the deadlines where they are. -/
theorem deadlines_elapse {s t : VirtualTimers ι} {n : Nat} (hticks : t.st.ticks = s.st.ticks + n)
    (hlist : t.vtlist = s.vtlist) (hlast : t.vtLasttime = s.vtLasttime)
    (hrange : s.vtlist ≠ [] → s.elapsed.toNat + n < 2 ^ 32) :
    t.deadlines = { now := s.st.ticks + n, armed := s.deadlines.armed } := by
  by_cases hnil : s.vtlist = []
  · rw [deadlines_of_nil (hlist.trans hnil), deadlines_of_nil hnil, hticks]
  · simp only [deadlines, hlist, hticks, base_add hlast hticks (hrange hnil)]

theorem anchored_elapse {s t : VirtualTimers ι} {n : Nat} (h : s.Anchored)
    (hticks : t.st.ticks = s.st.ticks + n) (hlist : t.vtlist ≠ [] → s.vtlist ≠ [])
    (hlast : t.vtLasttime = s.vtLasttime)
    (hrange : s.vtlist ≠ [] → s.elapsed.toNat + n < 2 ^ 32) : t.Anchored := by
  intro hne
  have hs := hlist hne
  have hle := h hs
  rw [elapsed_add hlast hticks (hrange hs), hticks]
  omega

theorem add_base {s : VirtualTimers ι} (h : s.Anchored) (hne : s.vtlist ≠ []) :
    s.base + s.elapsed.toNat = s.st.ticks := Nat.sub_add_cancel (h hne)

theorem ticks_chVTDoSetI (s : VirtualTimers ι) (vtp : ι) (delay : Systime) (lag : Nat) :
    (s.chVTDoSetI vtp delay lag).st.ticks = s.st.ticks + lag := by
  unfold chVTDoSetI
  split
  · simp
  · dsimp only
    split_ifs <;> simp

theorem vtLasttime_chVTDoSetI {s : VirtualTimers ι} (hne : s.vtlist ≠ []) (vtp : ι) (delay : Systime)
    (lag : Nat) : (s.chVTDoSetI vtp delay lag).vtLasttime = s.vtLasttime := by
  unfold chVTDoSetI
  split
  · exact absurd ‹_› hne
  · dsimp only
    split_ifs <;> rfl

theorem vtlist_chVTDoSetI {s : VirtualTimers ι} {p : ι} {vtDelta : Systime}
    {rest : List (ι × Systime)}
    (hlist : s.vtlist = (p, vtDelta) :: rest) (vtp : ι) (delay : Systime) (lag : Nat) :
    (s.chVTDoSetI vtp delay lag).vtlist =
      if s.elapsed + raised delay < s.elapsed then
        (p, vtDelta) :: link vtp (s.elapsed + raised delay - vtDelta) rest
      else link vtp (s.elapsed + raised delay) s.vtlist := by
  simp only [chVTDoSetI, hlist, elapsed]
  split_ifs <;> rfl

theorem add_lt_iff (x y : Systime) : x + y < x ↔ 2 ^ 32 ≤ x.toNat + y.toNat := by
  have hx := x.toNat_lt
  have hy := y.toNat_lt
  rw [UInt32.lt_iff_toNat_lt, UInt32.toNat_add]
  omega

theorem elapsed_chVTDoSetI_nil {s : VirtualTimers ι} (hlist : s.vtlist = []) (vtp : ι)
    (delay : Systime) {lag : Nat} (hlag : lag < 2) :
    (s.chVTDoSetI vtp delay lag).elapsed.toNat = lag := by
  have helapsed : (s.chVTDoSetI vtp delay lag).elapsed = UInt32.ofNat lag := by
    rw [elapsed, StTimer.stLldGetCounter, ticks_chVTDoSetI]
    simp only [chVTDoSetI, hlist, StTimer.stLldGetCounter, UInt32.ofNat_add]
    grind
  rw [helapsed, UInt32.toNat_ofNat', Nat.mod_eq_of_lt (by omega)]

theorem deadlines_chVTDoSetI_nil {s : VirtualTimers ι} (hlist : s.vtlist = []) (vtp : ι)
    (delay : Systime) {lag : Nat} (hlag : lag < 2) :
    (s.chVTDoSetI vtp delay lag).deadlines =
      { now := s.st.ticks + lag, armed := [(vtp, s.st.ticks + max delay.toNat 2)] } := by
  have hticks := ticks_chVTDoSetI s vtp delay lag
  have hbase : (s.chVTDoSetI vtp delay lag).base = s.st.ticks := by
    rw [base, hticks, elapsed_chVTDoSetI_nil hlist vtp delay hlag]
    omega
  have hvtlist : (s.chVTDoSetI vtp delay lag).vtlist = [(vtp, raised delay)] := by
    simp only [chVTDoSetI, hlist]
  rw [deadlines, hticks, hbase, hvtlist, deltas_cons, deltas_nil, toNat_raised]
  rfl

theorem deadlines_chVTDoSetI_cons {s : VirtualTimers ι} {p : ι} {vtDelta : Systime}
    {rest : List (ι × Systime)} (hlist : s.vtlist = (p, vtDelta) :: rest) (h : s.Anchored)
    (vtp : ι) {delay : Systime} {lag : Nat} (hlag : lag < 2) (hrecent : s.Recent)
    (hfits : s.delayFits delay) :
    (s.chVTDoSetI vtp delay lag).deadlines =
      { now := s.st.ticks + lag
        armed := s.deadlines.armed.orderedInsert (fun x y => x.2 ≤ y.2)
          (vtp, s.st.ticks + max delay.toNat 2) } := by
  have hne : s.vtlist ≠ [] := by simp [hlist]
  have hrange := hrecent hne
  have hticks := ticks_chVTDoSetI s vtp delay lag
  have hbase : (s.chVTDoSetI vtp delay lag).base = s.base :=
    base_add (vtLasttime_chVTDoSetI hne vtp delay lag) hticks (by omega)
  have hnow := add_base h hne
  simp only [delayFits, hlist, decide_eq_true_eq] at hfits
  have hdelay := toNat_raised delay
  have hd := vtDelta.toNat_lt
  have hsum : (s.elapsed + raised delay).toNat = (s.elapsed.toNat + (raised delay).toNat) % 2 ^ 32 :=
    UInt32.toNat_add _ _
  have hr := (raised delay).toNat_lt
  simp only [deadlines, hticks, hbase, vtlist_chVTDoSetI hlist, add_lt_iff]
  split_ifs with hover
  · -- The sum has wrapped; without the first delta it is exact again.
    have hdelta : (s.elapsed + raised delay - vtDelta).toNat =
        s.elapsed.toNat + (raised delay).toNat - vtDelta.toNat := by
      rw [UInt32.toNat_sub, hsum]
      omega
    have hpast : ¬ s.st.ticks + max delay.toNat 2 ≤ s.base + vtDelta.toNat := by omega
    have heq : s.base + vtDelta.toNat + (s.elapsed.toNat + (raised delay).toNat - vtDelta.toNat) =
        s.st.ticks + max delay.toNat 2 := by omega
    rw [hlist, deltas_cons, deltas_cons, deltas_link, hdelta, DeltaList.times_cons,
      DeltaList.times_link,
      heq, DeltaList.times_cons, List.orderedInsert_cons, if_neg hpast]
  · have heq : s.base + (s.elapsed + raised delay).toNat = s.st.ticks + max delay.toNat 2 := by
      rw [hsum, Nat.mod_eq_of_lt (by omega)]
      omega
    rw [deltas_link, DeltaList.times_link, heq]

theorem deadlines_chVTDoSetI [DecidableEq ι] {s : VirtualTimers ι} (h : s.Anchored) (vtp : ι)
    {delay : Systime} {lag : Nat} (hr : s.InRange (.set vtp delay lag)) :
    (s.chVTDoSetI vtp delay lag).deadlines =
      { now := s.st.ticks + lag
        armed := s.deadlines.armed.orderedInsert (fun x y => x.2 ≤ y.2)
          (vtp, s.st.ticks + max delay.toNat 2) } := by
  obtain ⟨hlag, hrecent, hfits⟩ := hr
  cases hlist : s.vtlist with
  | nil =>
    rw [deadlines_chVTDoSetI_nil hlist vtp delay hlag, deadlines_of_nil hlist, List.orderedInsert_nil]
  | cons x rest =>
    obtain ⟨p, vtDelta⟩ := x
    exact deadlines_chVTDoSetI_cons hlist h vtp hlag hrecent hfits

theorem anchored_chVTDoSetI [DecidableEq ι] {s : VirtualTimers ι} (h : s.Anchored) (vtp : ι)
    {delay : Systime} {lag : Nat} (hr : s.InRange (.set vtp delay lag)) :
    (s.chVTDoSetI vtp delay lag).Anchored := by
  obtain ⟨hlag, hrecent, -⟩ := hr
  have hticks := ticks_chVTDoSetI s vtp delay lag
  by_cases hnil : s.vtlist = []
  · intro _
    rw [elapsed_chVTDoSetI_nil hnil vtp delay hlag, hticks]
    omega
  · refine anchored_elapse h hticks (fun _ => hnil) (vtLasttime_chVTDoSetI hnil vtp delay lag) ?_
    intro hne
    have := hrecent hne
    omega

theorem ticks_chVTDoResetI [DecidableEq ι] {s : VirtualTimers ι} (hne : s.vtlist ≠ []) (vtp : ι)
    (lag : Nat) : (s.chVTDoResetI vtp lag).st.ticks = s.st.ticks + lag := by
  unfold chVTDoResetI
  split
  · exact absurd ‹_› hne
  · split_ifs
    · split
      · simp
      · dsimp only
        split_ifs <;> simp
    · simp

theorem vtLasttime_chVTDoResetI [DecidableEq ι] (s : VirtualTimers ι) (vtp : ι) (lag : Nat) :
    (s.chVTDoResetI vtp lag).vtLasttime = s.vtLasttime := by
  unfold chVTDoResetI
  split
  · rfl
  · split_ifs
    · split
      · rfl
      · dsimp only
        split_ifs <;> rfl
    · rfl

theorem vtlist_chVTDoResetI [DecidableEq ι] (s : VirtualTimers ι) (vtp : ι) (lag : Nat) :
    (s.chVTDoResetI vtp lag).vtlist = unlink vtp s.vtlist := by
  unfold chVTDoResetI
  split
  · simp [unlink, *]
  · rename_i hlist
    rw [hlist, unlink]
    split_ifs
    · split
      · rfl
      · dsimp only
        split_ifs <;> rfl
    · rfl

theorem deadlines_chVTDoResetI [DecidableEq ι] {s : VirtualTimers ι} {vtp : ι} {lag : Nat}
    (hne : s.vtlist ≠ []) (hr : s.InRange (.reset vtp lag)) :
    (s.chVTDoResetI vtp lag).deadlines =
      { now := s.st.ticks + lag, armed := s.deadlines.armed.eraseP (fun x => x.1 = vtp) } := by
  obtain ⟨hlag, hrecent, hfits⟩ := hr
  have hrange := hrecent hne
  have hbase : (s.chVTDoResetI vtp lag).base = s.base :=
    base_add (vtLasttime_chVTDoResetI s vtp lag) (ticks_chVTDoResetI hne vtp lag) (by omega)
  simp only [deadlines, ticks_chVTDoResetI hne, hbase, vtlist_chVTDoResetI, deltas_unlink hfits,
    DeltaList.times_unlink]

theorem anchored_chVTDoResetI [DecidableEq ι] {s : VirtualTimers ι} (h : s.Anchored) {vtp : ι}
    {lag : Nat}
    (hne : s.vtlist ≠ []) (hr : s.InRange (.reset vtp lag)) : (s.chVTDoResetI vtp lag).Anchored := by
  refine anchored_elapse h (ticks_chVTDoResetI hne vtp lag) (fun _ => hne)
    (vtLasttime_chVTDoResetI s vtp lag) ?_
  intro hne
  have hlag := hr.1
  have := hr.2.1 hne
  omega

theorem expired_deadlines {s : VirtualTimers ι} (h : s.Anchored) :
    s.deadlines.expired = s.expired := by
  cases hlist : s.vtlist with
  | nil => simp [expired, Deadlines.expired, deadlines_of_nil hlist, hlist]
  | cons x rest =>
    obtain ⟨vtp, vtDelta⟩ := x
    have hnow := add_base h (by simp [hlist])
    have hiff : s.base + vtDelta.toNat ≤ s.st.ticks ↔ vtDelta ≤ s.elapsed := by
      rw [UInt32.le_iff_toNat_le]
      omega
    simp [expired, Deadlines.expired, deadlines, hlist, hiff, elapsed]

/-- The three ways in which a test of the handler's loop can end. -/
inductive HandlerStep (s : VirtualTimers ι) (lag : Nat) : VirtualTimers ι → Prop where
  | empty (hlist : s.vtlist = []) (hrange : s.elapsed < vtlistDelta) :
      HandlerStep s lag { s with st := s.st.elapse lag, inHandler := false }
  | expire {vtp : ι} {vtDelta : Systime} {rest : List (ι × Systime)}
      (hlist : s.vtlist = (vtp, vtDelta) :: rest) (hdue : vtDelta ≤ s.elapsed) :
      HandlerStep s lag { s with
        vtLasttime := s.vtLasttime + vtDelta, vtlist := rest
        st := if rest = [] then (s.st.elapse lag).stLldStopAlarm else s.st.elapse lag }
  | leave {vtp : ι} {vtDelta : Systime} {rest : List (ι × Systime)}
      (hlist : s.vtlist = (vtp, vtDelta) :: rest) (hlater : s.elapsed < vtDelta) :
      HandlerStep s lag { s with
        st := (s.st.elapse lag).stLldSetAlarm
          (s.st.stLldGetCounter + raised (s.vtLasttime + vtDelta - s.st.stLldGetCounter))
        inHandler := false }

theorem handler_cases {s t : VirtualTimers ι} {lag : Nat} (h : s.chVTDoTickI lag = some t) :
    HandlerStep s lag t := by
  unfold chVTDoTickI at h
  dsimp only at h
  split at h
  · rename_i hlist
    split_ifs at h with hdue
    cases h
    exact .empty hlist (UInt32.not_le.mp hdue)
  · rename_i vtp vtDelta rest hlist
    by_cases hdue : vtDelta ≤ s.st.stLldGetCounter - s.vtLasttime
    · rw [if_pos hdue] at h
      cases h
      exact .expire hlist hdue
    · rw [if_neg hdue] at h
      split_ifs at h
      cases h
      exact .leave hlist (UInt32.not_le.mp hdue)

theorem ticks_of_handler {s t : VirtualTimers ι} {lag : Nat} (h : s.chVTDoTickI lag = some t) :
    t.st.ticks = s.st.ticks + lag := by
  cases handler_cases h with
  | empty hlist hrange => simp
  | expire hlist hdue =>
    dsimp only
    split_ifs <;> simp
  | leave hlist hlater => simp

theorem deadlines_expire {s t : VirtualTimers ι} {lag : Nat} {vtp : ι} {vtDelta : Systime}
    {rest : List (ι × Systime)} (h : s.Anchored) (hticks : t.st.ticks = s.st.ticks + lag)
    (hlist : s.vtlist = (vtp, vtDelta) :: rest) (hdue : vtDelta ≤ s.elapsed)
    (hrange : s.elapsed.toNat + lag < 2 ^ 32)
    (hlast : t.vtLasttime = s.vtLasttime + vtDelta) (hrest : t.vtlist = rest) :
    t.Anchored ∧ t.deadlines = { now := s.st.ticks + lag, armed := s.deadlines.armed.tail } := by
  have hnow := add_base h (by simp [hlist])
  have hd := UInt32.le_iff_toNat_le.mp hdue
  have hsub : t.elapsed = s.elapsed - vtDelta + UInt32.ofNat lag := by
    simp only [elapsed, StTimer.stLldGetCounter, hlast, hticks, UInt32.ofNat_add]
    grind
  have helapsed : t.elapsed.toNat = s.elapsed.toNat - vtDelta.toNat + lag := by
    rw [hsub, UInt32.toNat_add, UInt32.toNat_sub_of_le _ _ hdue, UInt32.toNat_ofNat',
      Nat.mod_eq_of_lt (by omega : lag < 2 ^ 32), Nat.mod_eq_of_lt (by omega)]
  have hbase : t.base = s.base + vtDelta.toNat := by
    rw [base, hticks, helapsed]
    omega
  refine ⟨fun _ => by omega, ?_⟩
  simp only [deadlines, hticks, hbase, hrest, hlist, deltas_cons, DeltaList.times_cons,
    List.tail_cons]

theorem step_handler [DecidableEq ι] {s t : VirtualTimers ι} {lag : Nat} (h : s.Anchored)
    (hr : s.InRange (.handler lag)) (ht : s.chVTDoTickI lag = some t) :
    t.Anchored ∧ s.deadlines.step (.handler lag) = some t.deadlines := by
  obtain ⟨hlag, hrange⟩ := hr
  have hticks := ticks_of_handler ht
  have hexpired := expired_deadlines h
  cases handler_cases ht with
  | empty hlist hmax =>
    refine ⟨fun hne => absurd hlist hne, ?_⟩
    rw [deadlines_elapse hticks rfl rfl (fun _ => by omega)]
    simp [Deadlines.step, deadlines_of_nil hlist, Deadlines.expired]
  | leave hlist hlater =>
    have hnone : s.deadlines.expired = none := by
      rw [hexpired, expired, hlist]
      exact if_neg (UInt32.not_le.mpr hlater)
    refine ⟨anchored_elapse h hticks (fun hne => hne) rfl (fun _ => by omega), ?_⟩
    rw [deadlines_elapse hticks rfl rfl (fun _ => by omega), Deadlines.step, hnone]
    rfl
  | @expire vtp vtDelta rest hlist hdue =>
    have hsome : s.deadlines.expired = some vtp := by
      rw [hexpired, expired, hlist]
      exact if_pos hdue
    obtain ⟨hanchored, ht⟩ := deadlines_expire h hticks hlist hdue (by omega) rfl rfl
    refine ⟨hanchored, ?_⟩
    rw [ht, Deadlines.step, hsome]
    rfl

theorem map_fst_deadlines (s : VirtualTimers ι) :
    s.deadlines.armed.map Prod.fst = s.vtlist.map Prod.fst := by
  simp [deadlines, DeltaList.map_fst_times, deltas]

theorem mem_vtlist {s : VirtualTimers ι} {vtp : ι} :
    vtp ∈ s.vtlist.map Prod.fst ↔ ∃ deadline, (vtp, deadline) ∈ s.deadlines.armed := by
  rw [← map_fst_deadlines]
  simp

theorem toNat_counter_sub {s : VirtualTimers ι} {t : Nat} (h : t ≤ s.st.ticks) :
    (s.st.stLldGetCounter - UInt32.ofNat t).toNat = (s.st.ticks - t) % 2 ^ 32 := by
  rw [StTimer.stLldGetCounter, ← UInt32.ofNat_sub h, UInt32.toNat_ofNat']

theorem ticks_stHandler (s : VirtualTimers ι) : s.stHandler.st.ticks = s.st.ticks := by
  unfold stHandler
  split <;> rfl

theorem vtlist_stHandler (s : VirtualTimers ι) : s.stHandler.vtlist = s.vtlist := by
  unfold stHandler
  split <;> rfl

theorem vtLasttime_stHandler (s : VirtualTimers ι) : s.stHandler.vtLasttime = s.vtLasttime := by
  unfold stHandler
  split <;> rfl

/-- One step of the kernel is the same step on the deadlines. -/
theorem step_deadlines [DecidableEq ι] {s t : VirtualTimers ι} {e : TimerEvent ι} (h : s.Anchored)
    (hr : s.InRange e) (he : s.step e = some t) :
    t.Anchored ∧ s.deadlines.step e = some t.deadlines := by
  cases e with
  | tick =>
    cases he
    have hrange : s.vtlist ≠ [] → s.elapsed.toNat + 1 < 2 ^ 32 := by
      intro hne
      have := hr hne
      omega
    have hticks : ({ s with st := s.st.tick } : VirtualTimers ι).st.ticks = s.st.ticks + 1 := rfl
    refine ⟨anchored_elapse h hticks (fun hne => hne) rfl hrange, ?_⟩
    rw [deadlines_elapse hticks rfl rfl hrange]
    rfl
  | set vtp delay lag =>
    simp only [step] at he
    split_ifs at he with hcheck
    cases he
    refine ⟨anchored_chVTDoSetI h vtp hr, ?_⟩
    rw [deadlines_chVTDoSetI h vtp hr, Deadlines.step, map_fst_deadlines, if_pos hcheck]
    rfl
  | reset vtp lag =>
    simp only [step] at he
    split_ifs at he with hmem
    cases he
    have hne : s.vtlist ≠ [] := by
      intro hnil
      simp [hnil] at hmem
    refine ⟨anchored_chVTDoResetI h hne hr, ?_⟩
    rw [deadlines_chVTDoResetI hne hr, Deadlines.step, map_fst_deadlines, if_pos hmem]
    rfl
  | irq =>
    simp only [step] at he
    split_ifs at he
    cases he
    have hsame : s.stHandler.elapsed = s.elapsed ∧ s.stHandler.base = s.base := by
      simp only [base, elapsed, StTimer.stLldGetCounter, ticks_stHandler, vtLasttime_stHandler,
        and_self]
    constructor
    · intro hne
      rw [hsame.1, ticks_stHandler]
      exact h (vtlist_stHandler s ▸ hne)
    · simp only [Deadlines.step, deadlines, ticks_stHandler, vtlist_stHandler, hsame.2]
  | handler lag =>
    simp only [step] at he
    split_ifs at he
    exact step_handler h hr he

theorem anchored_init : ({} : VirtualTimers ι).Anchored := fun hne => absurd rfl hne

theorem run_deadlines [DecidableEq ι] {es : List (TimerEvent ι)} {s : VirtualTimers ι}
    (hall : Machine.Always step InRange {} es) (h : Machine.run step {} es = some s) :
    s.Anchored ∧ Machine.run Deadlines.step {} es = some s.deadlines :=
  Machine.run_simulation deadlines anchored_init
    (fun _ _ _ hm hr he => step_deadlines hm hr he) hall h

end VirtualTimers

end SafetyTrolley
