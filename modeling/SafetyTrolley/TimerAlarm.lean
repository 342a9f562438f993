import SafetyTrolley.TimerDeadlines

/-! The alarm of the virtual timers. As long as a timer is armed, its interrupt is
served, pending or still to come, and no later than one tick after the first deadline. -/

namespace SafetyTrolley

namespace StTimer

/-- The interrupt is pending, or the counter is on its way to an alarm no later than `limit`. -/
def Raises (st : StTimer) (limit : Nat) : Prop :=
  (st.irqPending = true ∧ st.cc1if = true) ∨
    ∃ alarm, st.ticks < alarm ∧ alarm ≤ limit ∧ st.ccr = UInt32.ofNat alarm

theorem Raises.mono {st : StTimer} {limit limit' : Nat} (h : st.Raises limit) (hle : limit ≤ limit') :
    st.Raises limit' := by
  cases h with
  | inl hpending => exact Or.inl hpending
  | inr halarm =>
    obtain ⟨alarm, hlt, halarm, hccr⟩ := halarm
    exact Or.inr ⟨alarm, hlt, halarm.trans hle, hccr⟩

@[simp] theorem cc1ie_elapse (st : StTimer) (n : Nat) : (st.elapse n).cc1ie = st.cc1ie := by
  induction n with
  | zero => rfl
  | succ n ih => exact ih

theorem Raises.tick {st : StTimer} {limit : Nat} (h : st.Raises limit) (hie : st.cc1ie = true) :
    st.tick.Raises limit := by
  cases h with
  | inl hpending => exact Or.inl ⟨by simp [StTimer.tick, hpending], by simp [StTimer.tick, hpending]⟩
  | inr halarm =>
    obtain ⟨alarm, hlt, hle, hccr⟩ := halarm
    by_cases hmatch : st.ticks + 1 = alarm
    · subst hmatch
      exact Or.inl ⟨by simp [StTimer.tick, hccr, hie], by simp [StTimer.tick, hccr]⟩
    · exact Or.inr ⟨alarm, by simp; omega, hle, hccr⟩

theorem Raises.elapse {st : StTimer} {limit : Nat} (h : st.Raises limit) (hie : st.cc1ie = true)
    (n : Nat) : (st.elapse n).Raises limit := by
  induction n with
  | zero => exact h
  | succ n ih => exact ih.tick (by rw [cc1ie_elapse, hie])

theorem raises_stLldSetAlarm {st : StTimer} {time : Systime} {alarm limit : Nat}
    (htime : time = UInt32.ofNat alarm) (hlt : st.ticks < alarm) (hle : alarm ≤ limit) :
    (st.stLldSetAlarm time).Raises limit := Or.inr ⟨alarm, hlt, hle, htime⟩

theorem raises_stLldStartAlarm {st : StTimer} {time : Systime} {alarm limit : Nat}
    (htime : time = UInt32.ofNat alarm) (hlt : st.ticks < alarm) (hle : alarm ≤ limit) :
    (st.stLldStartAlarm time).Raises limit := Or.inr ⟨alarm, hlt, hle, htime⟩

@[simp] theorem ccr_elapse (st : StTimer) (n : Nat) : (st.elapse n).ccr = st.ccr := by
  induction n with
  | zero => rfl
  | succ n ih => exact ih

theorem Raises.exists_elapse {st : StTimer} {limit : Nat} (h : st.Raises limit)
    (hie : st.cc1ie = true) :
    ∃ n, (st.elapse n).irqPending = true ∧ (st.elapse n).cc1if = true ∧
      (n = 0 ∨ st.ticks + n ≤ limit) := by
  cases h with
  | inl hpending => exact ⟨0, hpending.1, hpending.2, Or.inl rfl⟩
  | inr halarm =>
    obtain ⟨alarm, hlt, hle, hccr⟩ := halarm
    obtain ⟨k, rfl⟩ : ∃ k, alarm = st.ticks + k + 1 := ⟨alarm - st.ticks - 1, by omega⟩
    have hmatch : (UInt32.ofNat ((st.elapse k).ticks + 1) == (st.elapse k).ccr) = true := by
      simp [hccr]
    have hie' : (st.elapse k).cc1ie = true := by rw [cc1ie_elapse, hie]
    refine ⟨k + 1, ?_, ?_, Or.inr hle⟩
    · simp only [StTimer.elapse, StTimer.tick, hmatch, hie']
      simp
    · simp only [StTimer.elapse, StTimer.tick, hmatch]
      simp

end StTimer

variable {ι : Type*}

namespace VirtualTimers

/-- With a timer armed, the alarm is enabled, and the handler runs or will be raised in time. -/
def Alarmed (s : VirtualTimers ι) : Prop :=
  ∀ x ∈ s.deadlines.armed.head?,
    s.st.cc1ie = true ∧ (s.inHandler = true ∨ s.st.Raises (x.2 + 1))

theorem counter_add (s : VirtualTimers ι) (delta : Systime) :
    s.st.stLldGetCounter + delta = UInt32.ofNat (s.st.ticks + delta.toNat) := by
  rw [StTimer.stLldGetCounter, UInt32.ofNat_add, UInt32.ofNat_toNat]

theorem nextDelta_eq (s : VirtualTimers ι) (vtDelta : Systime) :
    s.vtLasttime + vtDelta - s.st.stLldGetCounter = vtDelta - s.elapsed := by
  rw [elapsed]
  grind

theorem armed_cons {s : VirtualTimers ι} {p : ι} {vtDelta : Systime} {rest : List (ι × Systime)}
    (hlist : s.vtlist = (p, vtDelta) :: rest) :
    s.deadlines.armed =
      (p, s.base + vtDelta.toNat) :: DeltaList.times (s.base + vtDelta.toNat) (deltas rest) := by
  simp [deadlines, hlist]

/-- The alarm of the first deadline serves every later one as well. -/
theorem Alarmed.elapse {s t : VirtualTimers ι} {lag : Nat} (h : s.Alarmed)
    (hst : t.st = s.st.elapse lag) (hin : t.inHandler = s.inHandler)
    (hlater : ∀ y ∈ t.deadlines.armed.head?, ∃ x ∈ s.deadlines.armed.head?, x.2 ≤ y.2) :
    t.Alarmed := by
  intro y hy
  obtain ⟨x, hx, hle⟩ := hlater y hy
  obtain ⟨hie, hserved⟩ := h x hx
  rw [hst, hin, StTimer.cc1ie_elapse]
  refine ⟨hie, ?_⟩
  cases hserved with
  | inl hhandler => exact Or.inl hhandler
  | inr hraises => exact Or.inr ((hraises.elapse hie lag).mono (by omega))

theorem st_chVTDoSetI {s : VirtualTimers ι} {p : ι} {vtDelta : Systime} {rest : List (ι × Systime)}
    (hlist : s.vtlist = (p, vtDelta) :: rest) (vtp : ι) (delay : Systime) (lag : Nat) :
    (s.chVTDoSetI vtp delay lag).st =
      if ¬ s.elapsed + raised delay < s.elapsed ∧ s.elapsed + raised delay < vtDelta then
        (s.st.elapse lag).stLldSetAlarm (s.st.stLldGetCounter + raised delay)
      else s.st.elapse lag := by
  have htime : s.vtLasttime + (s.elapsed + raised delay) = s.st.stLldGetCounter + raised delay := by
    rw [elapsed]
    grind
  rw [← htime]
  simp only [chVTDoSetI, hlist, elapsed]
  split_ifs <;> simp_all

theorem inHandler_chVTDoSetI (s : VirtualTimers ι) (vtp : ι) (delay : Systime) (lag : Nat) :
    (s.chVTDoSetI vtp delay lag).inHandler = s.inHandler := by
  unfold chVTDoSetI
  split
  · rfl
  · dsimp only
    split_ifs <;> rfl

theorem alarmed_set [DecidableEq ι] {s : VirtualTimers ι} (ha : s.Anchored) (h : s.Alarmed) (vtp : ι)
    {delay : Systime} {lag : Nat} (hr : s.InRange (.set vtp delay lag)) :
    (s.chVTDoSetI vtp delay lag).Alarmed := by
  have harmed := congrArg Deadlines.armed (deadlines_chVTDoSetI ha vtp hr)
  have hdelay := toNat_raised delay
  have hlag := hr.1
  have htime : s.st.stLldGetCounter + raised delay = UInt32.ofNat
      (s.st.ticks + max delay.toNat 2) := by
    rw [counter_add, hdelay]
  cases hlist : s.vtlist with
  | nil =>
    intro y hy
    rw [harmed, deadlines_of_nil hlist] at hy
    cases hy
    simp only [chVTDoSetI, hlist]
    exact ⟨rfl, Or.inr (StTimer.raises_stLldStartAlarm htime (by simp; omega) (by simp))⟩
  | cons x rest =>
    obtain ⟨p, vtDelta⟩ := x
    have hnow := add_base ha (by simp [hlist])
    have hst := st_chVTDoSetI hlist vtp delay lag
    have hsum : (s.elapsed + raised delay).toNat =
        (s.elapsed.toNat + (raised delay).toNat) % 2 ^ 32 :=
      UInt32.toNat_add _ _
    rw [armed_cons hlist, List.orderedInsert_cons] at harmed
    split_ifs at hst with hfirst
    · -- The new timer is the first one, and the alarm is moved to it.
      rw [add_lt_iff, UInt32.lt_iff_toNat_lt, hsum] at hfirst
      have hle : s.st.ticks + max delay.toNat 2 ≤ s.base + vtDelta.toNat := by omega
      intro y hy
      rw [harmed, if_pos hle] at hy
      cases hy
      rw [hst]
      refine ⟨?_, Or.inr (StTimer.raises_stLldSetAlarm htime (by simp; omega) (by simp))⟩
      obtain ⟨hie, -⟩ := h (p, s.base + vtDelta.toNat) (by simp [armed_cons hlist])
      simpa [StTimer.stLldSetAlarm] using hie
    · rw [add_lt_iff, UInt32.lt_iff_toNat_lt, hsum] at hfirst
      have hd := vtDelta.toNat_lt
      have hle : s.base + vtDelta.toNat ≤ s.st.ticks + max delay.toNat 2 := by omega
      refine h.elapse hst (inHandler_chVTDoSetI s vtp delay lag) ?_
      intro y hy
      refine ⟨(p, s.base + vtDelta.toNat), by simp [armed_cons hlist], ?_⟩
      rw [harmed] at hy
      split_ifs at hy
      · cases hy
        exact hle
      · cases hy
        exact Nat.le_refl _

/-- The calls of chVTDoResetI that leave the alarm alone, and the one that moves it. -/
theorem st_chVTDoResetI [DecidableEq ι] {s : VirtualTimers ι} {vtp : ι} {lag : Nat}
    (hrest : (s.chVTDoResetI vtp lag).vtlist ≠ []) :
    (s.chVTDoResetI vtp lag).st = s.st.elapse lag ∨
      ∃ next nextDelta rest, (s.chVTDoResetI vtp lag).vtlist = (next, nextDelta) :: rest ∧
        s.elapsed < nextDelta ∧
        (s.chVTDoResetI vtp lag).st = (s.st.elapse lag).stLldSetAlarm
          (s.st.stLldGetCounter + raised (nextDelta - s.elapsed)) := by
  unfold chVTDoResetI at hrest ⊢
  split at hrest
  · exact absurd ‹_› hrest
  · rename_i p vtDelta after hlist
    split_ifs at hrest ⊢
    · split at hrest
      · exact absurd rfl hrest
      · rename_i next nextDelta rest
        dsimp only
        split_ifs with hdue
        · exact Or.inl rfl
        · refine Or.inr ⟨next, nextDelta + vtDelta, rest, rfl, UInt32.not_le.mp hdue, ?_⟩
          simp only [elapsed]
          grind
    · exact Or.inl rfl

theorem inHandler_chVTDoResetI [DecidableEq ι] (s : VirtualTimers ι) (vtp : ι) (lag : Nat) :
    (s.chVTDoResetI vtp lag).inHandler = s.inHandler := by
  unfold chVTDoResetI
  split
  · rfl
  · split_ifs
    · split
      · rfl
      · dsimp only
        split_ifs <;> rfl
    · rfl

theorem alarmed_reset [DecidableEq ι] {s : VirtualTimers ι} (ha : s.Anchored) (h : s.Alarmed)
    {vtp : ι} {lag : Nat} (hne : s.vtlist ≠ []) (hr : s.InRange (.reset vtp lag)) :
    (s.chVTDoResetI vtp lag).Alarmed := by
  have hdeadlines := deadlines_chVTDoResetI hne hr
  have hsorted : s.deadlines.armed.Pairwise (fun x y => x.2 ≤ y.2) := DeltaList.pairwise_times _ _
  have hlater : ∀ y ∈ (s.chVTDoResetI vtp lag).deadlines.armed.head?,
      ∃ x ∈ s.deadlines.armed.head?, x.2 ≤ y.2 := by
    intro y hy
    rw [hdeadlines] at hy
    exact DeltaList.exists_head?_le hsorted (List.mem_of_mem_eraseP (List.mem_of_mem_head? hy))
  by_cases hnil : (s.chVTDoResetI vtp lag).vtlist = []
  · intro y hy
    rw [deadlines_of_nil hnil] at hy
    simp at hy
  · cases st_chVTDoResetI hnil with
    | inl hst => exact h.elapse hst (inHandler_chVTDoResetI s vtp lag) hlater
    | inr hmoved =>
      obtain ⟨next, nextDelta, rest, hlist, hlt, hst⟩ := hmoved
      intro y hy
      obtain ⟨x, hx, -⟩ := hlater y hy
      obtain ⟨hie, -⟩ := h x hx
      have hbase : (s.chVTDoResetI vtp lag).base = s.base :=
        base_add (vtLasttime_chVTDoResetI s vtp lag) (ticks_chVTDoResetI hne vtp lag)
          (by have := hr.2.1 hne; have := hr.1; omega)
      have hnow := add_base ha hne
      have hraised := toNat_raised (nextDelta - s.elapsed)
      have hsub := UInt32.toNat_sub_of_le nextDelta s.elapsed (UInt32.le_of_lt hlt)
      have hlag := hr.1
      rw [UInt32.lt_iff_toNat_lt] at hlt
      rw [armed_cons hlist] at hy
      cases hy
      rw [hst, counter_add]
      refine ⟨by simpa [StTimer.stLldSetAlarm] using hie, Or.inr ?_⟩
      exact StTimer.raises_stLldSetAlarm rfl (by simp; omega) (by omega)

theorem alarmed_handler {s t : VirtualTimers ι} {lag : Nat} (ha : s.Anchored) (h : s.Alarmed)
    (hin : s.inHandler = true) (hlag : lag < 2) (hrange : s.elapsed.toNat + 2 < 2 ^ 32)
    (ht : s.chVTDoTickI lag = some t) : t.Alarmed := by
  have hticks := ticks_of_handler ht
  cases handler_cases ht with
  | empty hlist hmax =>
    intro y hy
    rw [deadlines_elapse hticks rfl rfl (fun _ => by omega), deadlines_of_nil hlist] at hy
    simp at hy
  | @expire vtp vtDelta rest hlist hdue =>
    intro y hy
    obtain ⟨hie, -⟩ := h (vtp, s.base + vtDelta.toNat) (by simp [armed_cons hlist])
    by_cases hrest : rest = []
    · rw [deadlines_of_nil hrest] at hy
      simp at hy
    · exact ⟨by simpa [hrest] using hie, Or.inl hin⟩
  | @leave vtp vtDelta rest hlist hlater =>
    intro y hy
    rw [deadlines_elapse hticks rfl rfl (fun _ => by omega), armed_cons hlist] at hy
    cases hy
    obtain ⟨hie, -⟩ := h (vtp, s.base + vtDelta.toNat) (by simp [armed_cons hlist])
    refine ⟨by simpa [StTimer.stLldSetAlarm] using hie, Or.inr ?_⟩
    have hnow := add_base ha (by simp [hlist])
    have hraised := toNat_raised (vtDelta - s.elapsed)
    have hsub := UInt32.toNat_sub_of_le vtDelta s.elapsed (UInt32.le_of_lt hlater)
    rw [UInt32.lt_iff_toNat_lt] at hlater
    rw [nextDelta_eq, counter_add]
    exact StTimer.raises_stLldSetAlarm rfl (by simp; omega) (by omega)

theorem alarmed_irq {s : VirtualTimers ι} (h : s.Alarmed) : s.stHandler.Alarmed := by
  have harmed : s.stHandler.deadlines.armed = s.deadlines.armed := by
    simp only [deadlines, base, elapsed, StTimer.stLldGetCounter, ticks_stHandler, vtlist_stHandler,
      vtLasttime_stHandler]
  intro y hy
  rw [harmed] at hy
  obtain ⟨hie, hserved⟩ := h y hy
  unfold stHandler
  by_cases hflag : s.st.cc1if = true
  · rw [if_pos hflag]
    exact ⟨hie, Or.inl rfl⟩
  · rw [if_neg hflag]
    refine ⟨hie, ?_⟩
    cases hserved with
    | inl hhandler => exact Or.inl hhandler
    | inr hraises =>
      cases hraises with
      | inl hpending => exact absurd hpending.2 hflag
      | inr halarm => exact Or.inr (Or.inr halarm)

theorem step_alarmed [DecidableEq ι] {s t : VirtualTimers ι} {e : TimerEvent ι} (ha : s.Anchored)
    (h : s.Alarmed) (hr : s.InRange e) (he : s.step e = some t) : t.Alarmed := by
  have hdeadlines := (step_deadlines ha hr he).2
  cases e with
  | tick =>
    cases he
    have harmed := congrArg Deadlines.armed (Option.some.inj hdeadlines)
    refine Alarmed.elapse h (show s.st.tick = s.st.elapse 1 from rfl) rfl ?_
    intro y hy
    exact ⟨y, by rwa [← harmed] at hy, Nat.le_refl _⟩
  | set vtp delay lag =>
    simp only [step] at he
    split_ifs at he
    cases he
    exact alarmed_set ha h vtp hr
  | reset vtp lag =>
    simp only [step] at he
    split_ifs at he with hmem
    cases he
    refine alarmed_reset ha h ?_ hr
    intro hnil
    simp [hnil] at hmem
  | irq =>
    simp only [step] at he
    split_ifs at he
    cases he
    exact alarmed_irq h
  | handler lag =>
    simp only [step] at he
    split_ifs at he with hin
    exact alarmed_handler ha h hin hr.1 hr.2 he

theorem alarmed_init : ({} : VirtualTimers ι).Alarmed := by
  intro x hx
  simp [deadlines] at hx

theorem run_alarmed [DecidableEq ι] {es : List (TimerEvent ι)} {s : VirtualTimers ι}
    (hall : Machine.Always step InRange {} es) (h : Machine.run step {} es = some s) :
    s.Anchored ∧ s.Alarmed := by
  refine Machine.run_induction_of_always (P := fun _ s => s.Anchored ∧ s.Alarmed)
    ⟨anchored_init, alarmed_init⟩ ?_ hall h
  rintro - m e t - ⟨ha, halarm⟩ hr he
  exact ⟨(step_deadlines ha hr he).1, step_alarmed ha halarm hr he⟩

/-- No alarm is lost: with a timer armed, the handler is running, or ticks alone raise
its interrupt no later than one tick after the first deadline. -/
theorem alarm_never_lost [DecidableEq ι] {es : List (TimerEvent ι)} {s : VirtualTimers ι}
    (hall : Machine.Always step InRange {} es) (h : Machine.run step {} es = some s) {x : ι × Nat}
    (hx : x ∈ s.deadlines.armed) :
    s.inHandler = true ∨ ∃ n, (s.st.elapse n).irqPending = true ∧ (s.st.elapse n).cc1if = true ∧
      (n = 0 ∨ s.st.ticks + n ≤ x.2 + 1) := by
  obtain ⟨-, halarm⟩ := run_alarmed hall h
  obtain ⟨y, hy, hle⟩ := DeltaList.exists_head?_le (DeltaList.pairwise_times _ _) hx
  obtain ⟨hie, hserved⟩ := halarm y hy
  cases hserved with
  | inl hhandler => exact Or.inl hhandler
  | inr hraises => exact Or.inr ((hraises.mono (by omega)).exists_elapse hie)

def armBoth : List (TimerEvent Nat) := [.set 0 9 0, .tick, .set 1 4 1]

theorem alarm_never_lost_armBoth :
    ∃ s, Machine.run step {} armBoth = some s ∧
      (s.inHandler = true ∨ ∃ n, (s.st.elapse n).irqPending = true ∧ (s.st.elapse n).cc1if = true ∧
        (n = 0 ∨ s.st.ticks + n ≤ 5 + 1)) := by
  have hrange : Machine.Always step InRange {} armBoth := by decide
  exact ⟨_, rfl, alarm_never_lost (x := (1, 5)) hrange rfl (by decide)⟩

end VirtualTimers

end SafetyTrolley
