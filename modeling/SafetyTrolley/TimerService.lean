import SafetyTrolley.TimerExpiry

/-! The service of the alarm's interrupt: left alone, the handler expires what is due,
and served at once it lets no timer wait for more than one tick. -/

namespace SafetyTrolley

variable {ι : Type*}

namespace VirtualTimers

/-- Neither does the handler's assertion fail, nor is the header taken for a timer. -/
theorem handler_enabled (s : VirtualTimers ι) {lag : Nat} (hlag : lag < 2)
    (hrange : s.elapsed.toNat + 2 < 2 ^ 32) : ∃ t, s.chVTDoTickI lag = some t := by
  unfold chVTDoTickI
  dsimp only
  split
  · have hheader : vtlistDelta.toNat = 2 ^ 32 - 1 := rfl
    have hnot : ¬ vtlistDelta ≤ s.elapsed := by
      rw [UInt32.le_iff_toNat_le]
      omega
    exact ⟨_, if_neg hnot⟩
  · rename_i vtp vtDelta rest hlist
    by_cases hdue : vtDelta ≤ s.elapsed
    · exact ⟨_, if_pos hdue⟩
    · have hraised := toNat_raised (vtDelta - s.elapsed)
      have hlater := UInt32.not_le.mp hdue
      have hsub := UInt32.toNat_sub_of_le vtDelta s.elapsed (UInt32.le_of_lt hlater)
      have hd := vtDelta.toNat_lt
      rw [UInt32.lt_iff_toNat_lt] at hlater
      have hleft : ((s.st.elapse lag).stLldGetCounter - s.vtLasttime).toNat = s.elapsed.toNat + lag :=
        elapsed_add (t := { s with st := s.st.elapse lag }) rfl (by simp) (by omega)
      have hright : s.st.stLldGetCounter + raised (vtDelta - s.elapsed) - s.vtLasttime =
          s.elapsed + raised (vtDelta - s.elapsed) := by
        rw [elapsed]
        grind
      have hassert : s.elapsed.toNat + lag ≤ (s.elapsed + raised (vtDelta - s.elapsed)).toNat := by
        rw [UInt32.toNat_add, Nat.mod_eq_of_lt (by omega)]
        omega
      refine ⟨_, (if_neg hdue).trans (if_pos ?_)⟩
      rw [nextDelta_eq, UInt32.le_iff_toNat_le, hleft, hright]
      exact hassert

theorem elapsed_expire {s t : VirtualTimers ι} {vtDelta : Systime} (hdue : vtDelta ≤ s.elapsed)
    (hlast : t.vtLasttime = s.vtLasttime + vtDelta) (hticks : t.st.ticks = s.st.ticks) :
    t.elapsed.toNat ≤ s.elapsed.toNat := by
  have hsub : t.elapsed = s.elapsed - vtDelta := by
    simp only [elapsed, StTimer.stLldGetCounter, hlast, hticks]
    grind
  rw [hsub, UInt32.toNat_sub_of_le _ _ hdue]
  exact Nat.sub_le _ _

theorem handler_leaves {s t : VirtualTimers ι} {lag : Nat} (hs : s.expired = none)
    (ht : s.chVTDoTickI lag = some t) : t.inHandler = false := by
  cases handler_cases ht with
  | empty hlist hrange => rfl
  | leave hlist hlater => rfl
  | expire hlist hdue =>
    rw [expired, hlist] at hs
    exact absurd ((if_pos hdue).symm.trans hs) (by simp)

theorem handler_stays {s t : VirtualTimers ι} {vtp : ι} (hs : s.expired = some vtp)
    (ht : s.chVTDoTickI 0 = some t) :
    t.inHandler = s.inHandler ∧ t.elapsed.toNat ≤ s.elapsed.toNat := by
  have hticks := ticks_of_handler ht
  cases handler_cases ht with
  | empty hlist hrange => simp [expired, hlist] at hs
  | leave hlist hlater =>
    rw [expired, hlist] at hs
    exact absurd ((if_neg (UInt32.not_le.mpr hlater)).symm.trans hs) (by simp)
  | expire hlist hdue => exact ⟨rfl, elapsed_expire hdue rfl hticks⟩

theorem exists_service [DecidableEq ι] {s : VirtualTimers ι} (ha : s.Anchored)
    (hin : s.inHandler = true) (hrange : s.elapsed.toNat + 2 < 2 ^ 32) :
    ∃ t, Machine.run step s (List.replicate
        (s.deadlines.armed.countP (fun x => x.2 ≤ s.st.ticks) + 1) (.handler 0)) = some t ∧
      t.inHandler = false ∧
      t.deadlines =
        { now := s.st.ticks, armed := s.deadlines.armed.filter (fun x => s.st.ticks < x.2) } := by
  induction hn : s.deadlines.armed.length using Nat.strongRecOn generalizing s with
  | ind n ih =>
    obtain ⟨t, ht⟩ := handler_enabled s Nat.two_pos hrange
    have hst : s.step (.handler 0) = some t := (if_pos hin).trans ht
    have hr : s.InRange (.handler 0) := ⟨Nat.two_pos, hrange⟩
    obtain ⟨ha', hdeadlines⟩ := step_deadlines ha hr hst
    cases hs : s.expired with
    | none =>
      have hlater : ∀ x ∈ s.deadlines.armed, s.st.ticks < x.2 := fun x hx =>
        Deadlines.lt_of_expired_eq_none s.sorted_deadlines (by rw [expired_deadlines ha, hs]) hx
      have hcount : s.deadlines.armed.countP (fun x => x.2 ≤ s.st.ticks) = 0 := by
        rw [List.countP_eq_zero]
        intro x hx
        simpa using hlater x hx
      refine ⟨t, by rw [hcount, Nat.zero_add, List.replicate_one, Machine.run_cons, hst]; rfl,
        handler_leaves hs ht, ?_⟩
      rw [List.filter_eq_self.mpr (by simpa using hlater)]
      rw [← expired_deadlines ha] at hs
      simp only [Deadlines.step, hs, Option.isSome_none, Bool.false_eq_true, if_false,
        Option.some.injEq] at hdeadlines
      exact hdeadlines.symm
    | some vtp =>
      obtain ⟨hin', hle⟩ := handler_stays hs ht
      rw [← expired_deadlines ha] at hs
      obtain ⟨deadline, rest, harmed, hdue⟩ := Deadlines.expired_eq_some hs
      simp only [Deadlines.step, hs, Option.isSome_some, if_true, Option.some.injEq, harmed,
        List.tail_cons] at hdeadlines
      have hnow : t.st.ticks = s.st.ticks := (congrArg Deadlines.now hdeadlines).symm
      have hrest : t.deadlines.armed = rest := (congrArg Deadlines.armed hdeadlines).symm
      rw [harmed, List.length_cons] at hn
      obtain ⟨u, hrun, hu, hud⟩ :=
        ih rest.length (by omega) ha' (hin'.trans hin) (by omega) (by rw [hrest])
      rw [hnow, hrest] at hrun hud
      have hdue' : deadline ≤ s.st.ticks := hdue
      refine ⟨u, ?_, hu, ?_⟩
      · rw [harmed, List.countP_cons_of_pos (by simpa using hdue'), List.replicate_succ,
          Machine.run_cons, hst]
        exact hrun
      · rw [hud, harmed, List.filter_cons_of_neg (by simpa using hdue')]

/-- In every run, the handler left alone expires exactly the timers that are due, and returns. -/
theorem service_expires_due [DecidableEq ι] {es : List (TimerEvent ι)} {s : VirtualTimers ι}
    (hall : Machine.Always step InRange {} es) (h : Machine.run step {} es = some s)
    (hin : s.inHandler = true) (hrange : s.elapsed.toNat + 2 < 2 ^ 32) :
    ∃ t, Machine.run step s (List.replicate
        (s.deadlines.armed.countP (fun x => x.2 ≤ s.st.ticks) + 1) (.handler 0)) = some t ∧
      t.inHandler = false ∧
      t.deadlines =
        { now := s.st.ticks, armed := s.deadlines.armed.filter (fun x => s.st.ticks < x.2) } :=
  exists_service (run_deadlines hall h).1 hin hrange

theorem service_expires_due_expireBoth :
    ∃ s t, Machine.run step {} (expireBoth.take 5) = some s ∧
      Machine.run step s (List.replicate
        (s.deadlines.armed.countP (fun x => x.2 ≤ s.st.ticks) + 1) (.handler 0)) = some t ∧
      t.inHandler = false ∧
      t.deadlines =
        { now := s.st.ticks, armed := s.deadlines.armed.filter (fun x => s.st.ticks < x.2) } := by
  have hrange : Machine.Always step InRange {} (expireBoth.take 5) := by decide
  obtain ⟨t, ht⟩ := service_expires_due hrange rfl rfl (by decide)
  exact ⟨_, t, rfl, ht⟩

/-- No tick passes while the alarm's interrupt is pending or being handled. -/
def Prompt (s : VirtualTimers ι) (e : TimerEvent ι) : Prop :=
  0 < e.ticks → s.inHandler = false ∧ ¬ (s.st.irqPending = true ∧ s.st.cc1if = true)

instance (s : VirtualTimers ι) (e : TimerEvent ι) : Decidable (s.Prompt e) := by
  unfold Prompt
  infer_instance

def OnTime (s : VirtualTimers ι) : Prop := ∀ x ∈ s.deadlines.armed, s.st.ticks ≤ x.2 + 1

theorem InRange.ticks_lt [DecidableEq ι] {s : VirtualTimers ι} {e : TimerEvent ι} (h : s.InRange e) :
    e.ticks < 2 := by
  cases e with
  | tick => exact Nat.lt_succ_self 1
  | irq => exact Nat.two_pos
  | set | reset | handler => exact h.1

/-- A tick that may pass leads no further than the alarm of the first deadline. -/
theorem Prompt.ticks_le [DecidableEq ι] {s : VirtualTimers ι} {e : TimerEvent ι} (h : s.Prompt e)
    (halarm : s.Alarmed) (hr : s.InRange e) (hpos : 0 < e.ticks) {x : ι × Nat}
    (hx : x ∈ s.deadlines.armed) : s.st.ticks + e.ticks ≤ x.2 + 1 := by
  obtain ⟨hin, hpending⟩ := h hpos
  have hlt := hr.ticks_lt
  obtain ⟨y, hy, hyx⟩ := DeltaList.exists_head?_le s.sorted_deadlines hx
  obtain ⟨-, hserved⟩ := halarm y hy
  cases hserved with
  | inl hhandler => simp [hin] at hhandler
  | inr hraises =>
    cases hraises with
    | inl hflag => exact absurd hflag hpending
    | inr halarm =>
      obtain ⟨alarm, hbefore, hle, -⟩ := halarm
      omega

theorem OnTime.step [DecidableEq ι] {s t : VirtualTimers ι} {e : TimerEvent ι} (h : s.OnTime)
    (ha : s.Anchored) (halarm : s.Alarmed) (hr : s.InRange e) (hp : s.Prompt e)
    (he : s.step e = some t) : t.OnTime := by
  have hdeadlines := (step_deadlines ha hr he).2
  have hticks : t.st.ticks = s.st.ticks + e.ticks := Deadlines.now_step hdeadlines
  have hlt := hr.ticks_lt
  intro x hx
  rcases Deadlines.mem_armed_step hdeadlines hx with ⟨hx, -⟩ | ⟨delay, lag, -, hx⟩
  · by_cases hpos : 0 < e.ticks
    · rw [hticks]
      exact hp.ticks_le halarm hr hpos hx
    · have := h x hx
      omega
  · have hnow : s.deadlines.now = s.st.ticks := rfl
    omega

/-- What is due is served within a tick. -/
structure Punctual (s : VirtualTimers ι) (l : TimerLog ι) : Prop where
  anchored : s.Anchored
  alarmed : s.Alarmed
  logged : Logged s.deadlines l
  onTime : s.OnTime
  fired : ∀ f ∈ l.fired, f.time ≤ f.deadline + 1

theorem Punctual.step [DecidableEq ι] {s t : VirtualTimers ι} {e : TimerEvent ι} {l : TimerLog ι}
    (h : s.Punctual l) (hr : s.InRange e) (hp : s.Prompt e) (he : s.step e = some t) :
    t.Punctual (s.log e l) := by
  obtain ⟨ha, hlogged⟩ := logged_log h.anchored h.logged hr he
  refine ⟨ha, step_alarmed h.anchored h.alarmed hr he, hlogged,
    h.onTime.step h.anchored h.alarmed hr hp he, ?_⟩
  intro f hf
  rcases TimerLog.mem_fired_next hf with hf | ⟨vtp, hexpired, rfl⟩
  · exact h.fired f hf
  · rw [← expired_deadlines h.anchored] at hexpired
    obtain ⟨deadline, rest, harmed, -⟩ := Deadlines.expired_eq_some hexpired
    have hmem : (vtp, deadline) ∈ s.deadlines.armed := by simp [harmed]
    rw [h.logged.asked (vtp, deadline) hmem]
    exact h.onTime (vtp, deadline) hmem

theorem run_punctual [DecidableEq ι] {es : List (TimerEvent ι)} {s : VirtualTimers ι} {l : TimerLog ι}
    (hall : Machine.Always step InRange {} es) (hprompt : Machine.Always step Prompt {} es)
    (h : Machine.run (Machine.watch step log) ({}, {}) es = some (s, l)) : s.Punctual l := by
  refine Machine.run_induction_of_always
    (P := fun _ (x : VirtualTimers ι × TimerLog ι) => x.1.Punctual x.2) ?_ ?_
    ((hall.and hprompt).watch log) h
  · exact ⟨anchored_init, alarmed_init, logged_init, by simp [OnTime, deadlines], by simp⟩
  · rintro - x e y - hx ⟨hr, hp⟩ he
    obtain ⟨hst, hnext⟩ := Machine.watch_eq_some.mp he
    rw [hnext]
    exact hx.step hr hp hst

/-- With its interrupt served before the next tick, no timer expires more than one
tick late, and none stays armed longer. -/
theorem expiry_within_one_tick [DecidableEq ι] {es : List (TimerEvent ι)} {s : VirtualTimers ι}
    {l : TimerLog ι} (hall : Machine.Always step InRange {} es)
    (hprompt : Machine.Always step Prompt {} es)
    (h : Machine.run (Machine.watch step log) ({}, {}) es = some (s, l)) :
    (∀ f ∈ l.fired, f.deadline ≤ f.time ∧ f.time ≤ f.deadline + 1) ∧
      ∀ vtp ∈ s.vtlist.map Prod.fst, s.st.ticks ≤ l.asked vtp + 1 := by
  have hpunctual := run_punctual hall hprompt h
  refine ⟨fun f hf => ⟨(hpunctual.logged.due f hf).1, hpunctual.fired f hf⟩, ?_⟩
  intro vtp hvtp
  rw [← map_fst_deadlines] at hvtp
  obtain ⟨x, hx, rfl⟩ := List.mem_map.mp hvtp
  rw [hpunctual.logged.asked x hx]
  exact hpunctual.onTime x hx

theorem expiry_within_one_tick_expireBoth :
    ∃ s l, Machine.run (Machine.watch step log) ({}, {}) expireBoth = some (s, l) ∧
      (∀ f ∈ l.fired, f.deadline ≤ f.time ∧ f.time ≤ f.deadline + 1) ∧
      ∀ vtp ∈ s.vtlist.map Prod.fst, s.st.ticks ≤ l.asked vtp + 1 :=
  ⟨_, _, rfl, expiry_within_one_tick inRange_expireBoth (by decide) rfl⟩

end VirtualTimers

end SafetyTrolley
