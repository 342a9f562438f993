import SafetyTrolley.TimerAlarm

/-! When the virtual timers expire: in the order of their deadlines, never early, and
once for every time that they are set and not reset. -/

namespace SafetyTrolley

variable {ι : Type*}

namespace TimerEvent

def ticks : TimerEvent ι → Nat
  | .tick => 1
  | .set _ _ lag | .reset _ lag | .handler lag => lag
  | .irq => 0

def sets [DecidableEq ι] (i : ι) : TimerEvent ι → Bool
  | .set vtp _ _ => vtp = i
  | _ => false

def resets [DecidableEq ι] (i : ι) : TimerEvent ι → Bool
  | .reset vtp _ => vtp = i
  | _ => false

end TimerEvent

structure Expiry (ι : Type*) where
  vtp : ι
  deadline : Nat
  time : Nat
  deriving DecidableEq, Repr

/-- The deadline that was last asked for each timer, and the timers that have expired. -/
structure TimerLog (ι : Type*) where
  asked : ι → Nat := fun _ => 0
  fired : List (Expiry ι) := []

def TimerLog.next [DecidableEq ι] (now : Nat) (expired : Option ι) (e : TimerEvent ι)
    (log : TimerLog ι) :
    TimerLog ι :=
  match e with
  | .set vtp delay _ => { log with asked := Function.update log.asked vtp (now + max delay.toNat 2) }
  | .handler _ =>
    match expired with
    | some vtp => { log with fired := log.fired ++ [⟨vtp, log.asked vtp, now⟩] }
    | none => log
  | _ => log

namespace Deadlines

def Sorted (a : Deadlines ι) : Prop := a.armed.Pairwise (fun x y => x.2 ≤ y.2)

theorem now_step [DecidableEq ι] {a b : Deadlines ι} {e : TimerEvent ι} (h : a.step e = some b) :
    b.now = a.now + e.ticks := by
  cases e with
  | tick | irq | handler =>
    cases h
    rfl
  | set | reset =>
    simp only [step] at h
    split_ifs at h
    cases h
    rfl

theorem expired_eq_some {a : Deadlines ι} {vtp : ι} (h : a.expired = some vtp) :
    ∃ deadline rest, a.armed = (vtp, deadline) :: rest ∧ deadline ≤ a.now := by
  unfold expired at h
  split at h
  · cases h
  · rename_i deadline rest harmed
    split_ifs at h with hdue
    cases h
    exact ⟨deadline, rest, harmed, hdue⟩

theorem lt_of_expired_eq_none {a : Deadlines ι} (hsorted : a.Sorted) (h : a.expired = none)
    {x : ι × Nat} (hx : x ∈ a.armed) : a.now < x.2 := by
  unfold expired at h
  split at h
  · rename_i hnil
    simp [hnil] at hx
  · rename_i vtp deadline rest harmed
    split_ifs at h with hdue
    have hlater : a.now < deadline := Nat.lt_of_not_le hdue
    rw [harmed] at hx
    rw [Sorted, harmed] at hsorted
    rcases List.mem_cons.mp hx with rfl | hx
    · exact hlater
    · exact hlater.trans_le ((List.pairwise_cons.mp hsorted).1 x hx)

/-- A timer is armed after a step if it was before, or if the step sets it. -/
theorem mem_armed_step [DecidableEq ι] {a b : Deadlines ι} {e : TimerEvent ι} (h : a.step e = some b)
    {x : ι × Nat} (hx : x ∈ b.armed) :
    (x ∈ a.armed ∧ ∀ delay lag, e ≠ .set x.1 delay lag) ∨
      ∃ delay lag, e = .set x.1 delay lag ∧ x.2 = a.now + max delay.toNat 2 := by
  cases e with
  | tick =>
    cases h
    exact Or.inl ⟨hx, fun _ _ => by simp⟩
  | irq =>
    cases h
    exact Or.inl ⟨hx, fun _ _ => by simp⟩
  | set vtp delay lag =>
    simp only [step] at h
    split_ifs at h with hcheck
    cases h
    rcases (List.mem_orderedInsert _).mp hx with rfl | hold
    · exact Or.inr ⟨delay, lag, rfl, rfl⟩
    · refine Or.inl ⟨hold, ?_⟩
      intro delay' lag' heq
      cases heq
      exact hcheck.1 (List.mem_map_of_mem hold)
  | reset vtp lag =>
    simp only [step] at h
    split_ifs at h
    cases h
    exact Or.inl ⟨List.mem_of_mem_eraseP hx, fun _ _ => by simp⟩
  | handler lag =>
    simp only [step, Option.some.injEq] at h
    subst h
    refine Or.inl ⟨?_, fun _ _ => by simp⟩
    dsimp only at hx
    split_ifs at hx
    · exact List.mem_of_mem_tail hx
    · exact hx

/-- An armed timer that is neither set nor reset stays armed until it is due. -/
theorem armed_step_or_due [DecidableEq ι] {a b : Deadlines ι} {e : TimerEvent ι}
    (h : a.step e = some b)
    {x : ι × Nat} (hx : x ∈ a.armed) (hreset : e.resets x.1 = false) : x ∈ b.armed ∨ x.2 ≤ a.now := by
  cases e with
  | tick | irq =>
    cases h
    exact Or.inl hx
  | set vtp delay lag =>
    simp only [step] at h
    split_ifs at h
    cases h
    exact Or.inl ((List.mem_orderedInsert _).mpr (Or.inr hx))
  | reset vtp lag =>
    simp only [step] at h
    split_ifs at h
    cases h
    have hne : ¬ x.1 = vtp := fun heq => by simp [TimerEvent.resets, heq] at hreset
    exact Or.inl ((List.mem_eraseP_of_neg (by simpa using hne)).mpr hx)
  | handler lag =>
    cases h
    cases hs : a.expired with
    | none => exact Or.inl (by simpa [hs] using hx)
    | some vtp =>
      obtain ⟨deadline, rest, harmed, hdue⟩ := expired_eq_some hs
      rw [harmed] at hx
      rcases List.mem_cons.mp hx with rfl | hx
      · exact Or.inr hdue
      · exact Or.inl (by simpa [hs, harmed] using hx)

end Deadlines

/-- The log against the deadlines: what was asked is what is armed, and whatever has
expired had its deadline before the present and before every armed timer. -/
structure Logged (a : Deadlines ι) (log : TimerLog ι) : Prop where
  asked : ∀ x ∈ a.armed, log.asked x.1 = x.2
  due : ∀ f ∈ log.fired, f.deadline ≤ f.time ∧ f.time ≤ a.now
  order : log.fired.Pairwise (fun f g => f.deadline ≤ g.deadline)
  before : ∀ f ∈ log.fired, ∀ x ∈ a.armed, f.deadline ≤ x.2

theorem TimerLog.mem_fired_next [DecidableEq ι] {now : Nat} {expired : Option ι} {e : TimerEvent ι}
    {log : TimerLog ι} {f : Expiry ι} (h : f ∈ (log.next now expired e).fired) :
    f ∈ log.fired ∨ ∃ vtp, expired = some vtp ∧ f = ⟨vtp, log.asked vtp, now⟩ := by
  cases e with
  | handler lag =>
    cases expired with
    | none => exact Or.inl h
    | some vtp =>
      rcases List.mem_append.mp h with h | h
      · exact Or.inl h
      · exact Or.inr ⟨vtp, rfl, List.mem_singleton.mp h⟩
  | tick | set | reset | irq => exact Or.inl h

theorem Logged.quiet [DecidableEq ι] {a b : Deadlines ι} {log log' : TimerLog ι} {e : TimerEvent ι}
    (h : Logged a log) (hb : a.step e = some b) (hfired : log'.fired = log.fired)
    (hasked : ∀ x ∈ b.armed, log'.asked x.1 = x.2) : Logged b log' := by
  have hnow := a.now_step hb
  refine ⟨hasked, ?_, by rw [hfired]; exact h.order, ?_⟩
  · intro f hf
    obtain ⟨hdue, hpast⟩ := h.due f (hfired ▸ hf)
    exact ⟨hdue, by omega⟩
  · intro f hf x hx
    rw [hfired] at hf
    obtain ⟨hdue, hpast⟩ := h.due f hf
    rcases Deadlines.mem_armed_step hb hx with ⟨hx, -⟩ | ⟨delay, lag, -, hx⟩
    · exact h.before f hf x hx
    · omega

theorem Logged.expire {a b : Deadlines ι} {log : TimerLog ι} {vtp : ι} {lag : Nat} (h : Logged a log)
    (hsorted : a.Sorted) (hs : a.expired = some vtp) (hnow : b.now = a.now + lag)
    (harmed : b.armed = a.armed.tail) :
    Logged b { log with fired := log.fired ++ [⟨vtp, log.asked vtp, a.now⟩] } := by
  obtain ⟨deadline, rest, ha, hdue⟩ := Deadlines.expired_eq_some hs
  rw [ha, List.tail_cons] at harmed
  rw [Deadlines.Sorted, ha, List.pairwise_cons] at hsorted
  have hasked : log.asked vtp = deadline := h.asked (vtp, deadline) (by simp [ha])
  constructor
  · intro x hx
    exact h.asked x (by simp [ha, harmed ▸ hx])
  · intro f hf
    rcases List.mem_append.mp hf with hf | hf
    · obtain ⟨hf, hpast⟩ := h.due f hf
      exact ⟨hf, by omega⟩
    · rw [List.mem_singleton.mp hf, hasked, hnow]
      exact ⟨hdue, Nat.le_add_right _ _⟩
  · refine List.pairwise_append.mpr ⟨h.order, List.pairwise_singleton _ _, ?_⟩
    intro f hf g hg
    rw [List.mem_singleton.mp hg, hasked]
    exact h.before f hf (vtp, deadline) (by simp [ha])
  · intro f hf x hx
    rw [harmed] at hx
    rcases List.mem_append.mp hf with hf | hf
    · exact h.before f hf x (by simp [ha, hx])
    · rw [List.mem_singleton.mp hf, hasked]
      exact hsorted.1 x hx

theorem Logged.step [DecidableEq ι] {a b : Deadlines ι} {log : TimerLog ι} {e : TimerEvent ι}
    (h : Logged a log) (hsorted : a.Sorted) (hb : a.step e = some b) :
    Logged b (log.next a.now a.expired e) := by
  have hmem : ∀ x ∈ b.armed, (∀ delay lag, e ≠ .set x.1 delay lag) → log.asked x.1 = x.2 := by
    intro x hx hne
    rcases Deadlines.mem_armed_step hb hx with ⟨hx, -⟩ | ⟨delay, lag, heq, -⟩
    · exact h.asked x hx
    · exact absurd heq (hne delay lag)
  cases e with
  | tick | irq | reset => exact h.quiet hb rfl (fun x hx => hmem x hx (fun _ _ => by simp))
  | set vtp delay lag =>
    refine h.quiet hb rfl ?_
    intro x hx
    by_cases hvtp : x.1 = vtp
    · rcases Deadlines.mem_armed_step hb hx with ⟨-, hne⟩ | ⟨delay', lag', heq, hx⟩
      · exact absurd (by rw [hvtp]) (hne delay lag)
      · cases heq
        simp [TimerLog.next, hx]
    · have hasked := hmem x hx (fun delay' lag' heq => hvtp (by cases heq; rfl))
      simpa [TimerLog.next, Function.update_of_ne hvtp] using hasked
  | handler lag =>
    cases hs : a.expired with
    | none =>
      refine h.quiet hb (by simp [TimerLog.next]) ?_
      intro x hx
      simpa [TimerLog.next] using hmem x hx (fun _ _ => by simp)
    | some vtp =>
      simp only [Deadlines.step, hs, Option.isSome_some, if_true, Option.some.injEq] at hb
      subst hb
      exact h.expire hsorted hs rfl rfl

namespace VirtualTimers

/-- The log of a run, with the time and the expired timer that the kernel reads. -/
def log [DecidableEq ι] (s : VirtualTimers ι) (e : TimerEvent ι) (log : TimerLog ι) : TimerLog ι :=
  log.next s.st.ticks s.expired e

theorem sorted_deadlines (s : VirtualTimers ι) : s.deadlines.Sorted := DeltaList.pairwise_times _ _

theorem perm_link (vtp : ι) (delta : Systime) (xs : List (ι × Systime)) :
    ((link vtp delta xs).map Prod.fst).Perm (vtp :: xs.map Prod.fst) := by
  induction xs generalizing delta with
  | nil => exact List.Perm.refl _
  | cons x xs ih =>
    obtain ⟨p, vtDelta⟩ := x
    rw [link]
    split_ifs
    · exact ((ih (delta - vtDelta)).cons p).trans (List.Perm.swap vtp p _)
    · exact List.Perm.refl _

theorem map_fst_unlink [DecidableEq ι] (vtp : ι) (xs : List (ι × Systime)) :
    (unlink vtp xs).map Prod.fst = (xs.map Prod.fst).erase vtp := by
  induction xs with
  | nil => rfl
  | cons x xs ih =>
    obtain ⟨p, vtDelta⟩ := x
    rw [unlink, List.map_cons]
    split_ifs with hp
    · cases xs <;> simp [addNext, hp]
    · rw [List.map_cons, ih, List.erase_cons_tail (by simpa using hp)]

theorem perm_chVTDoSetI (s : VirtualTimers ι) (vtp : ι) (delay : Systime) (lag : Nat) :
    ((s.chVTDoSetI vtp delay lag).vtlist.map Prod.fst).Perm (vtp :: s.vtlist.map Prod.fst) := by
  cases hlist : s.vtlist with
  | nil =>
    simp only [chVTDoSetI, hlist]
    exact List.Perm.refl _
  | cons x rest =>
    obtain ⟨p, vtDelta⟩ := x
    rw [vtlist_chVTDoSetI hlist]
    split_ifs
    · exact ((perm_link vtp _ rest).cons p).trans (List.Perm.swap vtp p _)
    · exact hlist ▸ perm_link vtp _ s.vtlist

/-- What a step does to the timers on the list, and to the expiries logged. -/
theorem step_timers [DecidableEq ι] {s t : VirtualTimers ι} {e : TimerEvent ι}
    (he : s.step e = some t) (l : TimerLog ι) :
    match e with
    | .set vtp _ _ => vtp ∉ s.vtlist.map Prod.fst ∧ (s.log e l).fired = l.fired ∧
        (t.vtlist.map Prod.fst).Perm (vtp :: s.vtlist.map Prod.fst)
    | .reset vtp _ => vtp ∈ s.vtlist.map Prod.fst ∧ (s.log e l).fired = l.fired ∧
        t.vtlist.map Prod.fst = (s.vtlist.map Prod.fst).erase vtp
    | .handler _ => ((s.log e l).fired = l.fired ∧ t.vtlist = s.vtlist) ∨
        ∃ f, (s.log e l).fired = l.fired ++ [f] ∧
          s.vtlist.map Prod.fst = f.vtp :: t.vtlist.map Prod.fst
    | .tick | .irq => (s.log e l).fired = l.fired ∧ t.vtlist = s.vtlist := by
  cases e with
  | tick =>
    cases he
    exact ⟨rfl, rfl⟩
  | irq =>
    simp only [step] at he
    split_ifs at he
    cases he
    exact ⟨rfl, vtlist_stHandler s⟩
  | set vtp delay lag =>
    simp only [step] at he
    split_ifs at he with hcheck
    cases he
    exact ⟨hcheck.1, rfl, perm_chVTDoSetI s vtp delay lag⟩
  | reset vtp lag =>
    simp only [step] at he
    split_ifs at he with hmem
    cases he
    exact ⟨hmem, rfl, by rw [vtlist_chVTDoResetI, map_fst_unlink]⟩
  | handler lag =>
    simp only [step] at he
    split_ifs at he
    cases handler_cases he with
    | empty hlist hrange => exact Or.inl ⟨by simp [log, TimerLog.next, expired, hlist], rfl⟩
    | @expire vtp vtDelta rest hlist hdue =>
      have hexpired : s.expired = some vtp := by
        rw [expired, hlist]
        exact if_pos hdue
      exact Or.inr ⟨⟨vtp, l.asked vtp, s.st.ticks⟩, by simp [log, TimerLog.next, hexpired],
        by simp [hlist]⟩
    | leave hlist hlater =>
      have hexpired : s.expired = none := by
        rw [expired, hlist]
        exact if_neg (UInt32.not_le.mpr hlater)
      exact Or.inl ⟨by simp [log, TimerLog.next, hexpired], rfl⟩

theorem nodup_step [DecidableEq ι] {s t : VirtualTimers ι} {e : TimerEvent ι}
    (h : (s.vtlist.map Prod.fst).Nodup) (he : s.step e = some t) : (t.vtlist.map Prod.fst).Nodup := by
  have hstep := step_timers he {}
  cases e with
  | tick | irq => rwa [hstep.2]
  | set vtp delay lag => exact hstep.2.2.nodup_iff.mpr (List.nodup_cons.mpr ⟨hstep.1, h⟩)
  | reset vtp lag =>
    rw [hstep.2.2]
    exact h.erase vtp
  | handler lag =>
    cases hstep with
    | inl hsame => rwa [hsame.2]
    | inr hexpired =>
      obtain ⟨f, -, hlist⟩ := hexpired
      rw [hlist] at h
      exact (List.nodup_cons.mp h).2

theorem count_step [DecidableEq ι] {s t : VirtualTimers ι} {e : TimerEvent ι} (he : s.step e = some t)
    (l : TimerLog ι) (i : ι) :
    (t.vtlist.map Prod.fst).count i + (if e.resets i then 1 else 0) +
        (s.log e l).fired.countP (fun f => f.vtp = i) =
      (s.vtlist.map Prod.fst).count i + (if e.sets i then 1 else 0) +
        l.fired.countP (fun f => f.vtp = i) := by
  have hstep := step_timers he l
  cases e with
  | tick | irq => simp [hstep, TimerEvent.resets, TimerEvent.sets]
  | set vtp delay lag =>
    have hcount := hstep.2.2.count_eq i
    rw [List.count_cons] at hcount
    simp [hstep.2.1, hcount, TimerEvent.resets, TimerEvent.sets]
  | reset vtp lag =>
    obtain ⟨hmem, hfired, hlist⟩ := hstep
    rw [hfired, hlist]
    by_cases hvtp : vtp = i
    · subst hvtp
      have hpos := List.count_pos_iff.mpr hmem
      simp only [List.count_erase_self, TimerEvent.resets, TimerEvent.sets, decide_true, if_true]
      simp
      omega
    · simp [TimerEvent.resets, TimerEvent.sets, hvtp, List.count_erase_of_ne (Ne.symm hvtp)]
  | handler lag =>
    cases hstep with
    | inl hsame => simp [hsame, TimerEvent.resets, TimerEvent.sets]
    | inr hexpired =>
      obtain ⟨f, hfired, hlist⟩ := hexpired
      simp only [hfired, hlist, List.count_cons, List.countP_append, List.countP_singleton,
        TimerEvent.resets, TimerEvent.sets, beq_iff_eq, decide_eq_true_eq]
      simp
      omega

theorem logged_init : Logged ({} : VirtualTimers ι).deadlines {} := by
  constructor <;> simp [deadlines]

theorem logged_log [DecidableEq ι] {s t : VirtualTimers ι} {e : TimerEvent ι} {l : TimerLog ι}
    (ha : s.Anchored) (h : Logged s.deadlines l) (hr : s.InRange e) (he : s.step e = some t) :
    t.Anchored ∧ Logged t.deadlines (s.log e l) := by
  obtain ⟨ha', hdeadlines⟩ := step_deadlines ha hr he
  have hlogged := h.step s.sorted_deadlines hdeadlines
  rw [expired_deadlines ha] at hlogged
  exact ⟨ha', hlogged⟩

theorem run_logged [DecidableEq ι] {es : List (TimerEvent ι)} {s : VirtualTimers ι} {l : TimerLog ι}
    (hall : Machine.Always step InRange {} es)
    (h : Machine.run (Machine.watch step log) ({}, {}) es = some (s, l)) :
    s.Anchored ∧ Logged s.deadlines l := by
  refine Machine.run_induction_of_always
    (P := fun _ (x : VirtualTimers ι × TimerLog ι) => x.1.Anchored ∧ Logged x.1.deadlines x.2)
    ⟨anchored_init, logged_init⟩ ?_ (Machine.Always.watch hall log) h
  rintro - x e y - ⟨ha, hlogged⟩ hr he
  obtain ⟨hst, hnext⟩ := Machine.watch_eq_some.mp he
  rw [hnext]
  exact logged_log ha hlogged hr hst

/-- The kernel's timers as the list of deadlines: every run is one of the deadlines,
and the handler's loop expires a timer exactly when the first deadline is due. -/
theorem timers_follow_deadlines [DecidableEq ι] {es : List (TimerEvent ι)} {s : VirtualTimers ι}
    (hall : Machine.Always step InRange {} es) (h : Machine.run step {} es = some s) :
    Machine.run Deadlines.step {} es = some s.deadlines ∧ s.expired = s.deadlines.expired := by
  obtain ⟨ha, hrun⟩ := run_deadlines hall h
  exact ⟨hrun, (expired_deadlines ha).symm⟩

/-- Two timers that expire one after the other. -/
def expireBoth : List (TimerEvent Nat) :=
  [.set 0 3 0, .tick, .set 1 4 1, .tick, .irq, .handler 0, .handler 0, .tick, .tick, .irq, .handler 0]

theorem inRange_expireBoth : Machine.Always step InRange {} expireBoth := by decide

theorem timers_follow_deadlines_expireBoth :
    ∃ s, Machine.run step {} expireBoth = some s ∧
      Machine.run Deadlines.step {} expireBoth = some s.deadlines ∧ s.expired = s.deadlines.expired :=
  ⟨_, rfl, timers_follow_deadlines inRange_expireBoth rfl⟩

/-- Timers expire in the order of their deadlines and never early, and where the
handler's loop ends, every timer still armed has its deadline ahead. -/
theorem expiries_in_order [DecidableEq ι] {es : List (TimerEvent ι)} {s : VirtualTimers ι}
    {l : TimerLog ι} (hall : Machine.Always step InRange {} es)
    (h : Machine.run (Machine.watch step log) ({}, {}) es = some (s, l)) :
    (∀ f ∈ l.fired, f.deadline ≤ f.time) ∧ l.fired.Pairwise (fun f g => f.deadline ≤ g.deadline) ∧
      (s.expired = none → ∀ vtp ∈ s.vtlist.map Prod.fst, s.st.ticks < l.asked vtp) := by
  obtain ⟨ha, hlogged⟩ := run_logged hall h
  refine ⟨fun f hf => (hlogged.due f hf).1, hlogged.order, ?_⟩
  intro hnone vtp hvtp
  rw [← map_fst_deadlines] at hvtp
  obtain ⟨x, hx, rfl⟩ := List.mem_map.mp hvtp
  rw [hlogged.asked x hx]
  exact Deadlines.lt_of_expired_eq_none s.sorted_deadlines (by rw [expired_deadlines ha, hnone]) hx

theorem expiries_in_order_expireBoth :
    ∃ s l, Machine.run (Machine.watch step log) ({}, {}) expireBoth = some (s, l) ∧
      l.fired = [⟨0, 3, 3⟩, ⟨1, 5, 5⟩] ∧ (∀ f ∈ l.fired, f.deadline ≤ f.time) ∧
      l.fired.Pairwise (fun f g => f.deadline ≤ g.deadline) ∧
      (s.expired = none → ∀ vtp ∈ s.vtlist.map Prod.fst, s.st.ticks < l.asked vtp) :=
  ⟨_, _, rfl, rfl, expiries_in_order inRange_expireBoth rfl⟩

/-- However the counter runs, every timer set has expired once, has been reset, or is armed. -/
theorem expiries_accounted [DecidableEq ι] {es : List (TimerEvent ι)} {s : VirtualTimers ι}
    {l : TimerLog ι} (h : Machine.run (Machine.watch step log) ({}, {}) es = some (s, l)) (i : ι) :
    es.countP (TimerEvent.sets i) = es.countP (TimerEvent.resets i) +
      l.fired.countP (fun f => f.vtp = i) + (if i ∈ s.vtlist.map Prod.fst then 1 else 0) := by
  have hrun := Machine.run_induction
    (P := fun es (x : VirtualTimers ι × TimerLog ι) => (x.1.vtlist.map Prod.fst).Nodup ∧
      es.countP (TimerEvent.sets i) = es.countP (TimerEvent.resets i) +
        x.2.fired.countP (fun f => f.vtp = i) + (x.1.vtlist.map Prod.fst).count i)
    (by simp) ?_ h
  · rw [hrun.2, hrun.1.count]
  · rintro es x e y - ⟨hnodup, hcount⟩ he
    obtain ⟨hst, hnext⟩ := Machine.watch_eq_some.mp he
    have hstep := count_step hst x.2 i
    rw [hnext]
    refine ⟨nodup_step hnodup hst, ?_⟩
    rw [List.countP_append, List.countP_append, List.countP_singleton, List.countP_singleton]
    omega

theorem expiries_accounted_expireBoth :
    ∃ s l, Machine.run (Machine.watch step log) ({}, {}) expireBoth = some (s, l) ∧
      expireBoth.countP (TimerEvent.sets 0) = expireBoth.countP (TimerEvent.resets 0) +
        l.fired.countP (fun f => f.vtp = 0) + (if 0 ∈ s.vtlist.map Prod.fst then 1 else 0) :=
  ⟨_, _, rfl, expiries_accounted rfl 0⟩

end VirtualTimers

end SafetyTrolley
