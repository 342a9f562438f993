import Mathlib.Tactic.Common
import Mathlib.Data.List.Induction

/-! Runs of a partial transition function over a finite sequence of events.
A run stops existing at the first event that is not enabled. -/

namespace Machine

variable {σ τ ε μ : Type*}

def run (step : σ → ε → Option σ) (s : σ) (es : List ε) : Option σ := es.foldlM step s

@[simp] theorem run_nil (step : σ → ε → Option σ) (s : σ) : run step s [] = some s := rfl

theorem run_cons (step : σ → ε → Option σ) (s : σ) (e : ε) (es : List ε) :
    run step s (e :: es) = (step s e).bind (run step · es) := rfl

theorem run_append (step : σ → ε → Option σ) (s : σ) (es es' : List ε) :
    run step s (es ++ es') = (run step s es).bind (run step · es') := by
  simp only [run, List.foldlM_append]
  rfl

theorem run_concat {step : σ → ε → Option σ} {s t : σ} {es : List ε} {e : ε} :
    run step s (es ++ [e]) = some t ↔ ∃ m, run step s es = some m ∧ step m e = some t := by
  rw [run_append, Option.bind_eq_some_iff]
  simp [run]

theorem run_induction {step : σ → ε → Option σ} {s : σ} {P : List ε → σ → Prop} (hinit : P [] s)
    (hstep : ∀ es m e t, run step s es = some m → P es m → step m e = some t → P (es ++ [e]) t)
    {es : List ε} {t : σ} (h : run step s es = some t) : P es t := by
  induction es using List.reverseRecOn generalizing t with
  | nil =>
    cases h
    exact hinit
  | append_singleton es e ih =>
    obtain ⟨m, hm, he⟩ := run_concat.mp h
    exact hstep es m e t hm (ih hm) he

theorem run_invariant {step : σ → ε → Option σ} {s : σ} {P : σ → Prop} (hinit : P s)
    (hstep : ∀ m e t, P m → step m e = some t → P t)
    {es : List ε} {t : σ} (h : run step s es = some t) : P t :=
  run_induction (P := fun _ m => P m) hinit (fun _ m e t _ hm he => hstep m e t hm he) h

/-- Every step of the run satisfies `P`, read on the state that it starts from. -/
def Always (step : σ → ε → Option σ) (P : σ → ε → Prop) (s : σ) (es : List ε) : Prop :=
  ∀ pre e m, pre ++ [e] <+: es → run step s pre = some m → P m e

theorem always_nil (step : σ → ε → Option σ) (P : σ → ε → Prop) (s : σ) : Always step P s [] := by
  intro pre e m hpre
  simp at hpre

theorem always_concat {step : σ → ε → Option σ} {P : σ → ε → Prop} {s m : σ} {es : List ε} {e : ε}
    (h : run step s es = some m) :
    Always step P s (es ++ [e]) ↔ Always step P s es ∧ P m e := by
  constructor
  · intro hall
    exact ⟨fun pre e' m' hpre => hall pre e' m' (hpre.trans (List.prefix_append es [e])),
      hall es e m List.prefix_rfl h⟩
  · rintro ⟨hall, hlast⟩ pre e' m' hpre hm'
    rcases List.prefix_concat_iff.mp hpre with heq | hpre
    · obtain ⟨rfl, rfl⟩ := List.append_singleton_inj.mp heq
      cases h.symm.trans hm'
      exact hlast
    · exact hall pre e' m' hpre hm'

theorem always_cons {step : σ → ε → Option σ} {P : σ → ε → Prop} {s : σ} {e : ε} {es : List ε} :
    Always step P s (e :: es) ↔ P s e ∧ ∀ t, step s e = some t → Always step P t es := by
  constructor
  · intro hall
    refine ⟨hall [] e s (by simp) rfl, fun t ht pre e' m hpre hm => ?_⟩
    refine hall (e :: pre) e' m (List.cons_prefix_cons.mpr ⟨rfl, hpre⟩) ?_
    rw [run_cons, ht]
    exact hm
  · rintro ⟨hfirst, hrest⟩ pre e' m hpre hm
    cases pre with
    | nil =>
      obtain ⟨rfl, -⟩ := List.cons_prefix_cons.mp hpre
      cases hm
      exact hfirst
    | cons e'' pre =>
      obtain ⟨rfl, htail⟩ := List.cons_prefix_cons.mp hpre
      rw [run_cons, Option.bind_eq_some_iff] at hm
      obtain ⟨t, ht, hrun⟩ := hm
      exact hrest t ht pre e' m htail hrun

instance decidableAlways (step : σ → ε → Option σ) (P : σ → ε → Prop) [∀ s e, Decidable (P s e)] :
    (s : σ) → (es : List ε) → Decidable (Always step P s es)
  | s, [] => isTrue (always_nil step P s)
  | s, e :: es =>
    match h : step s e with
    | none => decidable_of_iff (P s e) (by simp [always_cons, h])
    | some t =>
      have := decidableAlways step P t es
      decidable_of_iff (P s e ∧ Always step P t es) (by simp [always_cons, h])

theorem Always.and {step : σ → ε → Option σ} {P Q : σ → ε → Prop} {s : σ} {es : List ε}
    (hP : Always step P s es) (hQ : Always step Q s es) :
    Always step (fun m e => P m e ∧ Q m e) s es :=
  fun pre e m hpre hm => ⟨hP pre e m hpre hm, hQ pre e m hpre hm⟩

theorem run_induction_of_always {step : σ → ε → Option σ} {A : σ → ε → Prop} {s : σ}
    {P : List ε → σ → Prop} (hinit : P [] s)
    (hstep : ∀ es m e t, run step s es = some m → P es m → A m e → step m e = some t →
      P (es ++ [e]) t)
    {es : List ε} {t : σ} (hall : Always step A s es) (h : run step s es = some t) : P es t := by
  refine run_induction (P := fun es m => Always step A s es → P es m) (fun _ => hinit) ?_ h hall
  intro es m e t hm ih he hall
  obtain ⟨hall, hlast⟩ := (always_concat hm).mp hall
  exact hstep es m e t hm (ih hall) hlast he

/-- Where every step of one machine is the same step of another, so is every run. -/
theorem run_simulation {step : σ → ε → Option σ} {step' : τ → ε → Option τ} {A : σ → ε → Prop} {s : σ}
    {P : σ → Prop} (abs : σ → τ) (hinit : P s)
    (hstep : ∀ m e t, P m → A m e → step m e = some t → P t ∧ step' (abs m) e = some (abs t))
    {es : List ε} {t : σ} (hall : Always step A s es) (h : run step s es = some t) :
    P t ∧ run step' (abs s) es = some (abs t) := by
  refine run_induction_of_always (P := fun es m => P m ∧ run step' (abs s) es = some (abs m))
    ⟨hinit, rfl⟩ ?_ hall h
  rintro es m e t - ⟨hm, hrun⟩ ha he
  obtain ⟨ht, hst⟩ := hstep m e t hm ha he
  exact ⟨ht, run_concat.mpr ⟨abs m, hrun, hst⟩⟩

/-- Where a step of one machine is enabled together with a step of the other and leads to the
same place, the runs are the same. -/
theorem run_map {step : σ → ε → Option σ} {step' : τ → ε → Option τ} {s : σ} {P : σ → Prop}
    (abs : σ → τ) (hinit : P s)
    (hstep : ∀ m e, P m → (step m e).map abs = step' (abs m) e ∧ ∀ t, step m e = some t → P t)
    (es : List ε) : (run step s es).map abs = run step' (abs s) es := by
  induction es generalizing s with
  | nil => rfl
  | cons e es ih =>
    obtain ⟨hmap, hP⟩ := hstep s e hinit
    rw [run_cons, run_cons, ← hmap]
    cases he : step s e with
    | none => rfl
    | some t => exact ih (hP t he)

/-- Where every step keeps `P` or reaches `Q`, a run that has lost `P` has reached `Q`. -/
theorem run_until {step : σ → ε → Option σ} {P Q : σ → Prop} {s : σ} (hinit : P s)
    (hstep : ∀ m e t, P m → step m e = some t → Q t ∨ P t) {es : List ε} {t : σ}
    (h : run step s es = some t) :
    P t ∨ ∃ pre m, pre <+: es ∧ run step s pre = some m ∧ Q m := by
  refine run_induction (P := fun es t => P t ∨ ∃ pre m, pre <+: es ∧ run step s pre = some m ∧ Q m)
    (Or.inl hinit) ?_ h
  rintro es m e t hm (hP | ⟨pre, n, hpre, hn, hQ⟩) he
  · rcases hstep m e t hP he with hQ | hP
    · exact Or.inr ⟨es ++ [e], t, List.prefix_rfl, run_concat.mpr ⟨m, hm, he⟩, hQ⟩
    · exact Or.inl hP
  · exact Or.inr ⟨pre, n, hpre.trans (List.prefix_append es [e]), hn, hQ⟩

/-- Where a selected step uses up some of a measure and no other step adds to it,
the measure bounds the selected steps of the run. -/
theorem run_countP_le {step : σ → ε → Option σ} {A : σ → ε → Prop} {s : σ} {P : σ → Prop}
    (sel : ε → Bool) (work : σ → Nat) (hinit : P s)
    (hstep : ∀ m e t, P m → A m e → step m e = some t →
      P t ∧ work t + (if sel e then 1 else 0) ≤ work m)
    {es : List ε} {t : σ} (hall : Always step A s es) (h : run step s es = some t) :
    P t ∧ es.countP sel + work t ≤ work s := by
  refine run_induction_of_always (P := fun es m => P m ∧ es.countP sel + work m ≤ work s)
    ⟨hinit, by simp⟩ ?_ hall h
  rintro es m e t - ⟨hm, hle⟩ ha he
  obtain ⟨ht, hwork⟩ := hstep m e t hm ha he
  rw [List.countP_append, List.countP_singleton]
  exact ⟨ht, by omega⟩

/-- Where a step is enabled and uses up some of a measure as long as there is more
to do, that step alone takes the machine to its goal. -/
theorem exists_run_le {step : σ → ε → Option σ} {P goal : σ → Prop} (work : σ → Nat) (e : ε)
    (hstep : ∀ s, P s → ¬ goal s → ∃ t, step s e = some t ∧ P t ∧ work t < work s)
    {s : σ} (hs : P s) :
    ∃ k t, k ≤ work s ∧ run step s (List.replicate k e) = some t ∧ goal t := by
  induction hn : work s using Nat.strongRecOn generalizing s with
  | ind n ih =>
    by_cases hgoal : goal s
    · exact ⟨0, s, Nat.zero_le n, rfl, hgoal⟩
    · obtain ⟨t, hst, ht, hlt⟩ := hstep s hs hgoal
      obtain ⟨k, u, hk, hrun, hu⟩ := ih (work t) (hn ▸ hlt) ht rfl
      refine ⟨k + 1, u, by omega, ?_, hu⟩
      rw [List.replicate_succ, run_cons, hst]
      exact hrun

/-- The machine beside a monitor, which reads the state and the event of each
step and never disables one. -/
def watch (step : σ → ε → Option σ) (next : σ → ε → μ → μ) (x : σ × μ) (e : ε) : Option (σ × μ) :=
  (step x.1 e).map fun t => (t, next x.1 e x.2)

theorem watch_eq_some {step : σ → ε → Option σ} {next : σ → ε → μ → μ} {x y : σ × μ} {e : ε} :
    watch step next x e = some y ↔ step x.1 e = some y.1 ∧ y.2 = next x.1 e x.2 := by
  obtain ⟨t, m⟩ := y
  simp only [watch, Option.map_eq_some_iff, Prod.mk.injEq]
  constructor
  · rintro ⟨t', he, rfl, rfl⟩
    exact ⟨he, rfl⟩
  · rintro ⟨he, rfl⟩
    exact ⟨t, he, rfl, rfl⟩

theorem run_watch_fst (step : σ → ε → Option σ) (next : σ → ε → μ → μ) (x : σ × μ) (es : List ε) :
    (run (watch step next) x es).map Prod.fst = run step x.1 es := by
  induction es generalizing x with
  | nil => rfl
  | cons e es ih =>
    rw [run_cons, run_cons]
    cases he : step x.1 e with
    | none => simp [watch, he]
    | some t => simpa [watch, he] using ih (t, next x.1 e x.2)

theorem watch_invariant {step : σ → ε → Option σ} {next : σ → ε → μ → μ} {P : σ → μ → Prop} {s : σ}
    {m : μ} (hinit : P s m) (hstep : ∀ s m e t, P s m → step s e = some t → P t (next s e m))
    {es : List ε} {x : σ × μ} (h : run (watch step next) (s, m) es = some x) : P x.1 x.2 := by
  refine run_invariant (P := fun x : σ × μ => P x.1 x.2) hinit ?_ h
  intro y e z hy hst
  obtain ⟨hst, hnext⟩ := watch_eq_some.mp hst
  rw [hnext]
  exact hstep y.1 y.2 e z.1 hy hst

theorem Always.watch {step : σ → ε → Option σ} {A : σ → ε → Prop} {x : σ × μ} {es : List ε}
    (h : Always step A x.1 es) (next : σ → ε → μ → μ) :
    Always (watch step next) (fun y e => A y.1 e) x es := by
  intro pre e y hpre hy
  refine h pre e y.1 hpre ?_
  rw [← run_watch_fst step next x pre, hy]
  rfl

end Machine
