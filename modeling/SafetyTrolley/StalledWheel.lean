import SafetyTrolley.Integrator
import SafetyTrolley.Lib.ConstantError

/-! A wheel whose error does not go away. The current rises to its limit, and
unless the error alone demands the limit, it falls back from there. -/

namespace SafetyTrolley

open Saturation

def LoopCall.error (call : LoopCall) (i : Fin 4) : ℚ := wheelError (call.vel i) (call.data i).rawSpeed

section Wheel

variable {g : Gains} (hg : g.Admissible) {c₀ : Controller} {i : Fin 4} {e : ℚ}

theorem wheel_integralAt (hgains : c₀.gains = g) (hzero : c₀.wheelPID i = {}) {calls : List LoopCall}
    (he : ∀ call ∈ calls, call.error i = e) :
    (calls.foldl LoopCall.apply c₀).gains = g ∧
      ((calls.foldl LoopCall.apply c₀).wheelPID i).I =
        ((g.loop hg).integralAt e calls.length).val := by
  induction calls using List.reverseRecOn with
  | nil => exact ⟨hgains, by rw [List.foldl_nil, hzero]; rfl⟩
  | append_singleton calls call ih =>
    obtain ⟨hg', hI⟩ := ih fun call' hcall => he call' (by simp [hcall])
    have herror : call.error i = e := he call (by simp)
    have hpass := LoopCall.apply_wheel (calls.foldl LoopCall.apply c₀) call i
    rw [List.foldl_append, List.foldl_cons, List.foldl_nil, List.length_append]
    refine ⟨hpass.2.2.trans hg', ?_⟩
    rw [hpass.1, hg', (wheelLoop_refines hg hI _ _).1, List.length_singleton, PI.integralAt_succ]
    exact congrArg (fun error => ((g.loop hg).next error _).val) herror

theorem wheel_commandAt (hgains : c₀.gains = g) (hzero : c₀.wheelPID i = {}) {calls : List LoopCall}
    (he : ∀ call ∈ calls, call.error i = e) {a : LoopCall} (ha : a.error i = e) :
    (a.apply (calls.foldl LoopCall.apply c₀)).currentCommand i =
    (g.loop hg).commandAt e calls.length := by
  obtain ⟨hg', hI⟩ := wheel_integralAt hg hgains hzero he
  rw [(LoopCall.apply_wheel _ a i).2.1, hg', (wheelLoop_refines hg hI _ _).2]
  exact congrArg (fun error => (g.loop hg).command error _) ha

end Wheel

theorem threadGains_large (e : ℚ) :
    (threadGains.loop threadGains_admissible).limit ≤
    (threadGains.loop threadGains_admissible).kP * |e| ↔
      1 / 3 ≤ |e| := by
  change (10000 : ℚ) ≤ 30000 * |e| ↔ _
  constructor <;> intro h <;> linarith

theorem threadGains_period {e : ℚ} (he : 0 < |e|) (hsmall : |e| < 1 / 3) :
    (threadGains.loop threadGains_admissible).period e = ⌊10 / |e|⌋₊ - 28 := by
  have hfloor : 30 ≤ ⌊10 / |e|⌋₊ := by
    rw [Nat.le_floor_iff (by positivity), le_div_iff₀ he]
    push_cast
    linarith
  have hval : (10000 / |e| - 30000) / 1000 = 10 / |e| - (30 : ℕ) := by
    push_cast
    ring
  change ⌊(10000 / |e| - 30000) / 1000⌋₊ + 2 = _
  rw [hval, Nat.floor_sub_natCast]
  omega

/-- A constant error keeps the effort up from one tick to the next, except
every so many ticks where a small one has had its integral restarted. -/
theorem effort_kept_iff (c₀ : Controller) (hgains : c₀.gains = threadGains) (i : Fin 4)
    (hzero : c₀.wheelPID i = {}) (e : ℚ) (calls : List LoopCall) (a b : LoopCall)
    (he : ∀ call ∈ calls ++ [a, b], call.error i = e) :
    let c := a.apply (calls.foldl LoopCall.apply c₀)
    let u := c.currentCommand i
    let u' := (b.apply c).currentCommand i
    let period := ⌊10 / |e|⌋₊ - 28
    (|u| ≤ |u'| ↔ e = 0 ∨ 1 / 3 ≤ |e| ∨ ¬ period ∣ calls.length + 1) ∧
    (1 / 3 ≤ |e| → |u| = 10000 ∧ |u'| = 10000) ∧
    (0 < |e| → |e| < 1 / 3 → period ∣ calls.length + 1 → |u| = 10000 ∧ |u'| = 30000 * |e|) := by
  intro c u u' period
  have hu : u = (threadGains.loop threadGains_admissible).commandAt e calls.length :=
    wheel_commandAt threadGains_admissible hgains hzero (fun call hcall => he call (by simp [hcall]))
      (he a (by simp))
  have hu' : u' = (threadGains.loop threadGains_admissible).commandAt e (calls.length + 1) := by
    have hcalls : ∀ call ∈ calls ++ [a], call.error i = e := fun call hcall =>
      he call (by rw [List.append_cons]; exact List.mem_append_left _ hcall)
    have hafter := wheel_commandAt threadGains_admissible hgains hzero hcalls (he b (by simp))
    rwa [List.foldl_append, List.length_append] at hafter
  have hperiod (hpos : 0 < |e|) (hsmall : |e| < 1 / 3) :
      period = (threadGains.loop threadGains_admissible).period e :=
        (threadGains_period hpos hsmall).symm
  rw [hu, hu']
  refine ⟨?_, fun hlarge => ?_, fun hpos hsmall hn => ?_⟩
  · rw [PI.commandAt_le_iff, threadGains_large]
    rcases eq_or_ne e 0 with hzero | hne
    · simp only [hzero, true_or]
    rcases le_or_gt (1 / 3) |e| with hlarge | hsmall
    · simp only [hlarge, true_or, or_true]
    · rw [hperiod (abs_pos.mpr hne) hsmall]
  · have hlimit := (threadGains_large e).mpr hlarge
    exact ⟨PI.commandAt_of_large _ hlimit _, PI.commandAt_of_large _ hlimit _⟩
  · rw [hperiod hpos hsmall] at hn
    exact PI.commandAt_restart _ hpos
      (not_lt.mp fun h => hsmall.not_ge ((threadGains_large e).mp h.le)) hn

-- The stick held to one side, and the wheels blocked.
def leaning : LoopCall := .drive .MOVE { xReading := 2200 } #v[0] fun _ => {}

theorem leaning_error : leaning.error 0 = -(18 / 55) := by
  decide +kernel

theorem leaning_period : |(-(18 / 55) : ℚ)| = 18 / 55 ∧ ⌊(10 : ℚ) / |-(18 / 55)|⌋₊ - 28 = 2 := by
  have habs : |(-(18 / 55) : ℚ)| = 18 / 55 := by norm_num
  have hfloor : ⌊(10 : ℚ) / (18 / 55)⌋₊ = 30 := by
    rw [Nat.floor_eq_iff (by norm_num)]
    norm_num
  exact ⟨habs, by rw [habs, hfloor]⟩

theorem effort_kept_leaning :
    let c := leaning.apply ([leaning].foldl LoopCall.apply (chassisControlThdStart {}))
    |c.currentCommand 0| = 10000 ∧ |(leaning.apply c).currentCommand 0| = 30000 * |-(18 / 55)| := by
  have hcalls : ∀ call ∈ [leaning] ++ [leaning, leaning], call.error 0 = -(18 / 55) := by
    simp [leaning_error]
  refine (effort_kept_iff (chassisControlThdStart {}) rfl 0 rfl (-(18 / 55)) [leaning] leaning leaning
    hcalls).2.2 ?_ ?_ ?_
  · norm_num
  · norm_num
  · rw [leaning_period.2]
    rfl

theorem effort_drops :
    ¬ ∀ (c₀ : Controller) (i : Fin 4) (e : ℚ) (calls : List LoopCall) (a b : LoopCall),
    c₀.gains = threadGains → c₀.wheelPID i = {} → (∀ call ∈ calls ++ [a, b], call.error i = e) →
    |(a.apply (calls.foldl LoopCall.apply c₀)).currentCommand i| ≤
      |(b.apply (a.apply (calls.foldl LoopCall.apply c₀))).currentCommand i| := by
  intro h
  have hle := h (chassisControlThdStart {}) 0 (-(18 / 55)) [leaning] leaning leaning rfl rfl
    (by simp [leaning_error])
  revert hle
  decide +kernel

end SafetyTrolley
