import Mathlib.Tactic.Common

/-! A projection of the state that only some of the events can change. The
other events may then be inserted, removed or altered without its noticing. -/

namespace Machine

variable {σ ε τ ω : Type*}

/-- Events outside `rel` leave the projection alone, and an event of `rel`
computes its new value from its old one. -/
structure Isolated (f : σ → ε → σ) (π : σ → τ) (rel : ε → Bool) : Prop where
  frame : ∀ s e, rel e = false → π (f s e) = π s
  determined : ∀ s t e, rel e = true → π s = π t → π (f s e) = π (f t e)

theorem Isolated.congr {f : σ → ε → σ} {π : σ → τ} {rel : ε → Bool} (h : Isolated f π rel)
    {s t : σ} (hs : π s = π t) (e : ε) : π (f s e) = π (f t e) := by
  cases he : rel e with
  | false => rw [h.frame s e he, h.frame t e he, hs]
  | true => exact h.determined s t e he hs

theorem Isolated.foldl_filter {f : σ → ε → σ} {π : σ → τ} {rel : ε → Bool} (h : Isolated f π rel)
    {s t : σ} (hs : π s = π t) (es : List ε) :
    π (es.foldl f s) = π ((es.filter rel).foldl f t) := by
  induction es generalizing s t with
  | nil => exact hs
  | cons e es ih =>
    cases he : rel e with
    | false => simpa [he] using ih ((h.frame s e he).trans hs)
    | true => simpa [he] using ih (h.determined s t e he hs)

/-- Two runs that agree in the related events agree in the projection, wherever
the other events stand between them. -/
theorem Isolated.foldl_congr {f : σ → ε → σ} {π : σ → τ} {rel : ε → Bool} (h : Isolated f π rel)
    {s t : σ} (hs : π s = π t) {es es' : List ε} (he : es.filter rel = es'.filter rel) :
    π (es.foldl f s) = π (es'.foldl f t) := by
  rw [h.foldl_filter hs es, he]
  exact (h.foldl_filter rfl es').symm

def outputs {ο : Type*} (f : σ → ε → σ) (out : σ → ε → Option ο) (s : σ) : List ε → List ο
  | [] => []
  | e :: es => (out s e).toList ++ outputs f out (f s e) es

theorem Isolated.outputs_filter {ο : Type*} {f : σ → ε → σ} {π : σ → τ} {rel : ε → Bool}
    (h : Isolated f π rel) {out : σ → ε → Option ο} {obs : ο → ω}
    (hquiet : ∀ s e, rel e = false → out s e = none)
    (hout : ∀ s t e, rel e = true → π s = π t → (out s e).map obs = (out t e).map obs)
    {s t : σ} (hs : π s = π t) (es : List ε) :
    (outputs f out s es).map obs = (outputs f out t (es.filter rel)).map obs := by
  induction es generalizing s t with
  | nil => rfl
  | cons e es ih =>
    cases he : rel e with
    | false => simpa [outputs, he, hquiet s e he] using ih ((h.frame s e he).trans hs)
    | true =>
      have hhead : (out s e).toList.map obs = (out t e).toList.map obs := by
        simpa only [Option.toList_map] using congrArg Option.toList (hout s t e he hs)
      simp [outputs, he, hhead, ih (h.determined s t e he hs)]

theorem Isolated.outputs_congr {ο : Type*} {f : σ → ε → σ} {π : σ → τ} {rel : ε → Bool}
    (h : Isolated f π rel) {out : σ → ε → Option ο} {obs : ο → ω}
    (hquiet : ∀ s e, rel e = false → out s e = none)
    (hout : ∀ s t e, rel e = true → π s = π t → (out s e).map obs = (out t e).map obs)
    {s t : σ} (hs : π s = π t) {es es' : List ε} (he : es.filter rel = es'.filter rel) :
    (outputs f out s es).map obs = (outputs f out t es').map obs := by
  rw [h.outputs_filter hquiet hout hs es, he]
  exact (h.outputs_filter hquiet hout rfl es').symm

end Machine
