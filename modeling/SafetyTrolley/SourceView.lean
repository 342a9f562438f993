import SafetyTrolley.Events
import SafetyTrolley.Scheduling

/-! One source of the kernel with its only listener. However the threads are scheduled,
it goes through the operations of the source that the receivers are modelled on. -/

namespace SafetyTrolley

inductive SourceEvent where
  | register (events wflags : BitVec 32)
  | broadcast (flags : BitVec 32)
  | getAndClearFlags
  | take (events : BitVec 32)
  deriving DecidableEq, Repr

def EventSource.apply (es : EventSource) : SourceEvent → EventSource
  | .register events wflags => es.chEvtRegisterMaskWithFlags events wflags
  | .broadcast flags => es.chEvtBroadcastFlagsI flags
  | .getAndClearFlags => es.chEvtGetAndClearFlagsI.2
  | .take events => es.takeEvents events

namespace Kernel

variable {τ σ ℓ : Type*} [DecidableEq τ] [DecidableEq σ] [DecidableEq ℓ]

/-- The source with the events pending for its listener's thread. -/
def view (k : Kernel τ σ ℓ) (esp : σ) (u : τ) : EventSource where
  listener := (k.esNext esp).head?.map fun elp =>
    { elEvents := elp.elEvents, elFlags := elp.elFlags, elWflags := elp.elWflags }
  pEpending := (k.thread u).pEpending

/-- What a step is to the source and to the thread. -/
def operations (esp : σ) (u : τ) (k : Kernel τ σ ℓ) : KernelEvent τ σ ℓ → List SourceEvent
  | .register esp' _ events wflags => if esp' = esp then [.register events wflags] else []
  | .getAndClearFlags esp' _ => if esp' = esp then [.getAndClearFlags] else []
  | .broadcast esp' flags | .isrBroadcast esp' flags => if esp' = esp then [.broadcast flags] else []
  | .wait kind events time => [.take (k.consumed u (.wait kind events time))]
  | .resume => [.take (k.consumed u .resume)]
  | .getAndClearEvents events => [.take (k.consumed u (.getAndClearEvents events))]
  | .create tp prio => [.take (k.consumed u (.create tp prio))]
  | _ => []

/-- The thread registers once, with this source, and nobody signals it directly. -/
def Dedicated (esp : σ) (u : τ) (k : Kernel τ σ ℓ) : KernelEvent τ σ ℓ → Prop
  | .register esp' _ _ _ => if esp' = esp then k.current = u ∧ k.esNext esp = [] else k.current ≠ u
  | .unregister esp' _ => esp' ≠ esp
  | .getAndClearFlags esp' elp => esp' = esp → elp ∈ (k.esNext esp).map Listener.elp
  | .addEvents _ => k.current ≠ u
  | .signal tp _ | .isrSignal tp _ => tp ≠ u
  | _ => True

instance (esp : σ) (u : τ) (k : Kernel τ σ ℓ) (e : KernelEvent τ σ ℓ) :
    Decidable (Dedicated esp u k e) :=
  match e with
  | .register esp' _ _ _ =>
    inferInstanceAs (Decidable (if esp' = esp then k.current = u ∧
      k.esNext esp = [] else k.current ≠ u))
  | .unregister esp' _ => inferInstanceAs (Decidable (esp' ≠ esp))
  | .getAndClearFlags esp' elp =>
    inferInstanceAs (Decidable (esp' = esp → elp ∈ (k.esNext esp).map Listener.elp))
  | .addEvents _ => inferInstanceAs (Decidable (k.current ≠ u))
  | .signal tp _ | .isrSignal tp _ => inferInstanceAs (Decidable (tp ≠ u))
  | .wait _ _ _ | .sleep _ | .resume | .yield | .create _ _ | .getAndClearEvents _ | .broadcast _ _ | .isrEnter
  | .isrBroadcast _ _ | .isrTimeout _ | .isrExit => isTrue trivial

structure Owned (esp : σ) (u : τ) (k : Kernel τ σ ℓ) : Prop where
  single : k.esNext esp = [] ∨ ∃ elp, k.esNext esp = [elp] ∧ elp.elListener = u
  foreign : ∀ esp', esp' ≠ esp → ∀ elp ∈ k.esNext esp', elp.elListener ≠ u

omit [DecidableEq σ] [DecidableEq ℓ] in
theorem signals_foreign {flags : BitVec 32} {u : τ} {listeners : List (Listener τ ℓ)}
    (h : ∀ elp ∈ listeners, elp.elListener ≠ u) : signals flags u listeners = 0 := by
  have hnil : (listeners.filter fun elp => signalled flags elp ∧ elp.elListener = u) = [] := by
    rw [List.filter_eq_nil_iff]
    intro elp hmem hx
    exact h elp hmem (of_decide_eq_true hx).2
  rw [signals, hnil]
  rfl

/-- A step that takes events from the thread, and posts none. -/
theorem view_take {esp : σ} {u : τ} {idle : τ} {k k' : Kernel τ σ ℓ} {e : KernelEvent τ σ ℓ}
    (hspec : StepSpec idle k e k') (hlisteners : k.listeners e = k.esNext)
    (hposted : k.posted u e = 0) :
    k'.view esp u = (k.view esp u).takeEvents (k.consumed u e) := by
  rw [view, hspec.esNext, hlisteners, hspec.pEpending, hposted, EventSource.takeEvents]
  simp only [view, EventSource.mk.injEq, true_and]
  rw [← and_not_and]
  simp

/-- A step that changes the listeners alone. -/
theorem view_listeners {esp : σ} {u : τ} {idle : τ} {k k' : Kernel τ σ ℓ} {e : KernelEvent τ σ ℓ}
    (hspec : StepSpec idle k e k') (hposted : k.posted u e = 0) (hconsumed : k.consumed u e = 0) :
    k'.view esp u = ({ k with esNext := k.listeners e } : Kernel τ σ ℓ).view esp u := by
  rw [view, view, hspec.esNext, hspec.pEpending, hposted, hconsumed, and_not_zero]
  simp

theorem view_same {esp : σ} {u : τ} {idle : τ} {k k' : Kernel τ σ ℓ} {e : KernelEvent τ σ ℓ}
    (hspec : StepSpec idle k e k') (hlisteners : k.listeners e = k.esNext)
    (hposted : k.posted u e = 0)
    (hconsumed : k.consumed u e = 0) : k'.view esp u = k.view esp u := by
  rw [view_listeners hspec hposted hconsumed, hlisteners]

/-- A broadcast sets the flags of the listener, and signals its thread on the same test. -/
theorem view_broadcast {esp esp' : σ} {u : τ} {idle : τ} {k k' : Kernel τ σ ℓ} {e : KernelEvent τ σ ℓ}
    {flags : BitVec 32} (howned : k.Owned esp u) (hspec : StepSpec idle k e k')
    (hlisteners : k.listeners e = (k.addFlags esp' flags).esNext)
    (hposted : k.posted u e = signals flags u ((k.addFlags esp' flags).esNext esp'))
    (hconsumed : k.consumed u e = 0) :
    k'.view esp u = if esp' = esp then (k.view esp u).chEvtBroadcastFlagsI flags
      else k.view esp u := by
  rw [view, hspec.esNext, hlisteners, hspec.pEpending, hposted, hconsumed, and_not_zero]
  by_cases heq : esp' = esp
  · subst heq
    rw [if_pos rfl]
    rcases howned.single with hnil | ⟨elp, hone, rfl⟩
    · simp [addFlags, hnil, view, EventSource.chEvtBroadcastFlagsI, signals]
    · simp only [addFlags, hone, Function.update_self, List.map_cons, List.map_nil, List.head?_cons,
        Option.map_some,
        view, EventSource.chEvtBroadcastFlagsI, EventSource.mk.injEq, true_and]
      by_cases hsig : signalled flags { elp with elFlags := elp.elFlags ||| flags } = true
      · rw [if_pos (of_decide_eq_true hsig)]
        simp [signals, hsig]
      · rw [if_neg (fun hx => hsig (decide_eq_true hx))]
        simp [signals, hsig]
  · have hforeign : ∀ elp ∈ (k.addFlags esp' flags).esNext esp', elp.elListener ≠ u := by
      intro elp hmem
      simp only [addFlags, Function.update_self] at hmem
      obtain ⟨elp', hmem', rfl⟩ := List.mem_map.mp hmem
      exact howned.foreign esp' heq elp' hmem'
    rw [if_neg heq, signals_foreign hforeign]
    simp [addFlags, view, Function.update_of_ne (Ne.symm heq)]

omit [DecidableEq τ] [DecidableEq ℓ] in
/-- Flags set or cleared leave the listeners to their threads. -/
theorem Owned.map {esp esp' : σ} {u : τ} {k k' : Kernel τ σ ℓ} (h : k.Owned esp u)
    {f : Listener τ ℓ → Listener τ ℓ} (hf : ∀ elp, (f elp).elListener = elp.elListener)
    (hes : k'.esNext = Function.update k.esNext esp' ((k.esNext esp').map f)) : k'.Owned esp u := by
  have hat : ∀ esp'', ∀ elp ∈ k'.esNext esp'', ∃ elp' ∈ k.esNext esp'',
      elp.elListener = elp'.elListener := by
    intro esp'' elp hmem
    rw [hes] at hmem
    by_cases heq : esp'' = esp'
    · subst heq
      rw [Function.update_self] at hmem
      obtain ⟨elp', hmem', rfl⟩ := List.mem_map.mp hmem
      exact ⟨elp', hmem', hf elp'⟩
    · rw [Function.update_of_ne heq] at hmem
      exact ⟨elp, hmem, rfl⟩
  refine ⟨?_, ?_⟩
  · rw [hes]
    by_cases heq : esp = esp'
    · subst heq
      rw [Function.update_self]
      rcases h.single with hnil | ⟨elp, hone, howner⟩
      · exact Or.inl (by rw [hnil]; rfl)
      · exact Or.inr ⟨f elp, by rw [hone]; rfl, (hf elp).trans howner⟩
    · rw [Function.update_of_ne heq]
      exact h.single
  · intro esp'' hne elp hmem
    obtain ⟨elp', hmem', howner⟩ := hat esp'' elp hmem
    rw [howner]
    exact h.foreign esp'' hne elp' hmem'

omit [DecidableEq τ] in
theorem Owned.step {esp : σ} {u : τ} {k k' : Kernel τ σ ℓ} {e : KernelEvent τ σ ℓ} (h : k.Owned esp u)
    (hdedicated : Dedicated esp u k e) (hes : k'.esNext = k.listeners e) : k'.Owned esp u := by
  have hsame : k.listeners e = k.esNext → k'.Owned esp u := by
    intro heq
    rw [heq] at hes
    exact ⟨hes ▸ h.single, hes ▸ h.foreign⟩
  cases e with
  | broadcast esp' flags | isrBroadcast esp' flags =>
    exact h.map (f := fun elp => { elp with elFlags := elp.elFlags ||| flags }) (fun _ => rfl) hes
  | getAndClearFlags esp' elp =>
    refine h.map (fun elp' => ?_) hes
    split_ifs <;> rfl
  | register esp' elp events wflags =>
    simp only [listeners, chEvtRegisterMaskWithFlags] at hes
    rw [Dedicated] at hdedicated
    refine ⟨?_, ?_⟩
    · rw [hes]
      by_cases heq : esp' = esp
      · subst heq
        rw [if_pos rfl] at hdedicated
        rw [Function.update_self, hdedicated.2]
        exact Or.inr ⟨_, rfl, hdedicated.1⟩
      · rw [Function.update_of_ne (Ne.symm heq)]
        exact h.single
    · intro esp'' hne elp' hmem
      rw [hes] at hmem
      by_cases heq : esp'' = esp'
      · subst heq
        rw [if_neg hne] at hdedicated
        rw [Function.update_self] at hmem
        rcases List.mem_cons.mp hmem with rfl | hmem
        · exact hdedicated
        · exact h.foreign esp'' hne elp' hmem
      · rw [Function.update_of_ne heq] at hmem
        exact h.foreign esp'' hne elp' hmem
  | unregister esp' elp =>
    simp only [listeners, chEvtUnregister] at hes
    refine ⟨?_, ?_⟩
    · rw [hes, Function.update_of_ne (Ne.symm hdedicated)]
      exact h.single
    · intro esp'' hne elp' hmem
      rw [hes] at hmem
      by_cases heq : esp'' = esp'
      · subst heq
        rw [Function.update_self] at hmem
        exact h.foreign esp'' hne elp' (List.mem_of_mem_eraseP hmem)
      · rw [Function.update_of_ne heq] at hmem
        exact h.foreign esp'' hne elp' hmem
  | _ => exact hsame rfl

theorem view_step {esp : σ} {u idle : τ} {k k' : Kernel τ σ ℓ} {e : KernelEvent τ σ ℓ}
    (howned : k.Owned esp u) (hdedicated : Dedicated esp u k e) (hspec : StepSpec idle k e k') :
    k'.view esp u = (operations esp u k e).foldl EventSource.apply (k.view esp u) := by
  cases e with
  | wait kind events time => exact view_take hspec rfl rfl
  | resume => exact view_take hspec rfl rfl
  | getAndClearEvents events => exact view_take hspec rfl rfl
  | create tp prio => exact view_take hspec rfl rfl
  | sleep time => exact view_same hspec rfl rfl rfl
  | yield => exact view_same hspec rfl rfl rfl
  | isrEnter => exact view_same hspec rfl rfl rfl
  | isrTimeout tp => exact view_same hspec rfl rfl rfl
  | isrExit => exact view_same hspec rfl rfl rfl
  | addEvents events => exact view_same hspec rfl (if_neg (Ne.symm hdedicated)) rfl
  | signal tp events | isrSignal tp events =>
    exact view_same hspec rfl (if_neg (Ne.symm hdedicated)) rfl
  | broadcast esp' flags | isrBroadcast esp' flags =>
    rw [view_broadcast howned hspec rfl rfl rfl, operations]
    split_ifs <;> rfl
  | register esp' elp events wflags =>
    rw [view_listeners hspec rfl rfl, operations]
    by_cases heq : esp' = esp
    · subst heq
      simp [view, listeners, chEvtRegisterMaskWithFlags, EventSource.apply,
        EventSource.chEvtRegisterMaskWithFlags]
    · rw [if_neg heq]
      simp [view, listeners, chEvtRegisterMaskWithFlags, Function.update_of_ne (Ne.symm heq)]
  | unregister esp' elp =>
    rw [view_listeners hspec rfl rfl]
    change _ = k.view esp u
    simp [view, listeners, chEvtUnregister, Function.update_of_ne (Ne.symm hdedicated)]
  | getAndClearFlags esp' elp =>
    rw [view_listeners hspec rfl rfl, operations]
    by_cases heq : esp' = esp
    · subst heq
      have hmem := hdedicated rfl
      rcases howned.single with hnil | ⟨elp', hone, -⟩
      · simp [hnil] at hmem
      · have help : elp'.elp = elp := by simpa [hone, eq_comm] using hmem
        simp [view, listeners, chEvtGetAndClearFlags, hone, help, EventSource.apply,
          EventSource.chEvtGetAndClearFlagsI, EventSource.clearFlags]
    · rw [if_neg heq]
      simp [view, listeners, chEvtGetAndClearFlags, Function.update_of_ne (Ne.symm heq)]

omit [DecidableEq σ] [DecidableEq ℓ] in
theorem owned_boot {esp : σ} {u : τ} (main idle : τ) : (boot main idle : Kernel τ σ ℓ).Owned esp u :=
  ⟨Or.inl rfl, fun _ _ _ hmem => absurd hmem List.not_mem_nil⟩

omit [DecidableEq σ] [DecidableEq ℓ] in
theorem view_boot {esp : σ} {u : τ} (main idle : τ) :
    (boot main idle : Kernel τ σ ℓ).view esp u = {} := by
  have hpending : ((boot main idle : Kernel τ σ ℓ).thread u).pEpending = 0 := by
    simp only [boot, Function.update_apply]
    split_ifs <;> rfl
  rw [view, hpending]
  rfl

/-- In every run in which a source has one listener, of a thread that gets its events from
it alone, the source with that thread's pending events goes through the operations of the
one-listener source, in their order and with the same values; and the thread is not left
in a wait that its pending events end. -/
theorem source_follows {main idle u : τ} {esp : σ} {es : List (KernelEvent τ σ ℓ)} {k : Kernel τ σ ℓ}
    {ops : List SourceEvent} (hne : main ≠ idle)
    (h : Machine.run (Machine.watch (step idle) fun k e ops => ops ++
      operations esp u k e) (boot main idle, []) es =
      some (k, ops))
    (hall : Machine.Always (step idle) (Dedicated esp u) (boot main idle) es) :
    k.view esp u = ops.foldl EventSource.apply {} ∧
      ∀ kind events time, (k.thread u).call = some (.events kind events time) →
        (k.state u).waits = true →
        kind.satisfied (k.view esp u).pEpending events = false := by
  have hinv : k.Sound idle ∧ k.Owned esp u ∧ k.view esp u = ops.foldl EventSource.apply {} := by
    refine Machine.run_induction_of_always
      (P := fun _ (x : Kernel τ σ ℓ × List SourceEvent) =>
        x.1.Sound idle ∧ x.1.Owned esp u ∧ x.1.view esp u = x.2.foldl EventSource.apply {})
      ⟨sound_boot hne, owned_boot main idle, view_boot main idle⟩ ?_
      (hall.watch fun k e ops => ops ++ operations esp u k e) h
    rintro es ⟨k, ops⟩ e ⟨k', ops'⟩ - ⟨hsound, howned, hview⟩ hdedicated hst
    obtain ⟨hst, rfl⟩ := Machine.watch_eq_some.mp hst
    have hspec := hsound.step hst
    refine ⟨hspec.sound, howned.step hdedicated hspec.esNext, ?_⟩
    rw [view_step howned hdedicated hspec, hview, List.foldl_append]
  refine ⟨hinv.2.2, ?_⟩
  intro kind events time hcall hwaits
  exact (hinv.1.coherent.consistent u).missing hcall hwaits

/-- A listener waits, an interrupt broadcasts, and the listener runs on. -/
def broadcastOnce : List (KernelEvent Nat Unit Unit) :=
  [.create 2 65, .register () () 1 4, .wait .any 1 none, .isrEnter, .isrBroadcast () 12, .isrExit,
    .resume,
    .getAndClearFlags () ()]

theorem source_follows_broadcastOnce : ∃ (k : Kernel Nat Unit Unit) (ops : List SourceEvent),
    Machine.run (Machine.watch (step 1) fun k e ops => ops ++ operations () 2 k e)
      (boot 0 1, []) broadcastOnce =
      some (k, ops) ∧
      ops = [.take (-1), .register 1 4, .take 0, .broadcast 12, .take 1, .getAndClearFlags] ∧
      k.view () 2 = ops.foldl EventSource.apply {} := by
  obtain ⟨⟨k, ops⟩, h, hops⟩ := Option.map_eq_some_iff.mp (by decide :
    (Machine.run (Machine.watch (step 1) fun k e ops => ops ++ operations () 2 k e) (boot 0 1, [])
      broadcastOnce).map Prod.snd =
        some [.take (-1), .register 1 4, .take 0, .broadcast 12, .take 1, .getAndClearFlags])
  exact ⟨k, ops, h, hops, (source_follows (by decide) h (by decide)).1⟩

end Kernel

end SafetyTrolley
