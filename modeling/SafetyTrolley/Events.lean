import Mathlib.Tactic.Common

/-! The kernel's event flags, for a source to which one thread listens: its
listener once it is registered, and the events pending for that thread. -/

namespace SafetyTrolley

structure EventListener where
  elEvents : BitVec 32
  elFlags : BitVec 32
  elWflags : BitVec 32
  deriving DecidableEq, Repr

structure EventSource where
  listener : Option EventListener := none
  pEpending : BitVec 32 := 0
  deriving DecidableEq, Repr

namespace EventSource

def chEvtRegisterMaskWithFlags (es : EventSource) (events wflags : BitVec 32) : EventSource :=
  { es with listener := some { elEvents := events, elFlags := 0, elWflags := wflags } }

def chEvtBroadcastFlagsI (es : EventSource) (flags : BitVec 32) : EventSource :=
  match es.listener with
  | none => es
  | some elp =>
    let elp := { elp with elFlags := elp.elFlags ||| flags }
    let signal := flags = 0 ∨ elp.elFlags &&& elp.elWflags ≠ 0
    { listener := some elp
      pEpending := if signal then es.pEpending ||| elp.elEvents else es.pEpending }

def elFlags (es : EventSource) : BitVec 32 := es.listener.elim 0 EventListener.elFlags

def clearFlags (es : EventSource) : EventSource :=
  { es with listener := es.listener.map fun elp => { elp with elFlags := 0 } }

def chEvtGetAndClearFlagsI (es : EventSource) : BitVec 32 × EventSource := (es.elFlags, es.clearFlags)

def takeEvents (es : EventSource) (events : BitVec 32) : EventSource :=
  { es with pEpending := es.pEpending &&& ~~~(es.pEpending &&& events) }

@[simp] theorem elFlags_register (es : EventSource) (events wflags : BitVec 32) :
    (es.chEvtRegisterMaskWithFlags events wflags).elFlags = 0 := rfl

@[simp] theorem elFlags_clearFlags (es : EventSource) : es.clearFlags.elFlags = 0 := by
  rw [elFlags, clearFlags]
  cases es.listener <;> rfl

theorem listener_broadcast (es : EventSource) (flags : BitVec 32) :
    (es.chEvtBroadcastFlagsI flags).listener =
      es.listener.map fun elp => { elp with elFlags := elp.elFlags ||| flags } := by
  unfold chEvtBroadcastFlagsI
  split <;> simp_all

theorem elFlags_map {s source : EventSource} {flags : BitVec 32}
    (h : source.listener = s.listener.map fun elp => { elp with elFlags := elp.elFlags ||| flags }) :
    source.elFlags = if s.listener.isSome then s.elFlags ||| flags else 0 := by
  rw [elFlags, h, elFlags]
  cases s.listener <;> rfl

theorem elFlags_broadcast (es : EventSource) (flags : BitVec 32) :
    (es.chEvtBroadcastFlagsI flags).elFlags = if es.listener.isSome then es.elFlags ||| flags
    else 0 :=
  elFlags_map (listener_broadcast es flags)

/-- A flag that the listener waits for has made its events pending. -/
def Signalled (es : EventSource) : Prop :=
  ∀ elp, es.listener = some elp → elp.elFlags &&& elp.elWflags ≠ 0 →
    es.pEpending &&& elp.elEvents = elp.elEvents

theorem or_and_self (x events : BitVec 32) : (x ||| events) &&& events = events := by
  ext i
  simp +contextual

theorem signalled_broadcast (es : EventSource) (flags : BitVec 32) :
    (es.chEvtBroadcastFlagsI flags).Signalled := by
  intro elp hl hflags
  cases hes : es.listener with
  | none =>
    simp only [chEvtBroadcastFlagsI, hes] at hl
    cases hl
  | some elp' =>
    simp only [chEvtBroadcastFlagsI, hes, Option.some.injEq] at hl
    subst hl
    simp only [chEvtBroadcastFlagsI, hes, hflags, ne_eq, not_false_eq_true, or_true, if_true]
    exact or_and_self _ _

theorem pEpending_broadcast {es : EventSource} {events : BitVec 32}
    (h : es.pEpending &&& events = events) (flags : BitVec 32) :
    (es.chEvtBroadcastFlagsI flags).pEpending &&& events = events := by
  unfold chEvtBroadcastFlagsI
  split
  · exact h
  · dsimp only
    split_ifs
    · rw [BitVec.and_or_distrib_right, h]
      ext i
      simp +contextual
    · exact h

end EventSource

end SafetyTrolley
