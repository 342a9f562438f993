import SafetyTrolley.Lib.Machine
import SafetyTrolley.Lib.RingBuffer
import SafetyTrolley.Scheduler

/-! The kernel's input queue: an interrupt puts bytes into it, and threads get them and
wait for them while there are none. -/

namespace SafetyTrolley

def qOk : BitVec 32 := msgOk
def qTimeout : BitVec 32 := msgTimeout
def qReset : BitVec 32 := -2
def qFull : BitVec 32 := -4

/-- A thread in chIQGetTimeout, with the timeout that it was called with. -/
structure QueueReader (τ : Type*) where
  tp : τ
  timeout : Systime
  deriving DecidableEq, Repr

structure InputQueue (τ : Type*) (size : Nat) where
  qWaiting : List (QueueReader τ) := []
  ring : RingBuffer UInt8 size

namespace InputQueue

variable {τ : Type*} {size : Nat}

def chIQObjectInit (bp : Vector UInt8 size) (hsize : 0 < size) : InputQueue τ size where
  ring := RingBuffer.start bp hsize

def chIQIsEmptyI (iqp : InputQueue τ size) : Bool := iqp.ring.isEmpty

def chIQIsFullI (iqp : InputQueue τ size) : Bool := iqp.ring.isFull

/-- The first waiting thread, which becomes ready, and the queue without it. -/
def chThdDequeueNextI (iqp : InputQueue τ size) : Option (QueueReader τ) × InputQueue τ size :=
  (iqp.qWaiting.head?, { iqp with qWaiting := iqp.qWaiting.tail })

def chIQPutI (iqp : InputQueue τ size) (b : UInt8) :
    BitVec 32 × Option (QueueReader τ) × InputQueue τ size :=
  if iqp.chIQIsFullI then (qFull, none, iqp)
  else (qOk, { iqp with ring := iqp.ring.put b }.chThdDequeueNextI)

/-- All waiting threads become ready. -/
def chIQResetI (iqp : InputQueue τ size) : List (QueueReader τ) × InputQueue τ size :=
  (iqp.qWaiting, { qWaiting := [], ring := RingBuffer.start iqp.ring.buffer iqp.ring.rdptr.pos })

-- Behind the loop of chIQGetTimeout.
def takeByte (iqp : InputQueue τ size) : UInt8 × InputQueue τ size :=
  (iqp.ring.front, { iqp with ring := iqp.ring.drop })

theorem chIQPutI_cases {iqp : InputQueue τ size} (h : iqp.ring.Valid) (b : UInt8) :
    (iqp.ring.counter = size ∧ iqp.chIQPutI b = (qFull, none, iqp)) ∨
      (iqp.ring.counter < size ∧ (iqp.chIQPutI b).1 = qOk ∧
        (iqp.chIQPutI b).2 =
          (iqp.qWaiting.head?, { qWaiting := iqp.qWaiting.tail, ring := iqp.ring.put b })) := by
  unfold chIQPutI
  by_cases hfull : iqp.chIQIsFullI = true
  · exact Or.inl ⟨h.isFull_iff.mp hfull, if_pos hfull⟩
  · have hne : iqp.ring.counter ≠ size := fun heq => hfull (h.isFull_iff.mpr heq)
    rw [if_neg hfull]
    exact Or.inr ⟨lt_of_le_of_ne h.counter_le hne, rfl, rfl⟩

end InputQueue

/-- The queue with the threads that were made ready, and why, and have not run since. -/
structure QueueReaders (τ : Type*) (size : Nat) where
  iqueue : InputQueue τ size
  readied : List (QueueReader τ × BitVec 32) := []

inductive QueueEvent (τ : Type*) where
  | put (b : UInt8)
  | reset
  | get (tp : τ) (timeout : Systime)
  | timeout (tp : τ)
  | run (tp : τ)
  deriving DecidableEq, Repr

namespace QueueReaders

variable {τ : Type*} {size : Nat} [DecidableEq τ]

def waiting (s : QueueReaders τ size) (tp : τ) : Option (QueueReader τ) :=
  s.iqueue.qWaiting.find? fun reader => reader.tp = tp

def woken (s : QueueReaders τ size) (tp : τ) : Option (QueueReader τ × BitVec 32) :=
  s.readied.find? fun x => x.1.tp = tp

def ready (s : QueueReaders τ size) (readers : List (QueueReader τ)) (msg : BitVec 32) :
    QueueReaders τ size :=
  { s with readied := s.readied ++ readers.map fun reader => (reader, msg) }

/-- The loop of chIQGetTimeout from its test on. -/
def getLoop (s : QueueReaders τ size) (reader : QueueReader τ) : QueueReaders τ size :=
  if s.iqueue.chIQIsEmptyI then
    if reader.timeout = timeImmediate then s
    else { s with iqueue := { s.iqueue with qWaiting := s.iqueue.qWaiting ++ [reader] } }
  else { s with iqueue := s.iqueue.takeByte.2 }

def step (s : QueueReaders τ size) : QueueEvent τ → Option (QueueReaders τ size)
  | .put b =>
    let (_, reader, iqueue) := s.iqueue.chIQPutI b
    some ({ s with iqueue }.ready reader.toList qOk)
  | .reset =>
    let (readers, iqueue) := s.iqueue.chIQResetI
    some ({ s with iqueue }.ready readers qReset)
  | .get tp timeout =>
    if s.waiting tp = none ∧ s.woken tp = none then some (s.getLoop { tp, timeout }) else none
  | .timeout tp =>
    match s.waiting tp with
    | none => none
    | some reader =>
      if reader.timeout = timeInfinite then none
      else
        some ({ s with iqueue.qWaiting := s.iqueue.qWaiting.eraseP fun reader => reader.tp = tp }.ready
          [reader] qTimeout)
  | .run tp =>
    match s.woken tp with
    | none => none
    | some (reader, msg) =>
      let s := { s with readied := s.readied.eraseP fun x => x.1.tp = tp }
      if msg.slt qOk then some s else some (s.getLoop reader)

/-- The byte that the step returns to a thread. -/
def got (s : QueueReaders τ size) : QueueEvent τ → Option UInt8
  | .get _ _ => if s.iqueue.chIQIsEmptyI then none else some s.iqueue.takeByte.1
  | .run tp =>
    match s.woken tp with
    | none => none
    | some (_, msg) =>
      if msg.slt qOk ∨ s.iqueue.chIQIsEmptyI = true then none else some s.iqueue.takeByte.1
  | _ => none

/-- The bytes put into the queue and those taken from it since its last reset. -/
structure QueueLog where
  accepted : List UInt8 := []
  taken : List UInt8 := []
  deriving DecidableEq, Repr

def QueueLog.next (s : QueueReaders τ size) (e : QueueEvent τ) (l : QueueLog) : QueueLog :=
  match e with
  | .put b => if (s.iqueue.chIQPutI b).1 = qOk then { l with accepted := l.accepted ++ [b] } else l
  | .reset => {}
  | e => { l with taken := l.taken ++ (s.got e).toList }

def init (bp : Vector UInt8 size) (hsize : 0 < size) : QueueReaders τ size where
  iqueue := InputQueue.chIQObjectInit bp hsize

omit [DecidableEq τ] in
@[simp] theorem iqueue_ready (s : QueueReaders τ size) (readers : List (QueueReader τ))
    (msg : BitVec 32) :
    (s.ready readers msg).iqueue = s.iqueue := rfl

omit [DecidableEq τ] in
theorem ring_getLoop (s : QueueReaders τ size) (reader : QueueReader τ) :
    (s.getLoop reader).iqueue.ring =
      if s.iqueue.chIQIsEmptyI then s.iqueue.ring else s.iqueue.ring.drop := by
  unfold getLoop
  split_ifs <;> rfl

/-- What a step does to the ring, apart from bytes put and from resets. -/
theorem ring_step {s t : QueueReaders τ size} {e : QueueEvent τ} (h : s.step e = some t)
    (hput : ∀ b, e ≠ .put b) (hreset : e ≠ .reset) :
    (s.got e = none ∧ t.iqueue.ring = s.iqueue.ring) ∨
      (s.got e = some s.iqueue.ring.front ∧ s.iqueue.ring.counter ≠ 0 ∧
        t.iqueue.ring = s.iqueue.ring.drop) := by
  have hcounter : ¬ s.iqueue.chIQIsEmptyI = true → s.iqueue.ring.counter ≠ 0 := by
    intro hne
    simpa [InputQueue.chIQIsEmptyI, RingBuffer.isEmpty] using hne
  cases e with
  | put b => exact absurd rfl (hput b)
  | reset => exact absurd rfl hreset
  | get tp timeout =>
    simp only [step] at h
    split_ifs at h
    cases h
    rw [ring_getLoop, got]
    split_ifs with hempty
    · exact Or.inl ⟨rfl, rfl⟩
    · exact Or.inr ⟨rfl, hcounter hempty, rfl⟩
  | timeout tp =>
    simp only [step] at h
    split at h
    · cases h
    · split_ifs at h
      cases h
      exact Or.inl ⟨rfl, rfl⟩
  | run tp =>
    simp only [step] at h
    cases hwoken : s.woken tp with
    | none => simp [hwoken] at h
    | some x =>
      obtain ⟨reader, msg⟩ := x
      simp only [hwoken] at h
      simp only [got, hwoken]
      by_cases hmsg : msg.slt qOk = true
      · rw [if_pos hmsg] at h
        cases h
        exact Or.inl ⟨by simp [hmsg], rfl⟩
      · rw [if_neg hmsg] at h
        cases h
        rw [ring_getLoop]
        by_cases hempty : s.iqueue.chIQIsEmptyI = true
        · exact Or.inl ⟨by simp [hempty], if_pos hempty⟩
        · exact Or.inr ⟨by simp [hmsg, hempty]; rfl, hcounter hempty, if_neg hempty⟩

/-- The queue against the log of what went in and out. -/
structure InOrder (s : QueueReaders τ size) (l : QueueLog) : Prop where
  valid : s.iqueue.ring.Valid
  accepted : l.accepted = l.taken ++ s.iqueue.ring.toList

theorem InOrder.step {s t : QueueReaders τ size} {l : QueueLog} {e : QueueEvent τ} (h : s.InOrder l)
    (hst : s.step e = some t) : t.InOrder (QueueLog.next s e l) := by
  have hother : (∀ b, e ≠ .put b) → e ≠ .reset →
      t.InOrder { l with taken := l.taken ++ (s.got e).toList } := by
    intro hput hreset
    rcases ring_step hst hput hreset with ⟨hgot, hring⟩ | ⟨hgot, hcounter, hring⟩
    · refine ⟨by rw [hring]; exact h.valid, ?_⟩
      rw [hring, hgot, h.accepted]
      simp
    · refine ⟨by rw [hring]; exact h.valid.drop hcounter, ?_⟩
      rw [hring, hgot, h.accepted, RingBuffer.toList_eq_cons hcounter]
      simp
  cases e with
  | put b =>
    simp only [QueueReaders.step, Option.some.injEq] at hst
    subst hst
    rw [QueueLog.next]
    rcases InputQueue.chIQPutI_cases h.valid b with ⟨-, heq⟩ | ⟨hroom, hmsg, heq⟩
    · simp only [heq]
      rw [if_neg (show qFull ≠ qOk by decide)]
      exact ⟨h.valid, h.accepted⟩
    · rw [if_pos hmsg]
      refine ⟨?_, ?_⟩
      · simp only [iqueue_ready, heq]
        exact h.valid.put hroom b
      · simp only [iqueue_ready, heq, h.valid.toList_put hroom, h.accepted, List.append_assoc]
  | reset =>
    simp only [QueueReaders.step, Option.some.injEq] at hst
    subst hst
    exact ⟨RingBuffer.valid_start _ _, rfl⟩
  | get tp timeout => exact hother (by simp) (by simp)
  | timeout tp => exact hother (by simp) (by simp)
  | run tp => exact hother (by simp) (by simp)

omit [DecidableEq τ] in
theorem inOrder_init (bp : Vector UInt8 size) (hsize : 0 < size) :
    (init (τ := τ) bp hsize).InOrder {} :=
  ⟨RingBuffer.valid_start bp hsize, rfl⟩

/-- A reader waits for its byte, and the queue is then filled across its end. -/
def fillBoth : List (QueueEvent Nat) := [.get 0 100, .put 7, .run 0, .put 8, .put 9, .put 10]

/-- However many threads read, and wait, and give up: the bytes taken since the last reset
are those put since, in the same order, and the rest is in the queue. A byte is refused only
where as many are left as the buffer holds. -/
theorem bytes_in_order {bp : Vector UInt8 size} {hsize : 0 < size} {es : List (QueueEvent τ)}
    {s : QueueReaders τ size} {l : QueueLog}
    (h : Machine.run (Machine.watch step QueueLog.next) (init bp hsize, {}) es = some (s, l)) :
    l.taken <+: l.accepted ∧ l.accepted = l.taken ++ s.iqueue.ring.toList ∧
      l.accepted.length - l.taken.length = s.iqueue.ring.counter ∧
      ∀ b, (s.iqueue.chIQPutI b).1 = qFull ↔ l.accepted.length = l.taken.length + size := by
  have hinv : s.InOrder l := Machine.watch_invariant (P := fun s l => s.InOrder l)
    (inOrder_init bp hsize) (fun _ _ _ _ hs hst => hs.step hst) h
  have hlen := congrArg List.length hinv.accepted
  rw [List.length_append, RingBuffer.length_toList] at hlen
  refine ⟨hinv.accepted ▸ List.prefix_append _ _, hinv.accepted, by omega, fun b => ?_⟩
  rcases InputQueue.chIQPutI_cases hinv.valid b with ⟨hfull, heq⟩ | ⟨hroom, hmsg, -⟩
  · simp only [heq, true_iff]
    omega
  · rw [hmsg]
    refine ⟨fun hx => absurd hx (by decide), fun hx => ?_⟩
    omega

theorem bytes_in_order_fillBoth : ∃ (s : QueueReaders Nat 2) (l : QueueLog),
    Machine.run (Machine.watch step QueueLog.next) (init #v[0, 0] Nat.two_pos, {}) fillBoth =
      some (s, l) ∧
      l = { accepted := [7, 8, 9], taken := [7] } ∧ l.taken <+: l.accepted ∧
      l.accepted = l.taken ++ s.iqueue.ring.toList ∧
        l.accepted.length - l.taken.length = s.iqueue.ring.counter ∧
      ∀ b, (s.iqueue.chIQPutI b).1 = qFull ↔ l.accepted.length = l.taken.length + 2 := by
  obtain ⟨⟨s, l⟩, h, hl⟩ := Option.map_eq_some_iff.mp (by decide :
    (Machine.run (Machine.watch step QueueLog.next) (init #v[0, 0] Nat.two_pos, {}) fillBoth).map Prod.snd =
      some { accepted := [7, 8, 9], taken := [7] })
  exact ⟨s, l, h, hl, bytes_in_order h⟩

/-- The readers that were woken for a byte and have not run since. -/
def owed (s : QueueReaders τ size) : Nat := s.readied.countP fun x => x.2 = qOk

def Served (s : QueueReaders τ size) : Prop := s.iqueue.qWaiting ≠ [] → s.iqueue.ring.counter ≤ s.owed

theorem perm_eraseP {α : Type*} {p : α → Bool} {xs : List α} {x : α} (h : xs.find? p = some x) :
    (x :: xs.eraseP p).Perm xs := by
  induction xs with
  | nil => cases h
  | cons y ys ih =>
    cases hp : p y with
    | true =>
      rw [List.find?_cons_of_pos hp] at h
      cases h
      rw [List.eraseP_cons_of_pos hp]
    | false =>
      have hneg : ¬ p y = true := by simp [hp]
      rw [List.find?_cons_of_neg hneg] at h
      rw [List.eraseP_cons_of_neg hneg]
      exact (List.Perm.swap y x _).trans ((ih h).cons y)

omit [DecidableEq τ] in
theorem owed_ready (s : QueueReaders τ size) (readers : List (QueueReader τ)) (msg : BitVec 32) :
    (s.ready readers msg).owed = s.owed + if msg = qOk then readers.length else 0 := by
  rw [owed, ready, List.countP_append, ← owed]
  congr 1
  induction readers with
  | nil => simp
  | cons reader readers ih =>
    rw [List.map_cons, List.countP_cons, ih]
    split_ifs <;> simp_all

omit [DecidableEq τ] in
/-- A reader that gets a byte leaves one less; one that waits finds none. -/
theorem Served.getLoop {s : QueueReaders τ size} (reader : QueueReader τ)
    (h : s.iqueue.qWaiting ≠ [] → s.iqueue.ring.counter ≤ s.owed + 1) :
    (s.getLoop reader).Served := by
  intro hwait
  by_cases he : s.iqueue.chIQIsEmptyI = true
  · have hzero : s.iqueue.ring.counter = 0 := by
      simpa [InputQueue.chIQIsEmptyI, RingBuffer.isEmpty] using he
    rw [ring_getLoop, if_pos he, hzero]
    exact Nat.zero_le _
  · rw [ring_getLoop, if_neg he]
    have hsame : (s.getLoop reader).iqueue.qWaiting = s.iqueue.qWaiting ∧
        (s.getLoop reader).owed = s.owed := by
      unfold QueueReaders.getLoop
      rw [if_neg he]
      exact ⟨rfl, rfl⟩
    rw [hsame.1] at hwait
    rw [hsame.2]
    have := h hwait
    change s.iqueue.ring.counter - 1 ≤ s.owed
    omega

theorem Served.step {s t : QueueReaders τ size} {e : QueueEvent τ} (hvalid : s.iqueue.ring.Valid)
    (h : s.Served) (hst : s.step e = some t) : t.Served := by
  cases e with
  | put b =>
    simp only [QueueReaders.step, Option.some.injEq] at hst
    subst hst
    rcases InputQueue.chIQPutI_cases hvalid b with ⟨-, heq⟩ | ⟨-, -, heq⟩
    · simp only [heq]
      intro hwait
      rw [owed_ready]
      exact (h hwait).trans (Nat.le_add_right _ _)
    · intro hwait
      rw [owed_ready]
      simp only [heq, iqueue_ready, if_true] at hwait ⊢
      cases hlist : s.iqueue.qWaiting with
      | nil => simp [hlist] at hwait
      | cons reader rest =>
        have := h (by simp [hlist])
        exact Nat.succ_le_succ this
  | reset =>
    simp only [QueueReaders.step, Option.some.injEq] at hst
    subst hst
    intro hwait
    exact absurd rfl hwait
  | get tp timeout =>
    simp only [QueueReaders.step] at hst
    split_ifs at hst
    cases hst
    exact Served.getLoop _ fun hwait => (h hwait).trans (Nat.le_succ _)
  | timeout tp =>
    simp only [QueueReaders.step] at hst
    split at hst
    · cases hst
    · split_ifs at hst
      cases hst
      intro hwait
      rw [owed_ready]
      refine (h ?_).trans (Nat.le_add_right _ _)
      rintro hnil
      simp [hnil] at hwait
  | run tp =>
    simp only [QueueReaders.step] at hst
    cases hwoken : s.woken tp with
    | none => simp [hwoken] at hst
    | some x =>
      obtain ⟨reader, msg⟩ := x
      have hperm := (perm_eraseP hwoken).countP_eq (fun x => decide (x.2 = qOk))
      rw [List.countP_cons] at hperm
      simp only [hwoken] at hst
      by_cases hmsg : msg.slt qOk = true
      · have hne : msg ≠ qOk := by
          rintro rfl
          exact absurd hmsg (by decide)
        rw [if_pos hmsg] at hst
        cases hst
        intro hwait
        have := h hwait
        simp only [hne, decide_false, Bool.false_eq_true, if_false, Nat.add_zero] at hperm
        rw [owed, hperm]
        exact this
      · rw [if_neg hmsg] at hst
        cases hst
        refine Served.getLoop _ fun hwait => (h hwait).trans ?_
        change s.owed ≤ List.countP _ (s.readied.eraseP _) + 1
        rw [owed, ← hperm]
        exact Nat.add_le_add_left (by split_ifs <;> omega) _

theorem valid_step {s t : QueueReaders τ size} {e : QueueEvent τ} (h : s.iqueue.ring.Valid)
    (hst : s.step e = some t) : t.iqueue.ring.Valid :=
  (InOrder.step (l := { accepted := s.iqueue.ring.toList }) ⟨h, rfl⟩ hst).valid

/-- No wakeup of a reader is lost: while threads wait, there are no more bytes in the queue
than threads that were woken for them and have not run yet. -/
theorem no_lost_wakeup {bp : Vector UInt8 size} {hsize : 0 < size} {es : List (QueueEvent τ)}
    {s : QueueReaders τ size} (h : Machine.run step (init bp hsize) es = some s)
    (hwait : s.iqueue.qWaiting ≠ []) :
    s.iqueue.ring.counter ≤ s.readied.countP fun x => x.2 = qOk := by
  have hinv := Machine.run_invariant
    (P := fun s : QueueReaders τ size => s.iqueue.ring.Valid ∧ s.Served)
    ⟨RingBuffer.valid_start bp hsize, fun hne => absurd rfl hne⟩
    (fun _ _ _ hs hst => ⟨valid_step hs.1 hst, hs.2.step hs.1 hst⟩) h
  exact hinv.2 hwait

/-- Two threads wait, and the first byte wakes one of them. -/
def wakeOne : List (QueueEvent Nat) := [.get 0 100, .get 1 100, .put 7]

theorem no_lost_wakeup_wakeOne : ∃ s : QueueReaders Nat 2,
    Machine.run step (init #v[0, 0] Nat.two_pos) wakeOne = some s ∧ s.iqueue.qWaiting = [⟨1, 100⟩] ∧
      s.iqueue.ring.counter ≤ s.readied.countP fun x => x.2 = qOk := by
  obtain ⟨s, h, hwait⟩ := Option.map_eq_some_iff.mp (by decide :
    (Machine.run step (init #v[0, 0] Nat.two_pos) wakeOne).map (fun s => s.iqueue.qWaiting) =
      some [(⟨1, 100⟩ : QueueReader Nat)])
  exact ⟨s, h, hwait, no_lost_wakeup h (by simp [hwait])⟩

end QueueReaders

end SafetyTrolley
