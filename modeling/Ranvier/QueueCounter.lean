import Mathlib.Algebra.BigOperators.Intervals
import Mathlib.Algebra.Order.BigOperators.Group.Finset
import Ranvier.MpscRing
import Ranvier.PersistentStore

/-!
# The size of the persistence queue

`_queue_size` is kept beside the ring and not in step with it: `try_enqueue` counts an operation
**before** it is pushed and takes the count back if it is refused; `queue_clear_all` counts its
operation **after** it was pushed; the worker subtracts what it has drained at the end of a batch.
Every atomic access of the counter and of the ring is a step of its own.

* `uncounted` — the position of a clear that is in the ring and not in the counter;
* `Balanced` — what ties the counter to the ring, as long as the worker subtracts no clear that is
  uncounted;
* `queueSize_sound` — over such runs the counter does not wrap, and an operation is dropped only
  if the queue is full.
-/

namespace Ranvier

/-- Where a shard is in `try_enqueue` or `queue_clear_all`. -/
inductive QueueCall : Type
  | idle
  /-- `try_enqueue`: counted, about to push -/
  | reserved (op : PersistenceOp)
  /-- `try_enqueue`: in `try_push` -/
  | enqueuing
  /-- `try_enqueue`: refused, about to take the count back -/
  | undoing
  /-- `queue_clear_all`: behind the generation, about to push -/
  | bumped
  /-- `queue_clear_all`: in `try_push` -/
  | clearing
  /-- `queue_clear_all`: pushed at the position, about to count -/
  | counting (position : ℕ)
  deriving DecidableEq

/-- The counter and the ring, with the calls of the shards and the worker. -/
structure QueueCounter (n : ℕ) : Type where
  run : RingRun PersistenceOp
  calls : Fin n → QueueCall := fun _ => .idle
  queueSize : UInt64 := 0
  opsDropped : ℕ := 0
  clearGeneration : UInt64 := 0
  /-- inside `extract_batch` or `drain_queue`: how many operations had been popped before it -/
  worker : Option ℕ := none

/-- The atomic steps. -/
inductive CounterAction (n : ℕ) : Type
  /-- `try_enqueue`: count, and look at the limit -/
  | enqueue (p : Fin n) (op : PersistenceOp)
  /-- `queue_clear_all`: the generation -/
  | clear (p : Fin n)
  /-- both: call `try_push` -/
  | push (p : Fin n)
  /-- both: go on in `try_push`; `weak` makes the compare-exchange fail -/
  | advance (p : Fin n) (weak : Bool)
  /-- `try_enqueue`: take the count back -/
  | undo (p : Fin n)
  /-- `queue_clear_all`: count -/
  | count (p : Fin n)
  | extractBatch
  | drainQueue
  /-- the worker goes on in `drain` -/
  | consume (moved : PersistenceOp)
  /-- the worker subtracts what it has drained -/
  | subtract
  deriving DecidableEq

/-- What `try_push` returned, if the step was its last: the position of the item, or nothing. -/
def pushReturned {τ : Type} : ProducerPc τ → ProducerPc τ → Option (Option ℕ)
  | .publish tail, _ => some (some tail)
  | .check _ _, .idle => some none
  | _, _ => none

/-- Where a call goes on after `try_push`. -/
def QueueCall.onReturn : QueueCall → Option ℕ → QueueCall
  | .enqueuing, some _ => .idle
  | .enqueuing, none => .undoing
  | .clearing, some position => .counting position
  | .clearing, none => .idle
  | call, _ => call

namespace QueueCounter

variable {n : ℕ}

/-- An idle manager with its ring. -/
def booted (ring : MpscRing PersistenceOp) : QueueCounter n where
  run := { ring := ring }

section Steps

variable (cfg : AsyncPersistenceConfig) (s : QueueCounter n)

def setCall (p : Fin n) (call : QueueCall) : QueueCounter n :=
  { s with calls := Function.update s.calls p call }

/-- A step of the ring. -/
def ringStep (a : RingAction PersistenceOp) : Option (QueueCounter n) :=
  (s.run.step a).map fun run => { s with run := run }

/-- `try_enqueue` up to the check of the limit. -/
def tryEnqueue (p : Fin n) (op : PersistenceOp) : QueueCounter n :=
  let prev := s.queueSize
  let s := { s with queueSize := s.queueSize + 1 }
  if cfg.maxQueueDepth ≤ prev.toNat then s.setCall p .undoing else s.setCall p (.reserved op)

/-- A step in `try_push`, and of the call behind it if it returns. -/
def advance (p : Fin n) (weak : Bool) : Option (QueueCounter n) :=
  (s.ringStep (.advance p weak)).map fun s' =>
    match pushReturned (s.run.producers p) (s'.run.producers p) with
    | some result => s'.setCall p ((s.calls p).onReturn result)
    | none => s'

/-- The worker begins to drain. -/
def beginDrain (maxCount : ℕ) : Option (QueueCounter n) :=
  if s.worker = none then
    (s.ringStep (.drain maxCount)).map fun s' => { s' with worker := some s.run.popped.length }
  else none

/-- One atomic step. -/
def step : CounterAction n → Option (QueueCounter n)
  | .enqueue p op => if s.calls p = .idle then some (s.tryEnqueue cfg p op) else none
  | .clear p =>
    if s.calls p = .idle then
      some { s.setCall p .bumped with clearGeneration := s.clearGeneration + 1 }
    else none
  | .push p =>
    match s.calls p with
    | .reserved op => (s.ringStep (.push p op)).map fun s' => s'.setCall p .enqueuing
    | .bumped => (s.ringStep (.push p .clearAll)).map fun s' => s'.setCall p .clearing
    | _ => none
  | .advance p weak => s.advance p weak
  | .undo p =>
    if s.calls p = .undoing then
      some { s.setCall p .idle with
        queueSize := s.queueSize - 1, opsDropped := s.opsDropped + 1 }
    else none
  | .count p =>
    match s.calls p with
    | .counting _ => some { s.setCall p .idle with queueSize := s.queueSize + 1 }
    | _ => none
  | .extractBatch => s.beginDrain cfg.maxBatchSize
  | .drainQueue => s.beginDrain s.run.ring.capacity
  | .consume moved => if s.worker = none then none else s.ringStep (.consume moved)
  | .subtract =>
    match s.worker with
    | some before =>
      if s.run.consumer = .idle then
        let drained := s.run.popped.length - before
        some { s with
          worker := none
          queueSize :=
            if 0 < drained then s.queueSize - UInt64.ofNat drained else s.queueSize }
      else none
    | none => none

end Steps

end QueueCounter

/-! ## What is to hold -/

namespace QueueCall

variable {τ : Type}

/-- The operation is counted and being pushed, and has no position yet. -/
def pending : QueueCall → ProducerPc τ → ℕ
  | .reserved _, _ => 1
  | .enqueuing, .check _ _ => 1
  | .enqueuing, .claim _ _ => 1
  | .enqueuing, .reload _ => 1
  | _, _ => 0

/-- The operation is counted and refused. -/
def refused : QueueCall → ℕ
  | .undoing => 1
  | _ => 0

/-- The position of a clear that is in the ring and not counted. -/
def uncounted : QueueCall → ProducerPc τ → Option ℕ
  | .clearing, .write tail _ => some tail
  | .clearing, .publish tail => some tail
  | .counting position, _ => some position
  | _, _ => none

/-- If the call is about to count a clear, then one at or behind the position. -/
def CountsFrom (position : ℕ) : QueueCall → Prop
  | .counting position' => position ≤ position'
  | _ => True

instance (position : ℕ) : (call : QueueCall) → Decidable (call.CountsFrom position)
  | .counting position' => inferInstanceAs (Decidable (position ≤ position'))
  | .idle | .reserved _ | .enqueuing | .undoing | .bumped | .clearing => .isTrue trivial

end QueueCall

namespace QueueCounter

variable {n : ℕ}

section Contents

variable (s : QueueCounter n)

/-- The operations with a position in the ring, published or not, that are not drained. -/
def queued : ℕ := s.run.ring.tail - s.run.popped.length

/-- The other operations that are being pushed. -/
def beingPushed (p : Fin n) : ℕ :=
  ∑ q ∈ Finset.univ.erase p, (s.calls q).pending (s.run.producers q)

/-- How many of the operations drained have been subtracted. -/
def discounted : ℕ := s.worker.getD s.run.popped.length

/-- The operations that are still counted although they are out of the ring: those of the batch
that is being drained, and those refused. -/
def lingering : ℕ := (s.run.popped.length - s.discounted) + ∑ q, (s.calls q).refused

/-- The step subtracts more than is counted. -/
def Wraps : CounterAction n → Prop
  | .undo _ => s.queueSize = 0
  | .subtract => s.queueSize.toNat < s.run.popped.length - s.discounted
  | _ => False

/-- The shard comes to drop its operation. -/
def Drops (s s' : QueueCounter n) (p : Fin n) : Prop :=
  s.calls p ≠ .undoing ∧ s'.calls p = .undoing

/-- The condition on a step: the worker subtracts no clear that is still to be counted, and a
compare-exchange of the ring succeeds only on a free slot. -/
def CountedFirst : CounterAction n → Prop
  | .advance p weak => s.run.Apart (.advance p weak)
  | .subtract => ∀ p, (s.calls p).CountsFrom s.run.popped.length
  | _ => True

instance : (a : CounterAction n) → Decidable (s.CountedFirst a)
  | .advance p weak => RingRun.instDecidableApart s.run (.advance p weak)
  | .subtract => inferInstanceAs (Decidable (∀ p, (s.calls p).CountsFrom s.run.popped.length))
  | .enqueue _ _ => .isTrue trivial
  | .clear _ => .isTrue trivial
  | .push _ => .isTrue trivial
  | .undo _ => .isTrue trivial
  | .count _ => .isTrue trivial
  | .extractBatch => .isTrue trivial
  | .drainQueue => .isTrue trivial
  | .consume _ => .isTrue trivial

end Contents

/-! ## The ring -/

section Ring

variable {τ : Type}

/-- What a step in `try_push` does: where the producer is before and after it, and the tail. -/
inductive PushStep (run : RingRun τ) : ProducerPc τ → ProducerPc τ → ℕ → Prop
  | found (tail : ℕ) (item : τ) : PushStep run (.check tail item) (.claim tail item) run.ring.tail
  | refused (tail : ℕ) (item : τ) (full : intptr (run.ring.slotAt tail).seq - intptr tail < 0) :
      PushStep run (.check tail item) .idle run.ring.tail
  | stale (tail : ℕ) (item : τ) : PushStep run (.check tail item) (.reload item) run.ring.tail
  | claimed (item : τ) :
      PushStep run (.claim run.ring.tail item) (.write run.ring.tail item)
        (sizeT (run.ring.tail + 1))
  | lost (tail : ℕ) (item : τ) :
      PushStep run (.claim tail item) (.check run.ring.tail item) run.ring.tail
  | reloaded (item : τ) : PushStep run (.reload item) (.check run.ring.tail item) run.ring.tail
  | written (tail : ℕ) (item : τ) : PushStep run (.write tail item) (.publish tail) run.ring.tail
  | published (tail : ℕ) : PushStep run (.publish tail) .idle run.ring.tail

/-- The worker's side of the ring is as it was. -/
structure SameConsumer (run run' : RingRun τ) : Prop where
  popped : run'.popped = run.popped
  consumer : run'.consumer = run.consumer
  head : run'.ring.head = run.ring.head
  capacity : run'.ring.capacity = run.ring.capacity

variable {run run' : RingRun τ} {p : ℕ}

theorem pushStep_of_update {pc : ProducerPc τ}
    (hproducers : run'.producers = Function.update run.producers p pc)
    (hstep : PushStep run (run.producers p) pc run'.ring.tail) (hsame : SameConsumer run run') :
    PushStep run (run.producers p) (run'.producers p) run'.ring.tail ∧
      (∀ q, q ≠ p → run'.producers q = run.producers q) ∧ SameConsumer run run' := by
  rw [hproducers, Function.update_self]
  exact ⟨hstep, fun q hq => Function.update_of_ne hq .., hsame⟩

theorem pushStep_of_advance {weak : Bool} (h : run.step (.advance p weak) = some run') :
    PushStep run (run.producers p) (run'.producers p) run'.ring.tail ∧
      (∀ q, q ≠ p → run'.producers q = run.producers q) ∧ SameConsumer run run' := by
  rw [RingRun.step] at h
  cases hpc : run.producers p with
  | idle =>
    rw [hpc] at h
    cases h
  | check tail item =>
    rw [hpc, RingRun.produce] at h
    rw [← hpc]
    split at h
    · obtain rfl := Option.some.inj h
      exact pushStep_of_update rfl (hpc ▸ .found tail item) ⟨rfl, rfl, rfl, rfl⟩
    · split at h
      · next hfull =>
        obtain rfl := Option.some.inj h
        exact pushStep_of_update rfl (hpc ▸ .refused tail item hfull) ⟨rfl, rfl, rfl, rfl⟩
      · obtain rfl := Option.some.inj h
        exact pushStep_of_update rfl (hpc ▸ .stale tail item) ⟨rfl, rfl, rfl, rfl⟩
  | claim tail item =>
    rw [hpc, RingRun.produce] at h
    rw [← hpc]
    split at h
    · next hclaim =>
      obtain ⟨rfl, -⟩ := hclaim
      obtain rfl := Option.some.inj h
      exact pushStep_of_update rfl (hpc ▸ .claimed item) ⟨rfl, rfl, rfl, rfl⟩
    · obtain rfl := Option.some.inj h
      exact pushStep_of_update rfl (hpc ▸ .lost tail item) ⟨rfl, rfl, rfl, rfl⟩
  | reload item =>
    rw [hpc] at h
    obtain rfl := Option.some.inj h
    rw [← hpc]
    exact pushStep_of_update rfl (hpc ▸ .reloaded item) ⟨rfl, rfl, rfl, rfl⟩
  | write tail item =>
    rw [hpc] at h
    obtain rfl := Option.some.inj h
    rw [← hpc]
    exact pushStep_of_update rfl (hpc ▸ .written tail item) ⟨rfl, rfl, rfl, rfl⟩
  | publish tail =>
    rw [hpc] at h
    obtain rfl := Option.some.inj h
    rw [← hpc]
    exact pushStep_of_update rfl (hpc ▸ .published tail) ⟨rfl, rfl, rfl, rfl⟩

/-- A producer calls `try_push`. -/
theorem eq_setPc_of_push {item : τ} (h : run.step (.push p item) = some run') :
    run' = run.setPc p (.check run.ring.tail item) := by
  rw [RingRun.step] at h
  split at h
  · exact (Option.some.inj h).symm
  · cases h

/-- The producers' side of the ring is as it was, and the consumer does not go back. -/
structure SameProducers (run run' : RingRun τ) : Prop where
  producers : run'.producers = run.producers
  tail : run'.ring.tail = run.ring.tail
  capacity : run'.ring.capacity = run.ring.capacity
  head : run.ring.head ≤ run'.ring.head
  popped : run.popped.length ≤ run'.popped.length

theorem sameProducers_of_consume (hsound : run.Sound) {moved : τ}
    (h : run.step (.consume moved) = some run') : SameProducers run run' := by
  rw [RingRun.step] at h
  cases hpc : run.consumer with
  | idle =>
    rw [hpc] at h
    cases h
  | scan left =>
    rw [hpc, RingRun.consume] at h
    split at h
    · obtain rfl := Option.some.inj h
      exact ⟨rfl, rfl, rfl, le_rfl, le_rfl⟩
    · obtain rfl := Option.some.inj h
      exact ⟨rfl, rfl, rfl, le_rfl, le_rfl⟩
  | take left =>
    rw [hpc] at h
    obtain rfl := Option.some.inj h
    refine ⟨rfl, rfl, rfl, le_rfl, ?_⟩
    dsimp only
    rw [List.length_append]
    exact Nat.le_add_right _ _
  | release left =>
    rw [hpc] at h
    obtain rfl := Option.some.inj h
    refine ⟨rfl, rfl, rfl, ?_, le_rfl⟩
    have hbound := hsound.bound
    have hhead := hsound.head
    dsimp only
    rw [sizeT_of_lt (by omega)]
    exact Nat.le_succ _

/-- The worker begins to drain. -/
theorem eq_of_drain {maxCount : ℕ} (h : run.step (.drain maxCount) = some run') :
    run.consumer = .idle ∧ ∃ c, run' = { run with consumer := c } := by
  rw [RingRun.step] at h
  split at h
  · next hidle => exact ⟨hidle, _, (Option.some.inj h).symm⟩
  · cases h

end Ring

/-! ## One shard -/

section Sums

variable {p : Fin n}

/-- Sums that differ at one place. -/
theorem sum_add_eq {f g : Fin n → ℕ} (h : ∀ q, q ≠ p → g q = f q) :
    ∑ q, g q + f p = ∑ q, f q + g p := by
  have hrest : ∑ q ∈ Finset.univ.erase p, g q = ∑ q ∈ Finset.univ.erase p, f q :=
    Finset.sum_congr rfl fun q hq => h q (Finset.ne_of_mem_erase hq)
  rw [← Finset.add_sum_erase Finset.univ g (Finset.mem_univ p),
    ← Finset.add_sum_erase Finset.univ f (Finset.mem_univ p), hrest]
  omega

/-- As many different positions as there are between two bounds, at most. -/
theorem sum_isSome_le {f : Fin n → Option ℕ} {lo hi : ℕ}
    (hrange : ∀ p t, f p = some t → lo ≤ t ∧ t < hi)
    (hdistinct : ∀ p q t, f p = some t → f q = some t → p = q) :
    ∑ p, (if (f p).isSome then 1 else 0) ≤ hi - lo := by
  rw [← Finset.card_filter, ← Nat.card_Ico]
  refine Finset.card_le_card_of_injOn (fun p => (f p).getD 0) (fun p hp => ?_) ?_
  · obtain ⟨t, ht⟩ := Option.isSome_iff_exists.mp (Finset.mem_filter.mp hp).2
    dsimp only
    rw [ht]
    exact Finset.mem_coe.mpr (Finset.mem_Ico.mpr (hrange p t ht))
  · intro p hp q hq heq
    obtain ⟨t, ht⟩ := Option.isSome_iff_exists.mp (Finset.mem_filter.mp hp).2
    obtain ⟨u, hu⟩ := Option.isSome_iff_exists.mp (Finset.mem_filter.mp hq).2
    dsimp only at heq
    rw [ht, hu] at heq
    exact hdistinct p q t ht (hu.trans (congrArg some heq.symm))

end Sums

end QueueCounter

namespace QueueCall

variable {τ : Type}

/-- A call is in `try_push` exactly if its producer is. -/
def Paired : QueueCall → ProducerPc τ → Prop
  | .enqueuing, pc => pc ≠ .idle
  | .clearing, pc => pc ≠ .idle
  | _, pc => pc = .idle

/-- What the call has in the counter and not in the ring. -/
def holds (call : QueueCall) (pc : ProducerPc τ) : ℕ := call.pending pc + call.refused

/-- What the call has in the ring and not in the counter. -/
def owes (call : QueueCall) (pc : ProducerPc τ) : ℕ := if (call.uncounted pc).isSome then 1 else 0

theorem holds_le_one (call : QueueCall) (pc : ProducerPc τ) : call.holds pc ≤ 1 := by
  cases call <;> cases pc <;> simp [holds, pending, refused]

/-- Where a call is after a step in `try_push`. -/
def afterPush (call : QueueCall) (pc pc' : ProducerPc τ) : QueueCall :=
  match pushReturned pc pc' with
  | some result => call.onReturn result
  | none => call

/-- The step that reserves a position moves the operation from the counter to the ring, or a clear
to where it is in the ring only. -/
theorem afterPush_spec {run : RingRun τ} {call : QueueCall} {pc pc' : ProducerPc τ} {tail : ℕ}
    (hbound : run.ring.tail + 1 ≤ 2 ^ 63) (hpaired : call.Paired pc)
    (hstep : QueueCounter.PushStep run pc pc' tail) :
    (call.afterPush pc pc').Paired pc' ∧ run.ring.tail ≤ tail ∧
      (∀ t, (call.afterPush pc pc').uncounted pc' = some t →
        call.uncounted pc = some t ∨ t = run.ring.tail ∧ run.ring.tail < tail) ∧
      (call.afterPush pc pc').owes pc' + call.holds pc + run.ring.tail =
        call.owes pc + (call.afterPush pc pc').holds pc' + tail := by
  have hnext : sizeT (run.ring.tail + 1) = run.ring.tail + 1 := sizeT_of_lt hbound
  -- the producer is not idle, so the call is one of the two that push
  have hcall : call = .enqueuing ∨ call = .clearing := by
    cases hstep <;> cases call <;> simp [Paired] at hpaired ⊢
  rcases hcall with rfl | rfl <;> cases hstep <;>
    simp [Paired, afterPush, pushReturned, onReturn, uncounted, owes, holds, pending, refused,
      hnext, Nat.add_comm]

end QueueCall

namespace QueueCounter

variable {n : ℕ}

/-- The position of an uncounted clear of a shard. -/
def uncountedAt (s : QueueCounter n) (p : Fin n) : Option ℕ :=
  (s.calls p).uncounted (s.run.producers p)

/-- What every step keeps. -/
structure Balanced (cfg : AsyncPersistenceConfig) (s : QueueCounter n) : Prop where
  sound : s.run.Sound
  capacity : cfg.maxQueueDepth ≤ s.run.ring.capacity
  paired : ∀ p : Fin n, (s.calls p).Paired (s.run.producers p)
  atRest : s.worker = none → s.run.consumer = .idle
  discounted_le : s.discounted ≤ s.run.ring.head
  /-- an uncounted clear is not subtracted -/
  positions : ∀ p t, s.uncountedAt p = some t → s.discounted ≤ t ∧ t < s.run.ring.tail
  distinct : ∀ p q t, s.uncountedAt p = some t → s.uncountedAt q = some t → p = q
  balance : s.queueSize.toNat + ∑ p, (s.calls p).owes (s.run.producers p) =
    ∑ p, (s.calls p).holds (s.run.producers p) + (s.run.ring.tail - s.discounted)

section Balanced

variable {cfg : AsyncPersistenceConfig} {s s' : QueueCounter n} {p : Fin n}

theorem Balanced.discounted_le_tail (h : Balanced cfg s) : s.discounted ≤ s.run.ring.tail :=
  h.discounted_le.trans h.sound.head

/-- The counter is not behind: what is uncounted is in the ring. -/
theorem Balanced.owed_le (h : Balanced cfg s) :
    ∑ p, (s.calls p).owes (s.run.producers p) ≤ s.run.ring.tail - s.discounted :=
  sum_isSome_le h.positions h.distinct

theorem held_le (s : QueueCounter n) : ∑ p, (s.calls p).holds (s.run.producers p) ≤ n := by
  have hsum := Finset.sum_le_card_nsmul Finset.univ
    (fun p => (s.calls p).holds (s.run.producers p)) 1 fun p _ => QueueCall.holds_le_one _ _
  simpa using hsum

/-- A step of one shard. -/
theorem Balanced.shard (h : Balanced cfg s) (p : Fin n) (hsound : s'.run.Sound)
    (hsame : SameConsumer s.run s'.run) (hworker : s'.worker = s.worker)
    (hothers : ∀ q, q ≠ p → s'.calls q = s.calls q ∧ s'.run.producers q = s.run.producers q)
    (hpaired : (s'.calls p).Paired (s'.run.producers p))
    (htail : s.run.ring.tail ≤ s'.run.ring.tail)
    (huncounted : ∀ t, s'.uncountedAt p = some t →
      s.uncountedAt p = some t ∨ t = s.run.ring.tail ∧ s.run.ring.tail < s'.run.ring.tail)
    (hbalance : s'.queueSize.toNat + (s'.calls p).owes (s'.run.producers p) +
        (s.calls p).holds (s.run.producers p) + s.run.ring.tail =
      s.queueSize.toNat + (s.calls p).owes (s.run.producers p) +
        (s'.calls p).holds (s'.run.producers p) + s'.run.ring.tail) :
    Balanced cfg s' := by
  have hdiscounted : s'.discounted = s.discounted := by
    rw [discounted, discounted, hworker, hsame.popped]
  have hat : ∀ q, q ≠ p → s'.uncountedAt q = s.uncountedAt q := by
    intro q hq
    rw [uncountedAt, (hothers q hq).1, (hothers q hq).2, uncountedAt]
  -- a new position is behind all that there were
  have hpositions : ∀ q t, s'.uncountedAt q = some t →
      s.uncountedAt q = some t ∨ q = p ∧ t = s.run.ring.tail ∧
        s.run.ring.tail < s'.run.ring.tail := by
    intro q t ht
    by_cases hq : q = p
    · subst hq
      exact (huncounted t ht).imp_right fun hnew => ⟨rfl, hnew⟩
    · exact .inl (hat q hq ▸ ht)
  refine ⟨hsound, ?_, fun q => ?_, ?_, ?_, fun q t ht => ?_, fun q q' t ht ht' => ?_, ?_⟩
  · rw [hsame.capacity]
    exact h.capacity
  · by_cases hq : q = p
    · exact hq ▸ hpaired
    · rw [(hothers q hq).1, (hothers q hq).2]
      exact h.paired q
  · rw [hworker, hsame.consumer]
    exact h.atRest
  · rw [hdiscounted, hsame.head]
    exact h.discounted_le
  · rw [hdiscounted]
    rcases hpositions q t ht with hold | ⟨-, rfl, hlt⟩
    · exact ⟨(h.positions q t hold).1, (h.positions q t hold).2.trans_le htail⟩
    · exact ⟨h.discounted_le_tail, hlt⟩
  · rcases hpositions q t ht with hold | ⟨rfl, rfl, -⟩
    · rcases hpositions q' t ht' with hold' | ⟨-, rfl, -⟩
      · exact h.distinct q q' t hold hold'
      · exact absurd (h.positions q _ hold).2 (lt_irrefl _)
    · rcases hpositions q' _ ht' with hold' | ⟨rfl, -, -⟩
      · exact absurd (h.positions q' _ hold').2 (lt_irrefl _)
      · rfl
  · have hheld := @sum_add_eq n p (fun q => (s.calls q).holds (s.run.producers q))
      (fun q => (s'.calls q).holds (s'.run.producers q))
      fun q hq => by rw [(hothers q hq).1, (hothers q hq).2]
    have howed := @sum_add_eq n p (fun q => (s.calls q).owes (s.run.producers q))
      (fun q => (s'.calls q).owes (s'.run.producers q))
      fun q hq => by rw [(hothers q hq).1, (hothers q hq).2]
    have hle := h.discounted_le_tail
    have hold := h.balance
    rw [hdiscounted]
    omega

/-- A step of one shard beside the ring. -/
theorem Balanced.call (h : Balanced cfg s) {p : Fin n} {call : QueueCall} (hrun : s'.run = s.run)
    (hworker : s'.worker = s.worker) (hcalls : s'.calls = Function.update s.calls p call)
    (hpaired : call.Paired (s.run.producers p))
    (huncounted : ∀ t, call.uncounted (s.run.producers p) = some t → s.uncountedAt p = some t)
    (hbalance : s'.queueSize.toNat + call.owes (s.run.producers p) +
        (s.calls p).holds (s.run.producers p) =
      s.queueSize.toNat + (s.calls p).owes (s.run.producers p) +
        call.holds (s.run.producers p)) :
    Balanced cfg s' := by
  have hself : s'.calls p = call := by rw [hcalls, Function.update_self]
  refine h.shard p (hrun ▸ h.sound) ?_ hworker (fun q hq => ?_) ?_ ?_ ?_ ?_
  · rw [hrun]
    exact ⟨rfl, rfl, rfl, rfl⟩
  · rw [hcalls, Function.update_of_ne hq, hrun]
    exact ⟨rfl, rfl⟩
  · rw [hself, hrun]
    exact hpaired
  · rw [hrun]
  · intro t ht
    rw [uncountedAt, hself, hrun] at ht
    exact .inl (huncounted t ht)
  · rw [hself, hrun]
    omega

/-- There is room for one more in the counter. -/
theorem Balanced.queueSize_lt (h : Balanced cfg s) (hn : n ≤ 2 ^ 32) :
    s.queueSize.toNat + 1 < 2 ^ 64 := by
  have hbound := h.sound.bound
  have hbalance := h.balance
  have hheld := s.held_le
  omega

theorem Balanced.producer_idle (h : Balanced cfg s)
    (hcall : s.calls p ≠ .enqueuing ∧ s.calls p ≠ .clearing) : s.run.producers p = .idle := by
  have hpaired := h.paired p
  cases hp : s.calls p <;> rw [hp] at hpaired hcall
  case enqueuing => exact absurd rfl hcall.1
  case clearing => exact absurd rfl hcall.2
  all_goals exact hpaired

theorem toNat_add_one {x : UInt64} (h : x.toNat + 1 < 2 ^ 64) : (x + 1).toNat = x.toNat + 1 := by
  rw [UInt64.toNat_add]
  exact Nat.mod_eq_of_lt h

theorem toNat_sub_ofNat {x : UInt64} {d : ℕ} (h : d ≤ x.toNat) :
    (x - UInt64.ofNat d).toNat = x.toNat - d := by
  have hd : (UInt64.ofNat d).toNat = d := UInt64.toNat_ofNat_of_lt' (h.trans_lt x.toNat_lt)
  rw [UInt64.toNat_sub_of_le _ _ (by rw [UInt64.le_iff_toNat_le, hd]; exact h), hd]

/-- `try_enqueue` counts, whatever comes of it. -/
theorem Balanced.reserve (h : Balanced cfg s) (hn : n ≤ 2 ^ 32) (hidle : s.calls p = .idle)
    {call : QueueCall} (hcall : call = .undoing ∨ ∃ op, call = .reserved op) :
    Balanced cfg (setCall { s with queueSize := s.queueSize + 1 } p call) := by
  have hpc : s.run.producers p = .idle := h.producer_idle (by simp [hidle])
  have hone := toNat_add_one (h.queueSize_lt hn)
  refine @Balanced.call _ _ s _ h p call rfl rfl rfl ?_ ?_ ?_
  · rcases hcall with rfl | ⟨op, rfl⟩ <;> exact hpc
  · rcases hcall with rfl | ⟨op, rfl⟩ <;> exact fun t ht => by cases ht
  · change (s.queueSize + 1).toNat + _ + _ = _
    rw [hone, hidle, hpc]
    rcases hcall with rfl | ⟨op, rfl⟩ <;> rfl

theorem Balanced.tryEnqueue (h : Balanced cfg s) (hn : n ≤ 2 ^ 32) (hidle : s.calls p = .idle)
    (op : PersistenceOp) : Balanced cfg (s.tryEnqueue cfg p op) := by
  rw [QueueCounter.tryEnqueue]
  split
  · exact h.reserve hn hidle (.inl rfl)
  · exact h.reserve hn hidle (.inr ⟨op, rfl⟩)

theorem Balanced.one_le_of_undoing (h : Balanced cfg s) (hundoing : s.calls p = .undoing) :
    1 ≤ s.queueSize.toNat := by
  have hbalance := h.balance
  have howed := h.owed_le
  have hheld := Finset.single_le_sum
    (f := fun q : Fin n => (s.calls q).holds (s.run.producers q)) (fun q _ => Nat.zero_le _)
    (Finset.mem_univ p)
  rw [hundoing, QueueCall.holds, QueueCall.refused] at hheld
  omega

theorem Balanced.undo (h : Balanced cfg s) (hundoing : s.calls p = .undoing) (dropped : ℕ) :
    Balanced cfg { s.setCall p .idle with
      queueSize := s.queueSize - 1, opsDropped := dropped } := by
  have hpc : s.run.producers p = .idle := h.producer_idle (by simp [hundoing])
  have hone := h.one_le_of_undoing hundoing
  refine @Balanced.call _ _ s _ h p .idle rfl rfl rfl hpc (fun t ht => by cases ht) ?_
  change (s.queueSize - UInt64.ofNat 1).toNat + _ + _ = _
  rw [toNat_sub_ofNat hone, hundoing, hpc]
  simp only [QueueCall.owes, QueueCall.uncounted, QueueCall.holds, QueueCall.pending,
    QueueCall.refused, Option.isSome_none, Bool.false_eq_true, if_false]
  omega

theorem Balanced.count (h : Balanced cfg s) (hn : n ≤ 2 ^ 32) {t : ℕ}
    (hcounting : s.calls p = .counting t) :
    Balanced cfg { s.setCall p .idle with queueSize := s.queueSize + 1 } := by
  have hpc : s.run.producers p = .idle := h.producer_idle (by simp [hcounting])
  have hone := toNat_add_one (h.queueSize_lt hn)
  refine @Balanced.call _ _ s _ h p .idle rfl rfl rfl hpc (fun t ht => by cases ht) ?_
  change (s.queueSize + 1).toNat + _ + _ = _
  rw [hone, hcounting, hpc]
  rfl

theorem Balanced.clear (h : Balanced cfg s) (hidle : s.calls p = .idle) (generation : UInt64) :
    Balanced cfg { s.setCall p .bumped with clearGeneration := generation } := by
  have hpc : s.run.producers p = .idle := h.producer_idle (by simp [hidle])
  refine @Balanced.call _ _ s _ h p .bumped rfl rfl rfl hpc (fun t ht => by cases ht) ?_
  change s.queueSize.toNat + _ + _ = _
  rw [hidle, hpc]
  rfl

/-- A call of `try_push`. -/
theorem Balanced.push (h : Balanced cfg s) {op : PersistenceOp} {call call' : QueueCall}
    (hcall : s.calls p = call)
    (hpush : call = .reserved op ∧ call' = .enqueuing ∨ call = .bumped ∧ call' = .clearing)
    {s₁ : QueueCounter n} (hstep : s.ringStep (.push p op) = some s₁) :
    Balanced cfg (s₁.setCall p call') := by
  obtain ⟨run, hrun, rfl⟩ := Option.map_eq_some_iff.mp hstep
  have hsound : run.Sound := h.sound.step (a := .push p op) trivial hrun
  obtain rfl := eq_setPc_of_push hrun
  have hself : (s.run.setPc p (.check s.run.ring.tail op)).producers p =
      .check s.run.ring.tail op := RingRun.setPc_self ..
  have hcall' : (setCall { s with run := s.run.setPc p (.check s.run.ring.tail op) } p
      call').calls p = call' := Function.update_self ..
  refine h.shard p hsound ⟨rfl, rfl, rfl, rfl⟩ rfl (fun q hq => ⟨?_, ?_⟩) ?_ le_rfl ?_ ?_
  · exact Function.update_of_ne hq ..
  · exact RingRun.setPc_of_ne _ _ fun heq => hq (Fin.ext heq)
  · rw [hcall']
    change call'.Paired ((s.run.setPc p (.check s.run.ring.tail op)).producers p)
    rw [hself]
    rcases hpush with ⟨-, rfl⟩ | ⟨-, rfl⟩ <;> exact fun h => by cases h
  · intro t ht
    rw [uncountedAt, hcall'] at ht
    change call'.uncounted ((s.run.setPc p (.check s.run.ring.tail op)).producers p) = _ at ht
    rw [hself] at ht
    rcases hpush with ⟨-, rfl⟩ | ⟨-, rfl⟩ <;> cases ht
  · rw [hcall', hcall]
    change s.queueSize.toNat +
      call'.owes ((s.run.setPc p (.check s.run.ring.tail op)).producers p) + _ + _ =
      s.queueSize.toNat + _ + call'.holds ((s.run.setPc p (.check s.run.ring.tail op)).producers p)
        + _
    have hpc : s.run.producers p = .idle := by
      refine h.producer_idle ?_
      rw [hcall]
      rcases hpush with ⟨rfl, -⟩ | ⟨rfl, -⟩ <;> simp
    rw [hself, hpc]
    rcases hpush with ⟨rfl, rfl⟩ | ⟨rfl, rfl⟩ <;> rfl

/-- A step in `try_push` as a whole. -/
theorem advance_eq_some {weak : Bool} (hstep : s.advance p weak = some s') :
    ∃ run, s.run.step (.advance p weak) = some run ∧
      s' = { s with
        run := run
        calls := Function.update s.calls p
          ((s.calls p).afterPush (s.run.producers p) (run.producers p)) } := by
  obtain ⟨s₁, hring, rfl⟩ := Option.map_eq_some_iff.mp hstep
  obtain ⟨run, hrun, rfl⟩ := Option.map_eq_some_iff.mp hring
  refine ⟨run, hrun, ?_⟩
  rw [QueueCall.afterPush]
  dsimp only
  split
  · rfl
  · rw [Function.update_eq_self]

theorem Balanced.advance (h : Balanced cfg s) {weak : Bool}
    (hapart : s.run.Apart (.advance p weak)) (hstep : s.advance p weak = some s') :
    Balanced cfg s' := by
  obtain ⟨run, hrun, rfl⟩ := advance_eq_some hstep
  obtain ⟨hpush, hothers, hsame⟩ := pushStep_of_advance hrun
  have hbound := h.sound.bound
  obtain ⟨hpaired, htail, huncounted, hmoved⟩ :=
    QueueCall.afterPush_spec (by omega) (h.paired p) hpush
  have hself := @Function.update_self (Fin n) (fun _ => QueueCall) _ p
    ((s.calls p).afterPush (s.run.producers p) (run.producers p)) s.calls
  refine h.shard p (h.sound.step hapart hrun) hsame rfl (fun q hq => ⟨?_, ?_⟩) ?_ htail ?_ ?_
  · exact Function.update_of_ne hq ..
  · exact hothers q fun heq => hq (Fin.ext heq)
  · dsimp only
    rwa [hself]
  · intro t ht
    rw [uncountedAt] at ht
    dsimp only at ht
    rw [hself] at ht
    exact huncounted t ht
  · dsimp only
    rw [hself]
    omega

/-! ## The worker -/

theorem Balanced.beginDrain (h : Balanced cfg s) {maxCount : ℕ}
    (hstep : s.beginDrain maxCount = some s') : Balanced cfg s' := by
  rw [QueueCounter.beginDrain] at hstep
  split at hstep
  · next hworker =>
    obtain ⟨s₁, hring, rfl⟩ := Option.map_eq_some_iff.mp hstep
    obtain ⟨run, hrun, rfl⟩ := Option.map_eq_some_iff.mp hring
    have hsound : run.Sound := h.sound.step (a := .drain maxCount) trivial hrun
    obtain ⟨-, c, rfl⟩ := eq_of_drain hrun
    have hdiscounted : s.discounted = s.run.popped.length := by
      rw [discounted, hworker]
      rfl
    refine ⟨hsound, h.capacity, h.paired, (fun hnone => absurd hnone (Option.some_ne_none _)), ?_,
      ?_, h.distinct, ?_⟩
    · exact hdiscounted ▸ h.discounted_le
    · exact hdiscounted ▸ h.positions
    · exact hdiscounted ▸ h.balance
  · cases hstep

theorem calls_beginDrain {maxCount : ℕ} (hstep : s.beginDrain maxCount = some s') :
    s'.calls = s.calls := by
  rw [QueueCounter.beginDrain] at hstep
  split at hstep
  · obtain ⟨s₁, hring, rfl⟩ := Option.map_eq_some_iff.mp hstep
    obtain ⟨run, -, rfl⟩ := Option.map_eq_some_iff.mp hring
    rfl
  · cases hstep

theorem Balanced.consume (h : Balanced cfg s) {moved : PersistenceOp}
    (hworker : s.worker ≠ none) (hstep : s.ringStep (.consume moved) = some s') :
    Balanced cfg s' := by
  obtain ⟨run, hrun, rfl⟩ := Option.map_eq_some_iff.mp hstep
  have hsame := sameProducers_of_consume h.sound hrun
  have hdiscounted : discounted { s with run := run } = s.discounted := by
    obtain ⟨before, hbefore⟩ := Option.ne_none_iff_exists'.mp hworker
    rw [discounted, discounted]
    dsimp only
    rw [hbefore, Option.getD_some, Option.getD_some]
  have hat : ∀ q, uncountedAt { s with run := run } q = s.uncountedAt q := by
    intro q
    rw [uncountedAt, uncountedAt, hsame.producers]
  refine ⟨h.sound.step (a := .consume moved) trivial hrun, ?_, ?_,
    fun hnone => absurd hnone hworker, ?_, ?_, ?_, ?_⟩
  · exact hsame.capacity ▸ h.capacity
  · exact hsame.producers ▸ h.paired
  · rw [hdiscounted]
    exact h.discounted_le.trans hsame.head
  · intro q t ht
    rw [hat] at ht
    rw [hdiscounted]
    exact hsame.tail ▸ h.positions q t ht
  · intro q q' t ht ht'
    rw [hat] at ht ht'
    exact h.distinct q q' t ht ht'
  · rw [hdiscounted]
    dsimp only
    rw [hsame.producers, hsame.tail]
    exact h.balance

/-- At rest the worker has released what it popped. -/
theorem Balanced.popped_eq_head (h : Balanced cfg s) (hconsumer : s.run.consumer = .idle) :
    s.run.popped.length = s.run.ring.head := by
  have hc := h.sound.consumer
  rwa [hconsumer] at hc

/-- Between two batches an uncounted clear is behind what has been drained, if every clear in the
batch has been counted. -/
theorem Balanced.popped_le (h : Balanced cfg s) (hconsumer : s.run.consumer = .idle)
    (hcounted : ∀ p, (s.calls p).CountsFrom s.run.popped.length) {t : ℕ}
    (ht : s.uncountedAt p = some t) : s.run.popped.length ≤ t := by
  have hpopped := h.popped_eq_head hconsumer
  have hcall := hcounted p
  have hproducer := h.sound.producers p
  have hpaired := h.paired p
  rw [uncountedAt] at ht
  cases hp : s.calls p <;> rw [hp] at ht hcall hpaired
  case counting position =>
    obtain rfl := Option.some.inj ht
    exact hcall
  case clearing =>
    -- what is being written is not published, and what has been popped is
    cases hpc : s.run.producers p <;> rw [hpc] at ht hproducer <;>
      simp only [QueueCall.uncounted, Option.some.injEq, reduceCtorEq] at ht
    · subst ht
      exact hpopped ▸ (h.sound.owned_reach hproducer.1 hproducer.2.1).1
    · subst ht
      exact hpopped ▸ (h.sound.owned_reach hproducer.1 hproducer.2.1).1
  all_goals cases ht

theorem Balanced.drained_le (h : Balanced cfg s) (hconsumer : s.run.consumer = .idle)
    (hcounted : ∀ p, (s.calls p).CountsFrom s.run.popped.length) :
    s.run.popped.length - s.discounted ≤ s.queueSize.toNat := by
  have howed : ∑ p, (s.calls p).owes (s.run.producers p) ≤
      s.run.ring.tail - s.run.popped.length :=
    sum_isSome_le (fun q t ht => ⟨h.popped_le hconsumer hcounted ht, (h.positions q t ht).2⟩)
      h.distinct
  have hbalance := h.balance
  have hle := h.discounted_le
  have hhead := h.sound.head
  have hpopped := h.popped_eq_head hconsumer
  omega

/-- The worker subtracts its batch. -/
theorem Balanced.subtract (h : Balanced cfg s) (hconsumer : s.run.consumer = .idle)
    (hcounted : ∀ p, (s.calls p).CountsFrom s.run.popped.length)
    (hworker : s'.worker = none) (hrun : s'.run = s.run) (hcalls : s'.calls = s.calls)
    (hsize : s'.queueSize.toNat = s.queueSize.toNat - (s.run.popped.length - s.discounted)) :
    Balanced cfg s' := by
  have hdiscounted : s'.discounted = s.run.popped.length := by
    rw [discounted, hworker, hrun]
    rfl
  have hpopped := h.popped_eq_head hconsumer
  have hat : ∀ q, s'.uncountedAt q = s.uncountedAt q := by
    intro q
    rw [uncountedAt, hcalls, hrun, uncountedAt]
  refine ⟨hrun ▸ h.sound, hrun ▸ h.capacity, ?_, fun _ => hrun ▸ hconsumer, ?_, ?_, ?_, ?_⟩
  · rw [hcalls, hrun]
    exact h.paired
  · rw [hdiscounted, hpopped, hrun]
  · intro q t ht
    rw [hat] at ht
    rw [hdiscounted, hrun]
    exact ⟨h.popped_le hconsumer hcounted ht, (h.positions q t ht).2⟩
  · intro q q' t ht ht'
    rw [hat] at ht ht'
    exact h.distinct q q' t ht ht'
  · have hbalance := h.balance
    have hdrained := h.drained_le hconsumer hcounted
    have hle := h.discounted_le
    have hhead := h.sound.head
    rw [hdiscounted, hcalls, hrun, hsize]
    omega

theorem Balanced.step {a : CounterAction n} (hn : n ≤ 2 ^ 32) (h : Balanced cfg s)
    (hok : s.CountedFirst a) (hstep : s.step cfg a = some s') : Balanced cfg s' := by
  cases a with
  | enqueue p op =>
    rw [QueueCounter.step] at hstep
    split at hstep
    · next hidle =>
      obtain rfl := Option.some.inj hstep
      exact h.tryEnqueue hn hidle op
    · cases hstep
  | clear p =>
    rw [QueueCounter.step] at hstep
    split at hstep
    · next hidle =>
      obtain rfl := Option.some.inj hstep
      exact h.clear hidle _
    · cases hstep
  | push p =>
    rw [QueueCounter.step] at hstep
    split at hstep
    · next op hcall =>
      obtain ⟨s₁, hring, rfl⟩ := Option.map_eq_some_iff.mp hstep
      exact h.push hcall (.inl ⟨rfl, rfl⟩) hring
    · next hcall =>
      obtain ⟨s₁, hring, rfl⟩ := Option.map_eq_some_iff.mp hstep
      exact h.push hcall (.inr ⟨rfl, rfl⟩) hring
    · cases hstep
  | advance p weak => exact h.advance hok hstep
  | undo p =>
    rw [QueueCounter.step] at hstep
    split at hstep
    · next hundoing =>
      obtain rfl := Option.some.inj hstep
      exact h.undo hundoing _
    · cases hstep
  | count p =>
    rw [QueueCounter.step] at hstep
    split at hstep
    · next t hcounting =>
      obtain rfl := Option.some.inj hstep
      exact h.count hn hcounting
    · cases hstep
  | extractBatch => exact h.beginDrain hstep
  | drainQueue => exact h.beginDrain hstep
  | consume moved =>
    rw [QueueCounter.step] at hstep
    split at hstep
    · cases hstep
    · next hworker => exact h.consume hworker hstep
  | subtract =>
    rw [QueueCounter.step] at hstep
    split at hstep
    · next before hworker =>
      split at hstep
      · next hconsumer =>
        obtain rfl := Option.some.inj hstep
        refine h.subtract hconsumer hok rfl rfl rfl ?_
        have hdrained := h.drained_le hconsumer hok
        have hbefore : s.discounted = before := by
          rw [discounted, hworker]
          rfl
        rw [hbefore] at hdrained ⊢
        dsimp only
        split
        · exact toNat_sub_ofNat hdrained
        · omega
      · cases hstep
    · cases hstep

/-- The counter is behind no further than it can be made up for. -/
theorem Balanced.not_wraps (h : Balanced cfg s) {a : CounterAction n} (hok : s.CountedFirst a)
    (hstep : s.step cfg a = some s') : ¬s.Wraps a := by
  cases a with
  | undo p =>
    rw [QueueCounter.step] at hstep
    split at hstep
    · next hundoing =>
      intro hzero
      have hone := h.one_le_of_undoing hundoing
      rw [show s.queueSize = 0 from hzero] at hone
      cases hone
    · cases hstep
  | subtract =>
    rw [QueueCounter.step] at hstep
    split at hstep
    · split at hstep
      · next hconsumer => exact Nat.not_lt.mpr (h.drained_le hconsumer hok)
      · cases hstep
    · cases hstep
  | enqueue | clear | push | advance | count | extractBatch | drainQueue | consume => exact id

theorem Balanced.popped_le_tail (h : Balanced cfg s) :
    s.run.popped.length ≤ s.run.ring.tail := by
  have hlength := congrArg List.length h.sound.inOrder
  rw [List.length_take, h.sound.length] at hlength
  omega

/-- What is counted is queued, being pushed, or lingers. -/
theorem Balanced.queueSize_le (h : Balanced cfg s) (hidle : s.calls p = .idle) :
    s.queueSize.toNat ≤ s.queued + s.beingPushed p + s.lingering := by
  have hheld : ∑ q, (s.calls q).holds (s.run.producers q) =
      ∑ q, (s.calls q).pending (s.run.producers q) + ∑ q, (s.calls q).refused :=
    Finset.sum_add_distrib
  have hpending : ∑ q, (s.calls q).pending (s.run.producers q) = s.beingPushed p := by
    rw [← Finset.add_sum_erase Finset.univ _ (Finset.mem_univ p), hidle]
    exact Nat.zero_add _
  have hbalance := h.balance
  have hpopped := h.popped_le_tail
  have hdiscounted := h.discounted_le.trans h.sound.head_le_popped
  rw [hheld, hpending] at hbalance
  rw [queued, lingering]
  omega

/-- A refusal of the ring: it is full, up to what the worker has just taken. -/
theorem Balanced.capacity_le (h : Balanced cfg s) {tail : ℕ} {item : PersistenceOp}
    (hpc : s.run.producers p = .check tail item)
    (hfull : intptr (s.run.ring.slotAt tail).seq - intptr tail < 0) :
    s.run.ring.capacity ≤ s.queued + s.lingering := by
  have hproducer := h.sound.producers p
  rw [hpc] at hproducer
  have htail := (h.sound.diff_cases hproducer).1 hfull
  have hpopped := h.popped_le_tail
  have hdiscounted := h.discounted_le
  have hhead := h.sound.head_le_popped
  rw [queued, lingering]
  omega

/-- In `try_push`, only a refusal makes a call drop its operation. -/
theorem refused_of_afterPush {τ : Type} {run : RingRun τ} {call : QueueCall}
    {pc pc' : ProducerPc τ} {tail : ℕ} (hstep : PushStep run pc pc' tail)
    (hne : call ≠ .undoing) (hdrop : call.afterPush pc pc' = .undoing) :
    ∃ position item, pc = .check position item ∧
      intptr (run.ring.slotAt position).seq - intptr position < 0 := by
  cases hstep with
  | refused position item full => exact ⟨position, item, rfl, full⟩
  | published =>
    cases call with
    | undoing => exact absurd rfl hne
    | idle | reserved | enqueuing | bumped | clearing | counting => cases hdrop
  | found | stale | claimed | lost | reloaded | written => exact absurd hdrop hne

/-- The shard that drops its operation is the one that took the step. -/
theorem eq_of_drops {q : Fin n} {call : QueueCall}
    (hcalls : s'.calls = Function.update s.calls q call) (hdrops : Drops s s' p) :
    p = q ∧ call = .undoing := by
  obtain ⟨hne, hundoing⟩ := hdrops
  rw [hcalls] at hundoing
  by_cases hp : p = q
  · subst hp
    rw [Function.update_self] at hundoing
    exact ⟨rfl, hundoing⟩
  · rw [Function.update_of_ne hp] at hundoing
    exact absurd hundoing hne

/-- An operation is dropped at the limit, or refused by the ring. -/
theorem drops_cases {a : CounterAction n} (hstep : s.step cfg a = some s')
    (hdrops : Drops s s' p) :
    s.calls p = .idle ∧ cfg.maxQueueDepth ≤ s.queueSize.toNat ∨
      ∃ weak, s.advance p weak = some s' := by
  cases a with
  | enqueue q op =>
    rw [QueueCounter.step] at hstep
    split at hstep
    · next hidle =>
      obtain rfl := Option.some.inj hstep
      rw [QueueCounter.tryEnqueue] at hdrops
      split at hdrops
      · next hlimit =>
        obtain ⟨rfl, -⟩ := eq_of_drops rfl hdrops
        exact .inl ⟨hidle, hlimit⟩
      · cases (eq_of_drops rfl hdrops).2
    · cases hstep
  | advance q weak =>
    obtain ⟨run, -, rfl⟩ := advance_eq_some hstep
    obtain ⟨rfl, -⟩ := eq_of_drops rfl hdrops
    exact .inr ⟨weak, hstep⟩
  | clear q =>
    rw [QueueCounter.step] at hstep
    split at hstep
    · obtain rfl := Option.some.inj hstep
      cases (eq_of_drops rfl hdrops).2
    · cases hstep
  | push q =>
    rw [QueueCounter.step] at hstep
    split at hstep
    · obtain ⟨s₁, hring, rfl⟩ := Option.map_eq_some_iff.mp hstep
      obtain ⟨run, -, rfl⟩ := Option.map_eq_some_iff.mp hring
      cases (eq_of_drops rfl hdrops).2
    · obtain ⟨s₁, hring, rfl⟩ := Option.map_eq_some_iff.mp hstep
      obtain ⟨run, -, rfl⟩ := Option.map_eq_some_iff.mp hring
      cases (eq_of_drops rfl hdrops).2
    · cases hstep
  | undo q =>
    rw [QueueCounter.step] at hstep
    split at hstep
    · obtain rfl := Option.some.inj hstep
      cases (eq_of_drops rfl hdrops).2
    · cases hstep
  | count q =>
    rw [QueueCounter.step] at hstep
    split at hstep
    · obtain rfl := Option.some.inj hstep
      cases (eq_of_drops rfl hdrops).2
    · cases hstep
  | extractBatch => exact absurd hdrops.2 (calls_beginDrain hstep ▸ hdrops.1)
  | drainQueue => exact absurd hdrops.2 (calls_beginDrain hstep ▸ hdrops.1)
  | consume moved =>
    rw [QueueCounter.step] at hstep
    split at hstep
    · cases hstep
    · obtain ⟨run, -, rfl⟩ := Option.map_eq_some_iff.mp hstep
      exact absurd hdrops.2 hdrops.1
  | subtract =>
    rw [QueueCounter.step] at hstep
    split at hstep
    · split at hstep
      · obtain rfl := Option.some.inj hstep
        exact absurd hdrops.2 hdrops.1
      · cases hstep
    · cases hstep

theorem Balanced.drops_le {a : CounterAction n} (h : Balanced cfg s)
    (hstep : s.step cfg a = some s') (hdrops : Drops s s' p) :
    cfg.maxQueueDepth ≤ s.queued + s.beingPushed p + s.lingering := by
  rcases drops_cases hstep hdrops with ⟨hidle, hlimit⟩ | ⟨weak, hadvance⟩
  · exact hlimit.trans (h.queueSize_le hidle)
  · obtain ⟨run, hrun, rfl⟩ := advance_eq_some hadvance
    obtain ⟨hpush, -, -⟩ := pushStep_of_advance hrun
    obtain ⟨-, hundoing⟩ := eq_of_drops rfl hdrops
    obtain ⟨position, item, hpc, hfull⟩ := refused_of_afterPush hpush hdrops.1 hundoing
    have hcapacity := h.capacity.trans (h.capacity_le hpc hfull)
    omega

theorem Balanced.start {initial : PersistenceOp} {ring : MpscRing PersistenceOp}
    (hcreate : MpscRing.create initial cfg.maxQueueDepth = some ring) :
    Balanced cfg (booted ring : QueueCounter n) := by
  have hsound := RingRun.Sound.start hcreate
  unfold MpscRing.create at hcreate
  split at hcreate
  · cases hcreate
  next capacity hround =>
  obtain rfl := Option.some.inj hcreate
  obtain ⟨-, -, -, hcapacity⟩ := roundUp_spec (k := 0) (by decide) hround
  refine ⟨hsound, hcapacity, fun p => rfl, fun _ => rfl, le_rfl, fun p t ht => ?_,
    fun p q t ht => ?_, ?_⟩
  · cases ht
  · cases ht
  · exact (Nat.zero_add _).trans (by simp [booted, QueueCall.owes, QueueCall.uncounted,
      QueueCall.holds, QueueCall.pending, QueueCall.refused, discounted])

end Balanced

/-- In every run of any number of shards and the worker whose subtractions come after the counts
of the clears drained, the counter does not wrap, and an operation is dropped only if
`max_queue_depth` operations are queued, being pushed, or still counted after they left the ring:
without the latter, only if as many are queued or being pushed. -/
theorem queueSize_sound {cfg : AsyncPersistenceConfig} {initial : PersistenceOp}
    {ring : MpscRing PersistenceOp} (hn : n ≤ 2 ^ 32)
    (hcreate : MpscRing.create initial cfg.maxQueueDepth = some ring)
    {run : List (CounterAction n)} {s s' : QueueCounter n}
    (hexec : exec (step cfg) (booted ring) run = some s)
    (hmeets : Meets (step cfg) CountedFirst (booted ring) run) {a : CounterAction n}
    (hok : s.CountedFirst a) (hstep : s.step cfg a = some s') :
    ¬s.Wraps a ∧ ∀ p, Drops s s' p →
      cfg.maxQueueDepth ≤ s.queued + s.beingPushed p + s.lingering ∧
        (s.lingering = 0 → cfg.maxQueueDepth ≤ s.queued + s.beingPushed p) := by
  have hbalanced : Balanced cfg s :=
    exec_invariant (I := fun _ s => Balanced cfg s)
      (fun hok hstep hbalanced => hbalanced.step hn hok hstep) (h := []) hmeets hexec
      (Balanced.start hcreate)
  refine ⟨hbalanced.not_wraps hok hstep, fun p hdrops => ?_⟩
  have hle := hbalanced.drops_le hstep hdrops
  exact ⟨hle, fun hzero => by omega⟩

def shardA : Fin 2 := (Fin.last 0).castSucc

def shardB : Fin 2 := Fin.last 1

/-- A queue with an empty ring of the requested depth. -/
def emptyQueue (maxQueueDepth : ℕ) : QueueCounter 2 :=
  booted ((MpscRing.create .clearAll maxQueueDepth).getD ⟨0, 0, fun _ => ⟨0, .clearAll⟩, 0, 0⟩)

/-- Where a run ends that starts with an empty queue. -/
def after (cfg : AsyncPersistenceConfig) (run : List (CounterAction 2)) : QueueCounter 2 :=
  (exec (step cfg) (emptyQueue cfg.maxQueueDepth) run).getD (emptyQueue cfg.maxQueueDepth)

/-- `shardA` clears and counts, the worker drains, and `shardA` is about to push an operation. -/
def clearCounted : List (CounterAction 2) :=
  [.clear shardA, .push shardA, .advance shardA false, .advance shardA false,
    .advance shardA false, .advance shardA false, .extractBatch, .consume .clearAll,
    .count shardA, .consume .clearAll, .consume .clearAll, .consume .clearAll, .subtract,
    .enqueue shardA (.removeBackend 1)]

/-- The operation that comes next, of the other shard. -/
def dropped : CounterAction 2 := .enqueue shardB (.removeBackend 1)

/-- With room for one operation, it is dropped: one is being pushed. -/
theorem queueSize_sound_clearCounted :
    ¬(after { maxQueueDepth := 1 } clearCounted).Wraps dropped ∧
      (after { maxQueueDepth := 1 } clearCounted).queueSize = 1 ∧
      1 ≤ (after { maxQueueDepth := 1 } clearCounted).queued +
        (after { maxQueueDepth := 1 } clearCounted).beingPushed shardB := by
  have hcreate : MpscRing.create .clearAll 1 = some (emptyQueue 1).run.ring := rfl
  have hrun : (exec (step { maxQueueDepth := 1 }) (emptyQueue 1) clearCounted).isSome := by decide
  have hidle : (after { maxQueueDepth := 1 } clearCounted).calls shardB = .idle := by decide
  have hsound := @queueSize_sound 2 { maxQueueDepth := 1 } .clearAll _ (by decide) hcreate _ _ _
    (exec_eq_some_getD hrun) (by decide) dropped trivial (if_pos (e := none) hidle)
  exact ⟨hsound.1, by decide, (hsound.2 shardB ⟨by decide, by decide⟩).2 (by decide)⟩

/-- `shardA` pushes a clear, and the worker drains it before it is counted. -/
def clearDrained : List (CounterAction 2) :=
  [.clear shardA, .push shardA, .advance shardA false, .advance shardA false,
    .advance shardA false, .advance shardA false, .extractBatch, .consume .clearAll,
    .consume .clearAll, .consume .clearAll, .consume .clearAll]

/-- Then the worker subtracts what it has drained. -/
def clearSubtracted : QueueCounter 2 := after {} (clearDrained ++ [.subtract])

/-- Its subtraction wraps, and the next operation is dropped although nothing is queued, being
pushed, or counted for longer than that. -/
theorem clear_drained_before_count :
    MpscRing.create .clearAll 100000 = some (emptyQueue 100000).run.ring ∧
      (exec (step {}) (emptyQueue 100000) (clearDrained ++ [.subtract, dropped])).isSome ∧
      (after {} clearDrained).Wraps .subtract ∧
      clearSubtracted.queueSize = 18446744073709551615 ∧
      Drops clearSubtracted (after {} (clearDrained ++ [.subtract, dropped])) shardB ∧
      clearSubtracted.queued = 0 ∧ clearSubtracted.beingPushed shardB = 0 ∧
      clearSubtracted.lingering = 0 := by
  have hwraps : (after {} clearDrained).queueSize.toNat <
      (after {} clearDrained).run.popped.length - (after {} clearDrained).discounted := by decide
  exact ⟨rfl, by decide, hwraps, by decide, ⟨by decide, by decide⟩, by decide, by decide,
    by decide⟩

end QueueCounter

end Ranvier
