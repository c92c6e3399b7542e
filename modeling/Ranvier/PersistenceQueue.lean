import Ranvier.QueueCounter

/-!
# The asynchronous persistence queue

Any shard queues operations; a single worker thread takes them from a bounded
ring in batches. `queue_clear_all` first bumps a generation counter and then
pushes its operation, past the depth limit but not past the end of the ring; the
worker passes over what stands in front of a clear that it knows to be pending.
Ring and counter are those of `MpscRing` and `QueueCounter`, access by access.

* `AsyncPersistenceManager.step` — every interleaving of the atomic steps of the
  producers and the worker;
* `PendingClear` — a clear is still to be processed: what makes passing over
  operations **harmless** for the tables it empties;
* `QueueInv` — the invariant: the attribution rows are up to date, and so are the
  tables unless a clear is pending;
* `drained_store_eq` — every run whose clears find room in the ring and whose
  batches pass over no attribution insert.
-/

namespace Ranvier

/-! ## Manager -/

/-- `AsyncPersistenceManager`: the queue, and the worker with its store. -/
structure AsyncPersistenceManager (n : ℕ) : Type where
  queue : QueueCounter n
  /-- how many of the operations drained are processed; the others are the worker's batch -/
  processed : ℕ := 0
  lastProcessedGeneration : UInt64 := 0
  persisted : Persisted

/-- The atomic steps: those of the queue, and `process_batch`. -/
inductive QueueAction (n : ℕ) : Type where
  | queue (a : CounterAction n)
  | process
  deriving DecidableEq

namespace AsyncPersistenceManager

variable {n : ℕ}

/-- An open store and an idle manager. -/
def start (ring : MpscRing PersistenceOp) (init : Persisted) : AsyncPersistenceManager n where
  queue := .booted ring
  persisted := init

/-- The worker's batch. -/
def batch (s : AsyncPersistenceManager n) : List PersistenceOp :=
  s.queue.run.popped.drop s.processed

/-- `try_enqueue` is not called for a clear, nor for an attribution insert if these are off; the
worker drains again when it has processed its batch. -/
def Allows (cfg : AsyncPersistenceConfig) (s : AsyncPersistenceManager n) : CounterAction n → Prop
  | .enqueue _ op =>
    op ≠ .clearAll ∧ (op.isLogRequest = true → cfg.attributionPersistenceEnabled = true)
  | .extractBatch => s.batch = []
  | .drainQueue => s.batch = []
  | _ => True

instance instDecidableAllows (cfg : AsyncPersistenceConfig) (s : AsyncPersistenceManager n)
    (a : CounterAction n) : Decidable (s.Allows cfg a) :=
  match a with
  | .enqueue _ op => inferInstanceAs (Decidable (op ≠ .clearAll ∧
      (op.isLogRequest = true → cfg.attributionPersistenceEnabled = true)))
  | .extractBatch => inferInstanceAs (Decidable (s.batch = []))
  | .drainQueue => inferInstanceAs (Decidable (s.batch = []))
  | .clear _ | .push _ | .advance _ _ | .undo _ | .count _ | .consume _ | .subtract =>
    .isTrue trivial

/-- One atomic step. -/
def step (cfg : AsyncPersistenceConfig) (s : AsyncPersistenceManager n) :
    QueueAction n → Option (AsyncPersistenceManager n)
  | .queue a =>
    if s.Allows cfg a then (s.queue.step cfg a).map fun queue => { s with queue := queue }
    else none
  | .process =>
    if s.queue.worker = none then
      let r := processBatch cfg s.queue.clearGeneration s.lastProcessedGeneration s.persisted
        s.batch
      some { s with
        processed := s.queue.run.popped.length, persisted := r.1, lastProcessedGeneration := r.2 }
    else none

/-- No call is in progress, the worker has processed its batch, and it finds nothing to drain. -/
structure Drained (s : AsyncPersistenceManager n) : Prop where
  calls : ∀ p, s.queue.calls p = .idle
  consumer : s.queue.run.consumer = .idle
  batch : s.batch = []
  empty : intptr (s.queue.run.ring.slotAt s.queue.run.ring.head).seq -
    intptr (sizeT (s.queue.run.ring.head + 1)) < 0

instance instDecidableDrained (s : AsyncPersistenceManager n) : Decidable s.Drained :=
  decidable_of_iff ((∀ p, s.queue.calls p = .idle) ∧ s.queue.run.consumer = .idle ∧
      s.batch = [] ∧ intptr (s.queue.run.ring.slotAt s.queue.run.ring.head).seq -
        intptr (sizeT (s.queue.run.ring.head + 1)) < 0)
    ⟨fun ⟨h₁, h₂, h₃, h₄⟩ => ⟨h₁, h₂, h₃, h₄⟩, fun ⟨h₁, h₂, h₃, h₄⟩ => ⟨h₁, h₂, h₃, h₄⟩⟩

/-- The slot that a producer looks at is not occupied. -/
def FindsRoom (run : RingRun PersistenceOp) : ProducerPc PersistenceOp → Prop
  | .check tail _ => 0 ≤ intptr (run.ring.slotAt tail).seq - intptr tail
  | _ => True

instance instDecidableFindsRoom (run : RingRun PersistenceOp) (pc : ProducerPc PersistenceOp) :
    Decidable (FindsRoom run pc) :=
  match pc with
  | .check tail _ => inferInstanceAs (Decidable (0 ≤ _ - intptr tail))
  | .idle | .claim _ _ | .reload _ | .write _ _ | .publish _ => .isTrue trivial

/-- A position is reserved only on a free slot, a clear finds room in the ring, and a batch
passes over no attribution insert. -/
def Keeps (s : AsyncPersistenceManager n) : QueueAction n → Prop
  | .queue (.advance p weak) =>
    s.queue.run.Apart (.advance p weak) ∧
      (s.queue.calls p = .clearing → FindsRoom s.queue.run (s.queue.run.producers p))
  | .process => s.queue.clearGeneration = s.lastProcessedGeneration ∨
      ∀ op ∈ s.batch.takeWhile (· ≠ .clearAll), op.isLogRequest = false
  | _ => True

instance instDecidableKeeps (s : AsyncPersistenceManager n) (a : QueueAction n) :
    Decidable (s.Keeps a) :=
  match a with
  | .queue (.advance p weak) =>
    have := RingRun.instDecidableApart s.queue.run (.advance p weak)
    have := instDecidableFindsRoom s.queue.run (s.queue.run.producers p)
    inferInstanceAs (Decidable (s.queue.run.Apart (.advance p weak) ∧
      (s.queue.calls p = .clearing → FindsRoom s.queue.run (s.queue.run.producers p))))
  | .process => inferInstanceAs (Decidable (_ ∨ ∀ op ∈ s.batch.takeWhile _, _))
  | .queue (.enqueue _ _) | .queue (.clear _) | .queue (.push _) | .queue (.undo _)
  | .queue (.count _) | .queue .extractBatch | .queue .drainQueue | .queue (.consume _)
  | .queue .subtract => .isTrue trivial

end AsyncPersistenceManager

/-! ## The history of the ring -/

section History

variable {τ : Type}

/-- The item that a step in `try_push` reserves a position for. -/
def claimedItem : ProducerPc τ → ProducerPc τ → List τ
  | .claim _ item, .write _ _ => [item]
  | _, _ => []

/-- The position that a step in `try_push` publishes. -/
def publishedAt : ProducerPc τ → List ℕ
  | .publish tail => [tail]
  | _ => []

/-- The item that a producer has not yet written. -/
def ProducerPc.item : ProducerPc τ → Option τ
  | .check _ item => some item
  | .claim _ item => some item
  | .reload item => some item
  | .write _ item => some item
  | _ => none

variable {run run' : RingRun τ} {p : ℕ}

theorem history_of_advance {weak : Bool} (h : run.step (.advance p weak) = some run') :
    run'.reserved = run.reserved ++ claimedItem (run.producers p) (run'.producers p) ∧
      run'.succeeded = run.succeeded ++ publishedAt (run.producers p) := by
  rw [RingRun.step] at h
  cases hpc : run.producers p with
  | idle =>
    rw [hpc] at h
    cases h
  | check tail item =>
    rw [hpc, RingRun.produce] at h
    split_ifs at h <;> obtain rfl := Option.some.inj h <;>
      exact ⟨(List.append_nil _).symm, (List.append_nil _).symm⟩
  | claim tail item =>
    rw [hpc, RingRun.produce] at h
    split_ifs at h
    · obtain rfl := Option.some.inj h
      refine ⟨?_, (List.append_nil _).symm⟩
      dsimp only [RingRun.setPc]
      rw [Function.update_self]
      rfl
    · obtain rfl := Option.some.inj h
      refine ⟨?_, (List.append_nil _).symm⟩
      dsimp only [RingRun.setPc]
      rw [Function.update_self]
      exact (List.append_nil _).symm
  | reload item =>
    rw [hpc] at h
    obtain rfl := Option.some.inj h
    exact ⟨(List.append_nil _).symm, (List.append_nil _).symm⟩
  | write tail item =>
    rw [hpc] at h
    obtain rfl := Option.some.inj h
    exact ⟨(List.append_nil _).symm, (List.append_nil _).symm⟩
  | publish tail =>
    rw [hpc] at h
    obtain rfl := Option.some.inj h
    exact ⟨(List.append_nil _).symm, rfl⟩

/-- The consumer changes neither. -/
theorem history_of_consume {moved : τ} (h : run.step (.consume moved) = some run') :
    run'.reserved = run.reserved ∧ run'.succeeded = run.succeeded := by
  rw [RingRun.step] at h
  cases hpc : run.consumer with
  | idle =>
    rw [hpc] at h
    cases h
  | scan left =>
    rw [hpc, RingRun.consume] at h
    split_ifs at h <;> obtain rfl := Option.some.inj h <;> exact ⟨rfl, rfl⟩
  | take left =>
    rw [hpc] at h
    obtain rfl := Option.some.inj h
    exact ⟨rfl, rfl⟩
  | release left =>
    rw [hpc] at h
    obtain rfl := Option.some.inj h
    exact ⟨rfl, rfl⟩

end History

/-! ## The steps of the queue -/

namespace QueueCounter

variable {n : ℕ} {s s' : QueueCounter n} {cfg : AsyncPersistenceConfig}

/-- A shard goes on outside of `try_push`. -/
structure Outside (s s' : QueueCounter n) (p : Fin n) (call : QueueCall) : Prop where
  run : s'.run = s.run
  calls : s'.calls = Function.update s.calls p call
  before : s.calls p = .idle ∨ s.calls p = .undoing ∨ ∃ t, s.calls p = .counting t
  after : call = .idle ∨ call = .undoing ∨ (∃ op, call = .reserved op) ∨ call = .bumped
  generation : s'.clearGeneration ≠ s.clearGeneration → call = .bumped

/-- A shard calls `try_push`. -/
structure Pushes (s s' : QueueCounter n) (p : Fin n) (item : PersistenceOp) (call : QueueCall) :
    Prop where
  run : s.run.step (.push p item) = some s'.run
  calls : s'.calls = Function.update s.calls p call
  call : s.calls p = .reserved item ∧ call = .enqueuing ∨
    s.calls p = .bumped ∧ item = .clearAll ∧ call = .clearing
  generation : s'.clearGeneration = s.clearGeneration

/-- A shard goes on in `try_push`. -/
structure Advances (s s' : QueueCounter n) (p : Fin n) (weak : Bool) : Prop where
  run : s.run.step (.advance p weak) = some s'.run
  calls : s'.calls = Function.update s.calls p
    ((s.calls p).afterPush (s.run.producers p) (s'.run.producers p))
  generation : s'.clearGeneration = s.clearGeneration

/-- The worker goes on. -/
structure Works (s s' : QueueCounter n) : Prop where
  run : s'.run = s.run ∨ (∃ maxCount, s.run.step (.drain maxCount) = some s'.run) ∨
    ∃ moved, s.run.step (.consume moved) = some s'.run
  calls : s'.calls = s.calls
  generation : s'.clearGeneration = s.clearGeneration

theorem works_of_beginDrain {maxCount : ℕ} (hstep : s.beginDrain maxCount = some s') :
    Works s s' := by
  rw [beginDrain] at hstep
  split_ifs at hstep
  obtain ⟨s₁, hring, rfl⟩ := Option.map_eq_some_iff.mp hstep
  obtain ⟨run, hrun, rfl⟩ := Option.map_eq_some_iff.mp hring
  exact ⟨.inr (.inl ⟨maxCount, hrun⟩), rfl, rfl⟩

/-- **What a step of the queue does.** -/
theorem step_cases {a : CounterAction n} (hstep : s.step cfg a = some s') :
    (∃ p call, Outside s s' p call) ∨ (∃ p item call, Pushes s s' p item call) ∨
      (∃ p weak, a = .advance p weak ∧ Advances s s' p weak) ∨ Works s s' := by
  cases a with
  | enqueue p op =>
    rw [step] at hstep
    split_ifs at hstep with hidle
    obtain rfl := Option.some.inj hstep
    rw [tryEnqueue]
    split_ifs
    · exact .inl ⟨p, .undoing, rfl, rfl, .inl hidle, .inr (.inl rfl), absurd rfl⟩
    · exact .inl ⟨p, .reserved op, rfl, rfl, .inl hidle, .inr (.inr (.inl ⟨op, rfl⟩)), absurd rfl⟩
  | clear p =>
    rw [step] at hstep
    split_ifs at hstep with hidle
    obtain rfl := Option.some.inj hstep
    exact .inl ⟨p, .bumped, rfl, rfl, .inl hidle, .inr (.inr (.inr rfl)), fun _ => rfl⟩
  | push p =>
    rw [step] at hstep
    split at hstep
    · next op hcall =>
      obtain ⟨s₁, hring, rfl⟩ := Option.map_eq_some_iff.mp hstep
      obtain ⟨run, hrun, rfl⟩ := Option.map_eq_some_iff.mp hring
      exact .inr (.inl ⟨p, op, .enqueuing, hrun, rfl, .inl ⟨hcall, rfl⟩, rfl⟩)
    · next hcall =>
      obtain ⟨s₁, hring, rfl⟩ := Option.map_eq_some_iff.mp hstep
      obtain ⟨run, hrun, rfl⟩ := Option.map_eq_some_iff.mp hring
      exact .inr (.inl ⟨p, .clearAll, .clearing, hrun, rfl, .inr ⟨hcall, rfl, rfl⟩, rfl⟩)
    · cases hstep
  | advance p weak =>
    obtain ⟨run, hrun, rfl⟩ := advance_eq_some hstep
    exact .inr (.inr (.inl ⟨p, weak, rfl, hrun, rfl, rfl⟩))
  | undo p =>
    rw [step] at hstep
    split_ifs at hstep with hundoing
    obtain rfl := Option.some.inj hstep
    exact .inl ⟨p, .idle, rfl, rfl, .inr (.inl hundoing), .inl rfl, absurd rfl⟩
  | count p =>
    rw [step] at hstep
    split at hstep
    · next t hcounting =>
      obtain rfl := Option.some.inj hstep
      exact .inl ⟨p, .idle, rfl, rfl, .inr (.inr ⟨t, hcounting⟩), .inl rfl, absurd rfl⟩
    · cases hstep
  | extractBatch => exact .inr (.inr (.inr (works_of_beginDrain hstep)))
  | drainQueue => exact .inr (.inr (.inr (works_of_beginDrain hstep)))
  | consume moved =>
    rw [step] at hstep
    split_ifs at hstep
    obtain ⟨run, hrun, rfl⟩ := Option.map_eq_some_iff.mp hstep
    exact .inr (.inr (.inr ⟨.inr (.inr ⟨moved, hrun⟩), rfl, rfl⟩))
  | subtract =>
    rw [step] at hstep
    split at hstep
    · split_ifs at hstep
      obtain rfl := Option.some.inj hstep
      exact .inr (.inr (.inr ⟨.inl rfl, rfl, rfl⟩))
    · cases hstep

/-- The ring is sound, every position reserved is published or has an owner among the shards, and
a clear in `try_push` is a clear. -/
structure Wired (s : QueueCounter n) : Prop where
  sound : s.run.Sound
  paired : ∀ p : Fin n, (s.calls p).Paired (s.run.producers p)
  owned : ∀ x < s.run.ring.tail, x ∈ s.run.succeeded ∨ ∃ p : Fin n, (s.run.producers p).Owns x
  carries : ∀ p : Fin n, s.calls p = .clearing →
    ∀ item, (s.run.producers p).item = some item → item = .clearAll

theorem wired_booted {initial : PersistenceOp} {capacity : ℕ} {ring : MpscRing PersistenceOp}
    (hcreate : MpscRing.create initial capacity = some ring) :
    Wired (booted ring : QueueCounter n) := by
  refine ⟨RingRun.Sound.start hcreate, fun p => rfl, fun x hx => ?_, fun p hcall => by cases hcall⟩
  have htail : ring.tail = 0 := by
    rw [MpscRing.create] at hcreate
    split at hcreate
    · cases hcreate
    · obtain rfl := Option.some.inj hcreate
      rfl
  have hx : x < ring.tail := hx
  omega

theorem update_calls_cases {calls calls' : Fin n → QueueCall} {p : Fin n} {call : QueueCall}
    (h : calls' = Function.update calls p call) (q : Fin n) :
    q = p ∧ calls' q = call ∨ q ≠ p ∧ calls' q = calls q := by
  by_cases hq : q = p
  · refine .inl ⟨hq, ?_⟩
    rw [h, hq, Function.update_self]
  · refine .inr ⟨hq, ?_⟩
    rw [h, Function.update_of_ne hq]

theorem Wired.outside (h : Wired s) {p : Fin n} {call : QueueCall} (hstep : Outside s s' p call) :
    Wired s' := by
  have hpc : s.run.producers p = .idle := by
    have hpaired := h.paired p
    rcases hstep.before with hb | hb | ⟨t, hb⟩ <;> rwa [hb] at hpaired
  have hcall : call.Paired (.idle : ProducerPc PersistenceOp) ∧ call ≠ .clearing := by
    rcases hstep.after with rfl | rfl | ⟨op, rfl⟩ | rfl <;> exact ⟨rfl, nofun⟩
  refine ⟨hstep.run ▸ h.sound, fun q => ?_, hstep.run ▸ h.owned, fun q hq => ?_⟩
  · rw [hstep.run]
    rcases update_calls_cases hstep.calls q with ⟨rfl, hq⟩ | ⟨-, hq⟩
    · rw [hq, hpc]
      exact hcall.1
    · rw [hq]
      exact h.paired q
  · rw [hstep.run]
    rcases update_calls_cases hstep.calls q with ⟨rfl, hq'⟩ | ⟨-, hq'⟩
    · exact absurd (hq'.symm.trans hq) hcall.2
    · exact h.carries q (hq' ▸ hq)

theorem Wired.pushes (h : Wired s) {p : Fin n} {item : PersistenceOp} {call : QueueCall}
    (hstep : Pushes s s' p item call) : Wired s' := by
  have hpc : s.run.producers p = .idle := by
    have hpaired := h.paired p
    rcases hstep.call with ⟨hb, -⟩ | ⟨hb, -⟩ <;> rwa [hb] at hpaired
  have hsound : s'.run.Sound := h.sound.step (a := .push p item) trivial hstep.run
  have hrun := eq_setPc_of_push hstep.run
  have hproducers : ∀ q : Fin n, q = p ∧
      s'.run.producers q = .check s.run.ring.tail item ∨
        q ≠ p ∧ s'.run.producers q = s.run.producers q := by
    intro q
    rw [hrun]
    by_cases hq : q = p
    · exact .inl ⟨hq, by rw [hq, RingRun.setPc_self]⟩
    · exact .inr ⟨hq, RingRun.setPc_of_ne _ _ (fun heq => hq (Fin.ext heq))⟩
  refine ⟨hsound, fun q => ?_, fun x hx => ?_, fun q hq item' hitem' => ?_⟩
  · rcases hproducers q with ⟨rfl, hq⟩ | ⟨hne, hq⟩
    · rw [hq, hstep.calls, Function.update_self]
      rcases hstep.call with ⟨-, rfl⟩ | ⟨-, -, rfl⟩ <;> exact nofun
    · rw [hq, hstep.calls, Function.update_of_ne hne]
      exact h.paired q
  · have hx : x < s.run.ring.tail := by
      rw [hrun] at hx
      exact hx
    rcases h.owned x hx with hmem | ⟨q, hown⟩
    · exact .inl (by rw [hrun]; exact hmem)
    · rcases hproducers q with ⟨rfl, -⟩ | ⟨-, hq⟩
      · rw [hpc] at hown
        exact hown.elim
      · exact .inr ⟨q, hq ▸ hown⟩
  · rcases hproducers q with ⟨rfl, hpc'⟩ | ⟨hne, hpc'⟩
    · rw [hpc'] at hitem'
      rw [hstep.calls, Function.update_self] at hq
      rcases hstep.call with ⟨-, hcall⟩ | ⟨-, hitem, -⟩
      · exact nomatch hcall.symm.trans hq
      · exact (Option.some.inj hitem').symm.trans hitem
    · rw [hpc'] at hitem'
      rw [hstep.calls, Function.update_of_ne hne] at hq
      exact h.carries q hq item' hitem'

/-- A call in `try_push` that stays there or leaves. -/
theorem eq_clearing_of_afterPush {call : QueueCall} {pc pc' : ProducerPc PersistenceOp}
    (h : call.afterPush pc pc' = .clearing) : call = .clearing := by
  rw [QueueCall.afterPush] at h
  split at h
  · next result _ => cases call <;> cases result <;> cases h
  · exact h

/-- A producer keeps its item until it is written, and its position until it is published. -/
theorem pushStep_keeps {run : RingRun PersistenceOp} {pc pc' : ProducerPc PersistenceOp}
    {tail : ℕ} (hstep : PushStep run pc pc' tail) :
    (∀ item, pc'.item = some item → pc.item = some item) ∧
      (∀ x, pc.Owns x → pc'.Owns x ∨ x ∈ publishedAt pc) ∧
      ∀ x, run.ring.tail ≤ x → x < tail → run.ring.tail + 1 ≤ 2 ^ 63 → pc'.Owns x := by
  cases hstep with
  | found | stale | lost | reloaded =>
    exact ⟨fun _ => id, fun _ h => h.elim, fun _ h h' => absurd h (by omega)⟩
  | refused => exact ⟨nofun, fun _ h => h.elim, fun _ h h' => absurd h (by omega)⟩
  | claimed item =>
    refine ⟨fun _ => id, fun _ h => h.elim, fun x h h' hbound => ?_⟩
    rw [sizeT_of_lt hbound] at h'
    exact (by omega : x = run.ring.tail)
  | written position item =>
    exact ⟨nofun, fun _ h => .inl h, fun _ h h' => absurd h (by omega)⟩
  | published position =>
    exact ⟨nofun, fun _ h => .inr (List.mem_singleton.mpr h), fun _ h h' => absurd h (by omega)⟩

theorem Wired.advances (h : Wired s) {p : Fin n} {weak : Bool} (hstep : Advances s s' p weak)
    (hapart : s.run.Apart (.advance p weak)) : Wired s' := by
  have hsound : s'.run.Sound := h.sound.step hapart hstep.run
  have hbound := h.sound.bound
  obtain ⟨hpush, hothers, -⟩ := pushStep_of_advance hstep.run
  obtain ⟨-, hsucceeded⟩ := history_of_advance hstep.run
  obtain ⟨hitem, howns, hnew⟩ := pushStep_keeps hpush
  have hproducers : ∀ q : Fin n, q ≠ p → s'.run.producers q = s.run.producers q :=
    fun q hq => hothers q fun heq => hq (Fin.ext heq)
  refine ⟨hsound, fun q => ?_, fun x hx => ?_, fun q hq item hq' => ?_⟩
  · rcases update_calls_cases hstep.calls q with ⟨rfl, hq⟩ | ⟨hne, hq⟩
    · rw [hq]
      exact (QueueCall.afterPush_spec (by omega) (h.paired q) hpush).1
    · rw [hq, hproducers q hne]
      exact h.paired q
  · rw [hsucceeded, List.mem_append]
    by_cases hlt : x < s.run.ring.tail
    · rcases h.owned x hlt with hmem | ⟨q, hown⟩
      · exact .inl (.inl hmem)
      · by_cases hq : q = p
        · rcases howns x (hq ▸ hown) with hown' | hmem
          · exact .inr ⟨p, hown'⟩
          · exact .inl (.inr hmem)
        · exact .inr ⟨q, (hproducers q hq).symm ▸ hown⟩
    · exact .inr ⟨p, hnew x (by omega) hx (by omega)⟩
  · rcases update_calls_cases hstep.calls q with ⟨rfl, hcall⟩ | ⟨hne, hcall⟩
    · exact h.carries q (eq_clearing_of_afterPush (hcall.symm.trans hq)) item (hitem item hq')
    · rw [hproducers q hne] at hq'
      exact h.carries q (hcall.symm.trans hq) item hq'

theorem Works.same (h : Works s s') (hsound : s.run.Sound) :
    s'.run.Sound ∧ s'.run.producers = s.run.producers ∧ s'.run.ring.tail = s.run.ring.tail ∧
      s'.run.reserved = s.run.reserved ∧ s'.run.succeeded = s.run.succeeded ∧
      s.run.popped.length ≤ s'.run.popped.length := by
  rcases h.run with heq | ⟨maxCount, hdrain⟩ | ⟨moved, hconsume⟩
  · rw [heq]
    exact ⟨hsound, rfl, rfl, rfl, rfl, le_rfl⟩
  · obtain ⟨-, c, heq⟩ := eq_of_drain hdrain
    refine ⟨hsound.step (a := .drain maxCount) trivial hdrain, ?_⟩
    rw [heq]
    exact ⟨rfl, rfl, rfl, rfl, le_rfl⟩
  · obtain ⟨hproducers, htail, -, -, hpopped⟩ := sameProducers_of_consume hsound hconsume
    obtain ⟨hreserved, hsucceeded⟩ := history_of_consume hconsume
    exact ⟨hsound.step (a := .consume moved) trivial hconsume, hproducers, htail, hreserved,
      hsucceeded, hpopped⟩

theorem Wired.works (h : Wired s) (hstep : Works s s') : Wired s' := by
  obtain ⟨hsound, hproducers, htail, -, hsucceeded, -⟩ := hstep.same h.sound
  refine ⟨hsound, fun p => ?_, fun x hx => ?_, fun p hp item hitem => ?_⟩
  · rw [hstep.calls, hproducers]
    exact h.paired p
  · rw [htail] at hx
    rw [hproducers, hsucceeded]
    exact h.owned x hx
  · rw [hstep.calls] at hp
    rw [hproducers] at hitem
    exact h.carries p hp item hitem

end QueueCounter

/-! ## Invariant -/

/-- The call is to push a clear, and it has no position yet. -/
def QueueCall.clearComing {τ : Type} : QueueCall → ProducerPc τ → Bool
  | .bumped, _ => true
  | .clearing, .check _ _ => true
  | .clearing, .claim _ _ => true
  | .clearing, .reload _ => true
  | _, _ => false

namespace QueueCounter

variable {n : ℕ} {s s' : QueueCounter n} {cfg : AsyncPersistenceConfig}

/-- Some shard is to push a clear. -/
def ClearComing (s : QueueCounter n) : Prop :=
  ∃ p, (s.calls p).clearComing (s.run.producers p) = true

/-- A clear that finds room gets a position or is still to get one. -/
theorem clearComing_afterPush {run : RingRun PersistenceOp} {call : QueueCall}
    {pc pc' : ProducerPc PersistenceOp} {tail : ℕ} (hstep : PushStep run pc pc' tail)
    (hpaired : call.Paired pc) (hcarries : call = .clearing → ∀ item, pc.item = some item →
      item = .clearAll) (hroom : call = .clearing → AsyncPersistenceManager.FindsRoom run pc)
    (hcoming : call.clearComing pc = true) :
    (call.afterPush pc pc').clearComing pc' = true ∨ .clearAll ∈ claimedItem pc pc' := by
  have hcall : call = .clearing := by
    cases call with
    | bumped => cases hstep <;> cases hpaired
    | clearing => rfl
    | idle | reserved | enqueuing | undoing | counting => cases hcoming
  subst hcall
  cases hstep with
  | found | stale | lost | reloaded => exact .inl rfl
  | refused position item full => exact absurd full (not_lt.mpr (hroom rfl))
  | claimed item => exact .inr (List.mem_singleton.mpr (hcarries rfl item rfl).symm)
  | written | published => cases hcoming

/-- What a step does to the operations with a position, and to the clears without one. -/
structure Feeds (s s' : QueueCounter n) (added : List PersistenceOp) : Prop where
  wired : Wired s'
  reserved : s'.run.reserved = s.run.reserved ++ added
  popped : s.run.popped.length ≤ s'.run.popped.length
  coming : ClearComing s → ClearComing s' ∨ .clearAll ∈ added
  generation : s'.clearGeneration ≠ s.clearGeneration → ClearComing s'

/-- The clears without a position, when one shard goes on. -/
theorem clearComing_of_shard (p : Fin n) {added : List PersistenceOp}
    (hothers : ∀ q, q ≠ p → s'.calls q = s.calls q ∧ s'.run.producers q = s.run.producers q)
    (hp : (s.calls p).clearComing (s.run.producers p) = true →
      (s'.calls p).clearComing (s'.run.producers p) = true ∨ .clearAll ∈ added)
    (hcoming : ClearComing s) : ClearComing s' ∨ .clearAll ∈ added := by
  obtain ⟨q, hq⟩ := hcoming
  by_cases hqp : q = p
  · rw [hqp] at hq
    exact (hp hq).imp_left fun h => ⟨p, h⟩
  · obtain ⟨hcall, hpc⟩ := hothers q hqp
    exact .inl ⟨q, by rw [hcall, hpc]; exact hq⟩

theorem feeds_outside (h : Wired s) {p : Fin n} {call : QueueCall} (hstep : Outside s s' p call) :
    Feeds s s' [] := by
  refine ⟨h.outside hstep, by rw [hstep.run, List.append_nil], by rw [hstep.run],
    clearComing_of_shard p (fun q hq => ⟨?_, by rw [hstep.run]⟩) fun hcoming => ?_,
    fun hne => ⟨p, ?_⟩⟩
  · rw [hstep.calls, Function.update_of_ne hq]
  · rcases hstep.before with hb | hb | ⟨t, hb⟩ <;> rw [hb] at hcoming <;> cases hcoming
  · rw [hstep.calls, Function.update_self, hstep.generation hne]
    rfl

theorem feeds_pushes (h : Wired s) {p : Fin n} {item : PersistenceOp} {call : QueueCall}
    (hstep : Pushes s s' p item call) : Feeds s s' [] := by
  have hrun := eq_setPc_of_push hstep.run
  refine ⟨h.pushes hstep, by rw [hrun, List.append_nil]; rfl, by rw [hrun]; exact le_rfl,
    clearComing_of_shard p (fun q hq => ⟨?_, ?_⟩) fun hcoming => ?_,
    fun hne => absurd hstep.generation hne⟩
  · rw [hstep.calls, Function.update_of_ne hq]
  · rw [hrun]
    exact RingRun.setPc_of_ne _ _ fun heq => hq (Fin.ext heq)
  · rw [hstep.calls, Function.update_self, hrun, RingRun.setPc_self]
    rcases hstep.call with ⟨hb, -⟩ | ⟨-, -, rfl⟩
    · rw [hb] at hcoming
      cases hcoming
    · exact .inl rfl

theorem feeds_advances (h : Wired s) {p : Fin n} {weak : Bool} (hstep : Advances s s' p weak)
    (hapart : s.run.Apart (.advance p weak))
    (hroom : s.calls p = .clearing →
      AsyncPersistenceManager.FindsRoom s.run (s.run.producers p)) :
    Feeds s s' (claimedItem (s.run.producers p) (s'.run.producers p)) := by
  obtain ⟨hpush, hothers, hsame⟩ := pushStep_of_advance hstep.run
  refine ⟨h.advances hstep hapart, (history_of_advance hstep.run).1, by rw [hsame.popped],
    clearComing_of_shard p (fun q hq => ⟨?_, ?_⟩) fun hcoming => ?_,
    fun hne => absurd hstep.generation hne⟩
  · rw [hstep.calls, Function.update_of_ne hq]
  · exact hothers q fun heq => hq (Fin.ext heq)
  · rw [hstep.calls, Function.update_self]
    exact clearComing_afterPush hpush (h.paired p) (h.carries p) hroom hcoming

theorem feeds_works (h : Wired s) (hstep : Works s s') : Feeds s s' [] := by
  obtain ⟨-, hproducers, -, hreserved, -, hpopped⟩ := hstep.same h.sound
  refine ⟨h.works hstep, by rw [hreserved, List.append_nil], hpopped, fun hcoming => .inl ?_,
    fun hne => absurd hstep.generation hne⟩
  obtain ⟨p, hp⟩ := hcoming
  exact ⟨p, by rw [hstep.calls, hproducers]; exact hp⟩

end QueueCounter

namespace AsyncPersistenceManager

section Invariant

variable {n : ℕ} {cfg : AsyncPersistenceConfig} {init : Persisted}
  {s s' : AsyncPersistenceManager n}

/-- A clear is in the worker's batch, in the ring or on its way there. -/
def PendingClear (s : AsyncPersistenceManager n) : Prop :=
  .clearAll ∈ s.queue.run.reserved.drop s.processed ∨ s.queue.ClearComing

/-- The operations that the worker has processed. -/
def done (s : AsyncPersistenceManager n) : List PersistenceOp :=
  s.queue.run.reserved.take s.processed

/-- The attribution rows are as the operations processed leave them, and so are the tables unless
a clear is still to come. -/
structure QueueInv (cfg : AsyncPersistenceConfig) (init : Persisted)
    (s : AsyncPersistenceManager n) : Prop where
  wired : s.queue.Wired
  processed_le : s.processed ≤ s.queue.run.popped.length
  log : s.persisted.log = (init.applyAll cfg s.done).log
  tables : s.persisted.tables = (init.applyAll cfg s.done).tables ∨ s.PendingClear
  pending : s.queue.clearGeneration ≠ s.lastProcessedGeneration → s.PendingClear

theorem queueInv_start {initial : PersistenceOp} {ring : MpscRing PersistenceOp}
    (hcreate : MpscRing.create initial cfg.maxQueueDepth = some ring) :
    QueueInv cfg init (start ring init : AsyncPersistenceManager n) :=
  ⟨QueueCounter.wired_booted hcreate, le_rfl, rfl, .inl rfl, fun h => absurd rfl h⟩

theorem QueueInv.popped_le (hinv : QueueInv cfg init s) :
    s.queue.run.popped.length ≤ s.queue.run.reserved.length := by
  have hlength := congrArg List.length hinv.wired.sound.inOrder
  rw [List.length_take] at hlength
  omega

/-- What was processed and the batch are the first operations with a position. -/
theorem QueueInv.done_append_batch (hinv : QueueInv cfg init s) :
    s.done ++ s.batch = s.queue.run.popped := by
  have htake : s.done = s.queue.run.popped.take s.processed := by
    rw [done, hinv.wired.sound.inOrder, List.take_take, min_eq_left hinv.processed_le]
  rw [htake, batch, List.take_append_drop]

/-- A step of the queue. -/
theorem QueueInv.feed (hinv : QueueInv cfg init s) {queue : QueueCounter n}
    {added : List PersistenceOp} (hfeeds : QueueCounter.Feeds s.queue queue added) :
    QueueInv cfg init { s with queue := queue } := by
  have hle : s.processed ≤ s.queue.run.reserved.length := hinv.processed_le.trans hinv.popped_le
  have hdone : done { s with queue := queue } = s.done := by
    rw [done, done]
    dsimp only
    rw [hfeeds.reserved, List.take_append_of_le_length hle]
  have hpend : s.PendingClear → PendingClear { s with queue := queue } := by
    intro hpending
    rw [PendingClear]
    dsimp only
    rw [hfeeds.reserved, List.drop_append_of_le_length hle, List.mem_append]
    rcases hpending with hmem | hcoming
    · exact .inl (.inl hmem)
    · rcases hfeeds.coming hcoming with hcoming | hmem
      · exact .inr hcoming
      · exact .inl (.inr hmem)
  refine ⟨hfeeds.wired, hinv.processed_le.trans hfeeds.popped, ?_, ?_, fun hne => ?_⟩
  · rw [hdone]
    exact hinv.log
  · rw [hdone]
    exact hinv.tables.imp_right hpend
  · by_cases hsame : queue.clearGeneration = s.queue.clearGeneration
    · exact hpend (hinv.pending (hsame ▸ hne))
    · exact .inr (hfeeds.generation hsame)

/-- What a batch passes over in front of a clear is no attribution insert. -/
theorem log_effective {batch : List PersistenceOp} {skipping : Bool} (l : AttributionLog)
    (hkeep : skipping = false ∨
      ∀ op ∈ batch.takeWhile (· ≠ .clearAll), op.isLogRequest = false) :
    (effective skipping batch).foldl (AttributionLog.apply cfg) l =
      batch.foldl (AttributionLog.apply cfg) l := by
  rcases hkeep with rfl | hno
  · rfl
  · cases skipping with
    | false => rfl
    | true =>
      have hsplit := @List.takeWhile_append_dropWhile _ (· ≠ PersistenceOp.clearAll) batch
      rw [effective, if_pos rfl]
      conv_rhs => rw [← hsplit]
      rw [List.foldl_append, log_of_no_logRequest hno]

/-- The worker processes its batch. -/
theorem QueueInv.process (hinv : QueueInv cfg init s) (hkeep : s.Keeps .process) :
    QueueInv cfg init { s with
      processed := s.queue.run.popped.length
      persisted := (processBatch cfg s.queue.clearGeneration s.lastProcessedGeneration s.persisted
        s.batch).1
      lastProcessedGeneration := (processBatch cfg s.queue.clearGeneration
        s.lastProcessedGeneration s.persisted s.batch).2 } := by
  have hbatch : s.queue.run.reserved.drop s.processed =
      s.batch ++ s.queue.run.reserved.drop s.queue.run.popped.length := by
    have hprefix := List.take_append_drop s.queue.run.popped.length s.queue.run.reserved
    rw [← hinv.wired.sound.inOrder] at hprefix
    conv_lhs => rw [← hprefix]
    rw [List.drop_append_of_le_length hinv.processed_le, batch]
  have hdone : s.queue.run.reserved.take s.queue.run.popped.length = s.done ++ s.batch := by
    rw [hinv.done_append_batch, ← hinv.wired.sound.inOrder]
  -- a clear that the batch does not hold is still on its way
  have hrest : .clearAll ∉ s.batch → s.PendingClear →
      .clearAll ∈ s.queue.run.reserved.drop s.queue.run.popped.length ∨ s.queue.ClearComing := by
    rintro hno (h | h)
    · rw [hbatch] at h
      exact .inl ((List.mem_append.mp h).resolve_left hno)
    · exact .inr h
  rw [processBatch_eq]
  refine ⟨hinv.wired, le_rfl, ?_, ?_, ?_⟩
  · rw [done]
    dsimp only
    rw [hdone, applyAll_log, applyAll_append, applyAll_log _ s.batch, log_effective, hinv.log]
    rcases hkeep with h | h
    · exact .inl (by simp [h])
    · exact .inr h
  · rw [done]
    dsimp only
    rw [hdone, applyAll_tables, applyAll_append, applyAll_tables _ s.batch]
    by_cases hclear : .clearAll ∈ s.batch
    · exact .inl (tables_effective hclear _ _ _)
    -- skipped without a clear in the batch: the pending clear will wipe the tables
    by_cases hgen : s.queue.clearGeneration = s.lastProcessedGeneration
    · refine hinv.tables.imp ?_ (hrest hclear)
      intro htables
      rw [htables, effective, if_neg (by simp [hgen])]
    · exact .inr (hrest hclear (hinv.pending hgen))
  · intro hne
    by_cases hclear : .clearAll ∈ s.batch
    · simp only [hclear, if_true] at hne
      exact absurd rfl hne
    · simp only [hclear, if_false] at hne
      exact hrest hclear (hinv.pending hne)

/-- **One step** of a producer or the worker. -/
theorem QueueInv.step {a : QueueAction n} (hinv : QueueInv cfg init s) (hkeep : s.Keeps a)
    (hstep : s.step cfg a = some s') : QueueInv cfg init s' := by
  cases a with
  | queue a =>
    rw [AsyncPersistenceManager.step] at hstep
    split_ifs at hstep
    obtain ⟨queue, hqueue, rfl⟩ := Option.map_eq_some_iff.mp hstep
    rcases QueueCounter.step_cases hqueue with ⟨p, call, h⟩ | ⟨p, item, call, h⟩ |
      ⟨p, weak, rfl, h⟩ | h
    · exact hinv.feed (QueueCounter.feeds_outside hinv.wired h)
    · exact hinv.feed (QueueCounter.feeds_pushes hinv.wired h)
    · exact hinv.feed (QueueCounter.feeds_advances hinv.wired h hkeep.1 hkeep.2)
    · exact hinv.feed (QueueCounter.feeds_works hinv.wired h)
  | process =>
    rw [AsyncPersistenceManager.step] at hstep
    split_ifs at hstep
    obtain rfl := Option.some.inj hstep
    exact hinv.process hkeep

/-- When no call is in progress, a ring that looks empty is: everything with a position was
drained. -/
theorem QueueInv.popped_eq (hinv : QueueInv cfg init s) (hdrained : s.Drained) :
    s.queue.run.popped = s.queue.run.reserved := by
  have hsound := hinv.wired.sound
  have hbound := hsound.bound
  have hhead := hsound.head
  have hpopped : s.queue.run.popped.length = s.queue.run.ring.head := by
    have hconsumer := hsound.consumer
    rwa [hdrained.consumer] at hconsumer
  have htail : s.queue.run.ring.tail ≤ s.queue.run.ring.head := by
    by_contra hlt
    -- the slot at the head is published
    have hmem : s.queue.run.ring.head ∈ s.queue.run.succeeded := by
      refine (hinv.wired.owned _ (by omega)).resolve_right ?_
      rintro ⟨p, hown⟩
      have hpaired := hinv.wired.paired p
      rw [hdrained.calls p] at hpaired
      rw [show s.queue.run.producers p = .idle from hpaired] at hown
      exact hown
    have hempty := hdrained.empty
    rw [hsound.published _ hmem le_rfl, sizeT_of_lt (by omega), sub_self] at hempty
    exact lt_irrefl _ hempty
  have hlength := hsound.length
  rw [hsound.inOrder, List.take_of_length_le (by omega)]

/-- **Every run.** When the queue is drained, the store is as the operations that
got into the ring leave it one after another. -/
theorem drained_store_eq {initial : PersistenceOp} {ring : MpscRing PersistenceOp}
    (hcreate : MpscRing.create initial cfg.maxQueueDepth = some ring)
    {actions : List (QueueAction n)}
    (hexec : exec (step cfg) (start ring init) actions = some s)
    (hmeets : Meets (step cfg) Keeps (start ring init) actions) (hdrained : s.Drained) :
    s.persisted = init.applyAll cfg s.queue.run.reserved := by
  have hinv : QueueInv cfg init s :=
    @exec_invariant _ _ (step cfg) Keeps (fun _ s => QueueInv cfg init s)
      (fun hok hstep hinv => hinv.step hok hstep) [] _ _ _ hmeets hexec (queueInv_start hcreate)
  have hreserved := hinv.popped_eq hdrained
  have hdone : s.done = s.queue.run.reserved := by
    have happend := hinv.done_append_batch
    rw [hdrained.batch, List.append_nil] at happend
    exact happend.trans hreserved
  have hnone : ¬s.PendingClear := by
    rintro (h | ⟨p, h⟩)
    · have hbatch := hdrained.batch
      rw [batch, hreserved] at hbatch
      rw [hbatch] at h
      cases h
    · rw [hdrained.calls p] at h
      cases h
  rw [← hdone]
  calc s.persisted = ⟨s.persisted.tables, s.persisted.log⟩ := rfl
    _ = ⟨(init.applyAll cfg s.done).tables, (init.applyAll cfg s.done).log⟩ := by
      rw [hinv.tables.resolve_right hnone, hinv.log]
    _ = init.applyAll cfg s.done := rfl

end Invariant

/-- The only shard. -/
def onlyShard : Fin 1 := Fin.last 0

/-- A manager of one shard with an empty store and an empty ring of the requested depth. -/
def idleManager (maxQueueDepth : ℕ) : AsyncPersistenceManager 1 :=
  start ((MpscRing.create .clearAll maxQueueDepth).getD ⟨0, 0, fun _ => ⟨0, .clearAll⟩, 0, 0⟩) {}

/-- The shard queues an operation. -/
def enqueued (op : PersistenceOp) : List (QueueAction 1) :=
  [QueueAction.queue (.enqueue onlyShard op), .queue (.push onlyShard)] ++
    List.replicate 4 (QueueAction.queue (.advance onlyShard false))

/-- It queues a clear. -/
def clearQueued : List (QueueAction 1) :=
  [QueueAction.queue (.clear onlyShard), .queue (.push onlyShard)] ++
    List.replicate 4 (QueueAction.queue (.advance onlyShard false)) ++
    [QueueAction.queue (.count onlyShard)]

/-- The worker takes and processes a batch, with a number of steps in `drain`. -/
def takeBatch (steps : ℕ) : List (QueueAction 1) :=
  [QueueAction.queue .extractBatch] ++
    List.replicate steps (QueueAction.queue (.consume .clearAll)) ++
    [QueueAction.queue .subtract, .process]

/-- A route. -/
def oneRoute : PersistenceOp := .saveRoute ⟨[1, 2], 7⟩

/-- A backend. -/
def oneBackend : PersistenceOp := .saveBackend { id := 7, ip := "10.0.0.1", port := 8000 }

/-- An attribution insert. -/
def oneRequest : PersistenceOp := .logRequest { requestId := "r1", apiKeyId := "k1" }

/-- A route, a clear and a backend, processed two at a time. -/
def clearedRun : List (QueueAction 1) :=
  enqueued oneRoute ++ clearQueued ++ enqueued oneBackend ++ takeBatch 6 ++ takeBatch 4

theorem drained_store_eq_cleared :
    ∃ s, exec (step { maxBatchSize := 2 }) (idleManager 100000) clearedRun = some s ∧
      s.queue.run.reserved = [oneRoute, .clearAll, oneBackend] ∧
      s.persisted = ({} : Persisted).applyAll { maxBatchSize := 2 } s.queue.run.reserved := by
  have hcreate : MpscRing.create .clearAll 100000 = some (idleManager 100000).queue.run.ring := rfl
  have hsome : (exec (step { maxBatchSize := 2 }) (idleManager 100000) clearedRun).isSome := by
    decide
  refine ⟨_, exec_eq_some_getD hsome, by decide, ?_⟩
  exact @drained_store_eq 1 { maxBatchSize := 2 } {} _ .clearAll _ hcreate _
    (exec_eq_some_getD hsome) (by decide) (by decide)

/-- Another route. -/
def otherRoute : PersistenceOp := .saveRoute ⟨[1, 3], 7⟩

/-- A third one. -/
def lateRoute : PersistenceOp := .saveRoute ⟨[1, 4], 7⟩

/-- Two routes fill a ring of two slots, and the push of a clear fails; behind the batch a third
route is queued. -/
def lostClear : List (QueueAction 1) :=
  enqueued oneRoute ++ enqueued otherRoute ++
    [QueueAction.queue (.clear onlyShard), .queue (.push onlyShard),
      .queue (.advance onlyShard false)] ++
    takeBatch 7 ++ enqueued lateRoute ++ takeBatch 4

/-- A clear that finds the ring full is lost without a report, and what is queued before and after
it is passed over for good: the store is neither what the operations in the ring leave, nor what
they leave with the clear among them. With room in the ring the route in front of a clear does not
matter, but an attribution insert is lost. -/
theorem drained_store_differs :
    (¬∀ (cfg : AsyncPersistenceConfig) (ring : MpscRing PersistenceOp) (init : Persisted)
      (actions : List (QueueAction 1)) (s : AsyncPersistenceManager 1),
      MpscRing.create .clearAll cfg.maxQueueDepth = some ring →
      exec (step cfg) (start ring init) actions = some s → s.Drained →
      s.persisted = init.applyAll cfg s.queue.run.reserved) ∧
    (∃ s, exec (step { maxQueueDepth := 2 }) (idleManager 2) lostClear = some s ∧
      s.Drained ∧ s.queue.opsDropped = 0 ∧
      s.queue.run.reserved = [oneRoute, otherRoute, lateRoute] ∧ s.persisted = {} ∧
      ({} : Persisted).applyAll {} [oneRoute, otherRoute, .clearAll, lateRoute] ≠ {}) ∧
    ∃ s, exec (step {}) (idleManager 100000) (enqueued oneRequest ++ clearQueued ++ takeBatch 7) =
        some s ∧
      s.Drained ∧ s.queue.opsDropped = 0 ∧
      s.persisted ≠ ({} : Persisted).applyAll {} s.queue.run.reserved := by
  refine ⟨fun h => ?_, ⟨_, exec_eq_some_getD (by decide), by decide, by decide, by decide,
    by decide, by decide⟩, ⟨_, exec_eq_some_getD (by decide), by decide, by decide, by decide⟩⟩
  have hrun := h { maxQueueDepth := 2 } (idleManager 2).queue.run.ring {} lostClear _ rfl
    (exec_eq_some_getD (by decide)) (by decide)
  revert hrun
  decide

end AsyncPersistenceManager

end Ranvier
