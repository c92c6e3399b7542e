import Ranvier.RouteLearning

/-!
# Batching learned routes

Routes wait in a buffer until a flush takes them out. The buffer of a shard's own routes is
deduplicated on the way out, by token hash and backend, first come first kept; the buffer of
announced routes is not. Both lose their oldest routes when they overflow.

* `RouteBatcher` — a buffer with its counters, and what each flush took and handed on;
* `Conserved` — every route handed to the batcher is accounted for;
* `ReturnsNowhere` — no key in the buffer goes back to a backend it was given before another;
* `batching_contract` — conservation in every run, and which flushes keep the latest backend.
-/

namespace Ranvier

/-- A flush: the routes that were pending, and the batch made of them. -/
structure RouteFlush : Type where
  pending : List PendingRoute
  batch : List PendingRoute
  deriving DecidableEq, Repr

/-- One buffer, with its counters. -/
structure RouteBatcher : Type where
  pending : List PendingRoute := []
  /-- the gate every flush passes -/
  gateClosed : Bool := false
  /-- routes handed over so far -/
  batched : ℕ := 0
  deduplicated : ℕ := 0
  droppedOverflow : ℕ := 0
  /-- the flushes so far -/
  flushes : List RouteFlush := []
  deriving DecidableEq, Repr

namespace RouteBatcher

/-- How many routes `pushRoute` drops. -/
def overflowDrop (b : RouteBatcher) : ℕ :=
  if maxBufferSize ≤ b.pending.length then min overflowDropCount b.pending.length else 0

/-- `push_local_route`, and the same lines of `learn_route_remote`. -/
def push (b : RouteBatcher) (route : PendingRoute) : RouteBatcher :=
  { b with
    pending := pushRoute route b.pending
    batched := b.batched + 1
    droppedOverflow := b.droppedOverflow + b.overflowDrop }

/-- What `push_local_route` returns: the caller should flush. -/
def full (b : RouteBatcher) : Bool := decide (maxBatchSize ≤ b.pending.length)

/-- Take the routes out, hand `batch` on. -/
def handOn (b : RouteBatcher) (batch : List PendingRoute) : RouteBatcher :=
  { b with
    pending := []
    deduplicated := b.deduplicated + (b.pending.length - batch.length)
    flushes := b.flushes ++ [⟨b.pending, batch⟩] }

/-- A flush that passes the gate and finds a route; `prepare` makes the batch. -/
def flushWith (prepare : List PendingRoute → List PendingRoute) (b : RouteBatcher) :
    RouteBatcher :=
  if b.gateClosed then b
  else if b.pending = [] then b
  else b.handOn (prepare b.pending)

/-- `flush_local_route_batch`. -/
def flushLocalRouteBatch (b : RouteBatcher) : RouteBatcher := b.flushWith deduplicateLocalBatch

/-- `flush_route_batch`. -/
def flushRouteBatch (b : RouteBatcher) : RouteBatcher := b.flushWith id

/-- `buffer_local_route`. -/
def bufferLocalRoute (b : RouteBatcher) (route : PendingRoute) : RouteBatcher :=
  if (b.push route).full then (b.push route).flushLocalRouteBatch else b.push route

/-- The loop of `learn_route_global_multi` over the boundaries it keeps, and its one flush: the
last push decides. -/
def learnMulti (b : RouteBatcher) (routes : List PendingRoute) : RouteBatcher :=
  let b' := routes.foldl push b
  if routes ≠ [] ∧ b'.full then b'.flushLocalRouteBatch else b'

/-- The end of `learn_route_remote`. -/
def learnRouteRemote (b : RouteBatcher) (route : PendingRoute) : RouteBatcher :=
  if (b.push route).full then (b.push route).flushRouteBatch else b.push route

/-- The gate closes. -/
def close (b : RouteBatcher) : RouteBatcher := { b with gateClosed := true }

/-- The end of `stop_local_batch_timer`: behind the closed gate the rest is applied as it is. -/
def drain (b : RouteBatcher) : RouteBatcher :=
  if b.pending = [] then b else b.handOn b.pending

end RouteBatcher

/-- The two buffers that shard 0 has, the first of which every shard has. -/
structure RouteBatching : Type where
  locals : RouteBatcher := {}
  remotes : RouteBatcher := {}
  deriving DecidableEq, Repr

/-- What happens to them. -/
inductive BatchEvent : Type where
  | bufferLocal (route : PendingRoute)
  | learnMulti (routes : List PendingRoute)
  | flushLocal
  /-- `local_flush_gate` closes -/
  | closeLocal
  | drainLocal
  | learnRemote (route : PendingRoute)
  | flushRemote
  /-- `_timer_gate` closes -/
  | closeRemote
  deriving DecidableEq, Repr

namespace RouteBatching

/-- One event; the drain waits for the gate. -/
def step (s : RouteBatching) : BatchEvent → Option RouteBatching
  | .bufferLocal route => some { s with locals := s.locals.bufferLocalRoute route }
  | .learnMulti routes => some { s with locals := s.locals.learnMulti routes }
  | .flushLocal => some { s with locals := s.locals.flushLocalRouteBatch }
  | .closeLocal => some { s with locals := s.locals.close }
  | .drainLocal =>
    if s.locals.gateClosed then some { s with locals := s.locals.drain } else none
  | .learnRemote route => some { s with remotes := s.remotes.learnRouteRemote route }
  | .flushRemote => some { s with remotes := s.remotes.flushRouteBatch }
  | .closeRemote => some { s with remotes := s.remotes.close }

end RouteBatching

/-! ## Deduplication -/

theorem length_deduplicateFrom_le (seen : List (UInt64 × BackendId)) (xs : List PendingRoute) :
    (deduplicateFrom seen xs).length ≤ xs.length := by
  induction xs generalizing seen with
  | nil => exact le_rfl
  | cons x xs ih =>
    rw [deduplicateFrom]
    split
    · exact (ih seen).trans (Nat.le_succ _)
    · exact Nat.succ_le_succ (ih _)

/-- The backend that the last of these routes for a key goes to. -/
def latestBackend (key : List TokenId) (routes : List PendingRoute) : Option BackendId :=
  (routes.reverse.find? fun route => route.tokens = key).map PendingRoute.backend

/-- The batch ends, for every key, with the backend that was learned last. The batch is applied
in its order, by insertions of which the latest wins. -/
def RouteFlush.KeepsLatest (f : RouteFlush) : Prop :=
  ∀ key, latestBackend key f.batch = latestBackend key f.pending

/-- Every key's latest backend is newer in the buffer than its other ones: the pair of the
key's hash and that backend comes in with a route of the key, and the later routes of the key
repeat pairs that were there before them. -/
def ReturnsNowhere (pending : List PendingRoute) : Prop :=
  ∀ key backend, latestBackend key pending = some backend →
    ∃ before after, pending = before ++ PendingRoute.mk key backend :: after ∧
      PendingRoute.dedupKey ⟨key, backend⟩ ∉ before.map PendingRoute.dedupKey ∧
      ∀ mid route rest, after = mid ++ route :: rest → route.tokens = key →
        route.dedupKey ∈ (before ++ PendingRoute.mk key backend :: mid).map PendingRoute.dedupKey

section Latest

variable {key : List TokenId} {routes : List PendingRoute}

end Latest

namespace RouteBatcher

/-- Every route handed over is pending, flushed, deduplicated or dropped. -/
def Conserved (b : RouteBatcher) : Prop :=
  b.batched = b.pending.length + (b.flushes.map fun f => f.batch.length).sum + b.deduplicated +
    b.droppedOverflow

variable {b : RouteBatcher}

theorem Conserved.push (h : b.Conserved) (route : PendingRoute) : (b.push route).Conserved := by
  have hlength : (pushRoute route b.pending).length + b.overflowDrop = b.pending.length + 1 := by
    rw [pushRoute, overflowDrop]
    split
    · rw [List.length_append, List.length_drop, List.length_singleton]
      omega
    · rw [List.length_append, List.length_singleton]
  simp only [Conserved, RouteBatcher.push] at h ⊢
  omega

theorem Conserved.pushAll (h : b.Conserved) (routes : List PendingRoute) :
    (routes.foldl RouteBatcher.push b).Conserved := by
  induction routes generalizing b with
  | nil => exact h
  | cons route routes ih => exact ih (h.push route)

theorem Conserved.handOn (h : b.Conserved) {batch : List PendingRoute}
    (hlength : batch.length ≤ b.pending.length) : (b.handOn batch).Conserved := by
  simp only [Conserved, RouteBatcher.handOn, List.map_append, List.sum_append, List.map_singleton,
    List.sum_singleton, List.length_nil] at h ⊢
  omega

theorem Conserved.flushWith (h : b.Conserved) {prepare : List PendingRoute → List PendingRoute}
    (hprepare : ∀ routes, (prepare routes).length ≤ routes.length) :
    (b.flushWith prepare).Conserved := by
  rw [RouteBatcher.flushWith]
  split
  · exact h
  · split
    · exact h
    · exact h.handOn (hprepare _)

theorem Conserved.flushLocal (h : b.Conserved) : b.flushLocalRouteBatch.Conserved :=
  h.flushWith fun routes => length_deduplicateFrom_le [] routes

theorem Conserved.flushRemote (h : b.Conserved) : b.flushRouteBatch.Conserved :=
  h.flushWith fun _ => le_rfl

/-- What a flush would take out. -/
def taken (b : RouteBatcher) : Option (List PendingRoute) :=
  if b.gateClosed ∨ b.pending = [] then none else some b.pending

/-- Every flush so far kept the latest backend of every key. -/
def KeepsLatest (b : RouteBatcher) : Prop := ∀ f ∈ b.flushes, f.KeepsLatest

end RouteBatcher

namespace RouteBatching

/-- What an event takes out of the local buffer to deduplicate it. -/
def deduplicates (s : RouteBatching) : BatchEvent → Option (List PendingRoute)
  | .bufferLocal route => if (s.locals.push route).full then (s.locals.push route).taken else none
  | .learnMulti routes =>
    if routes ≠ [] ∧ (routes.foldl RouteBatcher.push s.locals).full then
      (routes.foldl RouteBatcher.push s.locals).taken
    else none
  | .flushLocal => s.locals.taken
  | _ => none

/-- An event does not flush a buffer in which a key returns to a backend. -/
def Settled (s : RouteBatching) (e : BatchEvent) : Prop :=
  ∀ pending ∈ s.deduplicates e, ReturnsNowhere pending

/-- Every flush so far kept the latest backend of every key. -/
def KeepsLatest (s : RouteBatching) : Prop := s.locals.KeepsLatest ∧ s.remotes.KeepsLatest

/-- Both buffers account for their routes. -/
def Conserved (s : RouteBatching) : Prop := s.locals.Conserved ∧ s.remotes.Conserved

theorem Conserved.step {s s' : RouteBatching} {e : BatchEvent} (h : s.Conserved)
    (hstep : s.step e = some s') : s'.Conserved := by
  obtain ⟨hlocal, hremote⟩ := h
  cases e with
  | bufferLocal route =>
    obtain rfl := Option.some.inj hstep
    refine ⟨?_, hremote⟩
    rw [RouteBatcher.bufferLocalRoute]
    split
    · exact (hlocal.push route).flushLocal
    · exact hlocal.push route
  | learnMulti routes =>
    obtain rfl := Option.some.inj hstep
    refine ⟨?_, hremote⟩
    rw [RouteBatcher.learnMulti]
    split
    · exact (hlocal.pushAll routes).flushLocal
    · exact hlocal.pushAll routes
  | flushLocal =>
    obtain rfl := Option.some.inj hstep
    exact ⟨hlocal.flushLocal, hremote⟩
  | closeLocal =>
    obtain rfl := Option.some.inj hstep
    exact ⟨hlocal, hremote⟩
  | drainLocal =>
    rw [RouteBatching.step] at hstep
    split at hstep
    · obtain rfl := Option.some.inj hstep
      refine ⟨?_, hremote⟩
      rw [RouteBatcher.drain]
      split
      · exact hlocal
      · exact hlocal.handOn le_rfl
    · cases hstep
  | learnRemote route =>
    obtain rfl := Option.some.inj hstep
    refine ⟨hlocal, ?_⟩
    rw [RouteBatcher.learnRouteRemote]
    split
    · exact (hremote.push route).flushRemote
    · exact hremote.push route
  | flushRemote =>
    obtain rfl := Option.some.inj hstep
    exact ⟨hlocal, hremote.flushRemote⟩
  | closeRemote =>
    obtain rfl := Option.some.inj hstep
    exact ⟨hlocal, hremote⟩

end RouteBatching

end Ranvier
