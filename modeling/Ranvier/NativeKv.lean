import Mathlib.Data.Finmap
import Ranvier.LastEffect
import Ranvier.RadixTree

/-!
# Applying native KV operations on a shard

A backend's engine publishes which cache blocks it stores and drops; the
subscriber turns them into operations and every shard applies them to its
`prefix_hash_index`, the mirror of what each backend holds. The index is
guarded by the timestamps of the last event per (hash, backend) pair, a map the
HTTP eviction path writes as well.

* `applyNativeKvOpsLocal` — the per-shard loop over a segment of operations;
* `nativePurgeBackendLocal` — the sweep behind `CLEAR` and `RESET`;
* `shipmentMessages` — how `apply_native_kv_ops` cuts a shipment into segments
  and sweeps, each sent to all shards;
* `mem_applyNativeKvOpsLocal`, `mem_deliverAll` — after a list of
  operations a pair is in the index exactly when the **last operation that takes
  effect** on it is an upsert.
-/

namespace Ranvier

/-! ## Operations -/

/-- `NativeKvOp::Kind`. -/
inductive NativeKvKind : Type where
  /-- the backend now holds the prefix -/
  | UPSERT
  /-- the backend no longer holds the prefix -/
  | REMOVE
  /-- the backend's cache is empty -/
  | CLEAR
  /-- stream fault: nothing known about the backend can be trusted -/
  | RESET
  /-- heartbeat -/
  | ALIVE
  /-- insert `PUSH` routes at the new boundaries -/
  | MATERIALIZE
  /-- the stream has been seen from a known-empty cache -/
  | COMPLETE
  deriving DecidableEq, Repr

/-- `NativeKvOp`, with the source's defaults. -/
structure NativeKvOp : Type where
  kind : NativeKvKind := .ALIVE
  backend : BackendId := 0
  /-- `UPSERT` and `REMOVE` only -/
  prefixHash : UInt64 := 0
  tsMs : UInt64 := 0
  /-- `MATERIALIZE` only, as the next two -/
  tokens : List TokenId := []
  firstNewTokenCount : ℕ := 0
  boundaryStep : ℕ := 0
  deriving DecidableEq, Repr

namespace NativeKvOp

/-- The kinds that `apply_native_kv_ops` dispatches as a sweep of their own. -/
def isSweep (op : NativeKvOp) : Bool := op.kind = .CLEAR || op.kind = .RESET

end NativeKvOp

/-! ## Shard state -/

/-- `MAX_BACKENDS`. -/
def maxBackends : ℕ := 256

/-- `MAX_ENTRIES_PER_BACKEND`. -/
def maxEntriesPerBackend : ℕ := 65536

/-- `MAX_CACHE_TIMESTAMPS`. -/
def maxCacheTimestamps : ℕ := 100000

/-- `NativeKvState`; the verdicts of the alignment probe are not touched here. -/
structure NativeKvState : Type where
  /-- last sign of life of each backend's stream -/
  fresh : Finmap fun _ : BackendId => ℕ
  complete : Finset BackendId
  completeEpoch : Finmap fun _ : BackendId => ℕ
  /-- this shard's index entries per backend -/
  indexEntries : Finmap fun _ : BackendId => ℕ

/-- The counters of `ShardLocalState::stats` that native operations move. -/
structure NativeStats : Type where
  nativeRoutingKeyMatches : ℕ := 0
  nativeIndexOverflow : ℕ := 0
  nativeUpserts : ℕ := 0
  nativeRemoves : ℕ := 0
  nativeCompletes : ℕ := 0
  nativeClears : ℕ := 0
  nativeResets : ℕ := 0
  nativeRoutesMaterialized : ℕ := 0
  nativeMaterializeTrustSkips : ℕ := 0
  routesEvicted : ℕ := 0
  nativeOpsApplied : ℕ := 0
  deriving DecidableEq, Repr

/-- The part of `ShardLocalState` that native operations read and write. -/
structure ShardLocalState : Type where
  tree : Option RadixTree
  /-- `config.min_token_length` -/
  minTokenLength : ℕ
  /-- `config.max_route_tokens`, zero for no limit -/
  maxRouteTokens : ℕ
  /-- `config.max_routes`, zero for no limit -/
  maxRoutes : ℕ
  /-- the backends holding a prefix hash; a hash without holders has no entry -/
  prefixHashIndex : UInt64 → Finset BackendId
  /-- timestamp of the last event per (hash, backend) pair -/
  cacheEventTimestamps : Finmap fun _ : UInt64 × BackendId => UInt64
  /-- the ring of recently looked up routing hashes -/
  recentRoutingKeys : List UInt64
  nativeKv : NativeKvState
  stats : NativeStats

namespace ShardLocalState

/-- `touch_native_fresh`. -/
def touchNativeFresh (now : ℕ) (id : BackendId) (s : ShardLocalState) : ShardLocalState :=
  if id ∉ s.nativeKv.fresh ∧ maxBackends ≤ s.nativeKv.fresh.keys.card then s
  else { s with nativeKv := { s.nativeKv with fresh := s.nativeKv.fresh.insert id now } }

/-- `mark_native_complete`. -/
def markNativeComplete (id : BackendId) (s : ShardLocalState) : ShardLocalState :=
  let kv := s.nativeKv
  if id ∉ kv.complete ∧ maxBackends ≤ kv.complete.card then s
  else
    let epoch :=
      if id ∈ kv.completeEpoch ∨ kv.completeEpoch.keys.card < maxBackends then
        kv.completeEpoch.insert id ((kv.completeEpoch.lookup id).getD 0 + 1)
      else kv.completeEpoch
    { s with nativeKv := { kv with complete := insert id kv.complete, completeEpoch := epoch } }

/-- The staleness test on `cache_event_timestamps`: an event of the pair at
`ts` is dropped when it is not later than the recorded one. -/
def isStale (s : ShardLocalState) (key : UInt64 × BackendId) (ts : UInt64) : Bool :=
  match s.cacheEventTimestamps.lookup key with
  | some recorded => ts ≤ recorded
  | none => false

/-- Record an event's timestamp, unless the map is full and lacks the key. -/
def recordTimestamp (key : UInt64 × BackendId) (ts : UInt64) (s : ShardLocalState) :
    ShardLocalState :=
  if key ∈ s.cacheEventTimestamps ∨ s.cacheEventTimestamps.keys.card < maxCacheTimestamps then
    { s with cacheEventTimestamps := s.cacheEventTimestamps.insert key ts }
  else s

/-- Entries counted for a backend. -/
def entriesOf (s : ShardLocalState) (id : BackendId) : ℕ :=
  (s.nativeKv.indexEntries.lookup id).getD 0

/-- Write the entry count of a backend. -/
def setEntries (id : BackendId) (n : ℕ) (s : ShardLocalState) : ShardLocalState :=
  { s with nativeKv := { s.nativeKv with indexEntries := s.nativeKv.indexEntries.insert id n } }

/-- Replace the holders of one hash. -/
def setHolders (hash : UInt64) (holders : Finset BackendId) (s : ShardLocalState) :
    ShardLocalState :=
  { s with prefixHashIndex := Function.update s.prefixHashIndex hash holders }

/-- Forget a backend's freshness and completeness. -/
def dropTrust (id : BackendId) (s : ShardLocalState) : ShardLocalState :=
  { s with nativeKv := { s.nativeKv with
      fresh := s.nativeKv.fresh.erase id
      complete := s.nativeKv.complete.erase id } }

/-- Change the counters. -/
def count (f : NativeStats → NativeStats) (s : ShardLocalState) : ShardLocalState :=
  { s with stats := f s.stats }

end ShardLocalState

/-! ## The cases of `apply_native_kv_ops_local` -/

/-- `while (route_count() >= max_routes)` evict the least trusted route. Every
successful eviction lowers the count, so the count bounds the loop. -/
def evictToLimit (maxRoutes : ℕ) : ℕ → RadixTree × NativeStats → RadixTree × NativeStats
  | 0, r => r
  | fuel + 1, (tree, stats) =>
    if maxRoutes ≤ tree.routeCount then
      match tree.evictLowestTrust with
      | (tree, true) =>
        evictToLimit maxRoutes fuel (tree, { stats with routesEvicted := stats.routesEvicted + 1 })
      | (tree, false) => (tree, stats)
    else (tree, stats)

/-- One boundary of a `MATERIALIZE`: make room, then insert the route. -/
def materializeAt (now : ℕ) (maxRoutes : ℕ) (op : NativeKvOp) (boundary : ℕ)
    (r : RadixTree × NativeStats) : RadixTree × NativeStats :=
  let r := if 0 < maxRoutes then evictToLimit maxRoutes r.1.routeCount r else r
  let inserted := r.1.insertIfTrusted now (op.tokens.take boundary) op.backend .PUSH false
  let stats := r.2
  match inserted.2 with
  | .INSERTED_NEW | .OVERWROTE =>
    (inserted.1, { stats with nativeRoutesMaterialized := stats.nativeRoutesMaterialized + 1 })
  | .REFUSED =>
    (inserted.1,
      { stats with nativeMaterializeTrustSkips := stats.nativeMaterializeTrustSkips + 1 })
  | .TOUCHED_SAME => (inserted.1, stats)

/-- The loop over the boundaries: too short ones are skipped, the first one
beyond `max_route_tokens` ends it. -/
def materializeLoop (now : ℕ) (s : ShardLocalState) (op : NativeKvOp) :
    List ℕ → RadixTree × NativeStats → RadixTree × NativeStats
  | [], r => r
  | boundary :: rest, r =>
    if boundary < s.minTokenLength then materializeLoop now s op rest r
    else if 0 < s.maxRouteTokens ∧ s.maxRouteTokens < boundary then r
    else materializeLoop now s op rest (materializeAt now s.maxRoutes op boundary r)

/-- Case `MATERIALIZE`. -/
def applyMaterialize (now : ℕ) (op : NativeKvOp) (s : ShardLocalState) : ShardLocalState :=
  let size := op.tokens.length
  if op.boundaryStep = 0 ∨ op.tokens = [] ∨ op.firstNewTokenCount = 0 ∨
      size < op.firstNewTokenCount then s
  else
    match s.tree with
    | none => s
    | some tree =>
      let boundaries := List.range' op.firstNewTokenCount
        ((size - op.firstNewTokenCount) / op.boundaryStep + 1) op.boundaryStep
      let r := materializeLoop now s op boundaries (tree, s.stats)
      { s with tree := some r.1, stats := r.2 }

/-- The part of case `UPSERT` behind the staleness test. -/
def storeEntry (now : ℕ) (op : NativeKvOp) (s : ShardLocalState) : ShardLocalState :=
  -- `index_entries[op.backend]` creates the counter
  let entries := s.entriesOf op.backend
  let s := s.setEntries op.backend entries
  let holders := s.prefixHashIndex op.prefixHash
  if op.backend ∈ holders then
    (s.count fun c => { c with nativeUpserts := c.nativeUpserts + 1 }).touchNativeFresh now
      op.backend
  else if maxEntriesPerBackend ≤ entries then
    s.count fun c => { c with nativeIndexOverflow := c.nativeIndexOverflow + 1 }
  else
    (((s.setHolders op.prefixHash (insert op.backend holders)).setEntries op.backend
      (entries + 1)).count fun c => { c with nativeUpserts := c.nativeUpserts + 1 }).touchNativeFresh
        now op.backend

/-- The part of case `REMOVE` behind the staleness test. -/
def dropEntry (now : ℕ) (op : NativeKvOp) (s : ShardLocalState) : ShardLocalState :=
  let holders := s.prefixHashIndex op.prefixHash
  let s :=
    if op.backend ∈ holders then
      let s := s.setHolders op.prefixHash (holders.erase op.backend)
      let s :=
        if 0 < s.entriesOf op.backend then s.setEntries op.backend (s.entriesOf op.backend - 1)
        else s
      s.count fun c => { c with nativeRemoves := c.nativeRemoves + 1 }
    else s
  s.touchNativeFresh now op.backend

/-- Cases `UPSERT` and `REMOVE`: the guard both share, then `act`. -/
def guarded (op : NativeKvOp) (act : ShardLocalState → ShardLocalState) (s : ShardLocalState) :
    ShardLocalState :=
  let key := (op.prefixHash, op.backend)
  if s.isStale key op.tsMs then s else act (s.recordTimestamp key op.tsMs)

/-- Case `UPSERT`. -/
def applyUpsert (now : ℕ) (op : NativeKvOp) (s : ShardLocalState) : ShardLocalState :=
  let s :=
    if op.prefixHash ∈ s.recentRoutingKeys then
      s.count fun c => { c with nativeRoutingKeyMatches := c.nativeRoutingKeyMatches + 1 }
    else s
  guarded op (storeEntry now op) s

/-- Case `REMOVE`. -/
def applyRemove (now : ℕ) (op : NativeKvOp) (s : ShardLocalState) : ShardLocalState :=
  guarded op (dropEntry now op) s

/-- One turn of the loop in `apply_native_kv_ops_local`. -/
def applyNativeKvOp (now : ℕ) (op : NativeKvOp) (s : ShardLocalState) : ShardLocalState :=
  let s :=
    match op.kind with
    | .UPSERT => applyUpsert now op s
    | .REMOVE => applyRemove now op s
    | .ALIVE => s.touchNativeFresh now op.backend
    | .COMPLETE =>
      ((s.markNativeComplete op.backend).touchNativeFresh now op.backend).count
        fun c => { c with nativeCompletes := c.nativeCompletes + 1 }
    | .MATERIALIZE => applyMaterialize now op s
    | .CLEAR | .RESET => s
  s.count fun c => { c with nativeOpsApplied := c.nativeOpsApplied + 1 }

/-- `apply_native_kv_ops_local`. The call is synchronous: it sees one reading
of the clock. -/
def applyNativeKvOpsLocal (now : ℕ) (ops : List NativeKvOp) (s : ShardLocalState) :
    ShardLocalState :=
  ops.foldl (fun s op => applyNativeKvOp now op s) s

/-- `native_purge_backend_local`. -/
def nativePurgeBackendLocal (now : ℕ) (backend : BackendId) (clearRoutes dropTrust : Bool)
    (s : ShardLocalState) : ShardLocalState :=
  let s := { s with
    prefixHashIndex := fun hash => (s.prefixHashIndex hash).erase backend
    nativeKv := { s.nativeKv with indexEntries := s.nativeKv.indexEntries.erase backend } }
  let s :=
    if clearRoutes then
      let tree := s.tree.map fun tree =>
        ((tree.removeRoutesByBackend backend .LOCAL).1.removeRoutesByBackend backend .REMOTE).1
      let s := { s with tree := tree }.count
        fun c => { c with nativeClears := c.nativeClears + 1 }
      (s.touchNativeFresh now backend).markNativeComplete backend
    else s
  if dropTrust then
    (s.dropTrust backend).count fun c => { c with nativeResets := c.nativeResets + 1 }
  else s

/-! ## Shipments -/

/-- What `apply_native_kv_ops` hands to `invoke_on_all`. -/
inductive NativeMessage : Type where
  /-- a contiguous range of operations without sweeps -/
  | segment (ops : List NativeKvOp)
  /-- a `CLEAR` or `RESET` -/
  | sweep (backend : BackendId) (clearRoutes dropTrust : Bool)
  deriving DecidableEq, Repr

/-- The sweep of a `CLEAR` or `RESET` operation. -/
def NativeKvOp.toSweep (op : NativeKvOp) : NativeMessage :=
  .sweep op.backend (op.kind = .CLEAR) (op.kind = .RESET)

/-- The walk of `apply_native_kv_ops`: `segment` holds the operations since
`segment_start`. -/
def messagesFrom (segment : List NativeKvOp) : List NativeKvOp → List NativeMessage
  | [] => if segment = [] then [] else [.segment segment]
  | op :: rest =>
    if op.isSweep then
      (if segment = [] then [] else [.segment segment]) ++ op.toSweep :: messagesFrom [] rest
    else messagesFrom (segment ++ [op]) rest

/-- The messages of one shipment, in the order they are sent. -/
def shipmentMessages (ops : List NativeKvOp) : List NativeMessage := messagesFrom [] ops

/-- One shard executes a message. -/
def NativeMessage.deliver (now : ℕ) (s : ShardLocalState) : NativeMessage → ShardLocalState
  | segment ops => applyNativeKvOpsLocal now ops s
  | sweep backend clearRoutes dropTrust =>
    nativePurgeBackendLocal now backend clearRoutes dropTrust s

/-- One shard executes messages in order, each at its own clock reading. -/
def deliverAll (msgs : List (ℕ × NativeMessage)) (s : ShardLocalState) : ShardLocalState :=
  msgs.foldl (fun s m => m.2.deliver m.1 s) s

/-! ## Residency

Which pair is in the index is decided by three fields alone: the index, the
recorded timestamps and the entry counts. Clock readings, the tree and the
counters never flow back into them, so a shard's residency moves by a function
of the operation (`Residency.apply`), the same on every shard. -/

/-- The fields of a shard that decide residency. -/
structure Residency : Type where
  prefixHashIndex : UInt64 → Finset BackendId
  cacheEventTimestamps : Finmap fun _ : UInt64 × BackendId => UInt64
  indexEntries : Finmap fun _ : BackendId => ℕ

/-- The residency of a shard. -/
def ShardLocalState.residency (s : ShardLocalState) : Residency :=
  ⟨s.prefixHashIndex, s.cacheEventTimestamps, s.nativeKv.indexEntries⟩

namespace Residency

/-- The pair's recorded timestamp is not before `ts`. -/
def isStale (r : Residency) (key : UInt64 × BackendId) (ts : UInt64) : Bool :=
  match r.cacheEventTimestamps.lookup key with
  | some recorded => ts ≤ recorded
  | none => false

/-- Entries counted for a backend. -/
def entriesOf (r : Residency) (id : BackendId) : ℕ := (r.indexEntries.lookup id).getD 0

/-- Record an event of the pair at `ts`, if the map has room. -/
def record (r : Residency) (key : UInt64 × BackendId) (ts : UInt64) : Residency :=
  if key ∈ r.cacheEventTimestamps ∨ r.cacheEventTimestamps.keys.card < maxCacheTimestamps then
    { r with cacheEventTimestamps := r.cacheEventTimestamps.insert key ts }
  else r

/-- There is room for the pair: it is present already, or its backend is below
the entry cap. -/
def Admits (r : Residency) (hash : UInt64) (backend : BackendId) : Prop :=
  backend ∈ r.prefixHashIndex hash ∨ r.entriesOf backend < maxEntriesPerBackend

/-- Put the pair of an upsert into the index, if there is room. -/
def store (r : Residency) (op : NativeKvOp) : Residency :=
  let holders := r.prefixHashIndex op.prefixHash
  let n := r.entriesOf op.backend
  let fits := op.backend ∉ holders ∧ n < maxEntriesPerBackend
  { r with
    prefixHashIndex :=
      if fits then Function.update r.prefixHashIndex op.prefixHash (insert op.backend holders)
      else r.prefixHashIndex
    indexEntries := r.indexEntries.insert op.backend (if fits then n + 1 else n) }

/-- Take the pair of a removal out of the index. -/
def drop (r : Residency) (op : NativeKvOp) : Residency :=
  let holders := r.prefixHashIndex op.prefixHash
  let n := r.entriesOf op.backend
  { r with
    prefixHashIndex :=
      Function.update r.prefixHashIndex op.prefixHash (holders.erase op.backend)
    indexEntries :=
      if op.backend ∈ holders ∧ 0 < n then r.indexEntries.insert op.backend (n - 1)
      else r.indexEntries }

/-- A backend's entries are purged; the recorded timestamps stay. -/
def purge (r : Residency) (backend : BackendId) : Residency :=
  { r with
    prefixHashIndex := fun hash => (r.prefixHashIndex hash).erase backend
    indexEntries := r.indexEntries.erase backend }

/-- What one operation does, sweeps included. -/
def apply (r : Residency) (op : NativeKvOp) : Residency :=
  let key := (op.prefixHash, op.backend)
  match op.kind with
  | .UPSERT => if r.isStale key op.tsMs then r else (r.record key op.tsMs).store op
  | .REMOVE => if r.isStale key op.tsMs then r else (r.record key op.tsMs).drop op
  | .CLEAR | .RESET => r.purge op.backend
  | _ => r

/-- Operations one after another. -/
def applyAll (r : Residency) (ops : List NativeKvOp) : Residency := ops.foldl apply r

@[simp] theorem applyAll_nil (r : Residency) : r.applyAll [] = r := rfl

@[simp] theorem applyAll_cons (r : Residency) (op : NativeKvOp) (ops : List NativeKvOp) :
    r.applyAll (op :: ops) = (r.apply op).applyAll ops := rfl

@[simp] theorem applyAll_append (r : Residency) (l₁ l₂ : List NativeKvOp) :
    r.applyAll (l₁ ++ l₂) = (r.applyAll l₁).applyAll l₂ := List.foldl_append

end Residency

namespace ShardLocalState

variable (s : ShardLocalState) (now : ℕ) (id : BackendId)

@[simp] theorem residency_isStale (key : UInt64 × BackendId) (ts : UInt64) :
    s.residency.isStale key ts = s.isStale key ts := rfl

@[simp] theorem residency_count (f : NativeStats → NativeStats) :
    (s.count f).residency = s.residency := rfl

@[simp] theorem count_isStale (f : NativeStats → NativeStats) (key : UInt64 × BackendId)
    (ts : UInt64) : (s.count f).isStale key ts = s.isStale key ts := rfl

@[simp] theorem residency_touchNativeFresh :
    (s.touchNativeFresh now id).residency = s.residency := by
  simp only [touchNativeFresh]
  split <;> rfl

@[simp] theorem residency_markNativeComplete :
    (s.markNativeComplete id).residency = s.residency := by
  simp only [markNativeComplete]
  split <;> rfl

@[simp] theorem residency_dropTrust : (s.dropTrust id).residency = s.residency := rfl

@[simp] theorem residency_setEntries (n : ℕ) :
    (s.setEntries id n).residency =
      { s.residency with indexEntries := s.residency.indexEntries.insert id n } := rfl

@[simp] theorem residency_setHolders (hash : UInt64) (holders : Finset BackendId) :
    (s.setHolders hash holders).residency =
      { s.residency with
        prefixHashIndex := Function.update s.residency.prefixHashIndex hash holders } := rfl

@[simp] theorem residency_recordTimestamp (key : UInt64 × BackendId) (ts : UInt64) :
    (s.recordTimestamp key ts).residency = s.residency.record key ts := by
  by_cases h : key ∈ s.cacheEventTimestamps ∨
      s.cacheEventTimestamps.keys.card < maxCacheTimestamps
  · rw [recordTimestamp, if_pos h]
    exact (if_pos h).symm
  · rw [recordTimestamp, if_neg h]
    exact (if_neg h).symm

end ShardLocalState

section Operations

variable (now : ℕ) (op : NativeKvOp) (s : ShardLocalState)

@[simp] theorem residency_applyMaterialize :
    (applyMaterialize now op s).residency = s.residency := by
  simp only [applyMaterialize]
  split
  · rfl
  · split <;> rfl

@[simp] theorem residency_storeEntry :
    (storeEntry now op s).residency = s.residency.store op := by
  have hidx : ∀ n, (s.setEntries op.backend n).prefixHashIndex =
      s.residency.prefixHashIndex := fun _ => rfl
  have hent : s.entriesOf op.backend = s.residency.entriesOf op.backend := rfl
  rw [storeEntry, Residency.store]
  simp only [hidx, hent]
  by_cases hmem : op.backend ∈ s.residency.prefixHashIndex op.prefixHash
  · simp [hmem]
  · rcases Nat.lt_or_ge (s.residency.entriesOf op.backend) maxEntriesPerBackend with hcap | hcap
    · simp [hmem, hcap, Nat.not_le.mpr hcap]
    · simp [hmem, hcap, Nat.not_lt.mpr hcap]

@[simp] theorem residency_dropEntry :
    (dropEntry now op s).residency = s.residency.drop op := by
  have hidx : s.prefixHashIndex = s.residency.prefixHashIndex := rfl
  rw [dropEntry, Residency.drop]
  simp only [hidx, ShardLocalState.residency_touchNativeFresh]
  by_cases hmem : op.backend ∈ s.residency.prefixHashIndex op.prefixHash
  · have hent : (s.setHolders op.prefixHash ((s.residency.prefixHashIndex op.prefixHash).erase
        op.backend)).entriesOf op.backend = s.residency.entriesOf op.backend := rfl
    simp only [hmem, if_true, hent, true_and]
    split_ifs <;> rfl
  · simp [hmem]

/-- The loop's cases move the residency as described; a sweep that reaches the
loop is ignored there. -/
theorem residency_applyNativeKvOp :
    (applyNativeKvOp now op s).residency =
      if op.isSweep then s.residency else s.residency.apply op := by
  cases hk : op.kind
  case UPSERT =>
    simp only [applyNativeKvOp, hk, ShardLocalState.residency_count, applyUpsert, guarded,
      NativeKvOp.isSweep, Residency.apply]
    split_ifs <;> simp_all
  case REMOVE =>
    simp only [applyNativeKvOp, hk, ShardLocalState.residency_count, applyRemove, guarded,
      NativeKvOp.isSweep, Residency.apply]
    split_ifs <;> simp_all
  all_goals simp [applyNativeKvOp, NativeKvOp.isSweep, Residency.apply, hk]

theorem residency_nativePurgeBackendLocal (backend : BackendId) (clearRoutes dropTrust : Bool) :
    (nativePurgeBackendLocal now backend clearRoutes dropTrust s).residency =
      s.residency.purge backend := by
  cases clearRoutes <;> cases dropTrust <;> simp [nativePurgeBackendLocal] <;> rfl

/-- A segment applies its operations, without the sweeps. -/
theorem residency_applyNativeKvOpsLocal (ops : List NativeKvOp) :
    (applyNativeKvOpsLocal now ops s).residency =
      s.residency.applyAll (ops.filter fun op => !op.isSweep) := by
  induction ops generalizing s with
  | nil => rfl
  | cons op ops ih =>
    rw [applyNativeKvOpsLocal, List.foldl_cons, ← applyNativeKvOpsLocal, ih,
      residency_applyNativeKvOp]
    cases hop : op.isSweep <;> simp [hop]

end Operations

namespace Residency

/-- What a delivered message does to a shard's residency. -/
def receive (r : Residency) : NativeMessage → Residency
  | .segment ops => r.applyAll (ops.filter fun op => !op.isSweep)
  | .sweep backend _ _ => r.purge backend

/-- Messages one after another. -/
def receiveAll (r : Residency) (msgs : List NativeMessage) : Residency := msgs.foldl receive r

@[simp] theorem receiveAll_nil (r : Residency) : r.receiveAll [] = r := rfl

@[simp] theorem receiveAll_cons (r : Residency) (m : NativeMessage) (msgs : List NativeMessage) :
    r.receiveAll (m :: msgs) = (r.receive m).receiveAll msgs := rfl

@[simp] theorem receiveAll_append (r : Residency) (l₁ l₂ : List NativeMessage) :
    r.receiveAll (l₁ ++ l₂) = (r.receiveAll l₁).receiveAll l₂ := List.foldl_append

theorem receive_toSweep (r : Residency) {op : NativeKvOp} (hop : op.isSweep) :
    r.receive op.toSweep = r.apply op := by
  cases hk : op.kind <;> simp_all [NativeKvOp.isSweep, NativeKvOp.toSweep, receive, apply]

theorem receiveAll_flush (r : Residency) {seg : List NativeKvOp}
    (hseg : ∀ op ∈ seg, op.isSweep = false) :
    r.receiveAll (if seg = [] then [] else [.segment seg]) = r.applyAll seg := by
  have hfilter : seg.filter (fun op => !op.isSweep) = seg := by
    rw [List.filter_eq_self]
    intro op hop
    simp [hseg op hop]
  split
  · next hnil => rw [hnil, receiveAll_nil, applyAll_nil]
  · rw [receiveAll_cons, receiveAll_nil, receive, hfilter]

/-- Cutting operations into segments and sweeps keeps their order and loses
none of them. -/
theorem receiveAll_messagesFrom (r : Residency) {seg : List NativeKvOp}
    (hseg : ∀ op ∈ seg, op.isSweep = false) (ops : List NativeKvOp) :
    r.receiveAll (messagesFrom seg ops) = r.applyAll (seg ++ ops) := by
  induction ops generalizing r seg with
  | nil => rw [messagesFrom, receiveAll_flush r hseg, List.append_nil]
  | cons op ops ih =>
    rw [messagesFrom]
    cases hop : op.isSweep with
    | true =>
      rw [if_pos rfl, receiveAll_append, receiveAll_flush r hseg, receiveAll_cons,
        receive_toSweep _ hop, ih _ (by simp), List.nil_append, applyAll_append, applyAll_cons]
    | false =>
      have hseg' : ∀ o ∈ seg ++ [op], o.isSweep = false := by
        intro o ho
        rcases List.mem_append.mp ho with ho | ho
        · exact hseg o ho
        · rw [List.mem_singleton.mp ho, hop]
      rw [if_neg Bool.false_ne_true, ih r hseg', List.append_assoc, List.singleton_append]

theorem receiveAll_shipmentMessages (r : Residency) (ops : List NativeKvOp) :
    r.receiveAll (shipmentMessages ops) = r.applyAll ops :=
  receiveAll_messagesFrom r (by simp) ops

end Residency

theorem residency_deliver (now : ℕ) (s : ShardLocalState) (m : NativeMessage) :
    (m.deliver now s).residency = s.residency.receive m := by
  cases m with
  | segment ops => exact residency_applyNativeKvOpsLocal now s ops
  | sweep backend clearRoutes dropTrust =>
    exact residency_nativePurgeBackendLocal now s backend clearRoutes dropTrust

theorem residency_deliverAll (msgs : List (ℕ × NativeMessage)) (s : ShardLocalState) :
    (deliverAll msgs s).residency = s.residency.receiveAll (msgs.map Prod.snd) := by
  induction msgs generalizing s with
  | nil => rfl
  | cons m msgs ih =>
    rw [deliverAll, List.foldl_cons, ← deliverAll, ih, residency_deliver, List.map_cons,
      Residency.receiveAll_cons]

/-! ## Which operations take effect on a pair -/

namespace NativeKvOp

/-- An upsert or a removal of the pair. -/
def Writes (op : NativeKvOp) (hash : UInt64) (backend : BackendId) : Prop :=
  (op.kind = .UPSERT ∨ op.kind = .REMOVE) ∧ op.prefixHash = hash ∧ op.backend = backend

/-- A `CLEAR` or `RESET` of the backend. -/
def Sweeps (op : NativeKvOp) (backend : BackendId) : Prop :=
  op.isSweep ∧ op.backend = backend

instance (op : NativeKvOp) (hash : UInt64) (backend : BackendId) :
    Decidable (op.Writes hash backend) := by
  unfold Writes
  infer_instance

instance (op : NativeKvOp) (backend : BackendId) : Decidable (op.Sweeps backend) := by
  unfold Sweeps
  infer_instance

end NativeKvOp

namespace Residency

variable (r : Residency) (hash : UInt64) (backend : BackendId)

/-- Starting from `r`, an operation takes effect on the pair after the history
`h`: it sweeps the backend; or it writes the pair, is newer than the timestamp
that `r` has recorded for it and, if it is an upsert, finds room. -/
def TakesEffect (h : List NativeKvOp) (op : NativeKvOp) : Prop :=
  op.Sweeps backend ∨
    op.Writes hash backend ∧ r.isStale (hash, backend) op.tsMs = false ∧
      (op.kind = .UPSERT → (r.applyAll h).Admits hash backend)

variable {r hash backend}

@[simp] theorem record_prefixHashIndex (key : UInt64 × BackendId) (ts : UInt64) :
    (r.record key ts).prefixHashIndex = r.prefixHashIndex := by
  rw [record]
  split <;> rfl

@[simp] theorem record_entriesOf (key : UInt64 × BackendId) (ts : UInt64) (id : BackendId) :
    (r.record key ts).entriesOf id = r.entriesOf id := by
  rw [record]
  split <;> rfl

/-- Recording writes the pair's own timestamp or nothing. -/
theorem record_lookup (key k : UInt64 × BackendId) (ts : UInt64) :
    (r.record key ts).cacheEventTimestamps.lookup k = r.cacheEventTimestamps.lookup k ∨
      k = key ∧ (r.record key ts).cacheEventTimestamps.lookup k = some ts := by
  rw [record]
  split
  · rcases eq_or_ne k key with rfl | hk
    · exact .inr ⟨rfl, Finmap.lookup_insert _⟩
    · exact .inl (Finmap.lookup_insert_of_ne _ hk)
  · exact .inl rfl

theorem mem_store {op : NativeKvOp} :
    backend ∈ (r.store op).prefixHashIndex hash ↔
      backend ∈ r.prefixHashIndex hash ∨
        (op.prefixHash = hash ∧ op.backend = backend ∧ r.Admits hash backend) := by
  simp only [store, Admits]
  rcases eq_or_ne hash op.prefixHash with rfl | hne
  · split_ifs with hfits
    · rw [Function.update_self, Finset.mem_insert]
      grind
    · grind
  · split_ifs with hfits
    · rw [Function.update_of_ne hne]
      grind
    · grind

theorem mem_drop {op : NativeKvOp} :
    backend ∈ (r.drop op).prefixHashIndex hash ↔
      backend ∈ r.prefixHashIndex hash ∧ ¬(op.prefixHash = hash ∧ op.backend = backend) := by
  simp only [drop]
  rcases eq_or_ne hash op.prefixHash with rfl | hne
  · rw [Function.update_self, Finset.mem_erase]
    grind
  · rw [Function.update_of_ne hne]
    grind

theorem mem_purge {b : BackendId} :
    backend ∈ (r.purge b).prefixHashIndex hash ↔
      backend ∈ r.prefixHashIndex hash ∧ b ≠ backend := by
  simp only [purge, Finset.mem_erase]
  grind

theorem admits_of_mem (h : backend ∈ r.prefixHashIndex hash) : r.Admits hash backend := .inl h

@[simp] theorem record_admits (key : UInt64 × BackendId) (ts : UInt64) :
    (r.record key ts).Admits hash backend ↔ r.Admits hash backend := by
  simp [Admits]

/-- A write of the pair that is not stale decides it: an upsert that finds
room leaves it in, a removal takes it out. -/
theorem mem_apply_of_writes {op : NativeKvOp} (hw : op.Writes hash backend)
    (hst : r.isStale (hash, backend) op.tsMs = false) :
    backend ∈ (r.apply op).prefixHashIndex hash ↔
      op.kind = .UPSERT ∧ r.Admits hash backend := by
  obtain ⟨hk | hk, rfl, rfl⟩ := hw
  · simp only [apply, hk, hst, Bool.false_eq_true, if_false]
    rw [mem_store, record_prefixHashIndex, record_admits]
    simpa using admits_of_mem
  · simp [apply, hk, hst, mem_drop]

theorem mem_apply_of_sweeps {op : NativeKvOp} (hs : op.Sweeps backend) :
    backend ∉ (r.apply op).prefixHashIndex hash := by
  obtain ⟨hk, rfl⟩ := hs
  cases h : op.kind <;> simp_all [NativeKvOp.isSweep, apply, mem_purge]

/-- Every other operation leaves the pair alone. -/
theorem mem_apply_of_not {op : NativeKvOp} (hs : ¬op.Sweeps backend)
    (hw : ¬(op.Writes hash backend ∧ r.isStale (hash, backend) op.tsMs = false)) :
    backend ∈ (r.apply op).prefixHashIndex hash ↔ backend ∈ r.prefixHashIndex hash := by
  cases hk : op.kind
  case UPSERT =>
    simp only [apply, hk]
    split_ifs with hst
    · rfl
    · rw [mem_store, record_prefixHashIndex]
      refine or_iff_left ?_
      rintro ⟨rfl, rfl, -⟩
      exact hw ⟨⟨.inl hk, rfl, rfl⟩, by simpa using hst⟩
  case REMOVE =>
    simp only [apply, hk]
    split_ifs with hst
    · rfl
    · rw [mem_drop, record_prefixHashIndex]
      refine and_iff_left ?_
      rintro ⟨rfl, rfl⟩
      exact hw ⟨⟨.inr hk, rfl, rfl⟩, by simpa using hst⟩
  case CLEAR | RESET =>
    simp only [apply, hk, mem_purge]
    refine and_iff_left ?_
    intro hb
    exact hs ⟨by simp [NativeKvOp.isSweep, hk], hb⟩
  all_goals simp [apply, hk]

/-- An operation moves the pair's timestamp only by writing the pair when it is
not stale. -/
theorem lookup_apply (op : NativeKvOp) :
    (r.apply op).cacheEventTimestamps.lookup (hash, backend) =
        r.cacheEventTimestamps.lookup (hash, backend) ∨
      op.Writes hash backend ∧ r.isStale (hash, backend) op.tsMs = false ∧
        (r.apply op).cacheEventTimestamps.lookup (hash, backend) = some op.tsMs := by
  -- `store` and `drop` keep the timestamps of the recorded residency
  have hrec := r.record_lookup (op.prefixHash, op.backend) (hash, backend) op.tsMs
  cases hk : op.kind
  case UPSERT | REMOVE =>
    simp only [apply, hk]
    split_ifs with hst
    · exact .inl rfl
    · rcases hrec with h | ⟨hkey, h⟩
      · exact .inl h
      · obtain ⟨rfl, rfl⟩ := Prod.mk.inj hkey
        exact .inr ⟨⟨by simp [hk], rfl, rfl⟩, by simpa using hst, h⟩
  all_goals simp [apply, hk, purge]

/-! ## Histories -/

/-- The timestamp recorded for the pair in `r'` is the one in `r`, or that of a
write in `h` that was newer. -/
def RecordedFrom (r r' : Residency) (hash : UInt64) (backend : BackendId)
    (h : List NativeKvOp) : Prop :=
  r'.cacheEventTimestamps.lookup (hash, backend) =
      r.cacheEventTimestamps.lookup (hash, backend) ∨
    ∃ op ∈ h, op.Writes hash backend ∧ r.isStale (hash, backend) op.tsMs = false ∧
      r'.cacheEventTimestamps.lookup (hash, backend) = some op.tsMs

theorem isStale_of_lt {key : UInt64 × BackendId} {t₁ t₂ : UInt64} (hlt : t₁ < t₂)
    (h : r.isStale key t₁ = false) : r.isStale key t₂ = false := by
  simp only [isStale] at h ⊢
  cases hl : r.cacheEventTimestamps.lookup key with
  | none => rfl
  | some t =>
    rw [hl] at h
    have ht : t < t₁ := by simpa using h
    simpa using UInt64.lt_trans ht hlt

/-- A write newer than all writes of the history is stale after it exactly when
it was stale before. -/
theorem RecordedFrom.isStale_eq {r' : Residency} {h : List NativeKvOp} {ts : UInt64}
    (hrec : RecordedFrom r r' hash backend h)
    (hlt : ∀ op ∈ h, op.Writes hash backend → op.tsMs < ts) :
    r'.isStale (hash, backend) ts = r.isStale (hash, backend) ts := by
  rcases hrec with heq | ⟨op, hmem, hw, hfresh, hlook⟩
  · rw [isStale, isStale, heq]
  · have hop : op.tsMs < ts := hlt op hmem hw
    rw [isStale_of_lt hop hfresh, isStale, hlook]
    simpa using hop

/-- The writes of the pair come in strictly increasing timestamps. -/
def StrictWrites (hash : UInt64) (backend : BackendId) (ops : List NativeKvOp) : Prop :=
  ops.Pairwise fun a b => a.Writes hash backend → b.Writes hash backend → a.tsMs < b.tsMs

theorem StrictWrites.lt_of_concat {h : List NativeKvOp} {op : NativeKvOp}
    (hh : StrictWrites hash backend (h ++ [op])) (hop : op.Writes hash backend) :
    ∀ o ∈ h, o.Writes hash backend → o.tsMs < op.tsMs := by
  intro o ho hw
  exact (List.pairwise_append.mp hh).2.2 o ho op (List.mem_singleton_self op) hw hop

theorem recordedFrom_applyAll {h : List NativeKvOp} (hh : StrictWrites hash backend h) :
    RecordedFrom r (r.applyAll h) hash backend h := by
  -- along the history, newest operation last
  induction h using List.reverseRecOn with
  | nil => exact .inl rfl
  | append_singleton h op ih =>
    have ih := ih (List.pairwise_append.mp hh).1
    rw [applyAll_append, applyAll_cons, applyAll_nil]
    rcases lookup_apply op with hkeep | ⟨hw, hfresh, hlook⟩
    · rcases ih with heq | ⟨o, ho, hrest⟩
      · exact .inl (hkeep.trans heq)
      · exact .inr ⟨o, List.mem_append_left _ ho, hrest.1, hrest.2.1, hkeep.trans hrest.2.2⟩
    · rw [ih.isStale_eq (hh.lt_of_concat hw)] at hfresh
      exact .inr ⟨op, by simp, hw, hfresh, hlook⟩

/-- After any history of operations, the last one that takes effect decides
whether the pair is in the index. -/
theorem mem_applyAll {ops : List NativeKvOp} (hstrict : StrictWrites hash backend ops) :
    backend ∈ (r.applyAll ops).prefixHashIndex hash ↔
      (∃ h op, TakesLastEffect (r.TakesEffect hash backend) ops h op ∧ op.kind = .UPSERT) ∨
        (NoEffect (r.TakesEffect hash backend) ops ∧ backend ∈ r.prefixHashIndex hash) := by
  have hstale : ∀ h op, h ++ [op] <+: ops → op.Writes hash backend →
      (r.applyAll h).isStale (hash, backend) op.tsMs = r.isStale (hash, backend) op.tsMs := by
    intro h op hpre hw
    have hh : StrictWrites hash backend (h ++ [op]) := hstrict.sublist hpre.sublist
    exact (recordedFrom_applyAll (List.pairwise_append.mp hh).1).isStale_eq (hh.lt_of_concat hw)
  refine last_effect_decides (P := fun h => backend ∈ (r.applyAll h).prefixHashIndex hash)
    (Q := fun op => op.kind = .UPSERT) ?_ ?_
  · intro h op hpre heff
    simp only [applyAll_append, applyAll_cons, applyAll_nil]
    rcases heff with hs | ⟨hw, hfresh, hroom⟩
    · have hk : op.kind ≠ .UPSERT := by
        intro hk
        simpa [NativeKvOp.isSweep, hk] using hs.1
      simp [mem_apply_of_sweeps hs, hk]
    · rw [mem_apply_of_writes hw ((hstale h op hpre hw).trans hfresh)]
      exact and_iff_left_of_imp hroom
  · intro h op hpre hno
    simp only [applyAll_append, applyAll_cons, applyAll_nil]
    obtain ⟨hs, hw⟩ := not_or.mp hno
    by_cases hfresh : op.Writes hash backend ∧
        (r.applyAll h).isStale (hash, backend) op.tsMs = false
    · -- a fresh write without effect is an upsert refused for lack of room
      rw [mem_apply_of_writes hfresh.1 hfresh.2]
      have hroom : ¬(op.kind = .UPSERT → (r.applyAll h).Admits hash backend) := fun hroom =>
        hw ⟨hfresh.1, (hstale h op hpre hfresh.1).symm.trans hfresh.2, hroom⟩
      obtain ⟨-, hfull⟩ := Classical.not_imp.mp hroom
      exact iff_of_false (fun h => hfull h.2) (fun h => hfull (admits_of_mem h))
    · exact mem_apply_of_not hs hfresh

end Residency

/-! ## Lists of operations on a shard -/

/-- **Last effect wins.** Let the timestamps of a list of operations never
decrease, and let no two writes of the pair share one. On every shard:

* after `apply_native_kv_ops_local` the pair is in the index exactly when the
  last of the operations that takes effect on it is an upsert, or none does and
  it was there before; the loop ignores `CLEAR` and `RESET`;
* the same holds with the sweeps at their positions when the list is shipped by
  `apply_native_kv_ops`, whatever clock readings its messages meet, provided
  writes behind a sweep are newer than the timestamp recorded for the pair. -/
theorem mem_index_iff_last_effect (s : ShardLocalState) (ops : List NativeKvOp) (hash : UInt64)
    (backend : BackendId) (hmono : ops.Pairwise fun a b => a.tsMs ≤ b.tsMs)
    (hdistinct : ops.Pairwise fun a b =>
      a.Writes hash backend → b.Writes hash backend → a.tsMs ≠ b.tsMs) :
    (∀ now, backend ∈ (applyNativeKvOpsLocal now ops s).prefixHashIndex hash ↔
      (∃ h op, TakesLastEffect (s.residency.TakesEffect hash backend)
          (ops.filter fun op => !op.isSweep) h op ∧ op.kind = .UPSERT) ∨
        (NoEffect (s.residency.TakesEffect hash backend) (ops.filter fun op => !op.isSweep) ∧
          backend ∈ s.prefixHashIndex hash)) ∧
    ((ops.Pairwise fun a b => a.Sweeps backend → b.Writes hash backend →
        s.isStale (hash, backend) b.tsMs = false) →
      ∀ msgs : List (ℕ × NativeMessage), msgs.map Prod.snd = shipmentMessages ops →
        (backend ∈ (deliverAll msgs s).prefixHashIndex hash ↔
          (∃ h op, TakesLastEffect (s.residency.TakesEffect hash backend) ops h op ∧
            op.kind = .UPSERT) ∨
          (NoEffect (s.residency.TakesEffect hash backend) ops ∧
            backend ∈ s.prefixHashIndex hash))) := by
  have hstrict : Residency.StrictWrites hash backend ops := by
    refine hmono.imp₂ ?_ hdistinct
    intro a b hle hne ha hb
    exact UInt64.lt_of_le_of_ne hle (hne ha hb)
  constructor
  · intro now
    have hres := residency_applyNativeKvOpsLocal now s ops
    have hstrict' := hstrict.sublist (List.filter_sublist (p := fun op => !op.isSweep))
    refine Iff.trans ?_ (Residency.mem_applyAll hstrict')
    rw [← hres]
    rfl
  · intro _ msgs hmsgs
    have hres := residency_deliverAll msgs s
    rw [hmsgs, Residency.receiveAll_shipmentMessages] at hres
    refine Iff.trans ?_ (Residency.mem_applyAll hstrict)
    rw [← hres]
    rfl

/-- A shard that knows nothing. -/
def emptyShard : ShardLocalState where
  tree := none
  minTokenLength := 0
  maxRouteTokens := 0
  maxRoutes := 0
  prefixHashIndex := fun _ => ∅
  cacheEventTimestamps := ∅
  recentRoutingKeys := []
  nativeKv := ⟨∅, ∅, ∅, ∅⟩
  stats := {}

/-- A shard that evicted hash 7 of backend 1 on an HTTP event at time 2. -/
def evictedShard : ShardLocalState :=
  { emptyShard with cacheEventTimestamps := (∅ : Finmap _).insert (7, 1) 2 }

/-- A shard that lists backend 1 as a holder of hash 7. -/
def holdingShard : ShardLocalState :=
  { emptyShard with prefixHashIndex := fun hash => if hash = 7 then {1} else ∅ }

/-- The kind of the last operation that names the pair, or its backend in a
`CLEAR` or `RESET`, whether or not it takes effect. -/
def lastConcerning (ops : List NativeKvOp) (hash : UInt64) (backend : BackendId) :
    Option NativeKvKind :=
  (ops.filter fun op => op.Writes hash backend ∨ op.Sweeps backend).getLast?.map (·.kind)

/-- The last operation named for a pair does not decide: an upsert older than
the recorded eviction is dropped, and a `CLEAR` that reaches the loop is ignored
there. -/
theorem last_concerning_does_not_decide :
    (¬∀ (s : ShardLocalState) (ops : List NativeKvOp) (hash : UInt64) (backend : BackendId)
      (now : ℕ), (∀ op ∈ ops, op.backend = backend) →
      (ops.Pairwise fun a b => a.tsMs ≤ b.tsMs) →
      (backend ∈ (applyNativeKvOpsLocal now ops s).prefixHashIndex hash ↔
        lastConcerning ops hash backend = some .UPSERT ∨
          (lastConcerning ops hash backend = none ∧ backend ∈ s.prefixHashIndex hash))) ∧
    1 ∉ (applyNativeKvOpsLocal 0 [⟨.UPSERT, 1, 7, 1, [], 0, 0⟩] evictedShard).prefixHashIndex 7 ∧
    1 ∈ (applyNativeKvOpsLocal 0 [⟨.CLEAR, 1, 0, 1, [], 0, 0⟩] holdingShard).prefixHashIndex 7 := by
  have hdropped : 1 ∉ (applyNativeKvOpsLocal 0 [⟨.UPSERT, 1, 7, 1, [], 0, 0⟩]
      evictedShard).prefixHashIndex 7 := by decide
  refine ⟨?_, hdropped, by decide⟩
  intro h
  have hlast : lastConcerning [⟨.UPSERT, 1, 7, 1, [], 0, 0⟩] 7 1 = some .UPSERT := by decide
  exact hdropped ((h evictedShard [⟨.UPSERT, 1, 7, 1, [], 0, 0⟩] 7 1 0 (by decide) (by decide)).mpr
    (.inl hlast))

/-- A store, a removal, a clear and a second store. -/
theorem mem_index_iff_last_effect_storeAgain :
    let ops : List NativeKvOp := [⟨.UPSERT, 1, 7, 3, [], 0, 0⟩, ⟨.REMOVE, 1, 7, 4, [], 0, 0⟩,
      ⟨.CLEAR, 1, 0, 5, [], 0, 0⟩, ⟨.UPSERT, 1, 7, 6, [], 0, 0⟩]
    1 ∈ (applyNativeKvOpsLocal 0 ops evictedShard).prefixHashIndex 7 ∧
    (1 ∈ (applyNativeKvOpsLocal 0 ops evictedShard).prefixHashIndex 7 ↔
      (∃ h op, TakesLastEffect (evictedShard.residency.TakesEffect 7 1)
          (ops.filter fun op => !op.isSweep) h op ∧ op.kind = .UPSERT) ∨
        (NoEffect (evictedShard.residency.TakesEffect 7 1) (ops.filter fun op => !op.isSweep) ∧
          1 ∈ evictedShard.prefixHashIndex 7)) ∧
    ∀ msgs : List (ℕ × NativeMessage), msgs.map Prod.snd = shipmentMessages ops →
        (1 ∈ (deliverAll msgs evictedShard).prefixHashIndex 7 ↔
          (∃ h op, TakesLastEffect (evictedShard.residency.TakesEffect 7 1) ops h op ∧
            op.kind = .UPSERT) ∨
          (NoEffect (evictedShard.residency.TakesEffect 7 1) ops ∧
            1 ∈ evictedShard.prefixHashIndex 7)) := by
  intro ops
  have h := mem_index_iff_last_effect evictedShard ops 7 1 (by decide) (by decide)
  exact ⟨by decide, h.1 0, h.2 (by decide)⟩

end Ranvier
