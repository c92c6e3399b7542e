import Mathlib.Data.Set.Card
import Ranvier.Backends
import Ranvier.Run

/-!
# Learning routes, and the index beside it

Three writers share a shard's `prefix_hash_index`: the batches of locally learned
routes, the batches of routes announced by peers, and the native operations, whose
entries mirror what a backend holds. A fourth, the TTL cleanup, replaces the whole
index by what the live routes claim and what fresh streams reported.

* `applyLocalBatchToTree`, `applyRouteBatchToLocalTree` — the two batches;
* `evictByPrefixHashLocal`, `loadRouteLocal` — the push notifications;
* `collectLiveRouteIndex`, `swapInRebuiltIndex` — the last phase of the cleanup;
* `LearningShard.step` — one shard, with its buffers, taking one action;
* `entry_survives` — which actions leave an entry of the index alone.
-/

namespace Ranvier

/-! ## Pending routes -/

/-- `PendingLocalRoute`, and `PendingRemoteRoute`, which has the same fields. -/
structure PendingRoute : Type where
  tokens : List TokenId
  backend : BackendId
  deriving DecidableEq, Repr

/-- `MAX_BATCH_SIZE`. -/
def maxBatchSize : ℕ := 100

/-- `MAX_BUFFER_SIZE`. -/
def maxBufferSize : ℕ := 10000

/-- `OVERFLOW_DROP_COUNT`. -/
def overflowDropCount : ℕ := 1000

/-- `push_local_route` and the end of `learn_route_remote`: a full buffer loses its
oldest routes first. -/
def pushRoute (route : PendingRoute) (buffer : List PendingRoute) : List PendingRoute :=
  (if maxBufferSize ≤ buffer.length then buffer.drop (min overflowDropCount buffer.length)
    else buffer) ++ [route]

/-- The key of `LocalRouteDedup`: the hash of all token bytes, and the backend. -/
def PendingRoute.dedupKey (route : PendingRoute) : UInt64 × BackendId :=
  (fnvTokens fnvOffsetBasis route.tokens, route.backend)

/-- The loop of `deduplicate_local_batch`: the first route of each key stays. -/
def deduplicateFrom (seen : List (UInt64 × BackendId)) : List PendingRoute → List PendingRoute
  | [] => []
  | route :: batch =>
    if route.dedupKey ∈ seen then deduplicateFrom seen batch
    else route :: deduplicateFrom (route.dedupKey :: seen) batch

/-- `deduplicate_local_batch`. -/
def deduplicateLocalBatch (batch : List PendingRoute) : List PendingRoute :=
  deduplicateFrom [] batch

/-! ## Applying routes -/

/-- The eviction loop of `apply_local_batch_to_tree`, as `evictToLimit` but oldest
route first. -/
def evictOldestToLimit (maxRoutes : ℕ) : ℕ → RadixTree × NativeStats → RadixTree × NativeStats
  | 0, r => r
  | fuel + 1, (tree, stats) =>
    if maxRoutes ≤ tree.routeCount then
      match tree.evictOldest with
      | (tree, true) =>
        evictOldestToLimit maxRoutes fuel
          (tree, { stats with routesEvicted := stats.routesEvicted + 1 })
      | (tree, false) => (tree, stats)
    else (tree, stats)

/-- What the insertion of a route gives. -/
structure RouteInsert : Type where
  tree : RadixTree
  stats : NativeStats
  /-- `prior`: the longest-prefix match before the insertion, looked up only when
  conflicts converge -/
  prior : Option BackendId
  /-- absent for the plain `insert` -/
  verdict : Option TrustInsertResult

/-- The backend the prior route went to, if it is another one. -/
def RouteInsert.displaced (i : RouteInsert) (route : PendingRoute) : Option BackendId :=
  i.prior.filter fun prior => prior ≠ route.backend

namespace ShardRouting

variable (s : ShardRouting)

/-- `converge`: conflicts are settled by the lowest backend id. -/
def converge : Bool := s.config.missPlacement = .LEAST_LOADED

/-- The hash a route is published under: at its full stored depth. -/
def routeHash (route : PendingRoute) : UInt64 :=
  hashPrefix route.tokens route.tokens.length s.config.blockAlignment

/-- Evict the least trusted routes down to the limit. -/
def roomForRemote (tree : RadixTree) : RadixTree × NativeStats :=
  if 0 < s.kv.maxRoutes then evictToLimit s.kv.maxRoutes tree.routeCount (tree, s.kv.stats)
  else (tree, s.kv.stats)

/-- Evict the oldest routes down to the limit. -/
def roomForLocal (tree : RadixTree) : RadixTree × NativeStats :=
  if 0 < s.kv.maxRoutes then evictOldestToLimit s.kv.maxRoutes tree.routeCount (tree, s.kv.stats)
  else (tree, s.kv.stats)

/-- The insertion in `apply_route_batch_to_local_tree`. -/
def insertRemote (now : ℕ) (route : PendingRoute) (tree : RadixTree) : RouteInsert :=
  let r := s.roomForRemote tree
  let looked := if s.converge then r.1.lookup now route.tokens else (none, r.1)
  let inserted := looked.2.insertIfTrusted now route.tokens route.backend .REMOTE s.converge
  ⟨inserted.1, r.2, looked.1, some inserted.2⟩

/-- The insertion in `apply_local_batch_to_tree`. -/
def insertLocal (now : ℕ) (route : PendingRoute) (tree : RadixTree) : RouteInsert :=
  let r := s.roomForLocal tree
  if s.converge then
    let looked := r.1.lookup now route.tokens
    let inserted := looked.2.insertIfTrusted now route.tokens route.backend .LOCAL true
    ⟨inserted.1, r.2, looked.1, some inserted.2⟩
  else ⟨r.1.insert now route.tokens route.backend .LOCAL, r.2, none, none⟩

/-- Keep the tree and the counters of an insertion. -/
def withInsert (i : RouteInsert) : ShardRouting :=
  { s with kv := { s.kv with tree := some i.tree, stats := i.stats } }

/-- Publish a route in the index: its backend claims the hash, and the claim of the
backend in `displaced` goes. -/
def claim (route : PendingRoute) (displaced : Option BackendId) : ShardRouting :=
  if route.tokens = [] then s
  else
    let hash := s.routeHash route
    let claimants := s.kv.prefixHashIndex hash
    let claimants :=
      match displaced with
      | some prior => claimants.erase prior
      | none => claimants
    { s with kv := s.kv.setHolders hash (insert route.backend claimants) }

/-- The backend whose claim an announced route takes away: that of the route it
overwrites. -/
def remoteDisplaces (route : PendingRoute) (i : RouteInsert) : Option BackendId :=
  if i.verdict = some .OVERWROTE then i.displaced route else none

/-- One turn of the loop in `apply_route_batch_to_local_tree`. -/
def applyRemoteRoute (now : ℕ) (route : PendingRoute) : ShardRouting :=
  match s.kv.tree with
  | none => s
  | some tree =>
    let i := s.insertRemote now route tree
    if i.verdict = some .REFUSED then s.withInsert i
    else (s.withInsert i).claim route (remoteDisplaces route i)

/-- One turn of the loop in `apply_local_batch_to_tree`, and whether the route stays
in the batch. A refused route stays when there is no prior route of another backend:
its key is shorter than a block. -/
def applyLocalRoute (now : ℕ) (route : PendingRoute) : ShardRouting × Bool :=
  match s.kv.tree with
  | none => (s, true)
  | some tree =>
    let i := s.insertLocal now route tree
    if i.verdict = some .REFUSED ∧ (i.displaced route).isSome then (s.withInsert i, false)
    else ((s.withInsert i).claim route (i.displaced route), true)

section Config

variable {s : ShardRouting} {route : PendingRoute} {now : ℕ}

/-- What is learned does not concern the configuration. -/
theorem claim_config (displaced : Option BackendId) :
    (s.claim route displaced).config = s.config := by
  rw [claim]
  split_ifs <;> rfl

theorem applyLocalRoute_config : (s.applyLocalRoute now route).1.config = s.config := by
  rw [applyLocalRoute]
  split
  · rfl
  · dsimp only
    split_ifs
    · rfl
    · exact claim_config _

theorem applyRemoteRoute_config : (s.applyRemoteRoute now route).config = s.config := by
  rw [applyRemoteRoute]
  split
  · rfl
  · dsimp only
    split_ifs
    · rfl
    · exact claim_config _

end Config

end ShardRouting

/-- `apply_route_batch_to_local_tree`. -/
def applyRouteBatchToLocalTree (now : ℕ) (batch : List PendingRoute) (s : ShardRouting) :
    ShardRouting :=
  batch.foldl (fun s route => s.applyRemoteRoute now route) s

/-- `apply_local_batch_to_tree`: the shard, and what is left of the batch. -/
def applyLocalBatchToTree (now : ℕ) :
    List PendingRoute → ShardRouting → ShardRouting × List PendingRoute
  | [], s => (s, [])
  | route :: batch, s =>
    let r := s.applyLocalRoute now route
    let rest := applyLocalBatchToTree now batch r.1
    (rest.1, if r.2 then route :: rest.2 else rest.2)

/-! ## Push notifications -/

/-- `evict_by_prefix_hash_local`. -/
def evictByPrefixHashLocal (hash : UInt64) (backend : BackendId) (ts : UInt64)
    (s : ShardLocalState) : ShardLocalState :=
  if s.isStale (hash, backend) ts then s
  else
    let s := s.recordTimestamp (hash, backend) ts
    if backend ∉ s.prefixHashIndex hash then s
    else
      let s := s.setHolders hash ((s.prefixHashIndex hash).erase backend)
      { s with tree := s.tree.map fun tree =>
          ((tree.removeRoutesByBackend backend .LOCAL).1.removeRoutesByBackend backend .REMOTE).1 }

/-- `load_route_local`: only the timestamp moves. -/
def loadRouteLocal (hash : UInt64) (backend : BackendId) (ts : UInt64) (s : ShardLocalState) :
    ShardLocalState :=
  if s.isStale (hash, backend) ts then s else s.recordTimestamp (hash, backend) ts

/-! ## The TTL cleanup -/

/-- `collect_live_route_index`. -/
def collectLiveRouteIndex (s : ShardRouting) : UInt64 → Finset BackendId :=
  match s.kv.tree with
  | none => fun _ => ∅
  | some tree => fun hash =>
    ((tree.forEachLeaf.filter fun e => decide (e.tokens ≠ [] ∧
      hashPrefix e.tokens e.tokens.length s.config.blockAlignment = hash)).map
        RouteEntry.backend).toFinset

/-- `fresh_backends`: those whose stream gave a sign of life within the TTL. -/
def freshBackends (now : ℕ) (s : ShardRouting) : Finset BackendId :=
  if 0 < s.config.kvResidencyFreshnessTtl then
    s.kv.nativeKv.fresh.keys.filter fun id => s.nativeStreamLive now id
  else ∅

/-- How many hashes list a backend. -/
noncomputable def entryCount (s : ShardRouting) (id : BackendId) : ℕ :=
  {hash | id ∈ s.kv.prefixHashIndex hash}.ncard

/-- `swap_in_rebuilt_index`: the entries of fresh backends are carried over and
counted anew. -/
noncomputable def swapInRebuiltIndex (now : ℕ) (rebuilt : UInt64 → Finset BackendId)
    (s : ShardRouting) : ShardRouting :=
  let fresh := freshBackends now s
  { s with kv := { s.kv with
      prefixHashIndex := fun hash => rebuilt hash ∪ (s.kv.prefixHashIndex hash).filter (· ∈ fresh)
      nativeKv := { s.kv.nativeKv with
        indexEntries := fresh.toList.foldl
          (fun m id => if 0 < entryCount s id then m.insert id (entryCount s id) else m) ∅ } } }

/-! ## One shard -/

/-- A shard with its buffers. `pendingRemote` belongs to the service on shard 0 and is
empty elsewhere; `rebuilt` is the index collected by a TTL cleanup that has not been
swapped in yet. -/
structure LearningShard : Type where
  routing : ShardRouting
  pendingLocal : List PendingRoute
  pendingRemote : List PendingRoute
  rebuilt : Option (UInt64 → Finset BackendId)

/-- What a shard is asked to do. The flushed batch of another shard arrives as
`receiveLocal`, the announcements flushed by shard 0 as `receiveRemote`. -/
inductive ShardAction : Type where
  | lookup (now : ℕ) (tokens : List TokenId)
  | learnLocal (now : ℕ) (route : PendingRoute)
  | flushLocal (now : ℕ)
  | receiveLocal (now : ℕ) (batch : List PendingRoute)
  | learnRemote (now : ℕ) (route : PendingRoute)
  | flushRemote (now : ℕ)
  | receiveRemote (now : ℕ) (batch : List PendingRoute)
  | native (now : ℕ) (m : NativeMessage)
  | evict (hash : UInt64) (backend : BackendId) (ts : UInt64)
  | load (hash : UInt64) (backend : BackendId) (ts : UInt64)
  /-- `remove_routes_for_backend`: a peer failed -/
  | prune (backend : BackendId)
  | unregister (backend : BackendId)
  /-- the phases of `ttl_cleanup_on_shard`, which yields between them -/
  | expire (cutoff : BackendId → ℕ)
  | compact
  | collect
  | swap (now : ℕ)

namespace LearningShard

/-- Change the routing state. -/
def onRouting (f : ShardRouting → ShardRouting) (s : LearningShard) : LearningShard :=
  { s with routing := f s.routing }

/-- Change the part native operations write. -/
def onKv (f : ShardLocalState → ShardLocalState) (s : LearningShard) : LearningShard :=
  s.onRouting fun r => { r with kv := f r.kv }

/-- Change the tree. -/
def onTree (f : RadixTree → RadixTree) (s : LearningShard) : LearningShard :=
  s.onKv fun kv => { kv with tree := kv.tree.map f }

/-- `flush_local_route_batch`, as far as this shard goes. -/
def flushLocalRouteBatch (now : ℕ) (s : LearningShard) : LearningShard :=
  { s with
    routing := (applyLocalBatchToTree now (deduplicateLocalBatch s.pendingLocal) s.routing).1
    pendingLocal := [] }

/-- `flush_route_batch`, as far as this shard goes. -/
def flushRouteBatch (now : ℕ) (s : LearningShard) : LearningShard :=
  { s with
    routing := applyRouteBatchToLocalTree now s.pendingRemote s.routing
    pendingRemote := [] }

/-- `buffer_local_route`: a batch that is full is flushed at once. -/
def bufferLocalRoute (now : ℕ) (route : PendingRoute) (s : LearningShard) : LearningShard :=
  let s := { s with pendingLocal := pushRoute route s.pendingLocal }
  if maxBatchSize ≤ s.pendingLocal.length then s.flushLocalRouteBatch now else s

/-- `learn_route_remote`: an announcement beyond `max_route_tokens` is rejected. -/
def learnRouteRemote (now : ℕ) (route : PendingRoute) (s : LearningShard) : LearningShard :=
  if 0 < s.routing.kv.maxRouteTokens ∧ s.routing.kv.maxRouteTokens < route.tokens.length then s
  else
    let s := { s with pendingRemote := pushRoute route s.pendingRemote }
    if maxBatchSize ≤ s.pendingRemote.length then s.flushRouteBatch now else s

/-- `unregister_backend_global` on this shard; the index is left as it is. -/
def unregisterBackend (id : BackendId) (s : LearningShard) : LearningShard :=
  s.onRouting fun r =>
    { r with
      backends := Function.update r.backends id none
      backendIds := r.backendIds.erase id
      backendIds_nodup := r.backendIds_nodup.erase id
      deadBackends := r.deadBackends.erase id }

/-- One action. -/
noncomputable def step (s : LearningShard) : ShardAction → Option LearningShard
  | .lookup now tokens => s.onTree fun tree => (tree.lookup now tokens).2
  | .learnLocal now route => s.bufferLocalRoute now route
  | .flushLocal now => s.flushLocalRouteBatch now
  | .receiveLocal now batch => s.onRouting fun r => (applyLocalBatchToTree now batch r).1
  | .learnRemote now route => s.learnRouteRemote now route
  | .flushRemote now => s.flushRouteBatch now
  | .receiveRemote now batch => s.onRouting (applyRouteBatchToLocalTree now batch)
  | .native now m => s.onKv fun kv => m.deliver now kv
  | .evict hash backend ts => s.onKv (evictByPrefixHashLocal hash backend ts)
  | .load hash backend ts => s.onKv (loadRouteLocal hash backend ts)
  | .prune backend => s.onTree fun tree => (tree.removeRoutesByBackend backend .REMOTE).1
  | .unregister backend => s.unregisterBackend backend
  | .expire cutoff => s.onTree fun tree => (tree.removeExpiredPerBackend cutoff).1
  | .compact => s.onTree fun tree => tree.compact.1
  | .collect => some { s with rebuilt := some (collectLiveRouteIndex s.routing) }
  | .swap now => s.rebuilt.map fun rebuilt =>
      { s with routing := swapInRebuiltIndex now rebuilt s.routing, rebuilt := none }

end LearningShard

/-! ## What leaves an entry alone -/

section Keeps

variable (hash : UInt64) (backend : BackendId)

/-- A locally learned route does not take the claim of `backend` on `hash` away: not
if it is refused, nor if it has another hash, nor if the longest-prefix match before
it was not a route of `backend`, or is one of the same backend. -/
def localRouteKeeps (now : ℕ) (route : PendingRoute) (s : ShardRouting) : Bool :=
  match s.kv.tree with
  | none => true
  | some tree =>
    let i := s.insertLocal now route tree
    decide (i.verdict = some .REFUSED ∨ ¬(s.routeHash route = hash ∧ i.displaced route = some backend))

/-- The same for an announced route, which takes claims away only when it overwrites. -/
def remoteRouteKeeps (now : ℕ) (route : PendingRoute) (s : ShardRouting) : Bool :=
  match s.kv.tree with
  | none => true
  | some tree =>
    let i := s.insertRemote now route tree
    decide (¬(s.routeHash route = hash ∧ ShardRouting.remoteDisplaces route i = some backend))

/-- Every route of a local batch, in its turn. -/
def localBatchKeeps (now : ℕ) : List PendingRoute → ShardRouting → Bool
  | [], _ => true
  | route :: batch, s =>
    localRouteKeeps hash backend now route s && localBatchKeeps now batch (s.applyLocalRoute now route).1

/-- Every route of an announced batch, in its turn. -/
def remoteBatchKeeps (now : ℕ) : List PendingRoute → ShardRouting → Bool
  | [], _ => true
  | route :: batch, s =>
    remoteRouteKeeps hash backend now route s && remoteBatchKeeps now batch (s.applyRemoteRoute now route)

/-- A message without a removal of the pair and without a sweep of the backend. -/
def messageKeeps : NativeMessage → Bool
  | .segment ops => ops.all fun op =>
      decide (¬(op.kind = .REMOVE ∧ op.prefixHash = hash ∧ op.backend = backend))
  | .sweep id _ _ => decide (id ≠ backend)

/-- An action in whose course nothing is allowed to remove the entry: no convergent
move away from the backend at that hash, no native removal or sweep, no explicit
eviction, and no index swap while the backend's stream is not fresh. -/
def LearningShard.keeps (s : LearningShard) : ShardAction → Bool
  | .learnLocal now route =>
    let buffer := pushRoute route s.pendingLocal
    if maxBatchSize ≤ buffer.length then
      localBatchKeeps hash backend now (deduplicateLocalBatch buffer) s.routing
    else true
  | .flushLocal now =>
    localBatchKeeps hash backend now (deduplicateLocalBatch s.pendingLocal) s.routing
  | .receiveLocal now batch => localBatchKeeps hash backend now batch s.routing
  | .learnRemote now route =>
    let buffer := pushRoute route s.pendingRemote
    if maxBatchSize ≤ buffer.length then remoteBatchKeeps hash backend now buffer s.routing
    else true
  | .flushRemote now => remoteBatchKeeps hash backend now s.pendingRemote s.routing
  | .receiveRemote now batch => remoteBatchKeeps hash backend now batch s.routing
  | .native _ m => messageKeeps hash backend m
  | .evict h b _ => decide (¬(h = hash ∧ b = backend))
  | .swap now => decide (backend ∈ freshBackends now s.routing)
  | _ => true

variable {hash backend}

theorem ShardRouting.mem_claim {s : ShardRouting} {route : PendingRoute}
    {displaced : Option BackendId} (h : backend ∈ s.kv.prefixHashIndex hash)
    (hkeep : ¬(s.routeHash route = hash ∧ displaced = some backend)) :
    backend ∈ (s.claim route displaced).kv.prefixHashIndex hash := by
  rw [claim]
  split_ifs
  · exact h
  · change backend ∈ Function.update s.kv.prefixHashIndex (s.routeHash route) _ hash
    by_cases hhash : hash = s.routeHash route
    · rw [hhash, Function.update_self]
      rw [hhash] at h
      refine Finset.mem_insert_of_mem ?_
      cases displaced with
      | none => exact h
      | some prior =>
        refine Finset.mem_erase.mpr ⟨?_, h⟩
        rintro rfl
        exact hkeep ⟨hhash.symm, rfl⟩
    · rw [Function.update_of_ne hhash]
      exact h

theorem ShardRouting.mem_applyLocalRoute {s : ShardRouting} {now : ℕ} {route : PendingRoute}
    (h : backend ∈ s.kv.prefixHashIndex hash)
    (hkeep : localRouteKeeps hash backend now route s = true) :
    backend ∈ (s.applyLocalRoute now route).1.kv.prefixHashIndex hash := by
  rw [applyLocalRoute]
  rw [localRouteKeeps] at hkeep
  cases htree : s.kv.tree with
  | none => exact h
  | some tree =>
    rw [htree] at hkeep
    dsimp only
    split_ifs with hdropped
    · exact h
    · refine mem_claim (s := s.withInsert _) h ?_
      rintro ⟨hhash, hdisplaced⟩
      rcases of_decide_eq_true hkeep with hrefused | hkeep
      · exact hdropped ⟨hrefused, by rw [hdisplaced]; rfl⟩
      · exact hkeep ⟨hhash, hdisplaced⟩

theorem ShardRouting.mem_applyRemoteRoute {s : ShardRouting} {now : ℕ} {route : PendingRoute}
    (h : backend ∈ s.kv.prefixHashIndex hash)
    (hkeep : remoteRouteKeeps hash backend now route s = true) :
    backend ∈ (s.applyRemoteRoute now route).kv.prefixHashIndex hash := by
  rw [applyRemoteRoute]
  rw [remoteRouteKeeps] at hkeep
  cases htree : s.kv.tree with
  | none => exact h
  | some tree =>
    rw [htree] at hkeep
    dsimp only
    split_ifs
    · exact h
    · exact mem_claim (s := s.withInsert _) h (of_decide_eq_true hkeep)

theorem mem_applyLocalBatch {now : ℕ} {batch : List PendingRoute} {s : ShardRouting}
    (h : backend ∈ s.kv.prefixHashIndex hash)
    (hkeep : localBatchKeeps hash backend now batch s = true) :
    backend ∈ (applyLocalBatchToTree now batch s).1.kv.prefixHashIndex hash := by
  induction batch generalizing s with
  | nil => exact h
  | cons route batch ih =>
    obtain ⟨hroute, hrest⟩ := Bool.and_eq_true_iff.mp hkeep
    exact ih (ShardRouting.mem_applyLocalRoute h hroute) hrest

theorem mem_applyRemoteBatch {now : ℕ} {batch : List PendingRoute} {s : ShardRouting}
    (h : backend ∈ s.kv.prefixHashIndex hash)
    (hkeep : remoteBatchKeeps hash backend now batch s = true) :
    backend ∈ (applyRouteBatchToLocalTree now batch s).kv.prefixHashIndex hash := by
  induction batch generalizing s with
  | nil => exact h
  | cons route batch ih =>
    obtain ⟨hroute, hrest⟩ := Bool.and_eq_true_iff.mp hkeep
    exact ih (ShardRouting.mem_applyRemoteRoute h hroute) hrest

/-- An operation that is neither a removal of the pair nor a sweep of the backend
keeps the entry. -/
theorem Residency.mem_apply_keeps {r : Residency} {op : NativeKvOp}
    (h : backend ∈ r.prefixHashIndex hash) (hsweep : op.isSweep = false)
    (hkeep : ¬(op.kind = .REMOVE ∧ op.prefixHash = hash ∧ op.backend = backend)) :
    backend ∈ (r.apply op).prefixHashIndex hash := by
  have hnot : ¬op.Sweeps backend := by
    rintro ⟨hs, -⟩
    rw [hsweep] at hs
    cases hs
  by_cases hw : op.Writes hash backend ∧ r.isStale (hash, backend) op.tsMs = false
  · -- a fresh upsert of the pair itself
    obtain ⟨⟨hkind, hhash, hbackend⟩, hfresh⟩ := hw
    have hup : op.kind = .UPSERT := hkind.resolve_right fun hr => hkeep ⟨hr, hhash, hbackend⟩
    exact (mem_apply_of_writes ⟨hkind, hhash, hbackend⟩ hfresh).mpr ⟨hup, .inl h⟩
  · exact (mem_apply_of_not hnot hw).mpr h

theorem Residency.mem_receive_keeps {r : Residency} {m : NativeMessage}
    (h : backend ∈ r.prefixHashIndex hash) (hkeep : messageKeeps hash backend m = true) :
    backend ∈ (r.receive m).prefixHashIndex hash := by
  cases m with
  | sweep id clearRoutes dropTrust =>
    exact mem_purge.mpr ⟨h, of_decide_eq_true hkeep⟩
  | segment ops =>
    rw [receive]
    rw [messageKeeps, List.all_eq_true] at hkeep
    induction ops generalizing r with
    | nil => exact h
    | cons op ops ih =>
      have hrest : ∀ o, o ∈ ops → _ := fun o ho => hkeep o (List.mem_cons_of_mem _ ho)
      cases hop : op.isSweep with
      | true => simpa [hop] using ih h hrest
      | false =>
        have hfirst := mem_apply_keeps h hop (of_decide_eq_true (hkeep op List.mem_cons_self))
        simpa [hop] using ih hfirst hrest

theorem mem_deliver_keeps {s : ShardLocalState} {now : ℕ} {m : NativeMessage}
    (h : backend ∈ s.prefixHashIndex hash) (hkeep : messageKeeps hash backend m = true) :
    backend ∈ (m.deliver now s).prefixHashIndex hash := by
  have hres := residency_deliver now s m
  have hmem := Residency.mem_receive_keeps (r := s.residency) h hkeep
  rw [← hres] at hmem
  exact hmem

theorem mem_evictByPrefixHashLocal {s : ShardLocalState} {h' : UInt64} {b : BackendId} {ts : UInt64}
    (h : backend ∈ s.prefixHashIndex hash) (hkeep : ¬(h' = hash ∧ b = backend)) :
    backend ∈ (evictByPrefixHashLocal h' b ts s).prefixHashIndex hash := by
  have hrecord : (s.recordTimestamp (h', b) ts).prefixHashIndex = s.prefixHashIndex := by
    rw [ShardLocalState.recordTimestamp]
    split <;> rfl
  rw [evictByPrefixHashLocal]
  dsimp only
  rw [hrecord]
  split_ifs
  · exact h
  · change backend ∈ Function.update (s.recordTimestamp (h', b) ts).prefixHashIndex h' _ hash
    by_cases hhash : hash = h'
    · rw [hhash, Function.update_self, Finset.mem_erase]
      rw [hhash] at h hkeep
      exact ⟨fun hb => hkeep ⟨rfl, hb.symm⟩, h⟩
    · rw [Function.update_of_ne hhash, hrecord]
      exact h
  · rw [hrecord]
    exact h

theorem mem_loadRouteLocal {s : ShardLocalState} {h' : UInt64} {b : BackendId} {ts : UInt64}
    (h : backend ∈ s.prefixHashIndex hash) :
    backend ∈ (loadRouteLocal h' b ts s).prefixHashIndex hash := by
  rw [loadRouteLocal, ShardLocalState.recordTimestamp]
  split_ifs <;> exact h

theorem mem_swapInRebuiltIndex {s : ShardRouting} {now : ℕ} {rebuilt : UInt64 → Finset BackendId}
    (h : backend ∈ s.kv.prefixHashIndex hash) (hfresh : backend ∈ freshBackends now s) :
    backend ∈ (swapInRebuiltIndex now rebuilt s).kv.prefixHashIndex hash :=
  Finset.mem_union_right _ (Finset.mem_filter.mpr ⟨h, hfresh⟩)

namespace LearningShard

/-- **One action** that keeps the entry. -/
theorem mem_step {s s' : LearningShard} {a : ShardAction}
    (hkeep : s.keeps hash backend a = true) (hstep : s.step a = some s')
    (h : backend ∈ s.routing.kv.prefixHashIndex hash) :
    backend ∈ s'.routing.kv.prefixHashIndex hash := by
  cases a with
  | swap now =>
    obtain ⟨rebuilt, -, rfl⟩ := Option.map_eq_some_iff.mp hstep
    exact mem_swapInRebuiltIndex h (of_decide_eq_true hkeep)
  | learnLocal now route =>
    obtain rfl := Option.some.inj hstep
    rw [bufferLocalRoute]
    rw [keeps] at hkeep
    dsimp only at hkeep ⊢
    split_ifs at hkeep ⊢
    · exact mem_applyLocalBatch h hkeep
    · exact h
  | flushLocal now =>
    obtain rfl := Option.some.inj hstep
    exact mem_applyLocalBatch h hkeep
  | receiveLocal now batch =>
    obtain rfl := Option.some.inj hstep
    exact mem_applyLocalBatch h hkeep
  | learnRemote now route =>
    obtain rfl := Option.some.inj hstep
    rw [keeps] at hkeep
    rw [learnRouteRemote]
    dsimp only at hkeep ⊢
    by_cases hfull : maxBatchSize ≤ (pushRoute route s.pendingRemote).length
    · rw [if_pos hfull] at hkeep
      rw [if_pos hfull]
      split_ifs
      · exact h
      · exact mem_applyRemoteBatch h hkeep
    · rw [if_neg hfull]
      split_ifs <;> exact h
  | flushRemote now =>
    obtain rfl := Option.some.inj hstep
    exact mem_applyRemoteBatch h hkeep
  | receiveRemote now batch =>
    obtain rfl := Option.some.inj hstep
    exact mem_applyRemoteBatch h hkeep
  | native now m =>
    obtain rfl := Option.some.inj hstep
    exact mem_deliver_keeps h hkeep
  | evict h' b ts =>
    obtain rfl := Option.some.inj hstep
    exact mem_evictByPrefixHashLocal h (of_decide_eq_true hkeep)
  | load h' b ts =>
    obtain rfl := Option.some.inj hstep
    exact mem_loadRouteLocal h
  | _ =>
    -- the tree or the registry changes, not the index
    obtain rfl := Option.some.inj hstep
    exact h

end LearningShard

/-- **Entries survive.** Let a backend be listed under a hash, for instance by the last
native `UPSERT` of the pair. In every run of lookups, locally learned routes,
announcements, flushes, native operations, notifications and TTL cleanups whose
actions all keep the entry, the backend stays listed under the hash. -/
theorem entry_survives {s s' : LearningShard} {as : List ShardAction}
    (h : backend ∈ s.routing.kv.prefixHashIndex hash)
    (hmeets : Meets LearningShard.step (fun s a => s.keeps hash backend a = true) s as)
    (hexec : exec LearningShard.step s as = some s') :
    backend ∈ s'.routing.kv.prefixHashIndex hash :=
  exec_invariant (I := fun _ s => backend ∈ s.routing.kv.prefixHashIndex hash)
    (fun hkeep hstep h => LearningShard.mem_step hkeep hstep h) (h := []) hmeets hexec h

end Keeps

/-- A shard without routes, over single-token blocks. -/
def blankShard : LearningShard where
  routing :=
    { kv := { emptyShard with tree := some (RadixTree.create ⟨1, Nat.one_pos⟩ 0) }
      quarantined := ∅
      backends := fun _ => none
      backendIds := []
      backendIds_nodup := List.nodup_nil
      deadBackends := ∅
      config := { blockAlignment := ⟨1, Nat.one_pos⟩ }
      failOpenActive := false
      crossShardLoad := fun _ => none
      gpuLoadCache := {}
      cacheHeadroomCache := {}
      residencyCache := fun _ => none
      scoringWeightsOverrides := fun _ => none }
  pendingLocal := []
  pendingRemote := []
  rebuilt := none

/-- The engine of backend 2 reports the prefix of these tokens. -/
def reports (tokens : List TokenId) : ShardAction :=
  .native 0 (.segment [upsertAt tokens])
where
  /-- the operation -/
  upsertAt (tokens : List TokenId) : NativeKvOp :=
    { kind := .UPSERT
      backend := 2
      tsMs := 1
      prefixHash := hashPrefix tokens tokens.length ⟨1, Nat.one_pos⟩ }

/-- A route of another prefix, a cleanup with the stream fresh, and an announcement of
the same route by the same backend. -/
def freshCleanup : List ShardAction :=
  [.receiveLocal 1 [⟨[9], 1⟩], .collect, .swap 2, .receiveRemote 3 [⟨[5], 2⟩]]

theorem entry_survives_freshCleanup :
    ∃ s', exec LearningShard.step blankShard (reports [5] :: freshCleanup) = some s' ∧
      2 ∈ s'.routing.kv.prefixHashIndex (hashPrefix [5] 1 1) := by
  have hsome : (exec LearningShard.step blankShard (reports [5] :: freshCleanup)).isSome := rfl
  obtain ⟨s', hexec⟩ := Option.isSome_iff_exists.mp hsome
  obtain ⟨s, hreport, hrest⟩ := exec_cons hexec
  obtain rfl := Option.some.inj hreport
  exact ⟨s', hexec, entry_survives (by decide +kernel) (by decide +kernel) hrest⟩

/-- **Lost entries.** Three runs after which the index no longer lists what the engine
of backend 2 reported and never withdrew:

* a local route for a longer prefix, while the shorter one is routed to backend 2;
* an announcement that moves the route of the prefix to backend 1;
* a cleanup after the stream has been silent for longer than the TTL. -/
theorem entry_lost :
    (∃ s', exec LearningShard.step blankShard
        [.receiveLocal 1 [⟨[5], 2⟩], reports [5, 6], .receiveLocal 2 [⟨[5, 6], 1⟩]] = some s' ∧
      2 ∉ s'.routing.kv.prefixHashIndex (hashPrefix [5, 6] 2 1)) ∧
    (∃ s', exec LearningShard.step blankShard
        [.receiveLocal 1 [⟨[5], 2⟩], reports [5], .receiveRemote 2 [⟨[5], 1⟩]] = some s' ∧
      2 ∉ s'.routing.kv.prefixHashIndex (hashPrefix [5] 1 1)) ∧
    (∃ s', exec LearningShard.step blankShard [reports [5], .collect, .swap 301] = some s' ∧
      2 ∉ s'.routing.kv.prefixHashIndex (hashPrefix [5] 1 1)) := by
  refine ⟨⟨_, rfl, ?_⟩, ⟨_, rfl, ?_⟩, ⟨_, rfl, ?_⟩⟩
  all_goals decide +kernel

end Ranvier
