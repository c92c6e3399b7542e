import Mathlib.Algebra.Order.Round
import Mathlib.Data.List.Sort
import Mathlib.Data.Rat.Floor
import Ranvier.NativeKv
import Ranvier.PrefixHash
import Ranvier.RouteScorer

/-!
# The backends of a shard

What routing reads of `ShardLocalState`: the registered backends, the dead set,
the load signals and the configuration. A backend is **live** when it is
registered, not draining and not in the dead set; `get_live_backends` lists
these, and every routing mode selects from that list.

Clock readings are numbers; the source's `double`s are taken exactly.
-/

namespace Ranvier

/-! ## Backends -/

/-- `PoolRole`. -/
inductive PoolRole : Type where
  | UNIFIED
  | PREFILL
  | DECODE
  deriving DecidableEq, Repr

/-- `BackendType`. -/
inductive BackendType : Type where
  | VLLM
  | SGLANG
  | TRT_LLM
  | OLLAMA
  | LM_STUDIO
  | CEREBRAS
  | OPENAI_COMPATIBLE
  deriving DecidableEq, Repr

/-- `HardwareLabel`. -/
inductive HardwareLabel : Type where
  | UNSPECIFIED
  | GPU_SMALL
  | GPU_LARGE
  deriving DecidableEq, Repr

/-- `RoutingWeightsKey`, with the defaults of an unlabeled backend. -/
structure RoutingWeightsKey : Type where
  modelFamily : String := ""
  backendType : BackendType := .VLLM
  hardwareLabel : HardwareLabel := .UNSPECIFIED
  deriving DecidableEq, Repr

/-- A socket address. -/
abbrev SocketAddress : Type := ℕ

/-- The part of `BackendInfo` that routing reads. -/
structure BackendInfo : Type where
  addr : SocketAddress
  weight : ℕ := 100
  priority : ℕ := 0
  isDraining : Bool := false
  activeRequests : ℕ := 0
  currentCostBudget : ℚ := 0
  compressionRatio : ℚ := 1
  costPerHour : ℚ := 0
  poolRole : PoolRole := .UNIFIED
  weightsKey : RoutingWeightsKey := {}

/-! ## Configuration -/

/-- `RoutingConfig::RoutingMode`. -/
inductive RoutingMode : Type where
  | PREFIX
  | HASH
  | RANDOM
  | LEAST_LOADED
  deriving DecidableEq, Repr

/-- `RoutingConfig::HashStrategy`. -/
inductive HashStrategy : Type where
  | JUMP
  | BOUNDED_LOAD
  | P2C
  | MODULAR
  deriving DecidableEq, Repr

/-- `RoutingConfig::MissPlacement`. -/
inductive MissPlacement : Type where
  | HASH
  | LEAST_LOADED
  deriving DecidableEq, Repr

/-- The part of `RoutingConfig` that routing reads, with the defaults. -/
structure RoutingConfig : Type where
  blockAlignment : ℕ+ := 16
  routingMode : RoutingMode := .PREFIX
  prefixTokenLength : ℕ := 128
  hashStrategy : HashStrategy := .BOUNDED_LOAD
  boundedLoadEpsilon : ℚ := 1
  p2cLoadBias : ℕ := 2
  missPlacement : MissPlacement := .LEAST_LOADED
  loadAwareRouting : Bool := true
  loadImbalanceFactor : ℚ := 2
  loadImbalanceFloor : ℕ := 2
  gpuLoadWeight : ℚ := 0
  gpuLoadCacheTtl : ℕ := 30
  crossShardLoadSync : Bool := true
  capacityHeadroomWeight : ℚ := 0
  cacheResidencyThreshold : ℚ := 1 / 5
  kvResidencyFreshnessTtl : ℕ := 300
  kvNativeIndexedDepth : ℕ := 2048
  replicationMaxHolders : ℕ := 0
  costRoutingEnabled : Bool := false
  costRoutingMaxCost : ℚ := 10000
  costRoutingSmallThreshold : ℚ := 500
  costRoutingFastLane : Bool := true
  costRoutingImbalanceFactor : ℚ := 2
  scoring : ScoringWeights := {}

/-! ## Shard state -/

/-- A per-backend cache refreshed as a whole. -/
structure ScoreCache : Type where
  values : BackendId → Option ℚ := fun _ => none
  updatedAt : ℕ := 0

/-- The part of `ShardLocalState` that routing reads; `kv` is the part that
native operations write. `register_backend_global` adds an id only if it is not
there yet. -/
structure ShardRouting : Type where
  kv : ShardLocalState
  /-- streams put in quarantine by the alignment probe -/
  quarantined : Finset BackendId
  backends : BackendId → Option BackendInfo
  backendIds : List BackendId
  backendIds_nodup : backendIds.Nodup
  deadBackends : Finset BackendId
  config : RoutingConfig
  failOpenActive : Bool
  /-- in-flight requests on the other shards -/
  crossShardLoad : BackendId → Option ℕ
  gpuLoadCache : ScoreCache
  cacheHeadroomCache : ScoreCache
  residencyCache : BackendId → Option (ℚ × ℕ)
  scoringWeightsOverrides : RoutingWeightsKey → Option ScoringWeights

namespace ShardRouting

variable (s : ShardRouting)

/-- Registered, not draining, not marked dead. -/
def Live (id : BackendId) : Prop :=
  id ∉ s.deadBackends ∧ ∃ info, s.backends id = some info ∧ info.isDraining = false

/-- The filter shared by the two listings. -/
def isLive (id : BackendId) : Bool :=
  if id ∈ s.deadBackends then false
  else
    match s.backends id with
    | none => false
    | some info => !info.isDraining

/-- `get_live_backends`. -/
def getLiveBackends : List BackendId := (s.backendIds.filter s.isLive).mergeSort (· ≤ ·)

/-- `get_live_backend_infos`. -/
def getLiveBackendInfos : List (BackendId × BackendInfo) :=
  (s.backendIds.filter s.isLive).filterMap fun id => (s.backends id).map fun info => (id, info)

/-- `get_all_backend_ids`. -/
def getAllBackendIds : List BackendId := s.backendIds

/-- `get_backend_address`. -/
def getBackendAddress (id : BackendId) : Option SocketAddress :=
  (s.backends id).map BackendInfo.addr

/-- `role_eligible`. -/
def roleEligible (id : BackendId) : Bool :=
  match s.backends id with
  | none => true
  | some info => info.poolRole ≠ .DECODE

theorem isLive_iff {id : BackendId} : s.isLive id = true ↔ s.Live id := by
  rw [isLive, Live]
  split
  · next h => simp [h]
  · next h =>
    cases hb : s.backends id with
    | none => simp
    | some info => simp [h]

theorem mem_getLiveBackends {id : BackendId} :
    id ∈ s.getLiveBackends ↔ id ∈ s.backendIds ∧ s.Live id := by
  rw [getLiveBackends, List.mem_mergeSort, List.mem_filter, isLive_iff]

/-- Backends registered in the order of their ids are listed as they are. -/
theorem getLiveBackends_of_pairwise
    (h : (s.backendIds.filter s.isLive).Pairwise fun id other => decide (id ≤ other) = true) :
    s.getLiveBackends = s.backendIds.filter s.isLive :=
  List.mergeSort_of_pairwise h

theorem getLiveBackends_nodup : s.getLiveBackends.Nodup :=
  (List.mergeSort_perm _ _).nodup_iff.mpr (s.backendIds_nodup.filter _)

theorem mem_getLiveBackendInfos {e : BackendId × BackendInfo} (h : e ∈ s.getLiveBackendInfos) :
    s.Live e.1 ∧ s.backends e.1 = some e.2 := by
  obtain ⟨id, hid, he⟩ := List.mem_filterMap.mp h
  obtain ⟨info, hinfo, rfl⟩ := Option.map_eq_some_iff.mp he
  exact ⟨(s.isLive_iff).mp (List.mem_filter.mp hid).2, hinfo⟩

/-! ## Load -/

/-- `get_backend_load`. -/
def getBackendLoad (id : BackendId) : ℕ :=
  match s.backends id with
  | none => 0
  | some info =>
    if s.config.crossShardLoadSync then info.activeRequests + (s.crossShardLoad id).getD 0
    else info.activeRequests

/-- A score from a cache, -1 without a usable one. -/
def cachedScore (cache : ScoreCache) (now : ℕ) (id : BackendId) : ℚ :=
  if s.config.gpuLoadCacheTtl < now - cache.updatedAt then -1 else (cache.values id).getD (-1)

/-- `get_cached_gpu_load`. -/
def getCachedGpuLoad (now : ℕ) (id : BackendId) : ℚ := s.cachedScore s.gpuLoadCache now id

/-- `get_cached_cache_pressure`. -/
def getCachedCachePressure (now : ℕ) (id : BackendId) : ℚ :=
  s.cachedScore s.cacheHeadroomCache now id

/-- `get_cached_residency`. -/
def getCachedResidency (now : ℕ) (id : BackendId) : ℚ :=
  match s.residencyCache id with
  | none => -1
  | some (residency, updatedAt) =>
    if s.config.gpuLoadCacheTtl < now - updatedAt then -1 else residency

/-- `get_composite_backend_load`. -/
def getCompositeBackendLoad (now : ℕ) (id : BackendId) : ℕ :=
  let localLoad := s.getBackendLoad id
  let gpuScore := s.getCachedGpuLoad now id
  if gpuScore < 0 then localLoad else localLoad + ⌊gpuScore * s.config.gpuLoadWeight⌋.toNat

/-- `get_capacity_adjusted_load`. -/
def getCapacityAdjustedLoad (now : ℕ) (id : BackendId) (estimatedCost : ℚ) : ℕ :=
  let base := s.getCompositeBackendLoad now id
  if s.config.capacityHeadroomWeight ≤ 0 then base
  else
    let cachePressure := s.getCachedCachePressure now id
    if cachePressure < 0 then base
    else
      let costScale :=
        if 0 < estimatedCost ∧ 0 < s.config.costRoutingMaxCost then
          min (estimatedCost / s.config.costRoutingMaxCost) 1
        else 0
      base + ⌊s.config.capacityHeadroomWeight * cachePressure * (1 + costScale)⌋.toNat

/-- `get_backend_cost`. -/
def getBackendCost (id : BackendId) : ℚ :=
  match s.backends id with
  | none => 0
  | some info => info.currentCostBudget

/-! ## Native streams -/

/-- `native_stream_live`. -/
def nativeStreamLive (now : ℕ) (id : BackendId) : Bool :=
  match s.kv.nativeKv.fresh.lookup id with
  | none => false
  | some seen => now - seen ≤ s.config.kvResidencyFreshnessTtl

/-- `native_residency_fresh`. -/
def nativeResidencyFresh (now : ℕ) (id : BackendId) : Bool :=
  s.nativeStreamLive now id && id ∉ s.quarantined

/-- `native_absence_trusted`. -/
def nativeAbsenceTrusted (now : ℕ) (id : BackendId) : Bool :=
  s.nativeResidencyFresh now id && id ∈ s.kv.nativeKv.complete

/-- `MAX_VERIFIED_HOLDERS`. -/
def maxVerifiedHolders : ℕ := 64

/-- `verified_holders_of`, with the holders of the hash in the order the hash
set lists them. -/
def verifiedHoldersOf (now : ℕ) (listed liveBackends : List BackendId) (exclude : BackendId) :
    List BackendId :=
  (listed.filter fun cand =>
    cand ≠ exclude && liveBackends.contains cand && s.roleEligible cand &&
      s.nativeResidencyFresh now cand).take maxVerifiedHolders

theorem mem_verifiedHoldersOf {now : ℕ} {listed liveBackends : List BackendId}
    {exclude id : BackendId} (h : id ∈ s.verifiedHoldersOf now listed liveBackends exclude) :
    id ∈ listed ∧ id ≠ exclude ∧ id ∈ liveBackends ∧ s.roleEligible id = true ∧
      s.nativeResidencyFresh now id = true := by
  have := List.mem_filter.mp (List.mem_of_mem_take h)
  simpa [and_assoc] using this

end ShardRouting

end Ranvier
