import Ranvier.Backends

/-!
# The selection strategies

How one backend is taken from a list of candidates: by jump hash, by jump hash
with a load cap, by two choices, by the least learned tokens, by weighted roll
and by least load. Each is a function of the candidates; for each there is one
lemma, that what it selects is a candidate.

The source's `double`s are taken exactly. Counters and logs are left out.
-/

namespace Ranvier

/-! ## Jump hash -/

/-- The loop of `jump_consistent_hash`. The next bucket is at least one further,
so as many turns as buckets are enough. -/
def jumpLoop (numBuckets : ℕ) : ℕ → UInt64 → ℕ → ℕ → ℕ
  | 0, _, b, _ => b
  | fuel + 1, key, b, j =>
    if j < numBuckets then
      let key := key * 2862933555777941757 + 1
      jumpLoop numBuckets fuel key j ((j + 1) * 2 ^ 31 / ((key >>> 33).toNat + 1))
    else b

/-- `jump_consistent_hash`; without buckets there is no index to give, and the
source's -1 is as much behind the end as the 0 here. -/
def jumpConsistentHash (key : UInt64) (numBuckets : ℕ) : ℕ := jumpLoop numBuckets numBuckets key 0 0

theorem jumpLoop_lt {numBuckets fuel : ℕ} {key : UInt64} {b j : ℕ} (h : b < numBuckets) :
    jumpLoop numBuckets fuel key b j < numBuckets := by
  induction fuel generalizing key b j with
  | zero => exact h
  | succ fuel ih =>
    rw [jumpLoop]
    -- the bucket is the last position below the bound
    split
    · next hj => exact ih hj
    · exact h

theorem jumpConsistentHash_lt (key : UInt64) {numBuckets : ℕ} (h : 0 < numBuckets) :
    jumpConsistentHash key numBuckets < numBuckets :=
  jumpLoop_lt h

/-- The first probe that reaches bucket `i`. -/
def probeRank (prefixHash : UInt64) (n i : ℕ) : ℕ :=
  ((List.range n).find? fun probe =>
    jumpConsistentHash (prefixHash + UInt64.ofNat probe) n == i).getD noProbeRank

/-- The salt of the second choice: FNV-1a of the request id, if there is one. -/
def requestSalt (prefixHash : UInt64) (requestId : List UInt8) : UInt64 :=
  if requestId = [] then prefixHash else requestId.foldl fnvStep fnvOffsetBasis

namespace ShardRouting

variable (s : ShardRouting)

/-! ## Hash strategies -/

/-- `max(1, ceil(avg * (1 + epsilon)))`. -/
def loadCap (loads : List ℕ) (epsilon : ℚ) : ℕ :=
  max 1 ⌈(loads.sum : ℚ) / loads.length * (1 + epsilon)⌉.toNat

/-- `bounded_load_select`. -/
def boundedLoadSelect (now : ℕ) (prefixHash : UInt64) (liveBackends : List BackendId)
    (epsilon estimatedCost : ℚ) : BackendId :=
  match liveBackends with
  | [] => 0
  | [id] => id
  | _ =>
    let n := liveBackends.length
    let primary := jumpConsistentHash prefixHash n
    if !s.config.loadAwareRouting then liveBackends.getD primary 0
    else
      let loads := liveBackends.map fun id => s.getCapacityAdjustedLoad now id estimatedCost
      if loads.getD primary 0 < loadCap loads epsilon then liveBackends.getD primary 0
      else
        -- over the cap: the least loaded, ties in probe order
        let wins := fun i best =>
          i ≠ best && (loads.getD i 0 < loads.getD best 0 ||
            loads.getD i 0 == loads.getD best 0 &&
              probeRank prefixHash n i < probeRank prefixHash n best)
        liveBackends.getD (scanBest wins primary (List.range n)) 0

/-- `p2c_select`. -/
def p2cSelect (now : ℕ) (prefixHash salt : UInt64) (liveBackends : List BackendId)
    (loadBias : ℕ) (estimatedCost : ℚ) : BackendId :=
  match liveBackends with
  | [] => 0
  | [id] => id
  | _ =>
    let n := liveBackends.length
    let primary := jumpConsistentHash prefixHash n
    if !s.config.loadAwareRouting then liveBackends.getD primary 0
    else
      let other := jumpConsistentHash (prefixHash ^^^ salt) n
      let secondary := if other = primary then (primary + 1) % n else other
      let pLoad := s.getCapacityAdjustedLoad now (liveBackends.getD primary 0) estimatedCost
      let sLoad := s.getCapacityAdjustedLoad now (liveBackends.getD secondary 0) estimatedCost
      if sLoad + loadBias < pLoad then liveBackends.getD secondary 0
      else liveBackends.getD primary 0

/-- The switch over `hash_strategy`. Two of its cases read without a look at the
length; `behindEnd` is what a read behind the end finds. -/
def strategySelect (now : ℕ) (prefixHash salt : UInt64) (candidates : List BackendId)
    (estimatedCost : ℚ) (behindEnd : BackendId) : BackendId :=
  match s.config.hashStrategy with
  | .BOUNDED_LOAD =>
    s.boundedLoadSelect now prefixHash candidates s.config.boundedLoadEpsilon estimatedCost
  | .P2C => s.p2cSelect now prefixHash salt candidates s.config.p2cLoadBias estimatedCost
  | .MODULAR => candidates.getD (prefixHash.toNat % candidates.length) behindEnd
  | .JUMP => candidates.getD (jumpConsistentHash prefixHash candidates.length) behindEnd

variable {s}

theorem jump_mem (key : UInt64) {ids : List BackendId} (d : BackendId) (h : ids ≠ []) :
    ids.getD (jumpConsistentHash key ids.length) d ∈ ids :=
  getD_mem d (jumpConsistentHash_lt key (List.length_pos_of_ne_nil h))

theorem boundedLoadSelect_mem {now : ℕ} {prefixHash : UInt64} {ids : List BackendId}
    {epsilon cost : ℚ} (h : ids ≠ []) :
    s.boundedLoadSelect now prefixHash ids epsilon cost ∈ ids := by
  have hlen : 0 < ids.length := List.length_pos_of_ne_nil h
  unfold boundedLoadSelect
  split
  · exact absurd rfl h
  · exact List.mem_singleton_self _
  · dsimp only
    split
    · exact jump_mem _ _ h
    · split
      · exact jump_mem _ _ h
      · refine getD_mem _ (scanBest_lt _ (jumpConsistentHash_lt _ hlen) ?_)
        exact fun i hi => List.mem_range.mp hi

theorem p2cSelect_mem {now : ℕ} {prefixHash salt : UInt64} {ids : List BackendId} {bias : ℕ}
    {cost : ℚ} (h : ids ≠ []) : s.p2cSelect now prefixHash salt ids bias cost ∈ ids := by
  have hlen : 0 < ids.length := List.length_pos_of_ne_nil h
  unfold p2cSelect
  split
  · exact absurd rfl h
  · exact List.mem_singleton_self _
  · dsimp only
    split
    · exact jump_mem _ _ h
    · -- the second choice, or the one next to the first
      split
      · split
        · exact getD_mem _ (Nat.mod_lt _ hlen)
        · exact jump_mem _ _ h
      · split
        · exact jump_mem _ _ h
        · exact jump_mem _ _ h

theorem strategySelect_mem {now : ℕ} {prefixHash salt : UInt64} {ids : List BackendId} {cost : ℚ}
    {behindEnd : BackendId} (h : ids ≠ []) :
    s.strategySelect now prefixHash salt ids cost behindEnd ∈ ids := by
  rw [strategySelect]
  cases s.config.hashStrategy with
  | JUMP => exact jump_mem _ _ h
  | BOUNDED_LOAD => exact boundedLoadSelect_mem h
  | P2C => exact p2cSelect_mem h
  | MODULAR => exact getD_mem _ (Nat.mod_lt _ (List.length_pos_of_ne_nil h))

/-! ## Least-loaded placement -/

variable (s)

/-- `routes_of`. -/
def routesOf (id : BackendId) : ℕ :=
  match s.kv.tree with
  | none => 0
  | some tree => (tree.book.routesByBackend.lookup id).getD 0

/-- `tokens_of`. -/
def tokensOf (id : BackendId) : ℕ :=
  match s.kv.tree with
  | none => 0
  | some tree => (tree.book.routeTokensByBackend.lookup id).getD 0

/-- The test of `least_loaded_placement`: tokens, routes, load, probe order. -/
def placementBetter (now : ℕ) (prefixHash : UInt64) (candidates : List BackendId)
    (estimatedCost : ℚ) (i best : ℕ) : Bool :=
  let c := candidates.getD i 0
  let b := candidates.getD best 0
  let load := s.getCapacityAdjustedLoad now c estimatedCost
  let bestLoad := s.getCapacityAdjustedLoad now b estimatedCost
  let n := candidates.length
  if s.tokensOf c ≠ s.tokensOf b then s.tokensOf c < s.tokensOf b
  else if s.routesOf c ≠ s.routesOf b then s.routesOf c < s.routesOf b
  else if load ≠ bestLoad then load < bestLoad
  else probeRank prefixHash n i < probeRank prefixHash n best

/-- `least_loaded_placement`. -/
def leastLoadedPlacement (now : ℕ) (prefixHash : UInt64) (candidates : List BackendId)
    (estimatedCost : ℚ) : BackendId :=
  match candidates with
  | [] => 0
  | [id] => id
  | _ =>
    let rest := List.range' 1 (candidates.length - 1)
    candidates.getD (scanBest (s.placementBetter now prefixHash candidates estimatedCost) 0 rest) 0

variable {s}

theorem leastLoadedPlacement_mem {now : ℕ} {prefixHash : UInt64} {ids : List BackendId} {cost : ℚ}
    (h : ids ≠ []) : s.leastLoadedPlacement now prefixHash ids cost ∈ ids := by
  have hlen : 0 < ids.length := List.length_pos_of_ne_nil h
  unfold leastLoadedPlacement
  split
  · exact absurd rfl h
  · exact List.mem_singleton_self _
  · refine getD_mem _ (scanBest_lt _ hlen ?_)
    intro i hi
    have := List.mem_range'_1.mp hi
    omega

/-! ## Selection without affinity -/

variable (s)

/-- The pool-role filter with its valve: if only decode pools are live, all stay. -/
def roleFiltered (liveInfos : List (BackendId × BackendInfo)) : List (BackendId × BackendInfo) :=
  let eligible := liveInfos.filter fun e => e.2.poolRole ≠ .DECODE
  if eligible.isEmpty && !liveInfos.isEmpty then liveInfos else eligible

/-- `min_priority`, the largest `uint32_t` if no backend has a weight. -/
def minPriority (liveInfos : List (BackendId × BackendInfo)) : ℕ :=
  liveInfos.foldl
    (fun m e => if 0 < e.2.weight ∧ e.2.priority < m then e.2.priority else m) (2 ^ 32 - 1)

/-- The highest priority group with weight, in listing order; none when no live
backend has a weight. -/
def priorityGroup : List (BackendId × BackendInfo) :=
  let liveInfos := roleFiltered s.getLiveBackendInfos
  let m := minPriority liveInfos
  if m = 2 ^ 32 - 1 then []
  else liveInfos.filter fun e => e.2.priority == m && e.2.weight ≠ 0

/-- `kMaxTotalWeight`. -/
def kMaxTotalWeight : ℕ := 2 ^ 63 - 1

/-- `total_weight`, saturating. -/
def totalWeight (group : List (BackendId × BackendInfo)) : ℕ :=
  group.foldl
    (fun total e =>
      if kMaxTotalWeight - e.2.weight < total then kMaxTotalWeight else total + e.2.weight) 0

/-- The second pass: the candidate whose cumulative weight passes the roll, the
last one if none does. -/
def pickByWeight (roll : ℕ) : ℕ → BackendId → List (BackendId × BackendInfo) → BackendId
  | _, last, [] => last
  | cumulative, _, (id, info) :: rest =>
    if roll < cumulative + info.weight then id
    else pickByWeight roll (cumulative + info.weight) id rest

/-- `get_random_backend`; the generator's number is reduced to the range. -/
def getRandomBackend (roll : ℕ) : Option BackendId :=
  let group := s.priorityGroup
  let total := totalWeight group
  if total = 0 then none else some (pickByWeight (roll % total) 0 0 group)

/-- The scan of `select_least_loaded_backend`: the best load and who has it. -/
def leastTies (load : BackendId → ℕ) (ids : List BackendId) : ℕ × List BackendId :=
  ids.foldl
    (fun best id =>
      if load id < best.1 then (load id, [id])
      else if load id = best.1 then (best.1, best.2 ++ [id])
      else best) (2 ^ 64 - 1, [])

/-- `select_least_loaded_backend`. -/
def selectLeastLoadedBackend (now roll : ℕ) (estimatedCost : ℚ) : Option BackendId :=
  let ties := (leastTies (fun id => s.getCapacityAdjustedLoad now id estimatedCost)
    (s.priorityGroup.map Prod.fst)).2
  if 1 < ties.length then ties[roll % ties.length]? else ties[0]?

variable {s}

theorem mem_roleFiltered {infos : List (BackendId × BackendInfo)} {e : BackendId × BackendInfo}
    (h : e ∈ roleFiltered infos) : e ∈ infos := by
  rw [roleFiltered] at h
  split at h
  · exact h
  · exact (List.mem_filter.mp h).1

theorem live_of_mem_priorityGroup {e : BackendId × BackendInfo} (h : e ∈ s.priorityGroup) :
    s.Live e.1 := by
  rw [priorityGroup] at h
  split at h
  · cases h
  · exact (s.mem_getLiveBackendInfos (mem_roleFiltered (List.mem_filter.mp h).1)).1

/-- The pick is the last candidate so far or one of the rest. -/
theorem pickByWeight_mem {roll cumulative : ℕ} {last : BackendId}
    {group : List (BackendId × BackendInfo)} :
    pickByWeight roll cumulative last group ∈ last :: group.map Prod.fst := by
  induction group generalizing cumulative last with
  | nil => exact List.mem_singleton_self _
  | cons e rest ih =>
    rw [pickByWeight]
    split
    · exact List.mem_cons_of_mem _ List.mem_cons_self
    · exact List.mem_cons_of_mem _ ih

theorem pickByWeight_mem_of_ne_nil (roll cumulative : ℕ) (last : BackendId)
    {group : List (BackendId × BackendInfo)} (h : group ≠ []) :
    pickByWeight roll cumulative last group ∈ group.map Prod.fst := by
  cases group with
  | nil => exact absurd rfl h
  | cons e rest =>
    rw [pickByWeight]
    split
    · exact List.mem_cons_self
    · exact pickByWeight_mem

theorem getRandomBackend_live {roll : ℕ} {id : BackendId} (h : s.getRandomBackend roll = some id) :
    s.Live id := by
  rw [getRandomBackend] at h
  split at h
  · cases h
  · next htotal =>
    -- an empty group has no weight to roll over
    have hgroup : s.priorityGroup ≠ [] := fun hnil => htotal (by rw [hnil]; rfl)
    have hmem := pickByWeight_mem_of_ne_nil (roll % totalWeight s.priorityGroup) 0 0 hgroup
    rw [Option.some.inj h] at hmem
    obtain ⟨e, he, rfl⟩ := List.mem_map.mp hmem
    exact live_of_mem_priorityGroup he

/-- Who shares the best load is one of the scanned. -/
theorem leastTies_subset {load : BackendId → ℕ} {ids : List BackendId} :
    (leastTies load ids).2 ⊆ ids := by
  suffices h : ∀ (start : ℕ × List BackendId) (all : List BackendId), start.2 ⊆ all → ids ⊆ all →
      (ids.foldl (fun best id =>
        if load id < best.1 then (load id, [id])
        else if load id = best.1 then (best.1, best.2 ++ [id])
        else best) start).2 ⊆ all from h _ ids (List.nil_subset _) (List.Subset.refl _)
  induction ids with
  | nil => exact fun start all hstart _ => hstart
  | cons id ids ih =>
    intro start all hstart hall
    obtain ⟨hid, hids⟩ := List.cons_subset.mp hall
    rw [List.foldl_cons]
    refine ih _ all ?_ hids
    split
    · exact List.cons_subset.mpr ⟨hid, List.nil_subset _⟩
    · split
      · exact List.append_subset.mpr ⟨hstart, List.cons_subset.mpr ⟨hid, List.nil_subset _⟩⟩
      · exact hstart

theorem selectLeastLoadedBackend_live {now roll : ℕ} {cost : ℚ} {id : BackendId}
    (h : s.selectLeastLoadedBackend now roll cost = some id) : s.Live id := by
  rw [selectLeastLoadedBackend] at h
  have hties : id ∈ (leastTies (fun id => s.getCapacityAdjustedLoad now id cost)
      (s.priorityGroup.map Prod.fst)).2 := by
    split at h
    · exact List.mem_of_getElem? h
    · exact List.mem_of_getElem? h
  obtain ⟨e, he, rfl⟩ := List.mem_map.mp (leastTies_subset hties)
  exact live_of_mem_priorityGroup he

end ShardRouting

end Ranvier
