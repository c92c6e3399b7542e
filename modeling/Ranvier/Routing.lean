import Ranvier.Placement

/-!
# Routing a request

`route_request` and what it calls. In prefix mode an **anchor** is found first,
the learned route if its backend is live and warm, else a placement among the
miss candidates; then one scoring pass over the live backends decides where the
request goes.

Zero is a backend's id and also stands for "no cache-cold backend" and "no other
holder". The miss filter drops the cold backend and the decode pools, and its
valve lets the decode pools in again but not the cold one. So when backend zero
is a decode pool and the only live backend, there is no candidate left, and the
placement reads behind the end of an empty vector (`ReadsBehindEnd`).

The recency of the tree, the ring of recent keys, the hot prefixes and the
counters, which a decision moves and no later step here reads, are left out.
-/

namespace Ranvier

/-- What `route_request` is called with. -/
structure RouteRequest : Type where
  tokens : List TokenId
  requestId : List UInt8 := []
  prefixBoundary : ℕ := 0
  estimatedCost : ℚ := 0

/-- What a decision depends on beside the shard's state. -/
structure Circumstances : Type where
  now : ℕ
  /-- the generator's number -/
  roll : ℕ
  /-- the order in which a hash set lists its elements -/
  listing : Finset BackendId → List BackendId
  listing_coe : ∀ ids, (listing ids : Multiset BackendId) = ids.val
  /-- what a read behind the end of a vector finds -/
  behindEnd : BackendId

/-- `PrefixRouteResult`; its `matched_prefix_depth` is never set. -/
structure PrefixRouteResult : Type where
  backendId : Option BackendId := none
  artHit : Bool := false
  backendLoadAtDecision : ℚ := 0
  wasLoadRedirect : Bool := false
  wasCostRedirect : Bool := false
  wasFastLane : Bool := false
  backendCostAtDecision : ℚ := 0
  originalSelected : BackendId := 0
  deriving DecidableEq

/-- `RouteResult`. -/
structure RouteResult : Type where
  backendId : Option BackendId := none
  routingMode : String := ""
  cacheHit : Bool := false
  errorMessage : String := ""
  backendLoadAtDecision : ℚ := 0
  wasLoadRedirect : Bool := false
  wasCostRedirect : Bool := false
  wasFastLane : Bool := false
  backendCostAtDecision : ℚ := 0
  originalSelected : BackendId := 0
  matchedPrefixDepth : ℕ := 0
  deriving DecidableEq

/-- What the lookup of the learned route leaves: the backend of a hit, or the
cache-cold backend (zero for none) of a downgraded one. -/
structure ArtAnswer : Type where
  hit : Option BackendId := none
  residency : ℚ := -1
  residencyCold : BackendId := 0
  deriving DecidableEq

/-- What the scoring pass starts from. -/
structure Anchor : Type where
  selected : BackendId
  artHit : Bool
  residency : ℚ := -1
  residencyCold : BackendId := 0
  roleValve : Bool := false
  deriving DecidableEq

namespace ShardRouting

variable (s : ShardRouting) (req : RouteRequest) (c : Circumstances)

/-! ## The anchor -/

/-- `prefix_len`. -/
def routingPrefixLen : ℕ :=
  if 0 < req.prefixBoundary ∧ req.prefixBoundary ≤ req.tokens.length then req.prefixBoundary
  else min req.tokens.length s.config.prefixTokenLength

/-- The hash of the request's prefix. -/
def requestHash : UInt64 :=
  hashPrefix req.tokens (s.routingPrefixLen req) s.config.blockAlignment

/-- The least loaded holder, then the lower id; zero for none. -/
def leastLoadedHolder (now : ℕ) (holders : List BackendId) : BackendId :=
  let wins := fun (cand best : BackendId × ℕ) =>
    best.1 == 0 || cand.2 < best.2 || (cand.2 == best.2 && cand.1 < best.1)
  (scanBest wins (0, 0) (holders.map fun id => (id, s.getCompositeBackendLoad now id))).1

/-- The verified holders of the request's prefix. -/
def requestHolders (exclude : BackendId) : List BackendId :=
  s.verifiedHoldersOf c.now (c.listing (s.kv.prefixHashIndex (s.requestHash req)))
    s.getLiveBackends exclude

/-- What the native index decides about the learned backend, if it can vouch for
anything: who serves the hit, and the anchor's residency. -/
def nativeVerdict (artBackend : BackendId) : Option (BackendId × ℚ) :=
  if 0 < s.config.kvResidencyFreshnessTtl ∧ s.nativeResidencyFresh c.now artBackend ∧
      s.routingPrefixLen req ≤ s.config.kvNativeIndexedDepth then
    if artBackend ∈ s.kv.prefixHashIndex (s.requestHash req) then some (artBackend, 1)
    else if !s.nativeAbsenceTrusted c.now artBackend then none
    else
      let holder := s.leastLoadedHolder c.now (s.requestHolders req c artBackend)
      if holder ≠ 0 then some (holder, 1) else some (artBackend, 0)
  else none

/-- `anchor_residency` by the gossiped estimate. -/
def gossipedResidency (artBackend : BackendId) : ℚ :=
  if 0 < s.config.cacheResidencyThreshold ∨ 0 < s.config.scoring.residencyWeight then
    s.getCachedResidency c.now artBackend
  else -1

/-- Step 1 of `get_backend_for_prefix`. -/
def artAnswer : ArtAnswer :=
  match s.kv.tree with
  | none => {}
  | some tree =>
    match (tree.lookup c.now req.tokens).1 with
    | none => {}
    | some artBackend =>
      if artBackend ∈ s.getLiveBackends then
        match s.nativeVerdict req c artBackend with
        | some (holder, residency) => { hit := some holder, residency := residency }
        | none =>
          let residency := s.gossipedResidency c artBackend
          let cacheCold := 0 ≤ residency ∧ residency < s.config.cacheResidencyThreshold
          if cacheCold ∧ 1 < s.getLiveBackends.length then
            { residency := residency, residencyCold := artBackend }
          else { hit := some artBackend, residency := residency }
      else {}

/-- The candidates of a miss, and whether the valve waived the roles. -/
def missCandidates (residencyCold : BackendId) : List BackendId × Bool :=
  let live := s.getLiveBackends
  let anyRoleExcluded := live.any fun id => !s.roleEligible id
  if residencyCold ≠ 0 ∨ anyRoleExcluded then
    let filtered := live.filter fun id =>
      id ≠ residencyCold && !(anyRoleExcluded && !s.roleEligible id)
    if filtered = [] then (live.filter fun id => id ≠ residencyCold, true) else (filtered, false)
  else (live, false)

/-- The placement of a miss. -/
def missSelect (candidates : List BackendId) : BackendId :=
  let hash := s.requestHash req
  match s.config.missPlacement with
  | .LEAST_LOADED =>
    let bucket := candidates.getD (jumpConsistentHash hash candidates.length) c.behindEnd
    let selected := s.leastLoadedPlacement c.now hash candidates req.estimatedCost
    if selected = 0 then bucket else selected
  | .HASH =>
    s.strategySelect c.now hash (requestSalt hash req.requestId) candidates req.estimatedCost
      c.behindEnd

/-- Steps 1 and 2 of `get_backend_for_prefix`. -/
def anchor : Anchor :=
  let art := s.artAnswer req c
  match art.hit with
  | some selected => { selected := selected, artHit := true, residency := art.residency }
  | none =>
    let miss := s.missCandidates art.residencyCold
    { selected := s.missSelect req c miss.1
      artHit := false
      residency := art.residency
      residencyCold := art.residencyCold
      roleValve := miss.2 }

/-! ## The terms of the score -/

/-- `compute_load_allowance`. -/
def computeLoadAllowance (strategy : HashStrategy) (loads : List ℕ) : ℚ :=
  if loads = [] then 0
  else
    match strategy with
    | .BOUNDED_LOAD => (loadCap loads s.config.boundedLoadEpsilon : ℚ) - 1
    | .P2C => (loads.foldl min (loads.headD 0) + s.config.p2cLoadBias : ℕ)
    | .JUMP | .MODULAR =>
      ((loads.mergeSort (· ≤ ·)).getD (loads.length / 2) 0 : ℚ) * s.config.loadImbalanceFactor +
        s.config.loadImbalanceFloor

/-- `weights_key_for`. -/
def weightsKeyFor (id : BackendId) : RoutingWeightsKey :=
  match s.backends id with
  | none => {}
  | some info => info.weightsKey

/-- `resolve_scoring_weights` at the anchor's key. -/
def resolveScoringWeights (selected : BackendId) : ScoringWeights :=
  (s.scoringWeightsOverrides (s.weightsKeyFor selected)).getD s.config.scoring

/-- `median_strategy`. -/
def medianStrategy : Bool := s.config.hashStrategy = .JUMP || s.config.hashStrategy = .MODULAR

/-- `load_term`. -/
def loadTerm (a : Anchor) : Bool := s.config.loadAwareRouting && (a.artHit || s.medianStrategy)

/-- `cost_term`. -/
def costTerm : Bool := s.config.costRoutingEnabled && 0 < req.estimatedCost

/-- `cost_per_hour` of a backend, zero for an unpriced one. -/
def priceOf (id : BackendId) : ℚ :=
  match s.backends id with
  | none => 0
  | some info => info.costPerHour

/-- `price_term`. -/
def priceTerm (a : Anchor) : Bool :=
  !a.artHit && 0 < (s.resolveScoringWeights a.selected).priceWeight && 0 < s.priceOf a.selected &&
    2 ≤ s.getLiveBackends.length - (if a.residencyCold ≠ 0 then 1 else 0)

/-- `dispatch_ids`. -/
def dispatchIds (a : Anchor) : List BackendId :=
  s.getLiveBackends.filter fun id => id == a.selected || a.roleValve || s.roleEligible id

/-- An entry of `dispatch_loads`. -/
def dispatchLoad (id : BackendId) : ℕ :=
  if s.medianStrategy then s.getCompositeBackendLoad c.now id
  else s.getCapacityAdjustedLoad c.now id req.estimatedCost

/-- `allowance`. -/
def allowance (a : Anchor) : ℚ :=
  if s.loadTerm a then
    s.computeLoadAllowance s.config.hashStrategy ((s.dispatchIds a).map (s.dispatchLoad req c))
  else 0

/-- `anchor_affinity`. -/
def anchorAffinity (a : Anchor) : ℚ :=
  let w := s.resolveScoringWeights a.selected
  if a.artHit then
    if 0 < w.residencyWeight ∧ 0 ≤ a.residency then
      max 0 (1 - w.residencyWeight * (1 - a.residency))
    else 1
  else 0

/-- `small_request`. -/
def smallRequest : Bool :=
  req.estimatedCost < s.config.costRoutingSmallThreshold && s.config.costRoutingFastLane

/-- An entry of `cost_pressures`. -/
def costPressure (id : BackendId) : ℚ := s.getBackendCost id / s.config.costRoutingMaxCost

/-- How far a backend's budget would be exceeded with this request. -/
def budgetOverrun (id : BackendId) : ℚ :=
  let compression :=
    match s.backends id with
    | none => 1
    | some info => info.compressionRatio
  max 0 ((s.getBackendCost id + req.estimatedCost) /
    (s.config.costRoutingMaxCost * compression) - 1)

/-- An entry of `cost_hinges`; without headroom anywhere the budget says nothing. -/
def costHinge (a : Anchor) (id : BackendId) : ℚ :=
  let ids := s.dispatchIds a
  if s.smallRequest req then
    let pressures := ids.map s.costPressure
    let minPressure := pressures.foldl min (pressures.headD 0)
    max 0 (s.costPressure id - minPressure * s.config.costRoutingImbalanceFactor)
  else if ids.any fun other => s.budgetOverrun req other = 0 then s.budgetOverrun req id
  else 0

/-- `guard_threshold`. -/
def guardThreshold (a : Anchor) : ℚ :=
  s.computeLoadAllowance .JUMP
    (((s.dispatchIds a).filter fun id => id ≠ a.residencyCold).map (s.getCompositeBackendLoad c.now))

/-- An entry of `price_advantages`. -/
def priceAdvantage (a : Anchor) (id : BackendId) : ℚ :=
  let anchorPrice := s.priceOf a.selected
  let price := s.priceOf id
  if id = a.selected ∨ id = a.residencyCold ∨ price ≤ 0 ∨ anchorPrice ≤ price ∨
      s.guardThreshold c a < s.getCompositeBackendLoad c.now id then 0
  else (anchorPrice - price) / anchorPrice

/-- An entry of `scored` before the ranks. -/
def scoreCandidate (a : Anchor) (id : BackendId) : ScoreCandidate where
  id := id
  isAnchor := id = a.selected
  affinity := if id = a.selected then s.anchorAffinity a else 0
  load := s.dispatchLoad req c id
  loadAllowance := s.allowance req c a
  costHinge := if s.costTerm req then s.costHinge req a id else 0
  costPressure := if s.costTerm req then s.costPressure id else 0
  priceAdvantage := if s.priceTerm a then s.priceAdvantage c a id else 0
  priceTiebreakLoad := if s.priceTerm a then s.getCompositeBackendLoad c.now id else 0

/-! ## The ranks -/

/-- Probe ranks for the candidates under their allowance. -/
def withProbeRanks (hash : UInt64) (scored : List ScoreCandidate) : List ScoreCandidate :=
  scored.mapIdx fun i cand =>
    if loadHinge cand.load cand.loadAllowance = 0 then
      { cand with probeRank := probeRank hash scored.length i }
    else cand

/-- A holder under its allowance. -/
def holdsUnderAllowance (holders : List BackendId) (cand : ScoreCandidate) : Bool :=
  holders.contains cand.id && loadHinge cand.load cand.loadAllowance = 0

/-- The verified holders under their allowance. -/
def markHolders (holders : List BackendId) (scored : List ScoreCandidate) : List ScoreCandidate :=
  scored.map fun cand =>
    if holdsUnderAllowance holders cand then { cand with holderRank := kHolderRankVerified }
    else cand

/-- The loop for the designated replica: the lowest probe rank with a fresh stream. -/
def designated (scored : List ScoreCandidate) : Option ℕ :=
  (List.range scored.length).foldl
    (fun best i =>
      let cand := scored.getD i {}
      if cand.isAnchor || cand.probeRank == noProbeRank || !s.nativeResidencyFresh c.now cand.id then
        best
      else
        match best with
        | none => some i
        | some j => if cand.probeRank < (scored.getD j {}).probeRank then some i else best)
    none

/-- The designated replica gets its rank. -/
def designate (scored : List ScoreCandidate) : List ScoreCandidate :=
  scored.mapIdx fun i cand =>
    if s.designated c scored = some i then { cand with holderRank := kHolderRankDesignated }
    else cand

/-- At the holder cap only the anchor and the holders stay. -/
def keepHolders (holders : List BackendId) (scored : List ScoreCandidate) : List ScoreCandidate :=
  (scored.filter fun cand => cand.isAnchor || holders.contains cand.id).map fun cand =>
    if cand.isAnchor then cand else { cand with holderRank := kHolderRankVerified }

/-- Replication by diversion. -/
def rankHolders (holders : List BackendId) (scored : List ScoreCandidate) : List ScoreCandidate :=
  let marked := markHolders holders scored
  let maxHolders := s.config.replicationMaxHolders
  if 2 ≤ maxHolders ∧ scored.any (holdsUnderAllowance holders) = false then
    if holders.length + 1 < maxHolders then s.designate c marked else keepHolders holders marked
  else marked

/-- `scored`, with the ranks for a hit whose anchor forfeits its allowance. -/
def scored (a : Anchor) : List ScoreCandidate :=
  let scored := (s.dispatchIds a).map (s.scoreCandidate req c a)
  if s.loadTerm a ∧ s.config.hashStrategy = .BOUNDED_LOAD ∧ a.artHit ∧
      0 < loadHinge (s.dispatchLoad req c a.selected) (s.allowance req c a) then
    let ranked := withProbeRanks (s.requestHash req) scored
    if 1 ≤ s.config.replicationMaxHolders ∧ 0 < s.config.kvResidencyFreshnessTtl ∧
        s.routingPrefixLen req ≤ s.config.kvNativeIndexedDepth then
      s.rankHolders c (s.requestHolders req c a.selected) ranked
    else ranked
  else scored

/-! ## The decision -/

/-- The scoring pass of `get_backend_for_prefix`. -/
def scoringPass (a : Anchor) : PrefixRouteResult :=
  let loadTerm := s.loadTerm a
  if !loadTerm && !s.costTerm req && !s.priceTerm a then
    { backendId := some a.selected, artHit := a.artHit, originalSelected := a.selected }
  else
    let scored := s.scored req c a
    let decision := scoreAndSelect scored (s.resolveScoringWeights a.selected) loadTerm
    let behindEnd : ScoreCandidate := { id := c.behindEnd }
    let placement := (scored.getD decision.placement behindEnd).id
    let final := (scored.getD decision.dispatch behindEnd).id
    let gpuScore := s.getCachedGpuLoad c.now placement
    let loadRedirect := decision.loadDiverted && 0 ≤ gpuScore
    let costRedirect := s.costTerm req && decision.costDiverted
    { backendId := some final
      artHit := a.artHit
      backendLoadAtDecision := if loadRedirect then gpuScore else 0
      wasLoadRedirect := loadRedirect
      wasCostRedirect := costRedirect
      wasFastLane := costRedirect && s.smallRequest req
      backendCostAtDecision := if s.costTerm req then s.getBackendCost final else 0
      originalSelected := placement }

/-- `get_backend_for_prefix`. -/
def getBackendForPrefix : PrefixRouteResult :=
  match s.getLiveBackends with
  | [] => {}
  | first :: rest =>
    if s.routingPrefixLen req = 0 then
      let fallback := ((first :: rest).find? s.roleEligible).getD first
      { backendId := some fallback, originalSelected := fallback }
    else s.scoringPass req c (s.anchor req c)

/-- `get_backend_by_hash`. -/
def getBackendByHash : Option BackendId :=
  if s.getLiveBackends = [] then none
  else
    let eligible := s.getLiveBackends.filter s.roleEligible
    let live := if eligible = [] then s.getLiveBackends else eligible
    let len := min req.tokens.length s.config.prefixTokenLength
    if len = 0 then some (live.getD 0 c.behindEnd)
    else
      let hash := hashPrefix req.tokens len s.config.blockAlignment
      some (s.strategySelect c.now hash (requestSalt hash req.requestId) live 0 c.behindEnd)

/-- A mode without affinity. -/
def unanchored (routingMode errorMessage : String) (load : BackendId → ℚ) :
    Option BackendId → RouteResult
  | none => { routingMode := routingMode, errorMessage := errorMessage }
  | some id =>
    { backendId := some id
      routingMode := routingMode
      backendLoadAtDecision := load id
      originalSelected := id }

/-- `effective_prefix_len`. -/
def effectivePrefixLen : ℕ :=
  if 0 < req.prefixBoundary then req.prefixBoundary
  else min req.tokens.length s.config.prefixTokenLength

/-- `route_request`. -/
def routeRequest : RouteResult :=
  let depth := s.effectivePrefixLen req % 2 ^ 32
  if s.failOpenActive then
    unanchored "random" "No backends registered (fail-open mode)" (fun _ => 0)
      (s.getRandomBackend c.roll)
  else
    match s.config.routingMode with
    | .PREFIX =>
      let r := s.getBackendForPrefix req c
      match r.backendId with
      | none => { routingMode := "prefix", errorMessage := "No backends registered" }
      | some id =>
        { backendId := some id
          routingMode := "prefix"
          cacheHit := r.artHit
          backendLoadAtDecision := r.backendLoadAtDecision
          wasLoadRedirect := r.wasLoadRedirect
          wasCostRedirect := r.wasCostRedirect
          wasFastLane := r.wasFastLane
          backendCostAtDecision := r.backendCostAtDecision
          originalSelected := r.originalSelected
          matchedPrefixDepth := if r.artHit then depth else 0 }
    | .HASH =>
      match s.getBackendByHash req c with
      | none => { routingMode := "hash", errorMessage := "No backends registered" }
      | some id =>
        { backendId := some id
          routingMode := "hash"
          cacheHit := true
          originalSelected := id
          matchedPrefixDepth := depth }
    | .LEAST_LOADED =>
      unanchored "least_loaded" "No backends registered"
        (fun id => s.getCompositeBackendLoad c.now id)
        (s.selectLeastLoadedBackend c.now c.roll req.estimatedCost)
    | .RANDOM =>
      unanchored "random" "No backends registered" (fun _ => 0) (s.getRandomBackend c.roll)

/-- The learned route's backend, whatever its state. -/
def learnedBackend : Option BackendId :=
  match s.kv.tree with
  | none => none
  | some tree => (tree.lookup c.now req.tokens).1

/-- The hit on this backend is downgraded: its gossiped residency is below the
threshold, and it is not the only live backend. -/
structure Downgraded (cold : BackendId) : Prop where
  learned : s.learnedBackend req c = some cold
  live : cold ∈ s.getLiveBackends
  unvouched : s.nativeVerdict req c cold = none
  reported : 0 ≤ s.gossipedResidency c cold
  below : s.gossipedResidency c cold < s.config.cacheResidencyThreshold
  others : 1 < s.getLiveBackends.length

/-- The requests placed by a read behind the end of an empty vector: the only live
backend is a decode pool with the id zero, the request is a miss there, and the
placement does not look at the length. -/
structure ReadsBehindEnd : Prop where
  normal : s.failOpenActive = false
  prefixMode : s.config.routingMode = .PREFIX
  live : s.getLiveBackends = [0]
  decode : s.roleEligible 0 = false
  hasTokens : s.routingPrefixLen req ≠ 0
  miss : s.learnedBackend req c ≠ some 0
  unguarded : ¬(s.config.missPlacement = .HASH ∧
    (s.config.hashStrategy = .BOUNDED_LOAD ∨ s.config.hashStrategy = .P2C))

/-! ## Every anchor is live -/

variable {s req c}

theorem leastLoadedHolder_mem {now : ℕ} {holders : List BackendId}
    (h : s.leastLoadedHolder now holders ≠ 0) : s.leastLoadedHolder now holders ∈ holders := by
  rw [leastLoadedHolder] at h ⊢
  rcases List.mem_cons.mp (scanBest_mem _ _ _) with hstart | hmem
  · rw [hstart] at h
    exact absurd rfl h
  · obtain ⟨id, hid, heq⟩ := List.mem_map.mp hmem
    rw [← heq]
    exact hid

theorem nativeVerdict_mem {artBackend holder : BackendId} {residency : ℚ}
    (hart : artBackend ∈ s.getLiveBackends)
    (h : s.nativeVerdict req c artBackend = some (holder, residency)) :
    holder ∈ s.getLiveBackends := by
  -- the backend itself, or another verified holder among the live ones
  rw [nativeVerdict] at h
  split at h
  · split at h
    · obtain ⟨rfl, -⟩ := Prod.mk.inj (Option.some.inj h)
      exact hart
    · split at h
      · cases h
      · dsimp only at h
        split at h
        · next hholder =>
          obtain ⟨rfl, -⟩ := Prod.mk.inj (Option.some.inj h)
          exact (s.mem_verifiedHoldersOf (leastLoadedHolder_mem hholder)).2.2.1
        · obtain ⟨rfl, -⟩ := Prod.mk.inj (Option.some.inj h)
          exact hart
  · cases h

/-- Who serves a vouched hit is the backend itself or a verified holder. -/
theorem nativeVerdict_eq_or_eligible {artBackend : BackendId} {verdict : BackendId × ℚ}
    (h : s.nativeVerdict req c artBackend = some verdict) :
    verdict.1 = artBackend ∨ s.roleEligible verdict.1 = true := by
  rw [nativeVerdict] at h
  split at h
  · split at h
    · obtain rfl := Option.some.inj h
      exact .inl rfl
    · split at h
      · cases h
      · dsimp only at h
        split at h
        · next hholder =>
          obtain rfl := Option.some.inj h
          exact .inr (s.mem_verifiedHoldersOf (leastLoadedHolder_mem hholder)).2.2.2.1
        · obtain rfl := Option.some.inj h
          exact .inl rfl
  · cases h

theorem artAnswer_of_not_live
    (h : ∀ id, s.learnedBackend req c = some id → id ∉ s.getLiveBackends) :
    s.artAnswer req c = {} := by
  rw [artAnswer]
  rw [learnedBackend] at h
  split
  · rfl
  · next tree htree =>
    rw [htree] at h
    split
    · rfl
    · next id hid => rw [if_neg (h id hid)]

theorem artAnswer_of_live {id : BackendId} (hlearned : s.learnedBackend req c = some id)
    (hlive : id ∈ s.getLiveBackends) :
    s.artAnswer req c =
      match s.nativeVerdict req c id with
      | some verdict => { hit := some verdict.1, residency := verdict.2 }
      | none =>
        if (0 ≤ s.gossipedResidency c id ∧
            s.gossipedResidency c id < s.config.cacheResidencyThreshold) ∧
            1 < s.getLiveBackends.length then
          { residency := s.gossipedResidency c id, residencyCold := id }
        else { hit := some id, residency := s.gossipedResidency c id } := by
  rw [learnedBackend] at hlearned
  rw [artAnswer]
  split at hlearned
  · cases hlearned
  · next tree htree =>
    dsimp only
    rw [hlearned]
    dsimp only
    rw [if_pos hlive]
    cases s.nativeVerdict req c id with
    | none => rfl
    | some verdict => rfl

/-- What step 1 can answer: nothing, a hit on the learned backend or on a verified
holder, or the downgrade of the learned backend. -/
theorem artAnswer_inv :
    s.artAnswer req c = {} ∧
        (∀ id, s.learnedBackend req c = some id → id ∉ s.getLiveBackends) ∨
      (∃ hit, (s.artAnswer req c).hit = some hit ∧ hit ∈ s.getLiveBackends ∧
        (s.artAnswer req c).residencyCold = 0 ∧
        (s.learnedBackend req c = some hit ∨ s.roleEligible hit = true)) ∨
      ∃ cold, s.Downgraded req c cold ∧
        s.artAnswer req c =
          { residency := s.gossipedResidency c cold, residencyCold := cold } := by
  by_cases hlearned : ∃ id, s.learnedBackend req c = some id ∧ id ∈ s.getLiveBackends
  · obtain ⟨id, hlearned, hlive⟩ := hlearned
    have hart := artAnswer_of_live hlearned hlive
    cases hverdict : s.nativeVerdict req c id with
    | some verdict =>
      rw [hverdict] at hart
      refine .inr (.inl ⟨verdict.1, ?_, nativeVerdict_mem hlive hverdict, ?_, ?_⟩)
      · rw [hart]
      · rw [hart]
      · rcases nativeVerdict_eq_or_eligible hverdict with heq | heligible
        · exact .inl (by rw [heq, hlearned])
        · exact .inr heligible
    | none =>
      rw [hverdict] at hart
      dsimp only at hart
      split at hart
      · next hcold =>
        exact .inr (.inr ⟨id, ⟨hlearned, hlive, hverdict, hcold.1.1, hcold.1.2, hcold.2⟩, hart⟩)
      · exact .inr (.inl ⟨id, by rw [hart], hlive, by rw [hart], .inl hlearned⟩)
  · have hnone : ∀ id, s.learnedBackend req c = some id → id ∉ s.getLiveBackends :=
      fun id hid hmem => hlearned ⟨id, hid, hmem⟩
    exact .inl ⟨artAnswer_of_not_live hnone, hnone⟩

theorem missCandidates_subset {cold : BackendId} :
    (s.missCandidates cold).1 ⊆ s.getLiveBackends := by
  rw [missCandidates]
  dsimp only
  split
  · split
    · exact List.filter_sublist.subset
    · exact List.filter_sublist.subset
  · exact List.Subset.refl _

/-- A list without duplicates all of whose elements are `a` has at most one. -/
theorem length_le_one_of_filter_ne {ids : List BackendId} {a : BackendId} (hnodup : ids.Nodup)
    (h : ids.filter (fun id => id ≠ a) = []) : ids = [] ∨ ids = [a] := by
  have hall : ∀ id ∈ ids, id = a := by simpa using h
  cases ids with
  | nil => exact .inl rfl
  | cons x xs =>
    obtain rfl := hall x List.mem_cons_self
    refine .inr ?_
    cases xs with
    | nil => rfl
    | cons y ys =>
      obtain rfl := hall y (List.mem_cons_of_mem _ List.mem_cons_self)
      exact absurd List.mem_cons_self (List.nodup_cons.mp hnodup).1

/-- The miss filter leaves a candidate unless it takes the only live backend for
the cold one. -/
theorem missCandidates_eq_nil {cold : BackendId} (hlive : s.getLiveBackends ≠ [])
    (h : (s.missCandidates cold).1 = []) :
    s.getLiveBackends = [cold] ∧ (cold = 0 → s.roleEligible 0 = false) := by
  rw [missCandidates] at h
  dsimp only at h
  split at h
  · next hfilter =>
    have hvalve : s.getLiveBackends.filter (fun id => id ≠ cold) = [] := by
      split at h
      · exact h
      · next hne => exact absurd h hne
    have hone : s.getLiveBackends = [cold] := by
      rcases length_le_one_of_filter_ne s.getLiveBackends_nodup hvalve with hnil | hone
      · exact absurd hnil hlive
      · exact hone
    refine ⟨hone, ?_⟩
    rintro rfl
    -- no cold backend, so the filter ran because of a decode pool
    rcases hfilter with hzero | hrole
    · exact absurd rfl hzero
    · simpa [hone] using hrole
  · exact absurd h hlive

theorem missSelect_mem {ids : List BackendId} (h : ids ≠ []) : s.missSelect req c ids ∈ ids := by
  rw [missSelect]
  cases s.config.missPlacement with
  | HASH => exact strategySelect_mem h
  | LEAST_LOADED =>
    dsimp only
    split
    · exact jump_mem _ _ h
    · exact leastLoadedPlacement_mem h

/-- Without candidates, the strategies that look at the length answer zero. -/
theorem missSelect_nil (h : s.config.missPlacement = .HASH ∧
    (s.config.hashStrategy = .BOUNDED_LOAD ∨ s.config.hashStrategy = .P2C)) :
    s.missSelect req c [] = 0 := by
  obtain ⟨hplace, hstrategy⟩ := h
  rw [missSelect, hplace]
  dsimp only
  rcases hstrategy with hstrategy | hstrategy
  · rw [strategySelect, hstrategy]
    rfl
  · rw [strategySelect, hstrategy]
    rfl

/-- A miss without a candidate: the only live backend is a decode pool with the id
zero, and the learned route is not its own. -/
theorem of_missCandidates_eq_nil (hlive : s.getLiveBackends ≠ [])
    (hhit : (s.artAnswer req c).hit = none)
    (hnil : (s.missCandidates (s.artAnswer req c).residencyCold).1 = []) :
    s.getLiveBackends = [0] ∧ s.roleEligible 0 = false ∧ s.learnedBackend req c ≠ some 0 := by
  obtain ⟨hone, hdecode⟩ := missCandidates_eq_nil hlive hnil
  rcases @artAnswer_inv s req c with ⟨hart, hlearned⟩ | ⟨id, hsome, -⟩ | ⟨cold, hcold, -⟩
  · rw [hart] at hone hdecode
    refine ⟨hone, hdecode rfl, fun hzero => hlearned 0 hzero ?_⟩
    rw [hone]
    exact List.mem_singleton_self 0
  · rw [hhit] at hsome
    cases hsome
  · have hmany := hcold.others
    rw [hone] at hmany
    exact absurd hmany (lt_irrefl _)

/-- The anchor is live when a miss has candidates, or a strategy that answers zero
without them. -/
theorem anchor_mem_of_guarded (hlive : s.getLiveBackends ≠ [])
    (hguarded : (s.artAnswer req c).hit = none →
      (s.missCandidates (s.artAnswer req c).residencyCold).1 = [] →
        s.config.missPlacement = .HASH ∧
          (s.config.hashStrategy = .BOUNDED_LOAD ∨ s.config.hashStrategy = .P2C)) :
    (s.anchor req c).selected ∈ s.getLiveBackends := by
  cases hhit : (s.artAnswer req c).hit with
  | some id =>
    rw [anchor, hhit]
    rcases @artAnswer_inv s req c with ⟨hart, -⟩ | ⟨hit, hsome, hmem, -⟩ | ⟨cold, -, hart⟩
    · rw [hart] at hhit
      cases hhit
    · rw [hhit] at hsome
      obtain rfl := Option.some.inj hsome
      exact hmem
    · rw [hart] at hhit
      cases hhit
  | none =>
    rw [anchor, hhit]
    by_cases hnil : (s.missCandidates (s.artAnswer req c).residencyCold).1 = []
    · -- the only live backend is zero, a decode pool: the guarded strategies find it
      obtain ⟨hone, -⟩ := of_missCandidates_eq_nil hlive hhit hnil
      dsimp only
      rw [hnil, missSelect_nil (hguarded hhit hnil), hone]
      exact List.mem_singleton_self 0
    · exact missCandidates_subset (missSelect_mem hnil)

theorem anchor_mem (hfail : s.failOpenActive = false) (hmode : s.config.routingMode = .PREFIX)
    (hlen : s.routingPrefixLen req ≠ 0) (hlive : s.getLiveBackends ≠ [])
    (hread : ¬s.ReadsBehindEnd req c) : (s.anchor req c).selected ∈ s.getLiveBackends := by
  refine anchor_mem_of_guarded hlive fun hhit hnil => ?_
  obtain ⟨hone, hdecode, hlearned⟩ := of_missCandidates_eq_nil hlive hhit hnil
  by_contra hunguarded
  exact hread ⟨hfail, hmode, hone, hdecode, hlen, hlearned, hunguarded⟩

/-! ## Every choice is live -/

/-- The candidates are live backends, the anchor among them. -/
structure Seated (s : ShardRouting) (cands : List ScoreCandidate) : Prop where
  live : ∀ cand ∈ cands, cand.id ∈ s.getLiveBackends
  anchored : ∃ cand ∈ cands, cand.isAnchor = true

/-- Ranks do not move seats. -/
theorem Seated.of_forall {cands ranked : List ScoreCandidate} (h : s.Seated cands)
    (hid : ∀ r ∈ ranked, ∃ cand ∈ cands, r.id = cand.id)
    (hanchor : ∀ cand ∈ cands, cand.isAnchor = true → ∃ r ∈ ranked, r.isAnchor = true) :
    s.Seated ranked := by
  refine ⟨fun r hr => ?_, ?_⟩
  · obtain ⟨cand, hcand, hrid⟩ := hid r hr
    rw [hrid]
    exact h.live cand hcand
  · obtain ⟨cand, hcand, hanc⟩ := h.anchored
    exact hanchor cand hcand hanc

theorem Seated.mapIdx {cands : List ScoreCandidate} {f : ℕ → ScoreCandidate → ScoreCandidate}
    (h : s.Seated cands) (hid : ∀ i cand, (f i cand).id = cand.id)
    (hanchor : ∀ i cand, (f i cand).isAnchor = cand.isAnchor) : s.Seated (cands.mapIdx f) := by
  refine h.of_forall (fun r hr => ?_) (fun cand hcand hanc => ?_)
  · obtain ⟨i, hi, rfl⟩ := List.mem_mapIdx.mp hr
    exact ⟨cands[i], List.getElem_mem hi, hid i _⟩
  · obtain ⟨i, hi, rfl⟩ := List.getElem_of_mem hcand
    exact ⟨f i cands[i], List.mem_mapIdx.mpr ⟨i, hi, rfl⟩, by rw [hanchor, hanc]⟩

theorem Seated.map {cands : List ScoreCandidate} {f : ScoreCandidate → ScoreCandidate}
    (h : s.Seated cands) (hid : ∀ cand, (f cand).id = cand.id)
    (hanchor : ∀ cand, (f cand).isAnchor = cand.isAnchor) : s.Seated (cands.map f) := by
  refine h.of_forall (fun r hr => ?_) (fun cand hcand hanc => ?_)
  · obtain ⟨cand, hcand, rfl⟩ := List.mem_map.mp hr
    exact ⟨cand, hcand, hid cand⟩
  · exact ⟨f cand, List.mem_map_of_mem hcand, by rw [hanchor, hanc]⟩

theorem Seated.filter {cands : List ScoreCandidate} {p : ScoreCandidate → Bool}
    (h : s.Seated cands) (hp : ∀ cand, cand.isAnchor = true → p cand = true) :
    s.Seated (cands.filter p) := by
  refine h.of_forall (fun r hr => ⟨r, (List.mem_filter.mp hr).1, rfl⟩) (fun cand hcand hanc => ?_)
  exact ⟨cand, List.mem_filter.mpr ⟨hcand, hp cand hanc⟩, hanc⟩

theorem Seated.withProbeRanks {hash : UInt64} {cands : List ScoreCandidate} (h : s.Seated cands) :
    s.Seated (withProbeRanks hash cands) := by
  refine h.mapIdx (fun i cand => ?_) (fun i cand => ?_)
  · split <;> rfl
  · split <;> rfl

theorem Seated.rankHolders {holders : List BackendId} {cands : List ScoreCandidate}
    (h : s.Seated cands) : s.Seated (s.rankHolders c holders cands) := by
  have hmarked : s.Seated (markHolders holders cands) := by
    refine h.map (fun cand => ?_) (fun cand => ?_)
    · split <;> rfl
    · split <;> rfl
  rw [ShardRouting.rankHolders]
  split
  · split
    · refine hmarked.mapIdx (fun i cand => ?_) (fun i cand => ?_)
      · split <;> rfl
      · split <;> rfl
    · refine Seated.map (hmarked.filter fun cand hanc => ?_) (fun cand => ?_) (fun cand => ?_)
      · rw [hanc, Bool.true_or]
      · split <;> rfl
      · split <;> rfl
  · exact hmarked

theorem seated_scored {a : Anchor} (ha : a.selected ∈ s.getLiveBackends) :
    s.Seated (s.scored req c a) := by
  have hbase : s.Seated ((s.dispatchIds a).map (s.scoreCandidate req c a)) := by
    refine ⟨fun cand hcand => ?_, s.scoreCandidate req c a a.selected, ?_, ?_⟩
    · obtain ⟨id, hid, rfl⟩ := List.mem_map.mp hcand
      exact (List.mem_filter.mp hid).1
    · exact List.mem_map_of_mem (List.mem_filter.mpr ⟨ha, by simp⟩)
    · simp [scoreCandidate]
  rw [scored]
  dsimp only
  split
  · split
    · exact hbase.withProbeRanks.rankHolders
    · exact hbase.withProbeRanks
  · exact hbase

theorem scoringPass_mem {a : Anchor} (ha : a.selected ∈ s.getLiveBackends) {id : BackendId}
    (h : (s.scoringPass req c a).backendId = some id) : id ∈ s.getLiveBackends := by
  rw [scoringPass] at h
  dsimp only at h
  split at h
  · obtain rfl := Option.some.inj h
    exact ha
  · -- the winner is one of the seated candidates
    have hseated : s.Seated (s.scored req c a) := seated_scored ha
    have hne : s.scored req c a ≠ [] := by
      obtain ⟨cand, hcand, -⟩ := hseated.anchored
      exact List.ne_nil_of_mem hcand
    obtain rfl := Option.some.inj h
    exact hseated.live _ (getD_mem _ (scoreAndSelect_lt hne).2)

theorem scoringPass_isSome (a : Anchor) :
    ∃ id, (s.scoringPass req c a).backendId = some id := by
  rw [scoringPass]
  dsimp only
  split
  · exact ⟨a.selected, rfl⟩
  · exact ⟨_, rfl⟩

theorem scoringPass_placement_mem {a : Anchor} (ha : a.selected ∈ s.getLiveBackends) :
    (s.scoringPass req c a).originalSelected ∈ s.getLiveBackends := by
  rw [scoringPass]
  dsimp only
  split
  · exact ha
  · have hseated : s.Seated (s.scored req c a) := seated_scored ha
    have hne : s.scored req c a ≠ [] := by
      obtain ⟨cand, hcand, -⟩ := hseated.anchored
      exact List.ne_nil_of_mem hcand
    exact hseated.live _ (getD_mem _ (scoreAndSelect_lt hne).1)

theorem getBackendForPrefix_mem (hfail : s.failOpenActive = false)
    (hmode : s.config.routingMode = .PREFIX) (hread : ¬s.ReadsBehindEnd req c) {id : BackendId}
    (h : (s.getBackendForPrefix req c).backendId = some id) : id ∈ s.getLiveBackends := by
  rw [getBackendForPrefix] at h
  split at h
  · cases h
  · next first rest hlive =>
    split at h
    · -- nothing to route on: the first eligible backend, or the first
      obtain rfl := Option.some.inj h
      rw [hlive]
      cases hfind : (first :: rest).find? s.roleEligible with
      | none => exact List.mem_cons_self
      | some fallback => exact List.mem_of_find?_eq_some hfind
    · next hlen =>
      have hne : s.getLiveBackends ≠ [] := by rw [hlive]; exact List.cons_ne_nil _ _
      exact scoringPass_mem (anchor_mem hfail hmode hlen hne hread) h

theorem getBackendByHash_mem {id : BackendId} (h : s.getBackendByHash req c = some id) :
    id ∈ s.getLiveBackends := by
  rw [getBackendByHash] at h
  split at h
  · cases h
  · next hlive =>
    dsimp only at h
    -- the eligible backends, or all when the valve is open
    generalize hids : (if s.getLiveBackends.filter s.roleEligible = [] then s.getLiveBackends
      else s.getLiveBackends.filter s.roleEligible) = ids at h
    have hne : ids ≠ [] ∧ ids ⊆ s.getLiveBackends := by
      rw [← hids]
      split
      · exact ⟨hlive, List.Subset.refl _⟩
      · next hne => exact ⟨hne, List.filter_sublist.subset⟩
    refine hne.2 ?_
    split at h
    · obtain rfl := Option.some.inj h
      exact getD_mem _ (List.length_pos_of_ne_nil hne.1)
    · obtain rfl := Option.some.inj h
      exact strategySelect_mem hne.1

theorem unanchored_backendId {mode message : String} {load : BackendId → ℚ}
    {choice : Option BackendId} : (unanchored mode message load choice).backendId = choice := by
  cases choice with
  | none => rfl
  | some id => rfl

/-- **Routing answers with a live backend**, in every mode, unless it reads behind
the end of an empty vector. -/
theorem routeRequest_live (hread : ¬s.ReadsBehindEnd req c) {id : BackendId}
    (h : (s.routeRequest req c).backendId = some id) : s.Live id := by
  rw [routeRequest] at h
  dsimp only at h
  split at h
  · rw [unanchored_backendId] at h
    exact getRandomBackend_live h
  · next hfail =>
    split at h
    · next hmode =>
      split at h
      · cases h
      · next chosen hchosen =>
        obtain rfl := Option.some.inj h
        have hmem := getBackendForPrefix_mem (Bool.not_eq_true _ ▸ hfail) hmode hread hchosen
        exact (s.mem_getLiveBackends.mp hmem).2
    · split at h
      · cases h
      · next chosen hchosen =>
        obtain rfl := Option.some.inj h
        exact (s.mem_getLiveBackends.mp (getBackendByHash_mem hchosen)).2
    · rw [unanchored_backendId] at h
      exact selectLeastLoadedBackend_live h
    · rw [unanchored_backendId] at h
      exact getRandomBackend_live h

end ShardRouting

end Ranvier
