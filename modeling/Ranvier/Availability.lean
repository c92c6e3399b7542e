import Mathlib.Data.Finset.Sort
import Ranvier.Routing

/-!
# When routing finds a backend

A shard with a live backend should never answer that it has none. Two sentinels
stand against it:

* `get_random_backend` reads the largest `uint32_t` as "no live backend with a
  weight", but it is a priority as well, and the role filter opens its valve on
  the number of live backends, not on their weights
  (`getRandomBackend_isSome_iff`);
* `get_backend_for_prefix` reads the id zero as "no cache-cold backend", and
  places a miss by an index into candidates there may be none of
  (`getBackendForPrefix_live_iff`).
-/

namespace Ranvier

/-- A shard that knows these backends and nothing else. -/
def fleet (infos : List (BackendId × BackendInfo)) (hnodup : (infos.map Prod.fst).Nodup)
    (config : RoutingConfig) : ShardRouting where
  kv := emptyShard
  quarantined := ∅
  backends := fun id => infos.lookup id
  backendIds := infos.map Prod.fst
  backendIds_nodup := hnodup
  deadBackends := ∅
  config := config
  failOpenActive := false
  crossShardLoad := fun _ => none
  gpuLoadCache := {}
  cacheHeadroomCache := {}
  residencyCache := fun _ => none
  scoringWeightsOverrides := fun _ => none

/-- Circumstances in which hash sets list their elements in descending order. -/
def ordinary (now behindEnd : ℕ) : Circumstances where
  now := now
  roll := 0
  listing := fun ids => ids.sort (· ≥ ·)
  listing_coe := fun _ => Finset.sort_eq _ _
  behindEnd := behindEnd

namespace ShardRouting

variable {s : ShardRouting} {req : RouteRequest} {c : Circumstances}

/-! ## Random selection -/

theorem mem_getLiveBackendInfos_iff {e : BackendId × BackendInfo} :
    e ∈ s.getLiveBackendInfos ↔
      e.1 ∈ s.backendIds ∧ s.Live e.1 ∧ s.backends e.1 = some e.2 := by
  constructor
  · intro h
    refine ⟨?_, s.mem_getLiveBackendInfos h⟩
    obtain ⟨id, hid, he⟩ := List.mem_filterMap.mp h
    obtain ⟨info, -, rfl⟩ := Option.map_eq_some_iff.mp he
    exact (List.mem_filter.mp hid).1
  · rintro ⟨hid, hlive, hinfo⟩
    refine List.mem_filterMap.mpr ⟨e.1, List.mem_filter.mpr ⟨hid, s.isLive_iff.mpr hlive⟩, ?_⟩
    rw [hinfo]
    rfl

theorem mem_roleFiltered_iff {infos : List (BackendId × BackendInfo)}
    {e : BackendId × BackendInfo} :
    e ∈ roleFiltered infos ↔
      e ∈ infos ∧ (e.2.poolRole ≠ .DECODE ∨ ∀ other ∈ infos, other.2.poolRole = .DECODE) := by
  rw [roleFiltered]
  split
  · next hvalve =>
    -- the valve is open: every live backend is a decode pool
    have hall : ∀ other ∈ infos, other.2.poolRole = .DECODE := by
      simpa using (Bool.and_eq_true_iff.mp hvalve).1
    exact ⟨fun h => ⟨h, .inr hall⟩, fun h => h.1⟩
  · next hclosed =>
    rw [List.mem_filter, decide_eq_true_eq]
    refine and_congr_right fun he => ⟨.inl, ?_⟩
    rintro (hrole | hall)
    · exact hrole
    · have hempty : infos.filter (fun e => e.2.poolRole ≠ .DECODE) = [] := by
        simpa using hall
      refine absurd ?_ hclosed
      rw [hempty]
      simpa using List.ne_nil_of_mem he

/-- The running minimum is the start or the priority of a weighted backend, and no
weighted backend is below it. -/
theorem foldl_minPriority (infos : List (BackendId × BackendInfo)) (start : ℕ) :
    let m := infos.foldl
      (fun m e => if 0 < e.2.weight ∧ e.2.priority < m then e.2.priority else m) start
    m ≤ start ∧ (m = start ∨ ∃ e ∈ infos, 0 < e.2.weight ∧ e.2.priority = m) ∧
      ∀ e ∈ infos, 0 < e.2.weight → m ≤ e.2.priority := by
  induction infos generalizing start with
  | nil => exact ⟨le_refl _, .inl rfl, fun e he => by cases he⟩
  | cons e infos ih =>
    dsimp only
    rw [List.foldl_cons]
    split
    · next hlower =>
      obtain ⟨hle, hmin, hall⟩ := ih e.2.priority
      refine ⟨hle.trans hlower.2.le, .inr ?_, ?_⟩
      · rcases hmin with hmin | ⟨e', he', hweight, hprio⟩
        · exact ⟨e, List.mem_cons_self, hlower.1, hmin.symm⟩
        · exact ⟨e', List.mem_cons_of_mem _ he', hweight, hprio⟩
      · intro e' he' hweight
        rcases List.mem_cons.mp he' with rfl | he'
        · exact hle
        · exact hall e' he' hweight
    · next hkept =>
      obtain ⟨hle, hmin, hall⟩ := ih start
      refine ⟨hle, hmin.imp_right ?_, ?_⟩
      · rintro ⟨e', he', hweight, hprio⟩
        exact ⟨e', List.mem_cons_of_mem _ he', hweight, hprio⟩
      · intro e' he' hweight
        rcases List.mem_cons.mp he' with rfl | he'
        · exact hle.trans (not_lt.mp fun hlt => hkept ⟨hweight, hlt⟩)
        · exact hall e' he' hweight

/-- There is a priority group exactly when a weighted backend that the role filter
leaves has a priority below the sentinel. -/
theorem priorityGroup_ne_nil_iff :
    s.priorityGroup ≠ [] ↔
      ∃ e ∈ roleFiltered s.getLiveBackendInfos, 0 < e.2.weight ∧ e.2.priority < 2 ^ 32 - 1 := by
  obtain ⟨hle, hmin, hall⟩ := foldl_minPriority (roleFiltered s.getLiveBackendInfos) (2 ^ 32 - 1)
  rw [priorityGroup]
  rw [← minPriority] at hle hmin hall
  split
  · next hnone =>
    refine ⟨fun h => absurd rfl h, ?_⟩
    rintro ⟨e, he, hweight, hprio⟩
    have := hall e he hweight
    omega
  · next hsome =>
    constructor
    · intro _
      obtain ⟨e, he, hweight, hprio⟩ := hmin.resolve_left hsome
      exact ⟨e, he, hweight, by omega⟩
    · intro _
      obtain ⟨e, he, hweight, hprio⟩ := hmin.resolve_left hsome
      refine List.ne_nil_of_mem (List.mem_filter.mpr ⟨he, ?_⟩)
      simp [hprio, Nat.pos_iff_ne_zero.mp hweight]

theorem foldl_totalWeight_pos {group : List (BackendId × BackendInfo)} {total : ℕ}
    (h : 0 < total) :
    0 < group.foldl
      (fun total e =>
        if kMaxTotalWeight - e.2.weight < total then kMaxTotalWeight else total + e.2.weight)
      total := by
  induction group generalizing total with
  | nil => exact h
  | cons e group ih =>
    rw [List.foldl_cons]
    split
    · exact ih (by decide)
    · exact ih (by omega)

theorem totalWeight_priorityGroup_eq_zero_iff :
    totalWeight s.priorityGroup = 0 ↔ s.priorityGroup = [] := by
  have hweights : ∀ e ∈ s.priorityGroup, 0 < e.2.weight := by
    intro e he
    rw [priorityGroup] at he
    split at he
    · cases he
    · have := (List.mem_filter.mp he).2
      simp at this
      omega
  cases hgroup : s.priorityGroup with
  | nil => exact ⟨fun _ => rfl, fun _ => rfl⟩
  | cons e rest =>
    rw [hgroup] at hweights
    have hpos : 0 < e.2.weight := hweights e List.mem_cons_self
    refine ⟨fun hzero => ?_, fun hnil => by cases hnil⟩
    rw [totalWeight, List.foldl_cons, if_neg (Nat.not_lt_zero _), Nat.zero_add] at hzero
    exact absurd hzero (foldl_totalWeight_pos hpos).ne'

theorem getRandomBackend_isSome {roll : ℕ} :
    (s.getRandomBackend roll).isSome ↔ s.priorityGroup ≠ [] := by
  rw [getRandomBackend]
  split
  · next hzero => simp [totalWeight_priorityGroup_eq_zero_iff.mp hzero]
  · next hpos => simpa using fun hnil => hpos (totalWeight_priorityGroup_eq_zero_iff.mpr hnil)

/-- A live backend with a weight that random selection can reach: its priority is
not the largest `uint32_t`, and it is not a decode pool beside a live backend of
another role. -/
def Rollable (s : ShardRouting) (e : BackendId × BackendInfo) : Prop :=
  e ∈ s.getLiveBackendInfos ∧ 0 < e.2.weight ∧ e.2.priority < 2 ^ 32 - 1 ∧
    (e.2.poolRole ≠ .DECODE ∨ ∀ other ∈ s.getLiveBackendInfos, other.2.poolRole = .DECODE)

/-- **Random selection** answers exactly when one of the live backends of positive
weight can be reached, and so do fail-open and random routing. -/
theorem getRandomBackend_isSome_iff (s : ShardRouting) (req : RouteRequest) (c : Circumstances) :
    (∀ roll, (s.getRandomBackend roll).isSome ↔ ∃ e, s.Rollable e) ∧
      (s.failOpenActive = true ∨ s.config.routingMode = .RANDOM →
        ((s.routeRequest req c).backendId.isSome ↔ ∃ e, s.Rollable e)) := by
  have hroll : ∀ roll, (s.getRandomBackend roll).isSome ↔ ∃ e, s.Rollable e := by
    intro roll
    rw [getRandomBackend_isSome, priorityGroup_ne_nil_iff]
    constructor
    · rintro ⟨e, he, hweight, hprio⟩
      obtain ⟨hlive, hrole⟩ := mem_roleFiltered_iff.mp he
      exact ⟨e, hlive, hweight, hprio, hrole⟩
    · rintro ⟨e, hlive, hweight, hprio, hrole⟩
      exact ⟨e, mem_roleFiltered_iff.mpr ⟨hlive, hrole⟩, hweight, hprio⟩
  refine ⟨hroll, fun hmode => ?_⟩
  have hroute : (s.routeRequest req c).backendId = s.getRandomBackend c.roll := by
    rw [routeRequest]
    dsimp only
    split
    · exact unanchored_backendId
    · next hopen =>
      rw [hmode.resolve_left hopen]
      exact unanchored_backendId
  rw [hroute]
  exact hroll c.roll

/-- A unified backend without a weight, and a decode pool with one. -/
def decodeBesideUnweighted : ShardRouting :=
  fleet [(1, { addr := 101, weight := 0 }), (2, { addr := 102, poolRole := .DECODE })]
    (by decide) { blockAlignment := defaultPrefixConfig.blockAlignment }

/-- The decode pool is live and has a weight, and random selection finds nothing. -/
theorem getRandomBackend_none_beside_weight :
    (∃ e ∈ decodeBesideUnweighted.getLiveBackendInfos, 0 < e.2.weight) ∧
      ∀ roll, decodeBesideUnweighted.getRandomBackend roll = none := by
  refine ⟨⟨(2, { addr := 102, poolRole := .DECODE }), ?_, by decide⟩, fun roll => rfl⟩
  exact mem_getLiveBackendInfos_iff.mpr
    ⟨by decide, decodeBesideUnweighted.isLive_iff.mp (by decide), rfl⟩

/-! ## Prefix routing -/

variable (s req c)

/-- The placement of a miss reads its candidates at an index without a look at
their number: always but under the two strategies that look, and under these when
the diverts by headroom are counted. -/
def placesByIndex : Bool :=
  match s.config.missPlacement with
  | .LEAST_LOADED => true
  | .HASH =>
    match s.config.hashStrategy with
    | .BOUNDED_LOAD | .P2C => 0 < req.estimatedCost && 0 < s.config.capacityHeadroomWeight
    | .MODULAR | .JUMP => true

/-- No read of the call is behind the end of the candidates. -/
def ReadsInBounds : Prop :=
  s.getLiveBackends ≠ [] → s.routingPrefixLen req ≠ 0 → (s.artAnswer req c).hit = none →
    (s.missCandidates (s.artAnswer req c).residencyCold).1 = [] → s.placesByIndex req = false

/-- The call is defined and answers with a live backend, and so does the placement
it reports for learning. -/
def AnswersLive : Prop :=
  s.ReadsInBounds req c ∧ ∃ id, (s.getBackendForPrefix req c).backendId = some id ∧
    s.Live id ∧ s.Live (s.getBackendForPrefix req c).originalSelected

/-- The requests that are placed among no candidates: the only live backend is a
decode pool with the id zero, and the request is no hit there. -/
structure PlacedAmongNone : Prop where
  live : s.getLiveBackends = [0]
  decode : s.roleEligible 0 = false
  hasTokens : s.routingPrefixLen req ≠ 0
  miss : s.learnedBackend req c ≠ some 0
  byIndex : s.placesByIndex req = true

variable {s req c}

theorem getBackendForPrefix_live (hlive : s.getLiveBackends ≠ [])
    (hplaced : ¬s.PlacedAmongNone req c) : s.AnswersLive req c := by
  have hbounds : s.routingPrefixLen req ≠ 0 → (s.artAnswer req c).hit = none →
      (s.missCandidates (s.artAnswer req c).residencyCold).1 = [] →
        s.placesByIndex req = false := by
    intro hlen hhit hnil
    obtain ⟨hone, hdecode, hlearned⟩ := of_missCandidates_eq_nil hlive hhit hnil
    by_contra hindex
    exact hplaced ⟨hone, hdecode, hlen, hlearned, by simpa using hindex⟩
  refine ⟨fun _ => hbounds, ?_⟩
  have hmem : ∃ id, (s.getBackendForPrefix req c).backendId = some id ∧
      id ∈ s.getLiveBackends ∧
        (s.getBackendForPrefix req c).originalSelected ∈ s.getLiveBackends := by
    rw [getBackendForPrefix]
    split
    · next hnil => exact absurd hnil hlive
    · next first rest hcons =>
      split
      · -- nothing to route on: the first eligible backend, or the first
        have hfirst : ((first :: rest).find? s.roleEligible).getD first ∈ s.getLiveBackends := by
          rw [hcons]
          cases hfind : (first :: rest).find? s.roleEligible with
          | none => exact List.mem_cons_self
          | some fallback => exact List.mem_of_find?_eq_some hfind
        exact ⟨_, rfl, hfirst, hfirst⟩
      · next hlen =>
        have hanchor : (s.anchor req c).selected ∈ s.getLiveBackends := by
          refine anchor_mem_of_guarded hlive fun hhit hnil => ?_
          have hindex := hbounds hlen hhit hnil
          rw [placesByIndex] at hindex
          split at hindex
          · cases hindex
          · next hhash =>
            split at hindex
            · next hstrategy => exact ⟨hhash, .inl hstrategy⟩
            · next hstrategy => exact ⟨hhash, .inr hstrategy⟩
            · cases hindex
            · cases hindex
        obtain ⟨id, hid⟩ : ∃ id, (s.scoringPass req c (s.anchor req c)).backendId = some id :=
          scoringPass_isSome _
        exact ⟨id, hid, scoringPass_mem hanchor hid, scoringPass_placement_mem hanchor⟩
  obtain ⟨id, hid, hidlive, hplacement⟩ := hmem
  exact ⟨id, hid, (s.mem_getLiveBackends.mp hidlive).2, (s.mem_getLiveBackends.mp hplacement).2⟩

/-- **Prefix routing** over a shard with a live backend answers with a live one, and
reports a live placement, exactly when the request is not placed among no
candidates. -/
theorem getBackendForPrefix_live_iff (s : ShardRouting) (req : RouteRequest) (c : Circumstances)
    (hlive : ∃ id ∈ s.backendIds, s.Live id) :
    s.AnswersLive req c ↔ ¬s.PlacedAmongNone req c := by
  have hne : s.getLiveBackends ≠ [] := by
    obtain ⟨id, hid, hidlive⟩ := hlive
    exact List.ne_nil_of_mem (s.mem_getLiveBackends.mpr ⟨hid, hidlive⟩)
  refine ⟨fun hanswers hplaced => ?_, getBackendForPrefix_live hne⟩
  -- the learned backend, if any, is not live, so the miss filter sees no cold backend
  have hart : s.artAnswer req c = {} := by
    refine artAnswer_of_not_live fun id hid hmem => ?_
    rw [hplaced.live, List.mem_singleton] at hmem
    rw [hmem] at hid
    exact hplaced.miss hid
  have hnil : (s.missCandidates (s.artAnswer req c).residencyCold).1 = [] := by
    rw [hart, missCandidates, hplaced.live]
    simp [hplaced.decode]
  have hindex := hanswers.1 hne hplaced.hasTokens (by rw [hart]) hnil
  rw [hplaced.byIndex] at hindex
  cases hindex

/-- A single backend, alone on its shard. -/
def single (id : BackendId) (role : PoolRole) : ShardRouting :=
  fleet [(id, { addr := 101, poolRole := role })] (List.nodup_singleton id)
    { blockAlignment := defaultPrefixConfig.blockAlignment }

theorem getBackendForPrefix_live_single :
    (∃ id ∈ (single 1 .DECODE).backendIds, (single 1 .DECODE).Live id) ∧
      (single 1 .DECODE).AnswersLive { tokens := [5] } (ordinary 0 7) := by
  have hlive : ∃ id ∈ (single 1 .DECODE).backendIds, (single 1 .DECODE).Live id :=
    ⟨1, by decide, (single 1 .DECODE).isLive_iff.mp (by decide)⟩
  refine ⟨hlive, (getBackendForPrefix_live_iff _ _ _ hlive).mpr fun hplaced => ?_⟩
  exact absurd hplaced.live (by decide +kernel)

/-- The same decode pool under the id zero: the request goes to whatever is found
behind the end of the candidates. -/
theorem getBackendForPrefix_behind_end :
    (∃ id ∈ (single 0 .DECODE).backendIds, (single 0 .DECODE).Live id) ∧
      ((single 0 .DECODE).getBackendForPrefix { tokens := [5] } (ordinary 0 7)).backendId =
        some 7 ∧
      ¬(single 0 .DECODE).Live 7 := by
  refine ⟨⟨0, by decide, (single 0 .DECODE).isLive_iff.mp (by decide)⟩, by decide +kernel, ?_⟩
  exact fun hlive => absurd ((single 0 .DECODE).isLive_iff.mpr hlive) (by decide)

end ShardRouting

end Ranvier
