import Ranvier.RouteRemoval

/-!
# The index after a cleanup

The last two phases of the TTL cleanup replace the index: one walks the tree, the other
carries over what fresh streams reported and counts it. Both are loops of insertions into a
map of sets, and the order in which a hash map lists its entries is not known.

* `collectLoop`, `preserveLoop` — the loops, over any order, and what they compute;
* `LivePair` — a route in the tree, as a pair of the index;
* `TreeReached` — the tree of a shard is one that operations lead to;
* `cleanup_rebuilds_index` — the index and the counters after a cleanup.
-/

namespace Ranvier

/-! ## The loops -/

/-- `rebuilt[hash].insert(id)`. -/
def insertPair (index : UInt64 → Finset BackendId) (pair : UInt64 × BackendId) :
    UInt64 → Finset BackendId :=
  Function.update index pair.1 (insert pair.2 (index pair.1))

/-- The loop of `collect_live_route_index`. -/
def collectLoop (blockAlignment : ℕ+) (entries : List RouteEntry) : UInt64 → Finset BackendId :=
  entries.foldl (fun rebuilt e =>
    if e.tokens = [] then rebuilt
    else insertPair rebuilt (hashPrefix e.tokens e.tokens.length blockAlignment, e.backend))
    fun _ => ∅

/-- One turn of the inner loop of `swap_in_rebuilt_index`. -/
def preserve (fresh : Finset BackendId) (hash : UInt64)
    (r : (UInt64 → Finset BackendId) × Finmap fun _ : BackendId => ℕ) (id : BackendId) :
    (UInt64 → Finset BackendId) × Finmap fun _ : BackendId => ℕ :=
  if id ∈ fresh then (insertPair r.1 (hash, id), r.2.insert id ((r.2.lookup id).getD 0 + 1))
  else r

/-- The two loops of `swap_in_rebuilt_index`, over the old index. -/
def preserveLoop (fresh : Finset BackendId) (index : List (UInt64 × List BackendId))
    (rebuilt : UInt64 → Finset BackendId) :
    (UInt64 → Finset BackendId) × Finmap fun _ : BackendId => ℕ :=
  index.foldl (fun r e => e.2.foldl (preserve fresh e.1) r) (rebuilt, ∅)

/-- A listing of a map of sets: each hash once, with its members once. -/
structure ListsIndex (listing : List (UInt64 × List BackendId))
    (index : UInt64 → Finset BackendId) : Prop where
  hashes : (keysOf listing).Nodup
  members : ∀ e ∈ listing, e.2.Nodup
  mem_iff : ∀ hash id, id ∈ index hash ↔ ∃ ids, (hash, ids) ∈ listing ∧ id ∈ ids

theorem mem_insertPair {index : UInt64 → Finset BackendId} {pair : UInt64 × BackendId}
    {hash : UInt64} {id : BackendId} :
    id ∈ insertPair index pair hash ↔ (hash, id) = pair ∨ id ∈ index hash := by
  obtain ⟨h, b⟩ := pair
  rw [insertPair, Prod.mk.injEq]
  by_cases hhash : hash = h
  · rw [hhash, Function.update_self, Finset.mem_insert]
    simp
  · rw [Function.update_of_ne hhash]
    simp [hhash]

/-- The pairs of a listing, in the order of the two loops. -/
def listedPairs (listing : List (UInt64 × List BackendId)) : List (UInt64 × BackendId) :=
  listing.flatMap fun e => e.2.map fun id => (e.1, id)

theorem preserveLoop_eq (fresh : Finset BackendId) (listing : List (UInt64 × List BackendId))
    (rebuilt : UInt64 → Finset BackendId) :
    preserveLoop fresh listing rebuilt =
      (listedPairs listing).foldl (fun r pair => preserve fresh pair.1 r pair.2) (rebuilt, ∅) := by
  rw [preserveLoop, listedPairs, List.foldl_flatMap]
  simp only [List.foldl_map]

theorem mem_preserved (fresh : Finset BackendId) (pairs : List (UInt64 × BackendId))
    (r : (UInt64 → Finset BackendId) × Finmap fun _ : BackendId => ℕ) (hash : UInt64)
    (id : BackendId) :
    id ∈ (pairs.foldl (fun r pair => preserve fresh pair.1 r pair.2) r).1 hash ↔
      id ∈ r.1 hash ∨ (hash, id) ∈ pairs ∧ id ∈ fresh := by
  induction pairs generalizing r with
  | nil => simp
  | cons pair pairs ih =>
    obtain ⟨h, b⟩ := pair
    rw [List.foldl_cons, ih, List.mem_cons, preserve]
    split
    · next hb =>
      rw [mem_insertPair]
      constructor
      · rintro ((heq | hmem) | hrest)
        · obtain ⟨-, rfl⟩ := Prod.mk.inj heq
          exact Or.inr ⟨Or.inl heq, hb⟩
        · exact Or.inl hmem
        · exact Or.inr ⟨Or.inr hrest.1, hrest.2⟩
      · rintro (hmem | ⟨heq | hrest, hfresh⟩)
        · exact Or.inl (Or.inr hmem)
        · exact Or.inl (Or.inl heq)
        · exact Or.inr ⟨hrest, hfresh⟩
    · next hb =>
      constructor
      · rintro (hmem | hrest)
        · exact Or.inl hmem
        · exact Or.inr ⟨Or.inr hrest.1, hrest.2⟩
      · rintro (hmem | ⟨heq | hrest, hfresh⟩)
        · exact Or.inl hmem
        · obtain ⟨-, rfl⟩ := Prod.mk.inj heq
          exact absurd hfresh hb
        · exact Or.inr ⟨hrest, hfresh⟩

/-- How many of the pairs are of a backend that is fresh. -/
def keptCount (fresh : Finset BackendId) (pairs : List (UInt64 × BackendId)) (id : BackendId) : ℕ :=
  pairs.countP fun pair => decide (pair.2 = id ∧ id ∈ fresh)

/-- A counter of the loop: there is one from the first pair on. -/
def counter (n : ℕ) : Option ℕ := if n = 0 then none else some n

theorem counter_getD (n : ℕ) : (counter n).getD 0 = n := by
  rw [counter]
  split
  · next h => exact h.symm
  · rfl

theorem lookup_preserved (fresh : Finset BackendId) (pairs : List (UInt64 × BackendId))
    (r : (UInt64 → Finset BackendId) × Finmap fun _ : BackendId => ℕ) (id : BackendId) (n : ℕ)
    (hr : r.2.lookup id = counter n) :
    (pairs.foldl (fun r pair => preserve fresh pair.1 r pair.2) r).2.lookup id =
      counter (n + keptCount fresh pairs id) := by
  induction pairs generalizing r n with
  | nil => exact hr
  | cons pair pairs ih =>
    obtain ⟨h, b⟩ := pair
    rw [List.foldl_cons, keptCount, List.countP_cons]
    by_cases hid : b = id ∧ id ∈ fresh
    · obtain ⟨rfl, hfresh⟩ := hid
      rw [ih _ (n + 1), keptCount]
      · simp only [hfresh, and_self, decide_true, if_true]
        congr 1
        omega
      · rw [preserve, if_pos hfresh]
        dsimp only
        rw [Finmap.lookup_insert, hr, counter_getD, counter, if_neg (Nat.succ_ne_zero n)]
    · rw [ih _ n, keptCount]
      · simp only [hid, decide_false, Bool.false_eq_true, if_false, Nat.add_zero]
      · rw [preserve]
        split
        · next hb =>
          dsimp only
          rw [Finmap.lookup_insert_of_ne, hr]
          rintro rfl
          exact hid ⟨rfl, hb⟩
        · exact hr

theorem mem_collectLoop {blockAlignment : ℕ+} {entries : List RouteEntry} {hash : UInt64}
    {id : BackendId} :
    id ∈ collectLoop blockAlignment entries hash ↔ ∃ e ∈ entries, e.tokens ≠ [] ∧
      hashPrefix e.tokens e.tokens.length blockAlignment = hash ∧ e.backend = id := by
  have hloop : ∀ start : UInt64 → Finset BackendId,
      id ∈ entries.foldl (fun rebuilt e =>
        if e.tokens = [] then rebuilt
        else insertPair rebuilt
          (hashPrefix e.tokens e.tokens.length blockAlignment, e.backend)) start hash ↔
      id ∈ start hash ∨ ∃ e ∈ entries, e.tokens ≠ [] ∧
        hashPrefix e.tokens e.tokens.length blockAlignment = hash ∧ e.backend = id := by
    induction entries with
    | nil => simp
    | cons e entries ih =>
      intro start
      rw [List.foldl_cons, ih]
      split
      · next hnil => simp [hnil]
      · next hne =>
        rw [mem_insertPair, Prod.mk.injEq]
        simp only [List.exists_mem_cons_iff, hne, not_false_eq_true, ne_eq, true_and]
        rw [@eq_comm _ hash, @eq_comm _ id]
        exact or_assoc.trans or_left_comm
  rw [collectLoop, hloop]
  simp

/-- The walk computes `collect_live_route_index`. -/
theorem collectLiveRouteIndex_eq_loop {s : ShardRouting} {tree : RadixTree}
    (h : s.kv.tree = some tree) :
    collectLiveRouteIndex s = collectLoop s.config.blockAlignment tree.forEachLeaf := by
  funext hash
  ext id
  rw [mem_collectLoop, collectLiveRouteIndex, h]
  simp only [List.mem_toFinset, List.mem_map, List.mem_filter, decide_eq_true_eq]
  constructor
  · rintro ⟨e, ⟨hmem, hne, hhash⟩, hid⟩
    exact ⟨e, hmem, hne, hhash, hid⟩
  · rintro ⟨e, hmem, hne, hhash, hid⟩
    exact ⟨e, ⟨hmem, hne, hhash⟩, hid⟩

section Listing

variable {listing : List (UInt64 × List BackendId)} {index : UInt64 → Finset BackendId}

theorem mem_listedPairs {hash : UInt64} {id : BackendId} (h : ListsIndex listing index) :
    (hash, id) ∈ listedPairs listing ↔ id ∈ index hash := by
  rw [h.mem_iff, listedPairs, List.mem_flatMap]
  constructor
  · rintro ⟨⟨hash, ids⟩, hmem, hpair⟩
    obtain ⟨id, hid, heq⟩ := List.mem_map.mp hpair
    obtain ⟨rfl, rfl⟩ := Prod.mk.inj heq
    exact ⟨ids, hmem, hid⟩
  · rintro ⟨ids, hmem, hid⟩
    exact ⟨(hash, ids), hmem, List.mem_map_of_mem hid⟩

theorem listedPairs_nodup (h : ListsIndex listing index) : (listedPairs listing).Nodup := by
  rw [listedPairs, List.nodup_flatMap]
  constructor
  · intro e he
    exact (h.members e he).map fun _ _ heq => (Prod.mk.inj heq).2
  · -- different hashes, different pairs
    have hne : listing.Pairwise fun e e' => e.1 ≠ e'.1 := List.pairwise_map.mp h.hashes
    refine hne.imp fun {e e'} hhash => List.disjoint_left.mpr fun pair hpair hpair' => ?_
    obtain ⟨id, -, rfl⟩ := List.mem_map.mp hpair
    obtain ⟨id', -, heq⟩ := List.mem_map.mp hpair'
    exact hhash (Prod.mk.inj heq).1.symm

/-- The loop counts the hashes that list the backend. -/
theorem keptCount_eq (h : ListsIndex listing index) (fresh : Finset BackendId) (id : BackendId) :
    keptCount fresh (listedPairs listing) id =
      {hash | id ∈ index hash ∧ id ∈ fresh}.ncard := by
  set kept := (listedPairs listing).filter fun pair => decide (pair.2 = id ∧ id ∈ fresh)
  have hnodup : (kept.map Prod.fst).Nodup := by
    refine ((listedPairs_nodup h).filter _).map_on fun pair hpair pair' hpair' heq => ?_
    have hid := of_decide_eq_true (List.mem_filter.mp hpair).2
    have hid' := of_decide_eq_true (List.mem_filter.mp hpair').2
    exact Prod.ext heq (hid.1.trans hid'.1.symm)
  have hset : {hash | id ∈ index hash ∧ id ∈ fresh} =
      ((kept.map Prod.fst).toFinset : Set UInt64) := by
    ext hash
    rw [Set.mem_ofPred_eq, Finset.mem_coe, List.mem_toFinset, List.mem_map]
    constructor
    · rintro ⟨hmem, hfresh⟩
      exact ⟨(hash, id), List.mem_filter.mpr
        ⟨(mem_listedPairs h).mpr hmem, decide_eq_true ⟨rfl, hfresh⟩⟩, rfl⟩
    · rintro ⟨⟨hash, b⟩, hpair, rfl⟩
      obtain ⟨hmem, hdec⟩ := List.mem_filter.mp hpair
      obtain ⟨rfl, hfresh⟩ := of_decide_eq_true hdec
      exact ⟨(mem_listedPairs h).mp hmem, hfresh⟩
  rw [hset, Set.ncard_coe_finset, List.toFinset_card_of_nodup hnodup, List.length_map, keptCount,
    List.countP_eq_length_filter]

theorem lookup_foldl_counts (count : BackendId → ℕ) (ids : List BackendId)
    (m : Finmap fun _ : BackendId => ℕ) (id : BackendId) :
    (ids.foldl (fun m id => if 0 < count id then m.insert id (count id) else m) m).lookup id =
      if id ∈ ids ∧ 0 < count id then some (count id) else m.lookup id := by
  induction ids generalizing m with
  | nil => rfl
  | cons b ids ih =>
    rw [List.foldl_cons, ih]
    by_cases hid : id = b
    · subst hid
      by_cases hpos : 0 < count id
      · simp [hpos]
      · simp [hpos]
    · have hlookup : (if 0 < count b then m.insert b (count b) else m).lookup id = m.lookup id := by
        split
        · exact Finmap.lookup_insert_of_ne m hid
        · rfl
      rw [hlookup]
      simp only [List.mem_cons, hid, false_or]

/-- The counters as `swap_in_rebuilt_index` leaves them. -/
theorem lookup_indexEntries (now : ℕ) (rebuilt : UInt64 → Finset BackendId) (s : ShardRouting)
    (id : BackendId) :
    (swapInRebuiltIndex now rebuilt s).kv.nativeKv.indexEntries.lookup id =
      counter {hash | id ∈ s.kv.prefixHashIndex hash ∧ id ∈ freshBackends now s}.ncard := by
  have hfold := lookup_foldl_counts (entryCount s) (freshBackends now s).toList ∅ id
  simp only [Finset.mem_toList, Finmap.lookup_empty] at hfold
  refine hfold.trans ?_
  by_cases hfresh : id ∈ freshBackends now s
  · simp only [hfresh, true_and, and_true, counter, Nat.pos_iff_ne_zero, ite_not]
    rfl
  · simp [hfresh, counter]

/-- **The swap** as the source writes it, whatever the order of the old index. -/
theorem swapInRebuiltIndex_eq_loop {now : ℕ} {rebuilt : UInt64 → Finset BackendId}
    {s : ShardRouting} (h : ListsIndex listing s.kv.prefixHashIndex) :
    ((swapInRebuiltIndex now rebuilt s).kv.prefixHashIndex,
        (swapInRebuiltIndex now rebuilt s).kv.nativeKv.indexEntries) =
      preserveLoop (freshBackends now s) listing rebuilt := by
  rw [preserveLoop_eq]
  refine Prod.ext (funext fun hash => Finset.ext fun id => ?_) (Finmap.ext_lookup fun id => ?_)
  · rw [mem_preserved, mem_listedPairs h]
    change id ∈ rebuilt hash ∪ (s.kv.prefixHashIndex hash).filter (· ∈ freshBackends now s) ↔ _
    rw [Finset.mem_union, Finset.mem_filter]
  · rw [lookup_preserved _ _ _ id 0 rfl, keptCount_eq h, Nat.zero_add]
    exact lookup_indexEntries now rebuilt s id

end Listing

/-! ## The routes of a shard -/

/-- The tree of the shard is one that operations lead to. -/
def ShardLocalState.TreeReached (s : ShardLocalState) : Prop :=
  ∀ tree, s.tree = some tree → tree.Reached

namespace ShardRouting

/-- The tree of the shard stores a route for these tokens. -/
def HasRoute (s : ShardRouting) (tokens : List TokenId) (backend : BackendId) : Prop :=
  tokens ≠ [] ∧ ∃ tree key leaf, s.kv.tree = some tree ∧ tree.root.stored key = some leaf ∧
    decodeTokensBe key = tokens ∧ leaf.backend = backend

/-- A pair of the index that one of the routes stands for. -/
def LivePair (s : ShardRouting) (hash : UInt64) (backend : BackendId) : Prop :=
  ∃ tokens, s.HasRoute tokens backend ∧
    hashPrefix tokens tokens.length s.config.blockAlignment = hash

theorem hasRoute_congr {s s' : ShardRouting} (h : s'.kv.tree = s.kv.tree)
    (tokens : List TokenId) (id : BackendId) : s'.HasRoute tokens id ↔ s.HasRoute tokens id := by
  rw [HasRoute, HasRoute, h]

theorem mem_collectLiveRouteIndex {s : ShardRouting} (h : s.kv.TreeReached) {hash : UInt64}
    {id : BackendId} : id ∈ collectLiveRouteIndex s hash ↔ s.LivePair hash id := by
  cases htree : s.kv.tree with
  | none =>
    rw [collectLiveRouteIndex, htree]
    refine iff_of_false (Finset.notMem_empty id) ?_
    rintro ⟨tokens, ⟨-, tree, key, leaf, hsome, -⟩, -⟩
    rw [htree] at hsome
    cases hsome
  | some tree =>
    have hwf := (h tree htree).kept.1
    rw [collectLiveRouteIndex_eq_loop htree, mem_collectLoop, RadixTree.forEachLeaf,
      Node.forEachLeafRecursive_eq]
    constructor
    · rintro ⟨e, he, hne, hhash, hid⟩
      obtain ⟨⟨key, leaf⟩, hmem, rfl⟩ := List.mem_map.mp he
      exact ⟨decodeTokensBe key, ⟨hne, tree, key, leaf, htree, (Node.mem_leafPaths hwf).mp hmem,
        rfl, hid⟩, hhash⟩
    · rintro ⟨tokens, ⟨hne, tree', key, leaf, hsome, hstored, rfl, hid⟩, hhash⟩
      obtain rfl := Option.some.inj (hsome.symm.trans htree)
      exact ⟨_, List.mem_map_of_mem ((Node.mem_leafPaths hwf).mpr hstored), hne, hhash, hid⟩

end ShardRouting

/-! ## Trees are reached -/

theorem evictOldestToLimit_reached {maxRoutes fuel : ℕ} {t : RadixTree} (h : t.Reached)
    (stats : NativeStats) : (evictOldestToLimit maxRoutes fuel (t, stats)).1.Reached := by
  induction fuel generalizing t stats with
  | zero => exact h
  | succ fuel ih =>
    have hstep : t.evictOldest.1.Reached := h.step 0 .evictOldest
    rw [evictOldestToLimit]
    split
    · rcases hevict : t.evictOldest with ⟨t', evicted⟩
      rw [hevict] at hstep
      cases evicted with
      | true => exact ih hstep _
      | false => exact hstep
    · exact h

namespace ShardRouting

variable {s : ShardRouting} {now : ℕ} {route : PendingRoute} {t : RadixTree}

theorem insertRemote_reached (h : t.Reached) : (s.insertRemote now route t).tree.Reached := by
  have hroom : (s.roomForRemote t).1.Reached := by
    rw [roomForRemote]
    split
    · exact evictToLimit_reached h _
    · exact h
  rw [insertRemote]
  dsimp only
  split
  · exact (hroom.step now (.lookup route.tokens)).step now
      (.insertIfTrusted route.tokens route.backend .REMOTE s.converge)
  · exact hroom.step now (.insertIfTrusted route.tokens route.backend .REMOTE s.converge)

theorem insertLocal_reached (h : t.Reached) : (s.insertLocal now route t).tree.Reached := by
  have hroom : (s.roomForLocal t).1.Reached := by
    rw [roomForLocal]
    split
    · exact evictOldestToLimit_reached h _
    · exact h
  rw [insertLocal]
  dsimp only
  split
  · exact (hroom.step now (.lookup route.tokens)).step now
      (.insertIfTrusted route.tokens route.backend .LOCAL true)
  · exact hroom.step now (.insert route.tokens route.backend .LOCAL)

theorem claim_tree (route : PendingRoute) (displaced : Option BackendId) :
    (s.claim route displaced).kv.tree = s.kv.tree := by
  rw [claim]
  split
  · rfl
  · rfl

theorem withInsert_reached {i : RouteInsert} (h : i.tree.Reached) :
    (s.withInsert i).kv.TreeReached := by
  intro tree htree
  obtain rfl := Option.some.inj htree
  exact h

theorem applyRemoteRoute_reached (h : s.kv.TreeReached) :
    (s.applyRemoteRoute now route).kv.TreeReached := by
  rw [applyRemoteRoute]
  cases htree : s.kv.tree with
  | none => exact h
  | some tree =>
    have hins : (s.withInsert (s.insertRemote now route tree)).kv.TreeReached :=
      withInsert_reached (insertRemote_reached (h tree htree))
    dsimp only
    split
    · exact hins
    · intro t ht
      rw [claim_tree] at ht
      exact hins t ht

theorem applyLocalRoute_reached (h : s.kv.TreeReached) :
    (s.applyLocalRoute now route).1.kv.TreeReached := by
  rw [applyLocalRoute]
  cases htree : s.kv.tree with
  | none => exact h
  | some tree =>
    have hins : (s.withInsert (s.insertLocal now route tree)).kv.TreeReached :=
      withInsert_reached (insertLocal_reached (h tree htree))
    dsimp only
    split
    · exact hins
    · intro t ht
      rw [claim_tree] at ht
      exact hins t ht

end ShardRouting

theorem applyRemoteBatch_reached (now : ℕ) (batch : List PendingRoute) {s : ShardRouting}
    (h : s.kv.TreeReached) : (applyRouteBatchToLocalTree now batch s).kv.TreeReached := by
  induction batch generalizing s with
  | nil => exact h
  | cons route batch ih => exact ih (ShardRouting.applyRemoteRoute_reached h)

theorem applyLocalBatch_reached (now : ℕ) (batch : List PendingRoute) {s : ShardRouting}
    (h : s.kv.TreeReached) : (applyLocalBatchToTree now batch s).1.kv.TreeReached := by
  induction batch generalizing s with
  | nil => exact h
  | cons route batch ih => exact ih (ShardRouting.applyLocalRoute_reached h)

section Native

variable {s : ShardLocalState} {now : ℕ}

theorem ShardLocalState.TreeReached.map (h : s.TreeReached) {s' : ShardLocalState}
    {f : RadixTree → RadixTree} (htree : s'.tree = s.tree.map f)
    (hf : ∀ {t : RadixTree}, t.Reached → (f t).Reached) : s'.TreeReached := by
  intro tree hsome
  rw [htree, Option.map_eq_some_iff] at hsome
  obtain ⟨t, ht, rfl⟩ := hsome
  exact hf (h t ht)

theorem ShardLocalState.TreeReached.same (h : s.TreeReached) {s' : ShardLocalState}
    (htree : s'.tree = s.tree) : s'.TreeReached := by
  intro tree hsome
  exact h tree (htree ▸ hsome)

/-- The two sweeps of a backend. -/
theorem ShardLocalState.TreeReached.swept (h : s.TreeReached) {s' : ShardLocalState}
    {backend : BackendId} (htree : s'.tree = s.tree.map fun tree =>
      ((tree.removeRoutesByBackend backend .LOCAL).1.removeRoutesByBackend backend .REMOTE).1) :
    s'.TreeReached :=
  h.map htree fun ht => (ht.step 0 (.removeRoutesByBackend backend .LOCAL)).step 0
    (.removeRoutesByBackend backend .REMOTE)

theorem materializeLoop_reached {op : NativeKvOp} {boundaries : List ℕ}
    {r : RadixTree × NativeStats} (h : r.1.Reached) :
    (materializeLoop now s op boundaries r).1.Reached := by
  induction boundaries generalizing r with
  | nil => exact h
  | cons boundary rest ih =>
    rw [materializeLoop]
    split
    · exact ih h
    · split
      · exact h
      · refine ih ?_
        have hroom : (if 0 < s.maxRoutes then evictToLimit s.maxRoutes r.1.routeCount r
            else r).1.Reached := by
          split
          · exact evictToLimit_reached h _
          · exact h
        have hins := hroom.step now
          (.insertIfTrusted (op.tokens.take boundary) op.backend .PUSH false)
        rw [materializeAt]
        split
        all_goals exact hins

theorem storeEntry_tree (op : NativeKvOp) : (storeEntry now op s).tree = s.tree := by
  rw [storeEntry]
  split
  · exact touchNativeFresh_tree _ _ _
  · split
    · rfl
    · exact touchNativeFresh_tree _ _ _

theorem dropEntry_tree (op : NativeKvOp) : (dropEntry now op s).tree = s.tree := by
  rw [dropEntry]
  dsimp only
  rw [touchNativeFresh_tree]
  split
  · split
    · rfl
    · rfl
  · rfl

theorem guarded_tree {op : NativeKvOp} {act : ShardLocalState → ShardLocalState}
    (hact : ∀ s, (act s).tree = s.tree) : (guarded op act s).tree = s.tree := by
  rw [guarded]
  split
  · rfl
  · rw [hact, recordTimestamp_tree]

theorem applyUpsert_tree (op : NativeKvOp) : (applyUpsert now op s).tree = s.tree := by
  rw [applyUpsert, guarded_tree fun s => storeEntry_tree op]
  split
  · rfl
  · rfl

theorem applyMaterialize_reached {op : NativeKvOp} (h : s.TreeReached) :
    (applyMaterialize now op s).TreeReached := by
  rw [applyMaterialize]
  dsimp only
  split
  · exact h
  · split
    · exact h
    · next tree htree =>
      intro t ht
      obtain rfl := Option.some.inj ht
      exact materializeLoop_reached (h tree htree)

/-- The counters are not part of the tree. -/
theorem count_tree (f : NativeStats → NativeStats) : (s.count f).tree = s.tree := rfl

theorem applyNativeKvOp_reached {op : NativeKvOp} (h : s.TreeReached) :
    (applyNativeKvOp now op s).TreeReached := by
  rw [applyNativeKvOp]
  cases op.kind with
  | UPSERT => exact h.same (applyUpsert_tree op)
  | REMOVE => exact h.same (guarded_tree fun s => dropEntry_tree op)
  | ALIVE => exact h.same (touchNativeFresh_tree _ _ _)
  | COMPLETE =>
    refine h.same ?_
    rw [count_tree, count_tree, touchNativeFresh_tree, markNativeComplete_tree]
  | MATERIALIZE => exact (applyMaterialize_reached h).same rfl
  | CLEAR => exact h.same rfl
  | RESET => exact h.same rfl

theorem deliver_reached (m : NativeMessage) (h : s.TreeReached) :
    (m.deliver now s).TreeReached := by
  cases m with
  | segment ops =>
    rw [NativeMessage.deliver, applyNativeKvOpsLocal]
    induction ops generalizing s with
    | nil => exact h
    | cons op ops ih => exact ih (applyNativeKvOp_reached h)
  | sweep backend clearRoutes dropTrust =>
    have hdrop : ∀ s : ShardLocalState, (if dropTrust then (s.dropTrust backend).count
        fun c => { c with nativeResets := c.nativeResets + 1 } else s).tree = s.tree := by
      intro s
      split
      · rfl
      · rfl
    cases clearRoutes with
    | true =>
      refine @ShardLocalState.TreeReached.swept _ h _ backend ?_
      rw [NativeMessage.deliver, nativePurgeBackendLocal]
      dsimp only
      rw [hdrop, if_pos rfl, markNativeComplete_tree, touchNativeFresh_tree]
      rfl
    | false =>
      refine h.same ?_
      rw [NativeMessage.deliver, nativePurgeBackendLocal]
      dsimp only
      rw [hdrop, if_neg Bool.false_ne_true]

end Native

theorem evictByPrefixHash_reached {hash : UInt64} {backend : BackendId} {ts : UInt64}
    {s : ShardLocalState} (h : s.TreeReached) :
    (evictByPrefixHashLocal hash backend ts s).TreeReached := by
  rw [evictByPrefixHashLocal]
  dsimp only
  split
  · exact h
  · split
    · exact h.same (recordTimestamp_tree _ _ _)
    · have hrecorded : (s.recordTimestamp (hash, backend) ts).TreeReached :=
        h.same (recordTimestamp_tree _ _ _)
      exact @ShardLocalState.TreeReached.swept _ hrecorded _ backend rfl

/-- The phases that end a cleanup. -/
def ShardAction.rebuilds : ShardAction → Bool
  | .collect => true
  | .swap _ => true
  | _ => false

theorem applyRemoteBatch_config (now : ℕ) (batch : List PendingRoute) (s : ShardRouting) :
    (applyRouteBatchToLocalTree now batch s).config = s.config := by
  induction batch generalizing s with
  | nil => rfl
  | cons route batch ih =>
    exact (ih (s.applyRemoteRoute now route)).trans ShardRouting.applyRemoteRoute_config

theorem applyLocalBatch_config (now : ℕ) (batch : List PendingRoute) (s : ShardRouting) :
    (applyLocalBatchToTree now batch s).1.config = s.config := by
  induction batch generalizing s with
  | nil => rfl
  | cons route batch ih =>
    exact (ih (s.applyLocalRoute now route).1).trans ShardRouting.applyLocalRoute_config

namespace LearningShard

/-- What every action keeps: the kind of tree, and the configuration. -/
theorem step_keeps {s s' : LearningShard} {a : ShardAction} (hstep : s.step a = some s') :
    (s.routing.kv.TreeReached → s'.routing.kv.TreeReached) ∧
      s'.routing.config = s.routing.config := by
  cases a with
  | swap now =>
    obtain ⟨rebuilt, -, rfl⟩ := Option.map_eq_some_iff.mp hstep
    exact ⟨fun h => h.same rfl, rfl⟩
  | lookup now tokens =>
    obtain rfl := Option.some.inj hstep
    exact ⟨fun h => h.map rfl fun ht => ht.step now (.lookup tokens), rfl⟩
  | learnLocal now route =>
    obtain rfl := Option.some.inj hstep
    rw [bufferLocalRoute]
    dsimp only
    split
    · exact ⟨applyLocalBatch_reached now _, applyLocalBatch_config now _ _⟩
    · exact ⟨id, rfl⟩
  | flushLocal now =>
    obtain rfl := Option.some.inj hstep
    exact ⟨applyLocalBatch_reached now _, applyLocalBatch_config now _ _⟩
  | receiveLocal now batch =>
    obtain rfl := Option.some.inj hstep
    exact ⟨applyLocalBatch_reached now _, applyLocalBatch_config now _ _⟩
  | learnRemote now route =>
    obtain rfl := Option.some.inj hstep
    rw [learnRouteRemote]
    dsimp only
    split
    · exact ⟨id, rfl⟩
    · split
      · exact ⟨applyRemoteBatch_reached now _, applyRemoteBatch_config now _ _⟩
      · exact ⟨id, rfl⟩
  | flushRemote now =>
    obtain rfl := Option.some.inj hstep
    exact ⟨applyRemoteBatch_reached now _, applyRemoteBatch_config now _ _⟩
  | receiveRemote now batch =>
    obtain rfl := Option.some.inj hstep
    exact ⟨applyRemoteBatch_reached now _, applyRemoteBatch_config now _ _⟩
  | native now m =>
    obtain rfl := Option.some.inj hstep
    exact ⟨deliver_reached m, rfl⟩
  | evict hash backend ts =>
    obtain rfl := Option.some.inj hstep
    exact ⟨evictByPrefixHash_reached, rfl⟩
  | load hash backend ts =>
    obtain rfl := Option.some.inj hstep
    refine ⟨fun h => h.same ?_, rfl⟩
    change (loadRouteLocal hash backend ts s.routing.kv).tree = _
    rw [loadRouteLocal]
    split
    · rfl
    · exact recordTimestamp_tree _ _ _
  | prune backend =>
    obtain rfl := Option.some.inj hstep
    exact ⟨fun h => h.map rfl fun ht => ht.step 0 (.removeRoutesByBackend backend .REMOTE), rfl⟩
  | unregister backend =>
    obtain rfl := Option.some.inj hstep
    exact ⟨fun h => h.same rfl, rfl⟩
  | expire cutoff =>
    obtain rfl := Option.some.inj hstep
    exact ⟨fun h => h.map rfl fun ht => ht.step 0 (.removeExpiredPerBackend cutoff), rfl⟩
  | compact =>
    obtain rfl := Option.some.inj hstep
    exact ⟨fun h => h.map rfl fun ht => ht.step 0 .compact, rfl⟩
  | collect =>
    obtain rfl := Option.some.inj hstep
    exact ⟨id, rfl⟩

/-- Only the last phases of a cleanup touch the collected index. -/
theorem step_rebuilt {s s' : LearningShard} {a : ShardAction} (hstep : s.step a = some s')
    (ha : a.rebuilds = false) : s'.rebuilt = s.rebuilt := by
  cases a with
  | collect => cases ha
  | swap now => cases ha
  | learnLocal now route =>
    obtain rfl := Option.some.inj hstep
    rw [bufferLocalRoute]
    dsimp only
    split
    · rfl
    · rfl
  | learnRemote now route =>
    obtain rfl := Option.some.inj hstep
    rw [learnRouteRemote]
    dsimp only
    split
    · rfl
    · split
      · rfl
      · rfl
  | _ =>
    obtain rfl := Option.some.inj hstep
    rfl

theorem exec_reached {s s' : LearningShard} {as : List ShardAction}
    (hexec : exec step s as = some s') (h : s.routing.kv.TreeReached) :
    s'.routing.kv.TreeReached :=
  exec_induction (I := fun _ s => s.routing.kv.TreeReached) (h := [])
    (fun hstep h => (step_keeps hstep).1 h) hexec h

/-- What is collected stays until it is swapped in. -/
theorem exec_rebuilt {s s' : LearningShard} {as : List ShardAction}
    (hexec : exec step s as = some s') (has : ∀ a ∈ as, a.rebuilds = false) :
    s'.rebuilt = s.rebuilt ∧ s'.routing.config = s.routing.config := by
  have hmeets : Meets step (fun _ a => a.rebuilds = false) s as := meets_of_forall_mem has
  exact exec_invariant
    (I := fun _ t => t.rebuilt = s.rebuilt ∧ t.routing.config = s.routing.config) (h := [])
    (fun ha hstep h => ⟨(step_rebuilt hstep ha).trans h.1, (step_keeps hstep).2.trans h.2⟩)
    hmeets hexec ⟨rfl, rfl⟩

/-- **The cleanup.** Its phases in their order, with any actions between them, but none after
the walk through the tree that adds or removes a route. The index then has the pairs of the
routes in the tree and those of fresh streams that were in it before, and the counters count
the latter. -/
theorem cleanup_rebuilds_index {s s₁ s₂ s₃ : LearningShard} {cutoff : BackendId → ℕ}
    {xs ys zs : List ShardAction} {now : ℕ} (hreached : s.routing.kv.TreeReached)
    (hwalk : exec step s (.expire cutoff :: xs ++ .compact :: ys ++ [.collect]) = some s₁)
    (hduring : exec step s₁ zs = some s₂) (hzs : ∀ a ∈ zs, a.rebuilds = false)
    (hroutes : ∀ tokens id, s₂.routing.HasRoute tokens id ↔ s₁.routing.HasRoute tokens id)
    (hswap : s₂.step (.swap now) = some s₃) :
    (∀ hash id, id ∈ s₃.routing.kv.prefixHashIndex hash ↔
      s₃.routing.LivePair hash id ∨
        id ∈ s₂.routing.kv.prefixHashIndex hash ∧ id ∈ freshBackends now s₂.routing) ∧
    ∀ id, s₃.routing.kv.entriesOf id =
      {hash | id ∈ s₂.routing.kv.prefixHashIndex hash ∧
        id ∈ freshBackends now s₂.routing}.ncard := by
  -- the walk
  obtain ⟨s₀, hbefore, hcollect⟩ := exec_split hwalk
  have hreached₀ := exec_reached hbefore hreached
  obtain rfl := Option.some.inj hcollect
  obtain ⟨hrebuilt, hconfig⟩ := exec_rebuilt hduring hzs
  -- the swap
  obtain ⟨rebuilt, hsome, rfl⟩ := Option.map_eq_some_iff.mp hswap
  obtain rfl := Option.some.inj (hsome.symm.trans hrebuilt)
  constructor
  · intro hash id
    have hlive : (s₀.routing.LivePair hash id ↔ s₂.routing.LivePair hash id) := by
      simp only [ShardRouting.LivePair, hroutes, hconfig]
    change id ∈ collectLiveRouteIndex s₀.routing hash ∪
      (s₂.routing.kv.prefixHashIndex hash).filter (· ∈ freshBackends now s₂.routing) ↔ _
    rw [Finset.mem_union, Finset.mem_filter, ShardRouting.mem_collectLiveRouteIndex hreached₀,
      hlive]
    rfl
  · intro id
    rw [ShardLocalState.entriesOf, lookup_indexEntries, counter_getD]

/-- A cleanup up to the walk, while backend 1 gets a route and the engine of backend 2
reports a prefix. -/
def busyWalk : List ShardAction :=
  ShardAction.expire (fun _ => 0) :: [ShardAction.receiveLocal 1 [⟨[9], 1⟩], reports [5]] ++
    ShardAction.compact :: [] ++ [ShardAction.collect]

/-- Another prefix is reported before the swap. -/
theorem cleanup_rebuilds_index_reported :
    ∃ s₁ s₂ s₃, exec step blankShard busyWalk = some s₁ ∧ exec step s₁ [reports [6]] = some s₂ ∧
      s₂.step (.swap 2) = some s₃ ∧ 2 ∈ s₃.routing.kv.prefixHashIndex (hashPrefix [6] 1 1) ∧
      ∀ id, s₃.routing.kv.entriesOf id =
        {hash | id ∈ s₂.routing.kv.prefixHashIndex hash ∧
          id ∈ freshBackends 2 s₂.routing}.ncard := by
  have hreached : blankShard.routing.kv.TreeReached := by
    intro tree htree
    obtain rfl := Option.some.inj htree
    exact ⟨_, 0, [], rfl⟩
  refine ⟨_, _, _, rfl, rfl, rfl, by decide +kernel, ?_⟩
  exact (@cleanup_rebuilds_index blankShard _ _ _ (fun _ => 0)
    [.receiveLocal 1 [⟨[9], 1⟩], reports [5]] [] [reports [6]] 2 hreached rfl rfl
    (by decide) (ShardRouting.hasRoute_congr (applyUpsert_tree _)) rfl).2

end LearningShard

end Ranvier
