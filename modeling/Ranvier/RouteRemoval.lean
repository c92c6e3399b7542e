import Ranvier.RadixTallies
import Ranvier.RouteLearning

/-!
# What takes routes out of a shard

Three paths of the router remove routes from a shard's tree although nobody asked for these
routes to go: a native `CLEAR`, an eviction by prefix hash, and the room made for an
announced route.

* `clear_sweeps_iff` — a `CLEAR` sweeps the origins `LOCAL` and `REMOTE`; the routes the
  stream itself materialized, of origin `PUSH`, stay;
* `evict_frame_iff` — an eviction by prefix hash removes every route of the backend that was
  not pushed, whatever its hash;
* `refused_frame_iff` — room is made before the trust decision, so a refused announcement
  costs a route exactly when the tree is at its limit.
-/

namespace Ranvier

/-! ## Removal by backend -/

namespace Node

theorem leafPaths_removeIf (p : Leaf → Bool) (n : Node) (st : TreeBook × ℕ) :
    (removeIf p n st).1.leafPaths = n.leafPaths.filter fun e => !p e.2 := by
  induction n using induct generalizing st with
  | h n ih =>
    have hkids : ∀ kids : List (UInt8 × Node), (∀ q, q ∈ kids → q ∈ n.kids) → ∀ st,
        leafPathsKids (removeIfKids p kids st).1 =
          (leafPathsKids kids).filter fun e => !p e.2 := by
      intro kids hsub
      induction kids with
      | nil => exact fun _ => rfl
      | cons q kids ihk =>
        intro st
        obtain ⟨k, c⟩ := q
        rw [removeIfKids, leafPathsKids, leafPathsKids, List.filter_append, List.filter_map,
          ih (k, c) (hsub _ List.mem_cons_self),
          ihk fun q hq => hsub q (List.mem_cons_of_mem _ hq)]
        rfl
    obtain ⟨st', -, hpre, -, hleaf, hrem⟩ := removeIf_eq p n st
    have hself : ((n.leaf.filter (fun l => !p l)).map fun l => (([] : List UInt8), l)).toList =
        (n.leaf.map fun l => (([] : List UInt8), l)).toList.filter fun e => !p e.2 := by
      rcases n.leaf with _ | l
      · rfl
      · by_cases hp : p l = true <;> simp [Option.filter, hp]
    rw [leafPaths_eq, leafPaths_eq, hpre, hleaf, hrem, hkids n.kids (fun _ hq => hq), hself,
      ← List.filter_append, List.filter_map]
    rfl

end Node

/-- The entries that a sweep of one backend and origin leaves. -/
def sweptOf (backend : BackendId) (origin : RouteOrigin) (es : List RouteEntry) : List RouteEntry :=
  es.filter fun e => !decide (e.backend = backend ∧ e.origin = origin)

namespace RadixTree

theorem forEachLeaf_removeRoutesByBackend (t : RadixTree) (backend : BackendId)
    (origin : RouteOrigin) :
    (t.removeRoutesByBackend backend origin).1.forEachLeaf =
      sweptOf backend origin t.forEachLeaf := by
  rw [forEachLeaf, forEachLeaf, removeRoutesByBackend, removeWhere,
    Node.forEachLeafRecursive_eq, Node.forEachLeafRecursive_eq, Node.leafPaths_removeIf, sweptOf,
    List.filter_map]
  rfl

end RadixTree

namespace ShardLocalState

/-- The routes of a shard, in the order of `for_each_leaf`. -/
def routes (s : ShardLocalState) : List RouteEntry := (s.tree.map RadixTree.forEachLeaf).getD []

/-- The routes of a shard after its tree went through the two sweeps. -/
theorem routes_swept {s s' : ShardLocalState} {backend : BackendId}
    (h : s'.tree = s.tree.map fun tree =>
      ((tree.removeRoutesByBackend backend .LOCAL).1.removeRoutesByBackend backend .REMOTE).1) :
    s'.routes = sweptOf backend .REMOTE (sweptOf backend .LOCAL s.routes) := by
  rw [routes, h, routes]
  rcases s.tree with _ | tree
  · rfl
  · simp only [Option.map_some, Option.getD_some, RadixTree.forEachLeaf_removeRoutesByBackend]

end ShardLocalState

/-- What the two sweeps leave. -/
theorem mem_swept {backend : BackendId} {es : List RouteEntry} {e : RouteEntry} :
    e ∈ sweptOf backend .REMOTE (sweptOf backend .LOCAL es) ↔
      e ∈ es ∧ (e.backend = backend → e.origin = .PUSH) := by
  rw [sweptOf, sweptOf, List.mem_filter, List.mem_filter, and_assoc]
  refine and_congr_right fun _ => ?_
  simp only [Bool.not_eq_true', decide_eq_false_iff_not, not_and]
  cases e.origin <;> simp

/-- They leave what a predicate selects that holds of none of the swept routes. -/
theorem filter_swept {backend : BackendId} {keep : RouteEntry → Bool} {es : List RouteEntry}
    (h : ∀ e ∈ es, keep e = true → e.backend = backend → e.origin = .PUSH) :
    (sweptOf backend .REMOTE (sweptOf backend .LOCAL es)).filter keep = es.filter keep := by
  rw [sweptOf, sweptOf, List.filter_filter, List.filter_filter]
  refine List.filter_congr fun e he => ?_
  rcases hk : keep e with _ | _
  · rfl
  · have hpush := h e he hk
    by_cases hb : e.backend = backend
    · simp [hb, hpush hb]
    · simp [hb]

/-! ## Native clears -/

/-- What a clear of `backend` should do: nothing of the backend is left, and the routes and
index entries of the others are as before. -/
structure Cleared (backend : BackendId) (s s' : ShardLocalState) : Prop where
  /-- no route of any origin names the backend -/
  routes : ∀ e ∈ s'.routes, e.backend ≠ backend
  /-- no index entry does -/
  entries : ∀ hash, backend ∉ s'.prefixHashIndex hash
  /-- the routes of the others -/
  otherRoutes : (s'.routes.filter fun e => e.backend ≠ backend) =
    s.routes.filter fun e => e.backend ≠ backend
  /-- their index entries -/
  otherEntries : ∀ hash b, b ≠ backend →
    (b ∈ s'.prefixHashIndex hash ↔ b ∈ s.prefixHashIndex hash)

section Clear

variable (now : ℕ) (backend : BackendId) (s : ShardLocalState)

theorem touchNativeFresh_tree : (s.touchNativeFresh now backend).tree = s.tree := by
  unfold ShardLocalState.touchNativeFresh
  split <;> rfl

theorem markNativeComplete_tree : (s.markNativeComplete backend).tree = s.tree := by
  unfold ShardLocalState.markNativeComplete
  dsimp only
  split <;> rfl

theorem clear_tree :
    ((NativeMessage.sweep backend true false).deliver now s).tree = s.tree.map fun tree =>
      ((tree.removeRoutesByBackend backend .LOCAL).1.removeRoutesByBackend backend .REMOTE).1 := by
  rw [NativeMessage.deliver, nativePurgeBackendLocal]
  simp only [if_true, Bool.false_eq_true, if_false, markNativeComplete_tree, touchNativeFresh_tree]
  rfl

theorem clear_index (hash : UInt64) :
    ((NativeMessage.sweep backend true false).deliver now s).prefixHashIndex hash =
      (s.prefixHashIndex hash).erase backend := by
  rw [NativeMessage.deliver]
  exact congrArg (fun r : Residency => r.prefixHashIndex hash)
    (residency_nativePurgeBackendLocal now s backend true false)

end Clear

/-- **A clear** leaves nothing of its backend and all of the others, exactly when the shard has
no route of the backend with origin `PUSH`. -/
theorem clear_sweeps_iff (now : ℕ) (backend : BackendId) (s : ShardLocalState) :
    Cleared backend s ((NativeMessage.sweep backend true false).deliver now s) ↔
      ∀ e ∈ s.routes, e.backend = backend → e.origin ≠ .PUSH := by
  have hroutes := ShardLocalState.routes_swept (clear_tree now backend s)
  constructor
  · intro h e he hb hpush
    refine h.routes e ?_ hb
    rw [hroutes, mem_swept]
    exact ⟨he, fun _ => hpush⟩
  · intro h
    refine ⟨fun e he hb => ?_, fun hash => ?_, ?_, fun hash b hb => ?_⟩
    · rw [hroutes, mem_swept] at he
      exact h e he.1 hb (he.2 hb)
    · rw [clear_index]
      exact Finset.notMem_erase backend _
    · rw [hroutes]
      exact filter_swept fun e _ hkeep hb => absurd hb (of_decide_eq_true hkeep)
    · rw [clear_index, Finset.mem_erase]
      exact and_iff_right hb

/-- A shard whose stream reported one block and had a route materialized for it. -/
def materializedShard : ShardLocalState :=
  applyNativeKvOpsLocal 0
    [{ kind := .MATERIALIZE, backend := 1, tokens := [7], firstNewTokenCount := 1,
       boundaryStep := 1 }]
    { emptyShard with tree := some (RadixTree.create ⟨1, Nat.one_pos⟩ 0) }

/-- **The slip.** The backend's cache is empty, and the route it materialized stays. -/
theorem materialized_route_survives_clear :
    ¬ Cleared 1 materializedShard
      ((NativeMessage.sweep 1 true false).deliver 1 materializedShard) := by
  have hroute : (⟨[7], 1, .PUSH, 0⟩ : RouteEntry) ∈ materializedShard.routes := by decide +kernel
  intro h
  refine h.routes ⟨[7], 1, .PUSH, 0⟩ ?_ rfl
  rw [ShardLocalState.routes_swept (clear_tree 1 1 materializedShard), mem_swept]
  exact ⟨hroute, fun _ => rfl⟩

/-! ## Evictions by prefix hash -/

/-- The hash a route's key has at its full depth. -/
def RouteEntry.prefixHash (blockAlignment : ℕ+) (e : RouteEntry) : UInt64 :=
  hashPrefix e.tokens e.tokens.length blockAlignment

/-- What an eviction should do: only routes of the backend that have the hash go. -/
structure EvictsOnly (blockAlignment : ℕ+) (hash : UInt64) (backend : BackendId)
    (s s' : ShardLocalState) : Prop where
  /-- nothing is added -/
  sublist : s'.routes.Sublist s.routes
  /-- every other route is as before -/
  others : (s'.routes.filter fun e => ¬(e.backend = backend ∧ e.prefixHash blockAlignment = hash)) =
    s.routes.filter fun e => ¬(e.backend = backend ∧ e.prefixHash blockAlignment = hash)

/-- A route that the eviction is not about is still there. -/
theorem EvictsOnly.keeps {blockAlignment : ℕ+} {hash : UInt64} {backend : BackendId}
    {s s' : ShardLocalState} (h : EvictsOnly blockAlignment hash backend s s') {e : RouteEntry}
    (he : e ∈ s.routes) (hhash : e.prefixHash blockAlignment ≠ hash) : e ∈ s'.routes := by
  have hmem : e ∈ s.routes.filter fun e =>
      ¬(e.backend = backend ∧ e.prefixHash blockAlignment = hash) :=
    List.mem_filter.mpr ⟨he, decide_eq_true fun hboth => hhash hboth.2⟩
  rw [← h.others] at hmem
  exact (List.mem_filter.mp hmem).1

section Evict

variable {hash : UInt64} {backend : BackendId} {ts : UInt64} {s : ShardLocalState}

theorem recordTimestamp_tree (key : UInt64 × BackendId) (ts : UInt64) (s : ShardLocalState) :
    (s.recordTimestamp key ts).tree = s.tree := by
  unfold ShardLocalState.recordTimestamp
  split <;> rfl

theorem recordTimestamp_index (key : UInt64 × BackendId) (ts : UInt64) (s : ShardLocalState) :
    (s.recordTimestamp key ts).prefixHashIndex = s.prefixHashIndex := by
  unfold ShardLocalState.recordTimestamp
  split <;> rfl

/-- A stale event and one for a pair that is not indexed leave the tree alone. -/
theorem evict_routes_ignored
    (h : s.isStale (hash, backend) ts = true ∨ backend ∉ s.prefixHashIndex hash) :
    (evictByPrefixHashLocal hash backend ts s).routes = s.routes := by
  unfold evictByPrefixHashLocal
  split
  · rfl
  · rename_i hstale
    dsimp only
    rw [recordTimestamp_index, if_pos (h.resolve_left hstale), ShardLocalState.routes,
      recordTimestamp_tree, ShardLocalState.routes]

/-- Any other goes over all routes of the backend. -/
theorem evict_routes_swept (hstale : s.isStale (hash, backend) ts = false)
    (hindex : backend ∈ s.prefixHashIndex hash) :
    (evictByPrefixHashLocal hash backend ts s).routes =
      sweptOf backend .REMOTE (sweptOf backend .LOCAL s.routes) := by
  refine ShardLocalState.routes_swept ?_
  unfold evictByPrefixHashLocal
  simp only [hstale, Bool.false_eq_true, if_false, recordTimestamp_index, hindex, not_true_eq_false]
  change (s.recordTimestamp (hash, backend) ts).tree.map _ = _
  rw [recordTimestamp_tree]

end Evict

/-- **An eviction by prefix hash** removes only routes of its backend that have the hash,
exactly when it is stale, or the pair is not indexed, or all routes of the backend that were
not pushed have the hash. -/
theorem evict_frame_iff (blockAlignment : ℕ+) (hash : UInt64) (backend : BackendId) (ts : UInt64)
    (s : ShardLocalState) :
    EvictsOnly blockAlignment hash backend s (evictByPrefixHashLocal hash backend ts s) ↔
      s.isStale (hash, backend) ts = true ∨ backend ∉ s.prefixHashIndex hash ∨
        ∀ e ∈ s.routes, e.backend = backend → e.origin ≠ .PUSH →
          e.prefixHash blockAlignment = hash := by
  by_cases hignored : s.isStale (hash, backend) ts = true ∨ backend ∉ s.prefixHashIndex hash
  · have hroutes := evict_routes_ignored hignored
    refine iff_of_true ⟨?_, ?_⟩ (or_assoc.mp (Or.inl hignored))
    · rw [hroutes]
    · rw [hroutes]
  · obtain ⟨hstale, hindex⟩ := not_or.mp hignored
    have hfresh : s.isStale (hash, backend) ts = false := Bool.eq_false_iff.mpr hstale
    have hroutes := evict_routes_swept hfresh (not_not.mp hindex)
    rw [← or_assoc, or_iff_right hignored]
    constructor
    · intro h e he hb hpush
      by_contra hhash
      have hleft := h.keeps he hhash
      rw [hroutes, mem_swept] at hleft
      exact hpush (hleft.2 hb)
    · intro h
      refine ⟨?_, ?_⟩
      · rw [hroutes]
        exact List.filter_sublist.trans List.filter_sublist
      · rw [hroutes]
        refine filter_swept fun e he hkeep hb => ?_
        by_contra hpush
        exact of_decide_eq_true hkeep ⟨hb, h e he hb hpush⟩

/-- A shard that learned two routes to one backend and published them. -/
def twoRoutesShard : ShardLocalState :=
  { emptyShard with
    tree := some (((RadixTree.create ⟨1, Nat.one_pos⟩ 0).insert 0 [7] 1 .LOCAL).insert 0 [8] 1
      .LOCAL)
    prefixHashIndex := fun hash =>
      if hash = hashPrefix [7] 1 ⟨1, Nat.one_pos⟩ ∨
          hash = hashPrefix [8] 1 ⟨1, Nat.one_pos⟩ then {1} else ∅ }

/-- **The slip.** The backend reports that it dropped one prefix, and loses both routes. -/
theorem other_route_evicted :
    ¬ EvictsOnly 1 (hashPrefix [7] 1 1) 1 twoRoutesShard
      (evictByPrefixHashLocal (hashPrefix [7] 1 1) 1 1 twoRoutesShard) := by
  have hroute : (⟨[8], 1, .LOCAL, 0⟩ : RouteEntry) ∈ twoRoutesShard.routes ∧
      hashPrefix [8] 1 1 ≠ hashPrefix [7] 1 1 ∧
      1 ∈ twoRoutesShard.prefixHashIndex (hashPrefix [7] 1 1) := by decide +kernel
  obtain ⟨hmem, hhash, hindex⟩ := hroute
  intro h
  have hleft := h.keeps hmem hhash
  rw [evict_routes_swept rfl hindex, mem_swept] at hleft
  cases hleft.2 rfl

/-! ## Refused announcements -/

theorem split_stored {n : Node} (hwf : n.WF) (key : List UInt8) (book : TreeBook)
    {s : Node × TreeBook}
    (hs : s = if matchLen n.pre key < n.pre.length then n.splitNode (matchLen n.pre key) book
      else (n, book)) : s.1.WF ∧ ∀ k, s.1.stored k = n.stored k := by
  rw [hs]
  split
  · rename_i hlt
    exact Node.splitNode_keeps hwf hlt book
  · exact ⟨hwf, fun _ => rfl⟩

/-- A refused insertion may have split nodes; it changes no route. -/
theorem insertRecursive_refused (req : InsertRequest) (n : Node) (key : List UInt8)
    (book : TreeBook) (hwf : n.WF)
    (h : (insertRecursive req n key book).trustResult = .REFUSED) :
    (insertRecursive req n key book).isNewRoute = false ∧
      ∀ k, (insertRecursive req n key book).node.stored k = n.stored k := by
  fun_induction insertRecursive req n key book with
  | case1 n key book len s hrem =>
    obtain ⟨-, hstored⟩ := split_stored hwf key book (s := s) rfl
    rcases updateLeaf_cases req s.1 s.2 with ⟨heq, -⟩ | ⟨held, -, -, heq | heq⟩
    · rw [heq, overwriteLeaf] at h
      dsimp only at h
      split at h <;> cases h
    · rw [heq]
      exact ⟨rfl, hstored⟩
    · rw [heq] at h
      cases h
  | case2 n key book len s b rest hrem child hfind r ih =>
    obtain ⟨hwf', hstored⟩ := split_stored hwf key book (s := s) rfl
    rw [Node.findChild_eq_lookup hwf'.shape] at hfind
    obtain ⟨hnew, hchild⟩ := ih (hwf'.kids b child hfind) h
    have hmem : b ∈ keysOf s.1.kids := lookup_isSome_iff.mp (by rw [hfind]; rfl)
    have hw := Node.setChild_spec hwf'.shape hmem r.node
    refine ⟨hnew, fun k => ?_⟩
    rw [Node.stored_of_withChild hw (t := rest) (v := child.stored rest) ?_ k]
    · have hsame : s.1.stored (s.1.pre ++ b :: rest) = child.stored rest := by
        rw [Node.stored_append, Node.storedBelow, hfind]
        rfl
      split
      · rename_i hk
        rw [hk, ← hsame, hstored]
      · exact hstored k
    · intro k'
      rw [hchild, Node.storedBelow, hfind]
      split
      · rename_i hk
        rw [hk]
      · rfl
  | case3 n key book len s b rest hrem hfind c₀ c p => cases h

namespace RadixTree

/-- The stored routes: backend and origin by byte key. -/
def storedRoutes (t : RadixTree) (key : List UInt8) : Option (BackendId × RouteOrigin) :=
  (t.root.stored key).map Node.Leaf.route

variable {t : RadixTree}

theorem insertIfTrusted_refused (hwf : t.root.WF) {now : ℕ} {tokens : List TokenId}
    {backend : BackendId} {origin : RouteOrigin} {converge : Bool}
    (h : (t.insertIfTrusted now tokens backend origin converge).2 = .REFUSED) :
    (t.insertIfTrusted now tokens backend origin converge).1.storedRoutes = t.storedRoutes ∧
      (t.insertIfTrusted now tokens backend origin converge).1.routeCount = t.routeCount := by
  unfold insertIfTrusted insertWith at h ⊢
  by_cases hlen : alignedLen t.blockAlignment tokens = 0
  · simp only [if_pos hlen]
    exact ⟨trivial, trivial⟩
  · simp only [if_neg hlen] at h ⊢
    obtain ⟨hnew, hstored⟩ := insertRecursive_refused _ t.root _ _ hwf h
    refine ⟨funext fun key => ?_, ?_⟩
    · exact congrArg (Option.map Node.Leaf.route) (hstored key)
    · rw [hnew, if_neg Bool.false_ne_true]

theorem lookup_storedRoutes (now : ℕ) (tokens : List TokenId) :
    (t.lookup now tokens).2.storedRoutes = t.storedRoutes := by
  unfold lookup
  split
  · rfl
  · rename_i best hbest
    have hedit := Node.writeAt_edited
      (R := fun l l' => l'.map Node.Leaf.route = l.map Node.Leaf.route) best.id
      (fun n => { n with lastAccessed := now })
      (fun m => ⟨rfl, rfl, rfl, rfl, by simp only [Node.leaf, Option.map_map]; rfl⟩)
      (fun _ => rfl) t.root
    funext key
    exact hedit.stored rfl key

theorem lookup_count (now : ℕ) (tokens : List TokenId) :
    (t.lookup now tokens).2.routeCount = t.routeCount := by
  unfold lookup
  split <;> rfl

/-- There are as many routes as stored keys. -/
theorem length_leaves (t : RadixTree) :
    t.leaves.length = (t.root.leafPaths.map Prod.fst).length := by
  have hsnd : ∀ n : Node, n.leafPaths.map Prod.snd = n.nodes.filterMap Node.leaf := by
    intro n
    induction n using Node.induct with
    | h n ih =>
      have hkids : ∀ kids : List (UInt8 × Node), (∀ q, q ∈ kids → q ∈ n.kids) →
          (Node.leafPathsKids kids).map Prod.snd = (Node.nodesKids kids).filterMap Node.leaf := by
        intro kids hsub
        induction kids with
        | nil => rfl
        | cons q kids ihk =>
          obtain ⟨k, c⟩ := q
          rw [Node.leafPathsKids, Node.nodesKids, List.map_append, List.filterMap_append,
            List.map_map, ← ih (k, c) (hsub _ List.mem_cons_self),
            ihk fun q hq => hsub q (List.mem_cons_of_mem _ hq)]
          rfl
      rw [Node.leafPaths_eq, Node.nodes_eq, List.map_map, List.filterMap_cons]
      change (((n.leaf.map fun l => (([] : List UInt8), l)).toList ++
        Node.leafPathsKids n.kids).map Prod.snd) = _
      rw [List.map_append, hkids n.kids fun _ hq => hq]
      cases n.leaf <;> rfl
  rw [leaves, ← hsnd, List.length_map, List.length_map]

theorem length_eq_of_storedRoutes {t' : RadixTree} (hwf : t.root.WF) (hwf' : t'.root.WF)
    (h : t'.storedRoutes = t.storedRoutes) : t'.leaves.length = t.leaves.length := by
  have hkeys : ∀ {t : RadixTree}, t.root.WF → ∀ key, key ∈ t.root.leafPaths.map Prod.fst ↔
      (t.storedRoutes key).isSome := by
    intro t hwf key
    rw [storedRoutes, Option.isSome_map, Option.isSome_iff_exists, List.mem_map]
    constructor
    · rintro ⟨⟨key, l⟩, hmem, rfl⟩
      exact ⟨l, (Node.mem_leafPaths hwf).mp hmem⟩
    · rintro ⟨l, hl⟩
      exact ⟨(key, l), (Node.mem_leafPaths hwf).mpr hl, rfl⟩
  rw [length_leaves, length_leaves]
  refine ((List.perm_ext_iff_of_nodup (Node.leafPaths_nodup hwf')
    (Node.leafPaths_nodup hwf)).mpr fun key => ?_).length_eq
  rw [hkeys hwf', hkeys hwf, h]

theorem leaves_eq_nil_iff (t : RadixTree) : t.leaves = [] ↔ t.forEachLeaf = [] := by
  rw [← List.length_eq_zero_iff, length_leaves, forEachLeaf, Node.forEachLeafRecursive_eq,
    List.map_eq_nil_iff, List.length_map, List.length_eq_zero_iff]

/-- A tree with a route has one to evict. -/
theorem Reached.evictLowestTrust (h : t.Reached) (hpos : 0 < t.routeCount) :
    t.evictLowestTrust.2 = true ∧ t.evictLowestTrust.1.routeCount = t.routeCount - 1 := by
  obtain ⟨-, lists, hlists⟩ := h.kept
  have hne : t.forEachLeaf ≠ [] := by
    rw [ne_eq, ← leaves_eq_nil_iff, ← List.length_eq_zero_iff, ← h.count]
    exact hpos.ne'
  obtain ⟨e, he⟩ := List.exists_mem_of_ne_nil _ hne
  obtain ⟨xs, i, old, -, -, hlist, -⟩ := listed_of_entry hlists he
  obtain ⟨m, hm, -⟩ := lruTail_of_last hlists hlist
  unfold RadixTree.evictLowestTrust
  split
  · exact ⟨rfl, rfl⟩
  · split
    · exact ⟨rfl, rfl⟩
    · -- only the list of local routes is left to have a tail
      rw [evictOldest, ← List.foldl_map]
      rcases foldl_olderOf ([RouteOrigin.REMOTE, .PUSH, .LOCAL].map t.lruTail) none with
        ⟨-, -, hno⟩ | ⟨victim, hvictim, -⟩
      · refine absurd (hm ▸ ?_) (hno m)
        cases e.origin <;> simp
      · rw [hvictim]
        exact ⟨rfl, rfl⟩

end RadixTree

/-- Making room is a run of evictions. -/
theorem evictToLimit_reached {maxRoutes fuel : ℕ} {t : RadixTree} (h : t.Reached)
    (stats : NativeStats) : (evictToLimit maxRoutes fuel (t, stats)).1.Reached := by
  induction fuel generalizing t stats with
  | zero => exact h
  | succ fuel ih =>
    have hstep : t.evictLowestTrust.1.Reached := h.step 0 .evictLowestTrust
    rw [evictToLimit]
    split
    · rcases hevict : t.evictLowestTrust with ⟨t', evicted⟩
      rw [hevict] at hstep
      cases evicted with
      | true => exact ih hstep _
      | false => exact hstep
    · exact h

/-- It ends below the limit. -/
theorem evictToLimit_count {maxRoutes fuel : ℕ} {t : RadixTree} (h : t.Reached)
    (hmax : 0 < maxRoutes) (hfuel : t.routeCount ≤ fuel) (stats : NativeStats) :
    (evictToLimit maxRoutes fuel (t, stats)).1.routeCount < maxRoutes := by
  induction fuel generalizing t stats with
  | zero =>
    rw [evictToLimit]
    exact (Nat.le_zero.mp hfuel).trans_lt hmax
  | succ fuel ih =>
    have hstep : t.evictLowestTrust.1.Reached := h.step 0 .evictLowestTrust
    rw [evictToLimit]
    split
    · rename_i hfull
      obtain ⟨htrue, hcount⟩ := h.evictLowestTrust (hmax.trans_le hfull)
      rcases hevict : t.evictLowestTrust with ⟨t', evicted⟩
      rw [hevict] at hstep htrue hcount
      dsimp only at hstep htrue hcount
      rw [htrue]
      exact ih hstep (by omega) _
    · rename_i hfull
      exact Nat.lt_of_not_le hfull

/-- The routes of a shard by byte key. -/
def ShardLocalState.storedRoutes (s : ShardLocalState) (key : List UInt8) :
    Option (BackendId × RouteOrigin) :=
  s.tree.bind fun tree => tree.storedRoutes key

section Refused

variable {s : ShardRouting} {now : ℕ} {route : PendingRoute} {t : RadixTree}

/-- A refused announcement leaves the routes that are there once room is made. -/
theorem applyRemoteRoute_refused (htree : s.kv.tree = some t) (h : t.Reached)
    (hrefused : (s.insertRemote now route t).verdict = some .REFUSED) :
    ∃ t', (s.applyRemoteRoute now route).kv.tree = some t' ∧ t'.root.WF ∧
      t'.storedRoutes = (s.roomForRemote t).1.storedRoutes ∧
      t'.routeCount = (s.roomForRemote t).1.routeCount ∧
      t'.leaves.length = t'.routeCount := by
  have hroom : (s.roomForRemote t).1.Reached := by
    unfold ShardRouting.roomForRemote
    split
    · exact evictToLimit_reached h _
    · exact h
  refine ⟨(s.insertRemote now route t).tree, ?_, ?_⟩
  · rw [ShardRouting.applyRemoteRoute, htree]
    simp only [hrefused, if_true]
    rfl
  have hlooked : ∃ looked : RadixTree, looked.Reached ∧
      looked.storedRoutes = (s.roomForRemote t).1.storedRoutes ∧
      looked.routeCount = (s.roomForRemote t).1.routeCount ∧
      (looked.insertIfTrusted now route.tokens route.backend .REMOTE s.converge).2 = .REFUSED ∧
      (s.insertRemote now route t).tree =
        (looked.insertIfTrusted now route.tokens route.backend .REMOTE s.converge).1 := by
    unfold ShardRouting.insertRemote at hrefused ⊢
    by_cases hconverge : s.converge = true
    · simp only [hconverge, if_true, Option.some.injEq] at hrefused ⊢
      exact ⟨_, hroom.step now (.lookup route.tokens), RadixTree.lookup_storedRoutes now _,
        RadixTree.lookup_count now _, hrefused, rfl⟩
    · rw [Bool.not_eq_true] at hconverge
      simp only [hconverge, Bool.false_eq_true, if_false, Option.some.injEq] at hrefused ⊢
      exact ⟨_, hroom, rfl, rfl, hrefused, rfl⟩
  obtain ⟨looked, hreached, hstored, hcount, hverdict, heq⟩ := hlooked
  have hinserted : (looked.insertIfTrusted now route.tokens route.backend .REMOTE
      s.converge).1.Reached :=
    hreached.step now (.insertIfTrusted route.tokens route.backend .REMOTE s.converge)
  obtain ⟨hsame, hcount'⟩ := RadixTree.insertIfTrusted_refused hreached.kept.1 hverdict
  rw [heq]
  exact ⟨hinserted.kept.1, hsame.trans hstored, hcount'.trans hcount, hinserted.count.symm⟩

end Refused

/-- **A refused announcement** leaves the stored routes as they are, exactly when the tree is
not at its route limit. -/
theorem refused_frame_iff {s : ShardRouting} {now : ℕ} {route : PendingRoute} {t : RadixTree}
    (htree : s.kv.tree = some t) (hreached : t.Reached)
    (hrefused : (s.insertRemote now route t).verdict = some .REFUSED) :
    (s.applyRemoteRoute now route).kv.storedRoutes = s.kv.storedRoutes ↔
      s.kv.maxRoutes = 0 ∨ t.routeCount < s.kv.maxRoutes := by
  obtain ⟨t', htree', hwf', hstored, hcount, hlength⟩ :=
    applyRemoteRoute_refused htree hreached hrefused
  have hbefore : s.kv.storedRoutes = t.storedRoutes := by
    funext key
    rw [ShardLocalState.storedRoutes, htree, Option.bind_some]
  have hafter : (s.applyRemoteRoute now route).kv.storedRoutes = t'.storedRoutes := by
    funext key
    rw [ShardLocalState.storedRoutes, htree', Option.bind_some]
  rw [hbefore, hafter]
  constructor
  · -- at the limit there is one route less
    intro hsame
    by_contra hfull
    rw [not_or, Nat.not_lt] at hfull
    obtain ⟨hmax, hfull⟩ := hfull
    have hbelow : (s.roomForRemote t).1.routeCount < s.kv.maxRoutes := by
      rw [ShardRouting.roomForRemote, if_pos (Nat.pos_of_ne_zero hmax)]
      exact evictToLimit_count hreached (Nat.pos_of_ne_zero hmax) le_rfl _
    have hlen := RadixTree.length_eq_of_storedRoutes hreached.kept.1 hwf' hsame
    rw [hlength, hcount, ← hreached.count] at hlen
    omega
  · intro hfits
    have hroom : (s.roomForRemote t).1 = t := by
      rw [ShardRouting.roomForRemote]
      split
      · rename_i hmax
        cases hfuel : t.routeCount with
        | zero => rfl
        | succ fuel =>
          rw [evictToLimit, if_neg (by omega)]
      · rfl
    rw [hstored, hroom]

/-- A local route to backend 1 and an announced one to backend 2. -/
def localAndAnnounced : List (ℕ × TreeOp) :=
  [(0, .insert [7] 1 .LOCAL), (1, .insertIfTrusted [8] 2 .REMOTE true)]

/-- A shard with these routes and a limit on routes. -/
def limitedShard (maxRoutes : ℕ) : ShardRouting where
  kv :=
    { emptyShard with
      tree := some ((RadixTree.create ⟨1, Nat.one_pos⟩ 0).run localAndAnnounced)
      maxRoutes := maxRoutes }
  quarantined := ∅
  backends := fun _ => none
  backendIds := []
  backendIds_nodup := List.nodup_nil
  deadBackends := ∅
  config := { blockAlignment := ⟨1, Nat.one_pos⟩ }
  failOpenActive := false
  crossShardLoad := fun _ => none
  gpuLoadCache := {}
  cacheHeadroomCache := {}
  residencyCache := fun _ => none
  scoringWeightsOverrides := fun _ => none

theorem refused_frame_limitedShard :
    ((limitedShard 3).insertRemote 2 ⟨[7], 3⟩ ((RadixTree.create ⟨1, Nat.one_pos⟩ 0).run
        localAndAnnounced)).verdict = some .REFUSED ∧
      ((limitedShard 3).applyRemoteRoute 2 ⟨[7], 3⟩).kv.storedRoutes =
        (limitedShard 3).kv.storedRoutes := by
  have hfacts : ((limitedShard 3).insertRemote 2 ⟨[7], 3⟩ ((RadixTree.create ⟨1, Nat.one_pos⟩ 0).run
        localAndAnnounced)).verdict = some .REFUSED ∧
      ((RadixTree.create ⟨1, Nat.one_pos⟩ 0).run localAndAnnounced).routeCount < 3 := by
    decide +kernel
  exact ⟨hfacts.1, (refused_frame_iff rfl ⟨1, 0, localAndAnnounced, rfl⟩ hfacts.1).mpr
    (Or.inr hfacts.2)⟩

/-- **The slip.** At a limit of two routes the announcement is refused, and the route to
backend 2 is gone. -/
theorem refused_announcement_evicts :
    ((limitedShard 2).insertRemote 2 ⟨[7], 3⟩ ((RadixTree.create ⟨1, Nat.one_pos⟩ 0).run
        localAndAnnounced)).verdict = some .REFUSED ∧
      ((limitedShard 2).applyRemoteRoute 2 ⟨[7], 3⟩).kv.storedRoutes ≠
        (limitedShard 2).kv.storedRoutes := by
  have hfacts : ((limitedShard 2).insertRemote 2 ⟨[7], 3⟩ ((RadixTree.create ⟨1, Nat.one_pos⟩ 0).run
        localAndAnnounced)).verdict = some .REFUSED ∧
      ((limitedShard 2).applyRemoteRoute 2 ⟨[7], 3⟩).kv.storedRoutes (encodeTokensBe [8]) ≠
        (limitedShard 2).kv.storedRoutes (encodeTokensBe [8]) := by decide +kernel
  exact ⟨hfacts.1, fun heq => hfacts.2 (congrFun heq _)⟩

end Ranvier
