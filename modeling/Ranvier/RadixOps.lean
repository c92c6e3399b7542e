import Ranvier.RadixInsert

/-!
# Lookup, traversal, removal and compaction

The remaining walks over the tree. Each is read off the map the tree stands for:

* `lookupWalk_spec` — the walk of a lookup ends with the longest stored prefix;
* `leafPaths` lists every stored key once, and `for_each_leaf` is its image;
* touching, evicting and removing keep the skeleton of the tree and edit the
  routes held in it (`Node.Edited`);
* `compact` changes the skeleton and no route.
-/

namespace Ranvier

namespace Node

/-! ## Lookup -/

/-- The loop of `lookup_recursive`: the node of the best match, if any. -/
def lookupWalk (node : Node) (key : List UInt8) (best : Option Node) : Option Node :=
  let len := matchLen node.pre key
  if len < node.pre.length then best
  else
    let best := if node.leafValue.isSome then some node else best
    match _hrem : key.drop len with
    | [] => best
    | b :: rest =>
      match node.findChild b with
      | some child => child.lookupWalk rest best
      | none => best
termination_by key.length
decreasing_by
  have hlen := congrArg List.length _hrem
  rw [List.length_drop, List.length_cons] at hlen
  omega

mutual

/-- A write through a node pointer: apply `f` to the node with identity `target`. -/
def writeAt (target : ℕ) (f : Node → Node) : Node → Node
  | ⟨type, id, pre, leafValue, origin, keyTokens, lastAccessed, index, kids⟩ =>
    let n := ⟨type, id, pre, leafValue, origin, keyTokens, lastAccessed, index,
      writeAtKids target f kids⟩
    if id = target then f n else n

/-- The same write below a node. -/
def writeAtKids (target : ℕ) (f : Node → Node) : List (UInt8 × Node) → List (UInt8 × Node)
  | [] => []
  | (k, c) :: kids => (k, writeAt target f c) :: writeAtKids target f kids

end

/-! ## Traversal -/

end Node

/-- `RouteEntry`. -/
structure RouteEntry : Type where
  /-- the key of the route -/
  tokens : List TokenId
  /-- the backend routed to -/
  backend : BackendId
  /-- where the route was learned -/
  origin : RouteOrigin
  /-- when the route was last used -/
  lastAccessed : ℕ
  deriving DecidableEq, Repr

namespace Node

mutual

/-- `for_each_leaf_recursive`: the entries handed to the callback, in order. -/
def forEachLeafRecursive : Node → List UInt8 → List RouteEntry
  | ⟨_, _, pre, leafValue, origin, _, lastAccessed, _, kids⟩, path =>
    let path := path ++ pre
    (match leafValue with
     | some backend => [⟨decodeTokensBe path, backend, origin, lastAccessed⟩]
     | none => []) ++ forEachLeafKids kids path

/-- The children of a node, in the order of `visit_children`. -/
def forEachLeafKids : List (UInt8 × Node) → List UInt8 → List RouteEntry
  | [], _ => []
  | (k, c) :: kids, path =>
    forEachLeafRecursive c (path ++ [k]) ++ forEachLeafKids kids path

end

/-! ## Removal -/

mutual

/-- `remove_expired_recursive`, `remove_expired_per_backend_recursive` and
`remove_by_backend_recursive`: drop every route that satisfies `p`, counting. -/
def removeIf (p : Leaf → Bool) : Node → TreeBook × ℕ → Node × (TreeBook × ℕ)
  | ⟨type, id, pre, leafValue, origin, keyTokens, lastAccessed, index, kids⟩, (book, removed) =>
    match leafValue with
    | some b =>
      if p ⟨b, origin, keyTokens, lastAccessed⟩ then
        let book := { book with lru := book.lru.remove origin id }
        let r := removeIfKids p kids (book.noteRouteRemoved (some b) keyTokens, removed + 1)
        (⟨type, id, pre, none, origin, keyTokens, lastAccessed, index, r.1⟩, r.2)
      else
        let r := removeIfKids p kids (book, removed)
        (⟨type, id, pre, some b, origin, keyTokens, lastAccessed, index, r.1⟩, r.2)
    | none =>
      let r := removeIfKids p kids (book, removed)
      (⟨type, id, pre, none, origin, keyTokens, lastAccessed, index, r.1⟩, r.2)

/-- The same over the children of a node. -/
def removeIfKids (p : Leaf → Bool) :
    List (UInt8 × Node) → TreeBook × ℕ → List (UInt8 × Node) × (TreeBook × ℕ)
  | [], st => ([], st)
  | (k, c) :: kids, st =>
    let r := removeIf p c st
    let rs := removeIfKids p kids r.2
    ((k, r.1) :: rs.1, rs.2)

end

/-! ## Compaction -/

/-- Drop the children whose keys were collected as empty, counting. -/
def removeKeys (n : Node) (stats : CompactionStats) : List UInt8 → Node × CompactionStats
  | [] => (n, stats)
  | key :: keys =>
    let r := n.removeChild key
    removeKeys r.1
      { stats with
        nodesRemoved := stats.nodesRemoved + 1
        bytesReclaimed := stats.bytesReclaimed + nodeByteSize r.2 } keys

/-- Replace a node by a smaller kind when `should_shrink` says so. -/
def shrinkIfNeeded (n : Node) (stats : CompactionStats) (book : TreeBook) :
    Node × CompactionStats × TreeBook :=
  if n.shouldShrink then n.shrinkNode stats book else (n, stats, book)

mutual

/-- `compact_children`. -/
def compactChildren : Node → CompactionStats → TreeBook → Node × CompactionStats × TreeBook
  | ⟨type, id, pre, leafValue, origin, keyTokens, lastAccessed, index, kids⟩, stats, book =>
    let r := compactKids kids stats book
    let s := removeKeys
      ⟨type, id, pre, leafValue, origin, keyTokens, lastAccessed, index, r.1⟩ r.2.2.1 r.2.1
    (s.1, s.2, r.2.2.2)

/-- The loop over the children: the compacted children, the keys to remove. -/
def compactKids : List (UInt8 × Node) → CompactionStats → TreeBook →
    List (UInt8 × Node) × List UInt8 × CompactionStats × TreeBook
  | [], stats, book => ([], [], stats, book)
  | (k, c) :: kids, stats, book =>
    let r := compactChildren c stats book
    let r := r.1.shrinkIfNeeded r.2.1 r.2.2
    let rs := compactKids kids r.2.1 r.2.2
    ((k, r.1) :: rs.1, (if r.1.isNodeEmpty then [k] else []) ++ rs.2.1, rs.2.2)

end

/-! ## What a lookup finds -/

/-- A stored prefix of `n.pre ++ rem` runs through the path of `n`. -/
theorem stored_prefix {n : Node} {rem q : List UInt8} (hq : q <+: n.pre ++ rem)
    (hs : (n.stored q).isSome) :
    ∃ r, r <+: rem ∧ q = n.pre ++ r ∧ n.storedBelow r = n.stored q := by
  rw [stored_eq] at hs
  rcases hr : strip n.pre q with _ | r
  · rw [hr] at hs
    cases hs
  · rw [strip_eq_some_iff] at hr
    subst hr
    exact ⟨r, (List.prefix_append_right_inj _).mp hq, rfl, (stored_append n r).symm⟩

/-- How a walk ends that started with the best match `best` so far: with `best`
when no prefix of the key is stored here, else at the node of the longest one. -/
def WalkEnds (n : Node) (key : List UInt8) (best result : Option Node) : Prop :=
  ((∀ p, p <+: key → n.stored p = none) ∧ result = best) ∨
    ∃ p m, p <+: key ∧ result = some m ∧ n.stored p = m.leaf ∧ m.leaf.isSome ∧
      ∀ q, q <+: key → (n.stored q).isSome → q.length ≤ p.length

/-- The walk stops at `n`: nothing longer is stored below its path. -/
theorem WalkEnds.stop {n : Node} {rem : List UInt8} {best : Option Node}
    (h : ∀ b r, b :: r <+: rem → n.storedBelow (b :: r) = none) :
    WalkEnds n (n.pre ++ rem) best (if n.leafValue.isSome then some n else best) := by
  have honly : ∀ q, q <+: n.pre ++ rem → (n.stored q).isSome → q = n.pre := by
    intro q hq hs
    obtain ⟨r, hr, rfl, hbelow⟩ := stored_prefix hq hs
    rcases r with _ | ⟨b, r⟩
    · exact List.append_nil _
    · rw [← hbelow, h b r hr] at hs
      cases hs
  by_cases hleaf : n.leafValue.isSome
  · rw [if_pos hleaf]
    have hself : n.stored n.pre = n.leaf := by
      rw [stored_of_leaf rfl rfl, if_pos rfl]
    refine Or.inr ⟨n.pre, n, List.prefix_append _ _, rfl, hself, ?_, fun q hq hs => ?_⟩
    · rw [leaf, Option.isSome_map]
      exact hleaf
    · rw [honly q hq hs]
  · rw [if_neg hleaf]
    refine Or.inl ⟨fun p hp => ?_, rfl⟩
    rcases hs : n.stored p with _ | l
    · rfl
    · have hpre := honly p hp (by rw [hs]; rfl)
      rw [hpre, stored_of_leaf rfl rfl, if_pos rfl, leaf] at hs
      rw [Option.not_isSome_iff_eq_none] at hleaf
      rw [hleaf] at hs
      cases hs

/-- **Lookup.** The walk ends at the longest stored prefix. -/
theorem lookupWalk_spec {n : Node} (hwf : n.WF) (key : List UInt8) (best : Option Node) :
    WalkEnds n key best (n.lookupWalk key best) := by
  fun_induction lookupWalk n key best with
  | case1 n key best len hlt =>
    -- the path at the node is not a prefix of the key: nothing below matches
    have hnone := strip_of_matchLen_lt hlt
    rw [strip_eq_none_iff] at hnone
    refine Or.inl ⟨fun p hp => ?_, rfl⟩
    have hp' : strip n.pre p = none :=
      strip_eq_none_iff.mpr fun h => hnone (h.trans hp)
    rw [stored_eq, hp']
    rfl
  | case2 n key best len hlt best' hrem =>
    have hkey := eq_append_of_matchLen hlt hrem
    rw [hkey]
    refine WalkEnds.stop fun b r hb => ?_
    have := hb.length_le
    simp at this
  | case3 n key best len hlt best' b rest hrem child hfind ih =>
    have hkey := eq_append_of_matchLen hlt hrem
    rw [findChild_eq_lookup hwf.shape] at hfind
    have hbelow : ∀ r, n.storedBelow (b :: r) = child.stored r := by
      intro r
      rw [storedBelow, hfind]
      rfl
    rw [hkey]
    -- the child either adds nothing or ends at a longer prefix
    rcases ih (hwf.kids b child hfind) with ⟨hno, hres⟩ | ⟨p, m, hp, hres, hpm, hm, hmax⟩
    · rw [hres]
      refine WalkEnds.stop fun b' r hb => ?_
      obtain ⟨rfl, hr⟩ := List.cons_prefix_cons.mp hb
      rw [hbelow, hno r hr]
    · refine Or.inr ⟨n.pre ++ b :: p, m, ?_, hres, ?_, hm, fun q hq hs => ?_⟩
      · exact (List.prefix_append_right_inj _).mpr (List.cons_prefix_cons.mpr ⟨rfl, hp⟩)
      · rw [stored_append, hbelow, hpm]
      · obtain ⟨r, hr, rfl, hrs⟩ := stored_prefix hq hs
        rcases r with _ | ⟨b', r⟩
        · simp
        · obtain ⟨rfl, hr'⟩ := List.cons_prefix_cons.mp hr
          rw [← hrs, hbelow] at hs
          have := hmax r hr' hs
          simp only [List.length_append, List.length_cons]
          omega
  | case4 n key best len hlt best' b rest hrem hfind =>
    have hkey := eq_append_of_matchLen hlt hrem
    rw [findChild_eq_lookup hwf.shape] at hfind
    rw [hkey]
    refine WalkEnds.stop fun b' r hb => ?_
    obtain ⟨rfl, -⟩ := List.cons_prefix_cons.mp hb
    rw [storedBelow, hfind]
    rfl

/-! ## Every stored key once -/

/-- Induction over the nodes of a tree. -/
theorem induct {P : Node → Prop} (h : ∀ n : Node, (∀ p, p ∈ n.kids → P p.2) → P n) (n : Node) :
    P n := by
  refine h n fun p hp => induct h p.2
termination_by sizeOf n
decreasing_by
  obtain ⟨_, _, _, _, _, _, _, _, kids⟩ := n
  obtain ⟨k, c⟩ := p
  have hmem := List.sizeOf_lt_of_mem hp
  simp only [Prod.mk.sizeOf_spec, Node.mk.sizeOf_spec] at hmem ⊢
  omega

mutual

/-- The stored keys of a subtree with their routes, in the order of traversal. -/
def leafPaths : Node → List (List UInt8 × Leaf)
  | ⟨_, _, pre, leafValue, origin, keyTokens, lastAccessed, _, kids⟩ =>
    (((leafValue.map fun b => (([] : List UInt8), (⟨b, origin, keyTokens, lastAccessed⟩ : Leaf))).toList ++
      leafPathsKids kids).map fun e => (pre ++ e.1, e.2))

/-- The stored keys below a node, edge byte first. -/
def leafPathsKids : List (UInt8 × Node) → List (List UInt8 × Leaf)
  | [] => []
  | (k, c) :: kids => c.leafPaths.map (fun e => (k :: e.1, e.2)) ++ leafPathsKids kids

end

theorem leafPaths_eq (n : Node) :
    n.leafPaths = ((n.leaf.map fun l => (([] : List UInt8), l)).toList ++
      leafPathsKids n.kids).map fun e => (n.pre ++ e.1, e.2) := by
  obtain ⟨_, _, _, leafValue, _, _, _, _, _⟩ := n
  rw [leafPaths]
  cases leafValue <;> rfl

theorem mem_leafPathsKids {kids : List (UInt8 × Node)} {key : List UInt8} {l : Leaf} :
    (key, l) ∈ leafPathsKids kids ↔
      ∃ k c r, (k, c) ∈ kids ∧ key = k :: r ∧ (r, l) ∈ c.leafPaths := by
  induction kids with
  | nil => simp [leafPathsKids]
  | cons p kids ih =>
    obtain ⟨k, c⟩ := p
    rw [leafPathsKids, List.mem_append, ih]
    constructor
    · rintro (h | ⟨k', c', r, hmem, hkey, hr⟩)
      · obtain ⟨⟨r, l'⟩, hr, he⟩ := List.mem_map.mp h
        obtain ⟨rfl, rfl⟩ := Prod.mk.inj he
        exact ⟨k, c, r, List.mem_cons_self, rfl, hr⟩
      · exact ⟨k', c', r, List.mem_cons_of_mem _ hmem, hkey, hr⟩
    · rintro ⟨k', c', r, hmem, rfl, hr⟩
      rcases List.mem_cons.mp hmem with he | hmem
      · obtain ⟨rfl, rfl⟩ := Prod.mk.inj he
        exact Or.inl (List.mem_map.mpr ⟨(r, l), hr, rfl⟩)
      · exact Or.inr ⟨k', c', r, hmem, rfl, hr⟩

/-- The listed keys are the stored ones. -/
theorem mem_leafPaths {n : Node} (hwf : n.WF) {key : List UInt8} {l : Leaf} :
    (key, l) ∈ n.leafPaths ↔ n.stored key = some l := by
  induction hwf generalizing key l with
  | mk n shape kids ih =>
    rw [leafPaths_eq, stored_eq, List.mem_map]
    constructor
    · -- a listed entry is the node's own or one of a child's
      rintro ⟨⟨r, l'⟩, hr, he⟩
      obtain ⟨rfl, rfl⟩ := Prod.mk.inj he
      rw [strip_append, Option.bind_some]
      rcases List.mem_append.mp hr with hself | hkids
      · rw [Option.mem_toList, Option.map_eq_some_iff] at hself
        obtain ⟨l, hl, he⟩ := hself
        obtain ⟨rfl, rfl⟩ := Prod.mk.inj he
        exact hl
      · obtain ⟨k, c, r', hmem, rfl, hr'⟩ := mem_leafPathsKids.mp hkids
        have hc := lookup_of_mem shape.nodup hmem
        rw [storedBelow, hc]
        exact (ih k c hc).mp hr'
    · intro h
      rcases hs : strip n.pre key with _ | r
      · rw [hs] at h
        cases h
      · rw [hs, Option.bind_some] at h
        refine ⟨(r, l), List.mem_append.mpr ?_, by rw [strip_eq_some_iff.mp hs]⟩
        rcases r with _ | ⟨b, r⟩
        · left
          rw [storedBelow] at h
          rw [h]
          exact List.mem_singleton_self _
        · right
          rw [storedBelow] at h
          rcases hc : n.kids.lookup b with _ | c
          · rw [hc] at h
            cases h
          · rw [hc] at h
            exact mem_leafPathsKids.mpr ⟨b, c, r, mem_of_lookup hc, rfl, (ih b c hc).mpr h⟩

theorem leafPathsKids_nodup {kids : List (UInt8 × Node)} (hkeys : (keysOf kids).Nodup)
    (hc : ∀ k c, (k, c) ∈ kids → (c.leafPaths.map Prod.fst).Nodup) :
    ((leafPathsKids kids).map Prod.fst).Nodup := by
  induction kids with
  | nil => exact List.nodup_nil
  | cons p kids ih =>
    obtain ⟨k, c⟩ := p
    rw [keysOf_cons, List.nodup_cons] at hkeys
    rw [leafPathsKids, List.map_append, List.map_map]
    refine List.nodup_append.mpr ⟨?_, ?_, ?_⟩
    · have hhead := hc k c List.mem_cons_self
      have hmap : c.leafPaths.map (Prod.fst ∘ fun e => (k :: e.1, e.2)) =
          (c.leafPaths.map Prod.fst).map (List.cons k) := by
        rw [List.map_map]
        rfl
      rw [hmap]
      exact hhead.map List.cons_injective
    · exact ih hkeys.2 fun k' c' h => hc k' c' (List.mem_cons_of_mem _ h)
    · rintro a ha b hb rfl
      obtain ⟨e, -, rfl⟩ := List.mem_map.mp ha
      obtain ⟨⟨key, l⟩, hmem, hkey⟩ := List.mem_map.mp hb
      obtain ⟨k', c', r, hk', rfl, -⟩ := mem_leafPathsKids.mp hmem
      obtain ⟨rfl, -⟩ := List.cons.inj hkey
      exact hkeys.1 (mem_keysOf_of_mem hk')

/-- No key is listed twice. -/
theorem leafPaths_nodup {n : Node} (hwf : n.WF) : (n.leafPaths.map Prod.fst).Nodup := by
  induction hwf with
  | mk n shape kids ih =>
    have hkids := leafPathsKids_nodup shape.nodup
      fun k c h => ih k c (lookup_of_mem shape.nodup h)
    have hmap : n.leafPaths.map Prod.fst =
        (((n.leaf.map fun l => (([] : List UInt8), l)).toList ++
          leafPathsKids n.kids).map Prod.fst).map (n.pre ++ ·) := by
      rw [leafPaths_eq, List.map_map, List.map_map]
      rfl
    rw [hmap]
    refine List.Nodup.map (List.append_right_injective n.pre) ?_
    rw [List.map_append]
    refine List.nodup_append.mpr ⟨?_, hkids, ?_⟩
    · cases n.leaf with
      | none => exact List.nodup_nil
      | some l => exact List.nodup_singleton _
    · rintro a ha b hb rfl
      obtain ⟨⟨key, l⟩, hmem, rfl⟩ := List.mem_map.mp hb
      obtain ⟨k, c, r, -, rfl, -⟩ := mem_leafPathsKids.mp hmem
      obtain ⟨e, he, hkey⟩ := List.mem_map.mp ha
      rw [Option.mem_toList, Option.map_eq_some_iff] at he
      obtain ⟨l', -, rfl⟩ := he
      cases hkey

/-- The entry `for_each_leaf` emits for a stored key. -/
def entryAt (path : List UInt8) (e : List UInt8 × Leaf) : RouteEntry :=
  ⟨decodeTokensBe (path ++ e.1), e.2.backend, e.2.origin, e.2.lastAccessed⟩

theorem forEachLeafRecursive_def (n : Node) (path : List UInt8) :
    n.forEachLeafRecursive path =
      (match n.leafValue with
       | some backend =>
         [⟨decodeTokensBe (path ++ n.pre), backend, n.origin, n.lastAccessed⟩]
       | none => []) ++ forEachLeafKids n.kids (path ++ n.pre) := by
  cases n
  rfl

/-- **Traversal** emits one entry per listed key. -/
theorem forEachLeafRecursive_eq (n : Node) (path : List UInt8) :
    n.forEachLeafRecursive path = n.leafPaths.map (entryAt path) := by
  induction n using induct generalizing path with
  | h n ih =>
    have hkids : ∀ kids : List (UInt8 × Node), (∀ p, p ∈ kids → p ∈ n.kids) →
        forEachLeafKids kids (path ++ n.pre) =
          ((leafPathsKids kids).map fun e => (n.pre ++ e.1, e.2)).map (entryAt path) := by
      intro kids hsub
      induction kids with
      | nil => rfl
      | cons p kids ihk =>
        obtain ⟨k, c⟩ := p
        rw [forEachLeafKids, leafPathsKids, List.map_append, List.map_append,
          ihk fun p hp => hsub p (List.mem_cons_of_mem _ hp),
          ih (k, c) (hsub _ List.mem_cons_self), List.map_map, List.map_map, List.map_map]
        congr 1
        refine List.map_congr_left fun e _ => ?_
        simp [entryAt]
    rw [leafPaths_eq, List.map_append, List.map_append, ← hkids n.kids fun _ h => h]
    rw [forEachLeafRecursive_def]
    congr 1
    rw [leaf]
    cases n.leafValue with
    | none => rfl
    | some b => simp [entryAt]

/-! ## Edits that keep the skeleton -/

/-- `n'` has the nodes of `n`, and the routes held at corresponding nodes are
related by `R`. -/
inductive Edited (R : Option Leaf → Option Leaf → Prop) : Node → Node → Prop where
  | mk (n n' : Node) (type : n'.type = n.type) (pre : n'.pre = n.pre)
      (index : n'.index = n.index) (keys : keysOf n'.kids = keysOf n.kids)
      (leaf : R n.leaf n'.leaf)
      (kids : ∀ b c c', n.kids.lookup b = some c → n'.kids.lookup b = some c' → Edited R c c') :
      Edited R n n'

section Edits

variable {R : Option Leaf → Option Leaf → Prop} {n n' : Node}

theorem Edited.wf (h : Edited R n n') (hwf : n.WF) : n'.WF := by
  induction h with
  | mk n n' type pre index keys leaf kids ih =>
    have hs := hwf.shape
    have hlen : n'.kids.length = n.kids.length := by
      rw [← length_keysOf, keys, length_keysOf]
    refine WF.mk n' ⟨?_, ?_, ?_, ?_⟩ fun b c' hc' => ?_
    · rw [keys]
      exact hs.nodup
    · rw [type, hlen]
      exact hs.fits
    · rw [type, keys, index]
      exact hs.indexed
    · rw [type, keys]
      exact hs.ordered
    · have hmem : b ∈ keysOf n.kids := by
        rw [← keys, ← lookup_isSome_iff, hc']
        rfl
      obtain ⟨c, hc⟩ := Option.isSome_iff_exists.mp (lookup_isSome_iff.mpr hmem)
      exact ih b c c' hc hc' (hwf.kids b c hc)

/-- The routes of corresponding keys are related. -/
theorem Edited.stored (h : Edited R n n') (h₀ : R none none) (key : List UInt8) :
    R (n.stored key) (n'.stored key) := by
  induction h generalizing key with
  | mk n n' type pre index keys leaf kids ih =>
    rw [stored_eq, stored_eq, pre]
    rcases strip n.pre key with _ | _ | ⟨b, r⟩
    · exact h₀
    · exact leaf
    · rw [Option.bind_some, Option.bind_some, storedBelow, storedBelow]
      rcases hc : n.kids.lookup b with _ | c
      · have hc' : n'.kids.lookup b = none := by
          rw [lookup_eq_none_iff_keys, keys, ← lookup_eq_none_iff_keys]
          exact hc
        rw [hc']
        exact h₀
      · have hmem : b ∈ keysOf n'.kids := by
          rw [keys, ← lookup_isSome_iff, hc]
          rfl
        obtain ⟨c', hc'⟩ := Option.isSome_iff_exists.mp (lookup_isSome_iff.mpr hmem)
        rw [hc']
        exact ih b c c' hc hc' r

theorem writeAt_eq (target : ℕ) (f : Node → Node) (n : Node) :
    writeAt target f n =
      if n.id = target then f { n with kids := writeAtKids target f n.kids }
      else { n with kids := writeAtKids target f n.kids } := by
  cases n
  rfl

theorem lookup_writeAtKids (target : ℕ) (f : Node → Node) (kids : List (UInt8 × Node))
    (b : UInt8) :
    (writeAtKids target f kids).lookup b = (kids.lookup b).map (writeAt target f) := by
  induction kids with
  | nil => rfl
  | cons p kids ih =>
    obtain ⟨k, c⟩ := p
    rw [writeAtKids, lookup_cons_eq, lookup_cons_eq, ih]
    split <;> rfl

theorem keysOf_writeAtKids (target : ℕ) (f : Node → Node) (kids : List (UInt8 × Node)) :
    keysOf (writeAtKids target f kids) = keysOf kids := by
  induction kids with
  | nil => rfl
  | cons p kids ih =>
    obtain ⟨k, c⟩ := p
    rw [writeAtKids, keysOf_cons, keysOf_cons, ih]

/-- A write through a pointer edits at most the route of the node it hits. -/
theorem writeAt_edited (target : ℕ) (f : Node → Node)
    (hf : ∀ m, (f m).type = m.type ∧ (f m).pre = m.pre ∧ (f m).index = m.index ∧
      (f m).kids = m.kids ∧ R m.leaf (f m).leaf)
    (hrefl : ∀ l, R l l) (n : Node) : Edited R n (writeAt target f n) := by
  induction n using induct with
  | h n ih =>
    have hkids : ∀ m : Node, m.kids = writeAtKids target f n.kids →
        ∀ b c c', n.kids.lookup b = some c → m.kids.lookup b = some c' → Edited R c c' := by
      intro m hm b c c' hc hc'
      rw [hm, lookup_writeAtKids, hc, Option.map_some] at hc'
      rw [← Option.some.inj hc']
      exact ih (b, c) (mem_of_lookup hc)
    have hkeys := keysOf_writeAtKids target f n.kids
    rw [writeAt_eq]
    by_cases hid : n.id = target
    · rw [if_pos hid]
      obtain ⟨htype, hpre, hidx, hk, hleaf⟩ := hf { n with kids := writeAtKids target f n.kids }
      refine Edited.mk _ _ htype hpre hidx ?_ hleaf (hkids _ hk)
      rw [hk]
      exact hkeys
    · rw [if_neg hid]
      exact Edited.mk _ _ rfl rfl rfl hkeys (hrefl _) (hkids _ rfl)

/-- What `remove_…_recursive` leaves at a node. -/
theorem removeIf_eq (p : Leaf → Bool) (n : Node) (st : TreeBook × ℕ) :
    ∃ st', (removeIf p n st).1.type = n.type ∧ (removeIf p n st).1.pre = n.pre ∧
      (removeIf p n st).1.index = n.index ∧
      (removeIf p n st).1.leaf = n.leaf.filter (fun l => !p l) ∧
      (removeIf p n st).1.kids = (removeIfKids p n.kids st').1 := by
  obtain ⟨type, id, pre, leafValue, origin, keyTokens, lastAccessed, index, kids⟩ := n
  obtain ⟨book, removed⟩ := st
  rcases leafValue with _ | b
  · exact ⟨_, rfl, rfl, rfl, rfl, rfl⟩
  · by_cases hp : p ⟨b, origin, keyTokens, lastAccessed⟩ = true
    · rw [removeIf, if_pos hp]
      refine ⟨_, rfl, rfl, rfl, ?_, rfl⟩
      simp [leaf, Option.filter, hp]
    · rw [removeIf, if_neg hp]
      refine ⟨_, rfl, rfl, rfl, ?_, rfl⟩
      simp [leaf, Option.filter, hp]

theorem keysOf_removeIfKids (p : Leaf → Bool) (kids : List (UInt8 × Node)) (st : TreeBook × ℕ) :
    keysOf (removeIfKids p kids st).1 = keysOf kids := by
  induction kids generalizing st with
  | nil => rfl
  | cons q kids ih =>
    obtain ⟨k, c⟩ := q
    rw [removeIfKids, keysOf_cons, keysOf_cons, ih]

theorem lookup_removeIfKids (p : Leaf → Bool) {kids : List (UInt8 × Node)} (st : TreeBook × ℕ)
    {b : UInt8} {c c' : Node} (hc : kids.lookup b = some c)
    (hc' : (removeIfKids p kids st).1.lookup b = some c') : ∃ st', c' = (removeIf p c st').1 := by
  induction kids generalizing st with
  | nil => cases hc
  | cons q kids ih =>
    obtain ⟨k, d⟩ := q
    rw [removeIfKids, lookup_cons_eq] at hc'
    rw [lookup_cons_eq] at hc
    by_cases hb : b = k
    · rw [if_pos hb] at hc hc'
      rw [← Option.some.inj hc, ← Option.some.inj hc']
      exact ⟨st, rfl⟩
    · rw [if_neg hb] at hc hc'
      exact ih _ hc hc'

/-- **Removal** drops exactly the routes that satisfy the predicate. -/
theorem removeIf_edited (p : Leaf → Bool) (n : Node) (st : TreeBook × ℕ) :
    Edited (fun l l' => l' = l.filter (fun l => !p l)) n (removeIf p n st).1 := by
  induction n using induct generalizing st with
  | h n ih =>
    obtain ⟨st', htype, hpre, hidx, hleaf, hkids⟩ := removeIf_eq p n st
    refine Edited.mk _ _ htype hpre hidx ?_ hleaf fun b c c' hc hc' => ?_
    · rw [hkids, keysOf_removeIfKids]
    · rw [hkids] at hc'
      obtain ⟨st'', rfl⟩ := lookup_removeIfKids p st' hc hc'
      exact ih (b, c) (mem_of_lookup hc) st''

end Edits

/-! ## Compaction keeps the map -/

section Compaction

variable {n : Node}

/-- The reindexing loop of `remove_child` restores the exact index table. -/
theorem slotTable_erase {keys : List UInt8} (hnodup : keys.Nodup) (hlen : keys.length ≤ 48)
    {key : UInt8} (hk : key ∈ keys) (b : UInt8) :
    (if Function.update (slotTable keys) key emptyMarker b ≠ emptyMarker ∧
        slotTable keys key < Function.update (slotTable keys) key emptyMarker b then
      Function.update (slotTable keys) key emptyMarker b - 1
    else Function.update (slotTable keys) key emptyMarker b) = slotTable (keys.erase key) b := by
  by_cases hb : b = key
  · subst hb
    have hnot : b ∉ keys.erase b := hnodup.not_mem_erase
    rw [Function.update_self, if_neg (fun h => h.1 rfl), slotTable, if_neg hnot]
  rw [Function.update_of_ne hb]
  by_cases hmem : b ∈ keys
  · have hmem' : b ∈ keys.erase key := (List.mem_erase_of_ne hb).mpr hmem
    have hlen' : (keys.erase key).length ≤ 48 := List.length_erase_le.trans hlen
    have hsome : slotTable keys b ≠ emptyMarker := by
      rw [ne_eq, slotTable_eq_emptyMarker hlen]
      exact not_not.mpr hmem
    have hbnat := toNat_slotTable hlen hmem
    have hknat := toNat_slotTable hlen hk
    have hidx := idxOf_erase hk hmem hb
    refine UInt8.toNat_inj.mp ?_
    rw [toNat_slotTable hlen' hmem', hidx]
    -- slots behind the removed one move down by one
    by_cases hlt : slotTable keys key < slotTable keys b
    · have hlt' := UInt8.lt_iff_toNat_lt.mp hlt
      rw [hbnat, hknat] at hlt'
      have hone : (1 : UInt8) ≤ slotTable keys b := by
        rw [UInt8.le_iff_toNat_le, hbnat, show (1 : UInt8).toNat = 1 from rfl]
        omega
      rw [if_pos ⟨hsome, hlt⟩, if_pos hlt', UInt8.toNat_sub_of_le _ _ hone, hbnat]
      rfl
    · have hlt' : ¬ keys.idxOf key < keys.idxOf b := by
        rw [← hbnat, ← hknat]
        exact fun h => hlt (UInt8.lt_iff_toNat_lt.mpr h)
      rw [if_neg (fun h => hlt h.2), if_neg hlt', hbnat]
  · have hnone : slotTable keys b = emptyMarker := (slotTable_eq_emptyMarker hlen).mpr hmem
    have hmem' : b ∉ keys.erase key := fun h => hmem (List.mem_of_mem_erase h)
    rw [hnone, if_neg (fun h => h.1 rfl), slotTable, if_neg hmem']

/-- Removing a child, in any kind. -/
theorem removeChild_spec (h : n.Shape) {key : UInt8} (hk : key ∈ keysOf n.kids) :
    (n.removeChild key).1.Shape ∧ (n.removeChild key).1.pre = n.pre ∧
      (n.removeChild key).1.leaf = n.leaf ∧
      (n.removeChild key).1.kids = eraseKey key n.kids := by
  obtain ⟨child, hc⟩ := Option.isSome_iff_exists.mp (lookup_isSome_iff.mpr hk)
  have hnodup : (keysOf (eraseKey key n.kids)).Nodup := by
    rw [keysOf_eraseKey]
    exact h.nodup.erase key
  have hlen : (eraseKey key n.kids).length ≤ n.kids.length := by
    rw [← length_keysOf, ← length_keysOf, keysOf_eraseKey]
    exact List.length_erase_le
  rcases ht : n.type with _ | _ | _ | _
  · have hfit := h.fits (by rw [ht]; decide)
    rw [ht] at hfit
    simp only [removeChild, ht, hc]
    exact ⟨Shape.keyed rfl hnodup (hlen.trans hfit)
      (by decide : NodeType.Node4 ≠ NodeType.Node48)
      (by decide : NodeType.Node4 ≠ NodeType.Node256), trivial, rfl, trivial⟩
  · have hfit := h.fits (by rw [ht]; decide)
    rw [ht] at hfit
    simp only [removeChild, ht, hc]
    exact ⟨Shape.keyed rfl hnodup (hlen.trans hfit)
      (by decide : NodeType.Node16 ≠ NodeType.Node48)
      (by decide : NodeType.Node16 ≠ NodeType.Node256), trivial, rfl, trivial⟩
  · -- the indexed kind: the table is renumbered behind the removed slot
    have hfit := h.length_le_48 ht
    have hne : slotTable (keysOf n.kids) key ≠ emptyMarker := by
      rw [ne_eq, slotTable_eq_emptyMarker hfit]
      exact not_not.mpr hk
    have htable := funext fun b => slotTable_erase h.nodup hfit hk b
    rw [← keysOf_eraseKey] at htable
    rw [length_keysOf] at hfit
    simp only [removeChild, ht, h.indexed ht, if_pos hne, toNat_slotTable (h.length_le_48 ht) hk,
      eraseIdx_idxOf hk]
    exact ⟨Shape.node48 hnodup rfl (hlen.trans hfit) htable, trivial, rfl, trivial⟩
  · simp only [removeChild, ht, hc]
    have hord : (keysOf (eraseKey key n.kids)).Pairwise (· < ·) := by
      rw [keysOf_eraseKey]
      exact (h.ordered ht).sublist List.erase_sublist
    exact ⟨Shape.node256 rfl hord, trivial, rfl, trivial⟩

/-- `n'` holds what `n` holds, whatever its kind. -/
structure Rehoused (n n' : Node) : Prop where
  /-- the result is well shaped -/
  shape : n'.Shape
  /-- the path is kept -/
  pre : n'.pre = n.pre
  /-- the route is kept -/
  leaf : n'.leaf = n.leaf
  /-- the children are kept -/
  kids : n'.kids = n.kids

theorem shrinkToNode4_spec (h : n.Shape) (hlen : n.kids.length ≤ 4) (ht : n.type ≠ .Node4)
    (book : TreeBook) : Rehoused n (n.shrinkToNode4 book).1 := by
  have hkids : (n.shrinkToNode4 book).1.kids = n.kids := by
    have htake := List.take_of_length_le hlen
    rcases htype : n.type with _ | _ | _ | _
    · exact absurd htype ht
    · simp only [shrinkToNode4, htype]
      exact htake
    · simp only [shrinkToNode4, htype]
      exact htake
    · simp only [shrinkToNode4, htype]
      exact htake
  have hhead : (n.shrinkToNode4 book).1.type = .Node4 ∧ (n.shrinkToNode4 book).1.pre = n.pre ∧
      (n.shrinkToNode4 book).1.leaf = n.leaf := by
    cases htype : n.type <;> simp only [shrinkToNode4, htype] <;> exact ⟨rfl, rfl, rfl⟩
  refine ⟨Shape.keyed hkids h.nodup ?_ ?_ ?_, hhead.2.1, hhead.2.2, hkids⟩
  · rw [hhead.1]
    exact hlen
  · rw [hhead.1]; decide
  · rw [hhead.1]; decide

theorem shrinkToNode16_spec (h : n.Shape) (hlen : n.kids.length ≤ 16)
    (ht : n.type = .Node48 ∨ n.type = .Node256) (book : TreeBook) :
    Rehoused n (n.shrinkToNode16 book).1 := by
  have hkids : (n.shrinkToNode16 book).1.kids = n.kids := by
    have htake := List.take_of_length_le hlen
    rcases ht with htype | htype
    · simp only [shrinkToNode16, htype]
      exact htake
    · simp only [shrinkToNode16, htype]
      exact htake
  have hhead : (n.shrinkToNode16 book).1.type = .Node16 ∧
      (n.shrinkToNode16 book).1.pre = n.pre ∧ (n.shrinkToNode16 book).1.leaf = n.leaf := by
    cases htype : n.type <;> simp only [shrinkToNode16, htype] <;> exact ⟨rfl, rfl, rfl⟩
  refine ⟨Shape.keyed hkids h.nodup ?_ ?_ ?_, hhead.2.1, hhead.2.2, hkids⟩
  · rw [hhead.1]
    exact hlen
  · rw [hhead.1]; decide
  · rw [hhead.1]; decide

theorem shrinkToNode48_spec (h : n.Shape) (hlen : n.kids.length ≤ 48) (ht : n.type = .Node256)
    (book : TreeBook) : Rehoused n (n.shrinkToNode48 book).1 := by
  have htake := List.take_of_length_le hlen
  simp only [shrinkToNode48, ht, htake]
  exact ⟨Shape.node48 h.nodup rfl hlen (indexFrom_emptyIndex h.nodup), rfl, rfl, rfl⟩

/-- Shrinking replaces the node and keeps all it holds. -/
theorem shrinkIfNeeded_spec (h : n.Shape) (stats : CompactionStats) (book : TreeBook) :
    Rehoused n (n.shrinkIfNeeded stats book).1 := by
  unfold shrinkIfNeeded
  split
  · rcases ht : n.type with _ | _ | _ | _
    · simp only [shrinkNode, ht]
      exact ⟨h, rfl, rfl, rfl⟩
    · simp only [shrinkNode, ht, childCount]
      split_ifs with h4
      · exact shrinkToNode4_spec h h4 (by rw [ht]; decide) book
      · exact ⟨h, rfl, rfl, rfl⟩
    · simp only [shrinkNode, ht, childCount]
      split_ifs with h4 h16
      · exact shrinkToNode4_spec h h4 (by rw [ht]; decide) book
      · exact shrinkToNode16_spec h h16 (Or.inl ht) book
      · exact ⟨h, rfl, rfl, rfl⟩
    · simp only [shrinkNode, ht, childCount]
      split_ifs with h4 h16 h48
      · exact shrinkToNode4_spec h h4 (by rw [ht]; decide) book
      · exact shrinkToNode16_spec h h16 (Or.inr ht) book
      · exact shrinkToNode48_spec h h48 ht book
      · exact ⟨h, rfl, rfl, rfl⟩
  · exact ⟨h, rfl, rfl, rfl⟩

theorem Rehoused.wf {n n' : Node} (h : Rehoused n n') (hwf : n.WF) : n'.WF := by
  refine WF.mk n' h.shape fun b c hb => hwf.kids b c ?_
  rw [← h.kids]
  exact hb

theorem Rehoused.stored {n n' : Node} (h : Rehoused n n') (key : List UInt8) :
    n'.stored key = n.stored key := by
  rw [stored_of_leaf h.pre h.kids, h.leaf]
  by_cases hkey : key = n.pre
  · rw [if_pos hkey, hkey, stored_of_leaf rfl rfl, if_pos rfl]
  · rw [if_neg hkey]

/-- Nothing is stored under an empty node. -/
theorem stored_of_isNodeEmpty (h : n.isNodeEmpty = true) (key : List UInt8) :
    n.stored key = none := by
  rw [isNodeEmpty, Bool.and_eq_true, Option.isNone_iff_eq_none, beq_iff_eq, childCount,
    List.length_eq_zero_iff] at h
  rw [stored_eq]
  rcases strip n.pre key with _ | _ | ⟨b, r⟩
  · rfl
  · rw [Option.bind_some, storedBelow, leaf, h.1]
    rfl
  · rw [Option.bind_some, storedBelow, h.2]
    rfl

/-- `n'` is `n` without some children under which nothing was stored. -/
structure Pruned (n n' : Node) : Prop where
  /-- the result is well shaped -/
  shape : n'.Shape
  /-- the path is kept -/
  pre : n'.pre = n.pre
  /-- the route is kept -/
  leaf : n'.leaf = n.leaf
  /-- a child is kept, or it is gone and was empty -/
  lookup : ∀ b, n'.kids.lookup b = n.kids.lookup b ∨
    n'.kids.lookup b = none ∧ ∃ c, n.kids.lookup b = some c ∧ c.isNodeEmpty = true

theorem Pruned.wf {n n' : Node} (h : Pruned n n') (hwf : n.WF) : n'.WF := by
  refine WF.mk n' h.shape fun b c hb => ?_
  rcases h.lookup b with hsame | ⟨hnone, -⟩
  · rw [hsame] at hb
    exact hwf.kids b c hb
  · rw [hnone] at hb
    cases hb

theorem Pruned.stored {n n' : Node} (h : Pruned n n') (key : List UInt8) :
    n'.stored key = n.stored key := by
  rw [stored_eq, stored_eq, h.pre]
  rcases strip n.pre key with _ | _ | ⟨b, r⟩
  · rfl
  · exact h.leaf
  · rw [Option.bind_some, Option.bind_some, storedBelow, storedBelow]
    rcases h.lookup b with hsame | ⟨hnone, c, hc, hempty⟩
    · rw [hsame]
    · rw [hnone, hc, Option.bind_some, stored_of_isNodeEmpty hempty]
      rfl

theorem removeKeys_spec (h : n.Shape) (stats : CompactionStats) {keys : List UInt8}
    (hnodup : keys.Nodup)
    (hempty : ∀ b, b ∈ keys → ∃ c, n.kids.lookup b = some c ∧ c.isNodeEmpty = true) :
    Pruned n (removeKeys n stats keys).1 := by
  induction keys generalizing n stats with
  | nil => exact ⟨h, rfl, rfl, fun b => Or.inl rfl⟩
  | cons key keys ih =>
    -- induction on the keys; a removed key is not asked for again
    rw [List.nodup_cons] at hnodup
    obtain ⟨c, hc, hcempty⟩ := hempty key List.mem_cons_self
    obtain ⟨hshape, hpre, hleaf, hkids⟩ := removeChild_spec h
      (lookup_isSome_iff.mp (by rw [hc]; rfl) : key ∈ keysOf n.kids)
    have hlook : ∀ b, (n.removeChild key).1.kids.lookup b =
        if b = key then none else n.kids.lookup b := by
      intro b
      rw [hkids, lookup_eraseKey h.nodup]
    have hrest : ∀ b, b ∈ keys →
        ∃ c, (n.removeChild key).1.kids.lookup b = some c ∧ c.isNodeEmpty = true := by
      intro b hb
      have hne : b ≠ key := by
        rintro rfl
        exact hnodup.1 hb
      rw [hlook b, if_neg hne]
      exact hempty b (List.mem_cons_of_mem _ hb)
    rw [removeKeys]
    have hprune := fun stats' => ih hshape stats' hnodup.2 hrest
    refine ⟨(hprune _).shape, (hprune _).pre.trans hpre, (hprune _).leaf.trans hleaf,
      fun b => ?_⟩
    by_cases hb : b = key
    · subst hb
      right
      refine ⟨?_, c, hc, hcempty⟩
      rcases (hprune _).lookup b with hsame | ⟨hnone, -⟩
      · rw [hsame, hlook, if_pos rfl]
      · exact hnone
    · have hsame : (n.removeChild key).1.kids.lookup b = n.kids.lookup b := by
        rw [hlook, if_neg hb]
      rw [← hsame]
      exact (hprune _).lookup b

theorem keysOf_compactKids (kids : List (UInt8 × Node)) (stats : CompactionStats)
    (book : TreeBook) : keysOf (compactKids kids stats book).1 = keysOf kids := by
  induction kids generalizing stats book with
  | nil => rfl
  | cons p kids ih =>
    obtain ⟨k, c⟩ := p
    rw [compactKids, keysOf_cons, keysOf_cons, ih]

theorem lookup_compactKids {kids : List (UInt8 × Node)} (stats : CompactionStats)
    (book : TreeBook) {b : UInt8} {c' : Node}
    (hc' : (compactKids kids stats book).1.lookup b = some c') :
    ∃ c st bk st' bk', kids.lookup b = some c ∧
      c' = ((compactChildren c st bk).1.shrinkIfNeeded st' bk').1 := by
  induction kids generalizing stats book with
  | nil => cases hc'
  | cons p kids ih =>
    obtain ⟨k, d⟩ := p
    rw [compactKids, lookup_cons_eq] at hc'
    rw [lookup_cons_eq]
    by_cases hb : b = k
    · rw [if_pos hb] at hc' ⊢
      exact ⟨d, _, _, _, _, rfl, (Option.some.inj hc').symm⟩
    · rw [if_neg hb] at hc' ⊢
      exact ih _ _ hc'

/-- The keys collected for removal are keys of empty children, each once. -/
theorem compactKids_removed (kids : List (UInt8 × Node)) (hkeys : (keysOf kids).Nodup)
    (stats : CompactionStats) (book : TreeBook) :
    ((compactKids kids stats book).2.1).Sublist (keysOf kids) ∧
      ∀ b, b ∈ (compactKids kids stats book).2.1 →
        ∃ c, (compactKids kids stats book).1.lookup b = some c ∧ c.isNodeEmpty = true := by
  induction kids generalizing stats book with
  | nil => exact ⟨List.Sublist.refl _, fun b hb => absurd hb List.not_mem_nil⟩
  | cons p kids ih =>
    obtain ⟨k, d⟩ := p
    rw [keysOf_cons, List.nodup_cons] at hkeys
    have ih' := fun st bk => ih hkeys.2 st bk
    rw [compactKids, keysOf_cons]
    refine ⟨?_, fun b hb => ?_⟩
    · split
      · exact ((ih' _ _).1).cons_cons k
      · exact ((ih' _ _).1).cons k
    · rw [lookup_cons_eq]
      rcases List.mem_append.mp hb with hself | hrest
      · split at hself
        · rename_i hempty
          rw [List.mem_singleton.mp hself, if_pos rfl]
          exact ⟨_, rfl, hempty⟩
        · cases hself
      · have hne : b ≠ k := by
          rintro rfl
          exact hkeys.1 ((ih' _ _).1.subset hrest)
        rw [if_neg hne]
        exact (ih' _ _).2 b hrest

theorem compactChildren_eq (n : Node) (stats : CompactionStats) (book : TreeBook) :
    (compactChildren n stats book).1 =
      (removeKeys { n with kids := (compactKids n.kids stats book).1 }
        (compactKids n.kids stats book).2.2.1 (compactKids n.kids stats book).2.1).1 := by
  cases n
  rfl

/-- **Compaction** keeps every route where it is. -/
theorem compactChildren_spec (n : Node) (hwf : n.WF) (stats : CompactionStats)
    (book : TreeBook) :
    (compactChildren n stats book).1.WF ∧
      ∀ key, (compactChildren n stats book).1.stored key = n.stored key := by
  induction n using induct generalizing stats book with
  | h n ih =>
    have hkeys := keysOf_compactKids n.kids stats book
    have hchild : ∀ b c', (compactKids n.kids stats book).1.lookup b = some c' →
        c'.WF ∧ ∃ c, n.kids.lookup b = some c ∧ ∀ r, c'.stored r = c.stored r := by
      intro b c' hc'
      obtain ⟨c, st, bk, st', bk', hc, rfl⟩ := lookup_compactKids stats book hc'
      obtain ⟨hcwf, hcstored⟩ := ih (b, c) (mem_of_lookup hc) (hwf.kids b c hc) st bk
      have hre := shrinkIfNeeded_spec hcwf.shape st' bk'
      exact ⟨hre.wf hcwf, c, hc, fun r => (hre.stored r).trans (hcstored r)⟩
    have hwf' : WF { n with kids := (compactKids n.kids stats book).1 } :=
      WF.mk _ (hwf.shape.of_keysOf_eq hkeys) fun b c' hc' => (hchild b c' hc').1
    have hstored : ∀ key, Node.stored { n with kids := (compactKids n.kids stats book).1 } key =
        n.stored key := by
      intro key
      rw [stored_eq, stored_eq]
      rcases strip n.pre key with _ | _ | ⟨b, r⟩
      · rfl
      · rfl
      · rw [Option.bind_some, Option.bind_some, storedBelow, storedBelow]
        rcases hc' : (compactKids n.kids stats book).1.lookup b with _ | c'
        · have hnone : n.kids.lookup b = none := by
            rw [lookup_eq_none_iff_keys, ← hkeys, ← lookup_eq_none_iff_keys]
            exact hc'
          rw [hnone]
        · obtain ⟨-, c, hc, hr⟩ := hchild b c' hc'
          rw [hc]
          exact hr r
    obtain ⟨hsub, hempty⟩ := compactKids_removed n.kids hwf.shape.nodup stats book
    -- children without routes are then removed
    have hprune := removeKeys_spec hwf'.shape (compactKids n.kids stats book).2.2.1
      (hwf.shape.nodup.sublist hsub) hempty
    rw [compactChildren_eq]
    exact ⟨hprune.wf hwf', fun key => (hprune.stored key).trans (hstored key)⟩

end Compaction

end Node

end Ranvier
