import Ranvier.RadixTallies

/-!
# Compaction

`compact` walks the tree bottom up: it replaces a node that has become too large for its
children, collects the children that are empty, and removes them.

* `compactChildren_compacted` — what it leaves is `Compacted`: below the root no node is
  empty, and none can shrink; `compactChildren_of_compacted` — such a tree it leaves alone;
* `PlacedStep` — what it does to the node objects, each with the key of its place: one is
  replaced by a fresh one at the same place, or one that holds no route is freed. Both keep
  the order of the routes in the recency lists (`PlacedStep.threadsInOrder`);
* `compact_contract` — so in every tree reached it keeps the answers of lookups, the recency
  order and the tallies, and a second compaction has nothing to do.
-/

namespace Ranvier

namespace Node

/-! ## Nothing left to do -/

/-- Below the root no node is empty and none is larger than its children need. -/
def Compacted (n : Node) : Prop :=
  ∀ m ∈ nodesKids n.kids, m.isNodeEmpty = false ∧ m.shouldShrink = false

section Settled

variable {n : Node}

theorem WF.of_mem_nodes (h : n.WF) {m : Node} (hm : m ∈ n.nodes) : m.WF := by
  induction h with
  | mk n shape kids ih =>
    rw [nodes_eq] at hm
    rcases List.mem_cons.mp hm with rfl | hm
    · exact WF.mk m shape kids
    · obtain ⟨b, c, hmem, hmc⟩ := mem_nodesKids.mp hm
      exact ih b c (lookup_of_mem shape.nodup hmem) hmc

theorem shouldShrink_eq_false_of_type (ht : n.type = typeForCapacity n.childCount) :
    n.shouldShrink = false := by
  rw [shouldShrink, ht, typeForCapacity]
  split_ifs <;> simp <;> omega

/-- A well shaped node that cannot shrink has the smallest kind that fits. -/
theorem type_eq_of_shouldShrink (h : n.Shape) (hno : n.shouldShrink = false) :
    n.type = typeForCapacity n.childCount := by
  have hfits := h.fits
  rw [shouldShrink] at hno
  rw [typeForCapacity, childCount] at *
  cases ht : n.type with
  | Node4 =>
    have hle : n.kids.length ≤ 4 := by
      rw [ht] at hfits
      exact hfits (by decide)
    rw [if_pos hle]
  | Node16 =>
    have hle : n.kids.length ≤ 16 := by
      rw [ht] at hfits
      exact hfits (by decide)
    rw [ht] at hno
    rw [if_neg (of_decide_eq_false hno), if_pos hle]
  | Node48 =>
    have hle : n.kids.length ≤ 48 := by
      rw [ht] at hfits
      exact hfits (by decide)
    rw [ht] at hno
    have hlarge := of_decide_eq_false hno
    rw [if_neg (by omega), if_neg hlarge, if_pos hle]
  | Node256 =>
    rw [ht] at hno
    have hlarge := of_decide_eq_false hno
    rw [if_neg (by omega), if_neg (by omega), if_neg hlarge]

/-- Shrinking goes all the way: what it leaves has the smallest kind that fits. -/
theorem shrinkIfNeeded_settled (h : n.Shape) (stats : CompactionStats) (book : TreeBook) :
    (n.shrinkIfNeeded stats book).1.shouldShrink = false := by
  by_cases hneed : n.shouldShrink = true
  · refine shouldShrink_eq_false_of_type ?_
    have hkids := (shrinkIfNeeded_spec h stats book).kids
    rw [childCount, hkids, shrinkIfNeeded, if_pos hneed, typeForCapacity]
    rw [shouldShrink, childCount] at hneed
    cases ht : n.type with
    | Node4 =>
      rw [ht] at hneed
      cases hneed
    | Node16 =>
      rw [ht] at hneed
      have hle := of_decide_eq_true hneed
      simp only [shrinkNode, ht, childCount, if_pos hle, shrinkToNode4]
      rfl
    | Node48 =>
      rw [ht] at hneed
      have hle := of_decide_eq_true hneed
      simp only [shrinkNode, ht, childCount, if_pos hle]
      split_ifs
      · simp only [shrinkToNode4, ht]
        rfl
      · simp only [shrinkToNode16, ht]
        rfl
    | Node256 =>
      rw [ht] at hneed
      have hle := of_decide_eq_true hneed
      simp only [shrinkNode, ht, childCount, if_pos hle]
      split_ifs
      · simp only [shrinkToNode4, ht]
        rfl
      · simp only [shrinkToNode16, ht]
        rfl
      · simp only [shrinkToNode48, ht]
        rfl
  · rw [shrinkIfNeeded, if_neg hneed]
    exact Bool.eq_false_iff.mpr hneed

theorem shrinkIfNeeded_of_settled (hno : n.shouldShrink = false) (stats : CompactionStats)
    (book : TreeBook) : n.shrinkIfNeeded stats book = (n, stats, book) := by
  rw [shrinkIfNeeded, if_neg (by rw [hno]; decide)]

end Settled

/-- Every empty child is collected. -/
theorem mem_removed_of_isNodeEmpty {kids : List (UInt8 × Node)} {stats : CompactionStats}
    {book : TreeBook} {b : UInt8} {c : Node}
    (hc : (compactKids kids stats book).1.lookup b = some c) (hempty : c.isNodeEmpty = true) :
    b ∈ (compactKids kids stats book).2.1 := by
  induction kids generalizing stats book with
  | nil => cases hc
  | cons p kids ih =>
    obtain ⟨k, d⟩ := p
    rw [compactKids, lookup_cons_eq] at hc
    rw [compactKids, List.mem_append]
    by_cases hb : b = k
    · rw [if_pos hb] at hc
      rw [← Option.some.inj hc] at hempty
      left
      rw [if_pos hempty, hb]
      exact List.mem_singleton_self k
    · rw [if_neg hb] at hc
      exact Or.inr (ih hc)

/-- A removed key is gone. -/
theorem lookup_removeKeys {n : Node} (h : n.Shape) (stats : CompactionStats)
    {keys : List UInt8} (hnodup : keys.Nodup) (hmem : ∀ b ∈ keys, b ∈ keysOf n.kids) (b : UInt8) :
    (removeKeys n stats keys).1.kids.lookup b = if b ∈ keys then none else n.kids.lookup b := by
  induction keys generalizing n stats with
  | nil => rw [if_neg List.not_mem_nil, removeKeys]
  | cons key keys ih =>
    rw [List.nodup_cons] at hnodup
    obtain ⟨hshape, -, -, hkids⟩ := removeChild_spec h (hmem key List.mem_cons_self)
    have hrest : ∀ b ∈ keys, b ∈ keysOf (n.removeChild key).1.kids := by
      intro b hb
      have hne : b ≠ key := by
        rintro rfl
        exact hnodup.1 hb
      rw [hkids, keysOf_eraseKey, List.mem_erase_of_ne hne]
      exact hmem b (List.mem_cons_of_mem _ hb)
    rw [removeKeys, ih hshape _ hnodup.2 hrest, hkids, lookup_eraseKey h.nodup]
    by_cases hb : b ∈ keys
    · rw [if_pos hb, if_pos (List.mem_cons_of_mem _ hb)]
    · rw [if_neg hb]
      by_cases hk : b = key
      · rw [if_pos hk, if_pos (by rw [hk]; exact List.mem_cons_self)]
      · rw [if_neg hk, if_neg (by simp [hk, hb])]

/-- **What compaction leaves.** -/
theorem compactChildren_compacted (n : Node) (hwf : n.WF) (stats : CompactionStats)
    (book : TreeBook) : (compactChildren n stats book).1.Compacted := by
  induction n using induct generalizing stats book with
  | h n ih =>
    obtain ⟨hsub, -⟩ := compactKids_removed n.kids hwf.shape.nodup stats book
    have hkeys := keysOf_compactKids n.kids stats book
    have hshape : Shape { n with kids := (compactKids n.kids stats book).1 } :=
      hwf.shape.of_keysOf_eq hkeys
    have hwf' := (compactChildren_spec n hwf stats book).1
    intro m hm
    obtain ⟨b, c', hmem, hm⟩ := mem_nodesKids.mp hm
    have hc' := lookup_of_mem hwf'.shape.nodup hmem
    rw [compactChildren_eq, lookup_removeKeys hshape _ (hwf.shape.nodup.sublist hsub)
      (fun b hb => by rw [hkeys]; exact hsub.subset hb)] at hc'
    -- a child that was kept was not collected, so it is not empty
    split at hc'
    · cases hc'
    rename_i hkept
    have hnonempty : c'.isNodeEmpty = false :=
      Bool.eq_false_iff.mpr fun hempty => hkept (mem_removed_of_isNodeEmpty hc' hempty)
    obtain ⟨c, st, bk, st', bk', hc, rfl⟩ := lookup_compactKids stats book hc'
    have hcwf := hwf.kids b c hc
    have hcshape := (compactChildren_spec c hcwf st bk).1.shape
    rw [nodes_eq] at hm
    rcases List.mem_cons.mp hm with rfl | hm
    · exact ⟨hnonempty, shrinkIfNeeded_settled hcshape st' bk'⟩
    · rw [(shrinkIfNeeded_spec hcshape st' bk').kids] at hm
      exact ih (b, c) (mem_of_lookup hc) hcwf st bk m hm

theorem compactChildren_pre {n : Node} (hwf : n.WF) (stats : CompactionStats) (book : TreeBook) :
    (compactChildren n stats book).1.pre = n.pre := by
  obtain ⟨hsub, hempty⟩ := compactKids_removed n.kids hwf.shape.nodup stats book
  have hshape : Shape { n with kids := (compactKids n.kids stats book).1 } :=
    hwf.shape.of_keysOf_eq (keysOf_compactKids n.kids stats book)
  rw [compactChildren_eq]
  exact (removeKeys_spec hshape _ (hwf.shape.nodup.sublist hsub) hempty).pre

/-- **A compacted tree** is left alone. -/
theorem compactChildren_of_compacted (n : Node) (h : n.Compacted) (stats : CompactionStats)
    (book : TreeBook) : compactChildren n stats book = (n, stats, book) := by
  induction n using induct generalizing stats book with
  | h n ih =>
    have hkids : ∀ kids : List (UInt8 × Node), (∀ p ∈ kids, p ∈ n.kids) →
        compactKids kids stats book = (kids, [], stats, book) := by
      intro kids hsub
      induction kids with
      | nil => rfl
      | cons p kids ihk =>
        obtain ⟨k, c⟩ := p
        have hmem : (k, c) ∈ n.kids := hsub _ List.mem_cons_self
        have hnode : ∀ m ∈ c.nodes, m ∈ nodesKids n.kids :=
          fun m hm => mem_nodesKids.mpr ⟨k, c, hmem, hm⟩
        obtain ⟨hnonempty, hsettled⟩ := h c (hnode c (self_mem_nodes c))
        have hc : c.Compacted := by
          intro m hm
          refine h m (hnode m ?_)
          rw [nodes_eq]
          exact List.mem_cons_of_mem _ hm
        rw [compactKids, ih (k, c) hmem hc, shrinkIfNeeded_of_settled hsettled,
          ihk fun p hp => hsub p (List.mem_cons_of_mem _ hp), hnonempty]
        rfl
    obtain ⟨type, id, pre, leafValue, origin, keyTokens, lastAccessed, index, kids⟩ := n
    rw [compactChildren, hkids kids fun _ hp => hp]
    rfl

/-! ## Node objects and their places -/

end Node

/-- A node object: its identity, the key of its place and the route it holds. -/
abbrev PlacedCell : Type := ℕ × List UInt8 × Option Node.Leaf

namespace Node

mutual

/-- The node objects of a subtree whose parent edge ends the path `above`. -/
def placed (above : List UInt8) : Node → List PlacedCell
  | ⟨_, id, pre, leafValue, origin, keyTokens, lastAccessed, _, kids⟩ =>
    (id, above ++ pre, leafValue.map fun b => ⟨b, origin, keyTokens, lastAccessed⟩) ::
      placedKids (above ++ pre) kids

/-- The node objects below a node with the path `above`. -/
def placedKids (above : List UInt8) : List (UInt8 × Node) → List PlacedCell
  | [] => []
  | (k, c) :: kids => placed (above ++ [k]) c ++ placedKids above kids

end

/-- The key of the place of a node object. -/
def keyOf (n : Node) (i : ℕ) : Option (List UInt8) := ((n.placed []).lookup i).map Prod.fst

theorem placed_eq (above : List UInt8) (n : Node) :
    n.placed above = (n.id, above ++ n.pre, n.leaf) :: placedKids (above ++ n.pre) n.kids := by
  cases n
  rfl

theorem placedKids_eq (above : List UInt8) (kids : List (UInt8 × Node)) :
    placedKids above kids = kids.flatMap fun p => p.2.placed (above ++ [p.1]) := by
  induction kids with
  | nil => rfl
  | cons p kids ih =>
    obtain ⟨k, c⟩ := p
    rw [placedKids, ih, List.flatMap_cons]

theorem placedKids_lookup (above : List UInt8) {kids : List (UInt8 × Node)} {k : UInt8} {c : Node}
    (hc : kids.lookup k = some c) :
    (placedKids above kids).Perm
      (c.placed (above ++ [k]) ++ placedKids above (eraseKey k kids)) := by
  have hperm := (perm_cons_eraseKey hc).flatMap_right fun p => p.2.placed (above ++ [p.1])
  rw [List.flatMap_cons, ← placedKids_eq, ← placedKids_eq] at hperm
  exact hperm

theorem placed_of_isNodeEmpty (above : List UInt8) {n : Node} (h : n.isNodeEmpty = true) :
    n.placed above = [(n.id, above ++ n.pre, none)] := by
  rw [isNodeEmpty, Bool.and_eq_true, Option.isNone_iff_eq_none, beq_iff_eq, childCount,
    List.length_eq_zero_iff] at h
  rw [placed_eq, h.2, leaf, h.1]
  rfl

/-- Without the places these are the cells of the subtree. -/
theorem cells_eq_placed (above : List UInt8) (n : Node) :
    (↑(n.placed above) : Multiset PlacedCell).map (fun x => (x.1, x.2.2)) = n.cells := by
  have hlist : ∀ above : List UInt8,
      (n.placed above).map (fun x => ((x.1, x.2.2) : Cell)) = n.nodes.map cell := by
    induction n using induct with
    | h n ih =>
      intro above
      have hkids : ∀ (above : List UInt8) (kids : List (UInt8 × Node)), (∀ p ∈ kids, p ∈ n.kids) →
          (placedKids above kids).map (fun x => ((x.1, x.2.2) : Cell)) =
            (nodesKids kids).map cell := by
        intro above kids hsub
        induction kids with
        | nil => rfl
        | cons p kids ihk =>
          obtain ⟨k, c⟩ := p
          rw [placedKids, nodesKids, List.map_append, List.map_append,
            ih (k, c) (hsub _ List.mem_cons_self),
            ihk fun p hp => hsub p (List.mem_cons_of_mem _ hp)]
      rw [placed_eq, nodes_eq, List.map_cons, List.map_cons, hkids _ _ fun _ hp => hp]
      rfl
  exact congrArg _ (hlist above)

end Node

/-- What compaction does to node objects. -/
inductive PlacedStep : Multiset PlacedCell × TreeBook → Multiset PlacedCell × TreeBook → Prop where
  /-- a fresh node object takes the place of another -/
  | replace (i : ℕ) (key : List UInt8) (l : Option Node.Leaf) (c : Multiset PlacedCell)
      (book : TreeBook) :
      PlacedStep ((i, key, l) ::ₘ c, book)
        ((book.nextId, key, l) ::ₘ c,
          { book with
            nextId := book.nextId + 1
            lru := l.elim book.lru fun l => book.lru.splice l.origin i book.nextId })
  /-- a node that holds no route is freed -/
  | free (i : ℕ) (key : List UInt8) (c : Multiset PlacedCell) (book : TreeBook) :
      PlacedStep ((i, key, none) ::ₘ c, book) (c, book)

/-- A sequence of such steps. -/
abbrev PlacedSteps :
    Multiset PlacedCell × TreeBook → Multiset PlacedCell × TreeBook → Prop :=
  Relation.ReflTransGen PlacedStep

/-- The routes of the recency lists with their keys, one list per origin. -/
abbrev RecencyOrder : Type := RouteOrigin → List (Option (List UInt8) × Node.Leaf)

/-- The lists with the keys that `keyOf` gives to the node objects. -/
def RecencyLists.order (lists : RecencyLists) (keyOf : ℕ → Option (List UInt8)) : RecencyOrder :=
  fun origin => (lists origin).map fun p => (keyOf p.1, p.2)

/-- The pointers thread the routes in the given order. -/
def ThreadsInOrder (order : RecencyOrder) (s : Multiset PlacedCell × TreeBook) : Prop :=
  ∃ (lists : RecencyLists) (keyOf : ℕ → Option (List UInt8)),
    Listed (s.1.map fun x => (x.1, x.2.2)) s.2.lru s.2.nextId lists ∧
      (∀ x ∈ s.1, keyOf x.1 = some x.2.1) ∧ lists.order keyOf = order

section Order

variable {order : RecencyOrder} {s s' : Multiset PlacedCell × TreeBook}

/-- **One step** keeps the order. -/
theorem PlacedStep.threadsInOrder (hstep : PlacedStep s s') (h : ThreadsInOrder order s) :
    ThreadsInOrder order s' := by
  obtain ⟨lists, keyOf, hlists, hkeys, hr⟩ := h
  cases hstep with
  | free i key c book =>
    rw [Multiset.map_cons] at hlists
    exact ⟨lists, keyOf, hlists.free, fun x hx => hkeys x (Multiset.mem_cons_of_mem hx), hr⟩
  | replace i key l c book =>
    dsimp only at hlists hkeys
    rw [Multiset.map_cons] at hlists
    have halloc := hlists.alloc
    rw [Multiset.cons_swap] at halloc
    -- the fresh identity is in no list and in no other cell
    have hfresh : ∀ origin, ∀ p ∈ lists origin, p.1 ≠ book.nextId := by
      intro origin p hp
      have hcell := ((hlists.holds origin p.1 p.2).mp hp).1
      exact Nat.ne_of_lt (hlists.handedOut _ hcell)
    have hkeys' : ∀ x ∈ (book.nextId, key, l) ::ₘ c,
        Function.update keyOf book.nextId (some key) x.1 = some x.2.1 := by
      intro x hx
      rcases Multiset.mem_cons.mp hx with rfl | hx
      · exact Function.update_self ..
      · have hmem : (x.1, x.2.2) ∈ c.map fun x => ((x.1, x.2.2) : Cell) :=
          Multiset.mem_map_of_mem _ hx
        have hlt := hlists.handedOut _ (Multiset.mem_cons_of_mem hmem)
        rw [Function.update_of_ne (Nat.ne_of_lt hlt)]
        exact hkeys x (Multiset.mem_cons_of_mem hx)
    have hsame : lists.order (Function.update keyOf book.nextId (some key)) =
        lists.order keyOf := by
      funext origin
      refine List.map_congr_left fun p hp => ?_
      rw [Function.update_of_ne (hfresh origin p hp)]
    rcases l with _ | l
    · refine ⟨lists, Function.update keyOf book.nextId (some key), ?_, hkeys', hsame.trans hr⟩
      rw [Multiset.map_cons]
      exact halloc.free
    · obtain ⟨xs, ys, hlist, hi⟩ := halloc.split
      have hover := halloc.handOver hlist hi
      refine ⟨Function.update lists l.origin (xs ++ (book.nextId, l) :: ys),
        Function.update keyOf book.nextId (some key), ?_, hkeys', ?_⟩
      · rw [Multiset.map_cons]
        exact hover.free
      · rw [← hr, ← hsame]
        funext origin
        rw [RecencyLists.order, RecencyLists.order]
        by_cases ho : origin = l.origin
        · -- the new object stands where the old one stood, under the same key
          have hkey : keyOf i = some key := hkeys _ (Multiset.mem_cons_self _ _)
          have hne : i ≠ book.nextId := by
            refine hfresh l.origin (i, l) ?_
            rw [hlist]
            exact List.mem_append_right _ List.mem_cons_self
          rw [ho, Function.update_self, hlist, List.map_append, List.map_append, List.map_cons,
            List.map_cons]
          dsimp only
          rw [Function.update_self, Function.update_of_ne hne, hkey]
        · rw [Function.update_of_ne ho]

theorem PlacedSteps.threadsInOrder (hsteps : PlacedSteps s s') (h : ThreadsInOrder order s) :
    ThreadsInOrder order s' := by
  induction hsteps with
  | refl => exact h
  | tail _ hlast ih => exact hlast.threadsInOrder ih

end Order

/-! ## Compaction, object by object -/

namespace Node

section Steps

variable {n : Node} {above : List UInt8}

theorem placedSteps_shrinkIfNeeded (h : n.Shape) (stats : CompactionStats) (book : TreeBook)
    (f : Multiset PlacedCell) :
    PlacedSteps (↑(n.placed above) + f, book)
      (↑((n.shrinkIfNeeded stats book).1.placed above) + f, (n.shrinkIfNeeded stats book).2.2) := by
  rcases shrinkIfNeeded_cases n stats book with ⟨hsame, hbook⟩ | ⟨type, hid, hbook⟩
  · rw [hsame, hbook]
  · have hre := shrinkIfNeeded_spec h stats book
    have htransfer : (transferNodeMetadata (makeNode type book).1 n (makeNode type book).2).2 =
        { book with
          nextId := book.nextId + 1
          lru := n.leaf.elim book.lru fun l => book.lru.splice l.origin n.id book.nextId } := by
      rw [transferNodeMetadata, leaf]
      cases n.leafValue <;> rfl
    rw [hbook, htransfer, placed_eq, placed_eq, hid, hre.pre, hre.leaf, hre.kids,
      ← Multiset.cons_coe, ← Multiset.cons_coe, Multiset.cons_add, Multiset.cons_add]
    exact Relation.ReflTransGen.single (PlacedStep.replace n.id _ n.leaf _ book)

theorem placedSteps_removeKeys (h : n.Shape) (stats : CompactionStats) {keys : List UInt8}
    (hnodup : keys.Nodup)
    (hempty : ∀ b, b ∈ keys → ∃ c, n.kids.lookup b = some c ∧ c.isNodeEmpty = true)
    (book : TreeBook) (f : Multiset PlacedCell) :
    PlacedSteps (↑(n.placed above) + f, book)
      (↑((removeKeys n stats keys).1.placed above) + f, book) := by
  induction keys generalizing n stats with
  | nil => exact Relation.ReflTransGen.refl
  | cons key keys ih =>
    rw [List.nodup_cons] at hnodup
    obtain ⟨c, hc, hcempty⟩ := hempty key List.mem_cons_self
    obtain ⟨hshape, hpre, hleaf, hkids⟩ := removeChild_spec h
      (lookup_isSome_iff.mp (by rw [hc]; rfl) : key ∈ keysOf n.kids)
    have hrest : ∀ b, b ∈ keys →
        ∃ c, (n.removeChild key).1.kids.lookup b = some c ∧ c.isNodeEmpty = true := by
      intro b hb
      have hne : b ≠ key := by
        rintro rfl
        exact hnodup.1 hb
      rw [hkids, lookup_eraseKey h.nodup, if_neg hne]
      exact hempty b (List.mem_cons_of_mem _ hb)
    rw [removeKeys]
    refine Relation.ReflTransGen.head ?_ (ih hshape _ hnodup.2 hrest)
    -- the removed child is one object without a route
    have hperm : (n.placed above).Perm
        ((c.id, (above ++ n.pre) ++ [key] ++ c.pre, none) ::
          (n.removeChild key).1.placed above) := by
      have hplaced := placedKids_lookup (above ++ n.pre) hc
      rw [placed_of_isNodeEmpty _ hcempty, List.singleton_append] at hplaced
      rw [placed_eq, placed_eq, removeChild_id, hpre, hleaf, hkids]
      exact (hplaced.cons _).trans (List.Perm.swap _ _ _)
    rw [Multiset.coe_eq_coe.mpr hperm, ← Multiset.cons_coe, Multiset.cons_add]
    exact PlacedStep.free _ _ _ _

/-- **Compaction** replaces node objects in their places and frees objects without routes. -/
theorem placedSteps_compactChildren (n : Node) (hwf : n.WF) (above : List UInt8)
    (stats : CompactionStats) (book : TreeBook) (f : Multiset PlacedCell) :
    PlacedSteps (↑(n.placed above) + f, book)
      (↑((compactChildren n stats book).1.placed above) + f,
        (compactChildren n stats book).2.2) := by
  induction n using induct generalizing above stats book f with
  | h n ih =>
    have hkids : ∀ kids : List (UInt8 × Node), (∀ p, p ∈ kids → p ∈ n.kids) →
        ∀ above stats book f, PlacedSteps (↑(placedKids above kids) + f, book)
          (↑(placedKids above (compactKids kids stats book).1) + f,
            (compactKids kids stats book).2.2.2) := by
      intro kids hsub
      induction kids with
      | nil => exact fun above stats book f => Relation.ReflTransGen.refl
      | cons p kids ihk =>
        intro above stats book f
        obtain ⟨b, c⟩ := p
        have hmem : (b, c) ∈ n.kids := hsub _ List.mem_cons_self
        have hcwf := hwf.kids b c (lookup_of_mem hwf.shape.nodup hmem)
        have hc := (ih (b, c) hmem hcwf (above ++ [b]) stats book
          (↑(placedKids above kids) + f)).trans
          (placedSteps_shrinkIfNeeded (compactChildren_spec c hcwf stats book).1.shape
            (compactChildren c stats book).2.1 _ (↑(placedKids above kids) + f))
        rw [compactKids, placedKids, placedKids, ← Multiset.coe_add, ← Multiset.coe_add,
          add_assoc]
        generalize (compactChildren c stats book).1.shrinkIfNeeded
          (compactChildren c stats book).2.1 (compactChildren c stats book).2.2 = r at hc
        refine hc.trans ?_
        have hrest := ihk (fun p hp => hsub p (List.mem_cons_of_mem _ hp)) above r.2.1 r.2.2
          (↑(r.1.placed (above ++ [b])) + f)
        rw [add_left_comm (↑(placedKids above kids) : Multiset PlacedCell),
          add_left_comm (↑(placedKids above (compactKids kids r.2.1 r.2.2).1) :
            Multiset PlacedCell)] at hrest
        rw [add_assoc]
        exact hrest
    obtain ⟨hsub, hempty⟩ := compactKids_removed n.kids hwf.shape.nodup stats book
    have hshape : Shape { n with kids := (compactKids n.kids stats book).1 } :=
      hwf.shape.of_keysOf_eq (keysOf_compactKids n.kids stats book)
    rw [compactChildren_eq, compactChildren_book]
    refine Relation.ReflTransGen.trans ?_ (placedSteps_removeKeys hshape
      (compactKids n.kids stats book).2.2.1 (hwf.shape.nodup.sublist hsub) hempty _ f)
    rw [placed_eq, placed_eq, ← Multiset.cons_coe, ← Multiset.cons_coe, Multiset.cons_add,
      Multiset.cons_add, ← Multiset.add_cons, ← Multiset.add_cons]
    exact hkids n.kids (fun _ h => h) _ stats book _

end Steps

end Node

namespace RadixTree

variable {t : RadixTree} {lists : RecencyLists}

/-- The keys in the recency lists of a tree, with their routes. -/
def recencyOrder (t : RadixTree) (lists : RecencyLists) : RecencyOrder := lists.order t.root.keyOf

/-- In a tree whose identities are unique, `keyOf` tells the places. -/
theorem keyOf_of_placed (h : t.cellState.Lists lists) {x : PlacedCell}
    (hx : x ∈ t.root.placed []) : t.root.keyOf x.1 = some x.2.1 := by
  have hids : (keysOf (t.root.placed [])).Nodup := by
    have hunique := h.unique
    have hcells : t.cellState.cells = t.root.cells := rfl
    rw [hcells, ← t.root.cells_eq_placed [], Multiset.map_map] at hunique
    exact Multiset.coe_nodup.mp hunique
  rw [Node.keyOf, lookup_of_mem hids (b := x.1) (c := x.2) hx]
  rfl

theorem threadsInOrder_of_lists (h : t.cellState.Lists lists) :
    ThreadsInOrder (t.recencyOrder lists) (↑(t.root.placed []), t.book) := by
  refine ⟨lists, t.root.keyOf, ?_, fun x hx => keyOf_of_placed h (Multiset.mem_coe.mp hx), rfl⟩
  rw [Node.cells_eq_placed]
  exact h

/-- Whatever names the places agrees with `keyOf` on the lists. -/
theorem lists_of_threadsInOrder {order : RecencyOrder}
    (h : ThreadsInOrder order (↑(t.root.placed []), t.book)) :
    ∃ lists, t.cellState.Lists lists ∧ t.recencyOrder lists = order := by
  obtain ⟨lists, keyOf, hlists, hkeys, hr⟩ := h
  rw [Node.cells_eq_placed] at hlists
  refine ⟨lists, hlists, ?_⟩
  rw [← hr]
  funext origin
  refine List.map_congr_left fun p hp => ?_
  have hcell := ((hlists.holds origin p.1 p.2).mp hp).1
  rw [← t.root.cells_eq_placed []] at hcell
  obtain ⟨x, hx, hxp⟩ := Multiset.mem_map.mp hcell
  obtain ⟨hid, -⟩ := Prod.mk.inj hxp
  rw [← hid, hkeys x hx, keyOf_of_placed hlists (Multiset.mem_coe.mp hx)]

theorem compact_threadsInOrder (hwf : t.root.WF) {order : RecencyOrder}
    (h : ThreadsInOrder order (↑(t.root.placed []), t.book)) :
    ThreadsInOrder order (↑(t.compact.1.root.placed []), t.compact.1.book) := by
  have hwf' := (Node.compactChildren_spec t.root hwf ⟨0, 0, 0⟩ t.book).1
  have hsteps := (Node.placedSteps_compactChildren t.root hwf [] ⟨0, 0, 0⟩ t.book 0).trans
    (Node.placedSteps_shrinkIfNeeded hwf'.shape
      (Node.compactChildren t.root ⟨0, 0, 0⟩ t.book).2.1 _ 0)
  rw [add_zero, add_zero] at hsteps
  exact PlacedSteps.threadsInOrder hsteps h

theorem compact_keeps (hwf : t.root.WF) :
    t.compact.1.root.WF ∧ ∀ key, t.compact.1.root.stored key = t.root.stored key := by
  obtain ⟨hwf', hstored⟩ := Node.compactChildren_spec t.root hwf ⟨0, 0, 0⟩ t.book
  have hre := Node.shrinkIfNeeded_spec hwf'.shape
    (Node.compactChildren t.root ⟨0, 0, 0⟩ t.book).2.1
    (Node.compactChildren t.root ⟨0, 0, 0⟩ t.book).2.2
  exact ⟨hre.wf hwf', fun key => (hre.stored key).trans (hstored key)⟩

theorem compact_compacted (hwf : t.root.WF) :
    t.compact.1.root.Compacted ∧ t.compact.1.root.shouldShrink = false := by
  have hwf' := (Node.compactChildren_spec t.root hwf ⟨0, 0, 0⟩ t.book).1
  have hre := Node.shrinkIfNeeded_spec hwf'.shape
    (Node.compactChildren t.root ⟨0, 0, 0⟩ t.book).2.1
    (Node.compactChildren t.root ⟨0, 0, 0⟩ t.book).2.2
  refine ⟨?_, Node.shrinkIfNeeded_settled hwf'.shape _ _⟩
  have hcompacted := Node.compactChildren_compacted t.root hwf ⟨0, 0, 0⟩ t.book
  rw [Node.Compacted, ← hre.kids] at hcompacted
  exact hcompacted

/-- A lookup answers with the longest stored prefix, byte for byte. -/
theorem lookup_isLongestMatch (hwf : t.root.WF) (now : ℕ) (tokens : List TokenId) :
    IsLongestMatch (fun key => (t.root.stored key).map fun l => l.backend)
      (encodeTokensBe tokens) (t.lookup now tokens).1 := by
  rw [lookup_fst]
  rcases Node.lookupWalk_spec hwf (encodeTokensBe tokens) none with
    ⟨hno, hres⟩ | ⟨p, n, hp, hres, hpn, hn, hmax⟩
  · rw [hres]
    refine isLongestMatch_none fun key hkey => ?_
    rw [hno key hkey]
    rfl
  · have hleaf : n.leaf.map (fun l => l.backend) = n.leafValue := by
      rw [Node.leaf, Option.map_map]
      exact Option.map_id'
    rw [hres, Option.bind_some, ← hleaf]
    refine Or.inr ⟨p, hp, congrArg (Option.map fun l => l.backend) hpn, ?_, fun q hq hsome => ?_⟩
    · rw [Option.isSome_map]
      exact hn
    · rw [Option.isSome_map] at hsome
      exact hmax q hq hsome

end RadixTree

/-- **Compaction** of a tree reached by any operations changes no answer of a lookup, no
recency order and no tally. Afterwards no node but the root is empty, every node has the
smallest kind for its children and an exact index table, and a second compaction does
nothing and counts nothing. -/
theorem compact_contract (t : RadixTree) (h : t.Reached) :
    (∀ now tokens, (t.compact.1.lookup now tokens).1 = (t.lookup now tokens).1) ∧
      ((∃ lists, t.cellState.Lists lists) ∧ ∀ lists, t.cellState.Lists lists →
        ∃ lists', t.compact.1.cellState.Lists lists' ∧
          t.compact.1.recencyOrder lists' = t.recencyOrder lists) ∧
      (t.compact.1.routeCount = t.routeCount ∧
        t.compact.1.book.routesByBackend = t.book.routesByBackend ∧
        t.compact.1.book.routeTokensByBackend = t.book.routeTokensByBackend) ∧
      (∀ m ∈ Node.nodesKids t.compact.1.root.kids, m.isNodeEmpty = false) ∧
      (∀ m ∈ t.compact.1.root.nodes, m.type = Node.typeForCapacity m.childCount ∧ m.Shape) ∧
      t.compact.1.compact = (t.compact.1, ⟨0, 0, 0⟩) := by
  obtain ⟨hwf, hlists⟩ := h.kept
  obtain ⟨hwf', hstored⟩ := RadixTree.compact_keeps hwf
  obtain ⟨hcompacted, hroot⟩ := RadixTree.compact_compacted hwf
  refine ⟨fun now tokens => ?_, ⟨hlists, fun lists hl => ?_⟩, ?_, fun m hm => ?_, fun m hm => ?_,
    ?_⟩
  · have hnew := RadixTree.lookup_isLongestMatch hwf' now tokens
    simp only [hstored] at hnew
    exact hnew.unique (RadixTree.lookup_isLongestMatch hwf now tokens)
  · exact RadixTree.lists_of_threadsInOrder
      (RadixTree.compact_threadsInOrder hwf (RadixTree.threadsInOrder_of_lists hl))
  · obtain ⟨-, hcount, hroutes, htokens⟩ := (RadixTree.compact_moves hwf).tallyView
    exact ⟨hcount, hroutes, htokens⟩
  · exact (hcompacted m hm).1
  · have hshape := (hwf'.of_mem_nodes hm).shape
    refine ⟨Node.type_eq_of_shouldShrink hshape ?_, hshape⟩
    rw [Node.nodes_eq] at hm
    rcases List.mem_cons.mp hm with rfl | hm
    · exact hroot
    · exact (hcompacted m hm).2
  · generalize t.compact.1 = c at hcompacted hroot
    rw [RadixTree.compact, Node.compactChildren_of_compacted _ hcompacted,
      Node.shrinkIfNeeded_of_settled hroot]

/-- Two routes that share a path, one of them removed again: its node is left empty. -/
def emptiedTree : RadixTree :=
  let tree := RadixTree.create ⟨1, Nat.one_pos⟩ 0
  (((tree.insert 0 [7] 1 .LOCAL).insert 0 [8] 2 .LOCAL).removeRoutesByBackend 2 .LOCAL).1

theorem compact_contract_emptiedTree :
    emptiedTree.compact.2 = ⟨1, 0, 192⟩ ∧
      emptiedTree.compact.1.compact = (emptiedTree.compact.1, ⟨0, 0, 0⟩) := by
  have hreached : emptiedTree.Reached :=
    ⟨⟨1, Nat.one_pos⟩, 0, [(0, .insert [7] 1 .LOCAL), (0, .insert [8] 2 .LOCAL),
      (0, .removeRoutesByBackend 2 .LOCAL)], rfl⟩
  exact ⟨by decide +kernel, (compact_contract emptiedTree hreached).2.2.2.2.2⟩

end Ranvier
