import Ranvier.RadixCompact

/-!
# Instrumented lookups and dumps

Two readers of the tree beside `lookup`. The request path uses a lookup that also counts,
a loop written separately; the admin interface dumps the subtree under a token prefix.

* `lookupInstrumented_eq` — the counting lookup answers and touches as `lookup` does;
* `dumpWalk_ends` — where the descent of a dump ends, and what the node found there holds;
* `dumpWithPrefix_exact_iff` — it contains the routes under the filter and nothing else,
  unless no route is under the filter and the descent still ends at a node.
-/

namespace Ranvier

/-! ## The counting lookup -/

/-- `LookupResult`. -/
structure LookupResult : Type where
  /-- the backend of the match -/
  backend : Option BackendId := none
  /-- bytes matched within compressed prefixes -/
  prefixBytesSkipped : ℕ := 0
  /-- nodes visited -/
  nodesTraversed : ℕ := 0
  deriving DecidableEq, Repr

/-- The comparison loop of `lookup_with_stats`: `none` at a byte that differs, else how many
bytes were compared. -/
def comparePrefix : List UInt8 → List UInt8 → Option ℕ
  | p :: pre, b :: key => if p ≠ b then none else (comparePrefix pre key).map (· + 1)
  | [], _ => some 0
  | _ :: _, [] => some 0

namespace Node

/-- The loop of `lookup_with_stats`: the node to touch, and the result. -/
def lookupWithStats (node : Node) (key : List UInt8) (bestMatch : Option BackendId)
    (bestMatchNode : Option Node) (result : LookupResult) : Option Node × LookupResult :=
  let result := { result with nodesTraversed := result.nodesTraversed + 1 }
  match comparePrefix node.pre key with
  | none => (bestMatchNode, { result with backend := bestMatch })
  | some matchLen =>
    let result := { result with prefixBytesSkipped := result.prefixBytesSkipped + matchLen }
    -- the key ends within the prefix
    if matchLen < node.pre.length then (bestMatchNode, { result with backend := bestMatch })
    else
      let bestMatch := if node.leafValue.isSome then node.leafValue else bestMatch
      let bestMatchNode := if node.leafValue.isSome then some node else bestMatchNode
      match _hrem : key.drop matchLen with
      | [] => (bestMatchNode, { result with backend := bestMatch })
      | b :: rest =>
        match node.findChild b with
        | some child => child.lookupWithStats rest bestMatch bestMatchNode result
        | none => (bestMatchNode, { result with backend := bestMatch })
termination_by key.length
decreasing_by
  have hlen := congrArg List.length _hrem
  rw [List.length_drop, List.length_cons] at hlen
  omega

end Node

/-- `lookup_instrumented`: the result, and the tree after the match was touched. -/
def RadixTree.lookupInstrumented (t : RadixTree) (now : ℕ) (tokens : List TokenId) :
    LookupResult × RadixTree :=
  let r := t.root.lookupWithStats (encodeTokensBe tokens) none none {}
  match r.1 with
  | none => (r.2, t)
  | some best =>
    (r.2,
     { t with
       root := t.root.writeAt best.id (fun n => { n with lastAccessed := now })
       book := { t.book with now := now, lru := t.book.lru.touch best.origin best.id } })

/-- The comparison loop stops where `matchLen` does. -/
theorem comparePrefix_eq (pre key : List UInt8) :
    comparePrefix pre key =
      if matchLen pre key < pre.length ∧ matchLen pre key < key.length then none
      else some (matchLen pre key) := by
  induction pre generalizing key with
  | nil =>
    rw [comparePrefix, matchLen, if_neg (by simp)]
  | cons p pre ih =>
    rcases key with _ | ⟨b, key⟩
    · rw [comparePrefix, matchLen, if_neg (by simp)]
    · rw [comparePrefix, matchLen]
      by_cases hb : p = b
      · rw [if_neg (not_not.mpr hb), if_pos hb, ih]
        simp only [List.length_cons, Nat.add_lt_add_iff_right]
        split <;> rfl
      · rw [if_pos hb, if_neg hb, if_pos (by simp)]

theorem comparePrefix_none {pre key : List UInt8} (h : comparePrefix pre key = none) :
    matchLen pre key < pre.length := by
  rw [comparePrefix_eq] at h
  split at h
  · rename_i hlt
    exact hlt.1
  · cases h

theorem comparePrefix_some {pre key : List UInt8} {len : ℕ}
    (h : comparePrefix pre key = some len) : matchLen pre key = len := by
  rw [comparePrefix_eq] at h
  split at h
  · cases h
  · exact Option.some.inj h

/-- One round of the lookup walk past a prefix that matched. -/
theorem Node.lookupWalk_step (n : Node) (key : List UInt8) (best : Option Node)
    (hlt : ¬ matchLen n.pre key < n.pre.length) {best' : Option Node}
    (hbest : best' = if n.leafValue.isSome then some n else best) :
    n.lookupWalk key best =
      match key.drop (matchLen n.pre key) with
      | [] => best'
      | b :: rest =>
        match n.findChild b with
        | some child => child.lookupWalk rest best'
        | none => best' := by
  rw [Node.lookupWalk, if_neg hlt]
  dsimp only
  rw [← hbest]
  cases hrem : key.drop (matchLen n.pre key) with
  | nil => rfl
  | cons b rest => rfl

/-- **The two loops** find the same node, and the counting one reports its backend. -/
theorem Node.lookupWithStats_eq (n : Node) (key : List UInt8) (bestMatch : Option BackendId)
    (best : Option Node) (result : LookupResult)
    (hbest : bestMatch = best.bind fun best => best.leafValue) :
    (n.lookupWithStats key bestMatch best result).1 = n.lookupWalk key best ∧
      (n.lookupWithStats key bestMatch best result).2.backend =
        (n.lookupWalk key best).bind fun best => best.leafValue := by
  have hupdate : ∀ (n : Node) (bestMatch : Option BackendId) (best : Option Node),
      (bestMatch = best.bind fun best => best.leafValue) →
        (if n.leafValue.isSome then n.leafValue else bestMatch) =
          (if n.leafValue.isSome then some n else best).bind fun best => best.leafValue := by
    intro n bestMatch best hbest
    split
    · rfl
    · exact hbest
  fun_induction Node.lookupWithStats n key bestMatch best result with
  | case1 n key bestMatch best result _ hscan =>
    rw [Node.lookupWalk, if_pos (comparePrefix_none hscan)]
    exact ⟨rfl, hbest⟩
  | case2 n key bestMatch best result _ len hscan _ hlt =>
    obtain rfl := comparePrefix_some hscan
    rw [Node.lookupWalk, if_pos hlt]
    exact ⟨rfl, hbest⟩
  | case3 n key bestMatch best result _ len hscan _ hlt bestMatch' best' hrem =>
    obtain rfl := comparePrefix_some hscan
    rw [n.lookupWalk_step key best hlt rfl, hrem]
    exact ⟨rfl, hupdate n bestMatch best hbest⟩
  | case4 n key bestMatch best result _ len hscan _ hlt bestMatch' best' b rest hrem child hfind
      ih =>
    obtain rfl := comparePrefix_some hscan
    rw [n.lookupWalk_step key best hlt rfl, hrem]
    dsimp only
    rw [hfind]
    exact ih (hupdate n bestMatch best hbest)
  | case5 n key bestMatch best result _ len hscan _ hlt bestMatch' best' b rest hrem hfind =>
    obtain rfl := comparePrefix_some hscan
    rw [n.lookupWalk_step key best hlt rfl, hrem]
    dsimp only
    rw [hfind]
    exact ⟨rfl, hupdate n bestMatch best hbest⟩

/-- **The counting lookup** returns the backend that `lookup` returns and leaves the tree as
`lookup` leaves it, recency lists included. -/
theorem lookupInstrumented_eq (t : RadixTree) (now : ℕ) (tokens : List TokenId) :
    (t.lookupInstrumented now tokens).1.backend = (t.lookup now tokens).1 ∧
      (t.lookupInstrumented now tokens).2 = (t.lookup now tokens).2 := by
  obtain ⟨hnode, hbackend⟩ :=
    t.root.lookupWithStats_eq (encodeTokensBe tokens) none none {} rfl
  rw [RadixTree.lookupInstrumented, RadixTree.lookup]
  dsimp only
  rw [hnode]
  cases hwalk : t.root.lookupWalk (encodeTokensBe tokens) none with
  | none =>
    rw [hwalk] at hbackend
    exact ⟨hbackend, rfl⟩
  | some best =>
    rw [hwalk] at hbackend
    exact ⟨hbackend, rfl⟩

/-! ## Dumps -/

/-- `DumpNode`: a node of the serialized tree. Paths and edges are raw bytes. -/
structure DumpNode : Type where
  /-- the node kind -/
  type : NodeType
  /-- `prefix` -/
  pre : List UInt8
  /-- the backend routed to, if a route is held here -/
  backend : Option BackendId
  /-- the origin of the route -/
  origin : RouteOrigin
  /-- when the route was last used, in milliseconds -/
  lastAccessedMs : ℕ
  /-- edge bytes and children -/
  children : List (UInt8 × DumpNode)

namespace Node

mutual

/-- `dump_node`. -/
def dumpNode : Node → DumpNode
  | ⟨type, _, pre, leafValue, origin, _, lastAccessed, _, kids⟩ =>
    -- the clock counts nanoseconds
    ⟨type, pre, leafValue, origin, lastAccessed / 1000000, dumpKids kids⟩

/-- The children, in the order of `visit_children`. -/
def dumpKids : List (UInt8 × Node) → List (UInt8 × DumpNode)
  | [] => []
  | (k, c) :: kids => (k, c.dumpNode) :: dumpKids kids

end

/-- The loop of `dump_with_prefix` at `node`, with `remaining` bytes of the filter consumed
and `rest` still to match. -/
def dumpWalk (node : Node) (remaining : ℕ) (rest : List UInt8) : Option DumpNode :=
  if rest = [] then some node.dumpNode
  else
    let len := matchLen node.pre rest
    if len < node.pre.length then
      -- "Partial match - return this subtree if we matched something"
      if 0 < remaining ∨ 0 < len then some node.dumpNode else none
    else
      match _hrem : rest.drop len with
      | [] => some node.dumpNode
      | b :: rest =>
        match node.findChild b with
        | some child => child.dumpWalk (remaining + len + 1) rest
        | none => none
termination_by rest.length
decreasing_by
  have hlen := congrArg List.length _hrem
  rw [List.length_drop, List.length_cons] at hlen
  omega

end Node

/-- `dump_with_prefix`. -/
def RadixTree.dumpWithPrefix (t : RadixTree) (prefixFilter : List TokenId) : Option DumpNode :=
  t.root.dumpWalk 0 (encodeTokensBe prefixFilter)

namespace DumpNode

mutual

/-- The routes in a dump: the bytes below the dumped node, the backend and the origin. -/
def routes : DumpNode → List (List UInt8 × BackendId × RouteOrigin)
  | ⟨_, pre, backend, origin, _, children⟩ =>
    ((backend.map fun b => (([] : List UInt8), b, origin)).toList ++ routesKids children).map
      fun e => (pre ++ e.1, e.2)

/-- The routes in the dumps of the children, edge byte first. -/
def routesKids : List (UInt8 × DumpNode) → List (List UInt8 × BackendId × RouteOrigin)
  | [] => []
  | (k, d) :: children => d.routes.map (fun e => (k :: e.1, e.2)) ++ routesKids children

end

end DumpNode

/-- The dump holds exactly the routes under the filter: it is there when some route is, and
its routes, placed below the part of the filter before the dumped node, are those. -/
def RadixTree.DumpsExactly (t : RadixTree) (filter : List UInt8) : Option DumpNode → Prop
  | none => ∀ key l, filter <+: key → t.root.stored key ≠ some l
  | some d =>
    (∃ key l, filter <+: key ∧ t.root.stored key = some l) ∧
      ∃ above, above <+: filter ∧ ∀ key route,
        (filter <+: key ∧ ∃ l, t.root.stored key = some l ∧ l.route = route) ↔
          ∃ r, key = above ++ r ∧ (r, route) ∈ d.routes

/-- The filter leaves the tree at a node: it runs through the node's path, and the node has
no child for the byte after it. -/
inductive Node.OffTree : Node → List UInt8 → Prop where
  | here (n : Node) (b : UInt8) (rest : List UInt8) (hnone : n.kids.lookup b = none) :
      OffTree n (n.pre ++ b :: rest)
  | inChild (n : Node) (b : UInt8) (rest : List UInt8) (c : Node)
      (hchild : n.kids.lookup b = some c) (hoff : OffTree c rest) :
      OffTree n (n.pre ++ b :: rest)

namespace Node

theorem dumpNode_eq (n : Node) :
    n.dumpNode =
      ⟨n.type, n.pre, n.leafValue, n.origin, n.lastAccessed / 1000000, dumpKids n.kids⟩ := by
  cases n
  rfl

/-- A dump lists what the node lists. -/
theorem routes_dumpNode (n : Node) :
    n.dumpNode.routes = n.leafPaths.map fun e => (e.1, e.2.route) := by
  induction n using induct with
  | h n ih =>
    have hkids : ∀ kids : List (UInt8 × Node), (∀ p, p ∈ kids → p ∈ n.kids) →
        DumpNode.routesKids (dumpKids kids) =
          (leafPathsKids kids).map fun e => (e.1, e.2.route) := by
      intro kids hsub
      induction kids with
      | nil => rfl
      | cons p kids ihk =>
        obtain ⟨k, c⟩ := p
        rw [dumpKids, DumpNode.routesKids, leafPathsKids, List.map_append,
          ihk fun p hp => hsub p (List.mem_cons_of_mem _ hp),
          ih (k, c) (hsub _ List.mem_cons_self), List.map_map, List.map_map]
        rfl
    rw [dumpNode_eq, DumpNode.routes, leafPaths_eq, hkids n.kids fun _ h => h, leaf,
      List.map_map]
    cases n.leafValue with
    | none => simp [Function.comp_def]
    | some b => simp [Function.comp_def, Leaf.route]

theorem mem_routes_dumpNode {n : Node} (hwf : n.WF) {r : List UInt8}
    {route : BackendId × RouteOrigin} :
    (r, route) ∈ n.dumpNode.routes ↔ ∃ l, n.stored r = some l ∧ l.route = route := by
  rw [routes_dumpNode, List.mem_map]
  constructor
  · rintro ⟨⟨r', l⟩, hmem, he⟩
    obtain ⟨rfl, rfl⟩ := Prod.mk.inj he
    exact ⟨l, (mem_leafPaths hwf).mp hmem, rfl⟩
  · rintro ⟨l, hl, rfl⟩
    exact ⟨(r, l), (mem_leafPaths hwf).mpr hl, rfl⟩

/-- A stored key runs through the node's path. -/
theorem pre_prefix_of_stored {n : Node} {key : List UInt8} {l : Leaf}
    (h : n.stored key = some l) : n.pre <+: key := by
  rw [stored_eq] at h
  by_contra hpre
  rw [strip_eq_none_iff.mpr hpre] at h
  cases h

theorem OffTree.cases {n : Node} {rest : List UInt8} (h : n.OffTree rest) :
    ∃ b r, rest = n.pre ++ b :: r ∧
      (n.kids.lookup b = none ∨ ∃ c, n.kids.lookup b = some c ∧ c.OffTree r) := by
  cases h with
  | here _ b r hnone => exact ⟨b, r, rfl, Or.inl hnone⟩
  | inChild _ b r c hchild hoff => exact ⟨b, r, rfl, Or.inr ⟨c, hchild, hoff⟩⟩

/-- The keys that go on into a child are stored there. -/
theorem stored_child {n c : Node} {b : UInt8} (hchild : n.kids.lookup b = some c)
    (rest : List UInt8) : n.stored (n.pre ++ b :: rest) = c.stored rest := by
  rw [stored_append, storedBelow, hchild]
  rfl

/-- Nothing is stored past the point where the filter leaves the tree. -/
theorem OffTree.stored {n : Node} {rest : List UInt8} (h : n.OffTree rest) {key : List UInt8}
    (hkey : rest <+: key) : n.stored key = none := by
  induction h generalizing key with
  | here n b rest hnone =>
    obtain ⟨r, rfl⟩ := hkey
    rw [List.append_assoc, stored_append, List.cons_append, storedBelow, hnone]
    rfl
  | inChild n b rest c hchild _ ih =>
    obtain ⟨r, rfl⟩ := hkey
    rw [List.append_assoc, List.cons_append, stored_child hchild]
    exact ih (List.prefix_append rest r)

/-- A filter that ends within the node's path does not leave the tree. -/
theorem not_offTree_of_prefix {n : Node} {rest : List UInt8} (h : rest <+: n.pre) :
    ¬ n.OffTree rest := by
  intro hoff
  obtain ⟨b, r, rfl, -⟩ := hoff.cases
  have hlen := h.length_le
  rw [List.length_append, List.length_cons] at hlen
  omega

/-- Neither does one that parts from the node's path. -/
theorem not_offTree_of_matchLen_lt {n : Node} {rest : List UInt8}
    (h : matchLen n.pre rest < n.pre.length) : ¬ n.OffTree rest := by
  intro hoff
  obtain ⟨b, r, rfl, -⟩ := hoff.cases
  have hstrip := strip_of_matchLen_lt h
  rw [strip_append] at hstrip
  cases hstrip

/-- Past a child, the filter leaves the tree where it leaves the child's. -/
theorem offTree_child_iff {n c : Node} {b : UInt8} (hchild : n.kids.lookup b = some c)
    {rest : List UInt8} : n.OffTree (n.pre ++ b :: rest) ↔ c.OffTree rest := by
  constructor
  · intro hoff
    obtain ⟨b', r, hrest, hcase⟩ := hoff.cases
    obtain ⟨rfl, rfl⟩ := List.cons.inj (List.append_cancel_left hrest)
    rw [hchild] at hcase
    rcases hcase with hnone | ⟨c', hc', hoff'⟩
    · cases hnone
    · cases hc'
      exact hoff'
  · exact OffTree.inChild n b rest c hchild

/-- The routes of `n` under `rest` are those of `m`, placed below `above`. -/
def HeldUnder (n : Node) (rest above : List UInt8) (m : Node) : Prop :=
  ∀ key l, (rest <+: key ∧ n.stored key = some l) ↔ ∃ r, key = above ++ r ∧ m.stored r = some l

/-- A filter that ends within the node's path holds the whole node under it. -/
theorem heldUnder_self {n : Node} {rest : List UInt8} (h : rest <+: n.pre) :
    n.HeldUnder rest [] n := by
  intro key l
  constructor
  · rintro ⟨-, hl⟩
    exact ⟨key, rfl, hl⟩
  · rintro ⟨r, rfl, hl⟩
    exact ⟨h.trans (pre_prefix_of_stored hl), hl⟩

theorem HeldUnder.child {n c m : Node} {b : UInt8} {rest above : List UInt8}
    (hchild : n.kids.lookup b = some c) (h : c.HeldUnder rest above m) :
    n.HeldUnder (n.pre ++ b :: rest) (n.pre ++ b :: above) m := by
  intro key l
  constructor
  · rintro ⟨⟨r, rfl⟩, hl⟩
    rw [List.append_assoc, List.cons_append, stored_child hchild] at hl
    obtain ⟨r', hr', hm⟩ := (h _ l).mp ⟨List.prefix_append rest r, hl⟩
    refine ⟨r', ?_, hm⟩
    rw [List.append_assoc, List.cons_append, hr', List.append_assoc, List.cons_append]
  · rintro ⟨r, rfl, hm⟩
    obtain ⟨hrest, hl⟩ := (h (above ++ r) l).mpr ⟨r, rfl, hm⟩
    rw [List.append_assoc, List.cons_append, stored_child hchild]
    exact ⟨(List.prefix_append_right_inj _).mpr (List.cons_prefix_cons.mpr ⟨rfl, hrest⟩), hl⟩

/-- A filter that the node's path does not fit ends within that path, or parts from it and
from all keys stored below. -/
theorem heldUnder_or_none {n : Node} {rest : List UInt8}
    (h : matchLen n.pre rest < n.pre.length) :
    n.HeldUnder rest [] n ∨ ∀ key, rest <+: key → n.stored key = none := by
  obtain ⟨q, p', k', hp, hk, hlen, hdiff⟩ := matchLen_split n.pre rest
  rcases p' with _ | ⟨a, p'⟩
  · rw [List.append_nil] at hp
    have hfull : n.pre.length = q.length := by rw [hp]
    omega
  rcases k' with _ | ⟨b, k'⟩
  · rw [List.append_nil] at hk
    exact Or.inl (heldUnder_self ⟨a :: p', by rw [hk, hp]⟩)
  · refine Or.inr fun key hkey => ?_
    rcases hl : n.stored key with _ | l
    · rfl
    · -- the key would have to go on with two different bytes
      have hpre := pre_prefix_of_stored hl
      rw [hp] at hpre
      rw [hk] at hkey
      obtain ⟨r, rfl⟩ := hkey
      rw [List.append_assoc, List.prefix_append_right_inj, List.cons_append,
        List.cons_prefix_cons] at hpre
      exact absurd hpre.1 (hdiff a b rfl rfl)

/-- **The descent** returns nothing exactly where the filter leaves the tree. A node it
returns holds the routes under the filter, or the filter parts from its path and there are
none. -/
theorem dumpWalk_ends {n : Node} (hwf : n.WF) (remaining : ℕ) (rest : List UInt8)
    (hstart : remaining = 0 → n.pre = []) :
    (n.dumpWalk remaining rest = none ∧ n.OffTree rest) ∨
      ∃ above m, above <+: rest ∧ m.WF ∧ n.dumpWalk remaining rest = some m.dumpNode ∧
        ¬ n.OffTree rest ∧
        (n.HeldUnder rest above m ∨ ∀ key, rest <+: key → n.stored key = none) := by
  fun_induction dumpWalk n remaining rest with
  | case1 n remaining =>
    exact Or.inr ⟨[], n, List.nil_prefix, hwf, rfl, not_offTree_of_prefix List.nil_prefix,
      Or.inl (heldUnder_self List.nil_prefix)⟩
  | case2 n remaining rest hne len hlt hsome =>
    exact Or.inr ⟨[], n, List.nil_prefix, hwf, rfl, not_offTree_of_matchLen_lt hlt,
      heldUnder_or_none hlt⟩
  | case3 n remaining rest hne len hlt hnone =>
    have hpos : remaining = 0 := by omega
    rw [hstart hpos] at hlt
    exact absurd hlt (Nat.not_lt_zero _)
  | case4 n remaining rest hne len hlt hrem =>
    have hkey := eq_append_of_matchLen hlt hrem
    rw [List.append_nil] at hkey
    have hpre : rest <+: n.pre := by rw [hkey]
    exact Or.inr ⟨[], n, List.nil_prefix, hwf, rfl, not_offTree_of_prefix hpre,
      Or.inl (heldUnder_self hpre)⟩
  | case5 n remaining rest hne len hlt b rest' hrem child hfind ih =>
    have hkey := eq_append_of_matchLen hlt hrem
    rw [findChild_eq_lookup hwf.shape] at hfind
    subst hkey
    rw [offTree_child_iff hfind]
    rcases ih (hwf.kids b child hfind) (by omega) with
      hnone | ⟨above, m, habove, hm, hdump, hoff, hheld⟩
    · exact Or.inl hnone
    · refine Or.inr ⟨n.pre ++ b :: above, m, ?_, hm, hdump, hoff, ?_⟩
      · exact (List.prefix_append_right_inj _).mpr (List.cons_prefix_cons.mpr ⟨rfl, habove⟩)
      · rcases hheld with hheld | hnone
        · exact Or.inl (hheld.child hfind)
        · refine Or.inr fun key hkey => ?_
          obtain ⟨r, rfl⟩ := hkey
          rw [List.append_assoc, List.cons_append, stored_child hfind]
          exact hnone _ (List.prefix_append rest' r)
  | case6 n remaining rest hne len hlt b rest' hrem hfind =>
    have hkey := eq_append_of_matchLen hlt hrem
    rw [findChild_eq_lookup hwf.shape] at hfind
    rw [hkey]
    exact Or.inl ⟨rfl, OffTree.here n b rest' hfind⟩

end Node

/-! ## The root has no path -/

/-- An insertion at a node without a path gives it none. -/
theorem insertRecursive_pre {n : Node} (hwf : n.WF) (hpre : n.pre = []) (req : InsertRequest)
    (key : List UInt8) (book : TreeBook) : (insertRecursive req n key book).node.pre = [] := by
  have hmatch : matchLen n.pre key = 0 := by
    rw [hpre, matchLen]
  rw [insertRecursive, hmatch, hpre]
  dsimp only [List.length_nil]
  rw [if_neg (Nat.not_lt_zero 0)]
  split
  · rw [(updateLeaf_spec req n book).pre, hpre]
  · split
    · rename_i hfind
      rw [Node.findChild_eq_lookup hwf.shape] at hfind
      have hmem := mem_keysOf_of_mem (mem_of_lookup hfind)
      exact (Node.setChild_spec hwf.shape hmem _).pre.trans hpre
    · rename_i hfind
      rw [Node.findChild_eq_lookup hwf.shape, lookup_eq_none_iff_keys] at hfind
      exact (Node.addChild_spec hfind _ _ hwf.shape).pre.trans hpre

namespace RadixTree

variable {t : RadixTree}

theorem insertWith_root_pre (hwf : t.root.WF) (hpre : t.root.pre = []) (now : ℕ)
    (tokens : List TokenId) (backend : BackendId) (origin : RouteOrigin) (trust : Option Bool) :
    (t.insertWith now tokens backend origin trust).1.root.pre = [] := by
  rw [insertWith]
  dsimp only
  split
  · exact hpre
  · exact insertRecursive_pre hwf hpre _ _ _

/-- A write through a pointer that keeps the path of every node. -/
theorem writeAt_root_pre (hpre : t.root.pre = []) (target : ℕ) {f : Node → Node}
    (hf : ∀ n, (f n).pre = n.pre) : (t.root.writeAt target f).pre = [] := by
  rw [Node.writeAt_eq]
  split
  · rw [hf]
    exact hpre
  · exact hpre

theorem step_root_pre (hwf : t.root.WF) (hpre : t.root.pre = []) (now : ℕ) (op : TreeOp) :
    (t.step now op).root.pre = [] := by
  have hevict : ∀ victim, (t.evictLeaf victim).root.pre = [] :=
    fun victim => writeAt_root_pre hpre victim.id fun _ => rfl
  have holdest : t.evictOldest.1.root.pre = [] := by
    rw [evictOldest]
    split
    · exact hpre
    · exact hevict _
  have hremove : ∀ p, (t.removeWhere p).1.root.pre = [] := by
    intro p
    obtain ⟨_, _, _, hkept⟩ := Node.removeIf_edited p t.root (t.book, 0)
    exact hkept.trans hpre
  cases op with
  | insert tokens backend origin => exact insertWith_root_pre hwf hpre now _ _ _ _
  | insertIfTrusted tokens backend origin converge =>
    exact insertWith_root_pre hwf hpre now _ _ _ _
  | lookup tokens =>
    rw [step, lookup]
    split
    · exact hpre
    · exact writeAt_root_pre hpre _ fun _ => rfl
  | evictOldest => exact holdest
  | evictLowestTrust =>
    rw [step, evictLowestTrust]
    split
    · exact hevict _
    · split
      · exact hevict _
      · exact holdest
  | removeExpired cutoff => exact hremove _
  | removeExpiredPerBackend cutoffFn => exact hremove _
  | removeRoutesByBackend backend origin => exact hremove _
  | compact =>
    have hwf' := (Node.compactChildren_spec t.root hwf ⟨0, 0, 0⟩ t.book).1
    rw [step, compact]
    dsimp only
    rw [(Node.shrinkIfNeeded_spec hwf'.shape _ _).pre, Node.compactChildren_pre hwf, hpre]

theorem Reached.root_pre (h : t.Reached) : t.root.pre = [] := by
  obtain ⟨blockAlignment, now₀, ops, rfl⟩ := h
  have hrun : ∀ (ops : List (ℕ × TreeOp)) (t : RadixTree), t.Reached → t.root.pre = [] →
      (t.run ops).root.pre = [] := by
    intro ops
    induction ops with
    | nil => exact fun t _ hpre => hpre
    | cons p ops ih =>
      intro t h hpre
      exact ih _ (h.step p.1 p.2) (step_root_pre h.kept.1 hpre p.1 p.2)
  exact hrun ops _ ⟨blockAlignment, now₀, [], rfl⟩ rfl

end RadixTree

/-- **A dump under a filter** holds exactly the routes under it if and only if there are
such routes or the filter leaves the tree at a node. Otherwise the descent has ended at a
node all the same, and the code dumps it: the filter parts from the node's path, or the
routes under it are gone. -/
theorem dumpWithPrefix_exact_iff (t : RadixTree) (h : t.Reached) (prefixFilter : List TokenId) :
    t.DumpsExactly (encodeTokensBe prefixFilter) (t.dumpWithPrefix prefixFilter) ↔
      (∃ key l, encodeTokensBe prefixFilter <+: key ∧ t.root.stored key = some l) ∨
        t.root.OffTree (encodeTokensBe prefixFilter) := by
  rw [RadixTree.dumpWithPrefix]
  rcases Node.dumpWalk_ends h.kept.1 0 (encodeTokensBe prefixFilter) fun _ => h.root_pre with
    ⟨hnone, hoff⟩ | ⟨above, m, habove, hm, hdump, hoff, hheld⟩
  · rw [hnone]
    refine iff_of_true (fun key l hkey hl => ?_) (Or.inr hoff)
    rw [hoff.stored hkey] at hl
    cases hl
  · rw [hdump]
    constructor
    · rintro ⟨hsome, -⟩
      exact Or.inl hsome
    · rintro (⟨key, l, hkey, hl⟩ | hoff')
      · refine ⟨⟨key, l, hkey, hl⟩, above, habove, fun key' route => ?_⟩
        rcases hheld with hheld | hnone
        · constructor
          · rintro ⟨hkey', l', hl', rfl⟩
            obtain ⟨r, rfl, hr⟩ := (hheld key' l').mp ⟨hkey', hl'⟩
            exact ⟨r, rfl, (Node.mem_routes_dumpNode hm).mpr ⟨l', hr, rfl⟩⟩
          · rintro ⟨r, rfl, hr⟩
            obtain ⟨l', hl', rfl⟩ := (Node.mem_routes_dumpNode hm).mp hr
            obtain ⟨hkey', hstored⟩ := (hheld (above ++ r) l').mpr ⟨r, rfl, hl'⟩
            exact ⟨hkey', l', hstored, rfl⟩
        · rw [hnone key hkey] at hl
          cases hl
      · exact absurd hoff' hoff

/-- A tree with one route, under the key `[7]`. -/
def singleRoute : RadixTree := (RadixTree.create ⟨1, Nat.one_pos⟩ 0).insert 0 [7] 1 .LOCAL

theorem singleRoute_reached : singleRoute.Reached :=
  ⟨⟨1, Nat.one_pos⟩, 0, [(0, .insert [7] 1 .LOCAL)], rfl⟩

theorem dumpWithPrefix_exact_singleRoute :
    singleRoute.DumpsExactly (encodeTokensBe [7]) (singleRoute.dumpWithPrefix [7]) := by
  have hstored : (singleRoute.root.stored (encodeTokensBe [7])).isSome = true := by decide +kernel
  obtain ⟨l, hl⟩ := Option.isSome_iff_exists.mp hstored
  exact (dumpWithPrefix_exact_iff singleRoute singleRoute_reached [7]).mpr
    (Or.inl ⟨_, l, List.prefix_rfl, hl⟩)

/-- **A filter that parts from a path**: no key starts with `8`, and the dump for it is the
node of `[7]`, whose path shares two bytes with the rest of the filter. -/
theorem unrelated_subtree_dumped :
    singleRoute.Reached ∧
      ¬ singleRoute.DumpsExactly (encodeTokensBe [8]) (singleRoute.dumpWithPrefix [8]) ∧
      (singleRoute.dumpWithPrefix [8]).map DumpNode.routes = some [([0, 0, 7], 1, .LOCAL)] ∧
      singleRoute.forEachLeaf.map (fun e => e.tokens) = [[7]] := by
  have hdumped : (singleRoute.dumpWithPrefix [8]).map DumpNode.routes =
        some [([0, 0, 7], 1, .LOCAL)] ∧
      singleRoute.forEachLeaf.map (fun e => e.tokens) = [[7]] ∧
      singleRoute.root.leafPaths.map Prod.fst = [[0, 0, 0, 7]] := by
    decide +kernel
  obtain ⟨hdump, hlist, hkeys⟩ := hdumped
  refine ⟨singleRoute_reached, fun hexact => ?_, hdump, hlist⟩
  obtain ⟨d, hd, -⟩ := Option.map_eq_some_iff.mp hdump
  rw [hd] at hexact
  obtain ⟨⟨key, l, hkey, hl⟩, -⟩ := hexact
  have hmem := (Node.mem_leafPaths singleRoute_reached.kept.1).mpr hl
  have hkey' : key ∈ singleRoute.root.leafPaths.map Prod.fst :=
    List.mem_map.mpr ⟨_, hmem, rfl⟩
  rw [hkeys, List.mem_singleton] at hkey'
  rw [hkey'] at hkey
  exact absurd hkey (by decide)

end Ranvier
