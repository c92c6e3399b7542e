import Ranvier.RadixTree
import Mathlib.Algebra.Order.Group.Multiset
import Mathlib.Data.Multiset.Filter
import Mathlib.Logic.Relation

/-!
# The cells of a radix tree

For the recency lists and the tallies the shape of the tree does not matter, only which
node objects there are and which of them hold a route. `Node.cells` is that view: the
multiset of the identities of the nodes, each with the route held there.

* `CellStep` — the few things the code does to cells and book: allocate a node, hand a
  route over to another node object, put, replace, touch or drop a route, free a node
  that holds none;
* insertion, removal and compaction are sequences of such steps, so an invariant of the
  book is proved once per kind of step and not once per operation.

A step is local: it names the cells it changes and leaves the others, the frame, alone.
The results for a subtree are therefore stated under an arbitrary frame `f`.
-/

namespace Ranvier

/-! ## The nodes of a tree -/

namespace Node

mutual

/-- The nodes of a subtree, the root first. -/
def nodes : Node → List Node
  | ⟨type, id, pre, leafValue, origin, keyTokens, lastAccessed, index, kids⟩ =>
    ⟨type, id, pre, leafValue, origin, keyTokens, lastAccessed, index, kids⟩ :: nodesKids kids

/-- The nodes below a node. -/
def nodesKids : List (UInt8 × Node) → List Node
  | [] => []
  | (_, c) :: kids => c.nodes ++ nodesKids kids

end

theorem nodes_eq (n : Node) : n.nodes = n :: nodesKids n.kids := by
  cases n
  rfl

theorem nodesKids_eq (kids : List (UInt8 × Node)) :
    nodesKids kids = kids.flatMap fun p => p.2.nodes := by
  induction kids with
  | nil => rfl
  | cons p kids ih =>
    obtain ⟨k, c⟩ := p
    rw [nodesKids, ih, List.flatMap_cons]

theorem mem_nodesKids {kids : List (UInt8 × Node)} {m : Node} :
    m ∈ nodesKids kids ↔ ∃ k c, (k, c) ∈ kids ∧ m ∈ c.nodes := by
  rw [nodesKids_eq, List.mem_flatMap]
  constructor
  · rintro ⟨⟨k, c⟩, hmem, hm⟩
    exact ⟨k, c, hmem, hm⟩
  · rintro ⟨k, c, hmem, hm⟩
    exact ⟨(k, c), hmem, hm⟩

theorem self_mem_nodes (n : Node) : n ∈ n.nodes := by
  rw [nodes_eq]
  exact List.mem_cons_self

theorem nodesKids_perm {kids kids' : List (UInt8 × Node)} (h : kids.Perm kids') :
    (nodesKids kids).Perm (nodesKids kids') := by
  rw [nodesKids_eq, nodesKids_eq]
  exact h.flatMap_right _

theorem fillSlots_perm {kids : List (UInt8 × Node)} (h : (keysOf kids).Nodup) :
    (fillSlots kids).Perm kids := by
  induction kids using List.reverseRecOn with
  | nil => exact List.Perm.refl _
  | append_singleton kids p ih =>
    obtain ⟨k, c⟩ := p
    rw [keysOf_append] at h
    obtain ⟨hkids, -, hdis⟩ := List.nodup_append.mp h
    have hk : k ∉ keysOf kids := fun hmem => hdis k hmem k (List.mem_singleton_self k) rfl
    have hfree : k ∉ keysOf (fillSlots kids) := by
      rw [← lookup_eq_none_iff_keys, (fillSlots_spec kids hkids).2, lookup_eq_none_iff_keys]
      exact hk
    have hfill : fillSlots (kids ++ [(k, c)]) = setSlot k c (fillSlots kids) := by
      rw [fillSlots, List.foldl_append]
      rfl
    rw [hfill]
    exact ((setSlot_perm hfree c).trans ((ih hkids).cons _)).trans
      (List.perm_append_singleton _ _).symm

/-! ## Cells -/

end Node

/-- A node object as the book sees it: its identity and the route it holds. -/
abbrev Cell : Type := ℕ × Option Node.Leaf

namespace Node

/-- The cell of a node. -/
def cell (n : Node) : Cell := (n.id, n.leaf)

/-- The cells of a subtree. -/
def cells (n : Node) : Multiset Cell := ↑(n.nodes.map cell)

/-- The cells below a node. -/
def cellsKids (kids : List (UInt8 × Node)) : Multiset Cell := ↑((nodesKids kids).map cell)

theorem cells_eq (n : Node) : n.cells = n.cell ::ₘ cellsKids n.kids := by
  rw [cells, nodes_eq]
  rfl

@[simp] theorem cellsKids_nil : cellsKids [] = 0 := rfl

theorem cellsKids_cons (k : UInt8) (c : Node) (kids : List (UInt8 × Node)) :
    cellsKids ((k, c) :: kids) = c.cells + cellsKids kids := by
  rw [cellsKids, nodesKids, List.map_append, cells, cellsKids, Multiset.coe_add]

theorem cellsKids_perm {kids kids' : List (UInt8 × Node)} (h : kids.Perm kids') :
    cellsKids kids = cellsKids kids' :=
  Multiset.coe_eq_coe.mpr ((nodesKids_perm h).map cell)

theorem cellsKids_append_one (kids : List (UInt8 × Node)) (k : UInt8) (c : Node) :
    cellsKids (kids ++ [(k, c)]) = c.cells + cellsKids kids := by
  rw [cellsKids_perm (List.perm_append_singleton (k, c) kids), cellsKids_cons]

theorem cellsKids_setSlot {kids : List (UInt8 × Node)} {k : UInt8} (hk : k ∉ keysOf kids)
    (c : Node) : cellsKids (setSlot k c kids) = c.cells + cellsKids kids := by
  rw [cellsKids_perm (setSlot_perm hk c), cellsKids_cons]

theorem cellsKids_lookup {kids : List (UInt8 × Node)} {k : UInt8} {c : Node}
    (hc : kids.lookup k = some c) : cellsKids kids = c.cells + cellsKids (eraseKey k kids) := by
  rw [cellsKids_perm (perm_cons_eraseKey hc), cellsKids_cons]

theorem cellsKids_setKey {kids : List (UInt8 × Node)} {k : UInt8} (hk : k ∈ keysOf kids)
    (c : Node) : cellsKids (setKey k c kids) = c.cells + cellsKids (eraseKey k kids) := by
  rw [cellsKids_perm (setKey_perm hk c), cellsKids_cons]

theorem cells_of_isNodeEmpty {n : Node} (h : n.isNodeEmpty = true) : n.cells = {(n.id, none)} := by
  rw [isNodeEmpty, Bool.and_eq_true, Option.isNone_iff_eq_none, beq_iff_eq, childCount,
    List.length_eq_zero_iff] at h
  rw [cells_eq, h.2, cell, leaf, h.1]
  rfl

/-- The identity count of a subtree, from its cells. -/
theorem idCount_eq_count (i : ℕ) (n : Node) : n.idCount i = (n.cells.map Prod.fst).count i := by
  induction n using induct with
  | h n ih =>
    have hkids : ∀ kids : List (UInt8 × Node), (∀ p, p ∈ kids → p ∈ n.kids) →
        weightOf (idCount i) kids = ((cellsKids kids).map Prod.fst).count i := by
      intro kids hsub
      induction kids with
      | nil => rfl
      | cons p kids ihk =>
        obtain ⟨k, c⟩ := p
        rw [weightOf, cellsKids_cons, Multiset.map_add, Multiset.count_add,
          ih (k, c) (hsub _ List.mem_cons_self), ihk fun p hp => hsub p (List.mem_cons_of_mem _ hp)]
    rw [idCount_eq, cells_eq, Multiset.map_cons, Multiset.count_cons, hkids n.kids fun _ h => h,
      Nat.add_comm]
    congr 1
    exact if_congr eq_comm rfl rfl

end Node

/-! ## Steps on cells -/

/-- What the book speaks about. -/
structure CellState : Type where
  /-- the node objects -/
  cells : Multiset Cell
  /-- the book -/
  book : TreeBook
  /-- `route_count_` -/
  count : ℕ

/-- The book after a new route: `note_route_added`, then `lru_push_front`. -/
def TreeBook.routePut (book : TreeBook) (i : ℕ) (l : Node.Leaf) : TreeBook :=
  let book := book.noteRouteAdded l.backend l.keyTokens
  { book with lru := book.lru.pushFront l.origin i }

/-- The book after the route `held` was overwritten by `l`. The tallies follow only a
change of the backend. -/
def TreeBook.routeReplaced (book : TreeBook) (i : ℕ) (held l : Node.Leaf) : TreeBook :=
  let book :=
    if some held.backend ≠ some l.backend then
      (book.noteRouteRemoved (some held.backend) held.keyTokens).noteRouteAdded
        l.backend l.keyTokens
    else book
  let book := { book with lru := book.lru.remove held.origin i }
  { book with lru := book.lru.pushFront l.origin i }

/-- The book after a route was dropped: `lru_remove`, then `note_route_removed`. -/
def TreeBook.routeDropped (book : TreeBook) (i : ℕ) (l : Node.Leaf) : TreeBook :=
  let book := { book with lru := book.lru.remove l.origin i }
  book.noteRouteRemoved (some l.backend) l.keyTokens

/-- What the code does to node objects while it rebuilds the tree: routes may change their
node, and none is added, changed or lost. -/
inductive MoveStep : CellState → CellState → Prop where
  /-- `make_node` -/
  | alloc (c : Multiset Cell) (book : TreeBook) (k : ℕ) :
      MoveStep ⟨c, book, k⟩
        ⟨(book.nextId, none) ::ₘ c, { book with nextId := book.nextId + 1 }, k⟩
  /-- a node that holds no route is freed -/
  | free (i : ℕ) (c : Multiset Cell) (book : TreeBook) (k : ℕ) :
      MoveStep ⟨(i, none) ::ₘ c, book, k⟩ ⟨c, book, k⟩
  /-- a route is handed over to another node object -/
  | handOver (i j : ℕ) (l : Node.Leaf) (c : Multiset Cell) (book : TreeBook) (k : ℕ) :
      MoveStep ⟨(i, some l) ::ₘ (j, none) ::ₘ c, book, k⟩
        ⟨(i, none) ::ₘ (j, some l) ::ₘ c, { book with lru := book.lru.splice l.origin i j }, k⟩

/-- A sequence of moves. -/
abbrev Moves : CellState → CellState → Prop := Relation.ReflTransGen MoveStep

/-- What the code does to node objects, routes and book, one thing at a time. `R` says
which route may be written to a node that holds none or another one. -/
inductive CellStep (R : Option Node.Leaf → Node.Leaf → Prop) : CellState → CellState → Prop where
  /-- the nodes are rearranged -/
  | move {s s' : CellState} (h : MoveStep s s') : CellStep R s s'
  /-- a route is put into a node that holds none -/
  | put (i : ℕ) (l : Node.Leaf) (c : Multiset Cell) (book : TreeBook) (k : ℕ)
      (hR : R none l) (hnow : l.lastAccessed = book.now) :
      CellStep R ⟨(i, none) ::ₘ c, book, k⟩ ⟨(i, some l) ::ₘ c, book.routePut i l, k + 1⟩
  /-- a route is overwritten -/
  | replace (i : ℕ) (held l : Node.Leaf) (c : Multiset Cell) (book : TreeBook) (k : ℕ)
      (hR : R (some held) l) (hnow : l.lastAccessed = book.now) :
      CellStep R ⟨(i, some held) ::ₘ c, book, k⟩
        ⟨(i, some l) ::ₘ c, book.routeReplaced i held l, k⟩
  /-- a route is used -/
  | touch (i : ℕ) (l : Node.Leaf) (c : Multiset Cell) (book : TreeBook) (k : ℕ) :
      CellStep R ⟨(i, some l) ::ₘ c, book, k⟩
        ⟨(i, some { l with lastAccessed := book.now }) ::ₘ c,
          { book with lru := book.lru.touch l.origin i }, k⟩
  /-- a route is dropped -/
  | drop (i : ℕ) (l : Node.Leaf) (c : Multiset Cell) (book : TreeBook) (k : ℕ) :
      CellStep R ⟨(i, some l) ::ₘ c, book, k⟩ ⟨(i, none) ::ₘ c, book.routeDropped i l, k - 1⟩

/-- A sequence of steps. -/
abbrev CellSteps (R : Option Node.Leaf → Node.Leaf → Prop) : CellState → CellState → Prop :=
  Relation.ReflTransGen (CellStep R)

section Simulation

variable {R : Option Node.Leaf → Node.Leaf → Prop} {n : Node} {book : TreeBook} {k : ℕ}

theorem Moves.of_cells_eq {c c' : Multiset Cell} (h : c = c') :
    Moves ⟨c, book, k⟩ ⟨c', book, k⟩ := by
  rw [h]

theorem Moves.cellSteps {s s' : CellState} (h : Moves s s') : CellSteps R s s' :=
  Relation.ReflTransGen.mono (fun _ _ => CellStep.move) s s' h

/-- An invariant of one step is one of a sequence. -/
theorem CellSteps.invariant {I : CellState → Prop}
    (hstep : ∀ s s', CellStep R s s' → I s → I s') {s s' : CellState} (h : CellSteps R s s')
    (hs : I s) : I s' := by
  induction h with
  | refl => exact hs
  | tail _ hlast ih => exact hstep _ _ hlast ih

/-- Steps leave the clock reading of the operation alone. -/
theorem CellStep.now_eq {s s' : CellState} (h : CellStep R s s') : s'.book.now = s.book.now := by
  cases h with
  | move h => cases h <;> rfl
  | put i l c book k =>
    rw [TreeBook.routePut]
    exact TreeBook.noteRouteAdded_now _ _ _
  | replace i held l c book k =>
    rw [TreeBook.routeReplaced]
    dsimp only
    split
    · rw [TreeBook.noteRouteAdded_now, TreeBook.noteRouteRemoved_now]
    · rfl
  | touch => rfl
  | drop i l c book k =>
    rw [TreeBook.routeDropped]
    exact TreeBook.noteRouteRemoved_now _ _ _

theorem CellSteps.now_eq {s s' : CellState} (h : CellSteps R s s') : s'.book.now = s.book.now :=
  h.invariant (I := fun t => t.book.now = s.book.now) (fun _ _ hstep ht => hstep.now_eq.trans ht)
    rfl

/-! ## Splits and growth -/

namespace Node

/-- **A replacement.** A fresh node takes over the place of `n`, which is freed. -/
theorem moves_transfer (n : Node) (type : NodeType) (book : TreeBook) (k : ℕ)
    (f : Multiset Cell) :
    Moves ⟨n.cell ::ₘ f, book, k⟩
      ⟨(book.nextId, n.leaf) ::ₘ f,
        (transferNodeMetadata (makeNode type book).1 n (makeNode type book).2).2, k⟩ := by
  refine Relation.ReflTransGen.head (MoveStep.alloc _ _ _) ?_
  rcases hleaf : n.leaf with _ | l
  · have hnone : n.leafValue = none := by
      rw [leaf, Option.map_eq_none_iff] at hleaf
      exact hleaf
    rw [cell, hleaf, Multiset.cons_swap, transferNodeMetadata, hnone]
    exact Relation.ReflTransGen.single (MoveStep.free _ _ _ _)
  · obtain ⟨b, hb, rfl⟩ := Option.map_eq_some_iff.mp hleaf
    rw [cell, hleaf, Multiset.cons_swap, transferNodeMetadata, hb]
    refine Relation.ReflTransGen.head (MoveStep.handOver _ _ _ _ _ _) ?_
    exact Relation.ReflTransGen.single (MoveStep.free _ _ _ _)

/-- The cells after a cut: the node keeps no route, the new child has it. -/
theorem cells_cutAt (h : n.Shape) (point : ℕ) (newChild : Node) (hkids : newChild.kids = [])
    (hidx : newChild.index = emptyIndex) (ht : newChild.type = typeForCapacity n.kids.length)
    (book : TreeBook) :
    (n.cutAt point newChild book).1.cells =
      (n.id, none) ::ₘ (newChild.id, n.leaf) ::ₘ cellsKids n.kids := by
  have hshape : Shape { n with leafValue := none } := ⟨h.nodup, h.fits, h.indexed, h.ordered⟩
  obtain ⟨-, mkids, -, mleaf⟩ :=
    moveChildrenToNewNode_spec hshape (n.cutChild point newChild) hkids hidx ht
  obtain ⟨-, mid, -⟩ := moveChildrenToNewNode_idCount { n with leafValue := none }
    (n.cutChild point newChild)
  obtain ⟨-, -, hleaf, hcut⟩ := cutAt_shell n point newChild book
  rw [cells_eq, hcut, cellsKids_cons, cellsKids_nil, add_zero, cells_eq, cell, cell, cutAt_id,
    hleaf, mid, mleaf, mkids]
  rfl

theorem moves_cutAt (h : n.Shape) (point : ℕ) {type : NodeType}
    (ht : type = typeForCapacity n.kids.length) (book : TreeBook) (k : ℕ) (f : Multiset Cell) :
    Moves ⟨n.cells + f, book, k⟩
      ⟨(n.cutAt point (makeNode type book).1 (makeNode type book).2).1.cells + f,
        (n.cutAt point (makeNode type book).1 (makeNode type book).2).2, k⟩ := by
  rw [cells_cutAt h point (makeNode type book).1 rfl rfl ht, cells_eq, Multiset.cons_add,
    Multiset.cons_add, Multiset.cons_add]
  refine Relation.ReflTransGen.head (MoveStep.alloc _ _ _) ?_
  rcases hleaf : n.leaf with _ | l
  · have hnone : n.leafValue = none := by
      rw [leaf, Option.map_eq_none_iff] at hleaf
      exact hleaf
    rw [cell, hleaf, cutAt, hnone]
    exact Moves.of_cells_eq (Multiset.cons_swap _ _ _)
  · obtain ⟨b, hb, rfl⟩ := Option.map_eq_some_iff.mp hleaf
    rw [cell, hleaf, Multiset.cons_swap, cutAt, hb]
    exact Relation.ReflTransGen.single (MoveStep.handOver _ _ _ _ _ _)

theorem moves_splitLongPrefix (h : n.WF) (hlen : n.kids.length ≤ 4) (book : TreeBook)
    (k : ℕ) (f : Multiset Cell) :
    Moves ⟨n.cells + f, book, k⟩
      ⟨(n.splitLongPrefix book).1.cells + f, (n.splitLongPrefix book).2, k⟩ := by
  fun_induction splitLongPrefix n book with
  | case1 n book hlong ih =>
    have htype : NodeType.Node4 = typeForCapacity n.kids.length := by
      rw [typeForCapacity, if_pos hlen]
    have hcut := cutAt_spec h hlong (makeNode .Node4 book).1 rfl rfl htype
      (makeNode .Node4 book).2
    have hone : (n.splitLongPrefixStep book).1.kids.length ≤ 4 := by
      rw [splitLongPrefixStep, (cutAt_shell _ _ _ _).2.2.2, List.length_singleton]
      decide
    exact (moves_cutAt h.shape maxPrefixLength htype book k f).trans (ih hcut.1 hone)
  | case2 n book hshort => exact Relation.ReflTransGen.refl

/-- A split at any point of the path keeps the shape of the tree and the map, also where it
loses the place it was made for. -/
theorem splitNode_keeps (h : n.WF) {point : ℕ} (hp : point < n.pre.length) (book : TreeBook) :
    (n.splitNode point book).1.WF ∧
      ∀ key, (n.splitNode point book).1.stored key = n.stored key := by
  obtain ⟨hcut, hstored⟩ := cutAt_spec h hp (makeNode (typeForCapacity n.childCount) book).1 rfl
    rfl rfl (makeNode (typeForCapacity n.childCount) book).2
  rw [← createNodeForCapacity_eq] at hcut hstored
  unfold splitNode
  dsimp only
  split
  · obtain ⟨hwf, hsame⟩ := splitLongPrefix_spec hcut
      (by rw [(cutAt_shell _ _ _ _).2.2.2, List.length_singleton]; decide)
      (n.cutAt point (createNodeForCapacity n.childCount book).1
        (createNodeForCapacity n.childCount book).2).2
    exact ⟨hwf, fun key => (hsame key).trans (hstored key)⟩
  · exact ⟨hcut, hstored⟩

theorem moves_splitNode (h : n.WF) {point : ℕ} (hp : point < n.pre.length) (book : TreeBook)
    (k : ℕ) (f : Multiset Cell) :
    Moves ⟨n.cells + f, book, k⟩
      ⟨(n.splitNode point book).1.cells + f, (n.splitNode point book).2, k⟩ := by
  have hwf := (cutAt_spec h hp (makeNode (typeForCapacity n.childCount) book).1 rfl rfl rfl
    (makeNode (typeForCapacity n.childCount) book).2).1
  have hcut : Moves ⟨n.cells + f, book, k⟩ _ := moves_cutAt h.shape point rfl book k f
  rw [← createNodeForCapacity_eq] at hwf
  rw [← childCount, ← createNodeForCapacity_eq] at hcut
  unfold splitNode
  dsimp only
  split
  · refine hcut.trans (moves_splitLongPrefix hwf ?_ _ k f)
    rw [(cutAt_shell _ _ _ _).2.2.2, List.length_singleton]
    decide
  · exact hcut

/-- The node at which an insertion goes on after its possible split. -/
theorem moves_split (h : n.WF) {point : ℕ} {s : Node × TreeBook}
    (hs : s = if point < n.pre.length then n.splitNode point book else (n, book)) (k : ℕ)
    (f : Multiset Cell) :
    s.1.WF ∧ Moves ⟨n.cells + f, book, k⟩ ⟨s.1.cells + f, s.2, k⟩ := by
  rw [hs]
  split
  · rename_i hp
    exact ⟨(splitNode_keeps h hp book).1, moves_splitNode h hp book k f⟩
  · exact ⟨h, Relation.ReflTransGen.refl⟩

theorem moves_addChild (h : n.Shape) {key : UInt8} (hk : key ∉ keysOf n.kids) (child : Node)
    (book : TreeBook) (k : ℕ) (f : Multiset Cell) :
    Moves ⟨n.cells + child.cells + f, book, k⟩
      ⟨(n.addChild key child book).1.cells + f, (n.addChild key child book).2, k⟩ := by
  have hroom : ∀ n' : Node, n'.cell = n.cell →
      cellsKids n'.kids = child.cells + cellsKids n.kids →
      Moves ⟨n.cells + child.cells + f, book, k⟩ ⟨n'.cells + f, book, k⟩ := by
    intro n' hcell hkids
    refine Moves.of_cells_eq ?_
    rw [cells_eq n', hcell, hkids, cells_eq n, Multiset.cons_add, add_comm child.cells]
  -- growth moves the route to a fresh node of the next kind
  have hgrow : ∀ (type : NodeType) (n' : Node), n'.cell = (book.nextId, n.leaf) →
      cellsKids n'.kids = child.cells + cellsKids n.kids →
      Moves ⟨n.cells + child.cells + f, book, k⟩ ⟨n'.cells + f,
        (transferNodeMetadata (makeNode type book).1 n (makeNode type book).2).2, k⟩ := by
    intro type n' hcell hkids
    have htransfer := moves_transfer n type book k
      (cellsKids n.kids + child.cells + f)
    rw [cells_eq n', hcell, hkids, cells_eq n, Multiset.cons_add, Multiset.cons_add,
      Multiset.cons_add, add_comm child.cells]
    exact htransfer
  have happend := cellsKids_append_one n.kids key child
  rcases ht : n.type with _ | _ | _ | _
  · simp only [addChild, ht]
    split
    · exact hroom _ rfl happend
    · exact hgrow _ _ rfl happend
  · simp only [addChild, ht]
    split
    · exact hroom _ rfl happend
    · exact hgrow _ _ rfl happend
  · simp only [addChild, ht]
    split
    · exact hroom _ rfl happend
    · refine hgrow .Node256 _ rfl ?_
      have hfill := fillSlots_perm h.nodup
      have hfree : key ∉ keysOf (fillSlots n.kids) := fun hmem => hk ((hfill.map _).subset hmem)
      change cellsKids (setSlot key child (fillSlots n.kids)) = _
      rw [cellsKids_setSlot hfree, cellsKids_perm hfill]
  · simp only [addChild, ht]
    exact hroom _ rfl (cellsKids_setSlot hk child)

end Node

/-! ## Insertion -/

/-- The route a request asks for. -/
def InsertRequest.leafAt (req : InsertRequest) (now : ℕ) : Node.Leaf :=
  ⟨req.backend, req.origin, req.keyTokens, now⟩

/-- Whether the trust policy of a request lets it overwrite the held route. -/
def InsertRequest.overwrites (req : InsertRequest) (held : Node.Leaf) : Bool :=
  match req.trust with
  | none => true
  | some converge =>
    if converge = true ∧ req.origin ≠ .PUSH ∧ held.backend ≠ req.backend ∧ held.origin ≠ .PUSH then
      req.backend < held.backend
    else !decide (held.origin.index < req.origin.index)

/-- The route held where the descent of an insertion ends, before the insertion. -/
def Node.heldAt (node : Node) (key : List UInt8) (book : TreeBook) : Option Node.Leaf :=
  let len := matchLen node.pre key
  let s := if len < node.pre.length then node.splitNode len book else (node, book)
  match _hrem : key.drop len with
  | [] => s.1.leaf
  | b :: rest =>
    match s.1.findChild b with
    | some child => child.heldAt rest s.2
    | none => none
termination_by key.length
decreasing_by
  have hlen := congrArg List.length _hrem
  rw [List.length_drop, List.length_cons] at hlen
  omega

theorem Node.heldAt_eq (n : Node) (key : List UInt8) (book : TreeBook) {s : Node × TreeBook}
    (hs : s = if matchLen n.pre key < n.pre.length then n.splitNode (matchLen n.pre key) book
      else (n, book)) :
    n.heldAt key book =
      match key.drop (matchLen n.pre key) with
      | [] => s.1.leaf
      | b :: rest => (s.1.findChild b).bind fun child => child.heldAt rest s.2 := by
  rw [Node.heldAt, ← hs]
  split
  · rename_i hrem
    rw [hrem]
  · rename_i b rest hrem
    rw [hrem]
    dsimp only
    cases s.1.findChild b <;> rfl

/-- What an insertion writes where its descent ends and `held` is held. -/
inductive InsertWrite (req : InsertRequest) :
    Option Node.Leaf → CellState → CellState → Prop where
  /-- a new route -/
  | put (i : ℕ) (c : Multiset Cell) (book : TreeBook) (k : ℕ) :
      InsertWrite req none ⟨(i, none) ::ₘ c, book, k⟩
        ⟨(i, some (req.leafAt book.now)) ::ₘ c, book.routePut i (req.leafAt book.now), k + 1⟩
  /-- the held route is overwritten -/
  | replace (i : ℕ) (held : Node.Leaf) (c : Multiset Cell) (book : TreeBook) (k : ℕ)
      (hover : req.overwrites held = true) :
      InsertWrite req (some held) ⟨(i, some held) ::ₘ c, book, k⟩
        ⟨(i, some (req.leafAt book.now)) ::ₘ c,
          book.routeReplaced i held (req.leafAt book.now), k⟩
  /-- the held route is of the same backend and more trusted: it is touched -/
  | touch (i : ℕ) (held : Node.Leaf) (c : Multiset Cell) (book : TreeBook) (k : ℕ)
      (hover : req.overwrites held = false) :
      InsertWrite req (some held) ⟨(i, some held) ::ₘ c, book, k⟩
        ⟨(i, some { held with lastAccessed := book.now }) ::ₘ c,
          { book with lru := book.lru.touch held.origin i }, k⟩
  /-- the held route stands -/
  | refuse (held : Node.Leaf) (s : CellState) (hover : req.overwrites held = false) :
      InsertWrite req (some held) s s

theorem InsertWrite.cellSteps {req : InsertRequest} {held : Option Node.Leaf} {s s' : CellState}
    (h : InsertWrite req held s s')
    (hR : (∀ l, held = some l → req.overwrites l = true) → R held (req.leafAt s.book.now)) :
    CellSteps R s s' := by
  cases h with
  | put i c book k =>
    have hnew := hR fun l hl => by cases hl
    exact Relation.ReflTransGen.single (CellStep.put i _ c book k hnew rfl)
  | replace i held c book k hover =>
    have hold := hR fun l hl => Option.some.inj hl ▸ hover
    exact Relation.ReflTransGen.single (CellStep.replace i held _ c book k hold rfl)
  | touch i held c book k hover =>
    exact Relation.ReflTransGen.single (CellStep.touch i held c book k)
  | refuse held s hover => exact Relation.ReflTransGen.refl

/-- What the exact-match branch can do. -/
theorem updateLeaf_cases (req : InsertRequest) (n : Node) (book : TreeBook) :
    updateLeaf req n book = overwriteLeaf req n book ∧
        (∀ held, n.leaf = some held → req.overwrites held = true) ∨
      ∃ held, n.leaf = some held ∧ req.overwrites held = false ∧
        (updateLeaf req n book = ⟨n, false, .REFUSED, book⟩ ∨
          updateLeaf req n book =
            ⟨{ n with lastAccessed := book.now }, false, .TOUCHED_SAME,
              { book with lru := book.lru.touch n.origin n.id }⟩) := by
  rcases hv : n.leafValue with _ | b
  · refine Or.inl ⟨updateLeaf_of_none req book hv, fun held hheld => ?_⟩
    rw [Node.leaf, hv] at hheld
    cases hheld
  have hleaf : n.leaf = some ⟨b, n.origin, n.keyTokens, n.lastAccessed⟩ := by
    rw [Node.leaf, hv]
    rfl
  -- the branches of the policy, each with what `overwrites` says there
  have hheld : req.overwrites ⟨b, n.origin, n.keyTokens, n.lastAccessed⟩ = true →
      ∀ held, n.leaf = some held → req.overwrites held = true := by
    intro hover held hheld
    rw [hleaf] at hheld
    rw [← Option.some.inj hheld]
    exact hover
  rcases ht : req.trust with _ | converge
  · have hupd : updateLeaf req n book = overwriteLeaf req n book := by
      simp only [updateLeaf, ht]
    have hover : req.overwrites ⟨b, n.origin, n.keyTokens, n.lastAccessed⟩ = true := by
      simp only [InsertRequest.overwrites, ht]
    exact Or.inl ⟨hupd, hheld hover⟩
  · by_cases hconv : converge = true ∧ req.origin ≠ .PUSH ∧ b ≠ req.backend ∧ n.origin ≠ .PUSH
    · have hover : req.overwrites ⟨b, n.origin, n.keyTokens, n.lastAccessed⟩ =
          decide (req.backend < b) := by
        simp only [InsertRequest.overwrites, ht, if_pos hconv]
      by_cases hlower : req.backend < b
      · have hupd : updateLeaf req n book = overwriteLeaf req n book := by
          simp only [updateLeaf, ht, hv, if_pos hconv, if_pos hlower]
        exact Or.inl ⟨hupd, hheld (by rw [hover, decide_eq_true hlower])⟩
      · refine Or.inr ⟨_, hleaf, by rw [hover, decide_eq_false hlower], Or.inl ?_⟩
        simp only [updateLeaf, ht, hv, if_pos hconv, if_neg hlower]
    · have hover : req.overwrites ⟨b, n.origin, n.keyTokens, n.lastAccessed⟩ =
          !decide (n.origin.index < req.origin.index) := by
        simp only [InsertRequest.overwrites, ht, if_neg hconv]
      by_cases htrust : n.origin.index < req.origin.index
      · refine Or.inr ⟨_, hleaf, by rw [hover, decide_eq_true htrust]; rfl, ?_⟩
        simp only [updateLeaf, ht, hv, if_neg hconv, if_pos htrust]
        split
        · exact Or.inr rfl
        · exact Or.inl rfl
      · have hupd : updateLeaf req n book = overwriteLeaf req n book := by
          simp only [updateLeaf, ht, hv, if_neg hconv, if_neg htrust]
        exact Or.inl ⟨hupd, hheld (by rw [hover, decide_eq_false htrust]; rfl)⟩

theorem overwriteLeaf_writes (req : InsertRequest) (n : Node) (book : TreeBook) (k : ℕ)
    (f : Multiset Cell) (hover : ∀ held, n.leaf = some held → req.overwrites held = true) :
    InsertWrite req n.leaf ⟨n.cells + f, book, k⟩
      ⟨(overwriteLeaf req n book).node.cells + f, (overwriteLeaf req n book).book,
        if (overwriteLeaf req n book).isNewRoute then k + 1 else k⟩ := by
  have hcell : (overwriteLeaf req n book).node.cell = (n.id, some (req.leafAt book.now)) :=
    congrArg (n.id, ·) (overwriteLeaf_spec req n book).leaf
  have hkids := (overwriteLeaf_spec req n book).kids
  rw [Node.cells_eq, Node.cells_eq, hcell, hkids, Node.cell, Multiset.cons_add,
    Multiset.cons_add]
  rcases hleaf : n.leaf with _ | held
  · have hnone : n.leafValue = none := by
      rw [Node.leaf, Option.map_eq_none_iff] at hleaf
      exact hleaf
    simp only [overwriteLeaf, hnone, Option.isNone_none, if_true]
    exact InsertWrite.put n.id _ book k
  · have hheld := hover held hleaf
    obtain ⟨b, hb, rfl⟩ := Option.map_eq_some_iff.mp hleaf
    simp only [overwriteLeaf, hb, Option.isNone_some, Bool.false_eq_true, if_false]
    exact InsertWrite.replace n.id _ _ book k hheld

theorem updateLeaf_writes (req : InsertRequest) (n : Node) (book : TreeBook) (k : ℕ)
    (f : Multiset Cell) :
    InsertWrite req n.leaf ⟨n.cells + f, book, k⟩
      ⟨(updateLeaf req n book).node.cells + f, (updateLeaf req n book).book,
        if (updateLeaf req n book).isNewRoute then k + 1 else k⟩ := by
  rcases updateLeaf_cases req n book with ⟨heq, hover⟩ | ⟨held, hl, hover, heq | heq⟩
  · rw [heq]
    exact overwriteLeaf_writes req n book k f hover
  · rw [heq, hl]
    exact InsertWrite.refuse held _ hover
  · obtain ⟨b, hb, rfl⟩ := Option.map_eq_some_iff.mp hl
    rw [heq, hl]
    dsimp only
    rw [Node.cells_eq, Node.cells_eq, Node.cell, hl, Multiset.cons_add, Multiset.cons_add,
      Node.cell, Node.leaf, hb]
    exact InsertWrite.touch n.id _ _ book k hover

/-- From `s` to `s'` by moves, one write for the request, and moves again. -/
def InsertSteps (req : InsertRequest) (held : Option Node.Leaf) (s s' : CellState) : Prop :=
  ∃ s₁ s₂, Moves s s₁ ∧ InsertWrite req held s₁ s₂ ∧ Moves s₂ s'

/-- **An insertion** moves nodes and makes one write, where its descent ends. -/
theorem insertRecursive_writes (req : InsertRequest) (n : Node) (key : List UInt8)
    (book : TreeBook) (hwf : n.WF) (k : ℕ) (f : Multiset Cell) :
    (insertRecursive req n key book).node.WF ∧
      InsertSteps req (n.heldAt key book) ⟨n.cells + f, book, k⟩
        ⟨(insertRecursive req n key book).node.cells + f, (insertRecursive req n key book).book,
          if (insertRecursive req n key book).isNewRoute then k + 1 else k⟩ := by
  fun_induction insertRecursive req n key book generalizing f with
  | case1 n key book len s hrem =>
    -- the key ends at the node
    obtain ⟨hs, hsplit⟩ := Node.moves_split hwf (s := s) rfl k f
    have hheld := n.heldAt_eq key book (s := s) rfl
    rw [show key.drop (matchLen n.pre key) = [] from hrem] at hheld
    rw [hheld]
    exact ⟨(updateLeaf_spec req s.1 s.2).wf hs, _, _, hsplit, updateLeaf_writes req s.1 s.2 k f,
      Relation.ReflTransGen.refl⟩
  | case2 n key book len s b rest hrem child hfind r ih =>
    -- the key goes on below a child: the other children are part of its frame
    obtain ⟨hs, hsplit⟩ := Node.moves_split hwf (s := s) rfl k f
    have hheld := n.heldAt_eq key book (s := s) rfl
    rw [show key.drop (matchLen n.pre key) = b :: rest from hrem] at hheld
    dsimp only at hheld
    rw [hfind, Option.bind_some] at hheld
    rw [hheld]
    rw [Node.findChild_eq_lookup hs.shape] at hfind
    have hmem : b ∈ keysOf s.1.kids := lookup_isSome_iff.mp (by rw [hfind]; rfl)
    obtain ⟨hr, s₁, s₂, hbefore, hwrite, hafter⟩ := ih (hs.kids b child hfind)
      (s.1.cell ::ₘ (Node.cellsKids (eraseKey b s.1.kids) + f))
    refine ⟨hs.withChild (Node.setChild_spec hs.shape hmem r.node) hr, s₁, s₂, ?_, hwrite, ?_⟩
    · refine hsplit.trans ?_
      rw [Node.cells_eq, Node.cellsKids_lookup hfind, Multiset.cons_add, add_assoc,
        ← Multiset.add_cons]
      exact hbefore
    · rw [Node.setChild_eq hs.shape hmem, Node.cells_eq]
      dsimp only
      rw [Node.cellsKids_setKey hmem, Multiset.cons_add, add_assoc, ← Multiset.add_cons]
      exact hafter
  | case3 n key book len s b rest hrem hfind c₀ c p =>
    -- a new leaf, cut if its path is too long, below a node that may grow for it
    obtain ⟨hs, hsplit⟩ := Node.moves_split hwf (s := s) rfl k f
    have hheld := n.heldAt_eq key book (s := s) rfl
    rw [show key.drop (matchLen n.pre key) = b :: rest from hrem] at hheld
    dsimp only at hheld
    rw [hfind, Option.bind_none] at hheld
    rw [hheld]
    rw [Node.findChild_eq_lookup hs.shape] at hfind
    obtain ⟨hleafwf, hleafkids, -⟩ := newLeaf_spec req rest s.2
    have hk := lookup_eq_none_iff_keys.mp hfind
    have hc := (freshLeaf_spec req rest s.2 (c := c) rfl).1
    have hbound : Moves ⟨c₀.1.cells + (s.1.cells + f), c₀.2, k + 1⟩
        ⟨c.1.cells + (s.1.cells + f), c.2, k + 1⟩ := by
      by_cases hlong : maxPrefixLength < c₀.1.pre.length
      · rw [show c = c₀.1.splitLongPrefix c₀.2 from if_pos hlong]
        have hkids : c₀.1.kids.length ≤ 4 := by
          rw [show c₀.1.kids = [] from hleafkids]
          decide
        exact Node.moves_splitLongPrefix hleafwf hkids c₀.2 (k + 1) (s.1.cells + f)
      · rw [show c = c₀ from if_neg hlong]
    have hadd := Node.moves_addChild hs.shape hk c.1 c.2 (k + 1) f
    refine ⟨hs.withChild (Node.addChild_spec hk c.1 c.2 hs.shape) hc, _, _,
      hsplit.tail (MoveStep.alloc _ _ _), InsertWrite.put s.2.nextId _ _ k, hbound.trans ?_⟩
    rw [← add_assoc, add_comm c.1.cells]
    exact hadd

theorem InsertSteps.cellSteps {req : InsertRequest} {held : Option Node.Leaf} {s s' : CellState}
    (h : InsertSteps req held s s')
    (hR : (∀ l, held = some l → req.overwrites l = true) → R held (req.leafAt s.book.now)) :
    CellSteps R s s' := by
  obtain ⟨s₁, s₂, hbefore, hwrite, hafter⟩ := h
  have hnow : s₁.book.now = s.book.now := CellSteps.now_eq (R := R) hbefore.cellSteps
  rw [← hnow] at hR
  exact (hbefore.cellSteps.trans (hwrite.cellSteps hR)).trans hafter.cellSteps

/-! ## Removal and compaction -/

namespace Node

/-- **A removal** drops one route after the other, counting. -/
theorem cellSteps_removeIf (p : Leaf → Bool) (n : Node) (st : TreeBook × ℕ) (k : ℕ)
    (f : Multiset Cell) :
    CellSteps R ⟨n.cells + f, st.1, k - st.2⟩
      ⟨(removeIf p n st).1.cells + f, (removeIf p n st).2.1, k - (removeIf p n st).2.2⟩ := by
  induction n using induct generalizing st f with
  | h n ih =>
    obtain ⟨type, id, pre, leafValue, origin, keyTokens, lastAccessed, index, kids⟩ := n
    have hkids : ∀ st f, CellSteps R ⟨cellsKids kids + f, st.1, k - st.2⟩
        ⟨cellsKids (removeIfKids p kids st).1 + f, (removeIfKids p kids st).2.1,
          k - (removeIfKids p kids st).2.2⟩ := by
      dsimp only at ih
      induction kids with
      | nil => exact fun st f => Relation.ReflTransGen.refl
      | cons q kids ihk =>
        intro st f
        obtain ⟨b, c⟩ := q
        have hc := ih (b, c) List.mem_cons_self st (cellsKids kids + f)
        have hrest := ihk (fun q hq => ih q (List.mem_cons_of_mem _ hq)) (removeIf p c st).2
          ((removeIf p c st).1.cells + f)
        rw [removeIfKids, cellsKids_cons, cellsKids_cons, add_assoc]
        refine hc.trans ?_
        rw [← add_assoc, add_comm _ (cellsKids kids), add_assoc,
          add_comm (removeIf p c st).1.cells (cellsKids _), add_assoc]
        exact hrest
    obtain ⟨book, removed⟩ := st
    rw [cells_eq, cells_eq, Multiset.cons_add, Multiset.cons_add, ← Multiset.add_cons,
      ← Multiset.add_cons]
    rcases leafValue with _ | b
    · rw [removeIf]
      exact hkids (book, removed) _
    · rw [removeIf]
      split
      · refine Relation.ReflTransGen.head ?_ (hkids _ _)
        rw [Multiset.add_cons, Multiset.add_cons]
        exact CellStep.drop id ⟨b, origin, keyTokens, lastAccessed⟩ _ book (k - removed)
      · exact hkids (book, removed) _

theorem moves_shrinkIfNeeded (h : n.Shape) (stats : CompactionStats) (book : TreeBook)
    (k : ℕ) (f : Multiset Cell) :
    Moves ⟨n.cells + f, book, k⟩
      ⟨(n.shrinkIfNeeded stats book).1.cells + f, (n.shrinkIfNeeded stats book).2.2, k⟩ := by
  rcases shrinkIfNeeded_cases n stats book with ⟨hsame, hbook⟩ | ⟨type, hid, hbook⟩
  · rw [hsame, hbook]
  · have hre := shrinkIfNeeded_spec h stats book
    rw [hbook, cells_eq, cells_eq, hre.kids, cell, cell, hid, hre.leaf, Multiset.cons_add,
      Multiset.cons_add]
    exact moves_transfer n type book k (cellsKids n.kids + f)

theorem moves_removeKeys (h : n.Shape) (stats : CompactionStats) {keys : List UInt8}
    (hnodup : keys.Nodup)
    (hempty : ∀ b, b ∈ keys → ∃ c, n.kids.lookup b = some c ∧ c.isNodeEmpty = true)
    (book : TreeBook) (k : ℕ) (f : Multiset Cell) :
    Moves ⟨n.cells + f, book, k⟩ ⟨(removeKeys n stats keys).1.cells + f, book, k⟩ := by
  induction keys generalizing n stats with
  | nil => exact Relation.ReflTransGen.refl
  | cons key keys ih =>
    rw [List.nodup_cons] at hnodup
    obtain ⟨c, hc, hcempty⟩ := hempty key List.mem_cons_self
    obtain ⟨hshape, -, hleaf, hkids⟩ := removeChild_spec h
      (lookup_isSome_iff.mp (by rw [hc]; rfl) : key ∈ keysOf n.kids)
    have hrest : ∀ b, b ∈ keys →
        ∃ c, (n.removeChild key).1.kids.lookup b = some c ∧ c.isNodeEmpty = true := by
      intro b hb
      have hne : b ≠ key := by
        rintro rfl
        exact hnodup.1 hb
      rw [hkids, lookup_eraseKey h.nodup, if_neg hne]
      exact hempty b (List.mem_cons_of_mem _ hb)
    rw [removeKeys]
    refine Relation.ReflTransGen.head ?_ (ih hshape _ hnodup.2 hrest)
    -- the removed child is one cell without a route
    have hcells : n.cells + f = (c.id, none) ::ₘ ((n.removeChild key).1.cells + f) := by
      rw [cells_eq, cells_eq, cellsKids_lookup hc, cells_of_isNodeEmpty hcempty, cell, cell,
        removeChild_id, hleaf, hkids, Multiset.singleton_add, Multiset.cons_swap,
        Multiset.cons_add]
    rw [hcells]
    exact MoveStep.free _ _ _ _

/-- **Compaction** moves routes to smaller nodes and frees nodes without routes. -/
theorem moves_compactChildren (n : Node) (hwf : n.WF) (stats : CompactionStats)
    (book : TreeBook) (k : ℕ) (f : Multiset Cell) :
    Moves ⟨n.cells + f, book, k⟩
      ⟨(compactChildren n stats book).1.cells + f, (compactChildren n stats book).2.2, k⟩ := by
  induction n using induct generalizing stats book f with
  | h n ih =>
    have hkids : ∀ kids : List (UInt8 × Node), (∀ p, p ∈ kids → p ∈ n.kids) →
        ∀ stats book f, Moves ⟨cellsKids kids + f, book, k⟩
          ⟨cellsKids (compactKids kids stats book).1 + f, (compactKids kids stats book).2.2.2,
            k⟩ := by
      intro kids hsub
      induction kids with
      | nil => exact fun stats book f => Relation.ReflTransGen.refl
      | cons p kids ihk =>
        intro stats book f
        obtain ⟨b, c⟩ := p
        have hmem : (b, c) ∈ n.kids := hsub _ List.mem_cons_self
        have hcwf := hwf.kids b c (lookup_of_mem hwf.shape.nodup hmem)
        have hc := (ih (b, c) hmem hcwf stats book (cellsKids kids + f)).trans
          (moves_shrinkIfNeeded (compactChildren_spec c hcwf stats book).1.shape
            (compactChildren c stats book).2.1 _ k (cellsKids kids + f))
        rw [compactKids, cellsKids_cons, cellsKids_cons, add_assoc]
        generalize (compactChildren c stats book).1.shrinkIfNeeded
          (compactChildren c stats book).2.1 (compactChildren c stats book).2.2 = r at hc
        refine hc.trans ?_
        have hrest := ihk (fun p hp => hsub p (List.mem_cons_of_mem _ hp)) r.2.1 r.2.2
          (r.1.cells + f)
        rw [← add_assoc, add_comm _ (cellsKids kids), add_assoc, add_comm r.1.cells (cellsKids _),
          add_assoc]
        exact hrest
    obtain ⟨hsub, hempty⟩ := compactKids_removed n.kids hwf.shape.nodup stats book
    have hshape : Shape { n with kids := (compactKids n.kids stats book).1 } :=
      hwf.shape.of_keysOf_eq (keysOf_compactKids n.kids stats book)
    rw [compactChildren_eq, compactChildren_book]
    refine Relation.ReflTransGen.trans ?_ (moves_removeKeys hshape
      (compactKids n.kids stats book).2.2.1 (hwf.shape.nodup.sublist hsub) hempty _ k f)
    rw [cells_eq, cells_eq, Multiset.cons_add, Multiset.cons_add, ← Multiset.add_cons,
      ← Multiset.add_cons]
    exact hkids n.kids (fun _ h => h) stats book (n.cell ::ₘ f)

end Node

end Simulation

end Ranvier
