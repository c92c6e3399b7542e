import Ranvier.RadixCells

/-!
# Pointers into the radix tree

The lists and `evict_*` reach nodes by pointer, a lookup by its walk. Where no identity
occurs twice, a pointer finds its node (`Node.findNode_of_mem`) and a write through it
changes one cell (`Node.cells_writeAt`). With that every operation of the tree, the
evictions and lookups included, is a sequence of steps on the cells (`step_cells`),
provided the tails of the recency lists point at leaves (`Pointed`).
-/

namespace Ranvier

section Simulation

variable {R : Option Node.Leaf → Node.Leaf → Prop} {n : Node}

namespace Node

/-! ## Pointers into the tree -/

theorem mem_cells {m : Node} (hm : m ∈ n.nodes) : m.cell ∈ n.cells :=
  Multiset.mem_coe.mpr (List.mem_map_of_mem hm)

theorem exists_node_of_mem_cells {x : Cell} (hx : x ∈ n.cells) : ∃ m ∈ n.nodes, m.cell = x :=
  List.mem_map.mp (Multiset.mem_coe.mp hx)

theorem idCount_pos {m : Node} (hm : m ∈ n.nodes) : 0 < n.idCount m.id := by
  rw [idCount_eq_count, Multiset.count_pos]
  exact Multiset.mem_map_of_mem Prod.fst (mem_cells hm)

theorem idCount_le_one (h : (n.cells.map Prod.fst).Nodup) (i : ℕ) : n.idCount i ≤ 1 := by
  rw [idCount_eq_count]
  exact Multiset.nodup_iff_count_le_one.mp h i

/-- Where identities are distinct, an identity determines its node. -/
theorem node_unique (h : (n.cells.map Prod.fst).Nodup) {m m' : Node} (hm : m ∈ n.nodes)
    (hm' : m' ∈ n.nodes) (hid : m.id = m'.id) : m = m' := by
  have hids : (n.nodes.map Node.id).Nodup := by
    rw [cells, Multiset.map_coe, Multiset.coe_nodup, List.map_map] at h
    exact h
  exact List.inj_on_of_nodup_map hids hm hm' hid

theorem writeAtKids_append (target : ℕ) (f : Node → Node) (l r : List (UInt8 × Node)) :
    writeAtKids target f (l ++ r) = writeAtKids target f l ++ writeAtKids target f r := by
  induction l with
  | nil => rfl
  | cons p l ih =>
    obtain ⟨k, c⟩ := p
    rw [List.cons_append, writeAtKids, ih, writeAtKids, List.cons_append]

/-- **A write through a pointer** changes one cell. -/
theorem cells_writeAt {m : Node} (hm : m ∈ n.nodes) (hone : n.idCount m.id ≤ 1)
    {f : Node → Node} (hf : ∀ x, (f x).kids = x.kids) :
    ∃ c, n.cells = m.cell ::ₘ c ∧ (writeAt m.id f n).cells = (f m).cell ::ₘ c := by
  induction n using induct with
  | h n ih =>
    rw [nodes_eq, List.mem_cons] at hm
    rw [idCount_eq] at hone
    rw [writeAt_eq]
    rcases hm with rfl | hm
    · -- the node itself: its children do not contain the identity again
      rw [if_pos rfl] at hone ⊢
      rw [writeAtKids_of_weightOf_zero (by omega) f, mk_eta]
      refine ⟨cellsKids m.kids, cells_eq m, ?_⟩
      rw [cells_eq, hf]
    · obtain ⟨b, c, hmem, hmc⟩ := mem_nodesKids.mp hm
      have hpos := idCount_pos hmc
      obtain ⟨l, r, hkids⟩ := List.append_of_mem hmem
      rw [hkids, weightOf_append, weightOf] at hone
      have hid : n.id ≠ m.id := by
        intro he
        rw [if_pos he] at hone
        omega
      obtain ⟨rest, hcells, hwrite⟩ := ih (b, c) hmem hmc (by dsimp only; omega)
      have hsame : ∀ c' : Node, cellsKids (l ++ (b, c') :: r) = c'.cells + cellsKids (l ++ r) := by
        intro c'
        rw [cellsKids_perm List.perm_middle, cellsKids_cons]
      rw [if_neg hid, hkids, writeAtKids_append, writeAtKids,
        writeAtKids_of_weightOf_zero (by omega) f, writeAtKids_of_weightOf_zero (by omega) f]
      refine ⟨n.cell ::ₘ (rest + cellsKids (l ++ r)), ?_, ?_⟩
      · rw [cells_eq, hkids, hsame, hcells, Multiset.cons_add, Multiset.cons_swap]
      · rw [cells_eq]
        dsimp only
        rw [hsame, hwrite, Multiset.cons_add, Multiset.cons_swap]
        rfl

theorem findNode_eq (target : ℕ) (n : Node) :
    n.findNode target = if n.id = target then some n else findNodeKids target n.kids := by
  cases n
  rfl

/-- What `findNode` finds is a node with that identity, and it finds one if there is one. -/
theorem findNode_spec (target : ℕ) (n : Node) :
    (∃ m ∈ n.nodes, n.findNode target = some m ∧ m.id = target) ∨
      n.findNode target = none ∧ ∀ m ∈ n.nodes, m.id ≠ target := by
  induction n using induct with
  | h n ih =>
    have hkids : ∀ kids : List (UInt8 × Node), (∀ p, p ∈ kids → p ∈ n.kids) →
        (∃ m ∈ nodesKids kids, findNodeKids target kids = some m ∧ m.id = target) ∨
          findNodeKids target kids = none ∧ ∀ m ∈ nodesKids kids, m.id ≠ target := by
      intro kids hsub
      induction kids with
      | nil => exact Or.inr ⟨rfl, fun m hm => absurd hm List.not_mem_nil⟩
      | cons p kids ihk =>
        obtain ⟨k, c⟩ := p
        rw [findNodeKids, nodesKids]
        rcases ih (k, c) (hsub _ List.mem_cons_self) with ⟨m, hm, hfind, hid⟩ | ⟨hfind, hno⟩
        · rw [hfind]
          exact Or.inl ⟨m, List.mem_append_left _ hm, rfl, hid⟩
        · rw [hfind]
          rcases ihk fun p hp => hsub p (List.mem_cons_of_mem _ hp) with
            ⟨m, hm, hrest, hid⟩ | ⟨hrest, hno'⟩
          · exact Or.inl ⟨m, List.mem_append_right _ hm, hrest, hid⟩
          · refine Or.inr ⟨hrest, fun m hm => ?_⟩
            rcases List.mem_append.mp hm with hm | hm
            · exact hno m hm
            · exact hno' m hm
    rw [findNode_eq, nodes_eq]
    by_cases hid : n.id = target
    · rw [if_pos hid]
      exact Or.inl ⟨n, List.mem_cons_self, rfl, hid⟩
    · rw [if_neg hid]
      rcases hkids n.kids fun _ h => h with ⟨m, hm, hfind, hm'⟩ | ⟨hfind, hno⟩
      · exact Or.inl ⟨m, List.mem_cons_of_mem _ hm, hfind, hm'⟩
      · refine Or.inr ⟨hfind, fun m hm => ?_⟩
        rcases List.mem_cons.mp hm with rfl | hm
        · exact hid
        · exact hno m hm

/-- An identity in the tree points at its node. -/
theorem findNode_of_mem (h : (n.cells.map Prod.fst).Nodup) {m : Node} (hm : m ∈ n.nodes) :
    n.findNode m.id = some m := by
  rcases findNode_spec m.id n with ⟨m', hm', hfind, hid⟩ | ⟨-, hno⟩
  · rw [hfind, node_unique h hm' hm hid]
  · exact absurd rfl (hno m hm)

theorem mem_nodes_of_lookup {b : UInt8} {c m : Node} (hc : n.kids.lookup b = some c)
    (hm : m ∈ c.nodes) : m ∈ n.nodes := by
  rw [nodes_eq]
  exact List.mem_cons_of_mem _ (mem_nodesKids.mpr ⟨b, c, mem_of_lookup hc, hm⟩)

/-- A walk ends at a node that holds a route. -/
theorem lookupWalk_mem (h : n.WF) {key : List UInt8} {best : Option Node} {m : Node}
    (hm : n.lookupWalk key best = some m) :
    best = some m ∨ m ∈ n.nodes ∧ m.leafValue.isSome := by
  have hhere : ∀ (n : Node) (best : Option Node),
      (if n.leafValue.isSome then some n else best) = some m →
        best = some m ∨ m ∈ n.nodes ∧ m.leafValue.isSome := by
    intro n best hbest
    split at hbest
    · rename_i hsome
      rw [← Option.some.inj hbest]
      exact Or.inr ⟨self_mem_nodes n, hsome⟩
    · exact Or.inl hbest
  fun_induction lookupWalk n key best with
  | case1 n key best len hlt => exact Or.inl hm
  | case2 n key best len hlt best' hrem => exact hhere n best hm
  | case3 n key best len hlt best' b rest hrem child hfind ih =>
    rw [findChild_eq_lookup h.shape] at hfind
    rcases ih (h.kids b child hfind) hm with hbest | ⟨hmem, hsome⟩
    · exact hhere n best hbest
    · exact Or.inr ⟨mem_nodes_of_lookup hfind hmem, hsome⟩
  | case4 n key best len hlt best' b rest hrem hfind => exact hhere n best hm

end Node

/-! ## The operations of the tree -/

namespace RadixTree

/-- The tree as the book sees it. -/
def cellState (t : RadixTree) : CellState := ⟨t.root.cells, t.book, t.routeCount⟩

/-- The request an insertion makes. -/
def request (t : RadixTree) (tokens : List TokenId) (backend : BackendId) (origin : RouteOrigin)
    (trust : Option Bool) : InsertRequest :=
  ⟨backend, origin, alignedLen t.blockAlignment tokens % 2 ^ 32, trust⟩

/-- The route held where the insertion of `tokens` ends. -/
def heldBy (t : RadixTree) (now : ℕ) (tokens : List TokenId) : Option Node.Leaf :=
  t.root.heldAt (encodeTokensBe (alignedTokens t.blockAlignment tokens)) { t.book with now := now }

/-- If the insertion of `tokens` writes a new route, over the held one or where none is held,
then `R` allows it. -/
def InsertWrites (R : Option Node.Leaf → Node.Leaf → Prop) (t : RadixTree) (now : ℕ)
    (tokens : List TokenId) (backend : BackendId) (origin : RouteOrigin) (trust : Option Bool) :
    Prop :=
  alignedLen t.blockAlignment tokens ≠ 0 →
    (∀ l, t.heldBy now tokens = some l →
      (t.request tokens backend origin trust).overwrites l = true) →
    R (t.heldBy now tokens) ((t.request tokens backend origin trust).leafAt now)

/-- The same of an operation: only insertions write routes. -/
def Writes (R : Option Node.Leaf → Node.Leaf → Prop) (t : RadixTree) (now : ℕ) : TreeOp → Prop
  | .insert tokens backend origin => t.InsertWrites R now tokens backend origin none
  | .insertIfTrusted tokens backend origin converge =>
    t.InsertWrites R now tokens backend origin (some converge)
  | _ => True

/-- What the book may rely on. -/
structure Pointed (t : RadixTree) : Prop where
  /-- the nodes are well formed -/
  wf : t.root.WF
  /-- no two nodes have one identity -/
  unique : (t.root.cells.map Prod.fst).Nodup
  /-- the tail of a recency list points at a node with a route of that origin -/
  tails : ∀ origin i, t.book.lru.tail origin = some i →
    ∃ l, (i, some l) ∈ t.root.cells ∧ l.origin = origin

theorem Pointed.lruTail {t : RadixTree} (h : t.Pointed) {origin : RouteOrigin} {i : ℕ}
    (htail : t.book.lru.tail origin = some i) :
    ∃ m ∈ t.root.nodes, t.lruTail origin = some m ∧ m.id = i ∧
      ∃ l, m.leaf = some l ∧ l.origin = origin := by
  obtain ⟨l, hl, horigin⟩ := h.tails origin i htail
  obtain ⟨m, hm, hcell⟩ := Node.exists_node_of_mem_cells hl
  obtain ⟨rfl, hleaf⟩ := Prod.mk.inj hcell
  refine ⟨m, hm, ?_, rfl, l, hleaf, horigin⟩
  rw [RadixTree.lruTail, htail, Option.bind_some, Node.findNode_of_mem h.unique hm]

theorem Pointed.of_lruTail {t : RadixTree} (h : t.Pointed) {origin : RouteOrigin} {m : Node}
    (hm : t.lruTail origin = some m) :
    m ∈ t.root.nodes ∧ ∃ l, m.leaf = some l ∧ l.origin = origin := by
  rcases htail : t.book.lru.tail origin with _ | i
  · rw [RadixTree.lruTail, htail] at hm
    cases hm
  · obtain ⟨m', hm', heq, -, hleaf⟩ := h.lruTail htail
    rw [heq] at hm
    rw [← Option.some.inj hm]
    exact ⟨hm', hleaf⟩

/-- From `t` to `t'` by steps on the cells, perhaps after the clock was read. -/
structure CellRun (R : Option Node.Leaf → Node.Leaf → Prop) (t : RadixTree) (now : ℕ)
    (t' : RadixTree) : Prop where
  /-- the nodes stay well formed -/
  wf : t'.root.WF
  /-- cells and book follow the steps -/
  steps : ∃ book, (book = t.book ∨ book = { t.book with now := now }) ∧
    CellSteps R ⟨t.root.cells, book, t.routeCount⟩ t'.cellState

theorem CellRun.refl {t : RadixTree} (h : t.Pointed) (now : ℕ) : CellRun R t now t :=
  ⟨h.wf, t.book, Or.inl rfl, Relation.ReflTransGen.refl⟩

/-- An insertion that has a key moves nodes and makes one write. -/
theorem insertWith_writes {t : RadixTree} (hwf : t.root.WF) (now : ℕ) {tokens : List TokenId}
    (backend : BackendId) (origin : RouteOrigin) (trust : Option Bool)
    (hlen : alignedLen t.blockAlignment tokens ≠ 0) :
    (t.insertWith now tokens backend origin trust).1.root.WF ∧
      InsertSteps (t.request tokens backend origin trust) (t.heldBy now tokens)
        ⟨t.root.cells, { t.book with now := now }, t.routeCount⟩
        (t.insertWith now tokens backend origin trust).1.cellState := by
  unfold insertWith
  simp only [if_neg hlen]
  obtain ⟨hwf', hsteps⟩ := insertRecursive_writes (t.request tokens backend origin trust) t.root
    (encodeTokensBe (alignedTokens t.blockAlignment tokens)) { t.book with now := now } hwf
    t.routeCount 0
  rw [add_zero, add_zero] at hsteps
  exact ⟨hwf', hsteps⟩

theorem insertWith_cells {t : RadixTree} (h : t.Pointed) (now : ℕ) (tokens : List TokenId)
    (backend : BackendId) (origin : RouteOrigin) (trust : Option Bool)
    (hR : t.InsertWrites R now tokens backend origin trust) :
    CellRun R t now (t.insertWith now tokens backend origin trust).1 := by
  by_cases hlen : alignedLen t.blockAlignment tokens = 0
  · unfold insertWith
    simp only [if_pos hlen]
    exact CellRun.refl h now
  · obtain ⟨hwf, hsteps⟩ := insertWith_writes h.wf now backend origin trust hlen
    exact ⟨hwf, _, Or.inr rfl, hsteps.cellSteps (hR hlen)⟩

theorem lookup_cells {t : RadixTree} (h : t.Pointed) (now : ℕ) (tokens : List TokenId) :
    CellRun R t now (t.lookup now tokens).2 := by
  unfold lookup
  split
  · exact CellRun.refl h now
  · rename_i best hbest
    rcases Node.lookupWalk_mem h.wf hbest with hnone | ⟨hmem, hsome⟩
    · cases hnone
    obtain ⟨b, hb⟩ := Option.isSome_iff_exists.mp hsome
    obtain ⟨c, hcells, hwrite⟩ := Node.cells_writeAt hmem
      (Node.idCount_le_one h.unique best.id) (f := fun n => { n with lastAccessed := now })
      fun _ => rfl
    have hedit := Node.writeAt_edited (R := fun _ _ => True) best.id
      (fun n => { n with lastAccessed := now })
      (fun _ => ⟨rfl, rfl, rfl, rfl, trivial⟩) (fun _ => trivial) t.root
    refine ⟨hedit.wf h.wf, { t.book with now := now }, Or.inr rfl, ?_⟩
    rw [cellState]
    dsimp only
    rw [hwrite, hcells, Node.cell, Node.leaf, hb, Node.cell, Node.leaf]
    exact Relation.ReflTransGen.single (CellStep.touch best.id
      ⟨b, best.origin, best.keyTokens, best.lastAccessed⟩ c { t.book with now := now } t.routeCount)

theorem evictLeaf_cells {t : RadixTree} (h : t.Pointed) (now : ℕ) {victim : Node}
    (hmem : victim ∈ t.root.nodes) {l : Node.Leaf} (hl : victim.leaf = some l) :
    CellRun R t now (t.evictLeaf victim) := by
  obtain ⟨c, hcells, hwrite⟩ := Node.cells_writeAt hmem (Node.idCount_le_one h.unique victim.id)
    (f := fun n => { n with leafValue := none }) fun _ => rfl
  have hedit := Node.writeAt_edited (R := fun _ _ => True) victim.id
    (fun n => { n with leafValue := none })
    (fun _ => ⟨rfl, rfl, rfl, rfl, trivial⟩) (fun _ => trivial) t.root
  obtain ⟨b, hb, rfl⟩ := Option.map_eq_some_iff.mp hl
  refine ⟨hedit.wf h.wf, t.book, Or.inl rfl, ?_⟩
  rw [cellState, evictLeaf]
  dsimp only
  rw [hwrite, hcells, Node.cell, hl, hb]
  exact Relation.ReflTransGen.single (CellStep.drop victim.id
    ⟨b, victim.origin, victim.keyTokens, victim.lastAccessed⟩ c t.book t.routeCount)

theorem removeWhere_cells {t : RadixTree} (h : t.Pointed) (now : ℕ) (p : Node.Leaf → Bool) :
    CellRun R t now (t.removeWhere p).1 := by
  have hsteps := Node.cellSteps_removeIf (R := R) p t.root (t.book, 0) t.routeCount 0
  rw [add_zero, add_zero] at hsteps
  refine ⟨(Node.removeIf_edited p t.root (t.book, 0)).wf h.wf, t.book, Or.inl rfl, ?_⟩
  have hcount : (t.removeWhere p).1.routeCount =
      t.routeCount - (t.root.removeIf p (t.book, 0)).2.2 := by
    simp only [removeWhere]
    split <;> omega
  rw [cellState, hcount]
  exact hsteps

/-- A compaction only moves routes. -/
theorem compact_moves {t : RadixTree} (hwf : t.root.WF) :
    Moves t.cellState t.compact.1.cellState := by
  have hwf' := (Node.compactChildren_spec t.root hwf ⟨0, 0, 0⟩ t.book).1
  have hcompact := Node.moves_compactChildren t.root hwf ⟨0, 0, 0⟩ t.book t.routeCount 0
  have hshrink := Node.moves_shrinkIfNeeded hwf'.shape
    (t.root.compactChildren ⟨0, 0, 0⟩ t.book).2.1 (t.root.compactChildren ⟨0, 0, 0⟩ t.book).2.2
    t.routeCount 0
  have hmoves : Moves _ _ := hcompact.trans hshrink
  rw [add_zero, add_zero] at hmoves
  exact hmoves

theorem compact_cells {t : RadixTree} (h : t.Pointed) (now : ℕ) : CellRun R t now t.compact.1 := by
  have hwf := (Node.compactChildren_spec t.root h.wf ⟨0, 0, 0⟩ t.book).1
  exact ⟨(Node.shrinkIfNeeded_spec hwf.shape _ _).wf hwf, t.book, Or.inl rfl,
    (compact_moves h.wf).cellSteps⟩

/-- One round of the loop of `evict_oldest`. -/
theorem olderOf_spec (oldest tail : Option Node) :
    (olderOf oldest tail = none ∧ oldest = none ∧ tail = none) ∨
      ∃ m, olderOf oldest tail = some m ∧ (oldest = some m ∨ tail = some m) ∧
        (∀ o, oldest = some o → m.lastAccessed ≤ o.lastAccessed) ∧
        ∀ n, tail = some n → m.lastAccessed ≤ n.lastAccessed := by
  rcases tail with _ | n <;> rcases oldest with _ | o
  · exact Or.inl ⟨rfl, rfl, rfl⟩
  · refine Or.inr ⟨o, rfl, Or.inl rfl, fun o' ho => ?_, fun n hn => by cases hn⟩
    rw [Option.some.inj ho]
  · refine Or.inr ⟨n, rfl, Or.inr rfl, fun o ho => (by cases ho), fun n' hn => ?_⟩
    rw [Option.some.inj hn]
  · right
    simp only [olderOf, Option.some.injEq]
    split
    · rename_i hlt
      exact ⟨n, rfl, Or.inr rfl, fun o' ho => ho ▸ hlt.le, fun n' hn => hn ▸ le_rfl⟩
    · rename_i hlt
      exact ⟨o, rfl, Or.inl rfl, fun o' ho => ho ▸ le_rfl, fun n' hn => hn ▸ not_lt.mp hlt⟩

/-- The loop of `evict_oldest` ends with an oldest of the tails. -/
theorem foldl_olderOf (tails : List (Option Node)) (oldest : Option Node) :
    (tails.foldl olderOf oldest = none ∧ oldest = none ∧ ∀ n, some n ∉ tails) ∨
      ∃ m, tails.foldl olderOf oldest = some m ∧ (oldest = some m ∨ some m ∈ tails) ∧
        (∀ o, oldest = some o → m.lastAccessed ≤ o.lastAccessed) ∧
        ∀ n, some n ∈ tails → m.lastAccessed ≤ n.lastAccessed := by
  induction tails generalizing oldest with
  | nil =>
    rcases oldest with _ | o
    · exact Or.inl ⟨rfl, rfl, fun n hn => absurd hn List.not_mem_nil⟩
    · refine Or.inr ⟨o, rfl, Or.inl rfl, fun o' ho => ?_, fun n hn => absurd hn List.not_mem_nil⟩
      rw [Option.some.inj ho]
  | cons tail tails ih =>
    rw [List.foldl_cons]
    rcases olderOf_spec oldest tail with ⟨hnone, rfl, rfl⟩ | ⟨m, hm, hfrom, hold, htail⟩
    · rw [hnone]
      rcases ih none with ⟨hfold, -, hno⟩ | ⟨m, hfold, hfrom, -, hmin⟩
      · refine Or.inl ⟨hfold, rfl, fun n hn => ?_⟩
        exact hno n ((List.mem_cons.mp hn).resolve_left (by simp))
      · refine Or.inr ⟨m, hfold, Or.inr ?_, fun o ho => (by cases ho), fun n hn => ?_⟩
        · exact List.mem_cons_of_mem _ (hfrom.resolve_left (by simp))
        · exact hmin n ((List.mem_cons.mp hn).resolve_left (by simp))
    · rw [hm]
      rcases ih (some m) with ⟨-, hnone, -⟩ | ⟨m', hfold, hfrom', hle, hmin⟩
      · cases hnone
      · have hm' := hle m rfl
        refine Or.inr ⟨m', hfold, ?_, fun o ho => hm'.trans (hold o ho), fun n hn => ?_⟩
        · rcases hfrom' with heq | hmem
          · rw [← Option.some.inj heq]
            rcases hfrom with hold | rfl
            · exact Or.inl hold
            · exact Or.inr List.mem_cons_self
          · exact Or.inr (List.mem_cons_of_mem _ hmem)
        · rcases List.mem_cons.mp hn with heq | hmem
          · exact hm'.trans (htail n heq.symm)
          · exact hmin n hmem

/-- **Every operation is a sequence of steps on the cells.** -/
theorem step_cells {t : RadixTree} (h : t.Pointed) (now : ℕ) (op : TreeOp)
    (hR : t.Writes R now op) : CellRun R t now (t.step now op) := by
  have hevict : ∀ origin victim, t.lruTail origin = some victim →
      CellRun R t now (t.evictLeaf victim) := by
    intro origin victim hvictim
    obtain ⟨hmem, l, hl, -⟩ := h.of_lruTail hvictim
    exact evictLeaf_cells h now hmem hl
  have holdest : CellRun R t now t.evictOldest.1 := by
    rw [evictOldest, ← List.foldl_map]
    rcases foldl_olderOf ([RouteOrigin.REMOTE, .PUSH, .LOCAL].map t.lruTail) none with
      ⟨hnone, -⟩ | ⟨m, hm, hfrom, -⟩
    · rw [hnone]
      exact CellRun.refl h now
    · rw [hm]
      obtain ⟨origin, -, horigin⟩ := List.mem_map.mp (hfrom.resolve_left (by simp))
      exact hevict origin m horigin
  cases op with
  | insert tokens backend origin => exact insertWith_cells h now tokens backend origin none hR
  | insertIfTrusted tokens backend origin converge =>
    exact insertWith_cells h now tokens backend origin (some converge) hR
  | lookup tokens => exact lookup_cells h now tokens
  | evictOldest => exact holdest
  | evictLowestTrust =>
    rw [step, evictLowestTrust]
    split
    · rename_i victim hvictim
      exact hevict _ victim hvictim
    · split
      · rename_i victim hvictim
        exact hevict _ victim hvictim
      · exact holdest
  | removeExpired cutoff => exact removeWhere_cells h now _
  | removeExpiredPerBackend cutoffFn => exact removeWhere_cells h now _
  | removeRoutesByBackend backend origin => exact removeWhere_cells h now _
  | compact => exact compact_cells h now

end RadixTree

end Simulation

end Ranvier
