import Ranvier.RadixCells

/-!
# The length of compressed paths

`split_long_prefix` is there so that no node's prefix exceeds `MAX_PREFIX_LENGTH`. Its loop
cuts the node it was given, which is within the bound after one round, and never looks at
the child that took the rest. A fresh leaf may therefore be left with a prefix of any
length:

* `Node.freshBytes` — how many bytes an insertion puts behind the edge of the leaf it
  creates, read off the tree before it;
* `insertRecursive_within` — one insertion into a tree within the bound stays within it
  exactly when these are at most `2 * MAX_PREFIX_LENGTH + 1`, what two nodes and the edge
  between them hold;
* `prefixes_within_iff` — so it is along a run.
-/

namespace Ranvier

namespace Node

/-- No prefix in a subtree is longer than `MAX_PREFIX_LENGTH`. -/
def PrefixesWithin (n : Node) : Prop := ∀ m ∈ n.nodes, m.pre.length ≤ maxPrefixLength

instance (n : Node) : Decidable n.PrefixesWithin :=
  inferInstanceAs (Decidable (∀ m ∈ n.nodes, m.pre.length ≤ maxPrefixLength))

/-- How many bytes go into the prefix of the leaf that the insertion of `key` creates; none
if it creates no leaf. -/
def freshBytes (node : Node) (key : List UInt8) : ℕ :=
  let len := matchLen node.pre key
  match _hrem : key.drop len with
  | [] => 0
  | b :: rest =>
    if len < node.pre.length then rest.length
    else
      match node.findChild b with
      | some child => child.freshBytes rest
      | none => rest.length
termination_by key.length
decreasing_by
  have hlen := congrArg List.length _hrem
  rw [List.length_drop, List.length_cons] at hlen
  omega

/-! ## The bound node by node -/

section Within

variable {n n' child : Node} {key : UInt8}

theorem prefixesWithin_iff (hwf : n.WF) :
    n.PrefixesWithin ↔ n.pre.length ≤ maxPrefixLength ∧
      ∀ b c, n.kids.lookup b = some c → c.PrefixesWithin := by
  unfold PrefixesWithin
  rw [nodes_eq]
  constructor
  · intro h
    refine ⟨h n List.mem_cons_self, fun b c hc m hm => h m (List.mem_cons_of_mem _ ?_)⟩
    exact mem_nodesKids.mpr ⟨b, c, mem_of_lookup hc, hm⟩
  · rintro ⟨hself, hkids⟩ m hm
    rcases List.mem_cons.mp hm with rfl | hm
    · exact hself
    · obtain ⟨b, c, hmem, hmc⟩ := mem_nodesKids.mp hm
      exact hkids b c (lookup_of_mem hwf.shape.nodup hmem) m hmc

/-- A node within the bound with a new child is within it exactly when the child is. -/
theorem WithChild.prefixesWithin_iff (hw : n.WithChild key child n') (hwf : n.WF) (hwf' : n'.WF)
    (h : n.PrefixesWithin) : n'.PrefixesWithin ↔ child.PrefixesWithin := by
  obtain ⟨hself, hkids⟩ := (Node.prefixesWithin_iff hwf).mp h
  rw [Node.prefixesWithin_iff hwf', hw.pre]
  constructor
  · intro h'
    exact h'.2 key child (by rw [hw.lookup, if_pos rfl])
  · intro hchild
    refine ⟨hself, fun b c hc => ?_⟩
    rw [hw.lookup] at hc
    split at hc
    · rw [← Option.some.inj hc]
      exact hchild
    · exact hkids b c hc

/-- A node that keeps its path and its children keeps the bound. -/
theorem prefixesWithin_congr (hpre : n'.pre = n.pre) (hkids : n'.kids = n.kids) :
    n'.PrefixesWithin ↔ n.PrefixesWithin := by
  unfold PrefixesWithin
  rw [nodes_eq, nodes_eq, hkids, List.forall_mem_cons, List.forall_mem_cons, hpre]

/-- After a cut the bound is one of the two pieces and of what was below. -/
theorem cutAt_prefixesWithin_iff (hwf : n.WF) (point : ℕ) (newChild : Node)
    (hkids : newChild.kids = []) (hidx : newChild.index = emptyIndex)
    (ht : newChild.type = typeForCapacity n.kids.length) (book : TreeBook) :
    (n.cutAt point newChild book).1.PrefixesWithin ↔
      (n.pre.take point).length ≤ maxPrefixLength ∧
        (n.pre.drop (point + 1)).length ≤ maxPrefixLength ∧
        ∀ m ∈ nodesKids n.kids, m.pre.length ≤ maxPrefixLength := by
  have hshape : Shape { n with leafValue := none } :=
    ⟨hwf.shape.nodup, hwf.shape.fits, hwf.shape.indexed, hwf.shape.ordered⟩
  obtain ⟨-, mkids, mpre, -⟩ :=
    moveChildrenToNewNode_spec hshape (n.cutChild point newChild) hkids hidx ht
  obtain ⟨-, hpre, -, hcut⟩ := cutAt_shell n point newChild book
  unfold PrefixesWithin
  rw [nodes_eq, hcut, nodesKids, nodesKids, List.append_nil, nodes_eq, mkids,
    List.forall_mem_cons, List.forall_mem_cons, hpre, mpre]
  rfl

/-- A tree within the bound is never split past it. -/
theorem splitsWithinMax_of_prefixesWithin (hwf : n.WF) (h : n.PrefixesWithin)
    (key : List UInt8) : n.splitsWithinMax key = true := by
  fun_induction splitsWithinMax n key with
  | case1 n key len hlt =>
    have hself := ((prefixesWithin_iff hwf).mp h).1
    exact decide_eq_true (hlt.le.trans hself)
  | case2 n key len hlt hrem => rfl
  | case3 n key len hlt b rest hrem child hfind ih =>
    rw [findChild_eq_lookup hwf.shape] at hfind
    exact ih (hwf.kids b child hfind) (((prefixesWithin_iff hwf).mp h).2 b child hfind)
  | case4 n key len hlt b rest hrem hfind => rfl

/-! ## Insertion -/

/-- One round of `split_long_prefix` is all there is: the node it leaves is short. -/
theorem splitLongPrefix_eq (hlong : maxPrefixLength < n.pre.length) (book : TreeBook) :
    n.splitLongPrefix book = n.splitLongPrefixStep book := by
  have hshort : ¬ maxPrefixLength < (n.splitLongPrefixStep book).1.pre.length := by
    rw [splitLongPrefixStep, (cutAt_shell _ _ _ _).2.1, List.length_take]
    omega
  rw [splitLongPrefix, if_pos hlong, splitLongPrefix, if_neg hshort]

end Within

end Node

/-- **A fresh leaf** is within the bound exactly when two nodes and the edge between them
hold its bytes. -/
theorem freshLeaf_prefixesWithin_iff (req : InsertRequest) (rest : List UInt8) (book : TreeBook)
    {c : Node × TreeBook}
    (hc : c = if maxPrefixLength < (newLeaf req rest book).1.pre.length then
      (newLeaf req rest book).1.splitLongPrefix (newLeaf req rest book).2
      else newLeaf req rest book) :
    c.1.PrefixesWithin ↔ rest.length ≤ 2 * maxPrefixLength + 1 := by
  obtain ⟨hwf, hkids, -⟩ := newLeaf_spec req rest book
  have hpre : (newLeaf req rest book).1.pre = rest := rfl
  rw [hpre] at hc
  rw [hc]
  split
  · rename_i hlong
    rw [Node.splitLongPrefix_eq hlong, Node.splitLongPrefixStep]
    have hcut := Node.cutAt_prefixesWithin_iff hwf maxPrefixLength
      (makeNode .Node4 (newLeaf req rest book).2).1 rfl rfl
      (by rw [hkids]; rfl) (makeNode .Node4 (newLeaf req rest book).2).2
    rw [hkids, hpre, List.length_take, List.length_drop] at hcut
    rw [hcut]
    constructor
    · rintro ⟨-, hrest, -⟩
      omega
    · intro hrest
      exact ⟨by omega, by omega, fun m hm => absurd hm List.not_mem_nil⟩
  · rename_i hshort
    rw [Node.prefixesWithin_iff hwf, hkids, hpre]
    constructor
    · rintro ⟨hrest, -⟩
      omega
    · intro _
      exact ⟨by omega, fun b child hb => by cases hb⟩

section Insert

variable {n : Node} {key : List UInt8} {book : TreeBook} {s : Node × TreeBook}
  (hwf : n.WF) (h : n.PrefixesWithin)
  (hs : s = if matchLen n.pre key < n.pre.length then n.splitNode (matchLen n.pre key) book
    else (n, book))

include hwf h hs

/-- The split on the way keeps the bound. -/
theorem split_prefixesWithin : s.1.WF ∧ s.1.PrefixesWithin := by
  have hmax := Node.splitsWithinMax_of_prefixesWithin hwf h key
  refine ⟨(split_ready hwf hmax book hs).1, ?_⟩
  obtain ⟨hself, -⟩ := (Node.prefixesWithin_iff hwf).mp h
  rw [hs]
  split
  · rename_i hlt
    rw [Node.splitNode_eq (hlt.le.trans hself), Node.createNodeForCapacity_eq,
      Node.cutAt_prefixesWithin_iff hwf _ _ rfl rfl rfl, List.length_take, List.length_drop]
    refine ⟨by omega, by omega, fun m hm => h m ?_⟩
    rw [Node.nodes_eq]
    exact List.mem_cons_of_mem _ hm
  · exact h

/-- The fresh bytes, read off the node after the split. -/
theorem freshBytes_eq :
    n.freshBytes key =
      match key.drop (matchLen n.pre key) with
      | [] => 0
      | b :: rest => ((s.1.findChild b).map fun child => child.freshBytes rest).getD rest.length := by
  obtain ⟨hself, -⟩ := (Node.prefixesWithin_iff hwf).mp h
  have hswf := (split_prefixesWithin hwf h hs).1
  rw [Node.freshBytes]
  split
  · rename_i hrem
    rw [hrem]
  · rename_i b rest hrem
    rw [hrem]
    dsimp only
    split
    · -- after a split the only child is under another byte
      rename_i hlt
      have hlook := (Node.splitNode_spec hwf hlt (hlt.le.trans hself) book).2.2.2.1 b
        (edge_ne_of_matchLen_lt hlt hrem)
      rw [if_pos hlt] at hs
      rw [← hs] at hlook
      rw [Node.findChild_eq_lookup hswf.shape, hlook]
      rfl
    · rename_i hlt
      rw [if_neg hlt] at hs
      rw [hs]
      cases n.findChild b <;> rfl

end Insert

/-- **One insertion** into a tree within the bound stays within it exactly when it creates
no leaf of more than `2 * MAX_PREFIX_LENGTH + 1` bytes. -/
theorem insertRecursive_prefixesWithin_iff (req : InsertRequest) (n : Node) (key : List UInt8)
    (book : TreeBook) (hwf : n.WF) (h : n.PrefixesWithin) :
    (insertRecursive req n key book).node.PrefixesWithin ↔
      n.freshBytes key ≤ 2 * maxPrefixLength + 1 := by
  fun_induction insertRecursive req n key book with
  | case1 n key book len s hrem =>
    obtain ⟨-, hs⟩ := split_prefixesWithin hwf h (s := s) rfl
    have hfresh := freshBytes_eq hwf h (s := s) rfl
    rw [show key.drop (matchLen n.pre key) = [] from hrem] at hfresh
    have hupd := updateLeaf_spec req s.1 s.2
    rw [hfresh, Node.prefixesWithin_congr hupd.pre hupd.kids]
    exact iff_of_true hs (Nat.zero_le _)
  | case2 n key book len s b rest hrem child hfind r ih =>
    obtain ⟨hswf, hs⟩ := split_prefixesWithin hwf h (s := s) rfl
    have hfresh := freshBytes_eq hwf h (s := s) rfl
    rw [show key.drop (matchLen n.pre key) = b :: rest from hrem] at hfresh
    dsimp only at hfresh
    rw [hfind] at hfresh
    rw [Node.findChild_eq_lookup hswf.shape] at hfind
    have hchild := ((Node.prefixesWithin_iff hswf).mp hs).2 b child hfind
    have hmax := Node.splitsWithinMax_of_prefixesWithin (hswf.kids b child hfind) hchild rest
    have hr := (insertRecursive_spec req child rest s.2 (hswf.kids b child hfind) hmax).1
    have hmem : b ∈ keysOf s.1.kids := lookup_isSome_iff.mp (by rw [hfind]; rfl)
    have hw := Node.setChild_spec hswf.shape hmem r.node
    rw [hfresh, hw.prefixesWithin_iff hswf (hswf.withChild hw hr) hs]
    exact ih (hswf.kids b child hfind) hchild
  | case3 n key book len s b rest hrem hfind c₀ c p =>
    obtain ⟨hswf, hs⟩ := split_prefixesWithin hwf h (s := s) rfl
    have hfresh := freshBytes_eq hwf h (s := s) rfl
    rw [show key.drop (matchLen n.pre key) = b :: rest from hrem] at hfresh
    dsimp only at hfresh
    rw [hfind] at hfresh
    rw [Node.findChild_eq_lookup hswf.shape] at hfind
    have hc := (freshLeaf_spec req rest s.2 (c := c) rfl).1
    have hw := Node.addChild_spec (lookup_eq_none_iff_keys.mp hfind) c.1 c.2 hswf.shape
    rw [hfresh, hw.prefixesWithin_iff hswf (hswf.withChild hw hc) hs]
    exact freshLeaf_prefixesWithin_iff req rest s.2 rfl

/-! ## The other operations -/

namespace Node

theorem Edited.prefixesWithin {R : Option Leaf → Option Leaf → Prop} {n n' : Node}
    (hedit : Edited R n n') (hwf : n.WF) (h : n.PrefixesWithin) : n'.PrefixesWithin := by
  induction hedit with
  | mk n n' type pre index keys leaf kids ih =>
    have hwf' : n'.WF := (Edited.mk n n' type pre index keys leaf kids).wf hwf
    obtain ⟨hself, hkids⟩ := (prefixesWithin_iff hwf).mp h
    refine (prefixesWithin_iff hwf').mpr ⟨by rw [pre]; exact hself, fun b c' hc' => ?_⟩
    have hmem : b ∈ keysOf n.kids := by
      rw [← keys, ← lookup_isSome_iff, hc']
      rfl
    obtain ⟨c, hc⟩ := Option.isSome_iff_exists.mp (lookup_isSome_iff.mpr hmem)
    exact ih b c c' hc hc' (hwf.kids b c hc) (hkids b c hc)

theorem Rehoused.prefixesWithin {n n' : Node} (hre : Rehoused n n') (h : n.PrefixesWithin) :
    n'.PrefixesWithin :=
  (prefixesWithin_congr hre.pre hre.kids).mpr h

theorem Pruned.prefixesWithin {n n' : Node} (hprune : Pruned n n') (hwf : n.WF)
    (h : n.PrefixesWithin) : n'.PrefixesWithin := by
  obtain ⟨hself, hkids⟩ := (prefixesWithin_iff hwf).mp h
  refine (prefixesWithin_iff (hprune.wf hwf)).mpr ⟨by rw [hprune.pre]; exact hself,
    fun b c hc => ?_⟩
  rcases hprune.lookup b with hsame | ⟨hnone, -⟩
  · rw [hsame] at hc
    exact hkids b c hc
  · rw [hnone] at hc
    cases hc

theorem compactChildren_prefixesWithin (n : Node) (hwf : n.WF) (h : n.PrefixesWithin)
    (stats : CompactionStats) (book : TreeBook) :
    (compactChildren n stats book).1.PrefixesWithin := by
  induction n using induct generalizing stats book with
  | h n ih =>
    obtain ⟨hself, hkids⟩ := (prefixesWithin_iff hwf).mp h
    -- the children one by one: compacted, then perhaps moved to a smaller node
    have hchild : ∀ b c', (compactKids n.kids stats book).1.lookup b = some c' →
        c'.WF ∧ c'.PrefixesWithin := by
      intro b c' hc'
      obtain ⟨c, st, bk, st', bk', hc, rfl⟩ := lookup_compactKids stats book hc'
      have hcwf := (compactChildren_spec c (hwf.kids b c hc) st bk).1
      have hre := shrinkIfNeeded_spec hcwf.shape st' bk'
      exact ⟨hre.wf hcwf, hre.prefixesWithin
        (ih (b, c) (mem_of_lookup hc) (hwf.kids b c hc) (hkids b c hc) st bk)⟩
    have hwf' : WF { n with kids := (compactKids n.kids stats book).1 } :=
      WF.mk _ (hwf.shape.of_keysOf_eq (keysOf_compactKids n.kids stats book))
        fun b c' hc' => (hchild b c' hc').1
    obtain ⟨hsub, hempty⟩ := compactKids_removed n.kids hwf.shape.nodup stats book
    have hprune := removeKeys_spec hwf'.shape (compactKids n.kids stats book).2.2.1
      (hwf.shape.nodup.sublist hsub) hempty
    rw [compactChildren_eq]
    refine hprune.prefixesWithin hwf' ((prefixesWithin_iff hwf').mpr ⟨hself, fun b c' hc' => ?_⟩)
    exact (hchild b c' hc').2

end Node

/-! ## Along a run -/

namespace RadixTree

/-- No node of the tree has a prefix longer than `MAX_PREFIX_LENGTH`. -/
def PrefixesWithin (t : RadixTree) : Prop := t.root.PrefixesWithin

instance (t : RadixTree) : Decidable t.PrefixesWithin :=
  inferInstanceAs (Decidable t.root.PrefixesWithin)

/-- The insertion of `tokens` leaves at most `2 * MAX_PREFIX_LENGTH + 1` bytes to the leaf it
creates. -/
def insertFits (t : RadixTree) (tokens : List TokenId) : Bool :=
  alignedLen t.blockAlignment tokens = 0 ∨
    t.root.freshBytes (encodeTokensBe (alignedTokens t.blockAlignment tokens)) ≤
      2 * maxPrefixLength + 1

/-- The same of an operation: only insertions create leaves. -/
def stepFits (t : RadixTree) : TreeOp → Bool
  | .insert tokens _ _ => t.insertFits tokens
  | .insertIfTrusted tokens _ _ _ => t.insertFits tokens
  | _ => true

/-- Every step of a run fits, in the state it meets. -/
def runFits (t : RadixTree) : List (ℕ × TreeOp) → Bool
  | [] => true
  | (now, op) :: ops => t.stepFits op && (t.step now op).runFits ops

variable {t : RadixTree}

theorem insertWith_prefixesWithin_iff (hwf : t.root.WF) (h : t.PrefixesWithin) (now : ℕ)
    (tokens : List TokenId) (backend : BackendId) (origin : RouteOrigin) (trust : Option Bool) :
    (t.insertWith now tokens backend origin trust).1.PrefixesWithin ↔
      t.insertFits tokens = true := by
  unfold insertWith insertFits
  by_cases hlen : alignedLen t.blockAlignment tokens = 0
  · simp only [if_pos hlen]
    simp only [hlen, true_or, decide_true]
    exact iff_of_true h trivial
  · simp only [hlen, false_or, decide_eq_true_eq]
    exact insertRecursive_prefixesWithin_iff _ t.root _ _ hwf h

theorem evictLeaf_prefixesWithin (hwf : t.root.WF) (h : t.PrefixesWithin) (victim : Node) :
    (t.evictLeaf victim).PrefixesWithin :=
  (Node.writeAt_edited (R := fun _ _ => True) victim.id (fun n => { n with leafValue := none })
    (fun _ => ⟨rfl, rfl, rfl, rfl, trivial⟩) (fun _ => trivial) t.root).prefixesWithin hwf h

theorem lookup_prefixesWithin (hwf : t.root.WF) (h : t.PrefixesWithin) (now : ℕ)
    (tokens : List TokenId) : (t.lookup now tokens).2.PrefixesWithin := by
  unfold lookup
  split
  · exact h
  · rename_i best hbest
    exact (Node.writeAt_edited (R := fun _ _ => True) best.id
      (fun n => { n with lastAccessed := now })
      (fun _ => ⟨rfl, rfl, rfl, rfl, trivial⟩) (fun _ => trivial) t.root).prefixesWithin hwf h

theorem removeWhere_prefixesWithin (hwf : t.root.WF) (h : t.PrefixesWithin)
    (p : Node.Leaf → Bool) : (t.removeWhere p).1.PrefixesWithin :=
  (Node.removeIf_edited p t.root (t.book, 0)).prefixesWithin hwf h

theorem compact_prefixesWithin (hwf : t.root.WF) (h : t.PrefixesWithin) :
    t.compact.1.PrefixesWithin := by
  have hwf' := (Node.compactChildren_spec t.root hwf ⟨0, 0, 0⟩ t.book).1
  exact (Node.shrinkIfNeeded_spec hwf'.shape _ _).prefixesWithin
    (Node.compactChildren_prefixesWithin t.root hwf h ⟨0, 0, 0⟩ t.book)

/-- **One operation** on a tree within the bound stays within it exactly when it fits. -/
theorem step_prefixesWithin_iff (hwf : t.root.WF) (h : t.PrefixesWithin) (now : ℕ) (op : TreeOp) :
    (t.step now op).PrefixesWithin ↔ t.stepFits op = true := by
  have holdest : t.evictOldest.1.PrefixesWithin := by
    rw [evictOldest]
    split
    · exact h
    · exact evictLeaf_prefixesWithin hwf h _
  cases op with
  | insert tokens backend origin =>
    exact insertWith_prefixesWithin_iff hwf h now tokens backend origin none
  | insertIfTrusted tokens backend origin converge =>
    exact insertWith_prefixesWithin_iff hwf h now tokens backend origin (some converge)
  | lookup tokens => exact iff_of_true (lookup_prefixesWithin hwf h now tokens) rfl
  | evictOldest => exact iff_of_true holdest rfl
  | evictLowestTrust =>
    refine iff_of_true ?_ rfl
    rw [step, evictLowestTrust]
    split
    · exact evictLeaf_prefixesWithin hwf h _
    · split
      · exact evictLeaf_prefixesWithin hwf h _
      · exact holdest
  | removeExpired cutoff => exact iff_of_true (removeWhere_prefixesWithin hwf h _) rfl
  | removeExpiredPerBackend cutoffFn =>
    exact iff_of_true (removeWhere_prefixesWithin hwf h _) rfl
  | removeRoutesByBackend backend origin =>
    exact iff_of_true (removeWhere_prefixesWithin hwf h _) rfl
  | compact => exact iff_of_true (compact_prefixesWithin hwf h) rfl

/-- A tree within the bound is split within it by every operation. -/
theorem stepWithinMax_of_prefixesWithin (hwf : t.root.WF) (h : t.PrefixesWithin) (op : TreeOp) :
    t.stepWithinMax op = true := by
  cases op with
  | insert tokens backend origin => exact Node.splitsWithinMax_of_prefixesWithin hwf h _
  | insertIfTrusted tokens backend origin converge =>
    exact Node.splitsWithinMax_of_prefixesWithin hwf h _
  | _ => rfl

theorem run_prefixesWithin_iff (hinv : t.Inv) (h : t.PrefixesWithin) (ops : List (ℕ × TreeOp)) :
    (∀ ops', ops' <+: ops → (t.run ops').PrefixesWithin) ↔ t.runFits ops = true := by
  induction ops generalizing t with
  | nil =>
    refine iff_of_true (fun ops' hops => ?_) rfl
    rw [List.prefix_nil.mp hops]
    exact h
  | cons p ops ih =>
    obtain ⟨now, op⟩ := p
    have hinv' := (step_spec hinv now op (stepWithinMax_of_prefixesWithin hinv.wf h op)).1
    have hstep := step_prefixesWithin_iff hinv.wf h now op
    rw [runFits, Bool.and_eq_true]
    constructor
    · intro hall
      have hfits : (t.step now op).PrefixesWithin :=
        hall [(now, op)] (List.cons_prefix_cons.mpr ⟨rfl, List.nil_prefix⟩)
      refine ⟨hstep.mp hfits, (ih hinv' hfits).mp fun ops' hops => ?_⟩
      exact hall ((now, op) :: ops') (List.cons_prefix_cons.mpr ⟨rfl, hops⟩)
    · rintro ⟨hfits, hrest⟩ ops' hops
      rcases ops' with _ | ⟨p', ops'⟩
      · exact h
      · obtain ⟨rfl, hops'⟩ := List.cons_prefix_cons.mp hops
        exact (ih hinv' (hstep.mpr hfits)).mpr hrest ops' hops'

end RadixTree

/-- **The bound along a run.** In the trees that a run from the empty tree passes through no
prefix is longer than `MAX_PREFIX_LENGTH`, exactly when no insertion of the run leaves more
than `2 * MAX_PREFIX_LENGTH + 1` bytes to the leaf it creates. -/
theorem prefixes_within_iff (blockAlignment : ℕ+) (now₀ : ℕ) (ops : List (ℕ × TreeOp)) :
    (∀ ops', ops' <+: ops →
        ((RadixTree.create blockAlignment now₀).run ops').PrefixesWithin) ↔
      (RadixTree.create blockAlignment now₀).runFits ops = true := by
  refine RadixTree.run_prefixesWithin_iff (RadixTree.create_inv blockAlignment now₀) ?_ ops
  intro m hm
  rw [Node.nodes_eq] at hm
  rw [List.mem_singleton.mp hm]
  exact Nat.zero_le _

/-- **The slip.** One insertion of `longKey` into an empty tree: its leaf gets 2399 bytes,
`split_long_prefix` keeps 1024 of them in the first node, and the child that takes the rest
after the edge byte has a prefix of 1374 bytes that nothing looks at again. -/
theorem longKey_prefix_too_long :
    ¬ ((RadixTree.create 1 0).run [(0, .insert longKey 1 .LOCAL)]).PrefixesWithin := by
  decide +kernel

end Ranvier
