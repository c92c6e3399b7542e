import Ranvier.RadixNode

/-!
# Inserting into the radix tree

`split_node`, `split_long_prefix` and `insert_recursive`, and what they do to the
map a tree stands for (`Node.stored`):

* a cut moves everything a node held one level down, under the first byte it
  cuts off, and `stored` does not change (`stored_of_cut`);
* `insertRecursive_spec` — an insertion whose descent splits no path past
  `MAX_PREFIX_LENGTH` settles the entry of its own key and touches no other.

The proviso is needed. `insert_recursive` goes on with the bytes after the split
point *at the node it has just split*; when `split_node` hands that node on to
`split_long_prefix`, the node keeps only the first `MAX_PREFIX_LENGTH` bytes and
the rest of the key is attached too high.
-/

namespace Ranvier

namespace Node

/-! ## Splitting -/

/-- The fresh node `newChild` takes over the path after the edge byte at `point`
and the route. -/
def cutChild (node : Node) (point : ℕ) (newChild : Node) : Node :=
  { newChild with
    pre := node.pre.drop (point + 1)
    leafValue := node.leafValue
    origin := node.origin
    keyTokens := node.keyTokens
    lastAccessed := node.lastAccessed }

/-- The cut that `split_node` and `split_long_prefix` make at `point`: the new
child takes the route with its recency-list position and the children. -/
def cutAt (node : Node) (point : ℕ) (newChild : Node) (book : TreeBook) : Node × TreeBook :=
  let edgeKey := node.pre.getD point 0
  let moved := moveChildrenToNewNode { node with leafValue := none } (node.cutChild point newChild)
  (addSingleChildAfterSplit { moved.1 with pre := moved.1.pre.take point } edgeKey moved.2,
   if node.leafValue.isSome then
     { book with lru := book.lru.splice node.origin node.id newChild.id }
   else book)

/-- One round of `split_long_prefix`. -/
def splitLongPrefixStep (node : Node) (book : TreeBook) : Node × TreeBook :=
  let (newChild, book) := makeNode .Node4 book
  node.cutAt maxPrefixLength newChild book

/-- What a cut leaves of the node: the path before the edge byte and one child. -/
theorem cutAt_shell (node : Node) (point : ℕ) (newChild : Node) (book : TreeBook) :
    (node.cutAt point newChild book).1.Shape ∧
      (node.cutAt point newChild book).1.pre = node.pre.take point ∧
      (node.cutAt point newChild book).1.leaf = none ∧
      (node.cutAt point newChild book).1.kids =
        [(node.pre.getD point 0, (moveChildrenToNewNode { node with leafValue := none }
          (node.cutChild point newChild)).2)] := by
  obtain ⟨hkids, hpre, hleaf, hidx⟩ := moveChildrenToNewNode_src { node with leafValue := none }
    (node.cutChild point newChild)
  unfold cutAt
  generalize moveChildrenToNewNode { node with leafValue := none }
    (node.cutChild point newChild) = moved at *
  have hspec := addSingleChildAfterSplit_spec
    (n := { moved.1 with pre := moved.1.pre.take point }) hkids hidx (node.pre.getD point 0) moved.2
  refine ⟨hspec.1, ?_, ?_, hspec.2.2.2⟩
  · rw [hspec.2.1, hpre]
  · rw [hspec.2.2.1]
    exact hleaf

/-- `split_long_prefix`. -/
def splitLongPrefix (node : Node) (book : TreeBook) : Node × TreeBook :=
  if maxPrefixLength < node.pre.length then
    splitLongPrefix (node.splitLongPrefixStep book).1 (node.splitLongPrefixStep book).2
  else (node, book)
termination_by node.pre.length
decreasing_by
  rename_i hlong
  rw [splitLongPrefixStep, (cutAt_shell _ _ _ _).2.1, List.length_take]
  omega

/-- `split_node`. -/
def splitNode (node : Node) (splitPoint : ℕ) (book : TreeBook) : Node × TreeBook :=
  let (newChild, book) := createNodeForCapacity node.childCount book
  let (node, book) := node.cutAt splitPoint newChild book
  if maxPrefixLength < node.pre.length then node.splitLongPrefix book else (node, book)

end Node

/-! ## Insertion -/

/-- `TrustInsertResult`. -/
inductive TrustInsertResult : Type where
  /-- no route existed at this key -/
  | INSERTED_NEW
  /-- the existing route had equal or lower trust, or lost by convergence -/
  | OVERWROTE
  /-- same backend behind a higher-trust origin: recency refresh only -/
  | TOUCHED_SAME
  /-- the existing route stands -/
  | REFUSED
  deriving DecidableEq, Repr

/-- The arguments `insert_recursive` passes down unchanged. -/
structure InsertRequest : Type where
  /-- the backend to route to -/
  backend : BackendId
  /-- the origin of the route -/
  origin : RouteOrigin
  /-- the key length in tokens -/
  keyTokens : ℕ
  /-- `none` for a null `trust_result` (plain `insert`), else the `converge` flag -/
  trust : Option Bool

/-- What `insert_recursive` returns and writes. -/
structure InsertResult : Type where
  /-- the new subtree -/
  node : Node
  /-- whether a leaf was created that did not exist -/
  isNewRoute : Bool
  /-- `*trust_result`; not read when the request carries none -/
  trustResult : TrustInsertResult
  /-- the tree's book -/
  book : TreeBook

/-- Write the requested route into a node, unlinking a held one first. -/
def overwriteLeaf (req : InsertRequest) (node : Node) (book : TreeBook) : InsertResult :=
  let isNew := node.leafValue.isNone
  let book :=
    if isNew then book.noteRouteAdded req.backend req.keyTokens
    else if node.leafValue ≠ some req.backend then
      (book.noteRouteRemoved node.leafValue node.keyTokens).noteRouteAdded
        req.backend req.keyTokens
    else book
  let book :=
    if isNew then book else { book with lru := book.lru.remove node.origin node.id }
  { node :=
      { node with
        keyTokens := req.keyTokens
        leafValue := some req.backend
        origin := req.origin
        lastAccessed := book.now }
    isNewRoute := isNew
    trustResult := if isNew then .INSERTED_NEW else .OVERWROTE
    book := { book with lru := book.lru.pushFront req.origin node.id } }

/-- The "exact match" branch of `insert_recursive`. -/
def updateLeaf (req : InsertRequest) (node : Node) (book : TreeBook) : InsertResult :=
  match req.trust, node.leafValue with
  | some converge, some held =>
    if converge = true ∧ req.origin ≠ .PUSH ∧ held ≠ req.backend ∧ node.origin ≠ .PUSH then
      if req.backend < held then overwriteLeaf req node book
      else ⟨node, false, .REFUSED, book⟩
    else if node.origin.index < req.origin.index then
      if held = req.backend then
        ⟨{ node with lastAccessed := book.now }, false, .TOUCHED_SAME,
          { book with lru := book.lru.touch node.origin node.id }⟩
      else ⟨node, false, .REFUSED, book⟩
    else overwriteLeaf req node book
  | _, _ => overwriteLeaf req node book

/-- The leaf created for the bytes after a new edge, not yet bounded in length. -/
def newLeaf (req : InsertRequest) (rest : List UInt8) (book : TreeBook) : Node × TreeBook :=
  let (newChild, book) := makeNode .Node4 book
  let newChild :=
    { newChild with
      pre := rest
      leafValue := some req.backend
      origin := req.origin
      keyTokens := req.keyTokens }
  let book := book.noteRouteAdded req.backend req.keyTokens
  (newChild, { book with lru := book.lru.pushFront req.origin newChild.id })

/-- `insert_recursive`. -/
def insertRecursive (req : InsertRequest) (node : Node) (key : List UInt8) (book : TreeBook) :
    InsertResult :=
  let len := matchLen node.pre key
  let s := if len < node.pre.length then node.splitNode len book else (node, book)
  match _hrem : key.drop len with
  | [] => updateLeaf req s.1 s.2
  | nextKey :: rest =>
    match s.1.findChild nextKey with
    | some child =>
      let r := insertRecursive req child rest s.2
      { r with node := s.1.setChild nextKey r.node }
    | none =>
      let c := newLeaf req rest s.2
      -- bound the path of the new leaf
      let c := if maxPrefixLength < c.1.pre.length then c.1.splitLongPrefix c.2 else c
      let p := s.1.addChild nextKey c.1 c.2
      ⟨p.1, true, .INSERTED_NEW, p.2⟩
termination_by key.length
decreasing_by
  have hlen := congrArg List.length _hrem
  rw [List.length_drop, List.length_cons] at hlen
  omega

/-! ## The map a tree stands for -/

namespace Node

mutual

/-- The route stored under a byte key. -/
def stored : Node → List UInt8 → Option Leaf
  | ⟨_, _, pre, leafValue, origin, keyTokens, lastAccessed, _, kids⟩, key =>
    match strip pre key with
    | none => none
    | some [] => leafValue.map fun b => ⟨b, origin, keyTokens, lastAccessed⟩
    | some (b :: rest) => storedKids kids b rest

/-- The route stored below the edge byte `b`. -/
def storedKids : List (UInt8 × Node) → UInt8 → List UInt8 → Option Leaf
  | [], _, _ => none
  | (k, c) :: kids, b, rest => if b = k then c.stored rest else storedKids kids b rest

end

/-- The routes at and below a node, by the bytes after its path. -/
def storedBelow (n : Node) : List UInt8 → Option Leaf
  | [] => n.leaf
  | b :: rest => (n.kids.lookup b).bind fun c => c.stored rest

theorem storedKids_eq (kids : List (UInt8 × Node)) (b : UInt8) (rest : List UInt8) :
    storedKids kids b rest = (kids.lookup b).bind fun c => c.stored rest := by
  induction kids with
  | nil => rfl
  | cons p kids ih =>
    obtain ⟨k, c⟩ := p
    rw [storedKids, lookup_cons_eq, ih]
    split <;> rfl

/-- A key is stored at a node when it runs through the node's path. -/
theorem stored_eq (n : Node) (key : List UInt8) :
    n.stored key = (strip n.pre key).bind n.storedBelow := by
  obtain ⟨_, _, pre, leafValue, origin, keyTokens, lastAccessed, _, kids⟩ := n
  rw [stored]
  rcases strip pre key with _ | _ | ⟨b, rest⟩
  · rfl
  · rfl
  · exact storedKids_eq kids b rest

@[simp] theorem stored_append (n : Node) (rest : List UInt8) :
    n.stored (n.pre ++ rest) = n.storedBelow rest := by
  rw [stored_eq, strip_append]
  rfl

/-- A well-formed subtree: every node is well shaped. -/
inductive WF : Node → Prop where
  | mk (n : Node) (shape : n.Shape) (kids : ∀ b c, n.kids.lookup b = some c → WF c) : WF n

theorem WF.shape {n : Node} : n.WF → n.Shape
  | .mk _ h _ => h

theorem WF.kids {n : Node} : n.WF → ∀ b c, n.kids.lookup b = some c → c.WF
  | .mk _ _ h => h

theorem WF.withChild {n n' child : Node} {key : UInt8} (h : n.WF)
    (hw : n.WithChild key child n') (hc : child.WF) : n'.WF := by
  refine WF.mk n' hw.shape fun b c hb => ?_
  rw [hw.lookup] at hb
  split at hb
  · rw [← Option.some.inj hb]
    exact hc
  · exact h.kids b c hb

/-- Changing the route held at a node changes the map at its own path only. -/
theorem stored_of_leaf {n n' : Node} (hpre : n'.pre = n.pre) (hkids : n'.kids = n.kids)
    (key : List UInt8) : n'.stored key = if key = n.pre then n'.leaf else n.stored key := by
  rw [stored_eq, hpre]
  by_cases hkey : key = n.pre
  · rw [if_pos hkey, hkey, strip_eq_some_iff.mpr (List.append_nil _).symm]
    rfl
  · rw [if_neg hkey, stored_eq]
    rcases hs : strip n.pre key with _ | _ | ⟨b, rest⟩
    · rfl
    · rw [strip_eq_some_iff, List.append_nil] at hs
      exact absurd hs hkey
    · simp only [Option.bind_some, storedBelow, hkids]

/-- **One level up.** When the child under `b` changes the map below it at `t`
only, the whole node changes it at `pre ++ b :: t` only. -/
theorem stored_of_withChild {n n' child : Node} {b : UInt8} (hw : n.WithChild b child n')
    {t : List UInt8} {v : Option Leaf}
    (hc : ∀ r, child.stored r = if r = t then v else n.storedBelow (b :: r)) (key : List UInt8) :
    n'.stored key = if key = n.pre ++ b :: t then v else n.stored key := by
  rw [stored_eq, hw.pre]
  rcases hs : strip n.pre key with _ | r
  · have hkey : key ≠ n.pre ++ b :: t := by
      rintro rfl
      rw [strip_append] at hs
      cases hs
    rw [if_neg hkey, stored_eq, hs]
    rfl
  · rw [strip_eq_some_iff] at hs
    subst hs
    rw [stored_append, Option.bind_some]
    rcases r with _ | ⟨b', r⟩
    · rw [if_neg (by simp), storedBelow, hw.leaf, storedBelow]
    · rw [storedBelow, hw.lookup]
      by_cases hb : b' = b
      · subst hb
        rw [if_pos rfl, Option.bind_some, hc]
        simp
      · rw [if_neg hb, if_neg (by simp [hb]), storedBelow]

/-- **A cut keeps the map**: the path `q ++ e :: s` of `n` becomes the path `q`
of `n'`, the edge `e` and the path `s` of its only child. -/
theorem stored_of_cut {n n' child : Node} {q s : List UInt8} {e : UInt8}
    (hpre : n.pre = q ++ e :: s) (hpre' : n'.pre = q) (hleaf' : n'.leaf = none)
    (hkids' : n'.kids = [(e, child)]) (hcpre : child.pre = s) (hcleaf : child.leaf = n.leaf)
    (hckids : child.kids = n.kids) (key : List UInt8) : n'.stored key = n.stored key := by
  rw [stored_eq, stored_eq, hpre, hpre', strip_append_left, Option.bind_assoc]
  rcases strip q key with _ | r
  · rfl
  · rw [Option.bind_some, Option.bind_some]
    rcases r with _ | ⟨b, r⟩
    · exact hleaf'
    · rw [storedBelow, hkids', lookup_cons_eq, strip]
      by_cases hb : e = b
      · subst hb
        rw [if_pos rfl, if_pos rfl, Option.bind_some, stored_eq, hcpre]
        congr 1
        funext r'
        rcases r' with _ | ⟨b', r'⟩
        · exact hcleaf
        · rw [storedBelow, storedBelow, hckids]
      · rw [if_neg (Ne.symm hb), if_neg hb]
        rfl

/-! ## Splits keep the map -/

/-- A cut into a fresh node of the kind its children need. -/
theorem cutAt_spec {n : Node} (h : n.WF) {point : ℕ} (hp : point < n.pre.length)
    (newChild : Node) (hkids : newChild.kids = []) (hidx : newChild.index = emptyIndex)
    (ht : newChild.type = typeForCapacity n.kids.length) (book : TreeBook) :
    (n.cutAt point newChild book).1.WF ∧
      ∀ key, (n.cutAt point newChild book).1.stored key = n.stored key := by
  obtain ⟨hshape, hpre, hleaf, hk⟩ := cutAt_shell n point newChild book
  have hshape' : Shape { n with leafValue := none } :=
    ⟨h.shape.nodup, h.shape.fits, h.shape.indexed, h.shape.ordered⟩
  obtain ⟨mshape, mkids, mpre, mleaf⟩ :=
    moveChildrenToNewNode_spec hshape' (n.cutChild point newChild) hkids hidx ht
  refine ⟨WF.mk _ hshape fun b c hb => ?_, fun key => ?_⟩
  · rw [hk, lookup_cons_eq] at hb
    split at hb
    · rw [← Option.some.inj hb]
      refine WF.mk _ mshape fun b' c' hb' => h.kids b' c' ?_
      rw [mkids] at hb'
      exact hb'
    · cases hb
  · have hpath : n.pre = n.pre.take point ++ n.pre.getD point 0 :: n.pre.drop (point + 1) := by
      have hedge : n.pre.getD point 0 = n.pre[point] := by simp [List.getD, hp]
      rw [hedge, List.cons_getElem_drop_succ, List.take_append_drop]
    exact stored_of_cut hpath hpre hleaf hk mpre mleaf mkids key

theorem cutAt_now (n : Node) (point : ℕ) (newChild : Node) (book : TreeBook) :
    (n.cutAt point newChild book).2.now = book.now := by
  unfold cutAt
  split <;> rfl

theorem splitLongPrefix_spec {n : Node} (h : n.WF) (hlen : n.kids.length ≤ 4)
    (book : TreeBook) :
    (n.splitLongPrefix book).1.WF ∧ ∀ key, (n.splitLongPrefix book).1.stored key = n.stored key := by
  fun_induction splitLongPrefix n book with
  | case1 n book hlong ih =>
    have hcut := cutAt_spec h hlong (makeNode .Node4 book).1 rfl rfl
      (by rw [typeForCapacity, if_pos hlen]; rfl) (makeNode .Node4 book).2
    have hone : (n.splitLongPrefixStep book).1.kids.length ≤ 4 := by
      rw [splitLongPrefixStep, (cutAt_shell _ _ _ _).2.2.2, List.length_singleton]
      decide
    obtain ⟨hwf, hstored⟩ := ih hcut.1 hone
    exact ⟨hwf, fun key => (hstored key).trans (hcut.2 key)⟩
  | case2 n book hshort => exact ⟨h, fun _ => rfl⟩

/-- A split at or before `MAX_PREFIX_LENGTH` ends after its own cut. -/
theorem splitNode_eq {n : Node} {point : ℕ} (hmax : point ≤ maxPrefixLength) (book : TreeBook) :
    n.splitNode point book =
      n.cutAt point (createNodeForCapacity n.childCount book).1
        (createNodeForCapacity n.childCount book).2 := by
  have hshort : ¬ maxPrefixLength < (n.cutAt point (createNodeForCapacity n.childCount book).1
      (createNodeForCapacity n.childCount book).2).1.pre.length := by
    rw [(cutAt_shell _ _ _ _).2.1, List.length_take]
    omega
  exact if_neg hshort

theorem splitNode_spec {n : Node} (h : n.WF) {point : ℕ} (hp : point < n.pre.length)
    (hmax : point ≤ maxPrefixLength) (book : TreeBook) :
    (n.splitNode point book).1.WF ∧
      (∀ key, (n.splitNode point book).1.stored key = n.stored key) ∧
      (n.splitNode point book).1.pre = n.pre.take point ∧
      (∀ b, n.pre.getD point 0 ≠ b → (n.splitNode point book).1.kids.lookup b = none) ∧
      (n.splitNode point book).2.now = book.now := by
  rw [splitNode_eq hmax, createNodeForCapacity_eq]
  obtain ⟨hwf, hstored⟩ := cutAt_spec h hp
    (makeNode (typeForCapacity n.childCount) book).1 rfl rfl rfl
    (makeNode (typeForCapacity n.childCount) book).2
  obtain ⟨-, hpre, -, hkids⟩ := cutAt_shell n point
    (makeNode (typeForCapacity n.childCount) book).1
    (makeNode (typeForCapacity n.childCount) book).2
  refine ⟨hwf, hstored, hpre, fun b hb => ?_, cutAt_now _ _ _ _⟩
  rw [hkids, lookup_cons_eq, if_neg (Ne.symm hb)]
  rfl

end Node

/-! ## What an insertion does to the map -/

@[simp] theorem TreeBook.noteRouteAdded_now (book : TreeBook) (b : BackendId) (k : ℕ) :
    (book.noteRouteAdded b k).now = book.now := by
  unfold TreeBook.noteRouteAdded
  split
  · rfl
  · split <;> rfl

@[simp] theorem TreeBook.noteRouteRemoved_now (book : TreeBook) (b : Option BackendId) (k : ℕ) :
    (book.noteRouteRemoved b k).now = book.now := by
  unfold TreeBook.noteRouteRemoved
  split
  · rfl
  · split
    · rfl
    · dsimp only
      split <;> rfl

/-- The route at a key after a request for it, given the route held before: the
trust ladder and, where the request asks for it, convergence to the lowest
backend id. -/
def settle (req : InsertRequest) (now : ℕ) (held : Option Node.Leaf) : Option Node.Leaf :=
  let wanted : Node.Leaf := ⟨req.backend, req.origin, req.keyTokens, now⟩
  match req.trust, held with
  | some converge, some l =>
    if converge = true ∧ req.origin ≠ .PUSH ∧ l.backend ≠ req.backend ∧ l.origin ≠ .PUSH then
      if req.backend < l.backend then some wanted else some l
    else if l.origin.index < req.origin.index then
      if l.backend = req.backend then some { l with lastAccessed := now } else some l
    else some wanted
  | _, _ => some wanted

@[simp] theorem settle_none (req : InsertRequest) (now : ℕ) :
    settle req now none = some ⟨req.backend, req.origin, req.keyTokens, now⟩ := by
  unfold settle
  split
  · rename_i h
    cases h
  · rfl

/-- What an update of the leaf at a node keeps. -/
structure LeafUpdated (n : Node) (v : Option Node.Leaf) (n' : Node) : Prop where
  /-- the node kind is kept -/
  type : n'.type = n.type
  /-- the path is kept -/
  pre : n'.pre = n.pre
  /-- the index table is kept -/
  index : n'.index = n.index
  /-- the children are kept -/
  kids : n'.kids = n.kids
  /-- the route is the new one -/
  leaf : n'.leaf = v

theorem overwriteLeaf_spec (req : InsertRequest) (n : Node) (book : TreeBook) :
    LeafUpdated n (some ⟨req.backend, req.origin, req.keyTokens, book.now⟩)
      (overwriteLeaf req n book).node := by
  refine ⟨rfl, rfl, rfl, rfl, ?_⟩
  simp only [overwriteLeaf, Node.leaf, Option.map_some]
  congr 2
  split_ifs <;> simp

/-- An empty leaf is written whatever the trust policy. -/
theorem updateLeaf_of_none (req : InsertRequest) {n : Node} (book : TreeBook)
    (hv : n.leafValue = none) : updateLeaf req n book = overwriteLeaf req n book := by
  unfold updateLeaf
  rw [hv]
  split
  · rename_i h
    cases h
  · rfl

theorem updateLeaf_spec (req : InsertRequest) (n : Node) (book : TreeBook) :
    LeafUpdated n (settle req book.now n.leaf) (updateLeaf req n book).node := by
  rcases hv : n.leafValue with _ | held
  · have hleaf : n.leaf = none := by rw [Node.leaf, hv]; rfl
    rw [hleaf, settle_none, updateLeaf_of_none req book hv]
    exact overwriteLeaf_spec req n book
  · have hleaf : n.leaf = some ⟨held, n.origin, n.keyTokens, n.lastAccessed⟩ := by
      rw [Node.leaf, hv]
      rfl
    rcases ht : req.trust with _ | converge
    · simp only [updateLeaf, settle, ht, hv]
      exact overwriteLeaf_spec req n book
    · simp only [updateLeaf, settle, ht, hv, hleaf]
      split_ifs
      · exact overwriteLeaf_spec req n book
      · exact ⟨rfl, rfl, rfl, rfl, hleaf⟩
      · exact ⟨rfl, rfl, rfl, rfl, rfl⟩
      · exact ⟨rfl, rfl, rfl, rfl, hleaf⟩
      · exact overwriteLeaf_spec req n book

theorem LeafUpdated.wf {n n' : Node} {v : Option Node.Leaf} (h : LeafUpdated n v n')
    (hwf : n.WF) : n'.WF := by
  have hs := hwf.shape
  refine Node.WF.mk n' ⟨?_, ?_, ?_, ?_⟩ fun b c hb => hwf.kids b c (by rw [← h.kids]; exact hb)
  · rw [h.kids]
    exact hs.nodup
  · rw [h.type, h.kids]
    exact hs.fits
  · rw [h.type, h.kids, h.index]
    exact hs.indexed
  · rw [h.type, h.kids]
    exact hs.ordered

/-- The descent of an insertion, before it, splits no path past
`MAX_PREFIX_LENGTH`. -/
def Node.splitsWithinMax (node : Node) (key : List UInt8) : Bool :=
  let len := matchLen node.pre key
  if len < node.pre.length then decide (len ≤ maxPrefixLength)
  else
    match _hrem : key.drop len with
    | [] => true
    | b :: rest =>
      match node.findChild b with
      | some child => child.splitsWithinMax rest
      | none => true
termination_by key.length
decreasing_by
  have hlen := congrArg List.length _hrem
  rw [List.length_drop, List.length_cons] at hlen
  omega

/-- Where a path ends within a node, the next byte of the key is not the next of the path. -/
theorem edge_ne_of_matchLen_lt {n : Node} {key rest : List UInt8} {b : UInt8}
    (hlt : matchLen n.pre key < n.pre.length) (hb : key.drop (matchLen n.pre key) = b :: rest) :
    n.pre.getD (matchLen n.pre key) 0 ≠ b := by
  obtain ⟨q, p', k', hp, hk, hlen, hne⟩ := matchLen_split n.pre key
  have hrem : key.drop (matchLen n.pre key) = k' := by rw [← hlen, hk, List.drop_left]
  have hpne : p' ≠ [] := by
    rintro rfl
    rw [List.append_nil] at hp
    rw [← hlen, hp] at hlt
    exact lt_irrefl _ hlt
  obtain ⟨e, p'', rfl⟩ := List.exists_cons_of_ne_nil hpne
  have he : n.pre.getD (matchLen n.pre key) 0 = e := by
    rw [← hlen, hp]
    simp [List.getD]
  rw [he]
  exact hne e b rfl (by rw [← hrem, hb]; rfl)

/-- The node at which an insertion goes on after its possible split. -/
theorem split_ready {n : Node} (hwf : n.WF) {key : List UInt8}
    (hmax : n.splitsWithinMax key = true) (book : TreeBook) {s : Node × TreeBook}
    (hs : s = if matchLen n.pre key < n.pre.length then n.splitNode (matchLen n.pre key) book
      else (n, book)) :
    s.1.WF ∧ (∀ k, s.1.stored k = n.stored k) ∧
      key = s.1.pre ++ key.drop (matchLen n.pre key) ∧ s.2.now = book.now ∧
      ∀ b rest child, key.drop (matchLen n.pre key) = b :: rest →
        s.1.kids.lookup b = some child → child.splitsWithinMax rest = true := by
  obtain ⟨q, p', k', hp, hk, hlen, -⟩ := matchLen_split n.pre key
  have hrem : key.drop (matchLen n.pre key) = k' := by rw [← hlen, hk, List.drop_left]
  rw [Node.splitsWithinMax] at hmax
  by_cases hlt : matchLen n.pre key < n.pre.length
  · rw [if_pos hlt] at hs hmax
    rw [decide_eq_true_eq] at hmax
    obtain ⟨hwf', hstored, hpre, hlook, hnow⟩ := Node.splitNode_spec hwf hlt hmax book
    rw [← hs] at hwf' hstored hpre hlook hnow
    refine ⟨hwf', hstored, ?_, hnow, fun b rest child hb hchild => ?_⟩
    · have htake : n.pre.take (matchLen n.pre key) = q := by rw [← hlen, hp, List.take_left]
      rw [hrem, hpre, htake]
      exact hk
    · -- the only child is under the byte where path and key differ
      rw [hlook b (edge_ne_of_matchLen_lt hlt hb)] at hchild
      cases hchild
  · rw [if_neg hlt] at hs hmax
    subst hs
    have hfull := strip_of_matchLen_eq hlt
    refine ⟨hwf, fun _ => rfl, strip_eq_some_iff.mp hfull, rfl, fun b rest child hb hchild => ?_⟩
    split at hmax
    · rename_i hnil
      rw [hnil] at hb
      cases hb
    · rename_i b' rest' hcons
      rw [hcons] at hb
      obtain ⟨rfl, rfl⟩ := List.cons.inj hb
      rw [Node.findChild_eq_lookup hwf.shape, hchild] at hmax
      exact hmax

/-- The leaf made for a new edge holds its own key and nothing else. -/
theorem newLeaf_spec (req : InsertRequest) (rest : List UInt8) (book : TreeBook) :
    (newLeaf req rest book).1.WF ∧ (newLeaf req rest book).1.kids = [] ∧
      ∀ r, (newLeaf req rest book).1.stored r =
        if r = rest then some ⟨req.backend, req.origin, req.keyTokens, book.now⟩ else none := by
  refine ⟨Node.WF.mk _ ?_ ?_, rfl, fun r => ?_⟩
  · exact Node.Shape.keyed rfl List.nodup_nil (by decide : 0 ≤ 4)
      (by decide : NodeType.Node4 ≠ NodeType.Node48)
      (by decide : NodeType.Node4 ≠ NodeType.Node256)
  · intro b c hb
    cases hb
  · rw [Node.stored_eq]
    change (strip rest r).bind _ = _
    -- only the path itself ends at the leaf
    rcases hs : strip rest r with _ | _ | ⟨b, r'⟩
    · have hne : r ≠ rest := by
        rintro rfl
        rw [strip_eq_none_iff] at hs
        exact hs (List.prefix_refl r)
      rw [if_neg hne]
      rfl
    · rw [strip_eq_some_iff, List.append_nil] at hs
      rw [if_pos hs]
      rfl
    · have hne : r ≠ rest := by
        rw [strip_eq_some_iff] at hs
        rintro rfl
        have := congrArg List.length hs
        rw [List.length_append, List.length_cons] at this
        omega
      rw [if_neg hne]
      rfl

/-- Bounding its path changes nothing about that. -/
theorem freshLeaf_spec (req : InsertRequest) (rest : List UInt8) (book : TreeBook)
    {c : Node × TreeBook}
    (hc : c = if maxPrefixLength < (newLeaf req rest book).1.pre.length then
      (newLeaf req rest book).1.splitLongPrefix (newLeaf req rest book).2
      else newLeaf req rest book) :
    c.1.WF ∧ ∀ r, c.1.stored r =
      if r = rest then some ⟨req.backend, req.origin, req.keyTokens, book.now⟩ else none := by
  obtain ⟨hwf, hkids, hstored⟩ := newLeaf_spec req rest book
  rw [hc]
  split
  · obtain ⟨hsplit, hsame⟩ := Node.splitLongPrefix_spec hwf (by rw [hkids]; decide)
      (newLeaf req rest book).2
    exact ⟨hsplit, fun r => (hsame r).trans (hstored r)⟩
  · exact ⟨hwf, hstored⟩

/-- Where the key ends at the split node, the node's leaf is what was held at the key. -/
theorem leaf_of_split {n s : Node} {key rem : List UInt8} (hstored : ∀ k, s.stored k = n.stored k)
    (hkey : key = s.pre ++ rem) (hrem : rem = []) : key = s.pre ∧ s.leaf = n.stored key := by
  have hpre : key = s.pre := by rw [hkey, hrem, List.append_nil]
  refine ⟨hpre, ?_⟩
  rw [← hstored, hpre, Node.stored_of_leaf rfl rfl, if_pos rfl]

/-- **Insertion.** If its descent splits no path past `MAX_PREFIX_LENGTH`, an
insertion settles the entry of its own key and changes no other. -/
theorem insertRecursive_spec (req : InsertRequest) (n : Node) (key : List UInt8)
    (book : TreeBook) (hwf : n.WF) (hmax : n.splitsWithinMax key = true) :
    (insertRecursive req n key book).node.WF ∧
      ∀ k, (insertRecursive req n key book).node.stored k =
        if k = key then settle req book.now (n.stored key) else n.stored k := by
  fun_induction insertRecursive req n key book with
  | case1 n key book len s hrem =>
    -- the key ends at the node: its leaf is settled in place
    obtain ⟨hwf', hstored, hkey, hnow, -⟩ := split_ready hwf hmax book (s := s) rfl
    obtain ⟨hpre, hleaf⟩ := leaf_of_split hstored hkey hrem
    have hupd := updateLeaf_spec req s.1 s.2
    refine ⟨hupd.wf hwf', fun k => ?_⟩
    rw [Node.stored_of_leaf hupd.pre hupd.kids, hupd.leaf, hnow, hleaf, ← hpre, hstored]
  | case2 n key book len s b rest hrem child hfind r ih =>
    -- the key goes on below a child: the child is replaced by its own insertion
    obtain ⟨hwf', hstored, hkey, hnow, hdesc⟩ := split_ready hwf hmax book (s := s) rfl
    change key = s.1.pre ++ key.drop len at hkey
    rw [hrem] at hkey
    rw [Node.findChild_eq_lookup hwf'.shape] at hfind
    obtain ⟨hr, hrstored⟩ := ih (hwf'.kids b child hfind) (hdesc b rest child hrem hfind)
    have hmem : b ∈ keysOf s.1.kids := lookup_isSome_iff.mp (by rw [hfind]; rfl)
    have hw := Node.setChild_spec hwf'.shape hmem r.node
    have hbelow : ∀ k, s.1.storedBelow (b :: k) = child.stored k := by
      intro k
      rw [Node.storedBelow, hfind]
      rfl
    refine ⟨hwf'.withChild hw hr, fun k => ?_⟩
    have hup := Node.stored_of_withChild hw (t := rest)
      (v := settle req book.now (n.stored key)) ?_ k
    · rw [hup, ← hkey, hstored]
    · intro k'
      rw [hrstored, hbelow, hnow, ← hstored, hkey, Node.stored_append, hbelow]
  | case3 n key book len s b rest hrem hfind c₀ c p =>
    -- no child for the next byte: a new leaf, cut if its path is too long
    obtain ⟨hwf', hstored, hkey, hnow, -⟩ := split_ready hwf hmax book (s := s) rfl
    change key = s.1.pre ++ key.drop len at hkey
    rw [hrem] at hkey
    rw [Node.findChild_eq_lookup hwf'.shape] at hfind
    have hc := freshLeaf_spec req rest s.2 (c := c) rfl
    have hw := Node.addChild_spec (lookup_eq_none_iff_keys.mp hfind) c.1 c.2 hwf'.shape
    have hbelow : ∀ k, s.1.storedBelow (b :: k) = none := by
      intro k
      rw [Node.storedBelow, hfind]
      rfl
    refine ⟨hwf'.withChild hw hc.1, fun k => ?_⟩
    have hup := Node.stored_of_withChild hw (t := rest)
      (v := settle req book.now (n.stored key)) ?_ k
    · rw [hup, ← hkey, hstored]
    · intro k'
      rw [hc.2, hbelow, hnow, ← hstored, hkey, Node.stored_append, hbelow, settle_none]

end Ranvier
