import Ranvier.Strip
import Ranvier.KeyedList
import Ranvier.RadixBook

/-!
# Radix-tree nodes and their children

The four node kinds of the adaptive radix tree and the operations on a node's
children: find, set, add with growth (`Node4 → Node16 → Node48 → Node256`),
move, remove with reindexing, shrink. The parallel vectors `keys`/`children` of
the keyed kinds are one list of pairs; the direct-mapped array of a `Node256` is
the list of its occupied slots in slot order, which is the order in which
`visit_children` meets them.

`Node.Shape` is what every node keeps: distinct edge bytes, no more children
than the kind has room for, an exact index table in a `Node48` and slot order in
a `Node256`. Under it every kind finds a child where `List.lookup` does, so the
results below describe an operation by its effect on `kids.lookup`.
-/

namespace Ranvier

instance instLinearOrderUInt8 : LinearOrder UInt8 where
  le_refl := UInt8.le_refl
  le_trans _ _ _ := UInt8.le_trans
  lt_iff_le_not_ge a b := by
    rw [UInt8.lt_iff_toNat_lt, UInt8.le_iff_toNat_le, UInt8.le_iff_toNat_le]
    omega
  le_antisymm _ _ := UInt8.le_antisymm
  le_total := UInt8.le_total
  toDecidableLE := inferInstance
  toDecidableEq := inferInstance

/-- `MAX_PREFIX_LENGTH`, in bytes. -/
def maxPrefixLength : ℕ := 1024

/-- The node kinds. -/
inductive NodeType : Type where
  | Node4
  | Node16
  | Node48
  | Node256
  deriving DecidableEq, Repr

/-- How many children a kind has room for. -/
def NodeType.capacity : NodeType → ℕ
  | .Node4 => 4
  | .Node16 => 16
  | .Node48 => 48
  | .Node256 => 256

/-- A node of the tree. -/
structure Node : Type where
  /-- the node kind -/
  type : NodeType
  /-- the identity the recency lists know this node by -/
  id : ℕ
  /-- the compressed path below the edge byte -/
  pre : List UInt8
  /-- `leaf_value` -/
  leafValue : Option BackendId
  /-- the origin of the route held here -/
  origin : RouteOrigin
  /-- `key_tokens`, a `uint32_t` -/
  keyTokens : ℕ
  /-- `last_accessed` -/
  lastAccessed : ℕ
  /-- the index table of a `Node48`, unused by the other kinds -/
  index : UInt8 → UInt8
  /-- edge bytes and children -/
  kids : List (UInt8 × Node)

/-- `Node48::EMPTY_MARKER`. -/
def emptyMarker : UInt8 := 255

/-- An index table filled with the empty marker. -/
def emptyIndex : UInt8 → UInt8 := fun _ => emptyMarker

/-- `make_node`: a fresh node of the given kind. -/
def makeNode (type : NodeType) (book : TreeBook) : Node × TreeBook :=
  ({ type := type, id := book.nextId, pre := [], leafValue := none, origin := .LOCAL,
     keyTokens := 0, lastAccessed := book.now, index := emptyIndex, kids := [] },
   { book with nextId := book.nextId + 1 })

namespace Node

/-- `child_count`. -/
def childCount (n : Node) : ℕ := n.kids.length

/-! ## Child access -/

/-- `find_child`. -/
def findChild (n : Node) (key : UInt8) : Option Node :=
  match n.type with
  | .Node4 => n.kids.lookup key
  | .Node16 => n.kids.lookup key
  | .Node48 =>
    let idx := n.index key
    if idx ≠ emptyMarker then (n.kids[idx.toNat]?).map Prod.snd else none
  | .Node256 => n.kids.lookup key

/-- `set_child`. -/
def setChild (n : Node) (key : UInt8) (child : Node) : Node :=
  match n.type with
  | .Node4 => { n with kids := setKey key child n.kids }
  | .Node16 => { n with kids := setKey key child n.kids }
  | .Node48 =>
    let idx := n.index key
    if idx ≠ emptyMarker then
      { n with kids := n.kids.modify idx.toNat (fun p => (p.1, child)) }
    else n
  | .Node256 => { n with kids := setSlot key child n.kids }

/-- The index entries written while children are appended from position `pos` on. -/
def indexFrom (index : UInt8 → UInt8) (pos : ℕ) : List UInt8 → UInt8 → UInt8
  | [] => index
  | k :: ks => indexFrom (Function.update index k (UInt8.ofNat pos)) (pos + 1) ks

/-- `transfer_node_metadata`: `dest` takes over the path, the route and the
recency-list position of `src`. -/
def transferNodeMetadata (dest src : Node) (book : TreeBook) : Node × TreeBook :=
  ({ dest with
     pre := src.pre
     leafValue := src.leafValue
     origin := src.origin
     keyTokens := src.keyTokens
     lastAccessed := src.lastAccessed },
   if src.leafValue.isSome then
     { book with lru := book.lru.splice src.origin src.id dest.id }
   else book)

/-! ## Growth -/

/-- `grow_to_node16`. -/
def growToNode16 (parent : Node) (key : UInt8) (child : Node) (book : TreeBook) :
    Node × TreeBook :=
  let (n16, book) := makeNode .Node16 book
  let (n16, book) := transferNodeMetadata n16 parent book
  ({ n16 with kids := parent.kids ++ [(key, child)] }, book)

/-- `grow_to_node48`. -/
def growToNode48 (parent : Node) (key : UInt8) (child : Node) (book : TreeBook) :
    Node × TreeBook :=
  let (n48, book) := makeNode .Node48 book
  let (n48, book) := transferNodeMetadata n48 parent book
  ({ n48 with
     index := indexFrom n48.index 0 (keysOf parent.kids ++ [key])
     kids := parent.kids ++ [(key, child)] }, book)

/-- The slots of a `Node256` after the given children are moved in one by one. -/
def fillSlots (kids : List (UInt8 × Node)) : List (UInt8 × Node) :=
  kids.foldl (fun slots p => setSlot p.1 p.2 slots) []

/-- `grow_to_node256`. -/
def growToNode256 (parent : Node) (key : UInt8) (child : Node) (book : TreeBook) :
    Node × TreeBook :=
  let (n256, book) := makeNode .Node256 book
  let (n256, book) := transferNodeMetadata n256 parent book
  ({ n256 with kids := setSlot key child (fillSlots parent.kids) }, book)

/-- `add_child`. -/
def addChild (parent : Node) (key : UInt8) (child : Node) (book : TreeBook) :
    Node × TreeBook :=
  match parent.type with
  | .Node4 =>
    if parent.kids.length < 4 then
      ({ parent with kids := parent.kids ++ [(key, child)] }, book)
    else parent.growToNode16 key child book
  | .Node16 =>
    if parent.kids.length < 16 then
      ({ parent with kids := parent.kids ++ [(key, child)] }, book)
    else parent.growToNode48 key child book
  | .Node48 =>
    if parent.kids.length < 48 then
      ({ parent with
         index := Function.update parent.index key (UInt8.ofNat parent.kids.length)
         kids := parent.kids ++ [(key, child)] }, book)
    else parent.growToNode256 key child book
  | .Node256 => ({ parent with kids := setSlot key child parent.kids }, book)

/-- `create_node_for_capacity`. -/
def createNodeForCapacity (capacity : ℕ) (book : TreeBook) : Node × TreeBook :=
  if capacity ≤ 4 then makeNode .Node4 book
  else if capacity ≤ 16 then makeNode .Node16 book
  else if capacity ≤ 48 then makeNode .Node48 book
  else makeNode .Node256 book

/-! ## Moving children -/

/-- `move_children_to_new_node` with its three helpers: the emptied source and
the filled destination. A destination the source says cannot happen gets
nothing, and the children are destroyed with the source's vectors. -/
def moveChildrenToNewNode (src dest : Node) : Node × Node :=
  match src.type with
  | .Node4 | .Node16 =>
    ({ src with kids := [] },
     match dest.type with
     | .Node4 | .Node16 => { dest with kids := src.kids }
     | .Node48 | .Node256 => dest)
  | .Node48 =>
    ({ src with kids := [], index := emptyIndex },
     match dest.type with
     | .Node4 | .Node16 => { dest with kids := src.kids }
     | .Node48 => { dest with kids := src.kids, index := src.index }
     | .Node256 => dest)
  | .Node256 =>
    ({ src with kids := [] },
     match dest.type with
     | .Node4 | .Node16 => { dest with kids := dest.kids ++ src.kids }
     | .Node48 =>
       { dest with
         index := indexFrom dest.index dest.kids.length (keysOf src.kids)
         kids := dest.kids ++ src.kids }
     | .Node256 => { dest with kids := src.kids })

/-- `add_single_child_after_split`. -/
def addSingleChildAfterSplit (n : Node) (key : UInt8) (child : Node) : Node :=
  match n.type with
  | .Node4 | .Node16 => { n with kids := n.kids ++ [(key, child)] }
  | .Node48 =>
    { n with index := Function.update n.index key 0, kids := n.kids ++ [(key, child)] }
  | .Node256 => { n with kids := setSlot key child n.kids }

/-! ## Removal and shrinking -/

/-- `remove_child`: the node without that child, and the kind of what was removed. -/
def removeChild (parent : Node) (key : UInt8) : Node × NodeType :=
  match parent.type with
  | .Node4 | .Node16 | .Node256 =>
    match parent.kids.lookup key with
    | some child => ({ parent with kids := eraseKey key parent.kids }, child.type)
    | none => (parent, .Node4)
  | .Node48 =>
    let pos := parent.index key
    if pos ≠ emptyMarker then
      let index := Function.update parent.index key emptyMarker
      ({ parent with
         index := fun b =>
           if index b ≠ emptyMarker ∧ pos < index b then index b - 1 else index b
         kids := parent.kids.eraseIdx pos.toNat },
       ((parent.kids[pos.toNat]?).map (fun p => p.2.type)).getD .Node4)
    else (parent, .Node4)

/-- `is_node_empty`. -/
def isNodeEmpty (n : Node) : Bool := n.leafValue.isNone && n.childCount == 0

/-- `should_shrink`. -/
def shouldShrink (n : Node) : Bool :=
  match n.type with
  | .Node256 => n.childCount ≤ 48
  | .Node48 => n.childCount ≤ 16
  | .Node16 => n.childCount ≤ 4
  | .Node4 => false

/-- `shrink_to_node4`. -/
def shrinkToNode4 (n : Node) (book : TreeBook) : Node × TreeBook :=
  let (n4, book) := makeNode .Node4 book
  let (n4, book) := transferNodeMetadata n4 n book
  (match n.type with
   | .Node16 | .Node48 | .Node256 => { n4 with kids := n.kids.take 4 }
   | .Node4 => n4, book)

/-- `shrink_to_node16`. -/
def shrinkToNode16 (n : Node) (book : TreeBook) : Node × TreeBook :=
  let (n16, book) := makeNode .Node16 book
  let (n16, book) := transferNodeMetadata n16 n book
  (match n.type with
   | .Node48 | .Node256 => { n16 with kids := n.kids.take 16 }
   | .Node4 | .Node16 => n16, book)

/-- `shrink_to_node48`. -/
def shrinkToNode48 (n : Node) (book : TreeBook) : Node × TreeBook :=
  let (n48, book) := makeNode .Node48 book
  let (n48, book) := transferNodeMetadata n48 n book
  (match n.type with
   | .Node256 =>
     { n48 with
       index := indexFrom n48.index 0 (keysOf (n.kids.take 48))
       kids := n.kids.take 48 }
   | .Node4 | .Node16 | .Node48 => n48, book)

end Node

/-- `node_byte_size`. -/
def nodeByteSize : NodeType → ℕ
  | .Node4 => 192
  | .Node16 => 384
  | .Node48 => 640
  | .Node256 => 2240

/-- `CompactionStats`. -/
structure CompactionStats : Type where
  /-- empty nodes deleted -/
  nodesRemoved : ℕ
  /-- nodes replaced by a smaller kind -/
  nodesShrunk : ℕ
  /-- estimated bytes returned -/
  bytesReclaimed : ℕ
  deriving DecidableEq, Repr

namespace Node

/-- One more shrink, from the first kind to the second. -/
def noteShrunk (stats : CompactionStats) (large small : NodeType) : CompactionStats :=
  { stats with
    nodesShrunk := stats.nodesShrunk + 1
    bytesReclaimed := stats.bytesReclaimed + (nodeByteSize large - nodeByteSize small) }

/-- `shrink_node`. -/
def shrinkNode (n : Node) (stats : CompactionStats) (book : TreeBook) :
    Node × CompactionStats × TreeBook :=
  let to4 := fun _ : Unit =>
    let r := n.shrinkToNode4 book
    (r.1, noteShrunk stats n.type .Node4, r.2)
  let to16 := fun _ : Unit =>
    let r := n.shrinkToNode16 book
    (r.1, noteShrunk stats n.type .Node16, r.2)
  match n.type with
  | .Node256 =>
    if n.childCount ≤ 4 then to4 ()
    else if n.childCount ≤ 16 then to16 ()
    else if n.childCount ≤ 48 then
      let r := n.shrinkToNode48 book
      (r.1, noteShrunk stats n.type .Node48, r.2)
    else (n, stats, book)
  | .Node48 =>
    if n.childCount ≤ 4 then to4 ()
    else if n.childCount ≤ 16 then to16 ()
    else (n, stats, book)
  | .Node16 => if n.childCount ≤ 4 then to4 () else (n, stats, book)
  | .Node4 => (n, stats, book)

/-! ## The shape of a node -/

/-- The exact index table for children appended in the order `keys`. -/
def slotTable (keys : List UInt8) (b : UInt8) : UInt8 :=
  if b ∈ keys then UInt8.ofNat (keys.idxOf b) else emptyMarker

/-- What every node keeps about its own children. -/
structure Shape (n : Node) : Prop where
  /-- no edge byte occurs twice -/
  nodup : (keysOf n.kids).Nodup
  /-- the children fit the node kind -/
  fits : n.type ≠ .Node256 → n.kids.length ≤ n.type.capacity
  /-- a `Node48` indexes exactly its children -/
  indexed : n.type = .Node48 → n.index = slotTable (keysOf n.kids)
  /-- a `Node256` lists its slots in order -/
  ordered : n.type = .Node256 → (keysOf n.kids).Pairwise (· < ·)

@[simp] theorem slotTable_nil : slotTable [] = emptyIndex := rfl

/-- Appending a child writes one index entry. -/
theorem update_slotTable {keys : List UInt8} {k : UInt8} (hk : k ∉ keys) :
    Function.update (slotTable keys) k (UInt8.ofNat keys.length) = slotTable (keys ++ [k]) := by
  funext b
  by_cases hb : b = k
  · subst hb
    rw [Function.update_self, slotTable, if_pos (by simp), List.idxOf_append_of_notMem hk]
    simp
  · rw [Function.update_of_ne hb, slotTable, slotTable]
    by_cases hmem : b ∈ keys
    · rw [if_pos hmem, if_pos (List.mem_append_left _ hmem), List.idxOf_append_of_mem hmem]
    · rw [if_neg hmem, if_neg (by simp [hmem, hb])]

/-- The index loop builds the exact table. -/
theorem indexFrom_slotTable (keys ks : List UInt8) (h : (keys ++ ks).Nodup) :
    indexFrom (slotTable keys) keys.length ks = slotTable (keys ++ ks) := by
  induction ks generalizing keys with
  | nil => rw [indexFrom, List.append_nil]
  | cons k ks ih =>
    rw [List.append_cons] at h
    have hk : k ∉ keys := by
      intro hmem
      have hdis := (List.nodup_append.mp (List.nodup_append.mp h).1).2.2
      exact hdis k hmem k (List.mem_singleton_self k) rfl
    have := ih (keys ++ [k]) h
    rw [List.length_append, List.length_singleton] at this
    rw [indexFrom, update_slotTable hk, this, List.append_assoc, List.singleton_append]

theorem indexFrom_emptyIndex {ks : List UInt8} (h : ks.Nodup) :
    indexFrom emptyIndex 0 ks = slotTable ks :=
  indexFrom_slotTable [] ks h

theorem toNat_slotTable {keys : List UInt8} (hlen : keys.length ≤ 48) {b : UInt8}
    (hb : b ∈ keys) : (slotTable keys b).toNat = keys.idxOf b := by
  have hlt := List.idxOf_lt_length_of_mem hb
  have hsize : UInt8.size = 256 := rfl
  rw [slotTable, if_pos hb, UInt8.toNat_ofNat_of_lt' (by omega)]

theorem slotTable_eq_emptyMarker {keys : List UInt8} (hlen : keys.length ≤ 48) {b : UInt8} :
    slotTable keys b = emptyMarker ↔ b ∉ keys := by
  constructor
  · intro h hb
    have hlt := List.idxOf_lt_length_of_mem hb
    have := toNat_slotTable hlen hb
    rw [h] at this
    simp [emptyMarker] at this
    omega
  · intro hb
    rw [slotTable, if_neg hb]

/-- The route held at a node. -/
structure Leaf : Type where
  /-- the backend routed to -/
  backend : BackendId
  /-- where the route was learned -/
  origin : RouteOrigin
  /-- the key length in tokens -/
  keyTokens : ℕ
  /-- when the route was last used -/
  lastAccessed : ℕ
  deriving DecidableEq, Repr

/-- The route this node holds, if it is a leaf. -/
def leaf (n : Node) : Option Leaf :=
  n.leafValue.map fun b => ⟨b, n.origin, n.keyTokens, n.lastAccessed⟩

section Specs

variable {n : Node}

theorem Shape.length_le_48 (h : n.Shape) (ht : n.type = .Node48) :
    (keysOf n.kids).length ≤ 48 := by
  rw [length_keysOf]
  have := h.fits (by rw [ht]; decide)
  rwa [ht] at this

/-- **Every kind finds a child where the plain lookup does.** -/
theorem findChild_eq_lookup (h : n.Shape) (key : UInt8) :
    n.findChild key = n.kids.lookup key := by
  rcases ht : n.type with _ | _ | _ | _
  · simp only [findChild, ht]
  · simp only [findChild, ht]
  · simp only [findChild, ht, h.indexed ht]
    have hlen := h.length_le_48 ht
    by_cases hk : key ∈ keysOf n.kids
    · rw [if_pos (by rw [ne_eq, slotTable_eq_emptyMarker hlen]; exact not_not.mpr hk),
        toNat_slotTable hlen hk, lookup_eq_getElem? hk]
    · rw [if_neg (by rw [ne_eq, not_not, slotTable_eq_emptyMarker hlen]; exact hk),
        lookup_eq_none_iff_keys.mpr hk]
  · simp only [findChild, ht]

/-- Replacing the children by others under the same keys keeps the shape. -/
theorem Shape.of_keysOf_eq (h : n.Shape) {kids : List (UInt8 × Node)}
    (hk : keysOf kids = keysOf n.kids) : Shape { n with kids := kids } where
  nodup := by rw [hk]; exact h.nodup
  fits ht := by
    have := h.fits ht
    rwa [← length_keysOf, ← hk, length_keysOf] at this
  indexed ht := by rw [hk]; exact h.indexed ht
  ordered ht := by rw [hk]; exact h.ordered ht

/-- Overwriting an existing child, in any kind. -/
theorem setChild_eq (h : n.Shape) {key : UInt8} (hk : key ∈ keysOf n.kids) (child : Node) :
    n.setChild key child = { n with kids := setKey key child n.kids } := by
  rcases ht : n.type with _ | _ | _ | _
  · simp only [setChild, ht]
  · simp only [setChild, ht]
  · have hlen := h.length_le_48 ht
    have hne : n.index key ≠ emptyMarker := by
      rw [h.indexed ht, ne_eq, slotTable_eq_emptyMarker hlen]
      exact not_not.mpr hk
    have hpos : (n.index key).toNat = (keysOf n.kids).idxOf key := by
      rw [h.indexed ht, toNat_slotTable hlen hk]
    simp only [setChild, ht, if_pos hne, hpos, modify_idxOf hk]
  · simp only [setChild, ht, setSlot_eq_setKey (h.ordered ht) hk]

/-- A node that is not a `Node48` or `Node256` with the given children. -/
theorem Shape.keyed {kids : List (UInt8 × Node)} (hkids : n.kids = kids)
    (hnodup : (keysOf kids).Nodup) (hlen : kids.length ≤ n.type.capacity)
    (h48 : n.type ≠ .Node48) (h256 : n.type ≠ .Node256) : n.Shape where
  nodup := by rw [hkids]; exact hnodup
  fits _ := by rw [hkids]; exact hlen
  indexed ht := absurd ht h48
  ordered ht := absurd ht h256

theorem Shape.node48 (hnodup : (keysOf n.kids).Nodup) (ht : n.type = .Node48)
    (hlen : n.kids.length ≤ 48) (hidx : n.index = slotTable (keysOf n.kids)) : n.Shape where
  nodup := hnodup
  fits _ := by rw [ht]; exact hlen
  indexed _ := hidx
  ordered h256 := by rw [ht] at h256; cases h256

theorem Shape.node256 (ht : n.type = .Node256) (hord : (keysOf n.kids).Pairwise (· < ·)) :
    n.Shape where
  nodup := hord.imp ne_of_lt
  fits hne := absurd ht hne
  indexed h48 := by rw [ht] at h48; cases h48
  ordered _ := hord

/-! ## Specifications -/

theorem fillSlots_spec (kids : List (UInt8 × Node)) (h : (keysOf kids).Nodup) :
    (keysOf (fillSlots kids)).Pairwise (· < ·) ∧
      ∀ b, (fillSlots kids).lookup b = kids.lookup b := by
  induction kids using List.reverseRecOn with
  | nil => exact ⟨List.Pairwise.nil, fun _ => rfl⟩
  | append_singleton kids p ih =>
    obtain ⟨k, c⟩ := p
    rw [keysOf_append] at h
    obtain ⟨hkids, -, hdis⟩ := List.nodup_append.mp h
    have hk : k ∉ keysOf kids := fun hmem => hdis k hmem k (List.mem_singleton_self k) rfl
    obtain ⟨hord, hlook⟩ := ih hkids
    have hfill : fillSlots (kids ++ [(k, c)]) = setSlot k c (fillSlots kids) := by
      rw [fillSlots, List.foldl_append]
      rfl
    rw [hfill]
    refine ⟨setSlot_ordered k c hord, fun b => ?_⟩
    rw [lookup_setSlot k c hord, lookup_append_new hk, hlook]

theorem nodup_keysOf_append {l : List (UInt8 × Node)} {key : UInt8} (hl : (keysOf l).Nodup)
    (hk : key ∉ keysOf l) (child : Node) : (keysOf (l ++ [(key, child)])).Nodup := by
  rw [keysOf_append]
  refine List.nodup_append.mpr ⟨hl, List.nodup_singleton _, ?_⟩
  intro a ha b hb
  rw [List.mem_singleton.mp hb]
  rintro rfl
  exact hk ha

/-- `n'` is `n` with `child` under the edge byte `key`. -/
structure WithChild (n : Node) (key : UInt8) (child n' : Node) : Prop where
  /-- the result is well shaped -/
  shape : n'.Shape
  /-- the path is kept -/
  pre : n'.pre = n.pre
  /-- the route is kept -/
  leaf : n'.leaf = n.leaf
  /-- the child is the only change -/
  lookup : ∀ b, n'.kids.lookup b = if b = key then some child else n.kids.lookup b

theorem setChild_spec (h : n.Shape) {key : UInt8} (hk : key ∈ keysOf n.kids) (child : Node) :
    n.WithChild key child (n.setChild key child) := by
  rw [setChild_eq h hk]
  exact ⟨h.of_keysOf_eq (keysOf_setKey key child n.kids), rfl, rfl, lookup_setKey hk child⟩

section Adding

variable {key : UInt8} (hk : key ∉ keysOf n.kids) (child : Node) (book : TreeBook)

include hk

/-- A keyed node with room for one more. -/
theorem append_spec (h : n.Shape) (hroom : n.kids.length < n.type.capacity)
    (h48 : n.type ≠ .Node48) (h256 : n.type ≠ .Node256) :
    n.WithChild key child { n with kids := n.kids ++ [(key, child)] } where
  shape := Shape.keyed rfl (nodup_keysOf_append h.nodup hk child)
    (by rw [List.length_append]; exact hroom) h48 h256
  pre := rfl
  leaf := rfl
  lookup := lookup_append_new hk child

theorem growToNode16_spec (h : n.Shape) (hlen : n.kids.length ≤ 4) :
    n.WithChild key child (n.growToNode16 key child book).1 where
  shape := Shape.keyed rfl (nodup_keysOf_append h.nodup hk child)
    (by
      have hfit : (n.kids ++ [(key, child)]).length ≤ 16 := by
        rw [List.length_append, List.length_singleton]
        omega
      exact hfit)
    (by decide : NodeType.Node16 ≠ NodeType.Node48)
    (by decide : NodeType.Node16 ≠ NodeType.Node256)
  pre := rfl
  leaf := rfl
  lookup := lookup_append_new hk child

theorem growToNode48_spec (h : n.Shape) (hlen : n.kids.length ≤ 16) :
    n.WithChild key child (n.growToNode48 key child book).1 where
  shape := by
    have hnodup := nodup_keysOf_append h.nodup hk child
    have hfit : (n.kids ++ [(key, child)]).length ≤ 48 := by
      rw [List.length_append, List.length_singleton]
      omega
    have hidx : indexFrom emptyIndex 0 (keysOf n.kids ++ [key]) =
        slotTable (keysOf (n.kids ++ [(key, child)])) := by
      rw [keysOf_append] at hnodup ⊢
      exact indexFrom_emptyIndex hnodup
    exact Shape.node48 hnodup rfl hfit hidx
  pre := rfl
  leaf := rfl
  lookup := lookup_append_new hk child

omit hk in
theorem growToNode256_spec (h : n.Shape) :
    n.WithChild key child (n.growToNode256 key child book).1 := by
  obtain ⟨hord, hfill⟩ := fillSlots_spec n.kids h.nodup
  refine ⟨Shape.node256 rfl (setSlot_ordered key child hord), rfl, rfl, fun b => ?_⟩
  rw [← hfill b]
  exact lookup_setSlot key child hord b

/-- **Adding a child**, with the growth it may cause. -/
theorem addChild_spec (h : n.Shape) :
    n.WithChild key child (n.addChild key child book).1 := by
  rcases ht : n.type with _ | _ | _ | _
  · have hfit := h.fits (by rw [ht]; decide)
    rw [ht] at hfit
    simp only [addChild, ht]
    split
    · rename_i hroom
      have := append_spec hk child h (by rw [ht]; exact hroom) (by rw [ht]; decide)
        (by rw [ht]; decide)
      rwa [ht] at this
    · exact growToNode16_spec hk child book h hfit
  · have hfit := h.fits (by rw [ht]; decide)
    rw [ht] at hfit
    simp only [addChild, ht]
    split
    · rename_i hroom
      have := append_spec hk child h (by rw [ht]; exact hroom) (by rw [ht]; decide)
        (by rw [ht]; decide)
      rwa [ht] at this
    · exact growToNode48_spec hk child book h hfit
  · simp only [addChild, ht]
    split
    · rename_i hroom
      have hfit : (n.kids ++ [(key, child)]).length ≤ 48 := by
        rw [List.length_append, List.length_singleton]
        omega
      have hidx : Function.update n.index key (UInt8.ofNat n.kids.length) =
          slotTable (keysOf (n.kids ++ [(key, child)])) := by
        rw [h.indexed ht, ← length_keysOf, update_slotTable hk, keysOf_append]
        rfl
      exact ⟨Shape.node48 (nodup_keysOf_append h.nodup hk child) rfl hfit hidx, rfl, rfl,
        lookup_append_new hk child⟩
    · exact growToNode256_spec child book h
  · -- the direct-mapped kind never grows
    have hord := h.ordered ht
    simp only [addChild, ht]
    exact ⟨Shape.node256 rfl (setSlot_ordered key child hord), rfl, rfl,
      lookup_setSlot key child hord⟩

end Adding

/-- The kind `create_node_for_capacity` chooses. -/
def typeForCapacity (capacity : ℕ) : NodeType :=
  if capacity ≤ 4 then .Node4
  else if capacity ≤ 16 then .Node16
  else if capacity ≤ 48 then .Node48
  else .Node256

theorem createNodeForCapacity_eq (capacity : ℕ) (book : TreeBook) :
    createNodeForCapacity capacity book = makeNode (typeForCapacity capacity) book := by
  unfold createNodeForCapacity typeForCapacity
  split_ifs <;> rfl

/-- Moving children into a fresh `Node4` or `Node16` that they fit. -/
theorem moveChildrenToNewNode_keyed (h : n.Shape) {dest : Node} (hkids : dest.kids = [])
    (ht : dest.type = .Node4 ∨ dest.type = .Node16)
    (hlen : n.kids.length ≤ dest.type.capacity) :
    (moveChildrenToNewNode n dest).2.Shape ∧
      (moveChildrenToNewNode n dest).2.kids = n.kids ∧
      (moveChildrenToNewNode n dest).2.pre = dest.pre ∧
      (moveChildrenToNewNode n dest).2.leaf = dest.leaf := by
  have key : (moveChildrenToNewNode n dest).2 = { dest with kids := n.kids } := by
    rcases ht with hd | hd <;> rcases hn : n.type with _ | _ | _ | _ <;>
      simp only [moveChildrenToNewNode, hn, hd, hkids, List.nil_append]
  rw [key]
  refine ⟨Shape.keyed rfl h.nodup hlen ?_ ?_, rfl, rfl, rfl⟩
  · rcases ht with hd | hd <;> simp [hd]
  · rcases ht with hd | hd <;> simp [hd]

/-- **Moving children** into a fresh node of the kind they need loses none. -/
theorem moveChildrenToNewNode_spec (h : n.Shape) (dest : Node) (hkids : dest.kids = [])
    (hidx : dest.index = emptyIndex) (ht : dest.type = typeForCapacity n.kids.length) :
    (moveChildrenToNewNode n dest).2.Shape ∧
      (moveChildrenToNewNode n dest).2.kids = n.kids ∧
      (moveChildrenToNewNode n dest).2.pre = dest.pre ∧
      (moveChildrenToNewNode n dest).2.leaf = dest.leaf := by
  by_cases h4 : n.kids.length ≤ 4
  · have hd : dest.type = .Node4 := by rw [ht, typeForCapacity, if_pos h4]
    refine moveChildrenToNewNode_keyed h hkids (.inl hd) ?_
    rw [hd]
    exact h4
  by_cases h16 : n.kids.length ≤ 16
  · have hd : dest.type = .Node16 := by rw [ht, typeForCapacity, if_neg h4, if_pos h16]
    refine moveChildrenToNewNode_keyed h hkids (.inr hd) ?_
    rw [hd]
    exact h16
  by_cases h48 : n.kids.length ≤ 48
  · have hd : dest.type = .Node48 := by
      rw [ht, typeForCapacity, if_neg h4, if_neg h16, if_pos h48]
    have key : (moveChildrenToNewNode n dest).2 =
        { dest with kids := n.kids, index := slotTable (keysOf n.kids) } := by
      rcases hn : n.type with _ | _ | _ | _
      · have := h.fits (by rw [hn]; decide)
        rw [hn] at this
        exact absurd this h4
      · have := h.fits (by rw [hn]; decide)
        rw [hn] at this
        exact absurd this h16
      · simp only [moveChildrenToNewNode, hn, hd, h.indexed hn]
      · simp only [moveChildrenToNewNode, hn, hd, hkids, hidx, List.nil_append,
          List.length_nil, indexFrom_emptyIndex h.nodup]
    rw [key]
    exact ⟨Shape.node48 h.nodup hd h48 rfl, rfl, rfl, rfl⟩
  · -- only a `Node256` holds this many children, and it moves slot by slot
    have hd : dest.type = .Node256 := by
      rw [ht, typeForCapacity, if_neg h4, if_neg h16, if_neg h48]
    have hn : n.type = .Node256 := by
      by_contra hne
      have hfit := h.fits hne
      have hcap : n.type.capacity ≤ 48 := by
        revert hne
        cases n.type <;> decide
      omega
    have key : (moveChildrenToNewNode n dest).2 = { dest with kids := n.kids } := by
      simp only [moveChildrenToNewNode, hn, hd]
    rw [key]
    exact ⟨Shape.node256 hd (h.ordered hn), rfl, rfl, rfl⟩

/-- The source of a move keeps everything but its children. -/
theorem moveChildrenToNewNode_src (n dest : Node) :
    (moveChildrenToNewNode n dest).1.kids = [] ∧
      (moveChildrenToNewNode n dest).1.pre = n.pre ∧
      (moveChildrenToNewNode n dest).1.leaf = n.leaf ∧
      ((moveChildrenToNewNode n dest).1.type = .Node48 →
        (moveChildrenToNewNode n dest).1.index = emptyIndex) := by
  rcases hn : n.type with _ | _ | _ | _ <;>
    simp [moveChildrenToNewNode, hn, Node.leaf]

/-- The one child of a node just emptied by a split. -/
theorem addSingleChildAfterSplit_spec (hkids : n.kids = [])
    (hidx : n.type = .Node48 → n.index = emptyIndex) (key : UInt8) (child : Node) :
    (n.addSingleChildAfterSplit key child).Shape ∧
      (n.addSingleChildAfterSplit key child).pre = n.pre ∧
      (n.addSingleChildAfterSplit key child).leaf = n.leaf ∧
      (n.addSingleChildAfterSplit key child).kids = [(key, child)] := by
  have hone : (keysOf [(key, child)]).Nodup := List.nodup_singleton key
  rcases hn : n.type with _ | _ | _ | _
  · simp only [addSingleChildAfterSplit, hn, hkids, List.nil_append]
    exact ⟨Shape.keyed rfl hone (by decide : 1 ≤ 4)
      (by decide : NodeType.Node4 ≠ NodeType.Node48)
      (by decide : NodeType.Node4 ≠ NodeType.Node256), trivial, rfl, trivial⟩
  · simp only [addSingleChildAfterSplit, hn, hkids, List.nil_append]
    exact ⟨Shape.keyed rfl hone (by decide : 1 ≤ 16)
      (by decide : NodeType.Node16 ≠ NodeType.Node48)
      (by decide : NodeType.Node16 ≠ NodeType.Node256), trivial, rfl, trivial⟩
  · simp only [addSingleChildAfterSplit, hn, hkids, hidx hn, List.nil_append]
    have htable : Function.update emptyIndex key 0 = slotTable [key] :=
      @update_slotTable [] key List.not_mem_nil
    exact ⟨Shape.node48 hone rfl (by decide : 1 ≤ 48) htable, trivial, rfl, trivial⟩
  · simp only [addSingleChildAfterSplit, hn, hkids]
    exact ⟨Shape.node256 rfl (List.pairwise_singleton _ key), trivial, rfl, rfl⟩

end Specs

end Node

end Ranvier
