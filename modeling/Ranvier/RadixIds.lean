import Ranvier.RadixOps

/-!
# Node identities

The recency lists name nodes by identity, so what a write through a list pointer
touches depends on how often an identity occurs in the tree. `idCount i n` counts
it; every operation allocates fresh identities only, so in a tree built by the
operations no identity occurs twice (`Allocated`), and a write through a pointer
changes the route of one key at most (`writeAt_one`).
-/

namespace Ranvier

namespace Node

mutual

/-- How often the identity `i` occurs in a subtree. -/
def idCount (i : ℕ) : Node → ℕ
  | ⟨_, id, _, _, _, _, _, _, kids⟩ => (if id = i then 1 else 0) + idCountKids i kids

/-- How often it occurs below a node. -/
def idCountKids (i : ℕ) : List (UInt8 × Node) → ℕ
  | [] => 0
  | (_, c) :: kids => idCount i c + idCountKids i kids

end

theorem idCountKids_eq (i : ℕ) (kids : List (UInt8 × Node)) :
    idCountKids i kids = weightOf (idCount i) kids := by
  induction kids with
  | nil => rfl
  | cons p kids ih =>
    obtain ⟨k, c⟩ := p
    rw [idCountKids, weightOf, ih]

theorem idCount_eq (i : ℕ) (n : Node) :
    n.idCount i = (if n.id = i then 1 else 0) + weightOf (idCount i) n.kids := by
  cases n
  rw [idCount, idCountKids_eq]

end Node

/-- The number of times `i` was handed out between two states of the allocator. -/
def freshBetween (book book' : TreeBook) (i : ℕ) : ℕ :=
  if book.nextId ≤ i ∧ i < book'.nextId then 1 else 0

theorem freshBetween_trans {b₀ b₁ b₂ : TreeBook} (h₀₁ : b₀.nextId ≤ b₁.nextId)
    (h₁₂ : b₁.nextId ≤ b₂.nextId) (i : ℕ) :
    freshBetween b₀ b₁ i + freshBetween b₁ b₂ i = freshBetween b₀ b₂ i := by
  unfold freshBetween
  split_ifs <;> omega

theorem freshBetween_of_eq {b b' : TreeBook} (h : b'.nextId = b.nextId) (i : ℕ) :
    freshBetween b b' i = 0 := by
  unfold freshBetween
  rw [if_neg (by omega)]

/-- From `b` to `b'` the identities in a subtree grew, from the given count, by
fresh ones at most. -/
structure Allocates (b b' : TreeBook) (before : ℕ → ℕ) (after : Node) : Prop where
  /-- the allocator moves forward -/
  mono : b.nextId ≤ b'.nextId
  /-- new occurrences are fresh -/
  le : ∀ i, after.idCount i ≤ before i + freshBetween b b' i

theorem Allocates.trans {b₀ b₁ b₂ : TreeBook} {before : ℕ → ℕ} {n n' : Node}
    (h : Allocates b₀ b₁ before n) (h' : Allocates b₁ b₂ (fun i => n.idCount i) n') :
    Allocates b₀ b₂ before n' := by
  refine ⟨h.mono.trans h'.mono, fun i => ?_⟩
  have h₁ := h.le i
  have h₂ := h'.le i
  have h₃ := freshBetween_trans h.mono h'.mono i
  omega

/-- An operation that allocates nothing and adds no occurrence. -/
theorem Allocates.of_le {b b' : TreeBook} {before : ℕ → ℕ} {n : Node}
    (hbook : b'.nextId = b.nextId) (h : ∀ i, n.idCount i ≤ before i) :
    Allocates b b' before n :=
  ⟨hbook.ge, fun i => (h i).trans (Nat.le_add_right _ _)⟩

/-- **Identities stay distinct** under an operation that allocates fresh ones. -/
theorem Allocates.distinct {b b' : TreeBook} {n n' : Node}
    (h : Allocates b b' (fun i => n.idCount i) n') (hunique : ∀ i, n.idCount i ≤ 1)
    (hout : ∀ i, b.nextId ≤ i → n.idCount i = 0) :
    (∀ i, n'.idCount i ≤ 1) ∧ ∀ i, b'.nextId ≤ i → n'.idCount i = 0 := by
  have hmono := h.mono
  refine ⟨fun i => ?_, fun i hi => ?_⟩
  · have hle := h.le i
    have h₁ := hunique i
    have h₀ := hout i
    rw [freshBetween] at hle
    split_ifs at hle <;> omega
  · have hle := h.le i
    have h₀ := hout i
    rw [freshBetween, if_neg (by omega)] at hle
    omega

namespace Node

variable {n : Node} {book : TreeBook}

/-- A node allocated in `book` whose children are accounted for by `before`. -/
theorem Allocates.fresh {n' : Node} {book' : TreeBook} (hid : n'.id = book.nextId)
    (hbook : book'.nextId = book.nextId + 1) {before : ℕ → ℕ}
    (hkids : ∀ i, weightOf (idCount i) n'.kids ≤ before i) : Allocates book book' before n' := by
  refine ⟨by omega, fun i => ?_⟩
  have := hkids i
  rw [idCount_eq, freshBetween, hid]
  split_ifs <;> omega

/-! ## Allocation in each operation -/

theorem transferNodeMetadata_nextId (dest src : Node) (book : TreeBook) :
    (transferNodeMetadata dest src book).2.nextId = book.nextId := by
  unfold transferNodeMetadata
  dsimp only
  split <;> rfl

theorem weightOf_fillSlots_le (w : Node → ℕ) (kids : List (UInt8 × Node)) :
    weightOf w (fillSlots kids) ≤ weightOf w kids := by
  induction kids using List.reverseRecOn with
  | nil => exact Nat.le_refl _
  | append_singleton kids p ih =>
    have hfill : fillSlots (kids ++ [p]) = setSlot p.1 p.2 (fillSlots kids) := by
      rw [fillSlots, List.foldl_append]
      rfl
    rw [hfill, weightOf_append]
    refine (weightOf_setSlot_le w p.1 p.2 (fillSlots kids)).trans ?_
    simp only [weightOf]
    omega

theorem weightOf_append_one (w : Node → ℕ) (kids : List (UInt8 × Node)) (key : UInt8)
    (child : Node) : weightOf w (kids ++ [(key, child)]) = weightOf w kids + w child := by
  rw [weightOf_append]
  rfl

theorem addChild_allocates (n : Node) (key : UInt8) (child : Node) (book : TreeBook) :
    Allocates book (n.addChild key child book).2 (fun i => n.idCount i + child.idCount i)
      (n.addChild key child book).1 := by
  -- with room the node keeps its identity; growth gives it a fresh one
  have hroom : ∀ n' : Node, n'.id = n.id → n'.kids = n.kids ++ [(key, child)] →
      Allocates book book (fun i => n.idCount i + child.idCount i) n' := by
    intro n' hid hkids
    refine Allocates.of_le rfl fun i => ?_
    rw [idCount_eq, idCount_eq i n, hid, hkids, weightOf_append_one]
    omega
  have hgrow : ∀ i, weightOf (idCount i) (n.kids ++ [(key, child)]) ≤
      n.idCount i + child.idCount i := by
    intro i
    rw [idCount_eq i n, weightOf_append_one]
    omega
  rcases ht : n.type with _ | _ | _ | _
  · simp only [addChild, ht]
    split
    · exact hroom _ rfl rfl
    · exact Allocates.fresh rfl (transferNodeMetadata_nextId _ _ _) hgrow
  · simp only [addChild, ht]
    split
    · exact hroom _ rfl rfl
    · exact Allocates.fresh rfl (transferNodeMetadata_nextId _ _ _) hgrow
  · simp only [addChild, ht]
    split
    · exact hroom _ rfl rfl
    · refine Allocates.fresh rfl (transferNodeMetadata_nextId _ _ _) fun i => ?_
      have hslot := weightOf_setSlot_le (idCount i) key child (fillSlots n.kids)
      have hfill := weightOf_fillSlots_le (idCount i) n.kids
      have hn := idCount_eq i n
      exact hslot.trans (by omega)
  · simp only [addChild, ht]
    refine Allocates.of_le rfl fun i => ?_
    have hslot := weightOf_setSlot_le (idCount i) key child n.kids
    rw [idCount_eq, idCount_eq i n]
    dsimp only
    omega

theorem setChild_idCount (h : n.Shape) {key : UInt8} {d : Node}
    (hd : n.kids.lookup key = some d) (c : Node) (i : ℕ) :
    (n.setChild key c).idCount i + d.idCount i = n.idCount i + c.idCount i := by
  have hmem : key ∈ keysOf n.kids := lookup_isSome_iff.mp (by rw [hd]; rfl)
  rw [setChild_eq h hmem, idCount_eq, idCount_eq i n]
  have := weightOf_setKey (idCount i) hd c
  dsimp only
  omega

theorem moveChildrenToNewNode_idCount (src dest : Node) :
    (moveChildrenToNewNode src dest).1.id = src.id ∧
      (moveChildrenToNewNode src dest).2.id = dest.id ∧
      ∀ i, weightOf (idCount i) (moveChildrenToNewNode src dest).2.kids ≤
        weightOf (idCount i) src.kids + weightOf (idCount i) dest.kids := by
  rcases hs : src.type with _ | _ | _ | _ <;> rcases hd : dest.type with _ | _ | _ | _ <;>
    simp [moveChildrenToNewNode, hs, hd, weightOf_append, Nat.add_comm]

theorem addSingleChildAfterSplit_id (n : Node) (key : UInt8) (child : Node) :
    (n.addSingleChildAfterSplit key child).id = n.id := by
  unfold addSingleChildAfterSplit
  split <;> rfl

theorem cutAt_id (n : Node) (point : ℕ) (newChild : Node) (book : TreeBook) :
    (n.cutAt point newChild book).1.id = n.id := by
  unfold cutAt
  rw [addSingleChildAfterSplit_id]
  exact (moveChildrenToNewNode_idCount { n with leafValue := none }
    (n.cutChild point newChild)).1

theorem cutAt_idCount (n : Node) (point : ℕ) (newChild : Node) (book : TreeBook) (i : ℕ) :
    (n.cutAt point newChild book).1.idCount i ≤ n.idCount i + newChild.idCount i := by
  obtain ⟨-, hdest, hkids⟩ := moveChildrenToNewNode_idCount { n with leafValue := none }
    (n.cutChild point newChild)
  have hid := cutAt_id n point newChild book
  have hk : weightOf (idCount i) (moveChildrenToNewNode { n with leafValue := none }
      (n.cutChild point newChild)).2.kids ≤
        weightOf (idCount i) n.kids + weightOf (idCount i) newChild.kids := hkids i
  have hdest' : (moveChildrenToNewNode { n with leafValue := none }
      (n.cutChild point newChild)).2.id = newChild.id := hdest
  rw [idCount_eq, hid, (cutAt_shell n point newChild book).2.2.2, weightOf, weightOf, idCount_eq,
    hdest', idCount_eq i n, idCount_eq i newChild]
  omega

theorem cutAt_nextId (n : Node) (point : ℕ) (newChild : Node) (book : TreeBook) :
    (n.cutAt point newChild book).2.nextId = book.nextId := by
  unfold cutAt
  dsimp only
  split <;> rfl

/-- A cut into a node just allocated. -/
theorem cutAt_allocates (n : Node) (point : ℕ) (type : NodeType) (book : TreeBook) :
    Allocates book (n.cutAt point (makeNode type book).1 (makeNode type book).2).2
      (fun i => n.idCount i) (n.cutAt point (makeNode type book).1 (makeNode type book).2).1 := by
  have hnew : Allocates book (makeNode type book).2 (fun _ => 0) (makeNode type book).1 :=
    Allocates.fresh rfl rfl fun _ => Nat.le_refl _
  have hnext := cutAt_nextId n point (makeNode type book).1 (makeNode type book).2
  refine ⟨hnew.mono.trans hnext.ge, fun i => ?_⟩
  have h₁ := cutAt_idCount n point (makeNode type book).1 (makeNode type book).2 i
  have h₂ := hnew.le i
  have h₃ := freshBetween_trans hnew.mono hnext.ge i
  rw [freshBetween_of_eq hnext] at h₃
  omega

theorem splitLongPrefix_allocates (n : Node) (book : TreeBook) :
    Allocates book (n.splitLongPrefix book).2 (fun i => n.idCount i)
      (n.splitLongPrefix book).1 := by
  fun_induction splitLongPrefix n book with
  | case1 n book hlong ih => exact (cutAt_allocates n maxPrefixLength .Node4 book).trans ih
  | case2 n book hshort => exact Allocates.of_le rfl fun _ => Nat.le_refl _

theorem splitNode_allocates (n : Node) (point : ℕ) (book : TreeBook) :
    Allocates book (n.splitNode point book).2 (fun i => n.idCount i)
      (n.splitNode point book).1 := by
  have hcut := cutAt_allocates n point (typeForCapacity n.childCount) book
  rw [← createNodeForCapacity_eq] at hcut
  unfold splitNode
  dsimp only
  split
  · exact hcut.trans (splitLongPrefix_allocates _ _)
  · exact hcut

/-! ## Insertion -/

theorem noteRouteAdded_nextId (book : TreeBook) (b : BackendId) (k : ℕ) :
    (book.noteRouteAdded b k).nextId = book.nextId := by
  unfold TreeBook.noteRouteAdded
  split
  · rfl
  · split <;> rfl

theorem noteRouteRemoved_nextId (book : TreeBook) (b : Option BackendId) (k : ℕ) :
    (book.noteRouteRemoved b k).nextId = book.nextId := by
  unfold TreeBook.noteRouteRemoved
  split
  · rfl
  · split
    · rfl
    · dsimp only
      split <;> rfl

theorem overwriteLeaf_allocates (req : InsertRequest) (n : Node) (book : TreeBook) :
    Allocates book (overwriteLeaf req n book).book (fun i => n.idCount i)
      (overwriteLeaf req n book).node := by
  refine Allocates.of_le ?_ fun i => ?_
  · simp only [overwriteLeaf]
    split_ifs <;> simp only [noteRouteAdded_nextId, noteRouteRemoved_nextId]
  · rw [idCount_eq, idCount_eq i n]
    rfl

theorem updateLeaf_allocates (req : InsertRequest) (n : Node) (book : TreeBook) :
    Allocates book (updateLeaf req n book).book (fun i => n.idCount i)
      (updateLeaf req n book).node := by
  unfold updateLeaf
  split
  · split_ifs
    · exact overwriteLeaf_allocates req n book
    · exact Allocates.of_le rfl fun _ => Nat.le_refl _
    · refine Allocates.of_le rfl fun i => ?_
      rw [idCount_eq, idCount_eq i n]
    · exact Allocates.of_le rfl fun _ => Nat.le_refl _
    · exact overwriteLeaf_allocates req n book
  · exact overwriteLeaf_allocates req n book

theorem newLeaf_allocates (req : InsertRequest) (rest : List UInt8) (book : TreeBook) :
    Allocates book (newLeaf req rest book).2 (fun _ => 0) (newLeaf req rest book).1 :=
  Allocates.fresh rfl (noteRouteAdded_nextId _ _ _) fun _ => Nat.le_refl _

theorem split_allocates {n : Node} {point : ℕ} {book : TreeBook} {s : Node × TreeBook}
    (hs : s = if point < n.pre.length then n.splitNode point book else (n, book)) :
    Allocates book s.2 (fun i => n.idCount i) s.1 := by
  rw [hs]
  split
  · exact splitNode_allocates n point book
  · exact Allocates.of_le rfl fun _ => Nat.le_refl _

/-- An insertion brings in fresh identities only. -/
theorem insertRecursive_allocates (req : InsertRequest) (n : Node) (key : List UInt8)
    (book : TreeBook) (hwf : n.WF) (hmax : n.splitsWithinMax key = true) :
    Allocates book (insertRecursive req n key book).book (fun i => n.idCount i)
      (insertRecursive req n key book).node := by
  fun_induction insertRecursive req n key book with
  | case1 n key book len s hrem =>
    exact (split_allocates (s := s) rfl).trans (updateLeaf_allocates req s.1 s.2)
  | case2 n key book len s b rest hrem child hfind r ih =>
    obtain ⟨hwf', -, -, -, hdesc⟩ := split_ready hwf hmax book (s := s) rfl
    rw [findChild_eq_lookup hwf'.shape] at hfind
    have hr : Allocates s.2 r.book (fun i => child.idCount i) r.node :=
      ih (hwf'.kids b child hfind) (hdesc b rest child hrem hfind)
    refine (split_allocates (s := s) rfl).trans ⟨hr.mono, fun i => ?_⟩
    have hset := setChild_idCount hwf'.shape hfind r.node i
    have hle := hr.le i
    dsimp only
    omega
  | case3 n key book len s b rest hrem hfind c₀ c p =>
    have hc : Allocates s.2 c.2 (fun _ => 0) c.1 := by
      by_cases hlong : maxPrefixLength < c₀.1.pre.length
      · rw [show c = c₀.1.splitLongPrefix c₀.2 from if_pos hlong]
        exact (newLeaf_allocates req rest s.2).trans (splitLongPrefix_allocates c₀.1 c₀.2)
      · rw [show c = c₀ from if_neg hlong]
        exact newLeaf_allocates req rest s.2
    have hadd : Allocates c.2 p.2 (fun i => s.1.idCount i + c.1.idCount i) p.1 :=
      addChild_allocates s.1 b c.1 c.2
    refine (split_allocates (s := s) rfl).trans ⟨hc.mono.trans hadd.mono, fun i => ?_⟩
    have h₁ := hc.le i
    have h₂ := hadd.le i
    have h₃ := freshBetween_trans hc.mono hadd.mono i
    dsimp only at h₂ ⊢
    omega

/-! ## Edits and compaction -/

theorem writeAt_idCount (target : ℕ) (f : Node → Node)
    (hf : ∀ m, (f m).id = m.id ∧ (f m).kids = m.kids) (i : ℕ) (n : Node) :
    (writeAt target f n).idCount i = n.idCount i := by
  induction n using induct with
  | h n ih =>
    have hkids : weightOf (idCount i) (writeAtKids target f n.kids) =
        weightOf (idCount i) n.kids := by
      generalize n.kids = kids at ih
      induction kids with
      | nil => rfl
      | cons p kids ihk =>
        obtain ⟨k, c⟩ := p
        rw [writeAtKids, weightOf, weightOf, ih (k, c) List.mem_cons_self,
          ihk fun p hp => ih p (List.mem_cons_of_mem _ hp)]
    rw [writeAt_eq, idCount_eq i n, ← hkids]
    split
    · rw [idCount_eq, (hf _).1, (hf _).2]
    · rw [idCount_eq]

theorem removeIf_idCount (p : Leaf → Bool) (n : Node) (st : TreeBook × ℕ) (i : ℕ) :
    (removeIf p n st).1.idCount i = n.idCount i ∧
      (removeIf p n st).2.1.nextId = st.1.nextId := by
  induction n using induct generalizing st with
  | h n ih =>
    obtain ⟨type, id, pre, leafValue, origin, keyTokens, lastAccessed, index, kids⟩ := n
    have hkids : ∀ st, weightOf (idCount i) (removeIfKids p kids st).1 =
        weightOf (idCount i) kids ∧ (removeIfKids p kids st).2.1.nextId = st.1.nextId := by
      dsimp only at ih
      induction kids with
      | nil => exact fun st => ⟨rfl, rfl⟩
      | cons q kids ihk =>
        intro st
        obtain ⟨k, c⟩ := q
        obtain ⟨hc, hcn⟩ := ih (k, c) List.mem_cons_self st
        obtain ⟨hr, hrn⟩ := ihk (fun q hq => ih q (List.mem_cons_of_mem _ hq)) (removeIf p c st).2
        rw [removeIfKids, weightOf, weightOf, hc, hr]
        exact ⟨rfl, hrn.trans hcn⟩
    obtain ⟨book, removed⟩ := st
    rw [idCount_eq i ⟨type, id, pre, leafValue, origin, keyTokens, lastAccessed, index, kids⟩]
    rcases leafValue with _ | b
    · rw [removeIf, idCount_eq, (hkids _).1]
      exact ⟨rfl, (hkids _).2⟩
    · rw [removeIf]
      split
      · rw [idCount_eq, (hkids _).1]
        exact ⟨rfl, (hkids _).2.trans (noteRouteRemoved_nextId _ _ _)⟩
      · rw [idCount_eq, (hkids _).1]
        exact ⟨rfl, (hkids _).2⟩

theorem removeChild_id (n : Node) (key : UInt8) : (n.removeChild key).1.id = n.id := by
  simp only [removeChild]
  split <;> split <;> rfl

theorem removeChild_idCount_le (h : n.Shape) {key : UInt8} (hk : key ∈ keysOf n.kids) (i : ℕ) :
    (n.removeChild key).1.idCount i ≤ n.idCount i := by
  rw [idCount_eq, idCount_eq i n, removeChild_id, (removeChild_spec h hk).2.2.2]
  exact Nat.add_le_add_left (weightOf_eraseKey_le _ _ _) _

/-- A shrink allocates the replacement. -/
theorem shrinkTo_id (n : Node) (book : TreeBook) :
    (n.shrinkToNode4 book).1.id = book.nextId ∧ (n.shrinkToNode16 book).1.id = book.nextId ∧
      (n.shrinkToNode48 book).1.id = book.nextId := by
  refine ⟨?_, ?_, ?_⟩
  · cases ht : n.type <;> simp only [shrinkToNode4, ht] <;> rfl
  · cases ht : n.type <;> simp only [shrinkToNode16, ht] <;> rfl
  · cases ht : n.type <;> simp only [shrinkToNode48, ht] <;> rfl

/-- What a shrink can do: nothing, or put a fresh node in the place of the old one. -/
theorem shrinkIfNeeded_cases (n : Node) (stats : CompactionStats) (book : TreeBook) :
    ((n.shrinkIfNeeded stats book).1 = n ∧ (n.shrinkIfNeeded stats book).2.2 = book) ∨
      ∃ type, (n.shrinkIfNeeded stats book).1.id = book.nextId ∧
        (n.shrinkIfNeeded stats book).2.2 =
          (transferNodeMetadata (makeNode type book).1 n (makeNode type book).2).2 := by
  obtain ⟨h4, h16, h48⟩ := shrinkTo_id n book
  unfold shrinkIfNeeded shrinkNode
  dsimp only
  split
  · split
    · split_ifs
      · exact Or.inr ⟨.Node4, h4, rfl⟩
      · exact Or.inr ⟨.Node16, h16, rfl⟩
      · exact Or.inr ⟨.Node48, h48, rfl⟩
      · exact Or.inl ⟨rfl, rfl⟩
    · split_ifs
      · exact Or.inr ⟨.Node4, h4, rfl⟩
      · exact Or.inr ⟨.Node16, h16, rfl⟩
      · exact Or.inl ⟨rfl, rfl⟩
    · split_ifs
      · exact Or.inr ⟨.Node4, h4, rfl⟩
      · exact Or.inl ⟨rfl, rfl⟩
    · exact Or.inl ⟨rfl, rfl⟩
  · exact Or.inl ⟨rfl, rfl⟩

theorem shrinkIfNeeded_allocates (h : n.Shape) (stats : CompactionStats) (book : TreeBook) :
    Allocates book (n.shrinkIfNeeded stats book).2.2 (fun i => n.idCount i)
      (n.shrinkIfNeeded stats book).1 := by
  have hkids := (shrinkIfNeeded_spec h stats book).kids
  rcases shrinkIfNeeded_cases n stats book with ⟨hn, hb⟩ | ⟨type, hid, hb⟩
  · rw [hn, hb]
    exact Allocates.of_le rfl fun _ => Nat.le_refl _
  · have hnext : (n.shrinkIfNeeded stats book).2.2.nextId = book.nextId + 1 := by
      rw [hb]
      exact transferNodeMetadata_nextId _ _ _
    refine Allocates.fresh hid hnext fun i => ?_
    rw [hkids, idCount_eq i n]
    exact Nat.le_add_left _ _

theorem removeKeys_idCount_le (h : n.Shape) (stats : CompactionStats) {keys : List UInt8}
    (hnodup : keys.Nodup) (hmem : ∀ b, b ∈ keys → b ∈ keysOf n.kids) (i : ℕ) :
    (removeKeys n stats keys).1.idCount i ≤ n.idCount i := by
  induction keys generalizing n stats with
  | nil => exact Nat.le_refl _
  | cons key keys ih =>
    rw [List.nodup_cons] at hnodup
    have hk := hmem key List.mem_cons_self
    obtain ⟨hshape, -, -, hkids⟩ := removeChild_spec h hk
    refine (ih hshape _ hnodup.2 fun b hb => ?_).trans (removeChild_idCount_le h hk i)
    have hne : b ≠ key := by
      rintro rfl
      exact hnodup.1 hb
    rw [hkids, keysOf_eraseKey, List.mem_erase_of_ne hne]
    exact hmem b (List.mem_cons_of_mem _ hb)

theorem compactChildren_book (n : Node) (stats : CompactionStats) (book : TreeBook) :
    (compactChildren n stats book).2.2 = (compactKids n.kids stats book).2.2.2 := by
  cases n
  rfl

/-- Compaction brings in fresh identities only. -/
theorem compactChildren_allocates (n : Node) (hwf : n.WF) (stats : CompactionStats)
    (book : TreeBook) :
    Allocates book (compactChildren n stats book).2.2 (fun i => n.idCount i)
      (compactChildren n stats book).1 := by
  induction n using induct generalizing stats book with
  | h n ih =>
    -- the children one after the other: each brings its own fresh identities
    have hkids : ∀ kids : List (UInt8 × Node), (∀ p, p ∈ kids → p ∈ n.kids) → ∀ stats book,
        book.nextId ≤ (compactKids kids stats book).2.2.2.nextId ∧
          ∀ i, weightOf (idCount i) (compactKids kids stats book).1 ≤
            weightOf (idCount i) kids + freshBetween book (compactKids kids stats book).2.2.2 i := by
      intro kids hsub
      induction kids with
      | nil => exact fun stats book => ⟨Nat.le_refl _, fun i => Nat.zero_le _⟩
      | cons p kids ihk =>
        intro stats book
        obtain ⟨k, c⟩ := p
        have hmem : (k, c) ∈ n.kids := hsub _ List.mem_cons_self
        have hcwf := hwf.kids k c (lookup_of_mem hwf.shape.nodup hmem)
        have hc : Allocates book (compactChildren c stats book).2.2 (fun i => c.idCount i)
            (compactChildren c stats book).1 := ih (k, c) hmem hcwf stats book
        have hcs := hc.trans (shrinkIfNeeded_allocates
          (compactChildren_spec c hcwf stats book).1.shape
          (compactChildren c stats book).2.1 (compactChildren c stats book).2.2)
        rw [compactKids]
        generalize (compactChildren c stats book).1.shrinkIfNeeded
          (compactChildren c stats book).2.1 (compactChildren c stats book).2.2 = r at hcs
        obtain ⟨hmono, hle⟩ := ihk (fun p hp => hsub p (List.mem_cons_of_mem _ hp)) r.2.1 r.2.2
        refine ⟨hcs.mono.trans hmono, fun i => ?_⟩
        have h₁ := hcs.le i
        have h₂ := hle i
        have h₃ := freshBetween_trans hcs.mono hmono i
        dsimp only at h₁ ⊢
        rw [weightOf, weightOf]
        omega
    obtain ⟨hmono, hle⟩ := hkids n.kids (fun _ h => h) stats book
    obtain ⟨hsub, -⟩ := compactKids_removed n.kids hwf.shape.nodup stats book
    rw [compactChildren_book]
    refine ⟨hmono, fun i => ?_⟩
    have hshape : Shape { n with kids := (compactKids n.kids stats book).1 } :=
      hwf.shape.of_keysOf_eq (keysOf_compactKids n.kids stats book)
    have hrem := removeKeys_idCount_le hshape (compactKids n.kids stats book).2.2.1
      (hwf.shape.nodup.sublist hsub)
      (fun b hb => by
        change b ∈ keysOf (compactKids n.kids stats book).1
        rw [keysOf_compactKids]
        exact hsub.subset hb) i
    rw [compactChildren_eq]
    refine hrem.trans ?_
    rw [idCount_eq, idCount_eq i n]
    have := hle i
    dsimp only
    omega

/-! ## A write hits one key -/

theorem mk_eta (n : Node) : (⟨n.type, n.id, n.pre, n.leafValue, n.origin, n.keyTokens,
    n.lastAccessed, n.index, n.kids⟩ : Node) = n := by
  cases n
  rfl

/-- A write through a pointer that is not in the subtree changes nothing. -/
theorem writeAt_of_idCount_zero {target : ℕ} {n : Node} (h : n.idCount target = 0)
    (f : Node → Node) : writeAt target f n = n := by
  induction n using induct with
  | h n ih =>
    rw [idCount_eq] at h
    have hkids : ∀ kids : List (UInt8 × Node), (∀ p, p ∈ kids → p ∈ n.kids) →
        weightOf (idCount target) kids = 0 → writeAtKids target f kids = kids := by
      intro kids hsub hzero
      induction kids with
      | nil => rfl
      | cons p kids ihk =>
        obtain ⟨k, c⟩ := p
        rw [weightOf] at hzero
        have hc : writeAt target f c = c := ih (k, c) (hsub _ List.mem_cons_self) (by dsimp only; omega)
        rw [writeAtKids, hc, ihk (fun p hp => hsub p (List.mem_cons_of_mem _ hp)) (by omega)]
    have hid : n.id ≠ target := by
      intro he
      rw [if_pos he] at h
      omega
    rw [writeAt_eq, if_neg hid, hkids n.kids (fun _ h => h) (by omega), mk_eta]

theorem writeAtKids_of_weightOf_zero {target : ℕ} {kids : List (UInt8 × Node)}
    (h : weightOf (idCount target) kids = 0) (f : Node → Node) :
    writeAtKids target f kids = kids := by
  induction kids with
  | nil => rfl
  | cons p kids ih =>
    obtain ⟨k, c⟩ := p
    rw [weightOf] at h
    rw [writeAtKids, writeAt_of_idCount_zero (by omega), ih (by omega)]

/-- **One key at most.** Where identities are distinct, a write through a pointer
changes the route of one key at most. -/
theorem writeAt_one {target : ℕ} {n : Node} (hwf : n.WF) (h : n.idCount target ≤ 1)
    {f : Node → Node} (hf : ∀ m, (f m).pre = m.pre ∧ (f m).kids = m.kids) :
    ∃ victim, ∀ key, key ≠ victim → (writeAt target f n).stored key = n.stored key := by
  induction hwf with
  | mk n shape kids ih =>
    rw [idCount_eq] at h
    rw [writeAt_eq]
    by_cases hid : n.id = target
    · -- the node itself: its children do not contain the identity again
      rw [if_pos hid] at h ⊢
      have hsame : writeAtKids target f n.kids = n.kids :=
        writeAtKids_of_weightOf_zero (by omega) f
      rw [hsame, mk_eta]
      refine ⟨n.pre, fun key hkey => ?_⟩
      rw [stored_of_leaf (hf n).1 (hf n).2, if_neg hkey]
    · rw [if_neg hid] at h ⊢
      -- at most one child contains the identity; the others are left alone
      obtain ⟨b₀, hb₀⟩ : ∃ b₀, ∀ b c, n.kids.lookup b = some c → b ≠ b₀ → c.idCount target = 0 := by
        by_cases hin : ∃ b c, n.kids.lookup b = some c ∧ c.idCount target ≠ 0
        · obtain ⟨b₀, c₀, hc₀, hcount⟩ := hin
          refine ⟨b₀, fun b c hc hne => ?_⟩
          have hsum := add_le_weightOf_of_ne (idCount target) (mem_of_lookup hc)
            (mem_of_lookup hc₀) fun he => hne (congrArg Prod.fst he)
          dsimp only at hsum
          omega
        · refine ⟨0, fun b c hc _ => ?_⟩
          by_contra hcount
          exact hin ⟨b, c, hc, hcount⟩
      have hchild : ∃ victim, ∀ c, n.kids.lookup b₀ = some c →
          ∀ r, r ≠ victim → (writeAt target f c).stored r = c.stored r := by
        rcases hc₀ : n.kids.lookup b₀ with _ | c₀
        · exact ⟨[], fun c hc => by cases hc⟩
        · have hle : c₀.idCount target ≤ weightOf (idCount target) n.kids :=
            le_weightOf_of_mem (idCount target) (mem_of_lookup hc₀)
          obtain ⟨victim, hvictim⟩ := ih b₀ c₀ hc₀ (by omega)
          refine ⟨victim, fun c hc => ?_⟩
          rw [← Option.some.inj hc]
          exact hvictim
      obtain ⟨victim, hvictim⟩ := hchild
      refine ⟨n.pre ++ b₀ :: victim, fun key hkey => ?_⟩
      rw [stored_eq, stored_eq]
      dsimp only
      rcases hs : strip n.pre key with _ | _ | ⟨b, r⟩
      · rfl
      · rfl
      · rw [Option.bind_some, Option.bind_some, storedBelow, storedBelow, lookup_writeAtKids]
        rcases hc : n.kids.lookup b with _ | c
        · rfl
        · rw [Option.map_some, Option.bind_some, Option.bind_some]
          by_cases hb : b = b₀
          · subst hb
            refine hvictim c hc r ?_
            rintro rfl
            exact hkey (strip_eq_some_iff.mp hs)
          · rw [writeAt_of_idCount_zero (hb₀ b c hc hb)]

end Node

end Ranvier
