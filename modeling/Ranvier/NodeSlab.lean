import Mathlib.Data.List.Count
import Ranvier.Chains
import Ranvier.KeyedList
import Ranvier.RadixNode
import Ranvier.Run

/-!
# The slab allocator of the tree nodes

`node_slab.hpp` and `node_slab.cpp`: each node kind has a pool of equal slots cut from
chunks of 2 MiB. A free slot holds in its first word the address of the next free slot
of its pool; a slot in use holds there a header that names the pool, and the node behind
it. The memory is a function from addresses to the eight-byte words at them, so that the
free lists, the headers and what the nodes store compete for the same words.

The chunks come from the system allocator, whose answers are part of the actions
(`AllocatorAnswers`: aligned and apart from every chunk handed out before; null when it
has no memory). The nodes write where they like inside their own storage.

* `Sound` — the invariant: which slots are free, which are held, what the words hold;
* `sound_allocateChunk`, `sound_takeSlot`, `sound_deallocate`, `sound_write` — one lemma
  for each operation;
* `slab_contract` — over every run.
-/

namespace Ranvier

namespace NodeSlab

/-- `SLAB_CHUNK_SIZE`. -/
def slabChunkSize : ℕ := 2 * 1024 * 1024

/-- `SLAB_ALIGNMENT`. -/
def slabAlignment : ℕ := 64

/-- `sizeof(SlabHeader)`. -/
def slabHeaderSize : ℕ := 8

/-- `SlabPoolConfig::slot_size`. -/
def slotSize : NodeType → ℕ
  | .Node4 => 192
  | .Node16 => 192
  | .Node48 => 448
  | .Node256 => 3200

/-- `SlabPoolConfig::slots_per_chunk`. -/
def slotsPerChunk (type : NodeType) : ℕ := slabChunkSize / slotSize type

/-- `pool_index_for_type`. -/
def poolIndexForType : NodeType → ℕ
  | .Node4 => 0
  | .Node16 => 1
  | .Node48 => 2
  | .Node256 => 3

/-- `type_for_pool_index`, for the indices below `NUM_POOLS`. -/
def typeForPoolIndex : ℕ → Option NodeType
  | 0 => some .Node4
  | 1 => some .Node16
  | 2 => some .Node48
  | 3 => some .Node256
  | _ => none

/-- `NodeSlab::Pool`; address 0 is the null pointer. -/
structure Pool : Type where
  /-- `free_head` -/
  freeHead : ℕ := 0
  /-- `free_count` -/
  freeCount : ℕ := 0
  /-- `chunks` -/
  chunks : List ℕ := []
  /-- `slot_size` -/
  slotSize : ℕ
  /-- `slots_per_chunk` -/
  slotsPerChunk : ℕ
  /-- `allocated_count` -/
  allocatedCount : ℕ := 0
  /-- `peak_count` -/
  peakCount : ℕ := 0

/-- The allocator and the memory that it and its nodes write to. -/
structure Slab : Type where
  /-- `pools_` -/
  pools : NodeType → Pool
  /-- the word at each address -/
  memory : ℕ → ℕ

/-- The first `n` turns of the loop that links the slots of a chunk into the free list. -/
def linkSlots (size base : ℕ) : ℕ → (ℕ → ℕ) × ℕ → (ℕ → ℕ) × ℕ
  | 0, st => st
  | n + 1, st =>
    let st' := linkSlots size base n st
    -- the slot points at the head so far and becomes the head
    (Function.update st'.1 (base + n * size) st'.2, base + n * size)

/-- `allocate_chunk`, with the system allocator's answer; `none` is `std::bad_alloc`. -/
def allocateChunk (s : Slab) (type : NodeType) (chunk : ℕ) : Option Slab :=
  if chunk = 0 then none
  else
    let pool := s.pools type
    let linked := linkSlots pool.slotSize chunk pool.slotsPerChunk (s.memory, pool.freeHead)
    some
      { pools := Function.update s.pools type
          { pool with
            chunks := pool.chunks ++ [chunk]
            freeHead := linked.2
            freeCount := pool.freeCount + pool.slotsPerChunk }
        memory := linked.1 }

/-- `allocate` once the free list has a slot: pop it, write its header, count it. -/
def takeSlot (s : Slab) (type : NodeType) : Slab × ℕ :=
  let pool := s.pools type
  let slot := pool.freeHead
  let count := pool.allocatedCount + 1
  ({ pools := Function.update s.pools type
      { pool with
        freeHead := s.memory slot
        freeCount := pool.freeCount - 1
        allocatedCount := count
        peakCount := if count > pool.peakCount then count else pool.peakCount }
     -- the pool index in the low byte, the reserved bytes zero
     memory := Function.update s.memory slot (poolIndexForType type) },
    slot + slabHeaderSize)

/-- `allocate`: the pointer past the header, unless the system has no memory. -/
def allocate (s : Slab) (type : NodeType) (chunk : ℕ) : Option (Slab × ℕ) :=
  if (s.pools type).freeHead = 0 then
    (allocateChunk s type chunk).map fun s' => takeSlot s' type
  else some (takeSlot s type)

/-- `deallocate` once the header is read: push the slot, count it. -/
def returnSlot (s : Slab) (type : NodeType) (slot : ℕ) : Slab :=
  let pool := s.pools type
  { pools := Function.update s.pools type
      { pool with
        freeHead := slot
        freeCount := pool.freeCount + 1
        allocatedCount := pool.allocatedCount - 1 }
    memory := Function.update s.memory slot pool.freeHead }

/-- `deallocate`. -/
def deallocate (s : Slab) (ptr : ℕ) : Slab :=
  if ptr = 0 then s
  else
    let slot := ptr - slabHeaderSize
    match typeForPoolIndex (s.memory slot % 256) with
    | none => s -- a corrupted header: leak rather than corrupt further
    | some type => returnSlot s type slot

/-- The pools before the first chunk, over whatever the memory holds. -/
def emptySlab (memory : ℕ → ℕ) : Slab where
  pools type := { slotSize := slotSize type, slotsPerChunk := slotsPerChunk type }
  memory := memory

/-- The constructor: one chunk for `Node4` ahead of the first insert. -/
def newSlab (memory : ℕ → ℕ) (chunk : ℕ) : Option Slab :=
  allocateChunk (emptySlab memory) .Node4 chunk

/-- `get_stats().total_bytes`. -/
def totalBytes (s : Slab) : ℕ :=
  ((s.pools .Node4).chunks.length + (s.pools .Node16).chunks.length +
    (s.pools .Node48).chunks.length + (s.pools .Node256).chunks.length) * slabChunkSize

/-- What the destructor frees, in its order. -/
def freedChunks (s : Slab) : List ℕ :=
  (s.pools .Node4).chunks ++ (s.pools .Node16).chunks ++ (s.pools .Node48).chunks ++
    (s.pools .Node256).chunks

/-- The allocator with the nodes that are held and what their holders last stored. -/
structure System : Type where
  /-- the allocator -/
  slab : Slab
  /-- the pointers handed out and not given back, each with its kind -/
  held : List (ℕ × NodeType)
  /-- what a holder stored at an address of its node and can expect to read there -/
  stored : ℕ → Option ℕ

/-- What happens to the allocator. -/
inductive Action : Type where
  /-- `make_node`, with the answer of the system allocator in case it is asked -/
  | makeNode (type : NodeType) (chunk : ℕ)
  /-- `SlabNodeDeleter` on a node that is held -/
  | release (ptr : ℕ)
  /-- the holder of a node stores a word of it -/
  | write (ptr word value : ℕ)

/-- The storage of a node, past its header. -/
def InNode (ptr : ℕ) (type : NodeType) (a : ℕ) : Prop :=
  ptr ≤ a ∧ a + slabHeaderSize < ptr + slotSize type

instance (ptr : ℕ) (type : NodeType) (a : ℕ) : Decidable (InNode ptr type a) :=
  inferInstanceAs (Decidable (_ ∧ _))

/-- What the holders can expect once the storage of a node has changed hands. -/
def forget (stored : ℕ → Option ℕ) (ptr : ℕ) (type : NodeType) (a : ℕ) : Option ℕ :=
  if InNode ptr type a then none else stored a

/-- One step. A node is released, or written to, only by its holder. -/
def step (s : System) : Action → Option System
  | .makeNode type chunk =>
    match allocate s.slab type chunk with
    | none => some s
    | some (slab, ptr) =>
      some
        { slab := slab
          held := (ptr, type) :: s.held
          stored := forget s.stored ptr type }
  | .release ptr =>
    match s.held.lookup ptr with
    | none => none
    | some type =>
      some
        { slab := deallocate s.slab ptr
          held := eraseKey ptr s.held
          stored := forget s.stored ptr type }
  | .write ptr word value =>
    match s.held.lookup ptr with
    | none => none
    | some type =>
      if InNode ptr type (ptr + 8 * word) then
        some
          { s with
            slab := { s.slab with
              memory := Function.update s.slab.memory (ptr + 8 * word) value }
            stored := Function.update s.stored (ptr + 8 * word) (some value) }
      else none

/-- The slab as constructed, with no node held. -/
def newSystem (memory : ℕ → ℕ) (chunk : ℕ) : Option System :=
  (newSlab memory chunk).map fun slab => { slab := slab, held := [], stored := fun _ => none }

/-- A new chunk: aligned, and apart from the chunks of the slab. -/
def FreshChunk (s : Slab) (chunk : ℕ) : Prop :=
  chunk % slabAlignment = 0 ∧
    ∀ type, ∀ c ∈ (s.pools type).chunks,
      c + slabChunkSize ≤ chunk ∨ chunk + slabChunkSize ≤ c

/-- What the system allocator is documented to answer when asked. -/
def AllocatorAnswers (s : System) : Action → Prop
  | .makeNode type chunk =>
    (s.slab.pools type).freeHead = 0 → chunk = 0 ∨ FreshChunk s.slab chunk
  | _ => True

section Slots

/-- The address of a slot of the pool. -/
def IsSlot (s : Slab) (type : NodeType) (a : ℕ) : Prop :=
  ∃ c ∈ (s.pools type).chunks, ∃ i < slotsPerChunk type, a = c + i * slotSize type

/-- The chunks and slots of a slab. -/
structure Layout (s : Slab) : Prop where
  /-- the pools are configured by kind -/
  sizes : ∀ type, (s.pools type).slotSize = slotSize type ∧
    (s.pools type).slotsPerChunk = slotsPerChunk type
  /-- chunks are aligned and not null -/
  aligned : ∀ type, ∀ c ∈ (s.pools type).chunks, c ≠ 0 ∧ c % slabAlignment = 0
  /-- no chunk is owned twice, and two chunks do not overlap -/
  apart : ∀ type type' c c', c ∈ (s.pools type).chunks → c' ∈ (s.pools type').chunks →
    (type = type' ∧ c = c') ∨ c + slabChunkSize ≤ c' ∨ c' + slabChunkSize ≤ c
  /-- a pool lists each of its chunks once -/
  chunksNodup : ∀ type, (s.pools type).chunks.Nodup

/-- The invariant, of a slab, the nodes held and what their holders stored. -/
structure Sound (s : Slab) (held : List (ℕ × NodeType)) (stored : ℕ → Option ℕ) : Prop
    extends Layout s where
  /-- a pointer is held once -/
  heldNodup : (keysOf held).Nodup
  /-- a held node sits behind a header in a slot of its pool -/
  heldSlot : ∀ ptr type, (ptr, type) ∈ held →
    ∃ a, ptr = a + slabHeaderSize ∧ IsSlot s type a ∧ s.memory a = poolIndexForType type
  /-- the free list has every other slot of the pool, each once -/
  free : ∀ type, ∃ cells, PointerChain s.memory 0 (s.pools type).freeHead cells ∧ cells.Nodup ∧
    cells.length = (s.pools type).freeCount ∧
    ∀ a, a ∈ cells ↔ IsSlot s type a ∧ (a + slabHeaderSize, type) ∉ held
  /-- the nodes are counted -/
  counted : ∀ type, (s.pools type).allocatedCount = held.countP fun e => e.2 = type
  /-- every slot is counted on one side -/
  total : ∀ type, (s.pools type).allocatedCount + (s.pools type).freeCount =
    (s.pools type).chunks.length * slotsPerChunk type
  /-- the holders find what they stored -/
  kept : ∀ a v, stored a = some v →
    s.memory a = v ∧ ∃ ptr type, (ptr, type) ∈ held ∧ InNode ptr type a

theorem slotSize_pos (type : NodeType) : 64 ≤ slotSize type := by
  cases type <;> decide

theorem slotSize_aligned (type : NodeType) : slotSize type % slabAlignment = 0 := by
  cases type <;> decide

theorem slotsPerChunk_pos (type : NodeType) : 0 < slotsPerChunk type := by
  cases type <;> decide

/-- The slots of a chunk end inside it. -/
theorem slot_in_chunk {type : NodeType} {i : ℕ} (hi : i < slotsPerChunk type) :
    i * slotSize type + slotSize type ≤ slabChunkSize := by
  calc i * slotSize type + slotSize type = (i + 1) * slotSize type := by rw [Nat.add_mul, one_mul]
    _ ≤ slotsPerChunk type * slotSize type := Nat.mul_le_mul_right _ hi
    _ ≤ slabChunkSize := Nat.div_mul_le_self _ _

/-- Two places of one chunk are the same or apart. -/
theorem places_apart {size i j : ℕ} (hne : i ≠ j) :
    i * size + size ≤ j * size ∨ j * size + size ≤ i * size := by
  rcases Nat.lt_or_gt_of_ne hne with h | h
  · left
    calc i * size + size = (i + 1) * size := by rw [Nat.add_mul, one_mul]
      _ ≤ j * size := Nat.mul_le_mul_right _ h
  · right
    calc j * size + size = (j + 1) * size := by rw [Nat.add_mul, one_mul]
      _ ≤ i * size := Nat.mul_le_mul_right _ h

variable {s : Slab} {held : List (ℕ × NodeType)} {stored : ℕ → Option ℕ} {type type' : NodeType}
  {a a' ptr : ℕ}

/-- **Slots do not overlap**, whichever pools they are of. -/
theorem Layout.slots_apart (h : Layout s) (ha : IsSlot s type a)
    (ha' : IsSlot s type' a') :
    (type = type' ∧ a = a') ∨ a + slotSize type ≤ a' ∨ a' + slotSize type' ≤ a := by
  obtain ⟨c, hc, i, hi, rfl⟩ := ha
  obtain ⟨c', hc', j, hj, rfl⟩ := ha'
  have hin := slot_in_chunk hi
  have hin' := slot_in_chunk hj
  rcases h.apart type type' c c' hc hc' with ⟨rfl, rfl⟩ | hbefore | hafter
  · by_cases hij : i = j
    · exact .inl ⟨rfl, by rw [hij]⟩
    · have := @places_apart (slotSize type) i j hij
      omega
  · omega
  · omega

theorem Layout.slot_ne_zero (h : Layout s) (ha : IsSlot s type a) : a ≠ 0 := by
  obtain ⟨c, hc, i, -, rfl⟩ := ha
  have := (h.aligned type c hc).1
  omega

/-- No slot starts inside the storage of a held node. -/
theorem Sound.inNode_ne_slot (h : Sound s held stored) {b : ℕ} (hheld : (ptr, type) ∈ held)
    (hb : InNode ptr type b) (ha : IsSlot s type' a) : b ≠ a := by
  obtain ⟨slot, rfl, hslot, -⟩ := h.heldSlot ptr type hheld
  have hpos := slotSize_pos type'
  have hapart := h.slots_apart hslot ha
  simp only [InNode, slabHeaderSize] at hb
  rcases hapart with ⟨-, rfl⟩ | hapart | hapart <;> omega

/-- The kind of a held pointer is the kind of its slot. -/
theorem Sound.held_type (h : Sound s held stored) (hheld : (a + slabHeaderSize, type) ∈ held)
    (ha : IsSlot s type' a) : type = type' := by
  obtain ⟨slot, hslot, hisSlot, -⟩ := h.heldSlot _ type hheld
  obtain rfl : a = slot := Nat.add_right_cancel hslot
  have hpos := slotSize_pos type
  have hpos' := slotSize_pos type'
  rcases h.slots_apart hisSlot ha with ⟨htype, -⟩ | hapart | hapart
  · exact htype
  · omega
  · omega

end Slots

section Chunks

/-- The slots of a chunk from the last one linked to the first. -/
def chunkSlots (size base n : ℕ) : List ℕ := ((List.range n).map fun i => base + i * size).reverse

theorem chunkSlots_succ (size base n : ℕ) :
    chunkSlots size base (n + 1) = (base + n * size) :: chunkSlots size base n := by
  rw [chunkSlots, List.range_succ, List.map_append, List.reverse_append]
  rfl

theorem mem_chunkSlots {size base n a : ℕ} :
    a ∈ chunkSlots size base n ↔ ∃ i < n, a = base + i * size := by
  rw [chunkSlots, List.mem_reverse, List.mem_map]
  constructor
  · rintro ⟨i, hi, rfl⟩
    exact ⟨i, List.mem_range.mp hi, rfl⟩
  · rintro ⟨i, hi, rfl⟩
    exact ⟨i, List.mem_range.mpr hi, rfl⟩

theorem nodup_chunkSlots {size : ℕ} (hsize : 0 < size) (base n : ℕ) :
    (chunkSlots size base n).Nodup := by
  rw [chunkSlots, List.nodup_reverse]
  refine List.Nodup.map (fun i j hij => ?_) List.nodup_range
  exact Nat.eq_of_mul_eq_mul_right hsize (Nat.add_left_cancel hij)

theorem linkSlots_succ (size base n : ℕ) (st : (ℕ → ℕ) × ℕ) :
    linkSlots size base (n + 1) st =
      (Function.update (linkSlots size base n st).1 (base + n * size) (linkSlots size base n st).2,
        base + n * size) := rfl

/-- The loop writes the slots of the chunk only. -/
theorem linkSlots_frame {size base n a : ℕ} {st : (ℕ → ℕ) × ℕ}
    (ha : a ∉ chunkSlots size base n) : (linkSlots size base n st).1 a = st.1 a := by
  induction n with
  | zero => rfl
  | succ n ih =>
    rw [chunkSlots_succ, List.mem_cons, not_or] at ha
    rw [linkSlots_succ]
    exact (Function.update_of_ne ha.1 _ _).trans (ih ha.2)

/-- **The loop.** It puts the slots of the chunk in front of the free list. -/
theorem chain_linkSlots {size base n : ℕ} {memory : ℕ → ℕ} {head : ℕ} {cells : List ℕ}
    (hsize : 0 < size) (hbase : base ≠ 0) (hchain : PointerChain memory 0 head cells)
    (hnew : ∀ i < n, base + i * size ∉ cells) :
    PointerChain (linkSlots size base n (memory, head)).1 0 (linkSlots size base n (memory, head)).2
      (chunkSlots size base n ++ cells) := by
  induction n with
  | zero => exact hchain
  | succ n ih =>
    have hprev := ih fun i hi => hnew i (Nat.lt_succ_of_lt hi)
    rw [linkSlots_succ, chunkSlots_succ, List.cons_append]
    refine hprev.push (by omega) (Function.update_self _ _ _) fun d hd => ?_
    refine Function.update_of_ne (fun heq => ?_) _ _
    -- the slot linked in this turn is neither an earlier one nor an old free slot
    rcases List.mem_append.mp hd with hd | hd
    · obtain ⟨i, hi, hdi⟩ := mem_chunkSlots.mp hd
      have hmul : n * size = i * size := Nat.add_left_cancel (heq.symm.trans hdi)
      have := Nat.eq_of_mul_eq_mul_right hsize hmul
      omega
    · exact hnew n (Nat.lt_succ_self n) (heq ▸ hd)

/-- The last slot linked is the head. -/
theorem linkSlots_head {size base n : ℕ} (hn : 0 < n) (st : (ℕ → ℕ) × ℕ) :
    (linkSlots size base n st).2 = base + (n - 1) * size := by
  obtain ⟨m, rfl⟩ := Nat.exists_eq_succ_of_ne_zero hn.ne'
  rfl

end Chunks

section Operations

variable {s s' : Slab} {held : List (ℕ × NodeType)} {stored : ℕ → Option ℕ}
  {type type' : NodeType} {chunk a ptr : ℕ}

/-- What a chunk changes. -/
theorem allocateChunk_eq_some (hs : allocateChunk s type chunk = some s') :
    chunk ≠ 0 ∧
      s'.memory = (linkSlots (s.pools type).slotSize chunk (s.pools type).slotsPerChunk
        (s.memory, (s.pools type).freeHead)).1 ∧
      s'.pools type =
        { s.pools type with
          chunks := (s.pools type).chunks ++ [chunk]
          freeHead := (linkSlots (s.pools type).slotSize chunk (s.pools type).slotsPerChunk
            (s.memory, (s.pools type).freeHead)).2
          freeCount := (s.pools type).freeCount + (s.pools type).slotsPerChunk } ∧
      ∀ t, t ≠ type → s'.pools t = s.pools t := by
  rw [allocateChunk] at hs
  by_cases hchunk : chunk = 0
  · rw [if_pos hchunk] at hs
    cases hs
  · rw [if_neg hchunk] at hs
    obtain rfl := Option.some.inj hs
    exact ⟨hchunk, rfl, Function.update_self _ _ _, fun t ht => Function.update_of_ne ht _ _⟩

theorem allocateChunk_chunks (hs : allocateChunk s type chunk = some s') (t : NodeType) :
    (s'.pools t).chunks = (s.pools t).chunks ++ if t = type then [chunk] else [] := by
  obtain ⟨-, -, hself, hother⟩ := allocateChunk_eq_some hs
  by_cases ht : t = type
  · rw [if_pos ht, ht, hself]
  · rw [if_neg ht, hother t ht, List.append_nil]

/-- The slots of a new chunk are slots of its pool. -/
theorem allocateChunk_isSlot (hs : allocateChunk s type chunk = some s') (t : NodeType) (a : ℕ) :
    IsSlot s' t a ↔
      IsSlot s t a ∨ t = type ∧ a ∈ chunkSlots (slotSize type) chunk (slotsPerChunk type) := by
  rw [IsSlot, IsSlot, allocateChunk_chunks hs]
  constructor
  · rintro ⟨c, hc, i, hi, rfl⟩
    rcases List.mem_append.mp hc with hc | hc
    · exact .inl ⟨c, hc, i, hi, rfl⟩
    · by_cases ht : t = type
      · subst ht
        rw [if_pos rfl, List.mem_singleton] at hc
        subst hc
        exact .inr ⟨rfl, mem_chunkSlots.mpr ⟨i, hi, rfl⟩⟩
      · rw [if_neg ht] at hc
        cases hc
  · rintro (⟨c, hc, i, hi, rfl⟩ | ⟨rfl, ha⟩)
    · exact ⟨c, List.mem_append_left _ hc, i, hi, rfl⟩
    · obtain ⟨i, hi, rfl⟩ := mem_chunkSlots.mp ha
      refine ⟨chunk, List.mem_append_right _ ?_, i, hi, rfl⟩
      rw [if_pos rfl]
      exact List.mem_singleton_self chunk

/-- A fresh chunk is apart from every slot there is. -/
theorem FreshChunk.slot_apart (hfresh : FreshChunk s chunk) (ha : IsSlot s type a) :
    a + slotSize type ≤ chunk ∨ chunk + slabChunkSize ≤ a := by
  obtain ⟨c, hc, i, hi, rfl⟩ := ha
  have hin := slot_in_chunk hi
  rcases hfresh.2 type c hc with h | h <;> omega

/-- The slots of a fresh chunk hold no word that was in use. -/
theorem FreshChunk.not_mem_slots (hfresh : FreshChunk s chunk) (ha : IsSlot s type a) {b : ℕ}
    (hb : a ≤ b ∧ b < a + slotSize type) (type' : NodeType) :
    b ∉ chunkSlots (slotSize type') chunk (slotsPerChunk type') := by
  intro hmem
  obtain ⟨i, hi, rfl⟩ := mem_chunkSlots.mp hmem
  have hin := slot_in_chunk hi
  have hpos := slotSize_pos type'
  rcases hfresh.slot_apart ha with h | h <;> omega

/-- The chunks of the slab and the new one. -/
theorem mem_allocateChunk_chunks (hs : allocateChunk s type chunk = some s') {t : NodeType}
    {c : ℕ} (hc : c ∈ (s'.pools t).chunks) : c ∈ (s.pools t).chunks ∨ t = type ∧ c = chunk := by
  rw [allocateChunk_chunks hs t] at hc
  rcases List.mem_append.mp hc with hc | hc
  · exact .inl hc
  · by_cases ht : t = type
    · rw [if_pos ht, List.mem_singleton] at hc
      exact .inr ⟨ht, hc⟩
    · rw [if_neg ht] at hc
      cases hc

theorem layout_allocateChunk (h : Layout s) (hfresh : FreshChunk s chunk)
    (hs : allocateChunk s type chunk = some s') : Layout s' := by
  obtain ⟨hchunk, -, hself, hother⟩ := allocateChunk_eq_some hs
  refine ⟨?_, ?_, ?_, ?_⟩
  · intro t
    by_cases ht : t = type
    · rw [ht, hself]
      exact h.sizes type
    · rw [hother t ht]
      exact h.sizes t
  · intro t c hc
    rcases mem_allocateChunk_chunks hs hc with hc | ⟨-, rfl⟩
    · exact h.aligned t c hc
    · exact ⟨hchunk, hfresh.1⟩
  · intro t t' c c' hc hc'
    rcases mem_allocateChunk_chunks hs hc with hc | ⟨rfl, rfl⟩ <;>
      rcases mem_allocateChunk_chunks hs hc' with hc' | ⟨rfl, rfl⟩
    · exact h.apart t t' c c' hc hc'
    · exact .inr (hfresh.2 t c hc)
    · exact .inr (hfresh.2 t' c' hc').symm
    · exact .inl ⟨rfl, rfl⟩
  · intro t
    rw [allocateChunk_chunks hs t]
    by_cases ht : t = type
    · rw [if_pos ht]
      refine List.nodup_append.mpr ⟨h.chunksNodup t, List.nodup_singleton chunk, ?_⟩
      intro c hc d hd hcd
      rw [List.mem_singleton] at hd
      have hpos : 0 < slabChunkSize := by decide
      rcases hfresh.2 t c hc with hapart | hapart <;> omega
    · rw [if_neg ht, List.append_nil]
      exact h.chunksNodup t

theorem sound_allocateChunk (h : Sound s held stored) (hfresh : FreshChunk s chunk)
    (hs : allocateChunk s type chunk = some s') : Sound s' held stored := by
  obtain ⟨hchunk, hmemory, hself, hother⟩ := allocateChunk_eq_some hs
  have hsizes := h.sizes type
  rw [hsizes.1, hsizes.2] at hmemory hself
  have hchunks := allocateChunk_chunks hs
  have hslots := allocateChunk_isSlot hs
  have hframe : ∀ {t b c}, IsSlot s t b → b ≤ c ∧ c < b + slotSize t →
      s'.memory c = s.memory c := by
    intro t b c hb hc
    rw [hmemory]
    exact linkSlots_frame (hfresh.not_mem_slots hb hc type)
  refine ⟨layout_allocateChunk h.toLayout hfresh hs, h.heldNodup, ?_, ?_, ?_, ?_, ?_⟩
  · intro p t hheld
    obtain ⟨b, hp, hb, hheader⟩ := h.heldSlot p t hheld
    refine ⟨b, hp, (hslots t b).mpr (.inl hb), ?_⟩
    have hpos := slotSize_pos t
    rw [hframe hb ⟨le_rfl, by omega⟩]
    exact hheader
  · intro t
    obtain ⟨cells, hchain, hnodup, hlength, hmem⟩ := h.free t
    have hold : ∀ b ∈ cells, s'.memory b = s.memory b := by
      intro b hb
      have hpos := slotSize_pos t
      exact hframe ((hmem b).mp hb).1 ⟨le_rfl, by omega⟩
    by_cases ht : t = type
    · subst ht
      have hsize : 0 < slotSize t := lt_of_lt_of_le (by decide) (slotSize_pos t)
      have hnew : ∀ b ∈ chunkSlots (slotSize t) chunk (slotsPerChunk t), ¬ IsSlot s t b := by
        intro b hb hslot
        exact hfresh.not_mem_slots hslot ⟨le_rfl, by omega⟩ t hb
      have hcells : ∀ b ∈ chunkSlots (slotSize t) chunk (slotsPerChunk t), b ∉ cells :=
        fun b hb hcell => hnew b hb ((hmem b).mp hcell).1
      refine ⟨chunkSlots (slotSize t) chunk (slotsPerChunk t) ++ cells, ?_, ?_, ?_, ?_⟩
      · rw [hself, hmemory]
        exact chain_linkSlots hsize hchunk hchain fun i hi =>
          hcells _ (mem_chunkSlots.mpr ⟨i, hi, rfl⟩)
      · refine List.nodup_append.mpr ⟨nodup_chunkSlots hsize _ _, hnodup, ?_⟩
        intro b hb c hc hbc
        exact hcells b hb (hbc ▸ hc)
      · rw [List.length_append, hlength, hself, chunkSlots, List.length_reverse, List.length_map,
          List.length_range, Nat.add_comm]
      · intro b
        rw [List.mem_append, hmem b, hslots t b]
        constructor
        · rintro (hb | ⟨hb, hfree⟩)
          · refine ⟨.inr ⟨rfl, hb⟩, fun hheld => ?_⟩
            -- a held pointer has its slot in an older chunk
            obtain ⟨c, hc, hslot, -⟩ := h.heldSlot _ t hheld
            obtain rfl : b = c := Nat.add_right_cancel hc
            exact hnew b hb hslot
          · exact ⟨.inl hb, hfree⟩
        · rintro ⟨hb | ⟨-, hb⟩, hfree⟩
          · exact .inr ⟨hb, hfree⟩
          · exact .inl hb
    · refine ⟨cells, ?_, hnodup, ?_, ?_⟩
      · rw [hother t ht]
        exact hchain.congr hold
      · rw [hother t ht]
        exact hlength
      · intro b
        rw [hmem b, hslots t b]
        simp only [ht, false_and, or_false]
  · intro t
    by_cases ht : t = type
    · rw [ht, hself]
      exact h.counted type
    · rw [hother t ht]
      exact h.counted t
  · intro t
    have htotal := h.total t
    by_cases ht : t = type
    · rw [hchunks t, if_pos ht, List.length_append, Nat.add_mul, ← htotal, ht, hself]
      change (s.pools type).allocatedCount + ((s.pools type).freeCount + slotsPerChunk type) = _
      rw [List.length_singleton, one_mul, Nat.add_assoc]
    · rw [hother t ht]
      exact htotal
  · intro b v hstored
    obtain ⟨hv, p, t, hheld, hin⟩ := h.kept b v hstored
    refine ⟨?_, p, t, hheld, hin⟩
    obtain ⟨c, rfl, hslot, -⟩ := h.heldSlot p t hheld
    simp only [InNode, slabHeaderSize] at hin
    rw [hframe hslot ⟨by omega, by omega⟩]
    exact hv

/-- A chunk leaves the free list of its pool with a head. -/
theorem allocateChunk_freeHead (h : Sound s held stored)
    (hs : allocateChunk s type chunk = some s') : (s'.pools type).freeHead ≠ 0 := by
  obtain ⟨hchunk, -, hself, -⟩ := allocateChunk_eq_some hs
  have hhead := @linkSlots_head (slotSize type) chunk _ (slotsPerChunk_pos type)
    (s.memory, (s.pools type).freeHead)
  rw [hself, (h.sizes type).1, (h.sizes type).2]
  change (linkSlots (slotSize type) chunk (slotsPerChunk type) _).2 ≠ 0
  rw [hhead]
  omega

/-- A pool that keeps its chunks keeps its slots. -/
theorem Layout.congr (h : Layout s) (hsame : ∀ t, (s'.pools t).slotSize = (s.pools t).slotSize ∧
    (s'.pools t).slotsPerChunk = (s.pools t).slotsPerChunk ∧
    (s'.pools t).chunks = (s.pools t).chunks) : Layout s' := by
  refine ⟨fun t => ?_, fun t => ?_, fun t t' c c' => ?_, fun t => ?_⟩
  · rw [(hsame t).1, (hsame t).2.1]
    exact h.sizes t
  · rw [(hsame t).2.2]
    exact h.aligned t
  · rw [(hsame t).2.2, (hsame t').2.2]
    exact h.apart t t' c c'
  · rw [(hsame t).2.2]
    exact h.chunksNodup t

theorem isSlot_congr (hsame : (s'.pools type).chunks = (s.pools type).chunks) :
    IsSlot s' type a ↔ IsSlot s type a := by
  rw [IsSlot, IsSlot, hsame]

theorem takeSlot_pools_ne {t : NodeType} (ht : t ≠ type) :
    (takeSlot s type).1.pools t = s.pools t :=
  Function.update_of_ne ht _ _

theorem takeSlot_pools_self :
    (takeSlot s type).1.pools type =
      { s.pools type with
        freeHead := s.memory (s.pools type).freeHead
        freeCount := (s.pools type).freeCount - 1
        allocatedCount := (s.pools type).allocatedCount + 1
        peakCount :=
          if (s.pools type).allocatedCount + 1 > (s.pools type).peakCount then
            (s.pools type).allocatedCount + 1
          else (s.pools type).peakCount } :=
  Function.update_self _ _ _

theorem takeSlot_memory_ne (ha : a ≠ (s.pools type).freeHead) :
    (takeSlot s type).1.memory a = s.memory a :=
  Function.update_of_ne ha _ _

theorem takeSlot_layout (t : NodeType) :
    ((takeSlot s type).1.pools t).slotSize = (s.pools t).slotSize ∧
      ((takeSlot s type).1.pools t).slotsPerChunk = (s.pools t).slotsPerChunk ∧
      ((takeSlot s type).1.pools t).chunks = (s.pools t).chunks := by
  by_cases ht : t = type
  · rw [ht, takeSlot_pools_self]
    exact ⟨rfl, rfl, rfl⟩
  · rw [takeSlot_pools_ne ht]
    exact ⟨rfl, rfl, rfl⟩

theorem forget_eq_some {v : ℕ} (h : forget stored ptr type a = some v) :
    ¬ InNode ptr type a ∧ stored a = some v := by
  rw [forget] at h
  by_cases hin : InNode ptr type a
  · rw [if_pos hin] at h
    cases h
  · rw [if_neg hin] at h
    exact ⟨hin, h⟩

theorem sound_takeSlot (h : Sound s held stored) (hhead : (s.pools type).freeHead ≠ 0) :
    Sound (takeSlot s type).1 (((takeSlot s type).2, type) :: held)
      (forget stored (takeSlot s type).2 type) := by
  have hlayout := @takeSlot_layout s type
  obtain ⟨cells, hchain, hnodup, hlength, hmem⟩ := h.free type
  obtain ⟨rest, rfl, hrest⟩ := hchain.pop hhead
  obtain ⟨hslot, hfree⟩ := (hmem _).mp List.mem_cons_self
  rw [List.nodup_cons] at hnodup
  have hptr : (takeSlot s type).2 = (s.pools type).freeHead + slabHeaderSize := rfl
  have hold : ∀ {t b}, (b + slabHeaderSize, t) ∈ held → b ≠ (s.pools type).freeHead := by
    rintro t b hheld rfl
    exact hfree (h.held_type hheld hslot ▸ hheld)
  rw [hptr]
  refine ⟨h.toLayout.congr hlayout, ?_, ?_, ?_, ?_, ?_, ?_⟩
  · refine List.nodup_cons.mpr ⟨fun hkey => ?_, h.heldNodup⟩
    obtain ⟨⟨p, t⟩, hheld, hp⟩ := List.mem_map.mp hkey
    obtain rfl : p = (s.pools type).freeHead + slabHeaderSize := hp
    exact hold hheld rfl
  · intro p t hheld
    rcases List.mem_cons.mp hheld with heq | hheld
    · obtain ⟨rfl, rfl⟩ := Prod.mk.inj heq
      exact ⟨_, rfl, (isSlot_congr (hlayout t).2.2).mpr hslot, Function.update_self _ _ _⟩
    · obtain ⟨b, rfl, hb, hheader⟩ := h.heldSlot p t hheld
      refine ⟨b, rfl, (isSlot_congr (hlayout t).2.2).mpr hb, ?_⟩
      rw [takeSlot_memory_ne (hold hheld)]
      exact hheader
  · intro t
    by_cases ht : t = type
    · subst ht
      refine ⟨rest, ?_, hnodup.2, ?_, fun b => ?_⟩
      · rw [takeSlot_pools_self]
        exact hrest.congr fun b hb => takeSlot_memory_ne fun heq => hnodup.1 (heq ▸ hb)
      · rw [takeSlot_pools_self]
        change rest.length = (s.pools t).freeCount - 1
        rw [← hlength, List.length_cons, Nat.add_sub_cancel]
      · rw [isSlot_congr (hlayout t).2.2, List.mem_cons, not_or]
        have hb := hmem b
        rw [List.mem_cons] at hb
        constructor
        · intro hin
          obtain ⟨hisSlot, hnot⟩ := hb.mp (.inr hin)
          refine ⟨hisSlot, fun heq => ?_, hnot⟩
          exact hnodup.1 (Nat.add_right_cancel (Prod.mk.inj heq).1 ▸ hin)
        · rintro ⟨hisSlot, hne, hnot⟩
          refine (hb.mpr ⟨hisSlot, hnot⟩).resolve_left fun heq => hne ?_
          rw [heq]
    · obtain ⟨cells', hchain', hnodup', hlength', hmem'⟩ := h.free t
      rw [takeSlot_pools_ne ht]
      refine ⟨cells', hchain'.congr fun b hb => takeSlot_memory_ne ?_, hnodup', hlength', ?_⟩
      · rintro rfl
        -- a slot is of one pool only
        have hpos := slotSize_pos type
        have hpos' := slotSize_pos t
        rcases h.slots_apart ((hmem' _).mp hb).1 hslot with ⟨htype, -⟩ | hapart | hapart
        · exact ht htype
        · omega
        · omega
      · intro b
        rw [hmem' b, isSlot_congr (hlayout t).2.2, List.mem_cons, not_or]
        refine and_congr_right fun _ => ⟨fun hnot => ⟨fun heq => ht (Prod.mk.inj heq).2, hnot⟩, ?_⟩
        exact fun hnot => hnot.2
  · intro t
    by_cases ht : t = type
    · rw [ht, takeSlot_pools_self, List.countP_cons_of_pos (by simp)]
      exact congrArg (· + 1) (h.counted type)
    · rw [takeSlot_pools_ne ht, List.countP_cons_of_neg (by simpa using Ne.symm ht)]
      exact h.counted t
  · intro t
    rw [(hlayout t).2.2]
    have htotal := h.total t
    by_cases ht : t = type
    · subst ht
      rw [takeSlot_pools_self]
      rw [List.length_cons] at hlength
      change (s.pools t).allocatedCount + 1 + ((s.pools t).freeCount - 1) = _
      omega
    · rw [takeSlot_pools_ne ht]
      exact htotal
  · intro b v hstored
    obtain ⟨hout, hstored⟩ := forget_eq_some hstored
    obtain ⟨hv, p, t, hheld, hin⟩ := h.kept b v hstored
    refine ⟨?_, p, t, List.mem_cons_of_mem _ hheld, hin⟩
    rw [takeSlot_memory_ne (h.inNode_ne_slot hheld hin hslot)]
    exact hv

theorem typeForPoolIndex_header (type : NodeType) :
    typeForPoolIndex (poolIndexForType type % 256) = some type := by
  cases type <;> rfl

/-- A header leads back to the pool of its slot. -/
theorem deallocate_eq (hheader : s.memory a = poolIndexForType type) :
    deallocate s (a + slabHeaderSize) = returnSlot s type a := by
  have hne : a + slabHeaderSize ≠ 0 := by
    rw [slabHeaderSize]
    omega
  rw [deallocate, if_neg hne]
  simp only [Nat.add_sub_cancel, hheader, typeForPoolIndex_header]

theorem returnSlot_pools_ne {t : NodeType} (ht : t ≠ type) :
    (returnSlot s type a).pools t = s.pools t :=
  Function.update_of_ne ht _ _

theorem returnSlot_pools_self :
    (returnSlot s type a).pools type =
      { s.pools type with
        freeHead := a
        freeCount := (s.pools type).freeCount + 1
        allocatedCount := (s.pools type).allocatedCount - 1 } :=
  Function.update_self _ _ _

theorem returnSlot_memory_ne {b : ℕ} (hb : b ≠ a) : (returnSlot s type a).memory b = s.memory b :=
  Function.update_of_ne hb _ _

theorem returnSlot_layout (t : NodeType) :
    ((returnSlot s type a).pools t).slotSize = (s.pools t).slotSize ∧
      ((returnSlot s type a).pools t).slotsPerChunk = (s.pools t).slotsPerChunk ∧
      ((returnSlot s type a).pools t).chunks = (s.pools t).chunks := by
  by_cases ht : t = type
  · rw [ht, returnSlot_pools_self]
    exact ⟨rfl, rfl, rfl⟩
  · rw [returnSlot_pools_ne ht]
    exact ⟨rfl, rfl, rfl⟩

theorem sound_deallocate (h : Sound s held stored) (hlookup : held.lookup ptr = some type) :
    Sound (deallocate s ptr) (eraseKey ptr held) (forget stored ptr type) := by
  obtain ⟨a, rfl, hslot, hheader⟩ := h.heldSlot ptr type (mem_of_lookup hlookup)
  have hlayout := @returnSlot_layout s type a
  have hperm := perm_cons_eraseKey hlookup
  have hnodup := (hperm.map Prod.fst).nodup_iff.mp h.heldNodup
  rw [List.map_cons, List.nodup_cons] at hnodup
  have hgone : ∀ {t}, (a + slabHeaderSize, t) ∉ eraseKey (a + slabHeaderSize) held :=
    fun hmem => hnodup.1 (mem_keysOf_of_mem hmem)
  have hheld : ∀ {e}, e ∈ held ↔
      e = (a + slabHeaderSize, type) ∨ e ∈ eraseKey (a + slabHeaderSize) held := by
    intro e
    rw [hperm.mem_iff, List.mem_cons]
  -- the slot is on no free list yet
  have hused : ∀ {t} {cells : List ℕ},
      (∀ b, b ∈ cells ↔ IsSlot s t b ∧ (b + slabHeaderSize, t) ∉ held) → a ∉ cells := by
    intro t cells hmem ha
    obtain ⟨hslot', hfree⟩ := (hmem a).mp ha
    exact hfree (h.held_type (mem_of_lookup hlookup) hslot' ▸ mem_of_lookup hlookup)
  rw [deallocate_eq hheader]
  refine ⟨h.toLayout.congr hlayout, hnodup.2, ?_, ?_, ?_, ?_, ?_⟩
  · intro p t hmem
    obtain ⟨b, rfl, hb, hheader'⟩ := h.heldSlot p t (hheld.mpr (.inr hmem))
    refine ⟨b, rfl, (isSlot_congr (hlayout t).2.2).mpr hb, ?_⟩
    rw [returnSlot_memory_ne]
    · exact hheader'
    · rintro rfl
      exact hgone hmem
  · intro t
    obtain ⟨cells, hchain, hcells, hlength, hmem⟩ := h.free t
    have ha := hused hmem
    by_cases ht : t = type
    · subst ht
      refine ⟨a :: cells, ?_, List.nodup_cons.mpr ⟨ha, hcells⟩, ?_, fun b => ?_⟩
      · rw [returnSlot_pools_self]
        refine hchain.push (h.slot_ne_zero hslot) (Function.update_self _ _ _) fun b hb => ?_
        exact returnSlot_memory_ne fun heq => ha (heq ▸ hb)
      · rw [returnSlot_pools_self]
        exact congrArg (· + 1) hlength
      · rw [isSlot_congr (hlayout t).2.2, List.mem_cons, hmem b, hheld, not_or]
        constructor
        · rintro (rfl | ⟨hisSlot, -, hnot⟩)
          · exact ⟨hslot, hgone⟩
          · exact ⟨hisSlot, hnot⟩
        · rintro ⟨hisSlot, hnot⟩
          by_cases hba : b = a
          · exact .inl hba
          · exact .inr ⟨hisSlot, fun heq => hba (Nat.add_right_cancel (Prod.mk.inj heq).1), hnot⟩
    · rw [returnSlot_pools_ne ht]
      refine ⟨cells, hchain.congr fun b hb => returnSlot_memory_ne fun heq => ha (heq ▸ hb),
        hcells, hlength, fun b => ?_⟩
      rw [isSlot_congr (hlayout t).2.2, hmem b, hheld, not_or]
      refine and_congr_right fun _ => ⟨And.right, fun hnot => ⟨fun heq => ?_, hnot⟩⟩
      exact ht (Prod.mk.inj heq).2
  · intro t
    have hcount := h.counted t
    rw [hperm.countP_eq] at hcount
    by_cases ht : t = type
    · rw [ht, returnSlot_pools_self]
      rw [ht, List.countP_cons_of_pos (by simp)] at hcount
      change (s.pools type).allocatedCount - 1 = _
      rw [hcount, Nat.add_sub_cancel]
    · rw [returnSlot_pools_ne ht, hcount, List.countP_cons_of_neg (by simpa using Ne.symm ht)]
  · intro t
    rw [(hlayout t).2.2]
    have htotal := h.total t
    by_cases ht : t = type
    · have hcount := h.counted t
      rw [hperm.countP_eq, ht, List.countP_cons_of_pos (by simp)] at hcount
      rw [ht] at htotal
      rw [ht, returnSlot_pools_self]
      change (s.pools type).allocatedCount - 1 + ((s.pools type).freeCount + 1) = _
      omega
    · rw [returnSlot_pools_ne ht]
      exact htotal
  · intro b v hstored
    obtain ⟨hout, hstored⟩ := forget_eq_some hstored
    obtain ⟨hv, p, t, hmem, hin⟩ := h.kept b v hstored
    rcases hheld.mp hmem with heq | hmem'
    · obtain ⟨rfl, rfl⟩ := Prod.mk.inj heq
      exact absurd hin hout
    · refine ⟨?_, p, t, hmem', hin⟩
      rw [returnSlot_memory_ne (h.inNode_ne_slot hmem hin hslot)]
      exact hv

/-- A holder writes no word that the allocator reads, and none of another node. -/
theorem sound_write (h : Sound s held stored) (hheld : (ptr, type) ∈ held)
    (hin : InNode ptr type a) (value : ℕ) :
    Sound { s with memory := Function.update s.memory a value } held
      (Function.update stored a (some value)) := by
  have hslot : ∀ {t b}, IsSlot s t b → Function.update s.memory a value b = s.memory b :=
    fun hb => Function.update_of_ne (h.inNode_ne_slot hheld hin hb).symm _ _
  refine ⟨h.toLayout.congr fun t => ⟨rfl, rfl, rfl⟩, h.heldNodup, ?_, ?_, h.counted, h.total, ?_⟩
  · intro p t hmem
    obtain ⟨b, hp, hb, hheader⟩ := h.heldSlot p t hmem
    exact ⟨b, hp, hb, (hslot hb).trans hheader⟩
  · intro t
    obtain ⟨cells, hchain, hcells, hlength, hmem⟩ := h.free t
    exact ⟨cells, hchain.congr fun b hb => hslot ((hmem b).mp hb).1, hcells, hlength, hmem⟩
  · intro b v hstored
    by_cases hba : b = a
    · subst hba
      rw [Function.update_self] at hstored
      exact ⟨(Function.update_self _ _ _).trans (Option.some.inj hstored), ptr, type, hheld, hin⟩
    · rw [Function.update_of_ne hba] at hstored
      obtain ⟨hv, hnode⟩ := h.kept b v hstored
      exact ⟨(Function.update_of_ne hba _ _).trans hv, hnode⟩

end Operations

section Runs

variable {s s' : System} {acts : List Action} {a : Action}

/-- The nodes of a kind that are held. -/
def liveCount (s : System) (type : NodeType) : ℕ := s.held.countP fun e => e.2 = type

theorem sound_emptySlab (memory : ℕ → ℕ) : Sound (emptySlab memory) [] fun _ => none := by
  refine ⟨⟨fun _ => ⟨rfl, rfl⟩, ?_, ?_, fun _ => List.nodup_nil⟩, List.nodup_nil, ?_, ?_, ?_, ?_,
    ?_⟩
  · intro type c hc
    cases hc
  · intro type type' c c' hc
    cases hc
  · intro ptr type hheld
    cases hheld
  · intro type
    refine ⟨[], rfl, List.nodup_nil, rfl, fun a => ⟨fun ha => absurd ha List.not_mem_nil, ?_⟩⟩
    rintro ⟨⟨c, hc, -⟩, -⟩
    cases hc
  · intro type
    rfl
  · intro type
    exact (Nat.zero_mul _).symm
  · intro a v hstored
    cases hstored

/-- The slab as constructed. -/
theorem sound_newSystem {memory : ℕ → ℕ} {chunk : ℕ} (hchunk : chunk % slabAlignment = 0)
    (hs : newSystem memory chunk = some s) :
    Sound s.slab s.held s.stored ∧ s.held = [] ∧ ∀ type, (s.slab.pools type).peakCount = 0 := by
  rw [newSystem, newSlab] at hs
  obtain ⟨slab, hslab, rfl⟩ := Option.map_eq_some_iff.mp hs
  refine ⟨sound_allocateChunk (sound_emptySlab memory) ⟨hchunk, fun type c hc => by cases hc⟩ hslab,
    rfl, fun type => ?_⟩
  obtain ⟨-, -, hself, hother⟩ := allocateChunk_eq_some hslab
  by_cases htype : type = .Node4
  · rw [htype]
    exact congrArg Pool.peakCount hself
  · exact congrArg Pool.peakCount (hother type htype)

/-- `allocate` in two parts: a chunk if the pool has no free slot, then the slot. -/
theorem allocate_eq_some {slab slab' : Slab} {held : List (ℕ × NodeType)}
    {stored : ℕ → Option ℕ} {type : NodeType} {chunk ptr : ℕ} (h : Sound slab held stored)
    (hanswer : (slab.pools type).freeHead = 0 → chunk = 0 ∨ FreshChunk slab chunk)
    (hs : allocate slab type chunk = some (slab', ptr)) :
    ∃ mid, Sound mid held stored ∧ (mid.pools type).freeHead ≠ 0 ∧
      (∀ t, (mid.pools t).peakCount = (slab.pools t).peakCount) ∧
      slab' = (takeSlot mid type).1 ∧ ptr = (takeSlot mid type).2 := by
  rw [allocate] at hs
  by_cases hhead : (slab.pools type).freeHead = 0
  · rw [if_pos hhead] at hs
    obtain ⟨mid, hmid, htake⟩ := Option.map_eq_some_iff.mp hs
    obtain ⟨hchunk, -, hself, hother⟩ := allocateChunk_eq_some hmid
    refine ⟨mid, sound_allocateChunk h ((hanswer hhead).resolve_left hchunk) hmid,
      allocateChunk_freeHead h hmid, fun t => ?_, (congrArg Prod.fst htake).symm,
      (congrArg Prod.snd htake).symm⟩
    by_cases ht : t = type
    · rw [ht, hself]
    · rw [hother t ht]
  · rw [if_neg hhead] at hs
    have htake := Option.some.inj hs
    exact ⟨slab, h, hhead, fun t => rfl, (congrArg Prod.fst htake).symm,
      (congrArg Prod.snd htake).symm⟩

/-- What one step does: nothing, when the system has no memory; else a slot is taken, a node
released, or a word of a held node written. -/
theorem step_cases (h : Sound s.slab s.held s.stored) (hok : AllocatorAnswers s a)
    (hs : step s a = some s') :
    s' = s ∨
      (∃ mid type, Sound mid s.held s.stored ∧ (mid.pools type).freeHead ≠ 0 ∧
        (∀ t, (mid.pools t).peakCount = (s.slab.pools t).peakCount) ∧
        s' = ⟨(takeSlot mid type).1, ((takeSlot mid type).2, type) :: s.held,
          forget s.stored (takeSlot mid type).2 type⟩) ∨
      (∃ ptr type, s.held.lookup ptr = some type ∧
        s' = ⟨deallocate s.slab ptr, eraseKey ptr s.held, forget s.stored ptr type⟩) ∨
      ∃ ptr type b value, (ptr, type) ∈ s.held ∧ InNode ptr type b ∧
        s' = ⟨{ s.slab with memory := Function.update s.slab.memory b value }, s.held,
          Function.update s.stored b (some value)⟩ := by
  cases a with
  | makeNode type chunk =>
    rw [step] at hs
    cases hallocate : allocate s.slab type chunk with
    | none =>
      rw [hallocate] at hs
      exact .inl (Option.some.inj hs).symm
    | some r =>
      obtain ⟨slab', ptr⟩ := r
      rw [hallocate] at hs
      obtain ⟨mid, hmid, hhead, hpeak, rfl, rfl⟩ := allocate_eq_some h hok hallocate
      exact .inr (.inl ⟨mid, type, hmid, hhead, hpeak, (Option.some.inj hs).symm⟩)
  | release ptr =>
    rw [step] at hs
    cases hlookup : s.held.lookup ptr with
    | none =>
      rw [hlookup] at hs
      cases hs
    | some type =>
      rw [hlookup] at hs
      exact .inr (.inr (.inl ⟨ptr, type, hlookup, (Option.some.inj hs).symm⟩))
  | write ptr word value =>
    rw [step] at hs
    cases hlookup : s.held.lookup ptr with
    | none =>
      rw [hlookup] at hs
      cases hs
    | some type =>
      rw [hlookup] at hs
      by_cases hin : InNode ptr type (ptr + 8 * word)
      · simp only [if_pos hin] at hs
        exact .inr (.inr (.inr ⟨ptr, type, _, value, mem_of_lookup hlookup, hin,
          (Option.some.inj hs).symm⟩))
      · simp only [if_neg hin] at hs
        cases hs

theorem sound_step (h : Sound s.slab s.held s.stored) (hok : AllocatorAnswers s a)
    (hs : step s a = some s') : Sound s'.slab s'.held s'.stored := by
  rcases step_cases h hok hs with rfl | ⟨mid, type, hmid, hhead, -, rfl⟩ |
    ⟨ptr, type, hlookup, rfl⟩ | ⟨ptr, type, b, value, hheld, hin, rfl⟩
  · exact h
  · exact sound_takeSlot hmid hhead
  · exact sound_deallocate h hlookup
  · exact sound_write h hheld hin value

/-- The peak follows the number of nodes held. -/
theorem step_peak (h : Sound s.slab s.held s.stored) (hok : AllocatorAnswers s a)
    (hs : step s a = some s') {t : NodeType} (hle : liveCount s t ≤ (s.slab.pools t).peakCount) :
    (s'.slab.pools t).peakCount = max (s.slab.pools t).peakCount (liveCount s' t) := by
  rcases step_cases h hok hs with rfl | ⟨mid, type, hmid, hhead, hpeak, rfl⟩ |
    ⟨ptr, type, hlookup, rfl⟩ | ⟨ptr, type, b, value, hheld, hin, rfl⟩
  · exact (max_eq_left hle).symm
  · have hcount := (sound_takeSlot hmid hhead).counted t
    by_cases ht : t = type
    · subst ht
      rw [← hpeak t, liveCount, ← hcount, takeSlot_pools_self]
      change (if (mid.pools t).allocatedCount + 1 > (mid.pools t).peakCount then
        (mid.pools t).allocatedCount + 1 else (mid.pools t).peakCount) =
          max (mid.pools t).peakCount ((mid.pools t).allocatedCount + 1)
      split_ifs with hgt
      · exact (max_eq_right hgt.le).symm
      · exact (max_eq_left (not_lt.mp hgt)).symm
    · rw [liveCount, ← hcount, takeSlot_pools_ne ht, hmid.counted t, hpeak t]
      exact (max_eq_left hle).symm
  · obtain ⟨slot, rfl, -, hheader⟩ := h.heldSlot ptr type (mem_of_lookup hlookup)
    have hfewer : (eraseKey (slot + slabHeaderSize) s.held).countP (fun e => e.2 = t) ≤
        s.held.countP fun e => e.2 = t := by
      rw [(perm_cons_eraseKey hlookup).countP_eq]
      exact (List.sublist_cons_self _ _).countP_le
    have hsame : ((deallocate s.slab (slot + slabHeaderSize)).pools t).peakCount =
        (s.slab.pools t).peakCount := by
      rw [deallocate_eq hheader]
      by_cases ht : t = type
      · rw [ht, returnSlot_pools_self]
      · rw [returnSlot_pools_ne ht]
    exact hsame.trans (max_eq_left (hfewer.trans hle)).symm
  · exact (max_eq_left hle).symm

/-- What the holders of the nodes and the readers of the statistics can rely on. -/
structure Contract (s : System) : Prop where
  /-- a node starts a header past a cache line and ends inside a chunk of its pool -/
  placed : ∀ ptr type, (ptr, type) ∈ s.held →
    ptr % slabAlignment = slabHeaderSize ∧
      ∃ c ∈ (s.slab.pools type).chunks, c + slabHeaderSize ≤ ptr ∧
        ptr + slotSize type ≤ c + slabChunkSize + slabHeaderSize
  /-- two nodes do not overlap, and neither does one the header of the other -/
  separate : ∀ p t q u, (p, t) ∈ s.held → (q, u) ∈ s.held → p ≠ q →
    p + slotSize t ≤ q ∨ q + slotSize u ≤ p
  /-- a node, with its header, does not overlap a slot that no node is in -/
  apartFromFree : ∀ ptr type a type', (ptr, type) ∈ s.held → IsSlot s.slab type' a →
    (a + slabHeaderSize, type') ∉ s.held →
    ptr + slotSize type ≤ a + slabHeaderSize ∨ a + slotSize type' + slabHeaderSize ≤ ptr
  /-- a node has what its holder stored there -/
  reading : ∀ a v, s.stored a = some v → s.slab.memory a = v
  /-- a node released now goes back to the pool it came from -/
  returning : ∀ ptr type, (ptr, type) ∈ s.held →
    deallocate s.slab ptr = returnSlot s.slab type (ptr - slabHeaderSize)
  /-- the free list of a pool has, each once, the slots of the pool that no node is in -/
  free : ∀ type, ∃ cells, PointerChain s.slab.memory 0 (s.slab.pools type).freeHead cells ∧
    cells.Nodup ∧ cells.length = (s.slab.pools type).freeCount ∧
    ∀ a, a ∈ cells ↔ IsSlot s.slab type a ∧ (a + slabHeaderSize, type) ∉ s.held
  /-- the counts: nodes held, and with the free slots all slots of the chunks -/
  counts : ∀ type, (s.slab.pools type).allocatedCount = liveCount s type ∧
    liveCount s type + (s.slab.pools type).freeCount =
      (s.slab.pools type).chunks.length * slotsPerChunk type
  /-- the destructor frees no chunk twice, and frees as much as was reported -/
  freedOnce : (freedChunks s.slab).Nodup ∧
    (freedChunks s.slab).length * slabChunkSize = totalBytes s.slab

theorem Layout.freedChunks_nodup {slab : Slab} (h : Layout slab) : (freedChunks slab).Nodup := by
  have hne : ∀ {t t' c c'}, t ≠ t' → c ∈ (slab.pools t).chunks → c' ∈ (slab.pools t').chunks →
      c ≠ c' := by
    intro t t' c c' ht hc hc'
    have hpos : 0 < slabChunkSize := by decide
    rcases h.apart t t' c c' hc hc' with ⟨heq, -⟩ | hapart | hapart
    · exact absurd heq ht
    · omega
    · omega
  have hnodup := h.chunksNodup
  rw [freedChunks]
  refine List.nodup_append.mpr ⟨List.nodup_append.mpr ⟨List.nodup_append.mpr
    ⟨hnodup _, hnodup _, fun c hc c' hc' => hne (by decide) hc hc'⟩, hnodup _, ?_⟩, hnodup _, ?_⟩
  · intro c hc c' hc'
    rcases List.mem_append.mp hc with hc | hc
    · exact hne (by decide) hc hc'
    · exact hne (by decide) hc hc'
  · intro c hc c' hc'
    rcases List.mem_append.mp hc with hc | hc
    · rcases List.mem_append.mp hc with hc | hc
      · exact hne (by decide) hc hc'
      · exact hne (by decide) hc hc'
    · exact hne (by decide) hc hc'

theorem Sound.placed (h : Sound s.slab s.held s.stored) {ptr : ℕ} {type : NodeType}
    (hheld : (ptr, type) ∈ s.held) :
    ptr % slabAlignment = slabHeaderSize ∧
      ∃ c ∈ (s.slab.pools type).chunks, c + slabHeaderSize ≤ ptr ∧
        ptr + slotSize type ≤ c + slabChunkSize + slabHeaderSize := by
  obtain ⟨slot, rfl, ⟨c, hc, i, hi, rfl⟩, -⟩ := h.heldSlot ptr type hheld
  have hin := slot_in_chunk hi
  refine ⟨?_, c, hc, by omega, by omega⟩
  have hline : slabAlignment ∣ c + i * slotSize type :=
    Nat.dvd_add (Nat.dvd_of_mod_eq_zero (h.aligned type c hc).2)
      (Nat.dvd_mul_left_of_dvd (Nat.dvd_of_mod_eq_zero (slotSize_aligned type)) i)
  obtain ⟨k, hk⟩ := hline
  rw [hk, Nat.mul_add_mod]
  rfl

theorem Sound.contract (h : Sound s.slab s.held s.stored) : Contract s := by
  refine ⟨fun ptr type => h.placed, ?_, ?_, fun a v hstored => (h.kept a v hstored).1, ?_, h.free,
    ?_, h.toLayout.freedChunks_nodup, ?_⟩
  · intro p t q u hp hq hne
    obtain ⟨a, rfl, ha, -⟩ := h.heldSlot p t hp
    obtain ⟨b, rfl, hb, -⟩ := h.heldSlot q u hq
    rcases h.slots_apart ha hb with ⟨-, rfl⟩ | hapart | hapart
    · exact absurd rfl hne
    · omega
    · omega
  · intro ptr type a type' hheld ha hfree
    obtain ⟨slot, rfl, hslot, -⟩ := h.heldSlot ptr type hheld
    rcases h.slots_apart hslot ha with ⟨rfl, rfl⟩ | hapart | hapart
    · exact absurd hheld hfree
    · omega
    · omega
  · intro ptr type hheld
    obtain ⟨a, rfl, -, hheader⟩ := h.heldSlot ptr type hheld
    rw [deallocate_eq hheader, Nat.add_sub_cancel]
  · intro type
    have hcount : (s.slab.pools type).allocatedCount = liveCount s type := h.counted type
    refine ⟨hcount, ?_⟩
    rw [← hcount]
    exact h.total type
  · simp only [freedChunks, totalBytes, List.length_append]

/-- The peak is the most nodes held at once in the run from `s₀`. -/
def PeakOf (s₀ : System) (acts : List Action) (type : NodeType) (peak : ℕ) : Prop :=
  (∀ front back m, acts = front ++ back → exec step s₀ front = some m →
    liveCount m type ≤ peak) ∧
  ∃ front back m, acts = front ++ back ∧ exec step s₀ front = some m ∧ liveCount m type = peak

/-- The peak of a run that is one step longer. -/
theorem PeakOf.concat {s₀ : System} {type : NodeType} {peak : ℕ}
    (h : PeakOf s₀ acts type peak) (hexec : exec step s₀ (acts ++ [a]) = some s') :
    PeakOf s₀ (acts ++ [a]) type (max peak (liveCount s' type)) := by
  obtain ⟨hle, front, back, m, hacts, hm, hpeak⟩ := h
  refine ⟨fun front' back' m' hacts' hm' => ?_, ?_⟩
  · rcases List.eq_nil_or_concat back' with rfl | ⟨back'', b, rfl⟩
    · rw [List.append_nil] at hacts'
      rw [← hacts', hexec] at hm'
      obtain rfl := Option.some.inj hm'
      exact le_max_right _ _
    · rw [List.concat_eq_append, ← List.append_assoc] at hacts'
      have hfront : acts = front' ++ back'' := (List.append_inj' hacts' rfl).1
      exact (hle front' back'' m' hfront hm').trans (le_max_left _ _)
  · rcases le_total (liveCount s' type) peak with hmax | hmax
    · refine ⟨front, back ++ [a], m, by rw [hacts, List.append_assoc], hm, ?_⟩
      rw [max_eq_left hmax]
      exact hpeak
    · refine ⟨acts ++ [a], [], s', by rw [List.append_nil], hexec, ?_⟩
      rw [max_eq_right hmax]

/-- **The slab over every run.** Whatever nodes are made, written and released, in any order,
and whatever chunks the system hands out: the nodes held never overlap each other, a header
or a free slot, they keep what was stored in them, each goes back to its own pool, the free
lists have exactly the other slots, and the counts and peaks are exact. -/
theorem slab_contract {memory : ℕ → ℕ} {chunk : ℕ} {s₀ : System}
    (hchunk : chunk % slabAlignment = 0) (hnew : newSystem memory chunk = some s₀)
    (hanswers : Meets step AllocatorAnswers s₀ acts) (hrun : exec step s₀ acts = some s) :
    Contract s ∧ ∀ type, PeakOf s₀ acts type (s.slab.pools type).peakCount := by
  obtain ⟨hsound, hheld, hpeak⟩ := sound_newSystem hchunk hnew
  have hzero : ∀ type, liveCount s₀ type = 0 := by
    intro type
    rw [liveCount, hheld]
    rfl
  have hinv := @exec_invariant _ _ step AllocatorAnswers
    (fun h s => exec step s₀ h = some s ∧ Sound s.slab s.held s.stored ∧
      ∀ type, PeakOf s₀ h type (s.slab.pools type).peakCount)
    (fun {h m b m'} hok hstep hinv => ?_) [] acts s₀ s hanswers hrun ⟨rfl, hsound, fun type => ?_⟩
  · exact ⟨hinv.2.1.contract, hinv.2.2⟩
  · obtain ⟨hexec, hm, hpeaks⟩ := hinv
    have hexec' : exec step s₀ (h ++ [b]) = some m' := by
      rw [exec_append hexec, exec, hstep]
      rfl
    refine ⟨hexec', sound_step hm hok hstep, fun type => ?_⟩
    have hle := (hpeaks type).1 h [] m (List.append_nil h).symm hexec
    rw [step_peak hm hok hstep hle]
    exact (hpeaks type).concat hexec'
  · rw [hpeak type]
    refine ⟨fun front back m hacts hm => ?_, [], [], s₀, rfl, rfl, hzero type⟩
    obtain rfl : front = [] := (List.nil_eq_append_iff.mp hacts).1
    obtain rfl := Option.some.inj hm
    exact (hzero type).le

/-- The address of the first chunk of the run below. -/
def firstChunk : ℕ := 4194304

/-- The node in the last slot of the first chunk, which the free list hands out first. -/
def firstNode : ℕ := firstChunk + 10921 * 192 + slabHeaderSize

/-- The slab with its first chunk. -/
def booted : System where
  slab := (allocateChunk (emptySlab fun _ => 0) .Node4 firstChunk).getD (emptySlab fun _ => 0)
  held := []
  stored := fun _ => none

/-- The state once a node is made. -/
def made : System where
  slab := (takeSlot booted.slab .Node4).1
  held := [(firstNode, .Node4)]
  stored := forget (fun _ => none) firstNode .Node4

/-- A node is made, a word of it written, and the node released. -/
def madeAndReleased : List Action :=
  [.makeNode .Node4 0, .write firstNode 3 7, .release firstNode]

theorem booted_new : newSystem (fun _ => 0) firstChunk = some booted := by
  have hne : ¬ firstChunk = 0 := by decide
  simp only [newSystem, newSlab, booted, allocateChunk, if_neg hne, Option.map_some,
    Option.getD_some]

theorem booted_freeHead : (booted.slab.pools .Node4).freeHead = firstChunk + 10921 * 192 := by
  have hne : ¬ firstChunk = 0 := by decide
  simp only [booted, allocateChunk, if_neg hne, Option.getD_some, Function.update_self]
  exact linkSlots_head (slotsPerChunk_pos .Node4) _

theorem booted_freeHead_ne : (booted.slab.pools .Node4).freeHead ≠ 0 := by
  rw [booted_freeHead]
  decide

theorem step_booted : step booted (.makeNode .Node4 0) = some made := by
  have hptr : (takeSlot booted.slab .Node4).2 = firstNode :=
    congrArg (· + slabHeaderSize) booted_freeHead
  rw [step, allocate, if_neg booted_freeHead_ne]
  simp only [made, hptr]
  rfl

theorem slab_contract_madeAndReleased :
    ∃ s, exec step booted madeAndReleased = some s ∧ Contract s ∧
      ∀ type, PeakOf booted madeAndReleased type (s.slab.pools type).peakCount := by
  have hrest : (exec step made [.write firstNode 3 7, .release firstNode]).isSome := rfl
  have hrun : exec step booted madeAndReleased =
      some ((exec step made [.write firstNode 3 7, .release firstNode]).getD made) := by
    rw [madeAndReleased, exec, step_booted]
    exact exec_eq_some_getD hrest
  refine ⟨_, hrun, slab_contract (by decide) booted_new ⟨?_, ?_⟩ hrun⟩
  · exact fun hhead => absurd hhead booted_freeHead_ne
  · rw [step_booted]
    exact ⟨trivial, trivial, trivial⟩

end Runs

end NodeSlab

end Ranvier
