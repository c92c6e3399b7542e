import Mathlib.Data.Nat.Bitwise
import Mathlib.Data.Nat.ModEq
import Mathlib.Logic.Function.Basic
import Ranvier.Run

/-!
# The multi-producer ring buffer

`MpscRingBuffer`: producers reserve positions by a compare-exchange on the tail, write
their slot and publish it through the slot's sequence number; one consumer takes the
slots in order and frees them by the same number. Every atomic access is a step of
its own, any number of producers and the consumer take their steps in any order, and
a weak compare-exchange may fail although nothing changed.

A slot of position `x` has the number `x` while it is free or being written and `x + 1`
once it is published; freed, it has `x + capacity`. With one slot the last two are
the same number, so that a published slot looks free.

* `Sound` — what every step keeps, as long as no producer reserves a slot that looks
  free and is not;
* `ring_contract` — over such runs nothing is lost, doubled or reordered.
-/

namespace Ranvier

/-- `size_t` arithmetic wraps. -/
def sizeT (n : ℕ) : ℕ := n % 2 ^ 64

/-- `static_cast<intptr_t>`. -/
def intptr (n : ℕ) : ℤ := if n < 2 ^ 63 then n else n - 2 ^ 64

/-- `MpscRingBuffer::Slot`. -/
structure RingSlot (τ : Type) : Type where
  seq : ℕ
  value : τ

/-- `MpscRingBuffer`, access by access; the slots are those below `capacity`. -/
structure MpscRing (τ : Type) : Type where
  capacity : ℕ
  mask : ℕ
  slots : ℕ → RingSlot τ
  tail : ℕ := 0
  head : ℕ := 0

/-- The loop `while (p < capacity) p <<= 1`. After 64 rounds `p` is 0 for good, and the
loop does not end. -/
def roundUp : ℕ → ℕ → ℕ → Option ℕ
  | 0, p, capacity => if p < capacity then none else some p
  | rounds + 1, p, capacity =>
    if p < capacity then roundUp rounds (sizeT (p <<< 1)) capacity else some p

/-- Where a producer is in `try_push`. -/
inductive ProducerPc (τ : Type) : Type
  | idle
  /-- about to load the sequence number of the slot at `tail` -/
  | check (tail : ℕ) (item : τ)
  /-- about to advance the tail -/
  | claim (tail : ℕ) (item : τ)
  /-- about to load the tail again -/
  | reload (item : τ)
  /-- about to write the value -/
  | write (tail : ℕ) (item : τ)
  /-- about to store the sequence number -/
  | publish (tail : ℕ)

/-- Where the consumer is in `try_pop` or `drain`, with the number of elements it still
wants. -/
inductive ConsumerPc : Type
  | idle
  | scan (left : ℕ)
  | take (left : ℕ)
  | release (left : ℕ)
  deriving DecidableEq, Repr

namespace MpscRing

variable {τ : Type}

/-- The constructor. -/
def create (initial : τ) (capacity : ℕ) : Option (MpscRing τ) :=
  match roundUp 64 1 capacity with
  | none => none
  | some p => some { capacity := p, mask := p - 1, slots := fun i => ⟨i, initial⟩ }

variable (r : MpscRing τ)

/-- The slot of a position. -/
def slotAt (x : ℕ) : RingSlot τ := r.slots (x &&& r.mask)

def setSlot (x : ℕ) (slot : RingSlot τ) : MpscRing τ :=
  { r with slots := Function.update r.slots (x &&& r.mask) slot }

def setSeq (x seq : ℕ) : MpscRing τ := r.setSlot x { r.slotAt x with seq := seq }

def setValue (x : ℕ) (value : τ) : MpscRing τ :=
  r.setSlot x { r.slotAt x with value := value }

end MpscRing

/-- The ring with its threads, and what happened so far. -/
structure RingRun (τ : Type) : Type where
  ring : MpscRing τ
  producers : ℕ → ProducerPc τ := fun _ => .idle
  consumer : ConsumerPc := .idle
  /-- the items in the order in which their slots were reserved -/
  reserved : List τ := []
  /-- the positions whose `try_push` returned true -/
  succeeded : List ℕ := []
  /-- for each `try_push` that returned false, how many items were reserved and not yet
  released -/
  refused : List ℕ := []
  popped : List τ := []

inductive RingAction (τ : Type) : Type
  /-- a producer calls `try_push` and loads the tail -/
  | push (p : ℕ) (item : τ)
  /-- a producer goes on; `weak` makes its compare-exchange fail -/
  | advance (p : ℕ) (weak : Bool)
  | pop
  | drain (maxCount : ℕ)
  /-- the consumer goes on; a value it moves from is left as `moved` -/
  | consume (moved : τ)

namespace RingRun

variable {τ : Type} (s : RingRun τ)

def setPc (p : ℕ) (pc : ProducerPc τ) : RingRun τ :=
  { s with producers := Function.update s.producers p pc }

/-- One step of a producer inside `try_push`. -/
def produce (p : ℕ) (weak : Bool) : ProducerPc τ → Option (RingRun τ)
  | .idle => none
  | .check tail item =>
    let diff := intptr (s.ring.slotAt tail).seq - intptr tail
    if diff = 0 then some (s.setPc p (.claim tail item))
    else if diff < 0 then
      some { s.setPc p .idle with refused := s.refused ++ [s.ring.tail - s.ring.head] }
    else some (s.setPc p (.reload item))
  | .claim tail item =>
    if s.ring.tail = tail ∧ weak = false then
      some { s.setPc p (.write tail item) with
        ring := { s.ring with tail := sizeT (tail + 1) }, reserved := s.reserved ++ [item] }
    else some (s.setPc p (.check s.ring.tail item))
  | .reload item => some (s.setPc p (.check s.ring.tail item))
  | .write tail item => some { s.setPc p (.publish tail) with ring := s.ring.setValue tail item }
  | .publish tail =>
    some { s.setPc p .idle with
      ring := s.ring.setSeq tail (sizeT (tail + 1)), succeeded := s.succeeded ++ [tail] }

/-- One step of the consumer inside `try_pop` or `drain`. -/
def consume (moved : τ) : ConsumerPc → Option (RingRun τ)
  | .idle => none
  | .scan left =>
    if intptr (s.ring.slotAt s.ring.head).seq - intptr (sizeT (s.ring.head + 1)) < 0 then
      some { s with consumer := .idle }
    else some { s with consumer := .take left }
  | .take left =>
    some { s with
      ring := s.ring.setValue s.ring.head moved, consumer := .release left,
      popped := s.popped ++ [(s.ring.slotAt s.ring.head).value] }
  | .release left =>
    some { s with
      ring := { s.ring.setSeq s.ring.head (sizeT (s.ring.head + s.ring.capacity)) with
        head := sizeT (s.ring.head + 1) },
      consumer := if left ≤ 1 then .idle else .scan (left - 1) }

/-- One atomic step. -/
def step : RingAction τ → Option (RingRun τ)
  | .push p item =>
    match s.producers p with
    | .idle => some (s.setPc p (.check s.ring.tail item))
    | _ => none
  | .advance p weak => s.produce p weak (s.producers p)
  | .pop => if s.consumer = .idle then some { s with consumer := .scan 1 } else none
  | .drain maxCount =>
    if s.consumer = .idle then
      some { s with consumer := if maxCount = 0 then .idle else .scan maxCount }
    else none
  | .consume moved => s.consume moved s.consumer

/-! ## What is to hold -/

/-- The item reserved at `x` is in the ring, published and not yet taken. -/
def Holds (x : ℕ) : Prop :=
  (s.ring.slotAt x).seq = x + 1 ∧ s.reserved[x]? = some (s.ring.slotAt x).value

/-- Every item whose push succeeded is popped once or still in the ring, in the order of
the reservations, and a push fails only when the ring is full. -/
structure Delivers : Prop where
  /-- the items popped are the first ones reserved, in order -/
  inOrder : s.popped = s.reserved.take s.popped.length
  /-- every success has a reservation of its own -/
  distinct : s.succeeded.Nodup
  placed : ∀ x ∈ s.succeeded, x < s.reserved.length
  kept : ∀ x ∈ s.succeeded, x < s.popped.length ∨ s.Holds x
  full : ∀ n ∈ s.refused, n = s.ring.capacity

/-- Where a producer's compare-exchange is about to succeed, the positions are in the
range of `intptr_t`, and in a ring of one slot nothing is reserved and unreleased. -/
def ClaimsFree (r : MpscRing τ) (weak : Bool) : ProducerPc τ → Prop
  | .claim tail _ =>
    r.tail = tail ∧ weak = false →
      r.tail + r.capacity + 1 < 2 ^ 63 ∧ (r.capacity = 1 → r.tail = r.head)
  | _ => True

instance instDecidableClaimsFree (r : MpscRing τ) (weak : Bool) :
    (pc : ProducerPc τ) → Decidable (ClaimsFree r weak pc)
  | .claim tail _ => inferInstanceAs (Decidable (r.tail = tail ∧ weak = false →
      r.tail + r.capacity + 1 < 2 ^ 63 ∧ (r.capacity = 1 → r.tail = r.head)))
  | .idle => .isTrue trivial
  | .check _ _ => .isTrue trivial
  | .reload _ => .isTrue trivial
  | .write _ _ => .isTrue trivial
  | .publish _ => .isTrue trivial

/-- The condition on a step: a compare-exchange succeeds only on a free slot. -/
def Apart : RingAction τ → Prop
  | .advance p weak => ClaimsFree s.ring weak (s.producers p)
  | _ => True

instance instDecidableApart : (a : RingAction τ) → Decidable (s.Apart a)
  | .advance p weak => instDecidableClaimsFree s.ring weak (s.producers p)
  | .push _ _ => .isTrue trivial
  | .pop => .isTrue trivial
  | .drain _ => .isTrue trivial
  | .consume _ => .isTrue trivial

end RingRun

/-! ## Words and indexes -/

theorem sizeT_of_lt {n : ℕ} (h : n ≤ 2 ^ 63) : sizeT n = n :=
  Nat.mod_eq_of_lt (by omega)

theorem intptr_of_lt {n : ℕ} (h : n < 2 ^ 63) : intptr n = n := if_pos h

theorem roundUp_zero {capacity : ℕ} (h : 0 < capacity) (rounds : ℕ) :
    roundUp rounds 0 capacity = none := by
  induction rounds with
  | zero => exact if_pos h
  | succ rounds ih =>
    rw [roundUp, if_pos h]
    exact ih

/-- The capacity is a power of two, no less than what was asked for. -/
theorem roundUp_spec {rounds k capacity p : ℕ} (hk : k ≤ 63)
    (h : roundUp rounds (2 ^ k) capacity = some p) :
    ∃ j, p = 2 ^ j ∧ j ≤ 63 ∧ capacity ≤ p := by
  induction rounds generalizing k with
  | zero =>
    rw [roundUp] at h
    split at h
    · cases h
    · next hle => exact ⟨k, (Option.some.inj h).symm, hk, by grind⟩
  | succ rounds ih =>
    rw [roundUp] at h
    split at h
    · next hlt =>
      have hshift : 2 ^ k <<< 1 = 2 ^ (k + 1) := by rw [Nat.shiftLeft_eq, pow_one, pow_succ]
      rw [hshift] at h
      rcases Nat.lt_or_ge k 63 with hk' | hk'
      · have hle : 2 ^ (k + 1) ≤ 2 ^ 63 := Nat.pow_le_pow_right (by decide) hk'
        rw [sizeT_of_lt hle] at h
        exact ih hk' h
      · -- the bit is shifted out
        obtain rfl : k = 63 := by omega
        rw [show sizeT (2 ^ (63 + 1)) = 0 from Nat.mod_self _, roundUp_zero (by omega)] at h
        cases h
    · next hle => exact ⟨k, (Option.some.inj h).symm, hk, by grind⟩

/-- The loop ends for every capacity up to `2 ^ 63`. -/
theorem roundUp_isSome {rounds k capacity : ℕ} (hk : k ≤ 63) (hrounds : 63 ≤ k + rounds)
    (hcapacity : capacity ≤ 2 ^ 63) : (roundUp rounds (2 ^ k) capacity).isSome := by
  induction rounds generalizing k with
  | zero =>
    obtain rfl : k = 63 := by omega
    rw [roundUp, if_neg (by omega)]
    rfl
  | succ rounds ih =>
    rw [roundUp]
    split
    · next hlt =>
      have hk' : k < 63 := by
        by_contra hge
        obtain rfl : k = 63 := by omega
        omega
      have hle : 2 ^ (k + 1) ≤ 2 ^ 63 := Nat.pow_le_pow_right (by decide) hk'
      rw [Nat.shiftLeft_eq, pow_one, ← pow_succ, sizeT_of_lt hle]
      exact ih hk' (by omega)
    · rfl

namespace MpscRing

variable {τ : Type} {r : MpscRing τ}

theorem create_isSome (initial : τ) {capacity : ℕ} (h : capacity ≤ 2 ^ 63) :
    (create initial capacity).isSome := by
  have hround := roundUp_isSome (k := 0) (by decide) (show 63 ≤ 0 + 64 by decide) h
  obtain ⟨p, hp⟩ := Option.isSome_iff_exists.mp hround
  rw [pow_zero] at hp
  rw [create, hp]
  rfl

/-- The mask cuts positions down to indexes. -/
structure Shaped (r : MpscRing τ) : Prop where
  pow : ∃ k, r.capacity = 2 ^ k
  mask : r.mask = r.capacity - 1

theorem Shaped.pos (h : r.Shaped) : 0 < r.capacity := by
  obtain ⟨k, hk⟩ := h.pow
  rw [hk]
  exact Nat.two_pow_pos k

theorem Shaped.index (h : r.Shaped) (x : ℕ) : x &&& r.mask = x % r.capacity := by
  obtain ⟨k, hk⟩ := h.pow
  rw [h.mask, hk, Nat.and_two_pow_sub_one_eq_mod]

/-- Positions less than `capacity` apart have slots of their own. -/
theorem Shaped.index_inj (h : r.Shaped) {x y : ℕ} (hx : x < y + r.capacity)
    (hy : y < x + r.capacity) (hindex : x &&& r.mask = y &&& r.mask) : x = y := by
  rw [h.index, h.index] at hindex
  have hmod : x ≡ y [MOD r.capacity] := hindex
  rcases Nat.le_total x y with hle | hle
  · have hdvd := (Nat.modEq_iff_dvd' hle).mp hmod
    have := Nat.eq_zero_of_dvd_of_lt hdvd (by omega)
    omega
  · have hdvd := (Nat.modEq_iff_dvd' hle).mp hmod.symm
    have := Nat.eq_zero_of_dvd_of_lt hdvd (by omega)
    omega

/-- The slot of a position is also that of the position one round later. -/
theorem Shaped.slotAt_add (h : r.Shaped) (x : ℕ) : r.slotAt (x + r.capacity) = r.slotAt x := by
  rw [slotAt, slotAt, h.index, h.index, Nat.add_mod_right]

@[simp] theorem slotAt_setSlot_self (x : ℕ) (slot : RingSlot τ) :
    (r.setSlot x slot).slotAt x = slot := by
  simp [slotAt, setSlot]

theorem Shaped.slotAt_setSlot (h : r.Shaped) {x y : ℕ} (hx : x < y + r.capacity)
    (hy : y < x + r.capacity) (hne : y ≠ x) (slot : RingSlot τ) :
    (r.setSlot x slot).slotAt y = r.slotAt y := by
  have hindex : y &&& r.mask ≠ x &&& r.mask := fun heq => hne (h.index_inj hy hx heq)
  simp [slotAt, setSlot, hindex]

theorem Shaped.setSlot (h : r.Shaped) (x : ℕ) (slot : RingSlot τ) : (r.setSlot x slot).Shaped :=
  ⟨h.pow, h.mask⟩

end MpscRing

/-! ## The invariant -/

/-- The producer has reserved `x` and not yet published it. -/
def ProducerPc.Owns {τ : Type} : ProducerPc τ → ℕ → Prop
  | .write tail _, x => x = tail
  | .publish tail, x => x = tail
  | _, _ => False

namespace RingRun

variable {τ : Type} {s s' : RingRun τ}

/-- What a producer may rely on. Having found the number of its slot, it knows that the
slot is free if nobody reserves it first, except in a ring of one slot. -/
def ProducerOk (s : RingRun τ) : ProducerPc τ → Prop
  | .idle => True
  | .check tail _ => tail ≤ s.ring.tail
  | .claim tail _ =>
    tail ≤ s.ring.tail ∧
      (s.ring.capacity ≠ 1 → s.ring.tail = tail → s.ring.tail < s.ring.head + s.ring.capacity)
  | .reload _ => True
  | .write tail item =>
    tail < s.ring.tail ∧ tail ∉ s.succeeded ∧ s.reserved[tail]? = some item
  | .publish tail =>
    tail < s.ring.tail ∧ tail ∉ s.succeeded ∧
      s.reserved[tail]? = some (s.ring.slotAt tail).value

/-- How far the consumer is. -/
def ConsumerOk (s : RingRun τ) : ConsumerPc → Prop
  | .idle => s.popped.length = s.ring.head
  | .scan _ => s.popped.length = s.ring.head
  | .take _ => s.popped.length = s.ring.head ∧ s.ring.head ∈ s.succeeded
  | .release _ => s.popped.length = s.ring.head + 1 ∧ s.ring.head ∈ s.succeeded

/-- What every step keeps. -/
structure Sound (s : RingRun τ) : Prop where
  shaped : s.ring.Shaped
  bound : s.ring.tail + s.ring.capacity ≤ 2 ^ 63 ∧ s.ring.tail + 1 < 2 ^ 63
  length : s.reserved.length = s.ring.tail
  head : s.ring.head ≤ s.ring.tail
  room : s.ring.tail ≤ s.ring.head + s.ring.capacity
  /-- a free slot has the number of the position it is free for -/
  free : ∀ x, s.ring.head ≤ x → x < s.ring.head + s.ring.capacity → x ∉ s.succeeded →
    (s.ring.slotAt x).seq = x
  published : ∀ x ∈ s.succeeded, s.ring.head ≤ x → (s.ring.slotAt x).seq = x + 1
  values : ∀ x ∈ s.succeeded, s.popped.length ≤ x →
    s.reserved[x]? = some (s.ring.slotAt x).value
  placed : ∀ x ∈ s.succeeded, x < s.ring.tail
  early : ∀ x, x < s.ring.head → x ∈ s.succeeded
  distinct : s.succeeded.Nodup
  producers : ∀ p, s.ProducerOk (s.producers p)
  /-- a position has one owner -/
  alone : ∀ p q x, (s.producers p).Owns x → (s.producers q).Owns x → p = q
  consumer : s.ConsumerOk s.consumer
  inOrder : s.popped = s.reserved.take s.popped.length
  full : ∀ n ∈ s.refused, n = s.ring.capacity

theorem Sound.head_le_popped (h : Sound s) : s.ring.head ≤ s.popped.length := by
  have hc := h.consumer
  cases hpc : s.consumer <;> rw [hpc, ConsumerOk] at hc <;> omega

theorem Sound.delivers (h : Sound s) : s.Delivers := by
  refine ⟨h.inOrder, h.distinct, fun x hx => ?_, fun x hx => ?_, h.full⟩
  · rw [h.length]
    exact h.placed x hx
  · rcases Nat.lt_or_ge x s.popped.length with hlt | hge
    · exact Or.inl hlt
    · exact Or.inr ⟨h.published x hx (le_trans h.head_le_popped hge), h.values x hx hge⟩

/-- The slot of a position in reach: its number, and that it fits. -/
theorem Sound.seq_of_reach (h : Sound s) {x : ℕ} (hx : s.ring.head ≤ x)
    (hx' : x < s.ring.head + s.ring.capacity) :
    ((s.ring.slotAt x).seq = x ∨ (s.ring.slotAt x).seq = x + 1 ∧ x < s.ring.tail) := by
  by_cases hmem : x ∈ s.succeeded
  · exact Or.inr ⟨h.published x hmem hx, h.placed x hmem⟩
  · exact Or.inl (h.free x hx hx' hmem)

/-- Every position up to the tail is in reach, or a whole number of rounds before one
that is. -/
theorem Sound.reach (h : Sound s) {t : ℕ} (ht : t ≤ s.ring.tail) :
    ∃ x, s.ring.head ≤ x ∧ x < s.ring.head + s.ring.capacity ∧
      s.ring.slotAt x = s.ring.slotAt t ∧ (t ≤ x ∨ t = s.ring.tail ∧
        t = s.ring.head + s.ring.capacity ∧ x = s.ring.head) := by
  have hpos := h.shaped.pos
  have hroom := h.room
  have hhead := h.head
  rcases Nat.lt_or_ge t s.ring.head with hlt | hge
  · -- the first position in reach with the same remainder
    obtain ⟨d, hd⟩ := Nat.exists_eq_add_of_lt hlt
    have hround : ∀ n, s.ring.slotAt (t + n * s.ring.capacity) = s.ring.slotAt t := by
      intro n
      induction n with
      | zero => rw [Nat.zero_mul, Nat.add_zero]
      | succ n ih => rw [Nat.succ_mul, ← Nat.add_assoc, h.shaped.slotAt_add, ih]
    have hdiv := Nat.div_add_mod (s.ring.head - t + s.ring.capacity - 1) s.ring.capacity
    have hmod := Nat.mod_lt (s.ring.head - t + s.ring.capacity - 1) hpos
    rw [Nat.mul_comm] at hdiv
    refine ⟨_, ?_, ?_, hround ((s.ring.head - t + s.ring.capacity - 1) / s.ring.capacity), ?_⟩
    · omega
    · omega
    · exact Or.inl (Nat.le_add_right _ _)
  · rcases Nat.lt_or_ge t (s.ring.head + s.ring.capacity) with hin | hout
    · exact ⟨t, hge, hin, rfl, Or.inl (le_refl t)⟩
    · have heq : t = s.ring.head + s.ring.capacity := by omega
      refine ⟨s.ring.head, le_refl _, by omega, ?_, Or.inr ⟨by omega, heq, rfl⟩⟩
      rw [heq, h.shaped.slotAt_add]

/-- What a producer reads of the number of its slot. -/
theorem Sound.diff_cases (h : Sound s) {t : ℕ} (ht : t ≤ s.ring.tail) :
    let diff := intptr (s.ring.slotAt t).seq - intptr t
    (diff < 0 → s.ring.tail = s.ring.head + s.ring.capacity) ∧
      (diff = 0 → s.ring.capacity ≠ 1 → s.ring.tail = t →
        s.ring.tail < s.ring.head + s.ring.capacity) := by
  obtain ⟨x, hx, hx', hslot, hpos⟩ := h.reach ht
  have hbound := h.bound
  have hcap := h.shaped.pos
  have hhead := h.head
  have hroom := h.room
  have hseq := h.seq_of_reach hx hx'
  rw [hslot] at hseq
  have hsmall : (s.ring.slotAt t).seq < 2 ^ 63 := by omega
  dsimp only
  rw [intptr_of_lt hsmall, intptr_of_lt (by omega)]
  constructor
  · intro hneg
    omega
  · intro hzero hone htail
    omega

/-! ## The steps of a producer -/

@[simp] theorem setPc_self (s : RingRun τ) (p : ℕ) (pc : ProducerPc τ) :
    (s.setPc p pc).producers p = pc := by
  simp [setPc]

theorem setPc_of_ne (s : RingRun τ) {p q : ℕ} (pc : ProducerPc τ) (h : q ≠ p) :
    (s.setPc p pc).producers q = s.producers q := by
  simp [setPc, h]

/-- Owners after one producer went on: it owns what it owned, or something nobody did. -/
theorem alone_setPc (halone : ∀ p q x, (s.producers p).Owns x → (s.producers q).Owns x → p = q)
    (p : ℕ) {pc : ProducerPc τ}
    (hpc : ∀ x, pc.Owns x → ∀ q, q ≠ p → ¬(s.producers q).Owns x) :
    ∀ q q' x, ((s.setPc p pc).producers q).Owns x → ((s.setPc p pc).producers q').Owns x →
      q = q' := by
  intro q q' x hq hq'
  by_cases hqp : q = p <;> by_cases hqp' : q' = p
  · rw [hqp, hqp']
  · subst hqp
    rw [setPc_self] at hq
    rw [setPc_of_ne s pc hqp'] at hq'
    exact absurd hq' (hpc x hq q' hqp')
  · subst hqp'
    rw [setPc_self] at hq'
    rw [setPc_of_ne s pc hqp] at hq
    exact absurd hq (hpc x hq' q hqp)
  · rw [setPc_of_ne s pc hqp] at hq
    rw [setPc_of_ne s pc hqp'] at hq'
    exact halone q q' x hq hq'

/-- What holds of all producers, if it holds of the one that went on and the others
keep it. -/
theorem forall_setPc {P : ProducerPc τ → Prop} (p : ℕ) {pc : ProducerPc τ} (hpc : P pc)
    (hothers : ∀ q, q ≠ p → P (s.producers q)) (q : ℕ) : P ((s.setPc p pc).producers q) := by
  by_cases hq : q = p
  · rw [hq, setPc_self]
    exact hpc
  · rw [setPc_of_ne s pc hq]
    exact hothers q hq

/-- A producer that owns nothing goes on without touching the ring. -/
theorem Sound.setPc (h : Sound s) (p : ℕ) {pc : ProducerPc τ} (hok : s.ProducerOk pc)
    (hown : ∀ x, ¬pc.Owns x) : Sound (s.setPc p pc) :=
  ⟨h.shaped, h.bound, h.length, h.head, h.room, h.free, h.published, h.values, h.placed, h.early,
    h.distinct, forall_setPc (P := s.ProducerOk) p hok fun q _ => h.producers q,
    alone_setPc h.alone p fun x hx => absurd hx (hown x), h.consumer, h.inOrder, h.full⟩

/-- A push is refused. -/
theorem Sound.refuse (h : Sound s) (hfull : s.ring.tail = s.ring.head + s.ring.capacity) :
    Sound { s with refused := s.refused ++ [s.ring.tail - s.ring.head] } := by
  refine ⟨h.shaped, h.bound, h.length, h.head, h.room, h.free, h.published, h.values, h.placed,
    h.early, h.distinct, h.producers, h.alone, h.consumer, h.inOrder, fun n hn => ?_⟩
  rcases List.mem_append.mp hn with hn | hn
  · exact h.full n hn
  · rw [List.mem_singleton.mp hn]
    dsimp only
    omega

/-- A position is reserved. -/
theorem Sound.claim (h : Sound s) (p : ℕ) (item : τ)
    (hfits : s.ring.tail + s.ring.capacity + 1 < 2 ^ 63)
    (hfree : s.ring.tail < s.ring.head + s.ring.capacity) :
    Sound { s.setPc p (.write s.ring.tail item) with
      ring := { s.ring with tail := s.ring.tail + 1 }, reserved := s.reserved ++ [item] } := by
  have hkeep : ∀ x, x < s.ring.tail → (s.reserved ++ [item])[x]? = s.reserved[x]? := by
    intro x hx
    rw [← h.length] at hx
    exact List.getElem?_append_left hx
  have hnew : (s.reserved ++ [item])[s.ring.tail]? = some item := by
    rw [← h.length]
    exact List.getElem?_concat_length
  have hfresh : s.ring.tail ∉ s.succeeded := fun hmem => Nat.lt_irrefl _ (h.placed _ hmem)
  have hpopped : s.popped.length ≤ s.reserved.length := by
    have := congrArg List.length h.inOrder
    rw [List.length_take] at this
    omega
  refine ⟨⟨h.shaped.pow, h.shaped.mask⟩, ?_, ?_, ?_, ?_, h.free, h.published, ?_, ?_, h.early,
    h.distinct, ?_, ?_, h.consumer, ?_, h.full⟩
  · have hcap := h.shaped.pos
    dsimp only
    omega
  · simp [h.length]
  · exact le_trans h.head (Nat.le_succ _)
  · exact hfree
  · intro x hx hle
    dsimp only [RingRun.setPc] at hx hle ⊢
    rw [hkeep x (h.placed x hx)]
    exact h.values x hx hle
  · intro x hx
    exact lt_trans (h.placed x hx) (Nat.lt_succ_self _)
  · refine forall_setPc p ⟨Nat.lt_succ_self _, hfresh, hnew⟩ fun q _ => ?_
    have hq := h.producers q
    cases hpc : s.producers q with
    | idle => trivial
    | check t item' =>
      rw [hpc] at hq
      exact Nat.le_succ_of_le hq
    | claim t item' =>
      -- the tail has moved on, and this compare-exchange will fail
      rw [hpc] at hq
      refine ⟨Nat.le_succ_of_le hq.1, fun _ htail => ?_⟩
      have := hq.1
      dsimp only at htail
      omega
    | reload item' => trivial
    | write t item' =>
      rw [hpc] at hq
      exact ⟨Nat.lt_succ_of_lt hq.1, hq.2.1, (hkeep t hq.1).trans hq.2.2⟩
    | publish t =>
      rw [hpc] at hq
      exact ⟨Nat.lt_succ_of_lt hq.1, hq.2.1, (hkeep t hq.1).trans hq.2.2⟩
  · refine alone_setPc h.alone p fun x hx q _ hq => ?_
    obtain rfl : x = s.ring.tail := hx
    have hqok := h.producers q
    cases hpc : s.producers q <;> rw [hpc] at hq hqok
    · exact hq
    · exact hq
    · exact hq
    · exact hq
    · exact absurd hqok.1 (by rw [show _ = _ from hq]; exact Nat.lt_irrefl _)
    · exact absurd hqok.1 (by rw [show _ = _ from hq]; exact Nat.lt_irrefl _)
  · dsimp only [RingRun.setPc]
    rw [List.take_append_of_le_length hpopped]
    exact h.inOrder

/-- The slots of two positions in reach are apart. -/
theorem Sound.slotAt_setSlot (h : Sound s) {x y : ℕ} (hx : s.ring.head ≤ x)
    (hx' : x < s.ring.head + s.ring.capacity) (hy : s.ring.head ≤ y)
    (hy' : y < s.ring.head + s.ring.capacity) (hne : y ≠ x) (slot : RingSlot τ) :
    (s.ring.setSlot x slot).slotAt y = s.ring.slotAt y :=
  h.shaped.slotAt_setSlot (by omega) (by omega) hne slot

/-- A position that is reserved and not published is in reach. -/
theorem Sound.owned_reach (h : Sound s) {x : ℕ} (hx : x < s.ring.tail) (hnew : x ∉ s.succeeded) :
    s.ring.head ≤ x ∧ x < s.ring.head + s.ring.capacity := by
  have hroom := h.room
  refine ⟨?_, by omega⟩
  by_contra hlt
  exact hnew (h.early x (Nat.lt_of_not_le hlt))

/-- What the other producers rely on, when one slot in reach changes that none of them
owns. -/
theorem Sound.producers_setSlot (h : Sound s) {x : ℕ} (hx : s.ring.head ≤ x)
    (hx' : x < s.ring.head + s.ring.capacity) (slot : RingSlot τ) {succeeded : List ℕ}
    (hsucc : ∀ y, y ∈ succeeded → y ∈ s.succeeded ∨ y = x) {p : ℕ}
    (hother : ∀ y, (s.producers p).Owns y → y ≠ x) {pcs : ℕ → ProducerPc τ} {c : ConsumerPc}
    {popped : List τ} :
    ProducerOk
      { s with
        ring := s.ring.setSlot x slot
        succeeded := succeeded
        producers := pcs
        consumer := c
        popped := popped } (s.producers p) := by
  have hp := h.producers p
  cases hpc : s.producers p with
  | idle => trivial
  | check t item =>
    rw [hpc] at hp
    exact hp
  | claim t item =>
    rw [hpc] at hp
    exact hp
  | reload item => trivial
  | write t item =>
    rw [hpc] at hp hother
    refine ⟨hp.1, fun hmem => ?_, hp.2.2⟩
    rcases hsucc t hmem with hmem | heq
    · exact hp.2.1 hmem
    · exact hother t rfl heq
  | publish t =>
    rw [hpc] at hp hother
    have hreach := h.owned_reach hp.1 hp.2.1
    refine ⟨hp.1, fun hmem => ?_, ?_⟩
    · rcases hsucc t hmem with hmem | heq
      · exact hp.2.1 hmem
      · exact hother t rfl heq
    · have hslot := h.slotAt_setSlot hx hx' hreach.1 hreach.2 (hother t rfl) slot
      dsimp only
      rw [hslot]
      exact hp.2.2

/-- The owner of a position writes its value. -/
theorem Sound.write (h : Sound s) {p t : ℕ} {item : τ} (hpc : s.producers p = .write t item) :
    Sound { s.setPc p (.publish t) with ring := s.ring.setValue t item } := by
  have hp := h.producers p
  rw [hpc] at hp
  obtain ⟨htail, hnew, hitem⟩ := hp
  have hreach := h.owned_reach htail hnew
  have hslot : ∀ y, s.ring.head ≤ y → y < s.ring.head + s.ring.capacity → y ≠ t →
      (s.ring.setValue t item).slotAt y = s.ring.slotAt y :=
    fun y hy hy' hne => h.slotAt_setSlot hreach.1 hreach.2 hy hy' hne _
  have hself : (s.ring.setValue t item).slotAt t = { s.ring.slotAt t with value := item } :=
    MpscRing.slotAt_setSlot_self t _
  have hother : ∀ q, q ≠ p → ∀ y, (s.producers q).Owns y → y ≠ t := by
    rintro q hq y hy rfl
    exact hq (h.alone q p y hy (by rw [hpc]; rfl))
  have hnext : ∀ x ∈ s.succeeded, x < s.ring.head + s.ring.capacity :=
    fun x hx => lt_of_lt_of_le (h.placed x hx) h.room
  refine ⟨h.shaped.setSlot t _, h.bound, h.length, h.head, h.room, fun x hx hx' hmem => ?_,
    fun x hmem hx => ?_, fun x hmem hle => ?_, h.placed, h.early, h.distinct, ?_, ?_, h.consumer,
    h.inOrder, h.full⟩
  · by_cases hxt : x = t
    · subst hxt
      dsimp only
      rw [hself]
      exact h.free x hx hx' hmem
    · dsimp only
      rw [hslot x hx hx' hxt]
      exact h.free x hx hx' hmem
  · have hxt : x ≠ t := fun heq => hnew (heq ▸ hmem)
    dsimp only
    rw [hslot x hx (hnext x hmem) hxt]
    exact h.published x hmem hx
  · have hxt : x ≠ t := fun heq => hnew (heq ▸ hmem)
    dsimp only
    rw [hslot x (le_trans h.head_le_popped hle) (hnext x hmem) hxt]
    exact h.values x hmem hle
  · refine forall_setPc p ⟨htail, hnew, ?_⟩ fun q hq => ?_
    · dsimp only
      rw [hself]
      exact hitem
    · exact h.producers_setSlot hreach.1 hreach.2 _ (fun y hy => Or.inl hy) (hother q hq)
  · exact alone_setPc h.alone p fun x hx q hq hown => hother q hq x hown hx

/-- The owner of a position publishes it. -/
theorem Sound.publish (h : Sound s) {p t : ℕ} (hpc : s.producers p = .publish t) :
    Sound { s.setPc p .idle with
      ring := s.ring.setSeq t (t + 1), succeeded := s.succeeded ++ [t] } := by
  have hp := h.producers p
  rw [hpc] at hp
  obtain ⟨htail, hnew, hitem⟩ := hp
  have hreach := h.owned_reach htail hnew
  have hslot : ∀ y, s.ring.head ≤ y → y < s.ring.head + s.ring.capacity → y ≠ t →
      (s.ring.setSeq t (t + 1)).slotAt y = s.ring.slotAt y :=
    fun y hy hy' hne => h.slotAt_setSlot hreach.1 hreach.2 hy hy' hne _
  have hself : (s.ring.setSeq t (t + 1)).slotAt t = { s.ring.slotAt t with seq := t + 1 } :=
    MpscRing.slotAt_setSlot_self t _
  have hother : ∀ q, q ≠ p → ∀ y, (s.producers q).Owns y → y ≠ t := by
    rintro q hq y hy rfl
    exact hq (h.alone q p y hy (by rw [hpc]; rfl))
  have hnext : ∀ x ∈ s.succeeded, x < s.ring.head + s.ring.capacity :=
    fun x hx => lt_of_lt_of_le (h.placed x hx) h.room
  have hmem_iff : ∀ x, x ∈ s.succeeded ++ [t] ↔ x ∈ s.succeeded ∨ x = t := by simp
  refine ⟨h.shaped.setSlot t _, h.bound, h.length, h.head, h.room, fun x hx hx' hmem => ?_,
    fun x hmem hx => ?_, fun x hmem hle => ?_, fun x hmem => ?_, fun x hx => ?_, ?_, ?_, ?_, ?_,
    h.inOrder, h.full⟩
  · obtain ⟨hmem', hne⟩ := not_or.mp (fun hm => hmem ((hmem_iff x).mpr hm))
    dsimp only
    rw [hslot x hx hx' hne]
    exact h.free x hx hx' hmem'
  · by_cases hxt : x = t
    · subst hxt
      dsimp only
      rw [hself]
    · have hold := ((hmem_iff x).mp hmem).resolve_right hxt
      dsimp only
      rw [hslot x hx (hnext x hold) hxt]
      exact h.published x hold hx
  · by_cases hxt : x = t
    · subst hxt
      dsimp only
      rw [hself]
      exact hitem
    · have hold := ((hmem_iff x).mp hmem).resolve_right hxt
      dsimp only
      rw [hslot x (le_trans h.head_le_popped hle) (hnext x hold) hxt]
      exact h.values x hold hle
  · rcases (hmem_iff x).mp hmem with hold | rfl
    · exact h.placed x hold
    · exact htail
  · exact (hmem_iff x).mpr (Or.inl (h.early x hx))
  · rw [List.nodup_append]
    refine ⟨h.distinct, by simp, ?_⟩
    rintro x hx y hy rfl
    exact hnew (List.mem_singleton.mp hy ▸ hx)
  · refine forall_setPc p trivial fun q hq => ?_
    exact h.producers_setSlot hreach.1 hreach.2 _ (fun y hy => (hmem_iff y).mp hy) (hother q hq)
  · exact alone_setPc h.alone p fun x hx => absurd hx id
  · have hc := h.consumer
    dsimp only [RingRun.setPc]
    cases hcpc : s.consumer with
    | idle =>
      rw [hcpc] at hc
      exact hc
    | scan left =>
      rw [hcpc] at hc
      exact hc
    | take left =>
      rw [hcpc] at hc
      exact ⟨hc.1, (hmem_iff _).mpr (Or.inl hc.2)⟩
    | release left =>
      rw [hcpc] at hc
      exact ⟨hc.1, (hmem_iff _).mpr (Or.inl hc.2)⟩

/-- A step of a producer inside `try_push`. -/
theorem Sound.produce (h : Sound s) {p : ℕ} {weak : Bool} (hapart : s.Apart (.advance p weak))
    (hstep : s.produce p weak (s.producers p) = some s') : Sound s' := by
  have hp := h.producers p
  have hbound := h.bound
  have hcap := h.shaped.pos
  rw [Apart] at hapart
  cases hpc : s.producers p with
  | idle =>
    rw [hpc] at hstep
    cases hstep
  | check t item =>
    rw [hpc] at hstep hp
    obtain ⟨hfull, hfree⟩ := h.diff_cases hp
    dsimp only [RingRun.produce] at hstep
    split at hstep
    · next hzero =>
      obtain rfl := Option.some.inj hstep
      exact h.setPc p ⟨hp, hfree hzero⟩ fun x => id
    · split at hstep
      · next hneg =>
        obtain rfl := Option.some.inj hstep
        exact (h.setPc p (show s.ProducerOk .idle from trivial) fun x => id).refuse (hfull hneg)
      · obtain rfl := Option.some.inj hstep
        exact h.setPc p trivial fun x => id
  | claim t item =>
    rw [hpc] at hstep hp hapart
    dsimp only [RingRun.produce] at hstep
    split at hstep
    · next hwin =>
      obtain ⟨hfits, hone⟩ := hapart hwin
      have hfree : s.ring.tail < s.ring.head + s.ring.capacity := by
        by_cases hcap1 : s.ring.capacity = 1
        · have := hone hcap1
          omega
        · exact hp.2 hcap1 hwin.1
      obtain rfl := Option.some.inj hstep
      rw [← hwin.1, sizeT_of_lt (by omega)]
      exact h.claim p item hfits hfree
    · obtain rfl := Option.some.inj hstep
      exact h.setPc p (le_refl s.ring.tail) fun x => id
  | reload item =>
    rw [hpc] at hstep
    obtain rfl := Option.some.inj hstep
    exact h.setPc p (le_refl s.ring.tail) fun x => id
  | write t item =>
    rw [hpc] at hstep
    obtain rfl := Option.some.inj hstep
    exact h.write hpc
  | publish t =>
    rw [hpc] at hstep hp
    dsimp only [RingRun.produce] at hstep
    have htail := hp.1
    rw [sizeT_of_lt (by omega)] at hstep
    obtain rfl := Option.some.inj hstep
    exact h.publish hpc

/-! ## The steps of the consumer -/

/-- The consumer goes on without touching the ring. -/
theorem Sound.setConsumer (h : Sound s) {c : ConsumerPc} (hc : s.ConsumerOk c) :
    Sound { s with consumer := c } :=
  ⟨h.shaped, h.bound, h.length, h.head, h.room, h.free, h.published, h.values, h.placed, h.early,
    h.distinct, h.producers, h.alone, hc, h.inOrder, h.full⟩

/-- What the consumer reads of the number of its slot: it goes on only if the slot is
published. -/
theorem Sound.ready (h : Sound s)
    (hdiff : ¬intptr (s.ring.slotAt s.ring.head).seq - intptr (sizeT (s.ring.head + 1)) < 0) :
    s.ring.head ∈ s.succeeded := by
  by_contra hmem
  have hcap := h.shaped.pos
  have hbound := h.bound
  have hhead := h.head
  have hseq := h.free s.ring.head (le_refl _) (by omega) hmem
  apply hdiff
  rw [hseq, sizeT_of_lt (by omega), intptr_of_lt (by omega), intptr_of_lt (by omega)]
  omega

/-- The published item is taken. -/
theorem Sound.take (h : Sound s) {left : ℕ} (hpc : s.consumer = .take left) (moved : τ) :
    Sound { s with
      ring := s.ring.setValue s.ring.head moved, consumer := .release left,
      popped := s.popped ++ [(s.ring.slotAt s.ring.head).value] } := by
  have hc := h.consumer
  rw [hpc] at hc
  obtain ⟨hlength, hmem⟩ := hc
  have hcap := h.shaped.pos
  have hslot : ∀ y, s.ring.head ≤ y → y < s.ring.head + s.ring.capacity → y ≠ s.ring.head →
      (s.ring.setValue s.ring.head moved).slotAt y = s.ring.slotAt y :=
    fun y hy hy' hne => h.slotAt_setSlot (le_refl _) (by omega) hy hy' hne _
  have hself : (s.ring.setValue s.ring.head moved).slotAt s.ring.head =
      { s.ring.slotAt s.ring.head with value := moved } :=
    MpscRing.slotAt_setSlot_self s.ring.head _
  have hvalue := h.values s.ring.head hmem (le_of_eq hlength)
  have hseq : ∀ y, s.ring.head ≤ y → y < s.ring.head + s.ring.capacity →
      ((s.ring.setValue s.ring.head moved).slotAt y).seq = (s.ring.slotAt y).seq := by
    intro y hy hy'
    by_cases hne : y = s.ring.head
    · rw [hne, hself]
    · rw [hslot y hy hy' hne]
  have hnext : ∀ x ∈ s.succeeded, x < s.ring.head + s.ring.capacity :=
    fun x hx => lt_of_lt_of_le (h.placed x hx) h.room
  refine ⟨h.shaped.setSlot _ _, h.bound, h.length, h.head, h.room, fun x hx hx' hnot => ?_,
    fun x hx hle => ?_, fun x hx hle => ?_, h.placed, h.early, h.distinct, fun p => ?_, h.alone,
    ⟨?_, hmem⟩, ?_, h.full⟩
  · exact (hseq x hx hx').trans (h.free x hx hx' hnot)
  · exact (hseq x hle (hnext x hx)).trans (h.published x hx hle)
  · rw [List.length_append, List.length_singleton] at hle
    dsimp only
    rw [hslot x (by omega) (hnext x hx) (by omega)]
    exact h.values x hx (by omega)
  · refine h.producers_setSlot (le_refl _) (by omega) _ (fun y hy => Or.inl hy) fun y hown => ?_
    -- an owned position is not published, the head is
    rintro rfl
    have hp := h.producers p
    cases hppc : s.producers p <;> rw [hppc] at hp hown
    · exact hown
    · exact hown
    · exact hown
    · exact hown
    · obtain rfl : s.ring.head = _ := hown
      exact hp.2.1 hmem
    · obtain rfl : s.ring.head = _ := hown
      exact hp.2.1 hmem
  · rw [List.length_append, List.length_singleton, hlength]
    rfl
  · dsimp only
    rw [List.length_append, List.length_singleton, List.take_add_one, ← h.inOrder, hlength, hvalue]
    rfl

/-- The slot is freed for the next round. -/
theorem Sound.release (h : Sound s) {left : ℕ} (hpc : s.consumer = .release left)
    {c : ConsumerPc} (hc' : c = .idle ∨ ∃ n, c = .scan n) :
    Sound { s with
      ring := { s.ring.setSeq s.ring.head (s.ring.head + s.ring.capacity) with
        head := s.ring.head + 1 },
      consumer := c } := by
  have hc := h.consumer
  rw [hpc] at hc
  obtain ⟨hlength, hmem⟩ := hc
  have hcap := h.shaped.pos
  have hroom := h.room
  have htail := h.placed _ hmem
  have hslot : ∀ y, s.ring.head ≤ y → y < s.ring.head + s.ring.capacity → y ≠ s.ring.head →
      (s.ring.setSeq s.ring.head (s.ring.head + s.ring.capacity)).slotAt y = s.ring.slotAt y :=
    fun y hy hy' hne => h.slotAt_setSlot (le_refl _) (by omega) hy hy' hne _
  have hself : (s.ring.setSeq s.ring.head (s.ring.head + s.ring.capacity)).slotAt
      (s.ring.head + s.ring.capacity) =
      { s.ring.slotAt s.ring.head with seq := s.ring.head + s.ring.capacity } := by
    have hshaped := h.shaped.setSlot s.ring.head
      { s.ring.slotAt s.ring.head with seq := s.ring.head + s.ring.capacity }
    exact (hshaped.slotAt_add s.ring.head).trans
      (MpscRing.slotAt_setSlot_self s.ring.head _)
  have hnext : ∀ x ∈ s.succeeded, x < s.ring.head + s.ring.capacity :=
    fun x hx => lt_of_lt_of_le (h.placed x hx) h.room
  refine ⟨⟨h.shaped.pow, h.shaped.mask⟩, h.bound, h.length, htail, ?_, fun x hx hx' hnot => ?_,
    fun x hx hle => ?_, fun x hx hle => ?_, h.placed, fun x hx => ?_, h.distinct, fun p => ?_,
    h.alone, ?_, h.inOrder, h.full⟩
  · have : s.ring.tail ≤ s.ring.head + 1 + s.ring.capacity := by omega
    exact this
  · have hx₁ : s.ring.head + 1 ≤ x := hx
    have hx₂ : x < s.ring.head + 1 + s.ring.capacity := hx'
    by_cases hlast : x = s.ring.head + s.ring.capacity
    · subst hlast
      exact congrArg RingSlot.seq hself
    · exact (congrArg RingSlot.seq (hslot x (by omega) (by omega) (by omega))).trans
        (h.free x (by omega) (by omega) hnot)
  · have hle' : s.ring.head + 1 ≤ x := hle
    exact (congrArg RingSlot.seq (hslot x (by omega) (hnext x hx) (by omega))).trans
      (h.published x hx (by omega))
  · have hle' : s.popped.length ≤ x := hle
    have hsame := congrArg RingSlot.value (hslot x (by omega) (hnext x hx) (by omega))
    exact (h.values x hx hle).trans (congrArg some hsame.symm)
  · have hx' : x < s.ring.head + 1 := hx
    by_cases heq : x = s.ring.head
    · rw [heq]
      exact hmem
    · exact h.early x (by omega)
  · have hp := h.producers p
    cases hppc : s.producers p with
    | idle => trivial
    | check t item =>
      rw [hppc] at hp
      exact hp
    | claim t item =>
      rw [hppc] at hp
      refine ⟨hp.1, fun hone heq => ?_⟩
      have := hp.2 hone heq
      change s.ring.tail < s.ring.head + 1 + s.ring.capacity
      omega
    | reload item => trivial
    | write t item =>
      rw [hppc] at hp
      exact hp
    | publish t =>
      rw [hppc] at hp
      have hreach := h.owned_reach hp.1 hp.2.1
      have hne : t ≠ s.ring.head := fun heq => hp.2.1 (heq ▸ hmem)
      have hsame := congrArg RingSlot.value (hslot t hreach.1 hreach.2 hne)
      exact ⟨hp.1, hp.2.1, hp.2.2.trans (congrArg some hsame.symm)⟩
  · rcases hc' with rfl | ⟨n, rfl⟩
    · exact hlength
    · exact hlength

/-- A step of the consumer inside `try_pop` or `drain`. -/
theorem Sound.consume (h : Sound s) {moved : τ}
    (hstep : s.consume moved s.consumer = some s') : Sound s' := by
  have hc := h.consumer
  have hbound := h.bound
  have hcap := h.shaped.pos
  cases hpc : s.consumer with
  | idle =>
    rw [hpc] at hstep
    cases hstep
  | scan left =>
    rw [hpc] at hstep hc
    dsimp only [RingRun.consume] at hstep
    split at hstep
    · obtain rfl := Option.some.inj hstep
      exact h.setConsumer hc
    · next hdiff =>
      obtain rfl := Option.some.inj hstep
      exact h.setConsumer ⟨hc, h.ready hdiff⟩
  | take left =>
    rw [hpc] at hstep
    obtain rfl := Option.some.inj hstep
    exact h.take hpc moved
  | release left =>
    rw [hpc] at hstep hc
    have htail := h.placed _ hc.2
    dsimp only [RingRun.consume] at hstep
    rw [sizeT_of_lt (by omega), sizeT_of_lt (by omega)] at hstep
    obtain rfl := Option.some.inj hstep
    refine h.release hpc ?_
    split
    · exact Or.inl rfl
    · exact Or.inr ⟨left - 1, rfl⟩

theorem Sound.step (h : Sound s) {a : RingAction τ} (hapart : s.Apart a)
    (hstep : s.step a = some s') : Sound s' := by
  cases a with
  | push p item =>
    dsimp only [RingRun.step] at hstep
    split at hstep
    · obtain rfl := Option.some.inj hstep
      exact h.setPc p (le_refl s.ring.tail) fun x => id
    · cases hstep
  | advance p weak => exact h.produce hapart hstep
  | pop =>
    dsimp only [RingRun.step] at hstep
    split at hstep
    · next hidle =>
      obtain rfl := Option.some.inj hstep
      have hc := h.consumer
      rw [hidle] at hc
      exact h.setConsumer hc
    · cases hstep
  | drain maxCount =>
    dsimp only [RingRun.step] at hstep
    split at hstep
    · next hidle =>
      obtain rfl := Option.some.inj hstep
      have hc := h.consumer
      rw [hidle] at hc
      refine h.setConsumer ?_
      split
      · exact hc
      · exact hc
    · cases hstep
  | consume moved => exact h.consume hstep

theorem Sound.start {initial : τ} {capacity : ℕ} {r : MpscRing τ}
    (hcreate : MpscRing.create initial capacity = some r) : Sound { ring := r } := by
  unfold MpscRing.create at hcreate
  split at hcreate
  · cases hcreate
  next p hround =>
  obtain rfl := Option.some.inj hcreate
  obtain ⟨j, rfl, hj, -⟩ := roundUp_spec (k := 0) (by decide) hround
  have hle : 2 ^ j ≤ 2 ^ 63 := Nat.pow_le_pow_right (by decide) hj
  have hshaped : @MpscRing.Shaped τ
      { capacity := 2 ^ j, mask := 2 ^ j - 1, slots := fun i => ⟨i, initial⟩ } := ⟨⟨j, rfl⟩, rfl⟩
  refine ⟨hshaped, ?_, rfl, le_refl _, Nat.zero_le _, fun x _ hx _ => ?_, ?_, ?_, ?_, ?_,
    List.nodup_nil, fun p => trivial, ?_, rfl, rfl, ?_⟩
  · dsimp only
    omega
  · have hlt : x < 2 ^ j := by
      have : x < 0 + 2 ^ j := hx
      omega
    exact (hshaped.index x).trans (Nat.mod_eq_of_lt hlt)
  · intro x hx
    cases hx
  · intro x hx
    cases hx
  · intro x hx
    cases hx
  · intro x hx
    cases hx
  · intro p q x hp
    cases hp
  · intro n hn
    cases hn

end RingRun

/-- For every requested capacity and every number of producers: as long as a
compare-exchange succeeds only within the range of `intptr_t` and, in a ring of one
slot, only while nothing is reserved and unreleased, every item whose push succeeded is
popped once or still in the ring, in the order of the reservations, and a push fails
only when the ring is full. -/
theorem ring_contract {τ : Type} {initial : τ} {capacity : ℕ} {r : MpscRing τ}
    (hcreate : MpscRing.create initial capacity = some r) {as : List (RingAction τ)}
    {s : RingRun τ} (hrun : exec RingRun.step { ring := r } as = some s)
    (hapart : Meets RingRun.step RingRun.Apart { ring := r } as) : s.Delivers := by
  refine RingRun.Sound.delivers ?_
  refine exec_invariant (I := fun _ s => RingRun.Sound s) ?_ (h := []) hapart hrun
    (RingRun.Sound.start hcreate)
  intro h s a s' hok hstep hsound
  exact hsound.step hok hstep

/-- Two slots, three items of two producers, a lost race and a weak failure: the third
push is refused while the ring is full, and the first item is popped. -/
def fullRing : List (RingAction ℕ) :=
  [.push 0 10, .push 1 20, .advance 0 false, .advance 1 false, .advance 1 false,
    .advance 0 false, .advance 0 false, .advance 0 true, .advance 0 false, .advance 0 false,
    .advance 0 false, .advance 0 false, .advance 1 false, .advance 1 false, .push 1 30,
    .advance 1 false, .drain 1, .consume 0, .consume 0, .consume 0]

/-- A ring of the requested capacity, all slots 0. -/
def emptyRing (capacity : ℕ) : RingRun ℕ :=
  { ring := (MpscRing.create 0 capacity).getD ⟨0, 0, fun _ => ⟨0, 0⟩, 0, 0⟩ }

theorem ring_contract_fullRing :
    ((exec RingRun.step (emptyRing 2) fullRing).getD (emptyRing 2)).Delivers ∧
      ((exec RingRun.step (emptyRing 2) fullRing).getD (emptyRing 2)).popped = [20] := by
  have hcreate : MpscRing.create 0 2 = some (emptyRing 2).ring := rfl
  have hsome : (exec RingRun.step (emptyRing 2) fullRing).isSome := by decide
  have hrun := exec_eq_some_getD hsome
  exact ⟨ring_contract hcreate hrun (by decide), by decide⟩

/-- One slot, two pushes by one producer and two pops. -/
def overwrittenItem : List (RingAction ℕ) :=
  [.push 0 10, .advance 0 false, .advance 0 false, .advance 0 false, .advance 0 false,
    .push 0 20, .advance 0 false, .advance 0 false, .advance 0 false, .advance 0 false,
    .pop, .consume 0, .consume 0, .consume 0, .pop, .consume 0]

/-- In a ring of one slot the second push overwrites the first item: both succeed, only
the second item comes out, and the ring is empty. -/
theorem published_slot_overwritten :
    MpscRing.create 0 1 = some (emptyRing 1).ring ∧
      (exec RingRun.step (emptyRing 1) overwrittenItem).isSome ∧
      ¬((exec RingRun.step (emptyRing 1) overwrittenItem).getD (emptyRing 1)).Delivers := by
  refine ⟨rfl, by decide, fun h => ?_⟩
  have hpopped := h.inOrder
  revert hpopped
  decide

end Ranvier
