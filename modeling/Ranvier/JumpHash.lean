import Ranvier.Placement

/-!
# Jump consistent hash

The loop of `jump_consistent_hash` visits growing positions and answers with the last one
below the number of buckets. One bucket more lets it visit at most one position more, the
new bucket itself.

* `JumpRuns` — the loop as the source writes it, without a bound on its turns;
* `lt_nextJump` — every turn goes further;
* `jumpConsistentHash_contract` — the loop ends in a bucket, and a new bucket only takes
  keys for itself.

The source's `double`s are taken exactly.
-/

namespace Ranvier

/-- The key after a turn of the loop. -/
def nextJumpKey (key : UInt64) : UInt64 := key * 2862933555777941757 + 1

/-- The position that follows `j`, with the key of the turn. -/
def nextJump (key : UInt64) (j : ℕ) : ℕ := (j + 1) * 2 ^ 31 / ((key >>> 33).toNat + 1)

/-- `while (j < num_buckets)`, from a key, a bucket and a position to the bucket at the end. -/
inductive JumpRuns (numBuckets : ℕ) : UInt64 → ℤ → ℕ → ℤ → Prop where
  | done {key : UInt64} {b : ℤ} {j : ℕ} (h : ¬ j < numBuckets) : JumpRuns numBuckets key b j b
  | turn {key : UInt64} {b : ℤ} {j : ℕ} {bucket : ℤ} (h : j < numBuckets)
      (rest : JumpRuns numBuckets (nextJumpKey key) j (nextJump (nextJumpKey key) j) bucket) :
      JumpRuns numBuckets key b j bucket

theorem jumpLoop_turn {numBuckets j : ℕ} (fuel : ℕ) (key : UInt64) (b : ℕ) (h : j < numBuckets) :
    jumpLoop numBuckets (fuel + 1) key b j =
      jumpLoop numBuckets fuel (nextJumpKey key) j (nextJump (nextJumpKey key) j) := by
  rw [jumpLoop, if_pos h]
  rfl

theorem jumpLoop_done {numBuckets j : ℕ} (fuel : ℕ) (key : UInt64) (b : ℕ)
    (h : ¬ j < numBuckets) : jumpLoop numBuckets fuel key b j = b := by
  cases fuel with
  | zero => rfl
  | succ fuel => rw [jumpLoop, if_neg h]

/-- The divisor has 31 bits, so the next position lies behind this one. -/
theorem lt_nextJump (key : UInt64) (j : ℕ) : j < nextJump key j := by
  have hshift : (key >>> 33).toNat < 2 ^ 31 := by
    rw [UInt64.toNat_shiftRight, Nat.shiftRight_eq_div_pow]
    have hlt := key.toNat_lt
    have hmod : (33 : UInt64).toNat % 64 = 33 := rfl
    rw [hmod]
    omega
  rw [nextJump, Nat.lt_iff_add_one_le, Nat.le_div_iff_mul_le (Nat.succ_pos _)]
  exact Nat.mul_le_mul_left _ hshift

/-- As many turns as there are positions left are enough. -/
theorem jumpRuns_jumpLoop {numBuckets fuel : ℕ} {key : UInt64} {b j : ℕ}
    (h : numBuckets ≤ j + fuel) :
    JumpRuns numBuckets key b j (jumpLoop numBuckets fuel key b j : ℕ) := by
  induction fuel generalizing key b j with
  | zero => exact .done (by omega)
  | succ fuel ih =>
    by_cases hj : j < numBuckets
    · rw [jumpLoop_turn fuel key b hj]
      have hnext := lt_nextJump (nextJumpKey key) j
      exact .turn hj (ih (by omega))
    · rw [jumpLoop_done _ key b hj]
      exact .done hj

/-- At the end of the shorter loop, one turn more is possible: to the new bucket. -/
theorem jumpLoop_succ_done {numBuckets fuel : ℕ} {key : UInt64} {b j : ℕ}
    (h : ¬ j < numBuckets) :
    jumpLoop (numBuckets + 1) (fuel + 1) key b j = jumpLoop numBuckets fuel key b j ∨
      jumpLoop (numBuckets + 1) (fuel + 1) key b j = numBuckets := by
  rw [jumpLoop_done fuel key b h]
  by_cases hj : j < numBuckets + 1
  · have hnew : j = numBuckets := by omega
    have hnext := lt_nextJump (nextJumpKey key) j
    rw [jumpLoop_turn fuel key b hj, jumpLoop_done fuel _ j (by omega)]
    exact Or.inr hnew
  · exact Or.inl (jumpLoop_done _ key b hj)

/-- One bucket more: both loops go the same way up to the end of the shorter one. -/
theorem jumpLoop_succ {numBuckets fuel : ℕ} {key : UInt64} {b j : ℕ}
    (h : numBuckets ≤ j + fuel) :
    jumpLoop (numBuckets + 1) (fuel + 1) key b j = jumpLoop numBuckets fuel key b j ∨
      jumpLoop (numBuckets + 1) (fuel + 1) key b j = numBuckets := by
  induction fuel generalizing key b j with
  | zero => exact jumpLoop_succ_done (by omega)
  | succ fuel ih =>
    by_cases hj : j < numBuckets
    · have hnext := lt_nextJump (nextJumpKey key) j
      rw [jumpLoop_turn (fuel + 1) key b (Nat.lt_succ_of_lt hj), jumpLoop_turn fuel key b hj]
      exact ih (by omega)
    · exact jumpLoop_succ_done hj

/-- **Jump consistent hash.** The source's loop ends, in a bucket; and one bucket more
leaves a key where it is or moves it to the new bucket. -/
theorem jumpConsistentHash_contract (key : UInt64) {numBuckets : ℕ} (h : 1 ≤ numBuckets) :
    JumpRuns numBuckets key (-1) 0 (jumpConsistentHash key numBuckets : ℕ) ∧
      jumpConsistentHash key numBuckets < numBuckets ∧
      (jumpConsistentHash key (numBuckets + 1) = jumpConsistentHash key numBuckets ∨
        jumpConsistentHash key (numBuckets + 1) = numBuckets) := by
  refine ⟨?_, jumpConsistentHash_lt key h, jumpLoop_succ (by omega)⟩
  -- the first turn forgets the bucket the loop starts with
  obtain ⟨fuel, rfl⟩ := Nat.exists_eq_add_of_le' h
  have hnext := lt_nextJump (nextJumpKey key) 0
  rw [jumpConsistentHash, jumpLoop_turn fuel key 0 h]
  exact .turn h (jumpRuns_jumpLoop (by omega))

/-- A key that each new bucket takes, up to three. -/
theorem jumpConsistentHash_contract_six :
    (jumpConsistentHash 6 1, jumpConsistentHash 6 2, jumpConsistentHash 6 3) = (0, 1, 2) ∧
      (jumpConsistentHash 6 3 = jumpConsistentHash 6 2 ∨ jumpConsistentHash 6 3 = 2) :=
  ⟨by decide, (jumpConsistentHash_contract 6 (by decide)).2.2⟩

end Ranvier
