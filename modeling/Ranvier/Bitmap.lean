import Mathlib.Data.List.Basic
import Mathlib.Data.Nat.Bitwise

/-!
# Bitmaps

A run of bytes as a set of positions: position `i` is the bit `i % 8` of byte `i / 8`,
counted from the lowest. `ofFlags` marks positions one after the other in bytes that
start at zero, and `marked` picks from a list what stands at a marked position.

* `test_ofFlags` — what was marked is what is found;
* `marked_append` — bytes behind the bitmap do not count.
-/

namespace Ranvier

namespace Bitmap

/-- `1 << (i & 7)`. -/
def mask (i : ℕ) : UInt8 := 1 <<< UInt8.ofNat (i % 8)

/-- The bytes for `n` positions. -/
def bytesFor (n : ℕ) : ℕ := (n + 7) / 8

/-- The bit of position `i`. -/
def test (bytes : List UInt8) (i : ℕ) : Bool := bytes.getD (i / 8) 0 &&& mask i != 0

/-- Marks position `i`. -/
def set (bytes : List UInt8) (i : ℕ) : List UInt8 := bytes.modify (i / 8) (· ||| mask i)

/-- Marks the positions below `n` that have the flag. -/
def ofFlags (flag : ℕ → Bool) (n : ℕ) : List UInt8 :=
  (List.range n).foldl (fun bytes i => if flag i then set bytes i else bytes)
    (List.replicate (bytesFor n) 0)

/-- The elements at marked positions. -/
def marked {α : Type*} (bytes : List UInt8) (l : List α) : List α :=
  (l.zipIdx.filter fun e => test bytes e.2).map Prod.fst

theorem toNat_mask (i : ℕ) : (mask i).toNat = 2 ^ (i % 8) := by
  have hlt : i % 8 < 8 := Nat.mod_lt _ (by decide)
  have hpow : 2 ^ (i % 8) < 2 ^ 8 := Nat.pow_lt_pow_right (by decide) hlt
  have hshift : (UInt8.ofNat (i % 8)).toNat % 8 = i % 8 := by
    rw [UInt8.toNat_ofNat']
    omega
  rw [mask, UInt8.toNat_shiftLeft, hshift, Nat.shiftLeft_eq]
  exact (congrArg (· % 2 ^ 8) (Nat.one_mul _)).trans (Nat.mod_eq_of_lt hpow)

theorem and_mask_ne_zero_iff (b : UInt8) (i : ℕ) :
    (b &&& mask i != 0) = b.toNat.testBit (i % 8) := by
  have hzero : (b &&& mask i) = 0 ↔ b.toNat.testBit (i % 8) = false := by
    rw [← UInt8.toNat_inj, UInt8.toNat_and, toNat_mask, Nat.and_two_pow]
    cases b.toNat.testBit (i % 8) with
    | false => simp
    | true => simp
  cases h : b.toNat.testBit (i % 8) with
  | false => simp [hzero.mpr h]
  | true =>
    have hne : (b &&& mask i) ≠ 0 := fun heq => by
      rw [hzero.mp heq] at h
      cases h
    simp [hne]

theorem test_eq_testBit (bytes : List UInt8) (i : ℕ) :
    test bytes i = (bytes.getD (i / 8) 0).toNat.testBit (i % 8) :=
  and_mask_ne_zero_iff _ i

theorem length_set (bytes : List UInt8) (i : ℕ) : (set bytes i).length = bytes.length :=
  List.length_modify ..

theorem test_set {bytes : List UInt8} {i : ℕ} (hi : i / 8 < bytes.length) (j : ℕ) :
    test (set bytes i) j = (decide (i = j) || test bytes j) := by
  rw [test_eq_testBit, test_eq_testBit, set, List.getD_eq_getElem?_getD,
    List.getD_eq_getElem?_getD, List.getElem?_modify]
  by_cases hbyte : i / 8 = j / 8
  · have hj : j / 8 < bytes.length := by omega
    have hsame : (i % 8 = j % 8) ↔ i = j := by omega
    rw [List.getElem?_eq_getElem hj, Option.map_eq_map, Option.map_some, Option.getD_some,
      Option.getD_some, if_pos hbyte, UInt8.toNat_or, Nat.testBit_or, toNat_mask,
      Nat.testBit_two_pow, decide_eq_decide.mpr hsame]
    exact Bool.or_comm _ _
  · have hne : i ≠ j := fun h => hbyte (by rw [h])
    simp [hbyte, hne]

theorem test_replicate_zero (n i : ℕ) : test (List.replicate n 0) i = false := by
  rw [test_eq_testBit, List.getD_eq_getElem?_getD, List.getElem?_replicate]
  split
  · exact Nat.zero_testBit _
  · exact Nat.zero_testBit _

/-- The positions marked so far. -/
theorem foldl_set (flag : ℕ → Bool) {n m : ℕ} (hm : m ≤ n) :
    let bytes := (List.range m).foldl (fun bytes i => if flag i then set bytes i else bytes)
      (List.replicate (bytesFor n) 0)
    bytes.length = bytesFor n ∧ ∀ j, test bytes j = (decide (j < m) && flag j) := by
  induction m with
  | zero => exact ⟨List.length_replicate, fun j => by simp [test_replicate_zero]⟩
  | succ m ih =>
    obtain ⟨hlength, htest⟩ := ih (by omega)
    rw [List.range_succ, List.foldl_append]
    simp only [List.foldl_cons, List.foldl_nil]
    cases hflag : flag m with
    | false =>
      refine ⟨hlength, fun j => ?_⟩
      rw [if_neg Bool.false_ne_true, htest]
      by_cases hj : j = m
      · simp [hj, hflag]
      · have hlt : j < m + 1 ↔ j < m := by omega
        simp [hlt]
    | true =>
      rw [if_pos rfl]
      refine ⟨(length_set _ _).trans hlength, fun j => ?_⟩
      have hroom : m / 8 < bytesFor n := by
        rw [bytesFor]
        omega
      rw [test_set (by rw [hlength]; exact hroom), htest]
      by_cases hj : m = j
      · simp [← hj, hflag]
      · have hlt : j < m + 1 ↔ j < m := by omega
        simp [hj, hlt]

theorem length_ofFlags (flag : ℕ → Bool) (n : ℕ) : (ofFlags flag n).length = bytesFor n :=
  (foldl_set flag (Nat.le_refl n)).1

theorem test_ofFlags (flag : ℕ → Bool) {n j : ℕ} (hj : j < n) :
    test (ofFlags flag n) j = flag j := by
  have htest := (foldl_set flag (Nat.le_refl n)).2 j
  rw [ofFlags, htest, decide_eq_true hj, Bool.true_and]

theorem test_append {bytes : List UInt8} {i : ℕ} (hi : i / 8 < bytes.length) (rest : List UInt8) :
    test (bytes ++ rest) i = test bytes i := by
  rw [test, test, List.getD_append _ _ _ _ hi]

section Marked

variable {α : Type*}

theorem filter_zipIdx_congr {f g : ℕ → Bool} {l : List α} {k : ℕ}
    (h : ∀ i, i < l.length → f (k + i) = g (k + i)) :
    ((l.zipIdx k).filter fun e => f e.2) = (l.zipIdx k).filter fun e => g e.2 := by
  refine List.filter_congr fun e he => ?_
  obtain ⟨hge, hlt, -⟩ := List.mem_zipIdx he
  have hi := h (e.2 - k) (by omega)
  rwa [Nat.add_sub_cancel' hge] at hi

/-- Bytes behind the bitmap do not count. -/
theorem marked_append {bytes : List UInt8} {l : List α} (h : bytesFor l.length ≤ bytes.length)
    (rest : List UInt8) : marked (bytes ++ rest) l = marked bytes l := by
  rw [marked, marked]
  congr 1
  refine filter_zipIdx_congr fun i hi => test_append ?_ rest
  rw [bytesFor] at h
  omega

/-- What is marked by its value is picked by its value. -/
theorem marked_ofFlags [Inhabited α] (p : α → Bool) (l : List α) :
    marked (ofFlags (fun i => p (l.getD i default)) l.length) l = l.filter p := by
  have hflags : (l.zipIdx.filter fun e => test (ofFlags (fun i => p (l.getD i default)) l.length) e.2)
      = l.zipIdx.filter fun e => p (l.getD e.2 default) := by
    refine filter_zipIdx_congr (g := fun i => p (l.getD i default)) fun i hi => ?_
    rw [Nat.zero_add]
    exact test_ofFlags _ hi
  have hvalue : (l.zipIdx.filter fun e => p (l.getD e.2 default)) =
      l.zipIdx.filter fun e => p e.1 := by
    refine List.filter_congr fun e he => ?_
    obtain ⟨-, hlt, hget⟩ := List.mem_zipIdx he
    rw [hget]
    simp [List.getD_eq_getElem?_getD, List.getElem?_eq_getElem (by omega : e.2 < l.length)]
  have hfst : (l.zipIdx.filter fun e => p e.1).map Prod.fst = (l.zipIdx.map Prod.fst).filter p :=
    List.filter_map.symm
  rw [marked, hflags, hvalue, hfst, List.zipIdx_map_fst]

end Marked

end Bitmap

end Ranvier
