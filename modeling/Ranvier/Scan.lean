import Mathlib.Data.List.Basic
import Mathlib.Order.Lattice

/-!
# Scans for a best element

The selection loop `best = start; for (x : xs) if (wins(x, best)) best = x;`
with an arbitrary test, and lookups by an index that such a scan produced.

* `scanBest_mem` — the winner is the start or one of the scanned;
* `scanBest_key_le` — if winning means a smaller key, nothing has a smaller key
  than the winner;
* `scanBest_first` — and of those with its key the winner comes first;
* `scanBest_lt` — the winner among indices below a bound;
* `mem_scanned` — the positions of a list, the first apart.
-/

namespace Ranvier

universe u

section Scans

variable {α : Type u}

/-- The last element that won against the best before it. -/
def scanBest (wins : α → α → Bool) (start : α) (xs : List α) : α :=
  xs.foldl (fun best x => if wins x best then x else best) start

theorem scanBest_mem (wins : α → α → Bool) (start : α) (xs : List α) :
    scanBest wins start xs ∈ start :: xs := by
  induction xs generalizing start with
  | nil => exact List.mem_singleton_self start
  | cons x xs ih =>
    have hstep : scanBest wins start (x :: xs) =
        scanBest wins (if wins x start then x else start) xs := rfl
    have hbest := ih (if wins x start then x else start)
    rw [hstep]
    rcases List.mem_cons.mp hbest with h | h
    · rw [h]
      split
      · exact List.mem_cons_of_mem _ List.mem_cons_self
      · exact List.mem_cons_self
    · exact List.mem_cons_of_mem _ (List.mem_cons_of_mem _ h)

theorem scanBest_lt (wins : ℕ → ℕ → Bool) {start n : ℕ} {is : List ℕ} (hstart : start < n)
    (his : ∀ i ∈ is, i < n) : scanBest wins start is < n := by
  rcases List.mem_cons.mp (scanBest_mem wins start is) with h | h
  · rw [h]
    exact hstart
  · exact his _ h

theorem scanBest_key_le {β : Type*} [LinearOrder β] (wins : α → α → Bool) (key : α → β)
    (hwins : ∀ x best, wins x best = true ↔ key x < key best) (start : α) (xs : List α) :
    ∀ x ∈ start :: xs, key (scanBest wins start xs) ≤ key x := by
  induction xs generalizing start with
  | nil =>
    intro x hx
    rw [List.mem_singleton.mp hx]
    exact le_refl _
  | cons y xs ih =>
    have hstep : scanBest wins start (y :: xs) =
        scanBest wins (if wins y start then y else start) xs := rfl
    have hbest := ih (if wins y start then y else start)
    have hle := hbest _ List.mem_cons_self
    rw [hstep]
    intro x hx
    rcases List.mem_cons.mp hx with rfl | hx
    · refine le_trans hle ?_
      split
      · next hwin => exact ((hwins y x).mp hwin).le
      · exact le_refl _
    · rcases List.mem_cons.mp hx with rfl | hx
      · refine le_trans hle ?_
        split
        · exact le_refl _
        · next hlose => exact not_lt.mp fun hlt => hlose ((hwins x start).mpr hlt)
      · exact hbest x (List.mem_cons_of_mem _ hx)

/-- A winner other than the start has a smaller key than all before it. -/
theorem scanBest_first {β : Type*} [LinearOrder β] (wins : α → α → Bool) (key : α → β)
    (hwins : ∀ x best, wins x best = true ↔ key x < key best) (start : α) (xs : List α) :
    scanBest wins start xs = start ∨
      ∃ pre post, xs = pre ++ scanBest wins start xs :: post ∧
        ∀ x ∈ start :: pre, key (scanBest wins start xs) < key x := by
  induction xs generalizing start with
  | nil => exact Or.inl rfl
  | cons y xs ih =>
    have hstep : scanBest wins start (y :: xs) =
        scanBest wins (if wins y start then y else start) xs := rfl
    rw [hstep]
    by_cases hwin : wins y start = true
    · rw [if_pos hwin]
      have hlt := (hwins y start).mp hwin
      rcases ih y with heq | ⟨pre, post, hxs, hpre⟩
      · rw [heq]
        exact Or.inr ⟨[], xs, rfl, by simpa using hlt⟩
      · refine Or.inr ⟨y :: pre, post, by rw [List.cons_append, ← hxs], ?_⟩
        intro x hx
        rcases List.mem_cons.mp hx with rfl | hx
        · exact (hpre y List.mem_cons_self).trans hlt
        · exact hpre x hx
    · rw [if_neg hwin]
      rcases ih start with heq | ⟨pre, post, hxs, hpre⟩
      · exact Or.inl heq
      · refine Or.inr ⟨y :: pre, post, by rw [List.cons_append, ← hxs], ?_⟩
        intro x hx
        have hstart := hpre start List.mem_cons_self
        rcases List.mem_cons.mp hx with rfl | hx
        · exact hstart
        · rcases List.mem_cons.mp hx with rfl | hx
          · exact hstart.trans_le (not_lt.mp fun hlt => hwin ((hwins x start).mpr hlt))
          · exact hpre x (List.mem_cons_of_mem _ hx)

/-- An element read at an index below the length. -/
theorem getD_mem {xs : List α} {i : ℕ} (d : α) (h : i < xs.length) : xs.getD i d ∈ xs := by
  rw [List.getD_eq_getElem?_getD, List.getElem?_eq_getElem h]
  exact List.getElem_mem h

/-- A scan that starts at the first of `n` positions and goes over the others meets all. -/
theorem mem_scanned {n i : ℕ} (hi : i < n) : i ∈ 0 :: List.range' 1 (n - 1) := by
  rcases Nat.eq_zero_or_pos i with rfl | hpos
  · exact List.mem_cons_self
  · exact List.mem_cons_of_mem _ (List.mem_range'_1.mpr (by omega))

theorem lt_of_mem_scanned {n i : ℕ} (hi : i ∈ List.range' 1 (n - 1)) : i < n := by
  have := List.mem_range'_1.mp hi
  omega

end Scans

end Ranvier
