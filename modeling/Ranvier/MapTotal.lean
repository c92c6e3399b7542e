import Mathlib.Algebra.BigOperators.Group.List.Basic
import Mathlib.Data.List.AList

/-!
# Totals over a finite map

A weight for every entry of a map, summed up. A key has an entry or not, so the total
splits into the weight under the key and the total of the rest
(`total_eq_weightAt_add`); what writing and erasing do to the total follows from
that, without subtraction.
-/

namespace Ranvier

universe u v w

namespace MapTotal

section Totals

variable {κ : Type u} {γ : κ → Type v} {M : Type w} [AddCommMonoid M]
  (weight : (k : κ) → γ k → M)

/-- The sum of the weights of all entries. -/
def total (m : AList γ) : M := (m.entries.map fun e => weight e.1 e.2).sum

@[simp] theorem total_empty : total weight (∅ : AList γ) = 0 := rfl

variable [DecidableEq κ]

/-- The weight under a key. -/
def weightAt (m : AList γ) (k : κ) : M :=
  match m.lookup k with
  | some c => weight k c
  | none => 0

variable {weight} {m : AList γ} {k : κ}

theorem weightAt_of_lookup {c : γ k} (h : m.lookup k = some c) :
    weightAt weight m k = weight k c := by
  rw [weightAt, h]

theorem weightAt_of_none (h : m.lookup k = none) : weightAt weight m k = 0 := by
  rw [weightAt, h]

/-- What lies under a key, and the rest. -/
theorem total_eq_weightAt_add (m : AList γ) (k : κ) :
    total weight m = weightAt weight m k + total weight (m.erase k) := by
  by_cases hk : k ∈ m
  · obtain ⟨c, before, after, -, hsplit, herase⟩ := List.exists_of_kerase hk
    have hlookup : m.lookup k = some c := by
      refine List.mem_dlookup m.nodupKeys ?_
      rw [hsplit]
      exact List.mem_append_right _ List.mem_cons_self
    rw [weightAt_of_lookup hlookup, total, total]
    change (m.entries.map _).sum = _ + ((List.kerase k m.entries).map _).sum
    rw [herase, hsplit, List.map_append, List.map_append, List.map_cons, List.sum_append,
      List.sum_append, List.sum_cons, add_left_comm]
  · rw [weightAt_of_none (AList.lookup_eq_none.mpr hk), zero_add, total, total]
    change (m.entries.map _).sum = ((List.kerase k m.entries).map _).sum
    rw [List.kerase_of_notMem_keys hk]

theorem total_insert (m : AList γ) (k : κ) (c : γ k) :
    total weight (m.insert k c) = weight k c + total weight (m.erase k) := by
  rw [total, AList.entries_insert, List.map_cons, List.sum_cons]
  rfl

/-- An entry without weight may go. -/
theorem total_erase_of_weightless (h : weightAt weight m k = 0) :
    total weight (m.erase k) = total weight m := by
  rw [total_eq_weightAt_add m k, h, zero_add]

end Totals

section Sizes

variable {κ : Type u} {γ : κ → Type v} [DecidableEq κ] {m : AList γ} {k : κ}

theorem length_keys_insert_of_none {c : γ k} (h : m.lookup k = none) :
    (m.insert k c).keys.length = m.keys.length + 1 := by
  rw [AList.keys_insert, List.length_cons,
    List.erase_of_not_mem (fun hk => AList.lookup_eq_none.mp h (AList.mem_keys.mpr hk))]

theorem length_keys_erase_of_lookup {c : γ k} (h : m.lookup k = some c) :
    (m.erase k).keys.length + 1 = m.keys.length := by
  have hk : k ∈ m.keys := AList.lookup_isSome.mp (by rw [h]; rfl)
  rw [AList.keys_erase, List.length_erase_of_mem hk]
  exact Nat.sub_add_cancel (List.length_pos_of_mem hk)

end Sizes

end MapTotal

end Ranvier
