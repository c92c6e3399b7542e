import Mathlib.Data.List.Basic
import Mathlib.Data.List.Nodup
import Mathlib.Order.Lattice

/-!
# Lists of keyed entries

Association lists as the child containers of a search-tree node use them: a
pair of parallel vectors is a list of `(key, value)` pairs, read by
`List.lookup`. Each update is described by what it does to `lookup`:

* `setKey` overwrites an entry in place, `eraseKey` removes one;
* appending a pair adds an entry under a new key (`lookup_append_new`);
* `setSlot` writes into a list kept in key order, the list of the occupied slots
  of a direct-mapped array;
* `lookup_eq_getElem?`, `modify_idxOf`, `eraseIdx_idxOf` — the same operations
  addressed by position, for a container with an index from key to position.
-/

namespace Ranvier

universe u v

variable {κ : Type u} {γ : Type v}

/-- The keys of a keyed list, in order. -/
def keysOf (l : List (κ × γ)) : List κ := l.map Prod.fst

@[simp] theorem keysOf_nil : keysOf ([] : List (κ × γ)) = [] := rfl

@[simp] theorem keysOf_cons (p : κ × γ) (l : List (κ × γ)) :
    keysOf (p :: l) = p.1 :: keysOf l := rfl

@[simp] theorem keysOf_append (l r : List (κ × γ)) :
    keysOf (l ++ r) = keysOf l ++ keysOf r := List.map_append

@[simp] theorem length_keysOf (l : List (κ × γ)) : (keysOf l).length = l.length :=
  List.length_map _

theorem mem_keysOf_of_mem {l : List (κ × γ)} {k : κ} {c : γ} (h : (k, c) ∈ l) :
    k ∈ keysOf l :=
  List.mem_map_of_mem h

section Lookup

variable [DecidableEq κ]

theorem lookup_cons_eq (b k : κ) (c : γ) (l : List (κ × γ)) :
    List.lookup b ((k, c) :: l) = if b = k then some c else List.lookup b l := by
  rw [List.lookup_cons]
  by_cases h : b = k
  · simp [h]
  · rw [if_neg h, beq_false_of_ne h]

theorem mem_of_lookup {l : List (κ × γ)} {b : κ} {c : γ} (h : List.lookup b l = some c) :
    (b, c) ∈ l := by
  induction l with
  | nil => cases h
  | cons p l ih =>
    obtain ⟨k, d⟩ := p
    rw [lookup_cons_eq] at h
    split at h
    · rename_i hbk
      rw [hbk, ← Option.some.inj h]
      exact List.mem_cons_self
    · exact List.mem_cons_of_mem _ (ih h)

/-- When no key repeats, every entry is the one found under its key. -/
theorem lookup_of_mem {l : List (κ × γ)} (hl : (keysOf l).Nodup) {b : κ} {c : γ}
    (h : (b, c) ∈ l) : List.lookup b l = some c := by
  induction l with
  | nil => cases h
  | cons p l ih =>
    obtain ⟨k, d⟩ := p
    rw [keysOf_cons, List.nodup_cons] at hl
    rw [lookup_cons_eq]
    rcases List.mem_cons.mp h with heq | hmem
    · obtain ⟨rfl, rfl⟩ := Prod.mk.inj heq
      rw [if_pos rfl]
    · have hne : b ≠ k := by
        rintro rfl
        exact hl.1 (mem_keysOf_of_mem hmem)
      rw [if_neg hne]
      exact ih hl.2 hmem

theorem lookup_eq_none_iff_keys {l : List (κ × γ)} {b : κ} :
    List.lookup b l = none ↔ b ∉ keysOf l := by
  induction l with
  | nil => simp
  | cons p l ih =>
    obtain ⟨k, d⟩ := p
    rw [lookup_cons_eq, keysOf_cons, List.mem_cons, not_or]
    by_cases h : b = k
    · simp [h]
    · rw [if_neg h, ih]
      simp [h]

theorem lookup_isSome_iff {l : List (κ × γ)} {b : κ} :
    (List.lookup b l).isSome ↔ b ∈ keysOf l := by
  rw [← not_iff_not, ← lookup_eq_none_iff_keys]
  cases List.lookup b l <;> simp

/-- Appending an entry under a new key. -/
theorem lookup_append_new {l : List (κ × γ)} {k : κ} (hk : k ∉ keysOf l) (c : γ) (b : κ) :
    List.lookup b (l ++ [(k, c)]) = if b = k then some c else List.lookup b l := by
  induction l with
  | nil =>
    rw [List.nil_append, lookup_cons_eq]
  | cons p l ih =>
    obtain ⟨k', d⟩ := p
    rw [keysOf_cons, List.mem_cons, not_or] at hk
    rw [List.cons_append, lookup_cons_eq, lookup_cons_eq, ih hk.2]
    by_cases hb : b = k'
    · rw [if_pos hb, if_pos hb, if_neg (by rw [hb]; exact fun h => hk.1 h.symm)]
    · rw [if_neg hb, if_neg hb]

/-! ## Overwriting and erasing -/

/-- Overwrite the value of the first entry for `key`; no entry, no change. -/
def setKey (key : κ) (c : γ) : List (κ × γ) → List (κ × γ)
  | [] => []
  | (k, d) :: rest => if k = key then (k, c) :: rest else (k, d) :: setKey key c rest

/-- Remove the first entry for `key`. -/
def eraseKey (key : κ) : List (κ × γ) → List (κ × γ)
  | [] => []
  | (k, d) :: rest => if k = key then rest else (k, d) :: eraseKey key rest

theorem setKey_cons (key : κ) (c : γ) (k : κ) (d : γ) (l : List (κ × γ)) :
    setKey key c ((k, d) :: l) = if k = key then (k, c) :: l else (k, d) :: setKey key c l := rfl

theorem eraseKey_cons (key k : κ) (d : γ) (l : List (κ × γ)) :
    eraseKey key ((k, d) :: l) = if k = key then l else (k, d) :: eraseKey key l := rfl

@[simp] theorem keysOf_setKey (key : κ) (c : γ) (l : List (κ × γ)) :
    keysOf (setKey key c l) = keysOf l := by
  induction l with
  | nil => rfl
  | cons p l ih =>
    obtain ⟨k, d⟩ := p
    rw [setKey_cons]
    split
    · rfl
    · rw [keysOf_cons, keysOf_cons, ih]

@[simp] theorem length_setKey (key : κ) (c : γ) (l : List (κ × γ)) :
    (setKey key c l).length = l.length := by
  rw [← length_keysOf, keysOf_setKey, length_keysOf]

theorem lookup_setKey {key : κ} {l : List (κ × γ)} (hk : key ∈ keysOf l) (c : γ) (b : κ) :
    List.lookup b (setKey key c l) = if b = key then some c else List.lookup b l := by
  induction l with
  | nil => cases hk
  | cons p l ih =>
    obtain ⟨k, d⟩ := p
    rw [setKey_cons]
    by_cases hkk : k = key
    · rw [if_pos hkk, lookup_cons_eq, lookup_cons_eq, hkk]
      by_cases hb : b = key
      · rw [if_pos hb, if_pos hb]
      · rw [if_neg hb, if_neg hb, if_neg hb]
    · rw [if_neg hkk, lookup_cons_eq, lookup_cons_eq]
      have hmem : key ∈ keysOf l := by
        rcases List.mem_cons.mp hk with h | h
        · exact absurd h.symm hkk
        · exact h
      rw [ih hmem]
      by_cases hb : b = k
      · rw [if_pos hb, if_pos hb, if_neg (by rw [hb]; exact hkk)]
      · rw [if_neg hb, if_neg hb]

theorem lookup_eraseKey {key : κ} {l : List (κ × γ)} (hl : (keysOf l).Nodup) (b : κ) :
    List.lookup b (eraseKey key l) = if b = key then none else List.lookup b l := by
  induction l with
  | nil => exact (ite_self _).symm
  | cons p l ih =>
    obtain ⟨k, d⟩ := p
    rw [keysOf_cons, List.nodup_cons] at hl
    rw [eraseKey_cons]
    by_cases hkk : k = key
    · rw [if_pos hkk, lookup_cons_eq, ← hkk]
      by_cases hb : b = k
      · rw [if_pos hb, hb]
        exact lookup_eq_none_iff_keys.mpr hl.1
      · rw [if_neg hb, if_neg hb]
    · rw [if_neg hkk, lookup_cons_eq, lookup_cons_eq, ih hl.2]
      by_cases hb : b = k
      · rw [if_pos hb, if_pos hb, if_neg (by rw [hb]; exact hkk)]
      · rw [if_neg hb, if_neg hb]

/-! ## The same operations by position -/

theorem lookup_eq_getElem? {key : κ} {l : List (κ × γ)} (hk : key ∈ keysOf l) :
    List.lookup key l = (l[(keysOf l).idxOf key]?).map Prod.snd := by
  induction l with
  | nil => cases hk
  | cons p l ih =>
    obtain ⟨k, d⟩ := p
    rw [lookup_cons_eq, keysOf_cons]
    by_cases hkk : key = k
    · rw [if_pos hkk, hkk, List.idxOf_cons_self]
      rfl
    · rw [if_neg hkk, List.idxOf_cons_ne _ (Ne.symm hkk)]
      have hmem : key ∈ keysOf l := by
        rcases List.mem_cons.mp hk with h | h
        · exact absurd h hkk
        · exact h
      rw [ih hmem, List.getElem?_cons_succ]

theorem modify_idxOf {key : κ} {l : List (κ × γ)} (hk : key ∈ keysOf l) (c : γ) :
    l.modify ((keysOf l).idxOf key) (fun p => (p.1, c)) = setKey key c l := by
  induction l with
  | nil => cases hk
  | cons p l ih =>
    obtain ⟨k, d⟩ := p
    rw [keysOf_cons, setKey_cons]
    by_cases hkk : k = key
    · rw [if_pos hkk, hkk, List.idxOf_cons_self]
      rfl
    · rw [if_neg hkk, List.idxOf_cons_ne _ hkk]
      have hmem : key ∈ keysOf l := by
        rcases List.mem_cons.mp hk with h | h
        · exact absurd h.symm hkk
        · exact h
      rw [List.modify_succ_cons, ih hmem]

theorem eraseIdx_idxOf {key : κ} {l : List (κ × γ)} (hk : key ∈ keysOf l) :
    l.eraseIdx ((keysOf l).idxOf key) = eraseKey key l := by
  induction l with
  | nil => cases hk
  | cons p l ih =>
    obtain ⟨k, d⟩ := p
    rw [keysOf_cons, eraseKey_cons]
    by_cases hkk : k = key
    · rw [if_pos hkk, hkk, List.idxOf_cons_self, List.eraseIdx_cons_zero]
    · rw [if_neg hkk, List.idxOf_cons_ne _ hkk]
      have hmem : key ∈ keysOf l := by
        rcases List.mem_cons.mp hk with h | h
        · exact absurd h.symm hkk
        · exact h
      rw [List.eraseIdx_cons_succ, ih hmem]

theorem keysOf_eraseKey (key : κ) (l : List (κ × γ)) :
    keysOf (eraseKey key l) = (keysOf l).erase key := by
  induction l with
  | nil => rfl
  | cons p l ih =>
    obtain ⟨k, d⟩ := p
    rw [eraseKey_cons, keysOf_cons]
    by_cases hkk : k = key
    · rw [if_pos hkk, hkk, List.erase_cons_head]
    · rw [if_neg hkk, keysOf_cons, List.erase_cons_tail (by simpa using hkk), ih]

/-- Erasing an element shifts the positions after it down by one. -/
theorem idxOf_erase {l : List κ} {a b : κ} (ha : a ∈ l) (hb : b ∈ l) (hne : b ≠ a) :
    (l.erase a).idxOf b =
      if l.idxOf a < l.idxOf b then l.idxOf b - 1 else l.idxOf b := by
  induction l with
  | nil => cases ha
  | cons x l ih =>
    by_cases hxa : x = a
    · subst hxa
      rw [List.erase_cons_head, List.idxOf_cons_self, List.idxOf_cons_ne _ (Ne.symm hne),
        if_pos (Nat.succ_pos _)]
      rfl
    · rw [List.erase_cons_tail (by simpa using hxa), List.idxOf_cons_ne _ hxa]
      by_cases hxb : x = b
      · subst hxb
        rw [List.idxOf_cons_self, List.idxOf_cons_self, if_neg (Nat.not_lt_zero _)]
      · have ha' : a ∈ l := (List.mem_cons.mp ha).resolve_left (Ne.symm hxa)
        have hb' : b ∈ l := (List.mem_cons.mp hb).resolve_left (Ne.symm hxb)
        rw [List.idxOf_cons_ne _ hxb, List.idxOf_cons_ne _ hxb, ih ha' hb']
        have hdiff : l.idxOf a ≠ l.idxOf b := fun h => hne ((List.idxOf_inj ha').mp h).symm
        split_ifs <;> omega

theorem perm_cons_eraseKey {key : κ} {l : List (κ × γ)} {c : γ}
    (hc : l.lookup key = some c) : l.Perm ((key, c) :: eraseKey key l) := by
  induction l with
  | nil => cases hc
  | cons p l ih =>
    obtain ⟨k, d⟩ := p
    rw [lookup_cons_eq] at hc
    rw [eraseKey_cons]
    by_cases hkk : key = k
    · rw [if_pos hkk] at hc
      rw [if_pos hkk.symm, hkk, Option.some.inj hc]
    · rw [if_neg hkk] at hc
      rw [if_neg (Ne.symm hkk)]
      exact ((ih hc).cons (k, d)).trans (List.Perm.swap _ _ _)

theorem setKey_perm {key : κ} {l : List (κ × γ)} (hk : key ∈ keysOf l) (c : γ) :
    (setKey key c l).Perm ((key, c) :: eraseKey key l) := by
  induction l with
  | nil => cases hk
  | cons p l ih =>
    obtain ⟨k, d⟩ := p
    rw [setKey_cons, eraseKey_cons]
    by_cases hkk : k = key
    · rw [if_pos hkk, if_pos hkk, hkk]
    · have hmem : key ∈ keysOf l := (List.mem_cons.mp hk).resolve_left (Ne.symm hkk)
      rw [if_neg hkk, if_neg hkk]
      exact ((ih hmem).cons (k, d)).trans (List.Perm.swap _ _ _)

end Lookup

/-! ## Slots in key order -/

section Slots

variable [LinearOrder κ]

/-- Write `c` into the slot `key` of a list kept in key order. -/
def setSlot (key : κ) (c : γ) : List (κ × γ) → List (κ × γ)
  | [] => [(key, c)]
  | (k, d) :: rest =>
    if key < k then (key, c) :: (k, d) :: rest
    else if key = k then (key, c) :: rest
    else (k, d) :: setSlot key c rest

theorem setSlot_nil (key : κ) (c : γ) : setSlot key c [] = [(key, c)] := rfl

theorem setSlot_cons (key : κ) (c : γ) (k : κ) (d : γ) (l : List (κ × γ)) :
    setSlot key c ((k, d) :: l) =
      if key < k then (key, c) :: (k, d) :: l
      else if key = k then (key, c) :: l
      else (k, d) :: setSlot key c l := rfl

theorem mem_keysOf_setSlot {key : κ} {c : γ} {l : List (κ × γ)} {b : κ} :
    b ∈ keysOf (setSlot key c l) ↔ b = key ∨ b ∈ keysOf l := by
  induction l with
  | nil => simp [setSlot_nil, keysOf]
  | cons p l ih =>
    obtain ⟨k, d⟩ := p
    rw [setSlot_cons]
    split
    · simp [keysOf]
    · split
      · rename_i hk
        simp [keysOf, hk]
      · rw [keysOf_cons, keysOf_cons, List.mem_cons, List.mem_cons, ih]
        tauto

theorem setSlot_ordered (key : κ) (c : γ) {l : List (κ × γ)}
    (hl : (keysOf l).Pairwise (· < ·)) : (keysOf (setSlot key c l)).Pairwise (· < ·) := by
  induction l with
  | nil => simp [setSlot_nil, keysOf]
  | cons p l ih =>
    obtain ⟨k, d⟩ := p
    rw [keysOf_cons, List.pairwise_cons] at hl
    rw [setSlot_cons]
    by_cases h₁ : key < k
    · rw [if_pos h₁, keysOf_cons, keysOf_cons, List.pairwise_cons, List.pairwise_cons]
      refine ⟨?_, hl⟩
      intro b hb
      rcases List.mem_cons.mp hb with rfl | hb
      · exact h₁
      · exact lt_trans h₁ (hl.1 b hb)
    · rw [if_neg h₁]
      by_cases h₂ : key = k
      · rw [if_pos h₂, keysOf_cons, List.pairwise_cons, h₂]
        exact hl
      · rw [if_neg h₂, keysOf_cons, List.pairwise_cons]
        refine ⟨?_, ih hl.2⟩
        intro b hb
        rcases mem_keysOf_setSlot.mp hb with rfl | hb
        · exact lt_of_le_of_ne (not_lt.mp h₁) (Ne.symm h₂)
        · exact hl.1 b hb

theorem lookup_setSlot (key : κ) (c : γ) {l : List (κ × γ)}
    (hl : (keysOf l).Pairwise (· < ·)) (b : κ) :
    List.lookup b (setSlot key c l) = if b = key then some c else List.lookup b l := by
  induction l with
  | nil => rw [setSlot_nil, lookup_cons_eq]
  | cons p l ih =>
    obtain ⟨k, d⟩ := p
    rw [keysOf_cons, List.pairwise_cons] at hl
    rw [setSlot_cons]
    by_cases h₁ : key < k
    · rw [if_pos h₁, lookup_cons_eq]
    · rw [if_neg h₁]
      by_cases h₂ : key = k
      · rw [if_pos h₂, lookup_cons_eq, lookup_cons_eq, h₂]
        by_cases hb : b = k
        · rw [if_pos hb, if_pos hb]
        · rw [if_neg hb, if_neg hb, if_neg hb]
      · rw [if_neg h₂, lookup_cons_eq, lookup_cons_eq, ih hl.2]
        by_cases hb : b = k
        · rw [if_pos hb, if_pos hb, if_neg (by rw [hb]; exact Ne.symm h₂)]
        · rw [if_neg hb, if_neg hb]

/-- Writing into an occupied slot overwrites it in place. -/
theorem setSlot_eq_setKey {key : κ} {l : List (κ × γ)} (hl : (keysOf l).Pairwise (· < ·))
    (hk : key ∈ keysOf l) (c : γ) : setSlot key c l = setKey key c l := by
  induction l with
  | nil => cases hk
  | cons p l ih =>
    obtain ⟨k, d⟩ := p
    rw [keysOf_cons, List.pairwise_cons] at hl
    rw [setSlot_cons, setKey_cons]
    rcases List.mem_cons.mp hk with rfl | hmem
    · rw [if_neg (lt_irrefl _), if_pos rfl, if_pos rfl]
    · have hlt : k < key := hl.1 key hmem
      rw [if_neg (not_lt_of_gt hlt), if_neg (ne_of_gt hlt), if_neg (ne_of_lt hlt), ih hl.2 hmem]

/-- Writing into a free slot adds one entry. -/
theorem setSlot_perm {key : κ} {l : List (κ × γ)} (hk : key ∉ keysOf l) (c : γ) :
    (setSlot key c l).Perm ((key, c) :: l) := by
  induction l with
  | nil => exact List.Perm.refl _
  | cons p l ih =>
    obtain ⟨k, d⟩ := p
    rw [keysOf_cons, List.mem_cons, not_or] at hk
    rw [setSlot_cons]
    split
    · exact List.Perm.refl _
    · rw [if_neg hk.1]
      exact ((ih hk.2).cons (k, d)).trans (List.Perm.swap _ _ _)

end Slots

/-! ## Weights -/

/-- The total weight of the values. -/
def weightOf (w : γ → ℕ) : List (κ × γ) → ℕ
  | [] => 0
  | (_, c) :: l => w c + weightOf w l

theorem weightOf_cons (w : γ → ℕ) (k : κ) (c : γ) (l : List (κ × γ)) :
    weightOf w ((k, c) :: l) = w c + weightOf w l := rfl

section Weights

variable (w : γ → ℕ)

theorem weightOf_append (l r : List (κ × γ)) :
    weightOf w (l ++ r) = weightOf w l + weightOf w r := by
  induction l with
  | nil => exact (Nat.zero_add _).symm
  | cons p l ih =>
    obtain ⟨k, c⟩ := p
    rw [List.cons_append, weightOf_cons, weightOf_cons, ih]
    omega

theorem le_weightOf_of_mem {l : List (κ × γ)} {p : κ × γ} (h : p ∈ l) :
    w p.2 ≤ weightOf w l := by
  induction l with
  | nil => cases h
  | cons q l ih =>
    obtain ⟨k, c⟩ := q
    rw [weightOf_cons]
    rcases List.mem_cons.mp h with rfl | hmem
    · exact Nat.le_add_right _ _
    · exact Nat.le_trans (ih hmem) (Nat.le_add_left _ _)

theorem add_le_weightOf_of_ne {l : List (κ × γ)} {p q : κ × γ} (hp : p ∈ l) (hq : q ∈ l)
    (hne : p ≠ q) : w p.2 + w q.2 ≤ weightOf w l := by
  induction l with
  | nil => cases hp
  | cons r l ih =>
    obtain ⟨k, c⟩ := r
    rw [weightOf_cons]
    rcases List.mem_cons.mp hp with rfl | hp
    · rcases List.mem_cons.mp hq with rfl | hq
      · exact absurd rfl hne
      · exact Nat.add_le_add_left (le_weightOf_of_mem w hq) _
    · rcases List.mem_cons.mp hq with rfl | hq
      · rw [Nat.add_comm]
        exact Nat.add_le_add_left (le_weightOf_of_mem w hp) _
      · exact Nat.le_trans (ih hp hq) (Nat.le_add_left _ _)

theorem weightOf_setKey [DecidableEq κ] {key : κ} {l : List (κ × γ)} {d : γ}
    (hd : l.lookup key = some d) (c : γ) :
    weightOf w (setKey key c l) + w d = weightOf w l + w c := by
  induction l with
  | nil => cases hd
  | cons q l ih =>
    obtain ⟨k, e⟩ := q
    rw [lookup_cons_eq] at hd
    rw [setKey_cons]
    by_cases hk : key = k
    · rw [if_pos hk] at hd
      rw [if_pos hk.symm, weightOf_cons, weightOf_cons, Option.some.inj hd]
      omega
    · rw [if_neg hk] at hd
      rw [if_neg (Ne.symm hk), weightOf_cons, weightOf_cons]
      have := ih hd
      omega

theorem weightOf_eraseKey_le [DecidableEq κ] (key : κ) (l : List (κ × γ)) :
    weightOf w (eraseKey key l) ≤ weightOf w l := by
  induction l with
  | nil => exact Nat.le_refl _
  | cons q l ih =>
    obtain ⟨k, e⟩ := q
    rw [eraseKey_cons]
    split
    · exact Nat.le_add_left _ _
    · exact Nat.add_le_add_left ih _

theorem weightOf_setSlot_le [LinearOrder κ] (key : κ) (c : γ) (l : List (κ × γ)) :
    weightOf w (setSlot key c l) ≤ weightOf w l + w c := by
  induction l with
  | nil => exact Nat.le_of_eq (Nat.add_comm _ _)
  | cons q l ih =>
    obtain ⟨k, e⟩ := q
    rw [setSlot_cons]
    split
    · exact Nat.le_of_eq (Nat.add_comm _ _)
    · split
      · rw [weightOf_cons, weightOf_cons]
        omega
      · rw [weightOf_cons, weightOf_cons]
        omega

end Weights

end Ranvier
