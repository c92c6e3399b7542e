import Mathlib.Data.Finset.Card
import Ranvier.KeyedList

/-!
# Maps with one entry per key

A list of entries whose keys are distinct, in the order in which an iteration meets them.
Overwriting a value leaves its entry where it is; a new entry goes to the end, which says
nothing about where a hash map would put it.

* `find_set`, `find_modify`, `find_map`, `find_erase`, `find_filter` — what an operation
  does to the entry of each key;
* `find_foldl` — the same for a loop over distinct keys;
* `total` — a number summed over all entries, and how the operations change it;
* `count_le_card`, `card_le_count` — the entries with a property, counted by their keys.
-/

namespace Ranvier

universe u v

section Lists

variable {κ : Type u} {γ : Type v}

theorem lookup_mapValues [DecidableEq κ] (f : γ → γ) (l : List (κ × γ)) (b : κ) :
    (l.map fun e => (e.1, f e.2)).lookup b = (l.lookup b).map f := by
  induction l with
  | nil => rfl
  | cons e l ih =>
    obtain ⟨k, c⟩ := e
    rw [List.map_cons, lookup_cons_eq, lookup_cons_eq, ih]
    split
    · rfl
    · rfl

theorem eraseKey_of_not_mem [DecidableEq κ] {k : κ} {l : List (κ × γ)} (h : k ∉ keysOf l) :
    eraseKey k l = l := by
  induction l with
  | nil => rfl
  | cons e l ih =>
    rw [keysOf_cons, List.mem_cons, not_or] at h
    rw [eraseKey, if_neg (Ne.symm h.1), ih h.2]

theorem eraseKey_append_new [DecidableEq κ] {k : κ} {l : List (κ × γ)} (h : k ∉ keysOf l) (c : γ) :
    eraseKey k (l ++ [(k, c)]) = l := by
  induction l with
  | nil => simp [eraseKey]
  | cons e l ih =>
    rw [keysOf_cons, List.mem_cons, not_or] at h
    rw [List.cons_append, eraseKey, if_neg (Ne.symm h.1), ih h.2]

variable {w : γ → ℕ}

theorem weightOf_eraseKey [DecidableEq κ] {k : κ} {c : γ} {l : List (κ × γ)}
    (h : l.lookup k = some c) : weightOf w (eraseKey k l) + w c = weightOf w l := by
  induction l with
  | nil => cases h
  | cons e l ih =>
    obtain ⟨b, a⟩ := e
    rw [lookup_cons_eq] at h
    rw [eraseKey]
    split at h
    · next heq =>
      obtain rfl := Option.some.inj h
      rw [if_pos heq.symm, weightOf]
      omega
    · next hne =>
      have hrest := ih h
      rw [if_neg (Ne.symm hne), weightOf, weightOf]
      omega

end Lists

/-- Entries with distinct keys. -/
structure KeyedMap (κ : Type u) (γ : Type v) : Type (max u v) where
  entries : List (κ × γ) := []
  nodup : (keysOf entries).Nodup := by exact List.nodup_nil

namespace KeyedMap

variable {κ : Type u} {γ : Type v}

/-- The keys. -/
def keys (m : KeyedMap κ γ) : List κ := keysOf m.entries

/-- The number of entries. -/
def size (m : KeyedMap κ γ) : ℕ := m.entries.length

/-- A number summed over the entries. -/
def total (w : γ → ℕ) (m : KeyedMap κ γ) : ℕ := weightOf w m.entries

/-- Changes every value. -/
def map (f : γ → γ) (m : KeyedMap κ γ) : KeyedMap κ γ where
  entries := m.entries.map fun e => (e.1, f e.2)
  nodup := by
    rw [keysOf, List.map_map]
    exact m.nodup

/-- Keeps the entries whose value has the property. -/
def filter (p : γ → Bool) (m : KeyedMap κ γ) : KeyedMap κ γ where
  entries := m.entries.filter fun e => p e.2
  nodup := m.nodup.sublist (List.filter_sublist.map Prod.fst)

theorem ext {m m' : KeyedMap κ γ} (h : m.entries = m'.entries) : m = m' := by
  cases m
  cases m'
  cases h
  rfl

theorem length_keys (m : KeyedMap κ γ) : m.keys.length = m.size := length_keysOf _

theorem keys_map (f : γ → γ) (m : KeyedMap κ γ) : (m.map f).keys = m.keys := by
  rw [keys, keysOf, map, List.map_map]
  rfl

section Keys

variable [DecidableEq κ] (m : KeyedMap κ γ)

/-- The value under a key. -/
def find (k : κ) : Option γ := m.entries.lookup k

/-- `m[k] = c`. -/
def set (k : κ) (c : γ) : KeyedMap κ γ :=
  if h : k ∈ m.keys then
    { entries := setKey k c m.entries
      nodup := by
        rw [keysOf_setKey]
        exact m.nodup }
  else
    { entries := m.entries ++ [(k, c)]
      nodup := by
        rw [keysOf_append, keysOf_cons]
        exact m.nodup.append (List.nodup_singleton k) (by simpa [keys] using h) }

/-- Changes the value under a key, if there is one. -/
def modify (k : κ) (f : γ → γ) : KeyedMap κ γ :=
  match m.find k with
  | some c => m.set k (f c)
  | none => m

/-- Removes an entry. -/
def erase (k : κ) : KeyedMap κ γ where
  entries := eraseKey k m.entries
  nodup := by
    rw [keysOf_eraseKey]
    exact m.nodup.erase k

variable {m}

theorem entries_set {k : κ} (h : k ∈ m.keys) (c : γ) :
    (m.set k c).entries = setKey k c m.entries := by
  rw [set, dif_pos h]

theorem entries_set_new {k : κ} (h : k ∉ m.keys) (c : γ) :
    (m.set k c).entries = m.entries ++ [(k, c)] := by
  rw [set, dif_neg h]

theorem find_isSome_iff {k : κ} : (m.find k).isSome ↔ k ∈ m.keys := lookup_isSome_iff

theorem find_eq_none_iff {k : κ} : m.find k = none ↔ k ∉ m.keys := lookup_eq_none_iff_keys

theorem mem_keys_of_find {k : κ} {c : γ} (h : m.find k = some c) : k ∈ m.keys :=
  find_isSome_iff.mp (by rw [h]; rfl)

theorem find_of_mem {k : κ} {c : γ} (h : (k, c) ∈ m.entries) : m.find k = some c :=
  lookup_of_mem m.nodup h

theorem mem_of_find {k : κ} {c : γ} (h : m.find k = some c) : (k, c) ∈ m.entries :=
  mem_of_lookup h

theorem find_set (k : κ) (c : γ) (b : κ) :
    (m.set k c).find b = if b = k then some c else m.find b := by
  rw [set]
  split
  · next h => exact lookup_setKey h c b
  · next h => exact lookup_append_new h c b

theorem find_modify (k : κ) (f : γ → γ) (b : κ) :
    (m.modify k f).find b = if b = k then (m.find b).map f else m.find b := by
  rw [modify]
  cases h : m.find k with
  | none =>
    by_cases hb : b = k
    · rw [if_pos hb, hb, h]
      rfl
    · rw [if_neg hb]
  | some c =>
    rw [find_set]
    by_cases hb : b = k
    · rw [if_pos hb, if_pos hb, hb, h]
      rfl
    · rw [if_neg hb, if_neg hb]

theorem find_erase (k b : κ) : (m.erase k).find b = if b = k then none else m.find b :=
  lookup_eraseKey m.nodup b

theorem find_map (f : γ → γ) (b : κ) : (m.map f).find b = (m.find b).map f :=
  lookup_mapValues f m.entries b

theorem find_filter (p : γ → Bool) (b : κ) : (m.filter p).find b = (m.find b).filter p := by
  cases h : m.find b with
  | none =>
    rw [find_eq_none_iff] at h
    rw [Option.filter_none, find_eq_none_iff]
    exact fun hmem => h ((List.filter_sublist.map Prod.fst).subset hmem)
  | some c =>
    rw [Option.filter_some]
    split
    · next hp => exact find_of_mem (List.mem_filter.mpr ⟨mem_of_find h, hp⟩)
    · next hp =>
      cases hd : (m.filter p).find b with
      | none => rfl
      | some d =>
        obtain ⟨hmem, hpd⟩ := List.mem_filter.mp (mem_of_find hd)
        rw [find_of_mem hmem] at h
        obtain rfl := Option.some.inj h
        exact absurd hpd hp

/-- A loop that changes the entry of one key after another. -/
theorem find_foldl {δ : Type*} {f : KeyedMap κ γ → κ × δ → KeyedMap κ γ}
    {g : δ → Option γ → Option γ}
    (hf : ∀ m e b, (f m e).find b = if b = e.1 then g e.2 (m.find b) else m.find b)
    {l : List (κ × δ)} (hl : (keysOf l).Nodup) (m : KeyedMap κ γ) (b : κ) :
    (l.foldl f m).find b = ((l.lookup b).map fun d => g d (m.find b)).getD (m.find b) := by
  induction l generalizing m with
  | nil => rfl
  | cons e l ih =>
    obtain ⟨k, d⟩ := e
    rw [keysOf_cons, List.nodup_cons] at hl
    rw [List.foldl_cons, ih hl.2, hf, lookup_cons_eq]
    by_cases hb : b = k
    · have hnone : l.lookup b = none := lookup_eq_none_iff_keys.mpr (hb ▸ hl.1)
      rw [if_pos hb, if_pos hb, hnone]
      rfl
    · rw [if_neg hb, if_neg hb]

theorem keys_set (k : κ) (c : γ) :
    (m.set k c).keys = if k ∈ m.keys then m.keys else m.keys ++ [k] := by
  by_cases h : k ∈ m.keys
  · rw [if_pos h, keys, entries_set h, keysOf_setKey]
    rfl
  · rw [if_neg h, keys, entries_set_new h, keysOf_append, keysOf_cons, keysOf_nil]
    rfl

theorem mem_keys_set {k b : κ} {c : γ} : b ∈ (m.set k c).keys ↔ b = k ∨ b ∈ m.keys := by
  rw [keys_set]
  split
  · next h =>
    refine ⟨Or.inr, ?_⟩
    rintro (rfl | hb)
    · exact h
    · exact hb
  · simp [or_comm]

theorem keys_modify (k : κ) (f : γ → γ) : (m.modify k f).keys = m.keys := by
  rw [modify]
  cases h : m.find k with
  | none => rfl
  | some c => rw [keys_set, if_pos (mem_keys_of_find h)]

theorem size_set (k : κ) (c : γ) :
    (m.set k c).size = if k ∈ m.keys then m.size else m.size + 1 := by
  rw [← length_keys, ← length_keys, keys_set]
  split
  · rfl
  · rw [List.length_append, List.length_singleton]

theorem size_erase_le (k : κ) : (m.erase k).size ≤ m.size := by
  rw [← length_keys, ← length_keys, keys, erase, keysOf_eraseKey]
  exact List.length_erase_le

theorem size_erase {k : κ} (h : k ∈ m.keys) : (m.erase k).size + 1 = m.size := by
  have hpos : 0 < m.keys.length := List.length_pos_of_mem h
  have hlength : (m.erase k).keys.length = m.keys.length - 1 := by
    rw [keys, erase, keysOf_eraseKey]
    exact List.length_erase_of_mem h
  rw [← length_keys, ← length_keys, hlength]
  omega

theorem erase_of_new {k : κ} (h : k ∉ m.keys) : m.erase k = m :=
  ext (eraseKey_of_not_mem h)

theorem erase_set_of_new {k : κ} (h : k ∉ m.keys) (c : γ) : (m.set k c).erase k = m := by
  apply ext
  have herase : eraseKey k (m.set k c).entries = m.entries := by
    rw [entries_set_new h]
    exact eraseKey_append_new h c
  exact herase

end Keys

section Totals

variable [DecidableEq κ] {m : KeyedMap κ γ} {w : γ → ℕ}

theorem total_set_new {k : κ} (h : k ∉ m.keys) (c : γ) :
    (m.set k c).total w = m.total w + w c := by
  rw [total, entries_set_new h, weightOf_append]
  rfl

theorem total_set {k : κ} {c : γ} (h : m.find k = some c) (d : γ) :
    (m.set k d).total w + w c = m.total w + w d := by
  rw [total, entries_set (mem_keys_of_find h)]
  exact weightOf_setKey w h d

theorem total_erase {k : κ} {c : γ} (h : m.find k = some c) :
    (m.erase k).total w + w c = m.total w :=
  weightOf_eraseKey h

theorem le_total {k : κ} {c : γ} (h : m.find k = some c) : w c ≤ m.total w := by
  have hsum := total_erase (w := w) h
  omega

end Totals

section Counting

variable [DecidableEq κ] {m : KeyedMap κ γ} {p : γ → Bool} {s : Finset κ}

/-- The entries with a property are at most as many as a set has elements that has all
their keys. -/
theorem count_le_card (h : ∀ k c, m.find k = some c → p c = true → k ∈ s) :
    m.entries.countP (fun e => p e.2) ≤ s.card := by
  have hnodup : (keysOf (m.entries.filter fun e => p e.2)).Nodup :=
    m.nodup.sublist (List.filter_sublist.map Prod.fst)
  rw [List.countP_eq_length_filter, ← length_keysOf, ← List.toFinset_card_of_nodup hnodup]
  refine Finset.card_le_card fun k hk => ?_
  obtain ⟨⟨b, c⟩, hmem, rfl⟩ := List.mem_map.mp (List.mem_toFinset.mp hk)
  obtain ⟨hentry, hp⟩ := List.mem_filter.mp hmem
  exact h b c (find_of_mem hentry) hp

theorem card_le_count (h : ∀ k ∈ s, ∃ c, m.find k = some c ∧ p c = true) :
    s.card ≤ m.entries.countP (fun e => p e.2) := by
  have hnodup : (keysOf (m.entries.filter fun e => p e.2)).Nodup :=
    m.nodup.sublist (List.filter_sublist.map Prod.fst)
  rw [List.countP_eq_length_filter, ← length_keysOf, ← List.toFinset_card_of_nodup hnodup]
  refine Finset.card_le_card fun k hk => ?_
  obtain ⟨c, hfind, hp⟩ := h k hk
  exact List.mem_toFinset.mpr
    (List.mem_map.mpr ⟨(k, c), List.mem_filter.mpr ⟨mem_of_find hfind, hp⟩, rfl⟩)

theorem card_toFinset_keys : m.keys.toFinset.card = m.size := by
  have hnodup : m.keys.Nodup := m.nodup
  rw [List.toFinset_card_of_nodup hnodup, length_keys]

end Counting

end KeyedMap

end Ranvier
