import Mathlib.Data.Finset.Card
import Ranvier.KeyedList

/-!
# Open-addressing maps and their iterators

A map that keeps its entries in one array: an insertion may move all of them, and
an iterator is good only as long as its entry stays where it was. Each entry has
the serial number of its insertion, and the map counts its rehashes; an iterator
remembers both. Overwriting a value and erasing other entries leave an iterator
alone; a rehash, and erasing its own entry, do not.

What an erase through a bad iterator leaves behind is anything.
-/

namespace Ranvier

universe u v

/-- A map with the serial numbers of its entries. -/
structure FlatHashMap (κ : Type u) (γ : Type v) : Type (max u v) where
  entries : List (κ × γ × ℕ) := []
  nodup : (keysOf entries).Nodup := by exact List.nodup_nil
  /-- the serial number of the next insertion -/
  serial : ℕ := 0
  rehashes : ℕ := 0

/-- The position of an entry. -/
structure FlatIterator (κ : Type u) : Type u where
  key : κ
  serial : ℕ
  rehashes : ℕ
  deriving DecidableEq, Repr

namespace FlatHashMap

variable {κ : Type u} {γ : Type v} [DecidableEq κ] (m : FlatHashMap κ γ)

/-- The value under a key. -/
def get (k : κ) : Option γ := (m.entries.lookup k).map Prod.fst

/-- The number of entries. -/
def size : ℕ := m.entries.length

/-- `find`: an iterator to the entry of a key. -/
def find (k : κ) : Option (FlatIterator κ) :=
  (m.entries.lookup k).map fun e => ⟨k, e.2, m.rehashes⟩

/-- `m[k] = c`: an entry that is there keeps its place, a new one may make the map
move all entries. -/
def set (k : κ) (c : γ) (rehash : Bool) : FlatHashMap κ γ :=
  match h : m.entries.lookup k with
  | some e =>
    { m with
      entries := setKey k (c, e.2) m.entries
      nodup := by
        rw [keysOf_setKey]
        exact m.nodup }
  | none =>
    { entries := m.entries ++ [(k, c, m.serial)]
      nodup := by
        rw [keysOf_append, keysOf_cons]
        refine m.nodup.append (List.nodup_singleton k) ?_
        simpa using lookup_eq_none_iff_keys.mp h
      serial := m.serial + 1
      rehashes := if rehash then m.rehashes + 1 else m.rehashes }

/-- Removes an entry. -/
def erase (k : κ) : FlatHashMap κ γ :=
  { m with
    entries := eraseKey k m.entries
    nodup := by
      rw [keysOf_eraseKey]
      exact m.nodup.erase k }

/-- The iterator still points to its entry. -/
def Valid (it : FlatIterator κ) : Prop := m.find it.key = some it

instance (it : FlatIterator κ) : Decidable (m.Valid it) :=
  inferInstanceAs (Decidable (m.find it.key = some it))

/-- `erase(it)`; through a bad iterator the map becomes `wreck`. -/
def eraseAt (it : FlatIterator κ) (wreck : FlatHashMap κ γ) : FlatHashMap κ γ :=
  if m.Valid it then m.erase it.key else wreck

variable {m} {k j : κ} {c : γ}

theorem get_isSome_iff : (m.get k).isSome ↔ k ∈ keysOf m.entries := by
  rw [get, Option.isSome_map]
  exact lookup_isSome_iff

theorem find_isSome : (m.find k).isSome = (m.get k).isSome := by
  simp [find, get]

theorem find_key {it : FlatIterator κ} (h : m.find k = some it) : it.key = k := by
  obtain ⟨e, -, rfl⟩ := Option.map_eq_some_iff.mp h
  rfl

theorem valid_of_find {it : FlatIterator κ} (h : m.find k = some it) : m.Valid it := by
  rw [Valid, find_key h, h]

/-! ## Writing and erasing -/

@[simp] theorem get_set (m : FlatHashMap κ γ) (k : κ) (c : γ) (rehash : Bool) (j : κ) :
    (m.set k c rehash).get j = if j = k then some c else m.get j := by
  unfold set get
  split
  · next e he =>
    have hk : k ∈ keysOf m.entries := lookup_isSome_iff.mp (by rw [he]; rfl)
    rw [lookup_setKey hk]
    split <;> rfl
  · next he =>
    rw [lookup_append_new (lookup_eq_none_iff_keys.mp he)]
    split <;> rfl

@[simp] theorem get_erase (m : FlatHashMap κ γ) (k j : κ) :
    (m.erase k).get j = if j = k then none else m.get j := by
  rw [get, erase, lookup_eraseKey m.nodup]
  split <;> rfl

theorem get_eraseAt {it : FlatIterator κ} (h : m.Valid it) (wreck : FlatHashMap κ γ) (j : κ) :
    (m.eraseAt it wreck).get j = if j = it.key then none else m.get j := by
  rw [eraseAt, if_pos h, get_erase]

/-! ## Iterators -/

/-- Without a rehash, writing leaves iterators alone. -/
theorem Valid.set {it : FlatIterator κ} (h : m.Valid it) {rehash : Bool}
    (hstays : rehash = false ∨ (m.get k).isSome) : (m.set k c rehash).Valid it := by
  obtain ⟨e, he, hit⟩ := Option.map_eq_some_iff.mp h
  unfold Valid find FlatHashMap.set
  split
  · next e' he' =>
    have hk : k ∈ keysOf m.entries := lookup_isSome_iff.mp (by rw [he']; rfl)
    rw [lookup_setKey hk]
    split
    · next hkey =>
      rw [hkey, he', Option.some.injEq] at he
      subst he
      exact congrArg some hit
    · rw [he]
      exact congrArg some hit
  · next he' =>
    have hrehash : rehash = false := by
      refine hstays.resolve_right ?_
      simp [get, he']
    have hne : it.key ≠ k := by
      intro hk
      rw [hk, he'] at he
      cases he
    rw [lookup_append_new (lookup_eq_none_iff_keys.mp he'), if_neg hne, he, hrehash]
    exact congrArg some hit

/-- Erasing another entry leaves an iterator alone. -/
theorem Valid.eraseAt {it it' : FlatIterator κ} (h : m.Valid it) (h' : m.Valid it')
    (hne : it.key ≠ it'.key) (wreck : FlatHashMap κ γ) : (m.eraseAt it' wreck).Valid it := by
  rw [FlatHashMap.eraseAt, if_pos h', Valid, find, erase, lookup_eraseKey m.nodup, if_neg hne]
  exact h

/-! ## Size -/

/-- A map whose keys, with one that is not in it, are among `n` has room. -/
theorem size_lt_of_keys {keys : Finset κ} (hkeys : ∀ j, (m.get j).isSome → j ∈ keys)
    (hnew : m.get k = none) (hk : k ∈ keys) : m.size < keys.card := by
  have hnone : k ∉ keysOf m.entries := by
    refine lookup_eq_none_iff_keys.mp ?_
    simpa [get] using hnew
  have hsub : (k :: keysOf m.entries).toFinset ⊆ keys := by
    intro j hj
    rcases List.mem_cons.mp (List.mem_toFinset.mp hj) with rfl | hj
    · exact hk
    · exact hkeys j (get_isSome_iff.mpr hj)
  have hcard := Finset.card_le_card hsub
  rw [List.toFinset_card_of_nodup (List.nodup_cons.mpr ⟨hnone, m.nodup⟩), List.length_cons,
    length_keysOf] at hcard
  exact hcard

end FlatHashMap

end Ranvier
