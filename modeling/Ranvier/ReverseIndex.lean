import Mathlib.Data.Finset.Basic
import Ranvier.KeyedMap

/-!
# Reverse indexes

A map from keys to the sets of their members. A member is added under a key, which
makes the key, and dropped from it; a key whose last member goes is erased, so a
clean index has no key without a member.

* `hasMember_add`, `hasMember_drop` — who is a member afterwards;
* `Clean.add`, `Clean.drop` — a clean index stays clean;
* `hasMember_foldl_drop`, `hasMember_foldl_add` — the same for a list of keys;
* `size_le_of_members` — a clean index whose members are members of another has no
  more keys.
-/

namespace Ranvier

universe u v

/-- Sets of members by key. -/
abbrev ReverseIndex (κ : Type u) (ν : Type v) : Type (max u v) := KeyedMap κ (Finset ν)

namespace ReverseIndex

variable {κ : Type u} {ν : Type v} [DecidableEq κ] [DecidableEq ν]

/-- Adds a member under a key. -/
def add (m : ReverseIndex κ ν) (k : κ) (v : ν) : ReverseIndex κ ν :=
  match KeyedMap.find m k with
  | none => KeyedMap.set m k {v}
  | some members => KeyedMap.set m k (insert v members)

/-- Drops a member, and the key with the last one. -/
def drop (m : ReverseIndex κ ν) (k : κ) (v : ν) : ReverseIndex κ ν :=
  match KeyedMap.find m k with
  | none => m
  | some members =>
    if members.erase v = ∅ then KeyedMap.erase m k else KeyedMap.set m k (members.erase v)

/-- `v` is a member under `k`. -/
def HasMember (m : ReverseIndex κ ν) (k : κ) (v : ν) : Prop :=
  ∃ members, KeyedMap.find m k = some members ∧ v ∈ members

/-- No key is without a member. -/
def Clean (m : ReverseIndex κ ν) : Prop :=
  ∀ k members, KeyedMap.find m k = some members → members.Nonempty

variable {m : ReverseIndex κ ν} {k k' : κ} {v v' : ν}

theorem hasMember_add :
    (m.add k v).HasMember k' v' ↔ k' = k ∧ v' = v ∨ m.HasMember k' v' := by
  unfold add HasMember
  cases hfind : KeyedMap.find m k with
  | none =>
    simp only [KeyedMap.find_set]
    by_cases hk : k' = k
    · subst hk
      simp [hfind]
    · simp [hk]
  | some members =>
    simp only [KeyedMap.find_set]
    by_cases hk : k' = k
    · subst hk
      simp [hfind]
    · simp [hk]

theorem hasMember_drop :
    (m.drop k v).HasMember k' v' ↔ m.HasMember k' v' ∧ ¬(k' = k ∧ v' = v) := by
  unfold drop HasMember
  cases hfind : KeyedMap.find m k with
  | none =>
    by_cases hk : k' = k
    · subst hk
      simp [hfind]
    · simp [hk]
  | some members =>
    dsimp only
    split
    · next hempty =>
      rw [KeyedMap.find_erase]
      by_cases hk : k' = k
      · subst hk
        rw [if_pos rfl, hfind]
        constructor
        · rintro ⟨s, hs, -⟩
          cases hs
        · rintro ⟨⟨s, hs, hv⟩, hne⟩
          obtain rfl := Option.some.inj hs
          have : v' ∈ members.erase v := Finset.mem_erase.mpr ⟨fun h => hne ⟨rfl, h⟩, hv⟩
          rw [hempty] at this
          cases this
      · simp [hk]
    · rw [KeyedMap.find_set]
      by_cases hk : k' = k
      · subst hk
        simp [hfind, and_comm]
      · simp [hk]

theorem Clean.add (h : m.Clean) (k : κ) (v : ν) : (m.add k v).Clean := by
  intro j members hj
  unfold ReverseIndex.add at hj
  split at hj
  · rw [KeyedMap.find_set] at hj
    split at hj
    · obtain rfl := Option.some.inj hj
      exact Finset.singleton_nonempty v
    · exact h j members hj
  · rw [KeyedMap.find_set] at hj
    split at hj
    · obtain rfl := Option.some.inj hj
      exact Finset.insert_nonempty v _
    · exact h j members hj

theorem Clean.drop (h : m.Clean) (k : κ) (v : ν) : (m.drop k v).Clean := by
  intro j members hj
  unfold ReverseIndex.drop at hj
  split at hj
  · exact h j members hj
  · split at hj
    · rw [KeyedMap.find_erase] at hj
      split at hj
      · cases hj
      · exact h j members hj
    · next hne =>
      rw [KeyedMap.find_set] at hj
      split at hj
      · obtain rfl := Option.some.inj hj
        exact Finset.nonempty_iff_ne_empty.mpr hne
      · exact h j members hj

theorem size_add (m : ReverseIndex κ ν) (k : κ) (v : ν) :
    KeyedMap.size (m.add k v) =
      if k ∈ KeyedMap.keys m then KeyedMap.size m else KeyedMap.size m + 1 := by
  unfold add
  split <;> exact KeyedMap.size_set k _

theorem size_drop_le (m : ReverseIndex κ ν) (k : κ) (v : ν) :
    KeyedMap.size (m.drop k v) ≤ KeyedMap.size m := by
  unfold drop
  split
  · exact Nat.le_refl _
  · next hfind =>
    split
    · exact KeyedMap.size_erase_le k
    · rw [KeyedMap.size_set, if_pos (KeyedMap.mem_keys_of_find hfind)]

section Folds

variable {held : κ → Prop} [DecidablePred held]

/-- Dropping a member from several keys. -/
theorem hasMember_foldl_drop (keys : List κ) :
    (keys.foldl (fun m k => if held k then m else m.drop k v) m).HasMember k' v' ↔
      m.HasMember k' v' ∧ ¬(k' ∈ keys ∧ ¬held k' ∧ v' = v) := by
  induction keys generalizing m with
  | nil => simp
  | cons k keys ih =>
    rw [List.foldl_cons, ih, List.mem_cons]
    by_cases hheld : held k
    · rw [if_pos hheld]
      constructor
      · rintro ⟨hm, hnot⟩
        refine ⟨hm, ?_⟩
        rintro ⟨rfl | hmem, hk', hv⟩
        · exact hk' hheld
        · exact hnot ⟨hmem, hk', hv⟩
      · rintro ⟨hm, hnot⟩
        exact ⟨hm, fun ⟨hmem, hrest⟩ => hnot ⟨Or.inr hmem, hrest⟩⟩
    · rw [if_neg hheld, hasMember_drop]
      constructor
      · rintro ⟨⟨hm, hne⟩, hnot⟩
        refine ⟨hm, ?_⟩
        rintro ⟨rfl | hmem, hk', hv⟩
        · exact hne ⟨rfl, hv⟩
        · exact hnot ⟨hmem, hk', hv⟩
      · rintro ⟨hm, hnot⟩
        refine ⟨⟨hm, ?_⟩, fun ⟨hmem, hrest⟩ => hnot ⟨Or.inr hmem, hrest⟩⟩
        rintro ⟨rfl, hv⟩
        exact hnot ⟨Or.inl rfl, hheld, hv⟩

/-- What dropping keeps, dropping from several keys keeps. -/
theorem foldl_drop_kept {P : ReverseIndex κ ν → Prop} (hP : ∀ m k, P m → P (m.drop k v))
    (keys : List κ) (h : P m) :
    P (keys.foldl (fun m k => if held k then m else m.drop k v) m) := by
  induction keys generalizing m with
  | nil => exact h
  | cons k keys ih =>
    rw [List.foldl_cons]
    split
    · exact ih h
    · exact ih (hP m k h)

/-- Adding a member under several keys. -/
theorem hasMember_foldl_add (keys : List κ) :
    (keys.foldl (fun m k => if held k then m else m.add k v) m).HasMember k' v' ↔
      k' ∈ keys ∧ ¬held k' ∧ v' = v ∨ m.HasMember k' v' := by
  induction keys generalizing m with
  | nil => simp
  | cons k keys ih =>
    rw [List.foldl_cons, ih, List.mem_cons]
    by_cases hheld : held k
    · rw [if_pos hheld]
      constructor
      · rintro (⟨hmem, hrest⟩ | hm)
        · exact Or.inl ⟨Or.inr hmem, hrest⟩
        · exact Or.inr hm
      · rintro (⟨rfl | hmem, hk', hv⟩ | hm)
        · exact absurd hheld hk'
        · exact Or.inl ⟨hmem, hk', hv⟩
        · exact Or.inr hm
    · rw [if_neg hheld, hasMember_add]
      constructor
      · rintro (⟨hmem, hrest⟩ | ⟨rfl, hv⟩ | hm)
        · exact Or.inl ⟨Or.inr hmem, hrest⟩
        · exact Or.inl ⟨Or.inl rfl, hheld, hv⟩
        · exact Or.inr hm
      · rintro (⟨rfl | hmem, hk', hv⟩ | hm)
        · exact Or.inr (Or.inl ⟨rfl, hv⟩)
        · exact Or.inl ⟨hmem, hk', hv⟩
        · exact Or.inr (Or.inr hm)

theorem Clean.foldl_add (keys : List κ) (h : m.Clean) :
    (keys.foldl (fun m k => if held k then m else m.add k v) m).Clean := by
  induction keys generalizing m with
  | nil => exact h
  | cons k keys ih =>
    rw [List.foldl_cons]
    split
    · exact ih h
    · exact ih (h.add k v)

end Folds

omit [DecidableEq ν] in
/-- A clean index whose members are members of another has no more keys. -/
theorem size_le_of_members {m' : ReverseIndex κ ν} (hclean : m.Clean)
    (h : ∀ k v, m.HasMember k v → m'.HasMember k v) : KeyedMap.size m ≤ KeyedMap.size m' := by
  rw [← KeyedMap.card_toFinset_keys, ← KeyedMap.card_toFinset_keys]
  refine Finset.card_le_card fun k hk => ?_
  obtain ⟨members, hfind⟩ :=
    Option.isSome_iff_exists.mp (KeyedMap.find_isSome_iff.mpr (List.mem_toFinset.mp hk))
  obtain ⟨v, hv⟩ := hclean k members hfind
  obtain ⟨members', hfind', -⟩ := h k v ⟨members, hfind, hv⟩
  exact List.mem_toFinset.mpr (KeyedMap.mem_keys_of_find hfind')

end ReverseIndex

end Ranvier
