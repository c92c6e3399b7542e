import Mathlib.Data.List.Basic
import Mathlib.Data.List.Infix

/-!
# Prefixes, partial maps on lists, and their longest match

The list mathematics under a path-compressed tree, over an arbitrary alphabet:

* `matchLen p k` — how far `p` and `k` agree; `strip p k` — what is left of `k`
  after `p`, if `p` is a prefix of it;
* `matchLen_split` — the decomposition every split of a compressed path rests
  on: two lists share exactly their first `matchLen` elements and then differ
  or end;
* `IsLongestMatch m t r` — `r` is what a partial map `m` on lists holds at the
  longest prefix of `t` it is defined on.
-/

namespace Ranvier

universe u v

variable {α : Type u} {β : Type v}

/-! ## Common prefixes -/

section Prefixes

variable [DecidableEq α]

/-- The length of the longest common prefix. -/
def matchLen : List α → List α → ℕ
  | a :: p, b :: k => if a = b then matchLen p k + 1 else 0
  | [], _ => 0
  | _ :: _, [] => 0

/-- What remains of `k` after the prefix `p`. -/
def strip : List α → List α → Option (List α)
  | [], k => some k
  | _ :: _, [] => none
  | a :: p, b :: k => if a = b then strip p k else none

@[simp] theorem strip_nil (k : List α) : strip [] k = some k := by
  cases k <;> rfl

@[simp] theorem strip_append (p r : List α) : strip p (p ++ r) = some r := by
  induction p with
  | nil => exact strip_nil r
  | cons a p ih =>
    rw [List.cons_append, strip, if_pos rfl]
    exact ih

theorem strip_eq_some_iff {p k r : List α} : strip p k = some r ↔ k = p ++ r := by
  constructor
  · intro h
    induction p generalizing k with
    | nil =>
      rw [strip_nil] at h
      exact Option.some.inj h
    | cons a p ih =>
      cases k with
      | nil => simp [strip] at h
      | cons b k =>
        by_cases hab : a = b
        · rw [strip, if_pos hab] at h
          rw [ih h, hab, List.cons_append]
        · rw [strip, if_neg hab] at h
          cases h
  · rintro rfl
    exact strip_append p r

theorem strip_eq_none_iff {p k : List α} : strip p k = none ↔ ¬ p <+: k := by
  constructor
  · rintro h ⟨r, rfl⟩
    rw [strip_append] at h
    cases h
  · intro h
    rcases hs : strip p k with _ | r
    · rfl
    · exact absurd ⟨r, (strip_eq_some_iff.mp hs).symm⟩ h

/-- Stripping a concatenation strips its parts in turn. -/
theorem strip_append_left (p q k : List α) :
    strip (p ++ q) k = (strip p k).bind (strip q) := by
  induction p generalizing k with
  | nil => simp
  | cons a p ih =>
    cases k with
    | nil => rfl
    | cons b k =>
      rw [List.cons_append, strip, strip]
      by_cases hab : a = b
      · rw [if_pos hab, if_pos hab, ih]
      · rw [if_neg hab, if_neg hab]
        rfl

/-- **The split point.** `p` and `k` share their first `matchLen p k` elements;
what follows differs in its first element, or one of the two has ended. -/
theorem matchLen_split (p k : List α) :
    ∃ q p' k', p = q ++ p' ∧ k = q ++ k' ∧ q.length = matchLen p k ∧
      ∀ a b, p'.head? = some a → k'.head? = some b → a ≠ b := by
  induction p generalizing k with
  | nil => exact ⟨[], [], k, rfl, rfl, by simp [matchLen], by simp⟩
  | cons a p ih =>
    cases k with
    | nil => exact ⟨[], a :: p, [], rfl, rfl, by simp [matchLen], by simp⟩
    | cons b k =>
      by_cases hab : a = b
      · subst hab
        obtain ⟨q, p', k', hp, hk, hlen, hne⟩ := ih k
        refine ⟨a :: q, p', k', ?_, ?_, ?_, hne⟩
        · rw [hp, List.cons_append]
        · rw [hk, List.cons_append]
        · rw [List.length_cons, hlen, matchLen, if_pos rfl]
      · refine ⟨[], a :: p, b :: k, rfl, rfl, ?_, ?_⟩
        · rw [matchLen, if_neg hab]
          rfl
        · intro x y hx hy
          simp only [List.head?_cons, Option.some.injEq] at hx hy
          rw [← hx, ← hy]
          exact hab

/-- A full match leaves the stripped remainder. -/
theorem strip_of_matchLen_eq {p k : List α} (h : ¬ matchLen p k < p.length) :
    strip p k = some (k.drop (matchLen p k)) := by
  obtain ⟨q, p', k', hp, hk, hlen, -⟩ := matchLen_split p k
  have hp' : p' = [] := by
    have hl := congrArg List.length hp
    rw [List.length_append] at hl
    exact List.eq_nil_of_length_eq_zero (by omega)
  rw [hp', List.append_nil] at hp
  subst hp
  rw [← hlen, hk, strip_append, List.drop_left]

/-- A key that matches all of `p` is `p` followed by what is left of the key. -/
theorem eq_append_of_matchLen {p k rest : List α} (h : ¬ matchLen p k < p.length)
    (hrest : k.drop (matchLen p k) = rest) : k = p ++ rest := by
  rw [← hrest]
  exact strip_eq_some_iff.mp (strip_of_matchLen_eq h)

/-- A partial match is no match at all. -/
theorem strip_of_matchLen_lt {p k : List α} (h : matchLen p k < p.length) :
    strip p k = none := by
  rw [strip_eq_none_iff]
  rintro ⟨r, rfl⟩
  obtain ⟨q, p', k', hp, hk, hlen, hne⟩ := matchLen_split p (p ++ r)
  have hp' : p' ≠ [] := by
    rintro rfl
    rw [List.append_nil] at hp
    rw [← hp] at hlen
    omega
  obtain ⟨a, t, rfl⟩ := List.exists_cons_of_ne_nil hp'
  have hk' : k' = a :: t ++ r := by
    refine List.append_cancel_left (?_ : q ++ k' = q ++ (a :: t ++ r))
    rw [← hk, hp, List.append_assoc]
  exact hne a a rfl (by rw [hk']; rfl) rfl

end Prefixes

/-! ## Longest match -/

/-- `r` is the value `m` holds at the longest prefix of `t` on which it is
defined, or `none` when it is defined on none of them. -/
def IsLongestMatch (m : List α → Option β) (t : List α) (r : Option β) : Prop :=
  (r = none ∧ ∀ p, p <+: t → m p = none) ∨
    ∃ p, p <+: t ∧ m p = r ∧ r.isSome ∧ ∀ q, q <+: t → (m q).isSome → q.length ≤ p.length

/-- There is only one longest match. -/
theorem IsLongestMatch.unique {m : List α → Option β} {t : List α} {r r' : Option β}
    (h : IsLongestMatch m t r) (h' : IsLongestMatch m t r') : r = r' := by
  rcases h with ⟨hr, hno⟩ | ⟨p, hp, hmp, hsome, hmax⟩
  · rcases h' with ⟨hr', -⟩ | ⟨p', hp', hmp', hsome', -⟩
    · rw [hr, hr']
    · rw [← hmp', hno p' hp'] at hsome'
      cases hsome'
  · rcases h' with ⟨hr', hno'⟩ | ⟨p', hp', hmp', hsome', hmax'⟩
    · rw [← hmp, hno' p hp] at hsome
      cases hsome
    · have hle := hmax p' hp' (by rw [hmp']; exact hsome')
      have hge := hmax' p hp (by rw [hmp]; exact hsome)
      have heq : p = p' :=
        (List.prefix_of_prefix_length_le hp hp' hge).eq_of_length (by omega)
      rw [← hmp, ← hmp', heq]

/-- A map defined on no prefix has no match. -/
theorem isLongestMatch_none {m : List α → Option β} {t : List α}
    (h : ∀ p, p <+: t → m p = none) : IsLongestMatch m t none :=
  Or.inl ⟨rfl, h⟩

end Ranvier
