import Mathlib.Data.List.DropRight

/-!
# Trimming a list at its ends

What is left of a list when the elements with a property are taken away from its ends.

* `trimBoth` — both ends; the right end alone is `List.rdropWhile`;
* `rdropWhile_append_of_any`, `rdropWhile_append_of_all` — how far into a concatenation the
  right end reaches;
* `trimBoth_eq_self_mono`, `rdropWhile_eq_of_trimBoth_eq` — two properties of which one
  implies the other.
-/

namespace Ranvier

universe u

variable {α : Type u} {p q : α → Bool} {l k : List α}

/-- The list without the elements at its ends that have the property. -/
def trimBoth (p : α → Bool) (l : List α) : List α := (l.dropWhile p).rdropWhile p

theorem rdropWhile_append_of_any (h : ∃ a ∈ k, ¬ p a) :
    (l ++ k).rdropWhile p = l ++ k.rdropWhile p := by
  have hne : k.reverse.dropWhile p ≠ [] := by
    intro hnil
    obtain ⟨a, ha, hpa⟩ := h
    exact hpa (List.dropWhile_eq_nil_iff.mp hnil a (List.mem_reverse.mpr ha))
  have hempty : (k.reverse.dropWhile p).isEmpty = false := by
    rw [← Bool.not_eq_true, List.isEmpty_iff]
    exact hne
  rw [List.rdropWhile, List.rdropWhile, List.reverse_append, List.dropWhile_append, hempty,
    if_neg Bool.false_ne_true, List.reverse_append, List.reverse_reverse]

theorem rdropWhile_append_of_all (h : ∀ a ∈ k, p a) :
    (l ++ k).rdropWhile p = l.rdropWhile p := by
  have hnil : k.reverse.dropWhile p = [] :=
    List.dropWhile_eq_nil_iff.mpr fun a ha => h a (List.mem_reverse.mp ha)
  rw [List.rdropWhile, List.reverse_append, List.dropWhile_append, hnil, List.isEmpty_nil,
    if_pos rfl]
  rfl

theorem length_rdropWhile_le (p : α → Bool) (l : List α) : (l.rdropWhile p).length ≤ l.length :=
  (List.rdropWhile_prefix p l).length_le

theorem length_dropWhile_le (p : α → Bool) (l : List α) : (l.dropWhile p).length ≤ l.length :=
  (List.dropWhile_suffix p).length_le

theorem length_trimBoth_le (p : α → Bool) (l : List α) : (trimBoth p l).length ≤ l.length :=
  (length_rdropWhile_le p _).trans (length_dropWhile_le p l)

theorem trimBoth_eq_self_of_length (h : (trimBoth p l).length = l.length) :
    l.dropWhile p = l ∧ l.rdropWhile p = l := by
  rw [trimBoth] at h
  have hfront : l.dropWhile p = l := by
    refine (List.dropWhile_suffix p).eq_of_length ?_
    have hle := length_rdropWhile_le p (l.dropWhile p)
    have hle' := length_dropWhile_le p l
    omega
  rw [hfront] at h
  exact ⟨hfront, (List.rdropWhile_prefix p l).eq_of_length h⟩

/-- Trimming takes nothing away, if neither end does. -/
theorem trimBoth_eq_self_iff : trimBoth p l = l ↔ l.dropWhile p = l ∧ l.rdropWhile p = l := by
  constructor
  · exact fun h => trimBoth_eq_self_of_length (congrArg List.length h)
  · rintro ⟨hfront, hback⟩
    rw [trimBoth, hfront, hback]

theorem trimBoth_eq_nil_iff : trimBoth p l = [] ↔ ∀ a ∈ l, p a := by
  rw [trimBoth, List.rdropWhile_eq_nil_iff]
  constructor
  · intro h a ha
    rw [← List.takeWhile_append_dropWhile (p := p) (l := l)] at ha
    rcases List.mem_append.mp ha with ha | ha
    · exact List.mem_takeWhile_imp ha
    · exact h a ha
  · exact fun h a ha => h a ((List.dropWhile_suffix p).subset ha)

/-- The right end alone, if something is left. -/
theorem rdropWhile_eq_takeWhile_append (h : ∃ a ∈ l, ¬ p a) :
    l.rdropWhile p = l.takeWhile p ++ trimBoth p l := by
  have hrest : ∃ a ∈ l.dropWhile p, ¬ p a := by
    by_contra hall
    obtain ⟨a, ha, hpa⟩ := h
    refine hpa (trimBoth_eq_nil_iff.mp ?_ a ha)
    rw [trimBoth, List.rdropWhile_eq_nil_iff]
    exact fun b hb => by_contra fun hpb => hall ⟨b, hb, hpb⟩
  rw [trimBoth, ← rdropWhile_append_of_any hrest, List.takeWhile_append_dropWhile]

section TwoProperties

variable (hqp : ∀ a, q a → p a)

include hqp

theorem dropWhile_eq_self_mono (h : l.dropWhile p = l) : l.dropWhile q = l := by
  cases l with
  | nil => rfl
  | cons a l =>
    have hpa : ¬ p a := by
      intro hpa
      rw [List.dropWhile_cons_of_pos hpa] at h
      have hle := length_dropWhile_le p l
      rw [h, List.length_cons] at hle
      omega
    exact List.dropWhile_cons_of_neg fun hqa => hpa (hqp a hqa)

theorem rdropWhile_eq_self_mono (h : l.rdropWhile p = l) : l.rdropWhile q = l := by
  have hreverse : l.reverse.dropWhile p = l.reverse := List.reverse_eq_iff.mp h
  rw [List.rdropWhile, dropWhile_eq_self_mono hqp hreverse, List.reverse_reverse]

/-- What the weaker property leaves alone, the stronger one does. -/
theorem trimBoth_eq_self_mono (h : trimBoth p l = l) : trimBoth q l = l := by
  obtain ⟨hfront, hback⟩ := trimBoth_eq_self_iff.mp h
  exact trimBoth_eq_self_iff.mpr
    ⟨dropWhile_eq_self_mono hqp hfront, rdropWhile_eq_self_mono hqp hback⟩

theorem length_dropWhile_mono (l : List α) : (l.dropWhile p).length ≤ (l.dropWhile q).length := by
  induction l with
  | nil => rfl
  | cons a l ih =>
    by_cases hqa : q a
    · rw [List.dropWhile_cons_of_pos hqa, List.dropWhile_cons_of_pos (hqp a hqa)]
      exact ih
    · rw [List.dropWhile_cons_of_neg hqa]
      exact length_dropWhile_le p (a :: l)

theorem length_rdropWhile_mono (l : List α) :
    (l.rdropWhile p).length ≤ (l.rdropWhile q).length := by
  rw [List.rdropWhile, List.rdropWhile, List.length_reverse, List.length_reverse]
  exact length_dropWhile_mono hqp l.reverse

/-- If both properties trim alike, they do so at the right end, unless nothing is left. -/
theorem rdropWhile_eq_of_trimBoth_eq (h : trimBoth q l = trimBoth p l) (hne : ∃ a ∈ l, ¬ p a) :
    l.rdropWhile q = l.rdropWhile p := by
  have hneq : ∃ a ∈ l, ¬ q a := by
    obtain ⟨a, ha, hpa⟩ := hne
    exact ⟨a, ha, fun hqa => hpa (hqp a hqa)⟩
  -- both are beginnings of the list, so their lengths decide
  have hlength : (l.rdropWhile q).length = (l.rdropWhile p).length := by
    have hp := congrArg List.length (rdropWhile_eq_takeWhile_append hne)
    have hq := congrArg List.length (rdropWhile_eq_takeWhile_append hneq)
    have hsplitp := congrArg List.length (List.takeWhile_append_dropWhile (p := p) (l := l))
    have hsplitq := congrArg List.length (List.takeWhile_append_dropWhile (p := q) (l := l))
    have hdrop := length_dropWhile_mono hqp l
    have hrdrop := length_rdropWhile_mono hqp l
    rw [List.length_append] at hp hq hsplitp hsplitq
    rw [h] at hq
    omega
  exact (List.prefix_of_prefix_length_le (List.rdropWhile_prefix q l) (List.rdropWhile_prefix p l)
    hlength.le).eq_of_length hlength

end TwoProperties

end Ranvier
