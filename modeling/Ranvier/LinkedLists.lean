import Mathlib.Data.List.Basic
import Mathlib.Data.List.Induction

/-!
# Doubly-linked lists

Cells carry two optional pointers, given as functions `prev` and `next` on the names of
the cells. `Linked prev next before ids after` says that the pointers thread the cells
`ids` in order, coming from `before` and going on to `after`.

* `linked_append` — a list is threaded piece by piece;
* `Linked.congr` — pointers of other cells do not matter;
* `Linked.setAfter`, `Linked.setBefore` — redirecting the last `next` or the first
  `prev` of a piece;
* `Linked.unlink`, `Linked.replace`, `Linked.push` — taking a cell out, putting one in
  the place of another, and putting one in front.
-/

namespace Ranvier

universe u

section Linked

variable {ν : Type u}

/-- The pointers thread the cells `ids` from `before` to `after`. -/
def Linked (prev next : ν → Option ν) : Option ν → List ν → Option ν → Prop
  | _, [], _ => True
  | before, i :: ids, after =>
    prev i = before ∧ next i = ids.head?.or after ∧ Linked prev next (some i) ids after

variable {prev next prev' next' : ν → Option ν} {before after : Option ν} {xs ys : List ν}

theorem linked_append :
    Linked prev next before (xs ++ ys) after ↔
      Linked prev next before xs (ys.head?.or after) ∧
        Linked prev next (xs.getLast?.or before) ys after := by
  induction xs generalizing before with
  | nil => simp [Linked]
  | cons x xs ih =>
    have hlast : xs.getLast?.or (some x) = (x :: xs).getLast?.or before := by
      rw [List.getLast?_cons]
      cases xs.getLast? <;> rfl
    rw [List.cons_append, Linked, Linked, ih, List.head?_append, Option.or_assoc, hlast, and_assoc,
      and_assoc]

theorem Linked.congr (h : Linked prev next before xs after)
    (hsame : ∀ i ∈ xs, prev' i = prev i ∧ next' i = next i) :
    Linked prev' next' before xs after := by
  induction xs generalizing before with
  | nil => trivial
  | cons x xs ih =>
    obtain ⟨hprev, hnext, hrest⟩ := h
    obtain ⟨hp, hn⟩ := hsame x List.mem_cons_self
    exact ⟨hp.trans hprev, hn.trans hnext,
      ih hrest fun i hi => hsame i (List.mem_cons_of_mem x hi)⟩

/-- The pieces before and after a cell, and its own pointers. -/
theorem linked_middle {a : ν} :
    Linked prev next before (xs ++ a :: ys) after ↔
      Linked prev next before xs (some a) ∧ prev a = xs.getLast?.or before ∧
        next a = ys.head?.or after ∧ Linked prev next (some a) ys after := by
  rw [linked_append]
  rfl

/-- A piece of a list without repetitions, seen from its two ends. -/
theorem head?_ne_of_mem {a i : ν} (hnodup : (xs ++ a :: ys).Nodup) (hi : i ∈ xs) :
    ys.head? ≠ some i := by
  intro heq
  have hmem : i ∈ a :: ys := List.mem_cons_of_mem a (List.mem_of_mem_head? heq)
  exact (List.nodup_append.mp hnodup).2.2 i hi i hmem rfl

theorem getLast?_ne_of_mem {a i : ν} (hnodup : (xs ++ a :: ys).Nodup) (hi : i ∈ ys) :
    xs.getLast? ≠ some i := by
  intro heq
  have hmem : i ∈ xs := List.mem_of_getLast? heq
  exact (List.nodup_append.mp hnodup).2.2 i hmem i (List.mem_cons_of_mem a hi) rfl

variable [DecidableEq ν]

/-- Redirecting the `next` of the last cell of a piece. -/
theorem Linked.setAfter (h : Linked prev next before xs after) (hnodup : xs.Nodup)
    (after' : Option ν)
    (hnext : ∀ i ∈ xs, next' i = if xs.getLast? = some i then after' else next i) :
    Linked prev next' before xs after' := by
  induction xs using List.reverseRecOn with
  | nil => trivial
  | append_singleton xs z ih =>
    have hz : z ∉ xs := by
      have := (List.nodup_append.mp hnodup).2.2
      exact fun hmem => this z hmem z (List.mem_singleton_self z) rfl
    obtain ⟨hxs, hprev, -, -⟩ := linked_middle.mp h
    refine linked_middle.mpr ⟨hxs.congr fun i hi => ⟨rfl, ?_⟩, hprev, ?_, trivial⟩
    · have hne : z ≠ i := fun heq => hz (heq ▸ hi)
      rw [hnext i (List.mem_append_left _ hi), List.getLast?_concat, if_neg]
      exact fun heq => hne (Option.some.inj heq)
    · rw [hnext z (List.mem_append_right _ (List.mem_singleton_self z)), List.getLast?_concat,
        if_pos rfl]
      rfl

/-- Redirecting the `prev` of the first cell of a piece. -/
theorem Linked.setBefore (h : Linked prev next before xs after) (hnodup : xs.Nodup)
    (before' : Option ν)
    (hprev : ∀ i ∈ xs, prev' i = if xs.head? = some i then before' else prev i) :
    Linked prev' next before' xs after := by
  cases xs with
  | nil => trivial
  | cons x xs =>
    obtain ⟨-, hn, hrest⟩ := h
    rw [List.nodup_cons] at hnodup
    refine ⟨?_, hn, hrest.congr fun i hi => ⟨?_, rfl⟩⟩
    · rw [hprev x List.mem_cons_self, List.head?_cons, if_pos rfl]
    · have hne : x ≠ i := fun heq => hnodup.1 (heq ▸ hi)
      rw [hprev i (List.mem_cons_of_mem x hi), List.head?_cons, if_neg]
      exact fun heq => hne (Option.some.inj heq)

/-- Taking a cell out: its neighbours point past it. -/
theorem Linked.unlink {a : ν} (h : Linked prev next none (xs ++ a :: ys) none)
    (hnodup : (xs ++ a :: ys).Nodup)
    (hprev : ∀ i ∈ xs ++ ys, prev' i = if ys.head? = some i then xs.getLast? else prev i)
    (hnext : ∀ i ∈ xs ++ ys, next' i = if xs.getLast? = some i then ys.head? else next i) :
    Linked prev' next' none (xs ++ ys) none := by
  obtain ⟨hxs, -, -, hys⟩ := linked_middle.mp h
  have hparts := List.nodup_append.mp hnodup
  refine linked_append.mpr ⟨?_, ?_⟩
  · rw [Option.or_none]
    refine (hxs.setAfter hparts.1 ys.head? fun i hi => rfl).congr fun i hi => ⟨?_, ?_⟩
    · rw [hprev i (List.mem_append_left _ hi), if_neg (head?_ne_of_mem hnodup hi)]
    · exact hnext i (List.mem_append_left _ hi)
  · rw [Option.or_none]
    refine (hys.setBefore (List.nodup_cons.mp hparts.2.1).2 xs.getLast? fun i hi => rfl).congr
      fun i hi => ⟨?_, ?_⟩
    · exact hprev i (List.mem_append_right _ hi)
    · rw [hnext i (List.mem_append_right _ hi), if_neg (getLast?_ne_of_mem hnodup hi)]

/-- Putting a cell in the place of another. -/
theorem Linked.replace {a b : ν} (h : Linked prev next none (xs ++ a :: ys) none)
    (hnodup : (xs ++ a :: ys).Nodup) (hprevb : prev' b = xs.getLast?) (hnextb : next' b = ys.head?)
    (hprev : ∀ i ∈ xs ++ ys, prev' i = if ys.head? = some i then some b else prev i)
    (hnext : ∀ i ∈ xs ++ ys, next' i = if xs.getLast? = some i then some b else next i) :
    Linked prev' next' none (xs ++ b :: ys) none := by
  obtain ⟨hxs, -, -, hys⟩ := linked_middle.mp h
  have hparts := List.nodup_append.mp hnodup
  refine linked_middle.mpr ⟨?_, ?_, ?_, ?_⟩
  · refine (hxs.setAfter hparts.1 (some b) fun i hi => rfl).congr fun i hi => ⟨?_, ?_⟩
    · rw [hprev i (List.mem_append_left _ hi), if_neg (head?_ne_of_mem hnodup hi)]
    · exact hnext i (List.mem_append_left _ hi)
  · rw [Option.or_none]
    exact hprevb
  · rw [Option.or_none]
    exact hnextb
  · refine (hys.setBefore (List.nodup_cons.mp hparts.2.1).2 (some b) fun i hi => rfl).congr
      fun i hi => ⟨?_, ?_⟩
    · exact hprev i (List.mem_append_right _ hi)
    · rw [hnext i (List.mem_append_right _ hi), if_neg (getLast?_ne_of_mem hnodup hi)]

/-- Putting a cell in front. -/
theorem Linked.push {b : ν} (h : Linked prev next none xs none) (hnodup : xs.Nodup)
    (hprevb : prev' b = none) (hnextb : next' b = xs.head?)
    (hprev : ∀ i ∈ xs, prev' i = if xs.head? = some i then some b else prev i)
    (hnext : ∀ i ∈ xs, next' i = next i) : Linked prev' next' none (b :: xs) none := by
  refine ⟨hprevb, ?_, ?_⟩
  · rw [Option.or_none]
    exact hnextb
  · exact (h.setBefore hnodup (some b) hprev).congr fun i hi => ⟨rfl, hnext i hi⟩

end Linked

end Ranvier
