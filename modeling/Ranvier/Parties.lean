import Mathlib.Algebra.BigOperators.Group.Finset.Piecewise
import Mathlib.Algebra.Group.Submonoid.BigOperators
import Ranvier.Run

/-!
# Parties around a shared state

Finitely many parties, each with a part of the state for itself, take turns at a state
they share. Often something measured in the shared state is accounted for by the
parties: it is the sum of a share that each of them has in it.

* `World`, `step` — one party acts;
* `Accounts.step` — a **frame rule**: that the sum survives a step is a matter of the
  party that takes it, whatever the others hold;
* `local_step` — what each party keeps to by itself.
-/

namespace Ranvier

universe u v w x y

namespace Parties

/-- The parts that the parties keep to themselves, and what they share. -/
structure World (ι : Type u) (σ : Type v) (V : Type w) : Type (max u v w) where
  parts : ι → σ
  shared : V

section Steps

variable {ι : Type u} {σ : Type v} {V : Type w} {α : Type x} [DecidableEq ι]
  (act : σ → V → α → Option (σ × V))

/-- The party `i` acts, if it can. -/
def step (s : World ι σ V) (t : ι × α) : Option (World ι σ V) :=
  (act (s.parts t.1) s.shared t.2).map fun r => ⟨Function.update s.parts t.1 r.1, r.2⟩

variable {act} {s s' : World ι σ V} {i : ι} {a : α}

theorem step_cases (h : step act s (i, a) = some s') :
    ∃ p v, act (s.parts i) s.shared a = some (p, v) ∧
      s' = ⟨Function.update s.parts i p, v⟩ := by
  obtain ⟨⟨p, v⟩, hact, rfl⟩ := Option.map_eq_some_iff.mp h
  exact ⟨p, v, hact, rfl⟩

/-- What a party keeps to by itself is kept to by all. -/
theorem local_step {I : ι → σ → Prop}
    (hact : ∀ {p v}, act (s.parts i) s.shared a = some (p, v) → I i (s.parts i) → I i p)
    (h : step act s (i, a) = some s') (hall : ∀ j, I j (s.parts j)) : ∀ j, I j (s'.parts j) := by
  obtain ⟨p, v, hstep, rfl⟩ := step_cases h
  intro j
  change I j (Function.update s.parts i p j)
  by_cases hj : j = i
  · subst hj
    rw [Function.update_self]
    exact hact hstep (hall j)
  · rw [Function.update_of_ne hj]
    exact hall j

end Steps

section Accounting

variable {ι : Type u} {σ : Type v} {V : Type w} {α : Type x} {M : Type y} [Fintype ι]
  [AddCommMonoid M] (share : σ → M) (measure : V → M)

/-- What is measured in the shared state is the sum of the parties' shares. -/
def Accounts (s : World ι σ V) : Prop := measure s.shared = ∑ i, share (s.parts i)

variable {share measure} {act : σ → V → α → Option (σ × V)} {s s' : World ι σ V} {i : ι} {a : α}

/-- The others' shares do not change. -/
theorem sum_shares_update [DecidableEq ι] (parts : ι → σ) (i : ι) (p : σ) :
    ∑ j, share (Function.update parts i p j) =
      share p + ∑ j ∈ Finset.univ.erase i, share (parts j) := by
  rw [← Finset.add_sum_erase _ _ (Finset.mem_univ i), Function.update_self]
  congr 1
  refine Finset.sum_congr rfl fun j hj => ?_
  rw [Function.update_of_ne (Finset.ne_of_mem_erase hj)]

/-- **The frame rule.** `rest` is what the others hold; of that the party that acts need
only know that it lies in `S`. -/
theorem Accounts.step [DecidableEq ι] {S : AddSubmonoid M} (hS : ∀ j, share (s.parts j) ∈ S)
    (hact : ∀ {p v}, act (s.parts i) s.shared a = some (p, v) → ∀ rest ∈ S,
      measure s.shared = share (s.parts i) + rest → measure v = share p + rest)
    (hacc : Accounts share measure s) (h : Parties.step act s (i, a) = some s') :
    Accounts share measure s' := by
  obtain ⟨p, v, hstep, rfl⟩ := step_cases h
  rw [Accounts, sum_shares_update]
  refine hact hstep _ (S.sum_mem fun j _ => hS j) ?_
  exact hacc.trans (Finset.add_sum_erase _ (fun j => share (s.parts j)) (Finset.mem_univ i)).symm

end Accounting

end Parties

end Ranvier
