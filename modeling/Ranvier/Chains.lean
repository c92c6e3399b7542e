import Mathlib.Data.List.Basic

/-!
# Singly linked lists

Cells carry one pointer, given as a function `next` on their names, and `nil` names no
cell. `PointerChain next nil head cells` says that the pointers lead from `head` through `cells`
in order and end there.

* `PointerChain.congr` — pointers of other cells do not matter;
* `PointerChain.push`, `PointerChain.pop` — a cell put in front, and the front cell taken off.
-/

namespace Ranvier

universe u

section Chains

variable {ν : Type u}

/-- The pointers lead from `head` through `cells` to `nil`. -/
def PointerChain (next : ν → ν) (nil : ν) : ν → List ν → Prop
  | head, [] => head = nil
  | head, c :: cells => head = c ∧ c ≠ nil ∧ PointerChain next nil (next c) cells

variable {next next' : ν → ν} {nil head : ν} {cells : List ν}

theorem PointerChain.congr (h : PointerChain next nil head cells)
    (hsame : ∀ c ∈ cells, next' c = next c) : PointerChain next' nil head cells := by
  induction cells generalizing head with
  | nil => exact h
  | cons c cells ih =>
    obtain ⟨hhead, hne, hrest⟩ := h
    refine ⟨hhead, hne, ?_⟩
    rw [hsame c List.mem_cons_self]
    exact ih hrest fun d hd => hsame d (List.mem_cons_of_mem c hd)

/-- A cell that points at the head becomes the head. -/
theorem PointerChain.push {c : ν} (h : PointerChain next nil head cells) (hne : c ≠ nil)
    (hc : next' c = head) (hsame : ∀ d ∈ cells, next' d = next d) :
    PointerChain next' nil c (c :: cells) := by
  refine ⟨rfl, hne, ?_⟩
  rw [hc]
  exact h.congr hsame

/-- A head that names a cell is the front of the list, and its pointer leads on. -/
theorem PointerChain.pop (h : PointerChain next nil head cells) (hne : head ≠ nil) :
    ∃ rest, cells = head :: rest ∧ PointerChain next nil (next head) rest := by
  cases cells with
  | nil => exact absurd h hne
  | cons c rest =>
    obtain ⟨rfl, -, hrest⟩ := h
    exact ⟨rest, rfl, hrest⟩

end Chains

end Ranvier
