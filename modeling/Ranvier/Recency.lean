import Mathlib.Data.List.Basic
import Mathlib.Data.List.Infix
import Mathlib.Data.List.Nodup

/-!
# Recency

A history is a list of actions, oldest first, and an action may use keys and write values under
them. Which of two keys was used last, and what was written last under a key, is read off the
history alone; a container that keeps its keys in this order says so by `ByRecency`.

* `UsedBefore` — the second key has been used since the first one was;
* `ByRecency.concat` — an action that uses none of the keys keeps the order;
* `ByRecency.front` — an action that uses one key, with this key **moved to the front**;
* `lastWritten` — the last value written under a key.
-/

namespace Ranvier

universe u v w

section Recency

variable {α : Type u} {κ : Type v} (uses : α → κ → Prop)

/-- The last use of `k` is before the last use of `k'`: some last part of the history uses `k'`
and not `k`. -/
def UsedBefore (h : List α) (k k' : κ) : Prop :=
  ∃ after, after <:+ h ∧ (∃ a ∈ after, uses a k') ∧ ∀ a ∈ after, ¬uses a k

/-- The key that was used last comes first. -/
def ByRecency (h : List α) (keys : List κ) : Prop :=
  keys.Pairwise fun k' k => UsedBefore uses h k k'

variable {uses} {h : List α} {a : α} {k k' : κ} {keys keys' : List κ}

theorem UsedBefore.concat (hbefore : UsedBefore uses h k k') (ha : ¬uses a k) :
    UsedBefore uses (h ++ [a]) k k' := by
  obtain ⟨after, ⟨before, rfl⟩, ⟨b, hb, huses⟩, hunused⟩ := hbefore
  refine ⟨after ++ [a], ⟨before, (List.append_assoc ..).symm⟩,
    ⟨b, List.mem_append_left _ hb, huses⟩, ?_⟩
  intro c hc
  rcases List.mem_append.mp hc with hc | hc
  · exact hunused c hc
  · exact List.mem_singleton.mp hc ▸ ha

/-- A key that is used now is used after any other. -/
theorem usedBefore_concat (ha : ¬uses a k) (ha' : uses a k') : UsedBefore uses (h ++ [a]) k k' :=
  ⟨[a], List.suffix_append h [a], ⟨a, List.mem_singleton_self a, ha'⟩,
    List.forall_mem_singleton.mpr ha⟩

theorem ByRecency.concat (hkeys : ByRecency uses h keys) (ha : ∀ k ∈ keys, ¬uses a k) :
    ByRecency uses (h ++ [a]) keys :=
  hkeys.imp_of_mem fun _ hk hbefore => hbefore.concat (ha _ hk)

/-- The key that is used now comes first, and others keep their places behind it. -/
theorem ByRecency.front (hkeys : ByRecency uses h keys) (hsublist : keys'.Sublist keys)
    (hk : k ∉ keys') (ha : ∀ k', uses a k' ↔ k' = k) : ByRecency uses (h ++ [a]) (k :: keys') := by
  have hunused : ∀ k' ∈ keys', ¬uses a k' := by
    intro k' hk' huses
    exact hk ((ha k').mp huses ▸ hk')
  refine List.pairwise_cons.mpr ⟨?_, ByRecency.concat (hkeys.sublist hsublist) hunused⟩
  intro k' hk'
  exact usedBefore_concat (hunused k' hk') ((ha k).mpr rfl)

end Recency

section LastWritten

variable {α : Type u} {κ : Type v} {ν : Type w} (writes : α → κ → Option ν)

/-- What was written last under a key. -/
def lastWritten (h : List α) (k : κ) : Option ν := h.reverse.findSome? fun a => writes a k

theorem lastWritten_concat (h : List α) (a : α) (k : κ) :
    lastWritten writes (h ++ [a]) k = (writes a k).or (lastWritten writes h k) := by
  rw [lastWritten, List.reverse_append, List.reverse_singleton, List.singleton_append,
    List.findSome?_cons]
  cases writes a k <;> rfl

end LastWritten

end Ranvier
