import Ranvier.Run

/-!
# Runs that come to an end

`exec_reaches`: where a state that is not done yet always has an action that makes a
number smaller and keeps an invariant, some run leads to a state that is done.
-/

namespace Ranvier

universe u v

section Progress

variable {σ : Type u} {α : Type v} {step : σ → α → Option σ}

/-- **Progress.** -/
theorem exec_reaches {inv done : σ → Prop} {ok : α → Prop} (measure : σ → ℕ)
    (hstep : ∀ s, inv s → ¬ done s →
      ∃ a s', ok a ∧ step s a = some s' ∧ inv s' ∧ measure s' < measure s)
    {s : σ} (hinv : inv s) :
    ∃ as s', (∀ a ∈ as, ok a) ∧ exec step s as = some s' ∧ inv s' ∧ done s' := by
  induction hn : measure s using Nat.strongRecOn generalizing s with
  | ind n ih =>
    by_cases hdone : done s
    · exact ⟨[], s, fun a ha => absurd ha List.not_mem_nil, rfl, hinv, hdone⟩
    · obtain ⟨a, t, hok, ht, htinv, hlt⟩ := hstep s hinv hdone
      obtain ⟨as, s', hoks, hexec, hend⟩ := ih (measure t) (hn ▸ hlt) htinv rfl
      refine ⟨a :: as, s', ?_, ?_, hend⟩
      · intro b hb
        rcases List.mem_cons.mp hb with rfl | hb
        · exact hok
        · exact hoks b hb
      · rw [exec, ht]
        exact hexec

end Progress

end Ranvier
