import Mathlib.Data.List.Basic
import Mathlib.Data.List.Infix

/-!
# The last event that takes effect

A history is a list of events, oldest first. A property of histories that every
event either **sets** or leaves alone is decided by the last event that sets
it. Whether an event takes effect may depend on the history before it.
-/

namespace Ranvier

section LastEffect

variable {α : Type} (E : List α → α → Prop)

/-- After the history `h` the event `a` of `l` takes effect, and no later event
of `l` does. -/
def TakesLastEffect (l h : List α) (a : α) : Prop :=
  ∃ rest, l = h ++ a :: rest ∧ E h a ∧
    ∀ h' a' rest', rest = h' ++ a' :: rest' → ¬E (h ++ a :: h') a'

/-- No event of `l` takes effect. -/
def NoEffect (l : List α) : Prop :=
  ∀ h a rest, l = h ++ a :: rest → ¬E h a

/-- Splitting a list that ends in `x`: at `x`, or before it. -/
theorem concat_eq_append_cons {l h rest : List α} {x a : α} (he : l ++ [x] = h ++ a :: rest) :
    (rest = [] ∧ h = l ∧ a = x) ∨ ∃ rest', rest = rest' ++ [x] ∧ l = h ++ a :: rest' := by
  rcases List.eq_nil_or_concat rest with rfl | ⟨rest', y, rfl⟩
  · obtain ⟨hl, hx⟩ := List.append_inj' he rfl
    exact .inl ⟨rfl, hl.symm, (List.singleton_inj.mp hx).symm⟩
  · rw [List.concat_eq_append, ← List.cons_append, ← List.append_assoc] at he
    obtain ⟨hl, hx⟩ := List.append_inj' he rfl
    exact .inr ⟨rest', by rw [List.concat_eq_append, List.singleton_inj.mp hx], hl⟩

variable {E}

/-- An event with effect at the end is the last one. -/
theorem takesLastEffect_concat_of_effect {l h : List α} {x a : α} (hx : E l x) :
    TakesLastEffect E (l ++ [x]) h a ↔ h = l ∧ a = x := by
  constructor
  · rintro ⟨rest, he, -, hlater⟩
    rcases concat_eq_append_cons he with ⟨-, hh, ha⟩ | ⟨rest', rfl, rfl⟩
    · exact ⟨hh, ha⟩
    · exact absurd hx (hlater rest' x [] rfl)
  · rintro ⟨rfl, rfl⟩
    refine ⟨[], rfl, hx, ?_⟩
    intro h' a' rest' he
    simp at he

/-- An event without effect at the end changes nothing. -/
theorem takesLastEffect_concat_of_noEffect {l h : List α} {x a : α} (hx : ¬E l x) :
    TakesLastEffect E (l ++ [x]) h a ↔ TakesLastEffect E l h a := by
  constructor
  · rintro ⟨rest, he, ha, hlater⟩
    rcases concat_eq_append_cons he with ⟨-, rfl, rfl⟩ | ⟨rest', rfl, rfl⟩
    · exact absurd ha hx
    · refine ⟨rest', rfl, ha, ?_⟩
      rintro h' a' t rfl
      exact hlater h' a' (t ++ [x]) (by simp)
  · rintro ⟨rest, rfl, ha, hlater⟩
    refine ⟨rest ++ [x], by simp, ha, ?_⟩
    intro h' a' t he
    rcases concat_eq_append_cons he with ⟨-, rfl, rfl⟩ | ⟨t', -, rfl⟩
    · exact hx
    · exact hlater h' a' t' rfl

theorem noEffect_concat {l : List α} {x : α} :
    NoEffect E (l ++ [x]) ↔ NoEffect E l ∧ ¬E l x := by
  constructor
  · intro hno
    refine ⟨?_, hno l x [] rfl⟩
    rintro h a rest rfl
    exact hno h a (rest ++ [x]) (by simp)
  · rintro ⟨hno, hx⟩ h a rest he
    rcases concat_eq_append_cons he with ⟨-, rfl, rfl⟩ | ⟨rest', -, hl⟩
    · exact hx
    · exact hno h a rest' hl

/-- **The last effect decides.** `P` holds at the end of `l` exactly when the
last event that takes effect sets it (`Q`), or none does and it held at the
start. -/
theorem last_effect_decides {P : List α → Prop} {Q : α → Prop} {l : List α}
    (hset : ∀ h a, h ++ [a] <+: l → E h a → (P (h ++ [a]) ↔ Q a))
    (hkeep : ∀ h a, h ++ [a] <+: l → ¬E h a → (P (h ++ [a]) ↔ P h)) :
    P l ↔ (∃ h a, TakesLastEffect E l h a ∧ Q a) ∨ (NoEffect E l ∧ P []) := by
  induction l using List.reverseRecOn with
  | nil => simp [TakesLastEffect, NoEffect]
  | append_singleton l x ih =>
    have hpre : l <+: l ++ [x] := List.prefix_append l [x]
    have ih := ih (fun h a hp => hset h a (hp.trans hpre)) (fun h a hp => hkeep h a (hp.trans hpre))
    by_cases hx : E l x
    · rw [hset l x (List.prefix_refl _) hx]
      simp [takesLastEffect_concat_of_effect hx, noEffect_concat, hx]
    · rw [hkeep l x (List.prefix_refl _) hx, ih]
      simp [takesLastEffect_concat_of_noEffect hx, noEffect_concat, hx]

end LastEffect

end Ranvier
