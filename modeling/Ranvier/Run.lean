import Mathlib.Data.List.Basic

/-!
# Runs of a partial step function

A component is a state and a partial step function: `step s a = none` when the
action `a` is not enabled in `s`. A run is a list of actions.

* `exec` — the state after a run;
* `Meets` — every action of the run meets a condition in the state it is taken in;
* `exec_invariant`, `exec_induction` — the induction rule: what one step
  preserves, a run preserves; the invariant may speak of the actions taken so far;
* `throughout_iff_meets` — the exact condition for a property to hold in every state.
-/

namespace Ranvier

universe u v

section Runs

variable {σ : Type u} {α : Type v} (step : σ → α → Option σ)

/-- The state after the actions, if each was enabled in its turn. -/
def exec : σ → List α → Option σ
  | s, [] => some s
  | s, a :: as =>
    match step s a with
    | some s' => exec s' as
    | none => none

/-- Every action of the run meets `ok` in the state before it. -/
def Meets (ok : σ → α → Prop) : σ → List α → Prop
  | _, [] => True
  | s, a :: as =>
    ok s a ∧
      match step s a with
      | some s' => Meets ok s' as
      | none => True

instance instDecidableMeets (ok : σ → α → Prop) [∀ s a, Decidable (ok s a)] (s : σ)
    (as : List α) : Decidable (Meets step ok s as) :=
  match as with
  | [] => .isTrue trivial
  | a :: as =>
    match h : step s a with
    | some s' =>
      have : Decidable (Meets step ok s' as) := instDecidableMeets ok s' as
      decidable_of_iff (ok s a ∧ Meets step ok s' as) (by rw [Meets, h])
    | none => decidable_of_iff (ok s a) (by simp [Meets, h])

variable {step}

theorem exec_cons {s s'' : σ} {a : α} {as : List α} (h : exec step s (a :: as) = some s'') :
    ∃ s', step s a = some s' ∧ exec step s' as = some s'' := by
  rw [exec] at h
  cases hs : step s a with
  | none =>
    rw [hs] at h
    cases h
  | some s' =>
    rw [hs] at h
    exact ⟨s', rfl, h⟩

theorem exec_append {s s' : σ} {as bs : List α} (h : exec step s as = some s') :
    exec step s (as ++ bs) = exec step s' bs := by
  induction as generalizing s with
  | nil =>
    obtain rfl := Option.some.inj h
    rfl
  | cons a as ih =>
    obtain ⟨t, ht, hrest⟩ := exec_cons h
    rw [List.cons_append, exec, ht]
    exact ih hrest

/-- A run in two parts passes through a state between them. -/
theorem exec_split {s s'' : σ} {as bs : List α} (h : exec step s (as ++ bs) = some s'') :
    ∃ s', exec step s as = some s' ∧ exec step s' bs = some s'' := by
  induction as generalizing s with
  | nil => exact ⟨s, rfl, h⟩
  | cons a as ih =>
    obtain ⟨t, ht, hrest⟩ := exec_cons h
    obtain ⟨s', hs', hend⟩ := ih hrest
    refine ⟨s', ?_, hend⟩
    rw [exec, ht]
    exact hs'

/-- A run all of whose actions are enabled has an end state. -/
theorem exec_eq_some_getD {s : σ} {as : List α} (h : (exec step s as).isSome) :
    exec step s as = some ((exec step s as).getD s) := by
  obtain ⟨s', hs'⟩ := Option.isSome_iff_exists.mp h
  rw [hs', Option.getD_some]

/-- **Invariants of runs.** `I` speaks of the actions taken so far and the
state they led to; if each step that meets `ok` preserves it, so does each run
whose steps all do. -/
theorem exec_invariant {ok : σ → α → Prop} {I : List α → σ → Prop}
    (hstep : ∀ {h s a s'}, ok s a → step s a = some s' → I h s → I (h ++ [a]) s')
    {h as : List α} {s s' : σ} (hmeets : Meets step ok s as) (hexec : exec step s as = some s')
    (hinv : I h s) : I (h ++ as) s' := by
  induction as generalizing h s with
  | nil =>
    rw [List.append_nil]
    obtain rfl := Option.some.inj hexec
    exact hinv
  | cons a as ih =>
    obtain ⟨t, ht, hrest⟩ := exec_cons hexec
    obtain ⟨hok, hmeets⟩ := hmeets
    rw [ht] at hmeets
    have hnext := ih hmeets hrest (hstep hok ht hinv)
    rwa [List.append_assoc, List.singleton_append] at hnext

/-- A run in two parts. -/
theorem meets_append {ok : σ → α → Prop} {as bs : List α} {s s' : σ}
    (h : exec step s as = some s') :
    Meets step ok s (as ++ bs) ↔ Meets step ok s as ∧ Meets step ok s' bs := by
  induction as generalizing s with
  | nil =>
    obtain rfl := Option.some.inj h
    exact ⟨fun hbs => ⟨trivial, hbs⟩, And.right⟩
  | cons a as ih =>
    obtain ⟨t, ht, hrest⟩ := exec_cons h
    simp only [List.cons_append, Meets, ht]
    rw [ih hrest, and_assoc]

theorem Meets.and {ok ok' : σ → α → Prop} {s : σ} {as : List α} (h : Meets step ok s as)
    (h' : Meets step ok' s as) : Meets step (fun s a => ok s a ∧ ok' s a) s as := by
  induction as generalizing s with
  | nil => trivial
  | cons a as ih =>
    refine ⟨⟨h.1, h'.1⟩, ?_⟩
    have hrest := h.2
    have hrest' := h'.2
    split
    · next s' hs =>
      rw [hs] at hrest hrest'
      exact ih hrest hrest'
    · trivial

theorem meets_of_forall_mem {ok : α → Prop} {s : σ} {as : List α} (h : ∀ a ∈ as, ok a) :
    Meets step (fun _ a => ok a) s as := by
  induction as generalizing s with
  | nil => trivial
  | cons a as ih =>
    refine ⟨h a List.mem_cons_self, ?_⟩
    split
    · exact ih fun b hb => h b (List.mem_cons_of_mem a hb)
    · trivial

theorem meets_true {s : σ} {as : List α} : Meets step (fun _ _ => True) s as :=
  meets_of_forall_mem fun _ _ => trivial

/-- `exec_invariant` for what every step preserves. -/
theorem exec_induction {I : List α → σ → Prop}
    (hstep : ∀ {h s a s'}, step s a = some s' → I h s → I (h ++ [a]) s') {h as : List α} {s s' : σ}
    (hexec : exec step s as = some s') (hinv : I h s) : I (h ++ as) s' :=
  exec_invariant (fun _ => hstep) meets_true hexec hinv

/-- The property holds in every state that the run passes through. -/
def Throughout (step : σ → α → Option σ) (P : σ → Prop) : σ → List α → Prop
  | s, [] => P s
  | s, a :: as =>
    P s ∧
      match step s a with
      | some s' => Throughout step P s' as
      | none => True

/-- **Exact conditions.** If a step keeps `P` exactly when it meets `ok`, then `P` holds
throughout a run exactly when every step of it does. -/
theorem throughout_iff_meets {P : σ → Prop} {ok : σ → α → Prop}
    (hstep : ∀ {s a s'}, P s → step s a = some s' → (P s' ↔ ok s a)) {s s' : σ} {as : List α}
    (hexec : exec step s as = some s') (hs : P s) :
    Throughout step P s as ↔ Meets step ok s as := by
  induction as generalizing s with
  | nil => exact ⟨fun _ => trivial, fun _ => hs⟩
  | cons a as ih =>
    obtain ⟨t, ht, hrest⟩ := exec_cons hexec
    rw [Throughout, Meets, ht]
    dsimp only
    constructor
    · rintro ⟨-, hthroughout⟩
      have hpt : P t := by
        cases as with
        | nil => exact hthroughout
        | cons b as => exact hthroughout.1
      exact ⟨(hstep hs ht).mp hpt, (ih hrest hpt).mp hthroughout⟩
    · rintro ⟨hok, hmeets⟩
      exact ⟨hs, (ih hrest ((hstep hs ht).mpr hok)).mpr hmeets⟩

end Runs

end Ranvier
