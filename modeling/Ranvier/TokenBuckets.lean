import Mathlib.Algebra.Order.Field.Basic
import Mathlib.Tactic.Linarith
import Mathlib.Tactic.Ring

/-!
# Token buckets

An ideal token bucket: it fills at a constant rate up to a burst size, and one token
is taken at a time. `Conforms b ts` says that tokens can be taken from `b` at the
times `ts`.

* `Conforms.window_le` — at most `burst + rate * T` tokens are taken in a window of
  length `T`;
* `levelAt_add_le` — filling in two steps gives no more than filling at once.
-/

namespace Ranvier

universe u

/-- A bucket: its level at a time. -/
structure Bucket (K : Type u) : Type u where
  level : K
  time : K

namespace Bucket

variable {K : Type u} [Field K] [LinearOrder K]

section Levels

variable (rate burst : K)

/-- The level at a later time. -/
def levelAt (b : Bucket K) (t : K) : K := min burst (b.level + rate * (t - b.time))

/-- The bucket after a token was taken. -/
def take (b : Bucket K) (t : K) : Bucket K := ⟨b.levelAt rate burst t - 1, t⟩

/-- Tokens can be taken at these times. -/
def Conforms : Bucket K → List K → Prop
  | _, [] => True
  | b, t :: ts => b.time ≤ t ∧ 1 ≤ b.levelAt rate burst t ∧ Conforms (b.take rate burst t) ts

/-- The bucket after tokens were taken at these times. -/
def after (b : Bucket K) (ts : List K) : Bucket K := ts.foldl (fun b t => b.take rate burst t) b

end Levels

variable {rate burst : K} {b : Bucket K} {t t' : K} {ts : List K}

@[simp] theorem take_time : (b.take rate burst t).time = t := rfl

@[simp] theorem take_level : (b.take rate burst t).level = b.levelAt rate burst t - 1 := rfl

theorem levelAt_le_burst : b.levelAt rate burst t ≤ burst := min_le_left _ _

theorem levelAt_le_add : b.levelAt rate burst t ≤ b.level + rate * (t - b.time) := min_le_right _ _

theorem levelAt_time (h : b.level ≤ burst) : b.levelAt rate burst b.time = b.level := by
  rw [levelAt, sub_self, mul_zero, add_zero, min_eq_right h]

theorem after_snoc (b : Bucket K) (ts : List K) (t : K) :
    b.after rate burst (ts ++ [t]) = (b.after rate burst ts).take rate burst t := by
  rw [after, List.foldl_append]
  rfl

theorem conforms_snoc : b.Conforms rate burst (ts ++ [t]) ↔
    b.Conforms rate burst ts ∧ (b.after rate burst ts).time ≤ t ∧
      1 ≤ (b.after rate burst ts).levelAt rate burst t := by
  induction ts generalizing b with
  | nil => simp [Conforms, after]
  | cons s ts ih =>
    rw [List.cons_append, Conforms, Conforms, ih]
    simp only [after, List.foldl_cons, and_assoc]

theorem Conforms.time_le (h : b.Conforms rate burst ts) : ∀ t ∈ ts, b.time ≤ t := by
  induction ts generalizing b with
  | nil =>
    intro t ht
    cases ht
  | cons s ts ih =>
    obtain ⟨hs, -, hrest⟩ := h
    intro t ht
    rcases List.mem_cons.mp ht with rfl | ht
    · exact hs
    · exact le_trans hs (ih hrest t ht)

variable [IsStrictOrderedRing K]

theorem levelAt_mono (hrate : 0 ≤ rate) (h : t ≤ t') :
    b.levelAt rate burst t ≤ b.levelAt rate burst t' := by
  have hmul : rate * (t - b.time) ≤ rate * (t' - b.time) :=
    mul_le_mul_of_nonneg_left (by linarith) hrate
  exact min_le_min_left _ (by linarith)

theorem level_le_levelAt (hrate : 0 ≤ rate) (hburst : b.level ≤ burst) (h : b.time ≤ t) :
    b.level ≤ b.levelAt rate burst t := by
  have hmono : b.levelAt rate burst b.time ≤ b.levelAt rate burst t := levelAt_mono hrate h
  rwa [levelAt_time hburst] at hmono

/-- What is in the bucket at `t`, filled up until `t'`, is not more than what is in
it at `t'`. -/
theorem levelAt_add_le :
    min burst (b.levelAt rate burst t + rate * (t' - t)) ≤ b.levelAt rate burst t' := by
  have hadd : b.levelAt rate burst t ≤ b.level + rate * (t - b.time) := levelAt_le_add
  refine min_le_min_left _ ?_
  calc b.levelAt rate burst t + rate * (t' - t)
      ≤ b.level + rate * (t - b.time) + rate * (t' - t) := by linarith
    _ = b.level + rate * (t' - b.time) := by ring

/-- An empty bucket that had the time to fill is full. -/
theorem levelAt_eq_burst (hlevel : 0 ≤ b.level) (h : burst ≤ rate * (t - b.time)) :
    b.levelAt rate burst t = burst :=
  min_eq_left (by linarith)

theorem take_level_le (h : 1 ≤ b.levelAt rate burst t) :
    0 ≤ (b.take rate burst t).level ∧ (b.take rate burst t).level ≤ burst := by
  have hle : b.levelAt rate burst t ≤ burst := levelAt_le_burst
  rw [take_level]
  constructor <;> linarith

/-! ## Taking tokens -/

/-- Up to a time, no more tokens are taken than were there and came in. -/
theorem Conforms.count_le (hrate : 0 ≤ rate) (hlevel : 0 ≤ b.level)
    (h : b.Conforms rate burst ts) {e : K} (he : b.time ≤ e) :
    ((ts.filter fun t => decide (t ≤ e)).length : K) ≤ b.level + rate * (e - b.time) := by
  induction ts generalizing b with
  | nil =>
    have := mul_nonneg hrate (sub_nonneg.mpr he)
    simp only [List.filter_nil, List.length_nil, Nat.cast_zero]
    linarith
  | cons t ts ih =>
    obtain ⟨htime, hone, hrest⟩ := h
    by_cases ht : t ≤ e
    · have hle := ih (take_level_le hone).1 hrest ht
      have hadd : b.levelAt rate burst t ≤ b.level + rate * (t - b.time) := levelAt_le_add
      rw [List.filter_cons_of_pos (by simpa using ht), List.length_cons]
      push_cast
      rw [take_level, take_time] at hle
      calc (((ts.filter fun t => decide (t ≤ e)).length : K)) + 1
          ≤ b.levelAt rate burst t - 1 + rate * (e - t) + 1 := by linarith
        _ ≤ b.level + rate * (t - b.time) + rate * (e - t) := by linarith
        _ = b.level + rate * (e - b.time) := by ring
    · -- the times only grow
      have hnone : (t :: ts).filter (fun t => decide (t ≤ e)) = [] := by
        rw [List.filter_eq_nil_iff]
        intro s hs hse
        have hse := of_decide_eq_true hse
        rcases List.mem_cons.mp hs with rfl | hs
        · exact ht hse
        · exact ht (le_trans (hrest.time_le s hs) hse)
      have := mul_nonneg hrate (sub_nonneg.mpr he)
      rw [hnone, List.length_nil, Nat.cast_zero]
      linarith

/-- **The rate.** In a window of length `T` at most `burst + rate * T` tokens are taken. -/
theorem Conforms.window_le (hrate : 0 ≤ rate) (hburst : 0 ≤ burst)
    (h : b.Conforms rate burst ts) (a : K) {T : K} (hT : 0 ≤ T) :
    ((ts.filter fun t => decide (a ≤ t ∧ t ≤ a + T)).length : K) ≤ burst + rate * T := by
  have hpos := mul_nonneg hrate hT
  induction ts generalizing b with
  | nil =>
    simp only [List.filter_nil, List.length_nil, Nat.cast_zero]
    linarith
  | cons t ts ih =>
    obtain ⟨htime, hone, hrest⟩ := h
    by_cases ht : a ≤ t ∧ t ≤ a + T
    · -- the first token of the window: what is left in the bucket bounds the rest
      have hsame : ts.filter (fun t => decide (a ≤ t ∧ t ≤ a + T)) =
          ts.filter fun t => decide (t ≤ a + T) := by
        refine List.filter_congr fun s hs => ?_
        have has : a ≤ s := le_trans ht.1 (hrest.time_le s hs)
        simp [has]
      have hle := hrest.count_le hrate (take_level_le hone).1 ht.2
      have hlevel : b.levelAt rate burst t ≤ burst := levelAt_le_burst
      have hmul : rate * (a + T - t) ≤ rate * T :=
        mul_le_mul_of_nonneg_left (by linarith [ht.1]) hrate
      rw [List.filter_cons_of_pos (by simpa using ht), List.length_cons, hsame]
      push_cast
      rw [take_level, take_time] at hle
      linarith
    · rw [List.filter_cons_of_neg (by simpa using ht)]
      exact ih hrest

end Bucket

end Ranvier
