import Mathlib.Algebra.Group.Nat.Defs
import Mathlib.Data.List.Basic
import Mathlib.Data.List.Infix
import Mathlib.Data.List.TakeWhile

/-!
# Searching and scanning byte strings

The part of `std::string_view` that text parsers use: the first occurrence of a
pattern (`find`), trimming, and `std::from_chars` on unsigned numbers.

* `findSub_eq_some_iff` — what a hit says;
* `findSub_left` — the search in a **prefix** of a text finds the same hit if
  the whole of it has arrived, and nothing otherwise;
* `findSub_skip` — a part in which no occurrence begins can be skipped;
* `fromChars_digits` — a run of digits reads as its value.
-/

namespace Ranvier

section Find

variable {α : Type} [DecidableEq α]

/-- `find`: the index of the first occurrence of `pat`. -/
def findSub (pat : List α) : List α → Option ℕ
  | [] => if pat = [] then some 0 else none
  | b :: l => if pat <+: b :: l then some 0 else (findSub pat l).map (· + 1)

variable {pat l u v : List α} {i : ℕ}

theorem findSub_eq_some_iff (hpat : pat ≠ []) :
    findSub pat l = some i ↔ pat <+: l.drop i ∧ ∀ j < i, ¬pat <+: l.drop j := by
  induction l generalizing i with
  | nil =>
    simp only [findSub, hpat, if_false, List.drop_nil, List.prefix_nil]
    simp
  | cons b l ih =>
    -- a hit at the front is the first; otherwise the search goes on behind it
    rw [findSub]
    split
    · next h =>
      constructor
      · intro heq
        obtain rfl := Option.some.inj heq
        exact ⟨h, fun j hj => absurd hj (Nat.not_lt_zero j)⟩
      · rintro ⟨-, hno⟩
        cases i with
        | zero => rfl
        | succ i => exact absurd h (hno 0 (Nat.succ_pos i))
    · next h =>
      constructor
      · intro heq
        obtain ⟨k, hk, rfl⟩ := Option.map_eq_some_iff.mp heq
        obtain ⟨hpre, hno⟩ := ih.mp hk
        refine ⟨hpre, ?_⟩
        intro j hj
        cases j with
        | zero => exact h
        | succ j => exact hno j (Nat.lt_of_succ_lt_succ hj)
      · rintro ⟨hpre, hno⟩
        cases i with
        | zero => exact absurd hpre h
        | succ i =>
          refine Option.map_eq_some_iff.mpr ⟨i, ih.mpr ⟨hpre, ?_⟩, rfl⟩
          intro j hj
          exact hno (j + 1) (Nat.succ_lt_succ hj)

theorem findSub_eq_none_iff (hpat : pat ≠ []) :
    findSub pat l = none ↔ ∀ j, ¬pat <+: l.drop j := by
  induction l with
  | nil => simp [findSub, hpat]
  | cons b l ih =>
    rw [findSub]
    split
    · next h => exact iff_of_false (by simp) fun hno => hno 0 h
    · next h =>
      rw [Option.map_eq_none_iff, ih]
      constructor
      · intro hno j
        cases j with
        | zero => exact h
        | succ j => exact hno j
      · intro hno j
        exact hno (j + 1)

omit [DecidableEq α] in
/-- An occurrence inside the first part of a text is one in the whole. -/
theorem prefix_drop_append (h : pat <+: u.drop i) : pat <+: (u ++ v).drop i := by
  rw [List.drop_append]
  exact h.trans (List.prefix_append _ _)

omit [DecidableEq α] in
/-- An occurrence in the whole that ends in the first part is one there. -/
theorem prefix_drop_of_append (h : pat <+: (u ++ v).drop i) (hlen : i + pat.length ≤ u.length) :
    pat <+: u.drop i := by
  have hle : pat.length ≤ (u.drop i).length := by
    rw [List.length_drop]
    omega
  rw [List.drop_append_of_le_length (by omega)] at h
  exact List.prefix_of_prefix_length_le h (List.prefix_append _ _) hle

/-- **Searching a prefix.** If the whole text `u ++ v` has its first occurrence
at `i`, the part `u` has it there too once it reaches to its end, and has none
before. -/
theorem findSub_left (hpat : pat ≠ []) (h : findSub pat (u ++ v) = some i) :
    findSub pat u = if i + pat.length ≤ u.length then some i else none := by
  obtain ⟨hpre, hno⟩ := (findSub_eq_some_iff hpat).mp h
  split
  · next hlen =>
    refine (findSub_eq_some_iff hpat).mpr ⟨prefix_drop_of_append hpre hlen, ?_⟩
    intro j hj hprej
    exact hno j hj (prefix_drop_append hprej)
  · next hlen =>
    rw [findSub_eq_none_iff hpat]
    intro j hprej
    have hj : i ≤ j := by
      by_contra hlt
      exact hno j (by omega) (prefix_drop_append hprej)
    have hfit : j + pat.length ≤ u.length := by
      have := hprej.length_le
      have hpos : 0 < pat.length := List.length_pos_of_ne_nil hpat
      rw [List.length_drop] at this
      omega
    omega

theorem findSub_append (hpat : pat ≠ []) (h : findSub pat u = some i) :
    findSub pat (u ++ v) = some i := by
  obtain ⟨hpre, hno⟩ := (findSub_eq_some_iff hpat).mp h
  have hfit : i + pat.length ≤ u.length := by
    have := hpre.length_le
    have hpos : 0 < pat.length := List.length_pos_of_ne_nil hpat
    rw [List.length_drop] at this
    omega
  refine (findSub_eq_some_iff hpat).mpr ⟨prefix_drop_append hpre, ?_⟩
  intro j hj hprej
  exact hno j hj (prefix_drop_of_append hprej (by omega))

/-- A hit splits the text, and the part up to its end has the same one. -/
theorem findSub_split (hpat : pat ≠ []) (h : findSub pat l = some i) :
    ∃ text rest, l = text ++ pat ++ rest ∧ text.length = i ∧ findSub pat (text ++ pat) = some i := by
  obtain ⟨⟨rest, hrest⟩, -⟩ := (findSub_eq_some_iff hpat).mp h
  have hlen : (l.take i).length = i := by
    have hpos : 0 < pat.length := List.length_pos_of_ne_nil hpat
    have := congrArg List.length hrest
    rw [List.length_append, List.length_drop] at this
    rw [List.length_take]
    omega
  have hsplit : l = l.take i ++ pat ++ rest := by
    rw [List.append_assoc, hrest, List.take_append_drop]
  refine ⟨l.take i, rest, hsplit, hlen, ?_⟩
  rw [hsplit] at h
  rw [findSub_left hpat h, List.length_append, hlen, if_pos le_rfl]

/-- One byte is found where it comes first. -/
theorem findSub_singleton {b : α} (hu : b ∉ u) :
    findSub [b] (u ++ b :: v) = some u.length := by
  refine (findSub_eq_some_iff (List.cons_ne_nil _ _)).mpr ⟨?_, fun j hj h => hu ?_⟩
  · rw [List.drop_left]
    exact List.cons_prefix_cons.mpr ⟨rfl, List.nil_prefix⟩
  · rw [List.drop_append_of_le_length hj.le, List.drop_eq_getElem_cons hj, List.cons_append,
      List.cons_prefix_cons] at h
    exact h.1 ▸ List.getElem_mem hj

/-- The search stops at the first occurrence. -/
theorem findSub_singleton_split {b : α} (h : findSub [b] l = some i) :
    ∃ u v, l = u ++ b :: v ∧ b ∉ u ∧ u.length = i := by
  obtain ⟨w, rest, hl, -, -⟩ := findSub_split (List.cons_ne_nil b []) h
  have hmem : b ∈ l := by
    rw [hl]
    exact List.mem_append_left _ (List.mem_append_right _ List.mem_cons_self)
  obtain ⟨u, v, rfl, hu⟩ := List.eq_append_cons_of_mem hmem
  exact ⟨u, v, rfl, hu, Option.some.inj ((findSub_singleton hu).symm.trans h)⟩

/-- Where no occurrence begins in the first part, the search goes on behind it. -/
theorem findSub_skip (hpat : pat ≠ []) (h : ∀ j < u.length, ¬pat <+: (u ++ v).drop j) :
    findSub pat (u ++ v) = (findSub pat v).map (· + u.length) := by
  cases hv : findSub pat v with
  | none =>
    rw [Option.map_none, findSub_eq_none_iff hpat]
    intro j hpre
    rcases Nat.lt_or_ge j u.length with hj | hj
    · exact h j hj hpre
    · rw [List.drop_append, List.drop_of_length_le hj, List.nil_append] at hpre
      exact (findSub_eq_none_iff hpat).mp hv _ hpre
  | some i =>
    obtain ⟨hpre, hno⟩ := (findSub_eq_some_iff hpat).mp hv
    rw [Option.map_some, findSub_eq_some_iff hpat]
    constructor
    · rwa [Nat.add_comm, ← List.drop_drop, List.drop_left]
    · intro j hj hprej
      rcases Nat.lt_or_ge j u.length with hju | hju
      · exact h j hju hprej
      · rw [List.drop_append, List.drop_of_length_le hju, List.nil_append] at hprej
        exact hno (j - u.length) (by omega) hprej

end Find

/-! ## Trimming and numbers -/

/-- Space or horizontal tab. -/
def isBlank (b : UInt8) : Bool := b = 32 || b = 9

/-- Drop blanks at both ends. -/
def trim (l : List UInt8) : List UInt8 := ((l.dropWhile isBlank).reverse.dropWhile isBlank).reverse

/-- The value of a digit character in bases up to 16. -/
def digitValue (base : ℕ) (b : UInt8) : Option ℕ :=
  let n := b.toNat
  let v :=
    if 48 ≤ n ∧ n ≤ 57 then some (n - 48)
    else if 97 ≤ n ∧ n ≤ 102 then some (n - 87)
    else if 65 ≤ n ∧ n ≤ 70 then some (n - 55)
    else none
  v.filter (· < base)

/-- The value of a run of digits, most significant first. -/
def digitsValue (base : ℕ) (l : List UInt8) : ℕ :=
  l.foldl (fun acc b => acc * base + (digitValue base b).getD 0) 0

/-- `std::from_chars` for an unsigned type with values below `bound`: the
value and what follows it, or nothing if there is no digit or the value does not
fit. -/
def fromChars (base bound : ℕ) (l : List UInt8) : Option (ℕ × List UInt8) :=
  let digits := l.takeWhile fun b => (digitValue base b).isSome
  let value := digitsValue base digits
  if digits = [] ∨ bound ≤ value then none
  else some (value, l.dropWhile fun b => (digitValue base b).isSome)

/-- A run of digits reads as its value. -/
theorem fromChars_digits {base bound : ℕ} {l : List UInt8} (hne : l ≠ [])
    (hdig : ∀ b ∈ l, (digitValue base b).isSome) (hbound : digitsValue base l < bound) :
    fromChars base bound l = some (digitsValue base l, []) := by
  have htake : l.takeWhile (fun b => (digitValue base b).isSome) = l :=
    List.takeWhile_eq_self_iff.mpr hdig
  have hdrop : l.dropWhile (fun b => (digitValue base b).isSome) = [] :=
    List.dropWhile_eq_nil_iff.mpr hdig
  rw [fromChars, htake, hdrop, if_neg]
  simp [hne, hbound]

/-- A run of digits whose value does not fit is not read. -/
theorem fromChars_digits_overflow {base bound : ℕ} {l : List UInt8}
    (hdig : ∀ b ∈ l, (digitValue base b).isSome) (hbound : bound ≤ digitsValue base l) :
    fromChars base bound l = none := by
  have htake : l.takeWhile (fun b => (digitValue base b).isSome) = l :=
    List.takeWhile_eq_self_iff.mpr hdig
  rw [fromChars, htake, if_pos (.inr hbound)]

theorem dropWhile_blanks_append {before l : List UInt8} (hb : ∀ b ∈ before, isBlank b)
    (hl : ∀ b ∈ l.head?, isBlank b = false) : (before ++ l).dropWhile isBlank = l := by
  rw [List.dropWhile_append_of_pos hb]
  cases l with
  | nil => rfl
  | cons b l =>
    have := hl b (by simp)
    simp [this]

/-- Trimming removes blanks around a text without blanks. -/
theorem trim_blanks {before l after : List UInt8} (hb : ∀ b ∈ before, isBlank b)
    (ha : ∀ b ∈ after, isBlank b) (hl : ∀ b ∈ l, isBlank b = false) (hne : l ≠ []) :
    trim (before ++ (l ++ after)) = l := by
  have hfront : (before ++ (l ++ after)).dropWhile isBlank = l ++ after := by
    refine dropWhile_blanks_append hb ?_
    intro b hmem
    rw [List.head?_append_of_ne_nil _ hne] at hmem
    exact hl b (List.mem_of_mem_head? hmem)
  have hback : (after.reverse ++ l.reverse).dropWhile isBlank = l.reverse := by
    refine dropWhile_blanks_append (fun b hb => ha b (List.mem_reverse.mp hb)) ?_
    intro b hmem
    exact hl b (List.mem_reverse.mp (List.mem_of_mem_head? hmem))
  rw [trim, hfront, List.reverse_append, hback, List.reverse_reverse]

end Ranvier
