import Mathlib.Data.List.Perm.Basic
import Mathlib.Order.Lattice

/-!
# Queues with an entry taken from the middle

An entry is taken out of a queue by swapping it with the front and popping the front, so
the former front ends up where the entry was. Which entry is taken is found by a scan: the
first one with the smallest time among those that are not skipped.

* `IsDue` — the entry the scan is after, said without the scan;
* `scan_spec`, `findIdx_spec` — what the two scans find;
* `closeGap` — what `takeAt` leaves behind;
* `pairwise_closeGap` — an order among the entries survives if the former front has nothing
  to do with those it is moved behind.
-/

namespace Ranvier

universe u v

variable {β : Type u} {τ : Type v}

/-! ## The scan -/

section Due

variable [LinearOrder τ] (skip : β → Bool) (time : β → τ)

/-- Between `pre` and `post` stands the first entry with the smallest time. -/
structure IsDue (pre : List β) (w : β) (post : List β) : Prop where
  unskipped : skip w = false
  before : ∀ r ∈ pre, skip r = false → time w < time r
  after : ∀ r ∈ post, skip r = false → time w ≤ time r

/-- The loop over a queue, at index `i` with the best index and its time so far. -/
def scan : ℕ → Option ℕ → τ → List β → Option ℕ
  | _, bestIdx, _, [] => bestIdx
  | i, bestIdx, bestTime, r :: q =>
    if skip r then scan (i + 1) bestIdx bestTime q
    else if time r < bestTime then scan (i + 1) (some i) (time r) q
    else scan (i + 1) bestIdx bestTime q

variable {skip time}

theorem IsDue.cons {pre post : List β} {w r : β} (h : IsDue skip time pre w post)
    (hr : skip r = false → time w < time r) : IsDue skip time (r :: pre) w post := by
  refine ⟨h.unskipped, ?_, h.after⟩
  intro b hb hskip
  rcases List.mem_cons.mp hb with rfl | hb
  · exact hr hskip
  · exact h.before b hb hskip

variable (skip time) in
/-- The rest of a scan keeps its best entry or finds a better one. -/
theorem scan_cases (i : ℕ) (bestIdx : Option ℕ) (bestTime : τ) (q : List β) :
    (scan skip time i bestIdx bestTime q = bestIdx ∧
        ∀ r ∈ q, skip r = false → bestTime ≤ time r) ∨
      ∃ pre w post, q = pre ++ w :: post ∧ IsDue skip time pre w post ∧ time w < bestTime ∧
        scan skip time i bestIdx bestTime q = some (i + pre.length) := by
  induction q generalizing i bestIdx bestTime with
  | nil => exact .inl ⟨rfl, by simp⟩
  | cons r q ih =>
    have hindex (n : ℕ) : i + 1 + n = i + (n + 1) := by omega
    rw [scan]
    split
    · next hskip =>
      obtain ⟨hkept, hall⟩ | ⟨pre, w, post, rfl, hdue, hlt, hfound⟩ := ih (i + 1) bestIdx bestTime
      · exact .inl ⟨hkept, by simpa [hskip] using hall⟩
      · exact .inr ⟨r :: pre, w, post, rfl, hdue.cons (by simp [hskip]), hlt,
          hfound.trans (by rw [hindex, List.length_cons])⟩
    · next hskip =>
      split
      · next hlt =>
        obtain ⟨hkept, hall⟩ | ⟨pre, w, post, rfl, hdue, hless, hfound⟩ :=
          ih (i + 1) (some i) (time r)
        · exact .inr ⟨[], r, q, rfl, ⟨by simpa using hskip, by simp, hall⟩, hlt, hkept⟩
        · exact .inr ⟨r :: pre, w, post, rfl, hdue.cons fun _ => hless, hless.trans hlt,
            hfound.trans (by rw [hindex, List.length_cons])⟩
      · next hnot =>
        have hle : bestTime ≤ time r := not_lt.mp hnot
        obtain ⟨hkept, hall⟩ | ⟨pre, w, post, rfl, hdue, hless, hfound⟩ :=
          ih (i + 1) bestIdx bestTime
        · refine .inl ⟨hkept, ?_⟩
          intro b hb hskipb
          rcases List.mem_cons.mp hb with rfl | hb
          · exact hle
          · exact hall b hb hskipb
        · exact .inr ⟨r :: pre, w, post, rfl, hdue.cons fun _ => hless.trans_le hle, hless,
            hfound.trans (by rw [hindex, List.length_cons])⟩

variable (skip time) in
/-- **The scan.** It starts from a time that is above all others. -/
theorem scan_spec {top : τ} {q : List β} (htop : ∀ r ∈ q, time r < top) :
    (scan skip time 0 none top q = none ∧ ∀ r ∈ q, skip r = true) ∨
      ∃ pre w post, q = pre ++ w :: post ∧ IsDue skip time pre w post ∧
        scan skip time 0 none top q = some pre.length := by
  rcases scan_cases skip time 0 none top q with ⟨hkept, hall⟩ | ⟨pre, w, post, hq, hdue, -, hfound⟩
  · refine .inl ⟨hkept, fun r hr => ?_⟩
    by_contra hskip
    exact absurd (htop r hr) (not_lt.mpr (hall r hr (by simpa using hskip)))
  · exact .inr ⟨pre, w, post, hq, hdue, by rw [hfound, Nat.zero_add]⟩

variable (skip) in
/-- The first entry that is not skipped, which is the one that is due if time is left out
of account. -/
theorem findIdx_spec (t : τ) (q : List β) :
    (q.findIdx? (fun r => !skip r) = none ∧ ∀ r ∈ q, skip r = true) ∨
      ∃ pre w post, q = pre ++ w :: post ∧ IsDue skip (fun _ => t) pre w post ∧
        q.findIdx? (fun r => !skip r) = some pre.length := by
  induction q with
  | nil => exact .inl ⟨rfl, by simp⟩
  | cons r q ih =>
    cases hskip : skip r with
    | false =>
      refine .inr ⟨[], r, q, rfl, ⟨hskip, by simp, fun _ _ _ => le_refl t⟩, ?_⟩
      simp [List.findIdx?_cons, hskip]
    | true =>
      rcases ih with ⟨hnone, hall⟩ | ⟨pre, w, post, rfl, hdue, hfound⟩
      · exact .inl ⟨by simp [List.findIdx?_cons, hskip, hnone], by simpa [hskip] using hall⟩
      · exact .inr ⟨r :: pre, w, post, rfl, hdue.cons (by simp [hskip]),
          by simp [List.findIdx?_cons, hskip, hfound]⟩

/-- Nothing before the due entry is of its kind, if the kind decides on skipping and time. -/
theorem IsDue.kind_ne {κ : Type*} {kind : β → κ} {pre post : List β} {w r : β}
    (h : IsDue skip time pre w post) (hr : r ∈ pre)
    (hskip : kind r = kind w → skip r = skip w) (htime : kind r = kind w → time r = time w) :
    kind r ≠ kind w := by
  intro hkind
  have hlt := h.before r hr ((hskip hkind).trans h.unskipped)
  rw [htime hkind] at hlt
  exact lt_irrefl _ hlt

end Due

/-! ## Taking an entry out -/

/-- `std::swap(q[0], q[i])`. -/
def swapFront (q : List β) (i : ℕ) : List β :=
  match q[0]?, q[i]? with
  | some front, some entry => (q.set 0 entry).set i front
  | _, _ => q

/-- Swaps the entry to the front, unless it is there, and pops it. -/
def takeAt (q : List β) (i : ℕ) : Option (β × List β) :=
  match if i ≠ 0 then swapFront q i else q with
  | [] => none
  | w :: rest => some (w, rest)

/-- The front fills the gap. -/
def closeGap : List β → List β → List β
  | [], post => post
  | front :: mid, post => mid ++ front :: post

theorem takeAt_eq (pre : List β) (w : β) (post : List β) :
    takeAt (pre ++ w :: post) pre.length = some (w, closeGap pre post) := by
  cases pre with
  | nil => rfl
  | cons front mid => simp [takeAt, swapFront, closeGap]

theorem closeGap_perm (pre post : List β) : (closeGap pre post).Perm (pre ++ post) := by
  cases pre with
  | nil => rfl
  | cons front mid => exact List.perm_middle

theorem mem_closeGap {pre post : List β} {r : β} : r ∈ closeGap pre post ↔ r ∈ pre ∨ r ∈ post := by
  rw [(closeGap_perm pre post).mem_iff, List.mem_append]

/-- What is taken out and what is left are the queue. -/
theorem perm_cons_closeGap (pre : List β) (w : β) (post : List β) :
    (pre ++ w :: post).Perm (w :: closeGap pre post) :=
  List.perm_middle.trans ((closeGap_perm pre post).symm.cons w)

/-- **Order.** The front is moved behind what stood between it and the entry taken. -/
theorem pairwise_closeGap {R : β → β → Prop} {pre post : List β} {w : β}
    (h : (pre ++ w :: post).Pairwise R)
    (hfront : ∀ front mid, pre = front :: mid → ∀ r ∈ mid, R r front) :
    (closeGap pre post).Pairwise R := by
  have hrest : (pre ++ post).Pairwise R :=
    h.sublist ((List.Sublist.refl pre).append (List.sublist_cons_self w post))
  cases pre with
  | nil => exact hrest
  | cons front mid =>
    rw [List.cons_append, List.pairwise_cons, List.pairwise_append] at hrest
    obtain ⟨hbefore, hmid, hpost, hcross⟩ := hrest
    rw [closeGap, List.pairwise_append, List.pairwise_cons]
    refine ⟨hmid, ⟨fun r hr => hbefore r (List.mem_append_right mid hr), hpost⟩, ?_⟩
    intro a ha b hb
    rcases List.mem_cons.mp hb with rfl | hb
    · exact hfront b mid rfl a ha
    · exact hcross a ha b hb

end Ranvier
