import Mathlib.Algebra.Group.Nat.Defs
import Mathlib.Data.List.Basic
import Mathlib.Data.UInt
import Mathlib.Logic.Function.Basic

/-!
# Base64

`base64_decode` reads a text by quartets. A table has the six bits of each character of the
alphabet, and two values of its own for the padding and for everything else; padding may stand
only at the end of the last quartet.

* `base64Encode` — the encoding of RFC 4648, for comparison;
* `Padded` — characters of the alphabet with at most two padding characters behind them;
* `base64_roundTrip_and_accepts` — decoding **undoes** the encoding, and exactly the padded texts
  of whole quartets are accepted.
-/

namespace Ranvier

/-! ## Decoder -/

/-- `'='`. -/
def base64Pad : UInt8 := 61

/-- `0xFF`: what the table has for a character that is none of base64. -/
def tableInvalid : UInt8 := 255

/-- `0xFE`: what it has for the padding. -/
def tablePad : UInt8 := 254

/-- `table`, as its initializer fills it. -/
def base64Table : UInt8 → UInt8 :=
  let t : UInt8 → UInt8 := fun _ => tableInvalid
  let t := (List.range 26).foldl (fun t i =>
    Function.update (Function.update t (UInt8.ofNat (65 + i)) (UInt8.ofNat i))
      (UInt8.ofNat (97 + i)) (UInt8.ofNat (26 + i))) t
  let t := (List.range 10).foldl (fun t i =>
    Function.update t (UInt8.ofNat (48 + i)) (UInt8.ofNat (52 + i))) t
  let t := Function.update t 43 62
  let t := Function.update t 47 63
  Function.update t base64Pad tablePad

/-- The body of the loop: what one quartet adds to the output. -/
def decodeQuartet (last : Bool) (w x y z : UInt8) : Option (List UInt8) :=
  let a := base64Table w
  let b := base64Table x
  let c := base64Table y
  let d := base64Table z
  -- the first two are data, never padding
  if a = tableInvalid ∨ a = tablePad ∨ b = tableInvalid ∨ b = tablePad then none
  else if c = tableInvalid ∨ d = tableInvalid then none
  else if last = false ∧ (c = tablePad ∨ d = tablePad) then none
  else if c = tablePad ∧ d ≠ tablePad then none
  else
    some ((a <<< 2 ||| b >>> 4) ::
      ((if c ≠ tablePad then [(b &&& 15) <<< 4 ||| c >>> 2] else []) ++
        if d ≠ tablePad then [(c &&& 3) <<< 6 ||| d] else []))

/-- The loop over the quartets. -/
def decodeQuartets (out : List UInt8) : List UInt8 → Option (List UInt8)
  | w :: x :: y :: z :: rest =>
    match decodeQuartet rest.isEmpty w x y z with
    | some bytes => decodeQuartets (out ++ bytes) rest
    | none => none
  | _ => some out

/-- `base64_decode`. -/
def base64Decode (input : List UInt8) : Option (List UInt8) :=
  if input.length % 4 ≠ 0 then none else decodeQuartets [] input

/-! ## What is to be decoded -/

/-- The alphabet of RFC 4648, in the order of the six-bit values. -/
def base64Alphabet : List UInt8 :=
  (List.range 26).map (fun i => UInt8.ofNat (65 + i)) ++
    ((List.range 26).map (fun i => UInt8.ofNat (97 + i)) ++
      ((List.range 10).map (fun i => UInt8.ofNat (48 + i)) ++ [43, 47]))

/-- The character of a six-bit value. -/
def sextetChar (v : ℕ) : UInt8 := base64Alphabet.getD v base64Pad

/-- The encoding of RFC 4648: three bytes are 24 bits, or four characters; what is missing at
the end is zero, and a character without any bits is padding. -/
def base64Encode : List UInt8 → List UInt8
  | [] => []
  | [p] =>
    let group := p.toNat * 2 ^ 16
    [sextetChar (group / 2 ^ 18), sextetChar (group / 2 ^ 12 % 2 ^ 6), base64Pad, base64Pad]
  | [p, q] =>
    let group := p.toNat * 2 ^ 16 + q.toNat * 2 ^ 8
    [sextetChar (group / 2 ^ 18), sextetChar (group / 2 ^ 12 % 2 ^ 6),
      sextetChar (group / 2 ^ 6 % 2 ^ 6), base64Pad]
  | p :: q :: r :: rest =>
    let group := p.toNat * 2 ^ 16 + q.toNat * 2 ^ 8 + r.toNat
    sextetChar (group / 2 ^ 18) :: sextetChar (group / 2 ^ 12 % 2 ^ 6) ::
      sextetChar (group / 2 ^ 6 % 2 ^ 6) :: sextetChar (group % 2 ^ 6) :: base64Encode rest

/-- Characters of the alphabet, and at most two padding characters behind them. -/
def Padded (s : List UInt8) : Prop :=
  ∃ body pads, s = body ++ List.replicate pads base64Pad ∧ pads ≤ 2 ∧ ∀ c ∈ body, c ∈ base64Alphabet

/-! ## Table -/

theorem table_sextetChar {v : ℕ} (h : v < 64) : base64Table (sextetChar v) = UInt8.ofNat v := by
  have hall : ∀ v < 64, base64Table (sextetChar v) = UInt8.ofNat v := by decide +kernel
  exact hall v h

/-- What a loop leaves alone. -/
theorem foldl_apply_of_forall {ι α β : Type} {f : (α → β) → ι → α → β} {c : α} {l : List ι}
    (h : ∀ t, ∀ i ∈ l, f t i c = t c) (t : α → β) : l.foldl f t c = t c := by
  induction l generalizing t with
  | nil => rfl
  | cons i l ih =>
    rw [List.foldl_cons, ih fun t j hj => h t j (List.mem_cons_of_mem i hj),
      h t i List.mem_cons_self]

theorem mem_base64Alphabet_iff (c : UInt8) :
    c ∈ base64Alphabet ↔
      (∃ i < 26, UInt8.ofNat (65 + i) = c) ∨ (∃ i < 26, UInt8.ofNat (97 + i) = c) ∨
        (∃ i < 10, UInt8.ofNat (48 + i) = c) ∨ c = 43 ∨ c = 47 := by
  simp [base64Alphabet]

/-- The initializer writes to the characters of base64 only. -/
theorem table_of_notMem {c : UInt8} (hc : c ∉ base64Alphabet) (hpad : c ≠ base64Pad) :
    base64Table c = tableInvalid := by
  rw [mem_base64Alphabet_iff, not_or, not_or, not_or, not_or] at hc
  obtain ⟨hupper, hlower, hdigit, hplus, hslash⟩ := hc
  rw [base64Table, Function.update_of_ne hpad, Function.update_of_ne hslash, Function.update_of_ne hplus,
    foldl_apply_of_forall, foldl_apply_of_forall]
  · intro t i hi
    have hi := List.mem_range.mp hi
    rw [Function.update_of_ne fun h => hlower ⟨i, hi, h.symm⟩,
      Function.update_of_ne fun h => hupper ⟨i, hi, h.symm⟩]
  · intro t i hi
    have hi := List.mem_range.mp hi
    rw [Function.update_of_ne fun h => hdigit ⟨i, hi, h.symm⟩]

theorem table_base64Pad : base64Table base64Pad = tablePad := by
  rw [base64Table, Function.update_self]

/-- A character of the alphabet has a value of six bits. -/
theorem table_of_mem {c : UInt8} (hc : c ∈ base64Alphabet) : (base64Table c).toNat < 64 := by
  obtain ⟨v, hv⟩ := List.getElem?_of_mem hc
  have hlt : v < 64 := (List.getElem?_eq_some_iff.mp hv).1
  have hchar : sextetChar v = c := by
    rw [sextetChar, List.getD_eq_getElem?_getD, hv, Option.getD_some]
  rw [← hchar, table_sextetChar hlt, UInt8.toNat_ofNat_of_lt' (hlt.trans (by decide))]
  exact hlt

theorem table_eq_tablePad_iff (c : UInt8) : base64Table c = tablePad ↔ c = base64Pad := by
  refine ⟨fun h => ?_, fun h => h ▸ table_base64Pad⟩
  by_contra hpad
  by_cases hc : c ∈ base64Alphabet
  · have hlt := table_of_mem hc
    rw [h] at hlt
    exact absurd hlt (by decide)
  · rw [table_of_notMem hc hpad] at h
    exact absurd h (by decide)

theorem table_eq_tableInvalid_iff (c : UInt8) :
    base64Table c = tableInvalid ↔ c ∉ base64Alphabet ∧ c ≠ base64Pad := by
  refine ⟨fun h => ⟨fun hc => ?_, fun hpad => ?_⟩, fun h => table_of_notMem h.1 h.2⟩
  · have hlt := table_of_mem hc
    rw [h] at hlt
    exact absurd hlt (by decide)
  · rw [hpad, table_base64Pad] at h
    exact absurd h (by decide)

theorem base64Pad_notMem : base64Pad ∉ base64Alphabet := by decide

/-! ## Accepted texts -/

/-- What the checks let through. -/
theorem decodeQuartet_isSome_iff (last : Bool) (w x y z : UInt8) :
    (decodeQuartet last w x y z).isSome ↔
      w ∈ base64Alphabet ∧ x ∈ base64Alphabet ∧
        (y ∈ base64Alphabet ∧ z ∈ base64Alphabet ∨
          last = true ∧ z = base64Pad ∧ (y ∈ base64Alphabet ∨ y = base64Pad)) := by
  have hpad := base64Pad_notMem
  unfold decodeQuartet
  simp only [ne_eq, table_eq_tablePad_iff, table_eq_tableInvalid_iff]
  split
  · grind
  split
  · grind
  split
  · grind
  split
  · grind
  · simp only [Option.isSome_some, true_iff]
    cases last <;> grind

theorem padded_nil : Padded [] := ⟨[], 0, rfl, Nat.zero_le 2, by simp⟩

/-- Padding is short, so that a longer text begins with a character of the alphabet. -/
theorem padded_cons_iff {c : UInt8} {l : List UInt8} (hl : 2 ≤ l.length) :
    Padded (c :: l) ↔ c ∈ base64Alphabet ∧ Padded l := by
  constructor
  · rintro ⟨body, pads, heq, hpads, hbody⟩
    cases body with
    | nil =>
      have hlength := congrArg List.length heq
      simp only [List.nil_append, List.length_cons, List.length_replicate] at hlength
      omega
    | cons c' body =>
      obtain ⟨rfl, rfl⟩ := List.cons.inj heq
      obtain ⟨hc, hbody⟩ := List.forall_mem_cons.mp hbody
      exact ⟨hc, body, pads, rfl, hpads, hbody⟩
  · rintro ⟨hc, body, pads, rfl, hpads, hbody⟩
    exact ⟨c :: body, pads, rfl, hpads, List.forall_mem_cons.mpr ⟨hc, hbody⟩⟩

/-- The end of a quartet. -/
theorem padded_pair_iff {y z : UInt8} :
    Padded [y, z] ↔ y ∈ base64Alphabet ∧ z ∈ base64Alphabet ∨
      z = base64Pad ∧ (y ∈ base64Alphabet ∨ y = base64Pad) := by
  constructor
  · rintro ⟨body, pads, heq, hpads, hbody⟩
    match body, pads with
    | [], pads =>
      obtain rfl : pads = 2 := by simpa using (congrArg List.length heq).symm
      obtain ⟨rfl, rfl⟩ : y = base64Pad ∧ z = base64Pad := by simpa [List.replicate] using heq
      exact .inr ⟨rfl, .inr rfl⟩
    | [b], pads =>
      obtain rfl : pads = 1 := by simpa using (congrArg List.length heq).symm
      obtain ⟨rfl, rfl⟩ : y = b ∧ z = base64Pad := by simpa using heq
      exact .inr ⟨rfl, .inl (hbody y (by simp))⟩
    | b :: b' :: body, pads =>
      obtain ⟨rfl, rfl, -⟩ : y = b ∧ z = b' ∧ _ := by simpa using heq
      exact .inl ⟨hbody y (by simp), hbody z (by simp)⟩
  · rintro (⟨hy, hz⟩ | ⟨rfl, hy | rfl⟩)
    · exact ⟨[y, z], 0, rfl, Nat.zero_le 2, by simp [hy, hz]⟩
    · exact ⟨[y], 1, rfl, Nat.le_succ 1, by simp [hy]⟩
    · exact ⟨[], 2, rfl, le_rfl, by simp⟩

/-- A text of at least one quartet. -/
theorem padded_quartet_iff {w x y z : UInt8} {rest : List UInt8} (hrest : rest.length % 4 = 0) :
    Padded (w :: x :: y :: z :: rest) ↔
      (decodeQuartet rest.isEmpty w x y z).isSome ∧ Padded rest := by
  rw [decodeQuartet_isSome_iff, padded_cons_iff (by simp), padded_cons_iff (by simp)]
  cases rest with
  | nil =>
    rw [padded_pair_iff]
    simp [padded_nil]
  | cons b rest =>
    have hlength : 2 ≤ (b :: rest).length := by
      rw [List.length_cons] at hrest ⊢
      omega
    rw [padded_cons_iff (by simp), padded_cons_iff hlength]
    simp [and_assoc]

/-- The loop gets through exactly the padded texts. -/
theorem decodeQuartets_isSome_iff (out s : List UInt8) (hs : s.length % 4 = 0) :
    (decodeQuartets out s).isSome ↔ Padded s := by
  induction out, s using decodeQuartets.induct with
  | case1 out w x y z rest bytes hbytes ih =>
    have hrest : rest.length % 4 = 0 := by
      simp only [List.length_cons] at hs
      omega
    rw [decodeQuartets, hbytes, padded_quartet_iff hrest, hbytes, ← ih hrest]
    simp
  | case2 out w x y z rest hnone =>
    have hrest : rest.length % 4 = 0 := by
      simp only [List.length_cons] at hs
      omega
    rw [decodeQuartets, hnone, padded_quartet_iff hrest, hnone]
    simp
  | case3 s out hshort =>
    match s, hs, hshort with
    | [], _, _ => simp [decodeQuartets, padded_nil]
    | [_], hs, _ | [_, _], hs, _ | [_, _, _], hs, _ => cases hs
    | w :: x :: y :: z :: rest, _, hshort => exact (hshort w x y z rest rfl).elim

/-! ## Bits -/

/-- Two values side by side in a byte. -/
theorem shiftLeft_or_eq {x y k : UInt8} {m n : ℕ} (hx : x.toNat = m) (hy : y.toNat = n)
    (hk : k.toNat < 8) (hm : m * 2 ^ k.toNat < 2 ^ 8) (hn : n < 2 ^ k.toNat) :
    x <<< k ||| y = UInt8.ofNat (m * 2 ^ k.toNat + n) := by
  have hor : (x <<< k ||| y).toNat = m * 2 ^ k.toNat + n := by
    rw [UInt8.toNat_or, UInt8.toNat_shiftLeft, Nat.mod_eq_of_lt hk, Nat.shiftLeft_eq, hx, hy,
      Nat.mod_eq_of_lt hm, Nat.mul_comm, Nat.two_pow_add_eq_or_of_lt hn]
  rw [← hor, UInt8.ofNat_toNat]

section Sextets

variable {v₀ v₁ v₂ v₃ : ℕ}

theorem toNat_sextet (h : v₀ < 64) : (UInt8.ofNat v₀).toNat = v₀ :=
  UInt8.toNat_ofNat_of_lt' (h.trans (by decide))

/-- A six-bit value is neither of the values for padding and the rest. -/
theorem sextet_ne (h : v₀ < 64) : UInt8.ofNat v₀ ≠ tableInvalid ∧ UInt8.ofNat v₀ ≠ tablePad := by
  refine ⟨fun heq => ?_, fun heq => ?_⟩
  · have hnat : v₀ = 255 := (toNat_sextet h).symm.trans (congrArg UInt8.toNat heq)
    omega
  · have hnat : v₀ = 254 := (toNat_sextet h).symm.trans (congrArg UInt8.toNat heq)
    omega

theorem toNat_sextet_shiftRight (h : v₀ < 64) (k : ℕ) (hk : k < 8) :
    (UInt8.ofNat v₀ >>> UInt8.ofNat k).toNat = v₀ / 2 ^ k := by
  rw [UInt8.toNat_shiftRight, toNat_sextet h, UInt8.toNat_ofNat_of_lt' (hk.trans (by decide)),
    Nat.mod_eq_of_lt hk, Nat.shiftRight_eq_div_pow]

theorem toNat_sextet_and (h : v₀ < 64) (k : ℕ) (hk : k < 8) :
    (UInt8.ofNat v₀ &&& UInt8.ofNat (2 ^ k - 1)).toNat = v₀ % 2 ^ k := by
  have hpow : 2 ^ k ≤ 2 ^ 7 := Nat.pow_le_pow_right (by decide) (by omega)
  have hlt : 2 ^ k - 1 < UInt8.size := by
    rw [UInt8.size]
    omega
  rw [UInt8.toNat_and, toNat_sextet h, UInt8.toNat_ofNat_of_lt' hlt, Nat.and_two_pow_sub_one_eq_mod]

theorem firstByte_eq (h₀ : v₀ < 64) (h₁ : v₁ < 64) :
    UInt8.ofNat v₀ <<< 2 ||| UInt8.ofNat v₁ >>> 4 = UInt8.ofNat (v₀ * 4 + v₁ / 16) :=
  shiftLeft_or_eq (toNat_sextet h₀) (toNat_sextet_shiftRight h₁ 4 (by decide)) (by decide)
    (show v₀ * 4 < 256 by omega) (show v₁ / 16 < 4 by omega)

theorem secondByte_eq (h₁ : v₁ < 64) (h₂ : v₂ < 64) :
    (UInt8.ofNat v₁ &&& 15) <<< 4 ||| UInt8.ofNat v₂ >>> 2 =
      UInt8.ofNat (v₁ % 16 * 16 + v₂ / 4) :=
  shiftLeft_or_eq (toNat_sextet_and h₁ 4 (by decide)) (toNat_sextet_shiftRight h₂ 2 (by decide)) (by decide)
    (show v₁ % 16 * 16 < 256 by omega) (show v₂ / 4 < 16 by omega)

theorem thirdByte_eq (h₂ : v₂ < 64) (h₃ : v₃ < 64) :
    (UInt8.ofNat v₂ &&& 3) <<< 6 ||| UInt8.ofNat v₃ = UInt8.ofNat (v₂ % 4 * 64 + v₃) :=
  shiftLeft_or_eq (toNat_sextet_and h₂ 2 (by decide)) (toNat_sextet h₃) (by decide)
    (show v₂ % 4 * 64 < 256 by omega) (show v₃ < 64 from h₃)

/-- A whole quartet, … -/
theorem decodeQuartet_sextets (last : Bool) (h₀ : v₀ < 64) (h₁ : v₁ < 64) (h₂ : v₂ < 64)
    (h₃ : v₃ < 64) :
    decodeQuartet last (sextetChar v₀) (sextetChar v₁) (sextetChar v₂) (sextetChar v₃) =
      some [UInt8.ofNat (v₀ * 4 + v₁ / 16), UInt8.ofNat (v₁ % 16 * 16 + v₂ / 4),
        UInt8.ofNat (v₂ % 4 * 64 + v₃)] := by
  simp [decodeQuartet, table_sextetChar, h₀, h₁, h₂, h₃, sextet_ne, firstByte_eq, secondByte_eq,
    thirdByte_eq]

/-- … one with a padding character … -/
theorem decodeQuartet_pad (h₀ : v₀ < 64) (h₁ : v₁ < 64) (h₂ : v₂ < 64) :
    decodeQuartet true (sextetChar v₀) (sextetChar v₁) (sextetChar v₂) base64Pad =
      some [UInt8.ofNat (v₀ * 4 + v₁ / 16), UInt8.ofNat (v₁ % 16 * 16 + v₂ / 4)] := by
  have hpad : base64Table base64Pad = tablePad := (table_eq_tablePad_iff base64Pad).mpr rfl
  have hne : tablePad ≠ tableInvalid := by decide
  simp [decodeQuartet, table_sextetChar, h₀, h₁, h₂, sextet_ne, firstByte_eq, secondByte_eq, hpad,
    hne]

/-- … and one with two. -/
theorem decodeQuartet_pads (h₀ : v₀ < 64) (h₁ : v₁ < 64) :
    decodeQuartet true (sextetChar v₀) (sextetChar v₁) base64Pad base64Pad =
      some [UInt8.ofNat (v₀ * 4 + v₁ / 16)] := by
  have hpad : base64Table base64Pad = tablePad := (table_eq_tablePad_iff base64Pad).mpr rfl
  have hne : tablePad ≠ tableInvalid := by decide
  simp [decodeQuartet, table_sextetChar, h₀, h₁, sextet_ne, firstByte_eq, hpad, hne]

end Sextets

/-! ## Round trip -/

theorem length_base64Encode (b : List UInt8) : (base64Encode b).length % 4 = 0 := by
  induction b using base64Encode.induct with
  | case1 => simp [base64Encode]
  | case2 => simp [base64Encode]
  | case3 => simp [base64Encode]
  | case4 p q r rest ih =>
    rw [base64Encode]
    simp only [List.length_cons]
    omega

theorem ofNat_eq_of_toNat {p : UInt8} {n : ℕ} (h : n = p.toNat) : UInt8.ofNat n = p := by
  rw [h, UInt8.ofNat_toNat]

/-- The loop puts the bytes of the groups back together. -/
theorem decodeQuartets_encode (out b : List UInt8) :
    decodeQuartets out (base64Encode b) = some (out ++ b) := by
  induction b using base64Encode.induct generalizing out with
  | case1 => simp [base64Encode, decodeQuartets]
  | case2 p =>
    have hp := p.toNat_lt
    rw [base64Encode, decodeQuartets, List.isEmpty_nil, decodeQuartet_pads (by omega) (by omega),
      @ofNat_eq_of_toNat p _ (by omega)]
    simp [decodeQuartets]
  | case3 p q =>
    have hp := p.toNat_lt
    have hq := q.toNat_lt
    rw [base64Encode, decodeQuartets, List.isEmpty_nil,
      decodeQuartet_pad (by omega) (by omega) (by omega),
      @ofNat_eq_of_toNat p _ (by omega), @ofNat_eq_of_toNat q _ (by omega)]
    simp [decodeQuartets]
  | case4 p q r rest ih =>
    have hp := p.toNat_lt
    have hq := q.toNat_lt
    have hr := r.toNat_lt
    rw [base64Encode, decodeQuartets,
      decodeQuartet_sextets _ (by omega) (by omega) (by omega) (by omega),
      @ofNat_eq_of_toNat p _ (by omega), @ofNat_eq_of_toNat q _ (by omega),
      @ofNat_eq_of_toNat r _ (by omega)]
    dsimp only
    rw [ih]
    simp

/-- **Base64.** Decoding undoes the encoding of any bytes, and a text is accepted exactly if it is
of whole quartets and consists of characters of the alphabet with at most two padding characters
behind them. -/
theorem base64_roundTrip_and_accepts :
    (∀ b, base64Decode (base64Encode b) = some b) ∧
      ∀ s, (base64Decode s).isSome ↔ s.length % 4 = 0 ∧ Padded s := by
  constructor
  · intro b
    rw [base64Decode, if_neg (not_not.mpr (length_base64Encode b)), decodeQuartets_encode,
      List.nil_append]
  · intro s
    rw [base64Decode]
    split
    · next hlength => simp [hlength]
    · next hlength =>
      have hlength : s.length % 4 = 0 := not_not.mp hlength
      rw [decodeQuartets_isSome_iff [] s hlength]
      exact ⟨fun h => ⟨hlength, h⟩, And.right⟩

end Ranvier
