import Mathlib.Data.List.Basic

/-!
# Validation of tokenizer input

`is_valid_utf8` walks over the bytes lead byte by lead byte. What it must accept is
what an encoder produces: `utf8Octets cs` is the encoding of a list of scalar values
(`Char` is the type of these), and `isValidUtf8_iff` says that the accepted byte
strings are exactly the encodings.

The bit masks of the source become ranges of byte values first (`lead2_iff` and the
like); each branch of the loop is then compared with one row of the encoder's table.
-/

namespace Ranvier

/-- `TextValidator::is_valid_utf8`. A pattern that asks for fewer bytes than the
sequence has is the test `end - bytes < n`. -/
def isValidUtf8 : List UInt8 → Bool
  | [] => true
  | b₀ :: bytes =>
    if b₀ ≤ 0x7F then isValidUtf8 bytes
    else if b₀ &&& 0xE0 = 0xC0 then
      match bytes with
      | b₁ :: bytes =>
        if b₁ &&& 0xC0 ≠ 0x80 then false
        else if b₀ &&& 0x1E = 0 then false
        else isValidUtf8 bytes
      | [] => false
    else if b₀ &&& 0xF0 = 0xE0 then
      match bytes with
      | b₁ :: b₂ :: bytes =>
        if b₁ &&& 0xC0 ≠ 0x80 then false
        else if b₂ &&& 0xC0 ≠ 0x80 then false
        else if b₀ = 0xE0 ∧ b₁ &&& 0x20 = 0 then false
        else if b₀ = 0xED ∧ b₁ &&& 0x20 ≠ 0 then false
        else isValidUtf8 bytes
      | _ => false
    else if b₀ &&& 0xF8 = 0xF0 then
      match bytes with
      | b₁ :: b₂ :: b₃ :: bytes =>
        if b₁ &&& 0xC0 ≠ 0x80 then false
        else if b₂ &&& 0xC0 ≠ 0x80 then false
        else if b₃ &&& 0xC0 ≠ 0x80 then false
        else if b₀ = 0xF0 ∧ b₁ &&& 0x30 = 0 then false
        else if 0xF4 < b₀ then false
        else if b₀ = 0xF4 ∧ 0x8F < b₁ then false
        else isValidUtf8 bytes
      | _ => false
    else false

/-- The UTF-8 encoding of a sequence of scalar values. -/
def utf8Octets (cs : List Char) : List UInt8 := cs.flatMap String.utf8EncodeChar

/-! ## Masks as ranges -/

/-- A decidable fact about bytes, checked value by value. -/
theorem byte_ind {p : UInt8 → Prop} (h : ∀ n, n < 256 → p (UInt8.ofNat n)) (b : UInt8) : p b := by
  have := h b.toNat b.toNat_lt
  rwa [UInt8.ofNat_toNat] at this

theorem ascii_iff (b : UInt8) : b ≤ 0x7F ↔ b.toNat < 0x80 := by
  rw [UInt8.le_iff_toNat_le]
  exact Nat.lt_succ_iff.symm

/-- What each mask of the loop says of a byte. The last three are read of bytes that
passed the check of their class. -/
theorem masks_iff (b : UInt8) :
    (b &&& 0xE0 = 0xC0 ↔ 0xC0 ≤ b.toNat ∧ b.toNat < 0xE0) ∧
      (b &&& 0xF0 = 0xE0 ↔ 0xE0 ≤ b.toNat ∧ b.toNat < 0xF0) ∧
      (b &&& 0xF8 = 0xF0 ↔ 0xF0 ≤ b.toNat ∧ b.toNat < 0xF8) ∧
      (b &&& 0xC0 = 0x80 ↔ 0x80 ≤ b.toNat ∧ b.toNat < 0xC0) ∧
      (0xC0 ≤ b.toNat ∧ b.toNat < 0xE0 → (b &&& 0x1E = 0 ↔ b.toNat < 0xC2)) ∧
      (0x80 ≤ b.toNat ∧ b.toNat < 0xC0 → (b &&& 0x20 = 0 ↔ b.toNat < 0xA0)) ∧
      (0x80 ≤ b.toNat ∧ b.toNat < 0xC0 → (b &&& 0x30 = 0 ↔ b.toNat < 0x90)) := by
  revert b
  exact byte_ind (by decide +kernel)

theorem lead2_iff (b : UInt8) : b &&& 0xE0 = 0xC0 ↔ 0xC0 ≤ b.toNat ∧ b.toNat < 0xE0 :=
  (masks_iff b).1

theorem lead3_iff (b : UInt8) : b &&& 0xF0 = 0xE0 ↔ 0xE0 ≤ b.toNat ∧ b.toNat < 0xF0 :=
  (masks_iff b).2.1

theorem lead4_iff (b : UInt8) : b &&& 0xF8 = 0xF0 ↔ 0xF0 ≤ b.toNat ∧ b.toNat < 0xF8 :=
  (masks_iff b).2.2.1

theorem tail_iff (b : UInt8) : b &&& 0xC0 = 0x80 ↔ 0x80 ≤ b.toNat ∧ b.toNat < 0xC0 :=
  (masks_iff b).2.2.2.1

theorem overlong2_iff (b : UInt8) (hb : 0xC0 ≤ b.toNat ∧ b.toNat < 0xE0) :
    b &&& 0x1E = 0 ↔ b.toNat < 0xC2 :=
  (masks_iff b).2.2.2.2.1 hb

theorem tail_bit5_iff (b : UInt8) (hb : 0x80 ≤ b.toNat ∧ b.toNat < 0xC0) :
    b &&& 0x20 = 0 ↔ b.toNat < 0xA0 :=
  (masks_iff b).2.2.2.2.2.1 hb

theorem tail_bits45_iff (b : UInt8) (hb : 0x80 ≤ b.toNat ∧ b.toNat < 0xC0) :
    b &&& 0x30 = 0 ↔ b.toNat < 0x90 :=
  (masks_iff b).2.2.2.2.2.2 hb

/-! ## The branches of the loop -/

section Branches

variable {b₀ b₁ b₂ b₃ : UInt8} {bytes : List UInt8}

theorem isValidUtf8_one (h₀ : b₀.toNat < 0x80) :
    isValidUtf8 (b₀ :: bytes) = isValidUtf8 bytes := by
  rw [isValidUtf8.eq_def]
  exact if_pos ((ascii_iff b₀).mpr h₀)

theorem isValidUtf8_two (h₀ : 0xC0 ≤ b₀.toNat ∧ b₀.toNat < 0xE0) :
    isValidUtf8 (b₀ :: b₁ :: bytes) = true ↔
      (0x80 ≤ b₁.toNat ∧ b₁.toNat < 0xC0) ∧ 0xC2 ≤ b₀.toNat ∧ isValidUtf8 bytes = true := by
  rw [isValidUtf8, if_neg (by rw [ascii_iff]; omega), if_pos ((lead2_iff b₀).mpr h₀)]
  simp only [ne_eq, ite_not, tail_iff, overlong2_iff b₀ h₀]
  split_ifs with h₁ h₂
  · simp only [false_iff]
    omega
  · simp [h₁, Nat.not_lt.mp h₂]
  · simp [h₁]

theorem isValidUtf8_three (h₀ : 0xE0 ≤ b₀.toNat ∧ b₀.toNat < 0xF0) :
    isValidUtf8 (b₀ :: b₁ :: b₂ :: bytes) = true ↔
      (0x80 ≤ b₁.toNat ∧ b₁.toNat < 0xC0) ∧ (0x80 ≤ b₂.toNat ∧ b₂.toNat < 0xC0) ∧
        (b₀.toNat = 0xE0 → 0xA0 ≤ b₁.toNat) ∧ (b₀.toNat = 0xED → b₁.toNat < 0xA0) ∧
        isValidUtf8 bytes = true := by
  have he0 : b₀ = 0xE0 ↔ b₀.toNat = 0xE0 := UInt8.toNat_inj.symm
  have hed : b₀ = 0xED ↔ b₀.toNat = 0xED := UInt8.toNat_inj.symm
  rw [isValidUtf8, if_neg (by rw [ascii_iff]; omega), if_neg (by rw [lead2_iff]; omega),
    if_pos ((lead3_iff b₀).mpr h₀)]
  simp only [ne_eq, ite_not, tail_iff, he0, hed]
  split_ifs with h₁ h₂ h₃ h₄
  · rw [tail_bit5_iff b₁ h₁] at h₃
    simp only [false_iff]
    omega
  · rw [tail_bit5_iff b₁ h₁] at h₄
    simp only [false_iff]
    omega
  · rw [tail_bit5_iff b₁ h₁] at h₃ h₄
    have hmin : b₀.toNat = 0xE0 → 0xA0 ≤ b₁.toNat := by omega
    have hmax : b₀.toNat = 0xED → b₁.toNat < 0xA0 := by omega
    exact ⟨fun h => ⟨h₁, h₂, hmin, hmax, h⟩, fun h => h.2.2.2.2⟩
  · simp [h₂]
  · simp [h₁]

theorem isValidUtf8_four (h₀ : 0xF0 ≤ b₀.toNat ∧ b₀.toNat < 0xF8) :
    isValidUtf8 (b₀ :: b₁ :: b₂ :: b₃ :: bytes) = true ↔
      (0x80 ≤ b₁.toNat ∧ b₁.toNat < 0xC0) ∧ (0x80 ≤ b₂.toNat ∧ b₂.toNat < 0xC0) ∧
        (0x80 ≤ b₃.toNat ∧ b₃.toNat < 0xC0) ∧ (b₀.toNat = 0xF0 → 0x90 ≤ b₁.toNat) ∧
        b₀.toNat ≤ 0xF4 ∧ (b₀.toNat = 0xF4 → b₁.toNat < 0x90) ∧ isValidUtf8 bytes = true := by
  have hf0 : b₀ = 0xF0 ↔ b₀.toNat = 0xF0 := UInt8.toNat_inj.symm
  have hf4 : b₀ = 0xF4 ↔ b₀.toNat = 0xF4 := UInt8.toNat_inj.symm
  have hlead : 0xF4 < b₀ ↔ 0xF4 < b₀.toNat := UInt8.lt_iff_toNat_lt
  have hsecond : 0x8F < b₁ ↔ 0x8F < b₁.toNat := UInt8.lt_iff_toNat_lt
  rw [isValidUtf8, if_neg (by rw [ascii_iff]; omega), if_neg (by rw [lead2_iff]; omega),
    if_neg (by rw [lead3_iff]; omega), if_pos ((lead4_iff b₀).mpr h₀)]
  simp only [ne_eq, ite_not, tail_iff, hf0, hf4, hlead, hsecond]
  split_ifs with h₁ h₂ h₃ h₄ h₅ h₆
  · rw [tail_bits45_iff b₁ h₁] at h₄
    simp only [false_iff]
    omega
  · simp only [false_iff]
    omega
  · simp only [false_iff]
    omega
  · rw [tail_bits45_iff b₁ h₁] at h₄
    have hmin : b₀.toNat = 0xF0 → 0x90 ≤ b₁.toNat := by omega
    have hlead : b₀.toNat ≤ 0xF4 := by omega
    have hmax : b₀.toNat = 0xF4 → b₁.toNat < 0x90 := by omega
    exact ⟨fun h => ⟨h₁, h₂, h₃, hmin, hlead, hmax, h⟩, fun h => h.2.2.2.2.2.2⟩
  · simp [h₃]
  · simp [h₂]
  · simp [h₁]

/-- A lead byte announces two, three or four bytes; a shorter rest is refused. -/
theorem isValidUtf8_truncated (h₀ : 0x80 ≤ b₀.toNat) (hlen : bytes = [] ∨
    0xE0 ≤ b₀.toNat ∧ bytes.length < 2 ∨ 0xF0 ≤ b₀.toNat ∧ bytes.length < 3) :
    isValidUtf8 (b₀ :: bytes) = false := by
  rw [isValidUtf8.eq_def]
  dsimp only
  rw [if_neg (by rw [ascii_iff]; omega)]
  -- what is left of the branches is `false` in each of them
  rcases bytes with _ | ⟨b₁, _ | ⟨b₂, _ | ⟨b₃, bytes⟩⟩⟩
  · simp only [ite_self]
  · simp only [reduceCtorEq, false_or] at hlen
    rw [if_neg (by rw [lead2_iff]; omega)]
    simp only [ite_self]
  · simp only [reduceCtorEq, List.length_cons, List.length_nil, false_or] at hlen
    rw [if_neg (by rw [lead2_iff]; omega), if_neg (by rw [lead3_iff]; omega)]
    simp only [ite_self]
  · simp only [reduceCtorEq, List.length_cons, false_or] at hlen
    omega

/-- No sequence starts with a continuation byte or above `0xF7`. -/
theorem isValidUtf8_noLead (h₀ : 0x80 ≤ b₀.toNat ∧ b₀.toNat < 0xC0 ∨ 0xF8 ≤ b₀.toNat) :
    isValidUtf8 (b₀ :: bytes) = false := by
  rw [isValidUtf8.eq_def]
  dsimp only
  rw [if_neg (by rw [ascii_iff]; omega), if_neg (by rw [lead2_iff]; omega),
    if_neg (by rw [lead3_iff]; omega), if_neg (by rw [lead4_iff]; omega)]

end Branches

/-! ## The rows of the encoder -/

section Rows

variable {c : Char}

theorem utf8EncodeChar_one (h : c.val.toNat < 0x80) :
    String.utf8EncodeChar c = [UInt8.ofNat c.val.toNat] :=
  if_pos (Nat.lt_succ_iff.mp h)

theorem utf8EncodeChar_two (h : 0x80 ≤ c.val.toNat ∧ c.val.toNat < 0x800) :
    String.utf8EncodeChar c =
      [UInt8.ofNat (c.val.toNat / 64 % 0x20 + 0xC0), UInt8.ofNat (c.val.toNat % 0x40 + 0x80)] := by
  simp only [String.utf8EncodeChar]
  rw [if_neg (by omega), if_pos (by omega)]

theorem utf8EncodeChar_three (h : 0x800 ≤ c.val.toNat ∧ c.val.toNat < 0x10000) :
    String.utf8EncodeChar c =
      [UInt8.ofNat (c.val.toNat / 4096 % 0x10 + 0xE0),
        UInt8.ofNat (c.val.toNat / 64 % 0x40 + 0x80),
        UInt8.ofNat (c.val.toNat % 0x40 + 0x80)] := by
  simp only [String.utf8EncodeChar]
  rw [if_neg (by omega), if_neg (by omega), if_pos (by omega)]

theorem utf8EncodeChar_four (h : 0x10000 ≤ c.val.toNat) :
    String.utf8EncodeChar c =
      [UInt8.ofNat (c.val.toNat / 262144 % 0x08 + 0xF0),
        UInt8.ofNat (c.val.toNat / 4096 % 0x40 + 0x80),
        UInt8.ofNat (c.val.toNat / 64 % 0x40 + 0x80),
        UInt8.ofNat (c.val.toNat % 0x40 + 0x80)] := by
  simp only [String.utf8EncodeChar]
  rw [if_neg (by omega), if_neg (by omega), if_neg (by omega)]

/-- A scalar value: no surrogate, nothing above `U+10FFFF`. -/
theorem scalar (c : Char) : c.val.toNat < 0xD800 ∨ 0xDFFF < c.val.toNat ∧ c.val.toNat < 0x110000 :=
  c.valid

theorem toNat_ofNat_of_lt {n : ℕ} (h : n < 256) : (UInt8.ofNat n).toNat = n :=
  UInt8.toNat_ofNat_of_lt' h

/-- The loop passes over one encoded scalar value. -/
theorem isValidUtf8_encodeChar (c : Char) (bytes : List UInt8) :
    isValidUtf8 (String.utf8EncodeChar c ++ bytes) = true ↔ isValidUtf8 bytes = true := by
  have hc := scalar c
  generalize hv : c.val.toNat = v at hc
  rcases Nat.lt_or_ge v 0x80 with h1 | h1
  · rw [utf8EncodeChar_one (by omega), List.singleton_append, isValidUtf8_one]
    rw [toNat_ofNat_of_lt] <;> omega
  rcases Nat.lt_or_ge v 0x800 with h2 | h2
  · rw [utf8EncodeChar_two (by omega), List.cons_append, List.singleton_append, hv,
      isValidUtf8_two, toNat_ofNat_of_lt, toNat_ofNat_of_lt]
    · exact ⟨fun h => h.2.2, fun h => ⟨by omega, by omega, h⟩⟩
    · omega
    · omega
    · rw [toNat_ofNat_of_lt] <;> omega
  rcases Nat.lt_or_ge v 0x10000 with h3 | h3
  · rw [utf8EncodeChar_three (by omega), List.cons_append, List.cons_append,
      List.singleton_append, hv, isValidUtf8_three, toNat_ofNat_of_lt, toNat_ofNat_of_lt,
      toNat_ofNat_of_lt]
    · exact ⟨fun h => h.2.2.2.2, fun h => ⟨by omega, by omega, by omega, by omega, h⟩⟩
    · omega
    · omega
    · omega
    · rw [toNat_ofNat_of_lt] <;> omega
  · rw [utf8EncodeChar_four (by omega), List.cons_append, List.cons_append, List.cons_append,
      List.singleton_append, hv, isValidUtf8_four, toNat_ofNat_of_lt, toNat_ofNat_of_lt,
      toNat_ofNat_of_lt, toNat_ofNat_of_lt]
    · exact ⟨fun h => h.2.2.2.2.2.2,
        fun h => ⟨by omega, by omega, by omega, by omega, by omega, by omega, h⟩⟩
    · omega
    · omega
    · omega
    · omega
    · rw [toNat_ofNat_of_lt] <;> omega

theorem exists_char {v : ℕ} (h : v < 0xD800 ∨ 0xDFFF < v ∧ v < 0x110000) :
    ∃ c : Char, c.val.toNat = v :=
  ⟨Char.ofNatAux v h, rfl⟩

theorem ofNat_eq {n : ℕ} {b : UInt8} (h : n = b.toNat) : UInt8.ofNat n = b := by
  rw [h, UInt8.ofNat_toNat]

/-- What the loop accepts starts with an encoded scalar value. -/
theorem isValidUtf8_first {b₀ : UInt8} {bytes : List UInt8} (h : isValidUtf8 (b₀ :: bytes) = true) :
    ∃ c rest, b₀ :: bytes = String.utf8EncodeChar c ++ rest ∧ isValidUtf8 rest = true := by
  rcases Nat.lt_or_ge b₀.toNat 0x80 with h1 | h1
  · obtain ⟨c, hc⟩ := exists_char (v := b₀.toNat) (by omega)
    refine ⟨c, bytes, ?_, by rwa [isValidUtf8_one h1] at h⟩
    rw [utf8EncodeChar_one (by omega), ofNat_eq hc]
    rfl
  rcases Nat.lt_or_ge b₀.toNat 0xC0 with h2 | h2
  · rw [isValidUtf8_noLead (Or.inl ⟨h1, h2⟩)] at h
    cases h
  rcases bytes with _ | ⟨b₁, bytes⟩
  · rw [isValidUtf8_truncated h1 (Or.inl rfl)] at h
    cases h
  rcases Nat.lt_or_ge b₀.toNat 0xE0 with h3 | h3
  · obtain ⟨ht₁, hmin, hrest⟩ := (isValidUtf8_two ⟨h2, h3⟩).mp h
    obtain ⟨c, hc⟩ := exists_char
      (v := (b₀.toNat - 0xC0) * 64 + (b₁.toNat - 0x80)) (by omega)
    refine ⟨c, bytes, ?_, hrest⟩
    rw [utf8EncodeChar_two (by omega), hc]
    rw [@ofNat_eq _ b₀ (by omega), @ofNat_eq _ b₁ (by omega)]
    rfl
  rcases bytes with _ | ⟨b₂, bytes⟩
  · rw [isValidUtf8_truncated h1 (Or.inr (Or.inl ⟨h3, by simp⟩))] at h
    cases h
  rcases Nat.lt_or_ge b₀.toNat 0xF0 with h4 | h4
  · obtain ⟨ht₁, ht₂, hmin, hmax, hrest⟩ := (isValidUtf8_three ⟨h3, h4⟩).mp h
    obtain ⟨c, hc⟩ := exists_char
      (v := (b₀.toNat - 0xE0) * 4096 + (b₁.toNat - 0x80) * 64 + (b₂.toNat - 0x80)) (by omega)
    refine ⟨c, bytes, ?_, hrest⟩
    rw [utf8EncodeChar_three (by omega), hc]
    rw [@ofNat_eq _ b₀ (by omega), @ofNat_eq _ b₁ (by omega), @ofNat_eq _ b₂ (by omega)]
    rfl
  rcases Nat.lt_or_ge b₀.toNat 0xF8 with h5 | h5
  · rcases bytes with _ | ⟨b₃, bytes⟩
    · rw [isValidUtf8_truncated h1 (Or.inr (Or.inr ⟨h4, by simp⟩))] at h
      cases h
    obtain ⟨ht₁, ht₂, ht₃, hmin, hlead, hmax, hrest⟩ := (isValidUtf8_four ⟨h4, h5⟩).mp h
    obtain ⟨c, hc⟩ := exists_char
      (v := (b₀.toNat - 0xF0) * 262144 + (b₁.toNat - 0x80) * 4096 + (b₂.toNat - 0x80) * 64 +
        (b₃.toNat - 0x80)) (by omega)
    refine ⟨c, bytes, ?_, hrest⟩
    rw [utf8EncodeChar_four (by omega), hc]
    rw [@ofNat_eq _ b₀ (by omega), @ofNat_eq _ b₁ (by omega), @ofNat_eq _ b₂ (by omega),
      @ofNat_eq _ b₃ (by omega)]
    rfl
  · rw [isValidUtf8_noLead (Or.inr h5)] at h
    cases h

end Rows

/-! ## The accepted language -/

theorem utf8Octets_cons (c : Char) (cs : List Char) :
    utf8Octets (c :: cs) = String.utf8EncodeChar c ++ utf8Octets cs := rfl

theorem isValidUtf8_octets (cs : List Char) : isValidUtf8 (utf8Octets cs) = true := by
  induction cs with
  | nil => rfl
  | cons c cs ih => rwa [utf8Octets_cons, isValidUtf8_encodeChar]

theorem exists_octets {bytes : List UInt8} (h : isValidUtf8 bytes = true) :
    ∃ cs : List Char, bytes = utf8Octets cs := by
  -- each accepted sequence is longer than what follows it
  induction hn : bytes.length using Nat.strongRecOn generalizing bytes with
  | ind n ih =>
    rcases bytes with _ | ⟨b₀, bytes⟩
    · exact ⟨[], rfl⟩
    obtain ⟨c, rest, heq, hrest⟩ := isValidUtf8_first h
    have hlen := congrArg List.length heq
    have hpos := c.utf8Size_pos
    rw [List.length_append, String.length_utf8EncodeChar, hn] at hlen
    obtain ⟨cs, rfl⟩ := ih rest.length (by omega) hrest rfl
    exact ⟨c :: cs, heq⟩

/-- **UTF-8.** A byte string is accepted exactly when it is the encoding of a sequence
of Unicode scalar values. -/
theorem isValidUtf8_iff (bytes : List UInt8) :
    isValidUtf8 bytes = true ↔ ∃ cs : List Char, bytes = utf8Octets cs := by
  constructor
  · exact exists_octets
  · rintro ⟨cs, rfl⟩
    exact isValidUtf8_octets cs

/-! ## The check before the tokenizer -/

/-- `ValidationResult`; the error is empty if valid. -/
structure ValidationResult : Type where
  valid : Bool
  error : String
  deriving DecidableEq, Repr

/-- `validate_for_tokenizer`. A limit of zero is no limit. -/
def validateForTokenizer (text : List UInt8) (maxLength : ℕ) (skipUtf8 : Bool) :
    ValidationResult :=
  if 0 < maxLength ∧ maxLength < text.length then
    ⟨false, "Input exceeds maximum length (" ++ toString text.length ++ " > " ++
      toString maxLength ++ " bytes)"⟩
  else if 0 ∈ text then ⟨false, "Input contains null byte"⟩
  else if !skipUtf8 && !isValidUtf8 text then ⟨false, "Input contains invalid UTF-8"⟩
  else ⟨true, ""⟩

/-- What reaches the tokenizer. -/
theorem validateForTokenizer_valid_iff (text : List UInt8) (maxLength : ℕ) (skipUtf8 : Bool) :
    (validateForTokenizer text maxLength skipUtf8).valid = true ↔
      (maxLength = 0 ∨ text.length ≤ maxLength) ∧ 0 ∉ text ∧
        (skipUtf8 = true ∨ ∃ cs : List Char, text = utf8Octets cs) := by
  unfold validateForTokenizer
  split_ifs with h₁ h₂ h₃
  · simp only [false_iff]
    omega
  · simp [h₂]
  · rw [Bool.and_eq_true, Bool.not_eq_true', Bool.not_eq_true'] at h₃
    have hnot : ¬∃ cs : List Char, text = utf8Octets cs := by
      rintro ⟨cs, rfl⟩
      rw [isValidUtf8_octets] at h₃
      cases h₃.2
    simp [h₃.1, hnot]
  · have hlength : maxLength = 0 ∨ text.length ≤ maxLength := by omega
    refine ⟨fun _ => ⟨hlength, h₂, ?_⟩, fun _ => rfl⟩
    cases skipUtf8 with
    | true => exact Or.inl rfl
    | false =>
      refine Or.inr (exists_octets ?_)
      simpa using h₃

end Ranvier
