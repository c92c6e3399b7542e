import Mathlib.Tactic.FinCases
import Ranvier.KvDecoder
import Ranvier.MsgPack

/-!
# What the decoder accepts of MessagePack

A batch can be written in many ways: integers and lengths in any width, a block hash as
an integer or as bytes, events with tags of their own, further fields behind the known
ones. The decoder is to read the same events from all of them.

* `readHeader_int`, `readHeader_length` — a header reads back in every form;
* `skipNested_encoded` — unknown content is skipped as a whole, within the caps;
* `RepresentsBatch` — the values that stand for a batch, for given bounds;
* `decode_encoded` — within the decoder's bounds every encoding of such a value
  decodes to the events of the batch.
-/

namespace Ranvier

open KvMsgpack

/-! ## Numbers -/

/-- One turn of the big-endian loop. -/
theorem shift_or_byte (n : ℕ) (b : UInt8) :
    (UInt64.ofNat n <<< 8) ||| b.toUInt64 = UInt64.ofNat (n * 256 + b.toNat) := by
  refine UInt64.toNat_inj.mp ?_
  have hb : b.toNat < 2 ^ 8 := b.toNat_lt
  have hshift : (UInt64.ofNat n <<< 8).toNat = 2 ^ 8 * (n % 2 ^ 56) := by
    have height : UInt64.toNat 8 % 64 = 8 := rfl
    rw [UInt64.toNat_shiftLeft, UInt64.toNat_ofNat', height, Nat.shiftLeft_eq]
    omega
  rw [UInt64.toNat_or, hshift, UInt8.toNat_toUInt64, ← Nat.two_pow_add_eq_or_of_lt hb,
    UInt64.toNat_ofNat']
  omega

theorem foldl_shift_or (bytes : List UInt8) :
    bytes.foldl (fun (v : UInt64) b => (v <<< 8) ||| b.toUInt64) 0 =
      UInt64.ofNat (beValue bytes) := by
  induction bytes using List.reverseRecOn with
  | nil => rfl
  | append_singleton bytes b ih =>
    rw [List.foldl_append, ih, List.foldl_cons, List.foldl_nil, shift_or_byte,
      beValue_append_singleton]

theorem bigEndian_append {n : ℕ} {bytes : List UInt8} (h : bytes.length = n) (rest : Reader) :
    bigEndian n (bytes ++ rest) = some (UInt64.ofNat (beValue bytes), rest) := by
  subst h
  rw [bigEndian, if_neg (by simp), List.take_left, List.drop_left, foldl_shift_or]

theorem sized_beBytes {width n : ℕ} (h : n < 256 ^ width) (rest : Reader) (f : UInt64 → Header) :
    sized width (beBytes width n ++ rest) f = some (f (UInt64.ofNat n), rest) := by
  rw [sized, bigEndian_append (length_beBytes width n), beValue_beBytes h]
  rfl

/-! ## Headers -/

theorem readHeader_posFix {n : ℕ} (h : n < 128) (rest : Reader) :
    readHeader (UInt8.ofNat n :: rest) = some ({ kind := .INT, uval := UInt64.ofNat n }, rest) := by
  have hbyte : ∀ n : Fin 128, UInt8.ofNat n ≤ 0x7f ∧
      (UInt8.ofNat n).toUInt64 = UInt64.ofNat n := by
    decide
  obtain ⟨hle, hval⟩ := hbyte ⟨n, h⟩
  rw [readHeader, if_pos hle, hval]

theorem readHeader_negFix {n : ℕ} (h : n < 32) (rest : Reader) :
    readHeader ((0xff - UInt8.ofNat n) :: rest) =
      some ({ kind := .INT, uval := UInt64.ofInt (-(n + 1)), negative := true }, rest) := by
  have hbyte : ∀ n : Fin 32, ¬(0xff - UInt8.ofNat n ≤ 0x7f) ∧ 0xe0 ≤ 0xff - UInt8.ofNat n ∧
      (0xff - UInt8.ofNat n).toInt8.toInt64.toUInt64 = UInt64.ofInt (-(n + 1)) := by
    decide
  obtain ⟨hgt, hle, hval⟩ := hbyte ⟨n, h⟩
  rw [readHeader, if_neg hgt, if_pos hle, hval]

theorem ofInt_natCast (n : ℕ) : UInt64.ofInt n = UInt64.ofNat n := by
  refine UInt64.toNat_inj.mp ?_
  rw [UInt64.ofInt, UInt64.toNat_ofNat', UInt64.toNat_ofNat']
  omega

/-- A signed integer, once the cast is known to give it. -/
theorem signed_eq {ext : UInt64 → Int64} {v : UInt64} {z : ℤ} (h : (ext v).toInt = z) :
    signed ext v = { kind := .INT, uval := UInt64.ofInt z, negative := decide (z < 0) } := by
  have hbits : (ext v).toUInt64 = UInt64.ofInt z := by
    refine UInt64.toNat_inj.mp ?_
    have hint : (ext v).toInt = if 2 * (ext v).toUInt64.toNat < 2 ^ 64 then
        ((ext v).toUInt64.toNat : ℤ) else ((ext v).toUInt64.toNat : ℤ) - (2 ^ 64 : ℕ) :=
      BitVec.toInt_eq_toNat_cond (ext v).toBitVec
    have hlt := (ext v).toUInt64.toNat_lt
    rw [UInt64.ofInt, UInt64.toNat_ofNat']
    split_ifs at hint <;> omega
  have hneg : (ext v < 0) ↔ z < 0 := by
    rw [Int64.lt_iff_toInt_lt, h]
    rfl
  rw [signed, hbits, decide_eq_decide.mpr hneg]

/-- Two's complement in a narrower width, widened. -/
theorem toInt_widened {z : ℤ} {width bits : ℕ} {x : BitVec bits} (hbits : 2 ^ bits = 256 ^ width)
    (hx : x.toNat = (z % (256 ^ width : ℕ)).toNat) (hlow : -(256 ^ width : ℕ) ≤ 2 * z)
    (hhigh : 2 * z < (256 ^ width : ℕ)) : x.toInt = z := by
  rw [BitVec.toInt_eq_toNat_cond, hx, hbits]
  generalize 256 ^ width = m at *
  by_cases hz : 0 ≤ z
  · rw [Int.emod_eq_of_lt hz (by omega)]
    split_ifs <;> omega
  · have hmod : z % (m : ℤ) = z + m := by
      rw [← Int.add_emod_right, Int.emod_eq_of_lt (by omega) (by omega)]
    rw [hmod]
    split_ifs <;> omega

/-- **Integers** read back in every form. -/
theorem readHeader_int {z : ℤ} {bytes : List UInt8} (h : IntForm z bytes) (rest : Reader) :
    readHeader (bytes ++ rest) =
      some ({ kind := .INT, uval := UInt64.ofInt z, negative := decide (z < 0) }, rest) := by
  cases h with
  | @positive n h =>
    rw [List.singleton_append, readHeader_posFix h, ofInt_natCast, decide_eq_false (by omega)]
  | @negative n h =>
    rw [List.singleton_append, readHeader_negFix h, decide_eq_true (by omega)]
  | @unsigned n code width hcode h =>
    simp only [List.mem_cons, Prod.mk.injEq, List.not_mem_nil, or_false] at hcode
    have hread := fun w (hw : n < 256 ^ w) =>
      sized_beBytes hw rest fun v => { kind := .INT, uval := v }
    have hneg : decide ((n : ℤ) < 0) = false := by simp
    rw [hneg, ofInt_natCast]
    obtain ⟨rfl, rfl⟩ | ⟨rfl, rfl⟩ | ⟨rfl, rfl⟩ | ⟨rfl, rfl⟩ := hcode
    · exact hread 1 h
    · exact hread 2 h
    · exact hread 4 h
    · exact hread 8 h
  | @signed z code width hcode hlow hhigh =>
    have hlt : (z % (256 ^ width : ℕ)).toNat < 256 ^ width := by
      have hpos : 0 < 256 ^ width := Nat.pow_pos (by decide)
      have hmod := Int.emod_lt_of_pos z (Int.natCast_pos.mpr hpos)
      omega
    have hread := fun ext (hext : (ext (UInt64.ofNat (z % (256 ^ width : ℕ)).toNat)).toInt = z) =>
      (sized_beBytes hlt rest (signed ext)).trans (by rw [signed_eq hext])
    simp only [List.mem_cons, Prod.mk.injEq, List.not_mem_nil, or_false] at hcode
    obtain ⟨rfl, rfl⟩ | ⟨rfl, rfl⟩ | ⟨rfl, rfl⟩ | ⟨rfl, rfl⟩ := hcode
    · refine hread (fun v => v.toUInt8.toInt8.toInt64) ?_
      rw [Int8.toInt_toInt64]
      refine toInt_widened rfl ?_ hlow hhigh
      change (UInt64.toUInt8 _).toNat = _
      rw [UInt64.toNat_toUInt8, UInt64.toNat_ofNat']
      omega
    · refine hread (fun v => v.toUInt16.toInt16.toInt64) ?_
      rw [Int16.toInt_toInt64]
      refine toInt_widened rfl ?_ hlow hhigh
      change (UInt64.toUInt16 _).toNat = _
      rw [UInt64.toNat_toUInt16, UInt64.toNat_ofNat']
      omega
    · refine hread (fun v => v.toUInt32.toInt32.toInt64) ?_
      rw [Int32.toInt_toInt64]
      refine toInt_widened rfl ?_ hlow hhigh
      change (UInt64.toUInt32 _).toNat = _
      rw [UInt64.toNat_toUInt32, UInt64.toNat_ofNat']
      omega
    · refine hread UInt64.toInt64 (toInt_widened rfl ?_ hlow hhigh)
      change (UInt64.ofNat _).toNat = _
      rw [UInt64.toNat_ofNat']
      omega

/-- **Lengths** read back in every form, for a kind whose codes are known. -/
theorem readHeader_length {base : UInt8} {cap : ℕ} {codes : List (UInt8 × ℕ)} {kind : Kind}
    (hshort : ∀ n < cap, ∀ rest, readHeader ((base + UInt8.ofNat n) :: rest) =
      some ({ kind := kind, uval := UInt64.ofNat n }, rest))
    (hlong : ∀ p ∈ codes, ∀ rest, readHeader (p.1 :: rest) =
      sized p.2 rest fun v => { kind := kind, uval := v })
    {n : ℕ} {head : List UInt8} (h : LengthForm base cap codes n head) (rest : Reader) :
    readHeader (head ++ rest) = some ({ kind := kind, uval := UInt64.ofNat n }, rest) := by
  cases h with
  | short h => exact hshort n h rest
  | long hcode h => exact (hlong _ hcode _).trans (sized_beBytes h rest _)

theorem readHeader_str {n : ℕ} {head : List UInt8} (h : StrHead n head) (rest : Reader) :
    readHeader (head ++ rest) = some ({ kind := .STR, uval := UInt64.ofNat n }, rest) := by
  refine readHeader_length ?_ ?_ h rest
  · intro n hn rest
    have hbyte : ∀ n : Fin 32, let b := 0xa0 + UInt8.ofNat n
        ¬(b ≤ 0x7f) ∧ ¬(0xe0 ≤ b) ∧ (0xa0 ≤ b ∧ b ≤ 0xbf) ∧
          (b &&& 0x1f).toUInt64 = UInt64.ofNat n := by
      decide
    obtain ⟨h₁, h₂, h₃, hval⟩ := hbyte ⟨n, hn⟩
    rw [readHeader, if_neg h₁, if_neg h₂, if_pos h₃, hval]
  · intro p hp rest
    fin_cases hp <;> rfl

theorem readHeader_bin {n : ℕ} {head : List UInt8} (h : BinHead n head) (rest : Reader) :
    readHeader (head ++ rest) = some ({ kind := .BIN, uval := UInt64.ofNat n }, rest) := by
  refine readHeader_length ?_ ?_ h rest
  · intro n hn
    exact absurd hn (Nat.not_lt_zero n)
  · intro p hp rest
    fin_cases hp <;> rfl

theorem readHeader_arr {n : ℕ} {head : List UInt8} (h : ArrHead n head) (rest : Reader) :
    readHeader (head ++ rest) = some ({ kind := .ARR, uval := UInt64.ofNat n }, rest) := by
  refine readHeader_length ?_ ?_ h rest
  · intro n hn rest
    have hbyte : ∀ n : Fin 16, let b := 0x90 + UInt8.ofNat n
        ¬(b ≤ 0x7f) ∧ ¬(0xe0 ≤ b) ∧ ¬(0xa0 ≤ b ∧ b ≤ 0xbf) ∧ (0x90 ≤ b ∧ b ≤ 0x9f) ∧
          (b &&& 0x0f).toUInt64 = UInt64.ofNat n := by
      decide
    obtain ⟨h₁, h₂, h₃, h₄, hval⟩ := hbyte ⟨n, hn⟩
    rw [readHeader, if_neg h₁, if_neg h₂, if_neg h₃, if_pos h₄, hval]
  · intro p hp rest
    fin_cases hp <;> rfl

theorem readHeader_map {n : ℕ} {head : List UInt8} (h : MapHead n head) (rest : Reader) :
    readHeader (head ++ rest) = some ({ kind := .MAP, uval := UInt64.ofNat n }, rest) := by
  refine readHeader_length ?_ ?_ h rest
  · intro n hn rest
    have hbyte : ∀ n : Fin 16, let b := 0x80 + UInt8.ofNat n
        ¬(b ≤ 0x7f) ∧ ¬(0xe0 ≤ b) ∧ ¬(0xa0 ≤ b ∧ b ≤ 0xbf) ∧ ¬(0x90 ≤ b ∧ b ≤ 0x9f) ∧
          (0x80 ≤ b ∧ b ≤ 0x8f) ∧ (b &&& 0x0f).toUInt64 = UInt64.ofNat n := by
      decide
    obtain ⟨h₁, h₂, h₃, h₄, h₅, hval⟩ := hbyte ⟨n, hn⟩
    rw [readHeader, if_neg h₁, if_neg h₂, if_neg h₃, if_neg h₄, if_pos h₅, hval]
  · intro p hp rest
    fin_cases hp <;> rfl

theorem readHeader_float32 (bits : UInt32) (rest : Reader) :
    ∃ f, readHeader (0xca :: beBytes 4 bits.toNat ++ rest) =
      some ({ kind := .F64, fval := f }, rest) :=
  ⟨_, sized_beBytes (show bits.toNat < 256 ^ 4 from bits.toNat_lt) rest fun v =>
    { kind := .F64, fval := (Float32.ofBits v.toUInt32).toFloat }⟩

theorem readHeader_float64 (bits : UInt64) (rest : Reader) :
    ∃ f, readHeader (0xcb :: beBytes 8 bits.toNat ++ rest) =
      some ({ kind := .F64, fval := f }, rest) :=
  ⟨_, sized_beBytes (show bits.toNat < 256 ^ 8 from bits.toNat_lt) rest fun v =>
    { kind := .F64, fval := Float.ofBits v }⟩

/-- A length fits its 64 bits. -/
theorem LengthForm.toNat {base : UInt8} {cap : ℕ} {codes : List (UInt8 × ℕ)} {n : ℕ}
    {head : List UInt8} (h : LengthForm base cap codes n head) (hcap : cap ≤ 32)
    (hcodes : ∀ p ∈ codes, p.2 ≤ 4) : (UInt64.ofNat n).toNat = n := by
  rw [UInt64.toNat_ofNat']
  refine Nat.mod_eq_of_lt ?_
  cases h with
  | short h => omega
  | @long _ width hcode h =>
    have hle : 256 ^ width ≤ 256 ^ 4 := Nat.pow_le_pow_right (by decide) (hcodes _ hcode)
    omega

theorem StrHead.toNat {n : ℕ} {head : List UInt8} (h : StrHead n head) :
    (UInt64.ofNat n).toNat = n := LengthForm.toNat h (by decide) (by decide)

theorem BinHead.toNat {n : ℕ} {head : List UInt8} (h : BinHead n head) :
    (UInt64.ofNat n).toNat = n := LengthForm.toNat h (by decide) (by decide)

theorem ArrHead.toNat {n : ℕ} {head : List UInt8} (h : ArrHead n head) :
    (UInt64.ofNat n).toNat = n := LengthForm.toNat h (by decide) (by decide)

theorem MapHead.toNat {n : ℕ} {head : List UInt8} (h : MapHead n head) :
    (UInt64.ofNat n).toNat = n := LengthForm.toNat h (by decide) (by decide)

/-! ## Sequences -/

/-- Values one after another, each read as its own result. -/
theorem readMany_encoded {α : Type} {read : Reader → Option (α × Reader)} {vs : List MsgValue}
    {as : List α} {body : List UInt8}
    (hread : List.Forall₂ (fun a v => ∀ {bytes}, Encodes v bytes → ∀ rest,
      read (bytes ++ rest) = some (a, rest)) as vs)
    (hbody : EncodesAll vs body) (rest : Reader) :
    readMany read as.length (body ++ rest) = some (as, rest) := by
  induction hread generalizing body with
  | nil =>
    cases hbody
    rfl
  | @cons a v as vs hfirst _ ih =>
    cases hbody with
    | @cons _ _ bytes body hv hvs =>
      rw [List.append_assoc, List.length_cons, readMany, hfirst hv]
      simp only [Option.bind_eq_bind, Option.bind_some, ih hvs]
      rfl

theorem skipMany_encoded {skip : Reader → Option Reader} {vs : List MsgValue} {body : List UInt8}
    (hskip : ∀ v ∈ vs, ∀ {bytes}, Encodes v bytes → ∀ rest, skip (bytes ++ rest) = some rest)
    (hbody : EncodesAll vs body) (rest : Reader) :
    skipMany skip vs.length (body ++ rest) = some rest := by
  induction vs generalizing body with
  | nil =>
    cases hbody
    rfl
  | cons v vs ih =>
    cases hbody with
    | @cons _ _ bytes body hv hvs =>
      rw [List.append_assoc, List.length_cons, skipMany, hskip v List.mem_cons_self hv]
      exact ih (fun w hw => hskip w (List.mem_cons_of_mem _ hw)) hvs

/-- Keys and values in turn are skipped as one sequence. -/
theorem skipMany_pairs (skip : Reader → Option Reader) (n : ℕ) (r : Reader) :
    skipMany (fun r => skip r >>= skip) n r = skipMany skip (2 * n) r := by
  induction n generalizing r with
  | zero => rfl
  | succ n ih =>
    rw [Nat.mul_succ, skipMany, skipMany]
    cases skip r with
    | none => rfl
    | some r₁ =>
      change skip r₁ >>= skipMany _ n = skip r₁ >>= skipMany skip (2 * n)
      exact congrArg _ (funext ih)

/-! ## Skipping -/

/-- What the decoder skips with that many levels to go: no extension data, and arrays
and maps within their caps. -/
def Skippable : ℕ → MsgValue → Prop
  | 0, _ => False
  | levels + 1, .arr vs =>
    vs.length ≤ kvMaxEventsPerBatch + kvMaxHashesPerEvent ∧ ∀ v ∈ vs, Skippable levels v
  | levels + 1, .map entries =>
    entries.length ≤ 2 * kvMaxEventsPerBatch ∧ ∀ v ∈ entries, Skippable levels v
  | _ + 1, .ext _ _ => False
  | _ + 1, _ => True

/-- **Unknown content** is skipped as a whole, in every encoding. -/
theorem skipNested_encoded {levels : ℕ} {v : MsgValue} (hskip : Skippable levels v)
    {bytes : List UInt8} (henc : Encodes v bytes) (rest : Reader) :
    skipNested levels (bytes ++ rest) = some rest := by
  induction levels generalizing v bytes rest with
  | zero => cases hskip
  | succ levels ih =>
    rw [skipNested]
    cases henc with
    | nil => rfl
    | bool b => cases b <;> rfl
    | int h =>
      rw [readHeader_int h]
      rfl
    | float32 bits =>
      obtain ⟨f, hf⟩ := readHeader_float32 bits rest
      rw [hf]
      rfl
    | float64 bits =>
      obtain ⟨f, hf⟩ := readHeader_float64 bits rest
      rw [hf]
      rfl
    | @str bytes head h =>
      rw [List.append_assoc, readHeader_str h]
      simp [h.toNat]
    | @bin bytes head h =>
      rw [List.append_assoc, readHeader_bin h]
      simp [h.toNat]
    | @arr vs head body h hbody =>
      rw [List.append_assoc, readHeader_arr h]
      simp only [Option.bind_eq_bind, Option.bind_some, h.toNat]
      rw [if_neg (Nat.not_lt.mpr hskip.1)]
      exact skipMany_encoded (fun w hw _ hwenc => ih (hskip.2 w hw) hwenc) hbody rest
    | @map entries n head body hn h hbody =>
      rw [List.append_assoc, readHeader_map h]
      simp only [Option.bind_eq_bind, Option.bind_some, h.toNat]
      have hcap := hskip.1
      rw [if_neg (by omega)]
      have hall := skipMany_encoded (fun w hw _ hwenc => ih (hskip.2 w hw) hwenc) hbody rest
      rw [hn, ← skipMany_pairs] at hall
      exact hall
    | ext h => cases hskip

/-! ## Batches as values -/

/-- The numbers and values a batch may be written with. -/
structure WireBounds : Type where
  /-- the length of a byte string that stands for a hash -/
  hashBytes : ℕ → Prop
  hashes : ℕ → Prop
  tokens : ℕ → Prop
  blockSize : ℕ → Prop
  /-- the length of a tag that is not known -/
  tagBytes : ℕ → Prop
  events : ℕ → Prop
  /-- what stands in fields that are not known -/
  other : MsgValue → Prop

/-- Whatever the format can write. -/
def WireBounds.format : WireBounds where
  hashBytes n := 0 < n
  hashes _ := True
  tokens _ := True
  blockSize n := 0 < n
  tagBytes _ := True
  events _ := True
  other _ := True

/-- What the decoder lets through. -/
def WireBounds.decoder : WireBounds where
  hashBytes n := 0 < n ∧ n ≤ kvMaxHashBytes
  hashes n := n ≤ kvMaxHashesPerEvent
  tokens n := n ≤ kvMaxTokensPerEvent
  blockSize n := 0 < n ∧ n ≤ kvMaxTokensPerEvent
  tagBytes n := n ≤ 64
  events n := n ≤ kvMaxEventsPerBatch
  other := Skippable (kvMaxSkipDepth + 1)

/-- A block hash: an integer with these bits, or bytes that write a number which ends in
them. -/
inductive RepresentsHash (b : WireBounds) : UInt64 → MsgValue → Prop where
  | int (z : ℤ) : RepresentsHash b (UInt64.ofInt z) (.int z)
  | bin {bytes : List UInt8} (h : b.hashBytes bytes.length) :
      RepresentsHash b (UInt64.ofNat (beValue bytes)) (.bin bytes)
  | str {bytes : List UInt8} (h : b.hashBytes bytes.length) :
      RepresentsHash b (UInt64.ofNat (beValue bytes)) (.str bytes)

/-- The parent of a store. -/
inductive RepresentsParent (b : WireBounds) : Option UInt64 → MsgValue → Prop where
  | none : RepresentsParent b none .nil
  | some {hash : UInt64} {v : MsgValue} (h : RepresentsHash b hash v) :
      RepresentsParent b (some hash) v

/-- The tags the decoder knows. -/
def knownTags : List (List UInt8) :=
  ["BlockStored".toUTF8.data.toList, "BlockRemoved".toUTF8.data.toList,
    "AllBlocksCleared".toUTF8.data.toList]

/-- An event: its tag, its fields, and further ones. -/
inductive RepresentsEvent (b : WireBounds) : KvEvent → MsgValue → Prop where
  | stored {ev : KvBlockStored} {hashes further : List MsgValue} {parent : MsgValue}
      (hhashes : List.Forall₂ (RepresentsHash b) ev.blockHashes hashes)
      (hcount : b.hashes ev.blockHashes.length)
      (hparent : RepresentsParent b ev.parentBlockHash parent)
      (htokens : b.tokens ev.tokenIds.length) (hsize : b.blockSize ev.blockSize.toNat)
      (hfurther : ∀ v ∈ further, b.other v) :
      RepresentsEvent b (.BlockStored ev)
        (.arr (.str "BlockStored".toUTF8.data.toList :: .arr hashes :: parent ::
          .arr (ev.tokenIds.map fun t => .int t.toInt) :: .int ev.blockSize.toNat :: further))
  | removed {ev : KvBlockRemoved} {hashes further : List MsgValue}
      (hhashes : List.Forall₂ (RepresentsHash b) ev.blockHashes hashes)
      (hcount : b.hashes ev.blockHashes.length) (hfurther : ∀ v ∈ further, b.other v) :
      RepresentsEvent b (.BlockRemoved ev)
        (.arr (.str "BlockRemoved".toUTF8.data.toList :: .arr hashes :: further))
  | cleared {further : List MsgValue} (hfurther : ∀ v ∈ further, b.other v) :
      RepresentsEvent b .AllBlocksCleared
        (.arr (.str "AllBlocksCleared".toUTF8.data.toList :: further))
  | unknown {tag : List UInt8} {further : List MsgValue} (htag : tag ∉ knownTags)
      (hlength : b.tagBytes tag.length) (hfurther : ∀ v ∈ further, b.other v) :
      RepresentsEvent b .unknown (.arr (.str tag :: further))

/-- A timestamp in seconds. -/
inductive RepresentsTime : MsgValue → Prop where
  | int (n : ℕ) : RepresentsTime (.int n)
  | float32 (bits : UInt32) : RepresentsTime (.float32 bits)
  | float64 (bits : UInt64) : RepresentsTime (.float64 bits)

/-- A batch: a timestamp, the events, and further fields. -/
inductive RepresentsBatch (b : WireBounds) : List KvEvent → MsgValue → Prop where
  | batch {evs : List KvEvent} {time : MsgValue} {events further : List MsgValue}
      (htime : RepresentsTime time) (hevents : List.Forall₂ (RepresentsEvent b) evs events)
      (hcount : b.events evs.length) (hfurther : ∀ v ∈ further, b.other v) :
      RepresentsBatch b evs (.arr (time :: .arr events :: further))

/-! ## Reading them back -/

/-- The last eight bytes decide the lowest 64 bits. -/
theorem ofNat_beValue_drop (bytes : List UInt8) :
    UInt64.ofNat (beValue (bytes.drop (bytes.length - 8))) = UInt64.ofNat (beValue bytes) := by
  by_cases hshort : bytes.length ≤ 8
  · rw [Nat.sub_eq_zero_of_le hshort, List.drop_zero]
  · have hlast : (bytes.drop (bytes.length - 8)).length = 8 := by
      rw [List.length_drop]
      omega
    have hsplit := beValue_append (bytes.take (bytes.length - 8)) (bytes.drop (bytes.length - 8))
    rw [List.take_append_drop, hlast] at hsplit
    refine UInt64.toNat_inj.mp ?_
    rw [UInt64.toNat_ofNat', UInt64.toNat_ofNat', hsplit]
    omega

theorem hashFromHeader_bytes {kind : Kind} (hkind : kind = .BIN ∨ kind = .STR) {bytes : List UInt8}
    (hbytes : WireBounds.decoder.hashBytes bytes.length) (rest : Reader) :
    hashFromHeader { kind := kind, uval := UInt64.ofNat bytes.length } (bytes ++ rest) =
      some (UInt64.ofNat (beValue bytes), rest) := by
  obtain ⟨hpos, hcap⟩ := hbytes
  have hlength : (UInt64.ofNat bytes.length).toNat = bytes.length := by
    rw [kvMaxHashBytes] at hcap
    rw [UInt64.toNat_ofNat']
    omega
  have hread : ¬(bytes.length = 0 ∨ kvMaxHashBytes < bytes.length ∨
      (bytes ++ rest).length < bytes.length) := by
    rw [List.length_append]
    omega
  rcases hkind with rfl | rfl
  · simp only [hashFromHeader, hlength]
    rw [if_neg hread, List.take_left, List.drop_left, foldl_shift_or, ofNat_beValue_drop]
  · simp only [hashFromHeader, hlength]
    rw [if_neg hread, List.take_left, List.drop_left, foldl_shift_or, ofNat_beValue_drop]

/-- A hash, behind its header. -/
theorem hashFromHeader_encoded {hash : UInt64} {v : MsgValue}
    (h : RepresentsHash .decoder hash v) {bytes : List UInt8} (henc : Encodes v bytes)
    (rest : Reader) :
    ∃ e r, readHeader (bytes ++ rest) = some (e, r) ∧ e.kind ≠ .NIL ∧
      hashFromHeader e r = some (hash, rest) := by
  cases h with
  | int z =>
    cases henc with
    | int h => exact ⟨_, _, readHeader_int h rest, by simp, rfl⟩
  | bin h =>
    cases henc with
    | @bin bytes head hhead =>
      rw [List.append_assoc]
      exact ⟨_, _, readHeader_bin hhead _, by simp, hashFromHeader_bytes (.inl rfl) h rest⟩
  | str h =>
    cases henc with
    | @str bytes head hhead =>
      rw [List.append_assoc]
      exact ⟨_, _, readHeader_str hhead _, by simp, hashFromHeader_bytes (.inr rfl) h rest⟩

/-- **Hashes** read back as the same value, integer or bytes. -/
theorem readHash_encoded {hash : UInt64} {v : MsgValue}
    (h : RepresentsHash .decoder hash v) {bytes : List UInt8} (henc : Encodes v bytes)
    (rest : Reader) : readHash (bytes ++ rest) = some (hash, rest) := by
  obtain ⟨e, r, hread, -, hhash⟩ := hashFromHeader_encoded h henc rest
  rw [readHash, hread]
  exact hhash

theorem readParent_encoded {parent : Option UInt64} {v : MsgValue}
    (h : RepresentsParent .decoder parent v) {bytes : List UInt8} (henc : Encodes v bytes)
    (rest : Reader) : readParent (bytes ++ rest) = some (parent, rest) := by
  cases h with
  | none =>
    cases henc
    rfl
  | some h =>
    obtain ⟨e, r, hread, hnil, hhash⟩ := hashFromHeader_encoded h henc rest
    rw [readParent, hread]
    simp [hnil, hhash]

/-- An `int32_t` is the low half of its 64 bits. -/
theorem toInt32_ofInt (t : Int32) : (UInt64.ofInt t.toInt).toUInt32.toInt32 = t := by
  refine Int32.toInt_inj.mp (BitVec.toInt_inj.mpr (BitVec.eq_of_toNat_eq ?_))
  have hint : t.toInt = if 2 * t.toUInt32.toNat < 2 ^ 32 then (t.toUInt32.toNat : ℤ)
      else (t.toUInt32.toNat : ℤ) - (2 ^ 32 : ℕ) := BitVec.toInt_eq_toNat_cond t.toBitVec
  have hlt := t.toUInt32.toNat_lt
  change (UInt64.ofInt t.toInt).toUInt32.toNat = t.toUInt32.toNat
  rw [UInt64.toNat_toUInt32, UInt64.ofInt, UInt64.toNat_ofNat']
  split_ifs at hint <;> omega

theorem readToken_encoded (t : TokenId) {bytes : List UInt8} (henc : Encodes (.int t.toInt) bytes)
    (rest : Reader) : readToken (bytes ++ rest) = some (t, rest) := by
  cases henc with
  | int h =>
    rw [readToken, readHeader_int h]
    simp [toInt32_ofInt]

theorem readBlockSize_encoded {n : UInt32} (hsize : WireBounds.decoder.blockSize n.toNat)
    {bytes : List UInt8} (henc : Encodes (.int n.toNat) bytes) (rest : Reader) :
    readBlockSize (bytes ++ rest) = some (n, rest) := by
  obtain ⟨hpos, hcap⟩ := hsize
  cases henc with
  | int h =>
    have hnat : (UInt64.ofNat n.toNat).toNat = n.toNat := by
      have := n.toNat_lt
      rw [UInt64.toNat_ofNat']
      omega
    have hne : UInt64.ofNat n.toNat ≠ 0 := by
      intro hzero
      rw [hzero] at hnat
      exact absurd hnat.symm (Nat.ne_of_gt hpos)
    have hlow : (UInt64.ofNat n.toNat).toUInt32 = n := by
      refine UInt32.toNat_inj.mp ?_
      rw [UInt64.toNat_toUInt32, hnat]
      exact Nat.mod_eq_of_lt n.toNat_lt
    have hneg : ¬((n.toNat : ℤ) < 0) := by omega
    rw [readBlockSize, readHeader_int h, ofInt_natCast]
    simp only [Option.bind_eq_bind, Option.bind_some, hnat, hlow]
    rw [if_neg]
    rintro (hkind | hnegative | hzero | hlarge)
    · exact hkind rfl
    · exact hneg (of_decide_eq_true hnegative)
    · exact hne hzero
    · exact absurd hcap (Nat.not_le.mpr hlarge)

/-- An array within its cap, each element read as its own result. -/
theorem readArray_encoded {α : Type} {read : Reader → Option (α × Reader)} {maxN : ℕ}
    {vs : List MsgValue} {as : List α}
    (hread : List.Forall₂ (fun a v => ∀ {bytes}, Encodes v bytes → ∀ rest,
      read (bytes ++ rest) = some (a, rest)) as vs) (hcap : as.length ≤ maxN)
    {bytes : List UInt8} (henc : Encodes (.arr vs) bytes) (rest : Reader) :
    readArray read maxN (bytes ++ rest) = some (as, rest) := by
  cases henc with
  | @arr vs head body h hbody =>
    have hlength := hread.length_eq
    have hmany := readMany_encoded hread hbody rest
    rw [List.append_assoc, readArray, readHeader_arr h]
    simp only [Option.bind_eq_bind, Option.bind_some, h.toNat]
    rw [if_neg (by simp; omega), ← hlength]
    exact hmany

theorem readHashArray_encoded {hashes : List UInt64} {vs : List MsgValue}
    (hhashes : List.Forall₂ (RepresentsHash .decoder) hashes vs)
    (hcount : hashes.length ≤ kvMaxHashesPerEvent) {bytes : List UInt8}
    (henc : Encodes (.arr vs) bytes) (rest : Reader) :
    readHashArray (bytes ++ rest) = some (hashes, rest) :=
  readArray_encoded (hhashes.imp fun _ _ h _ => readHash_encoded h) hcount henc rest

theorem readTokenArray_encoded {tokens : List TokenId}
    (hcount : tokens.length ≤ kvMaxTokensPerEvent) {bytes : List UInt8}
    (henc : Encodes (.arr (tokens.map fun t => .int t.toInt)) bytes) (rest : Reader) :
    readTokenArray (bytes ++ rest) = some (tokens, rest) := by
  refine readArray_encoded ?_ hcount henc rest
  rw [List.forall₂_map_right_iff]
  exact List.forall₂_same.mpr fun t _ _ => readToken_encoded t

/-- Further fields are skipped. -/
theorem skipFurther_encoded {further : List MsgValue}
    (hfurther : ∀ v ∈ further, WireBounds.decoder.other v) {body : List UInt8}
    (hbody : EncodesAll further body) (rest : Reader) :
    skipMany skipValue further.length (body ++ rest) = some rest :=
  skipMany_encoded (fun v hv _ henc => skipNested_encoded (hfurther v hv) henc) hbody rest

/-- A tag within its cap. -/
theorem readStr_encoded {tag bytes : List UInt8} (htag : tag.length ≤ 64)
    (henc : Encodes (.str tag) bytes) (rest : Reader) :
    readStr (bytes ++ rest) = some (tag, rest) := by
  cases henc with
  | @str _ head h =>
    rw [List.append_assoc, readStr, readHeader_str h]
    simp only [Option.bind_eq_bind, Option.bind_some, h.toNat]
    rw [if_neg (by simp; omega), List.take_left, List.drop_left]

/-- The fields behind a tag, however they are written. -/
def FieldsRead (tag : List UInt8) (fields : List MsgValue) (ev : KvEvent) : Prop :=
  ∀ body, EncodesAll fields body → ∀ rest,
    readFields tag fields.length (body ++ rest) = some (ev, rest)

/-- An event, once its fields read back. -/
theorem readEvent_encoded {tag : List UInt8} {fields : List MsgValue} {ev : KvEvent}
    (htag : tag.length ≤ 64) (hfields : FieldsRead tag fields ev) {bytes : List UInt8}
    (henc : Encodes (.arr (.str tag :: fields)) bytes) (rest : Reader) :
    readEvent (bytes ++ rest) = some (ev, rest) := by
  cases henc with
  | @arr _ head body h hbody =>
    cases hbody with
    | @cons _ _ tagBytes body htagEnc hbody =>
      have hlength : (UInt64.ofNat (fields.length + 1)).toNat = fields.length + 1 := h.toNat
      rw [List.append_assoc, List.append_assoc, readEvent, readHeader_arr h]
      simp only [Option.bind_eq_bind, Option.bind_some, List.length_cons, hlength]
      rw [if_neg (by simp), readStr_encoded htag htagEnc]
      exact hfields body hbody rest

theorem fieldsRead_stored {ev : KvBlockStored} {hashes further : List MsgValue} {parent : MsgValue}
    (hhashes : List.Forall₂ (RepresentsHash .decoder) ev.blockHashes hashes)
    (hcount : ev.blockHashes.length ≤ kvMaxHashesPerEvent)
    (hparent : RepresentsParent .decoder ev.parentBlockHash parent)
    (htokens : ev.tokenIds.length ≤ kvMaxTokensPerEvent)
    (hsize : WireBounds.decoder.blockSize ev.blockSize.toNat)
    (hfurther : ∀ v ∈ further, WireBounds.decoder.other v) :
    FieldsRead "BlockStored".toUTF8.data.toList
      (.arr hashes :: parent :: .arr (ev.tokenIds.map fun t => .int t.toInt) ::
        .int ev.blockSize.toNat :: further) (.BlockStored ev) := by
  intro body hbody rest
  cases hbody with
  | @cons _ _ b₁ _ h₁ hbody =>
    cases hbody with
    | @cons _ _ b₂ _ h₂ hbody =>
      cases hbody with
      | @cons _ _ b₃ _ h₃ hbody =>
        cases hbody with
        | @cons _ _ b₄ b₅ h₄ h₅ =>
          rw [readFields, if_pos rfl, readBlockStored, if_neg (by simp)]
          simp only [List.append_assoc, readHashArray_encoded hhashes hcount h₁,
            readParent_encoded hparent h₂, readTokenArray_encoded htokens h₃,
            readBlockSize_encoded hsize h₄, Option.bind_eq_bind, Option.bind_some]
          have hskip := skipFurther_encoded hfurther h₅ rest
          have hleft : further.length + 1 + 1 + 1 + 1 - 4 = further.length := by omega
          simp only [List.length_cons, hleft, hskip]
          rfl

theorem fieldsRead_removed {ev : KvBlockRemoved} {hashes further : List MsgValue}
    (hhashes : List.Forall₂ (RepresentsHash .decoder) ev.blockHashes hashes)
    (hcount : ev.blockHashes.length ≤ kvMaxHashesPerEvent)
    (hfurther : ∀ v ∈ further, WireBounds.decoder.other v) :
    FieldsRead "BlockRemoved".toUTF8.data.toList (.arr hashes :: further) (.BlockRemoved ev) := by
  intro body hbody rest
  cases hbody with
  | @cons _ _ b₁ b₂ h₁ h₂ =>
    have hskip := skipFurther_encoded hfurther h₂ rest
    rw [readFields, if_neg (by decide), if_pos rfl, readBlockRemoved, if_neg (by simp)]
    simp only [List.append_assoc, readHashArray_encoded hhashes hcount h₁, Option.bind_eq_bind,
      Option.bind_some, List.length_cons, Nat.add_sub_cancel, hskip]
    rfl

/-- The fields of the other events are all skipped. -/
theorem fieldsRead_skipped {tag : List UInt8} {further : List MsgValue}
    (hstored : tag ≠ "BlockStored".toUTF8.data.toList)
    (hremoved : tag ≠ "BlockRemoved".toUTF8.data.toList)
    (hfurther : ∀ v ∈ further, WireBounds.decoder.other v) :
    FieldsRead tag further
      (if tag = "AllBlocksCleared".toUTF8.data.toList then .AllBlocksCleared else .unknown) := by
  intro body hbody rest
  rw [readFields, if_neg hstored, if_neg hremoved, skipFurther_encoded hfurther hbody]
  rfl

/-- **Events** read back, one case for each kind. -/
theorem readEvent_represented {ev : KvEvent} {v : MsgValue} (h : RepresentsEvent .decoder ev v)
    {bytes : List UInt8} (henc : Encodes v bytes) (rest : Reader) :
    readEvent (bytes ++ rest) = some (ev, rest) := by
  cases h with
  | stored hhashes hcount hparent htokens hsize hfurther =>
    exact readEvent_encoded (by decide)
      (fieldsRead_stored hhashes hcount hparent htokens hsize hfurther) henc rest
  | removed hhashes hcount hfurther =>
    exact readEvent_encoded (by decide) (fieldsRead_removed hhashes hcount hfurther) henc rest
  | cleared hfurther =>
    exact readEvent_encoded (by decide) (fieldsRead_skipped (by decide) (by decide) hfurther) henc
      rest
  | unknown htag hlength hfurther =>
    simp only [knownTags, List.mem_cons, List.not_mem_nil, or_false, not_or] at htag
    have hfields := fieldsRead_skipped htag.1 htag.2.1 hfurther
    rw [if_neg htag.2.2] at hfields
    exact readEvent_encoded hlength hfields henc rest

theorem readTimestamp_encoded {v : MsgValue} (h : RepresentsTime v) {bytes : List UInt8}
    (henc : Encodes v bytes) (rest : Reader) :
    ∃ tsMs, readTimestamp (bytes ++ rest) = some (tsMs, rest) := by
  -- a float gives some timestamp, whatever it is
  have hfloat : ∀ f, readHeader (bytes ++ rest) = some ({ kind := .F64, fval := f }, rest) →
      ∃ tsMs, readTimestamp (bytes ++ rest) = some (tsMs, rest) := by
    intro f hf
    rw [readTimestamp, hf]
    simp only [Option.bind_eq_bind, Option.bind_some, if_true]
    split_ifs
    · exact ⟨_, rfl⟩
    · exact ⟨_, rfl⟩
    · exact ⟨_, rfl⟩
  cases h with
  | int n =>
    cases henc with
    | int h =>
      rw [readTimestamp, readHeader_int h]
      exact ⟨_, by simp; rfl⟩
  | float32 bits =>
    cases henc
    obtain ⟨f, hf⟩ := readHeader_float32 bits rest
    exact hfloat f hf
  | float64 bits =>
    cases henc
    obtain ⟨f, hf⟩ := readHeader_float64 bits rest
    exact hfloat f hf

/-- The fields before the events. -/
theorem readBatchHead_encoded {time : MsgValue} (htime : RepresentsTime time) {n events : ℕ}
    {head timeBytes eventsHead : List UInt8} (hhead : ArrHead (n + 2) head)
    (htimeEnc : Encodes time timeBytes) (heventsHead : ArrHead events eventsHead)
    (hcount : events ≤ kvMaxEventsPerBatch) {rest : Reader}
    (hsize : (head ++ (timeBytes ++ (eventsHead ++ rest))).length ≤ kvMaxPayloadBytes) :
    ∃ tsMs, readBatchHead (head ++ (timeBytes ++ (eventsHead ++ rest))) =
      some ((n + 2, tsMs, events), rest) := by
  obtain ⟨tsMs, htsMs⟩ := readTimestamp_encoded htime htimeEnc (eventsHead ++ rest)
  have hfirst := readHeader_arr hhead (timeBytes ++ (eventsHead ++ rest))
  have hsome : head ++ (timeBytes ++ (eventsHead ++ rest)) ≠ [] := by
    intro hempty
    rw [hempty] at hfirst
    cases hfirst
  refine ⟨tsMs, ?_⟩
  rw [readBatchHead, if_neg (not_or.mpr ⟨hsome, Nat.not_lt.mpr hsize⟩), hfirst]
  simp only [Option.bind_eq_bind, Option.bind_some, htsMs, readHeader_arr heventsHead,
    hhead.toNat, heventsHead.toNat]
  rw [if_neg (by simp), if_neg (by simp; omega)]
  rfl

/-- The whole payload in wire order. -/
theorem wireEvents_encoded {evs : List KvEvent} {v : MsgValue}
    (hbatch : RepresentsBatch .decoder evs v) {data : List UInt8} (henc : Encodes v data)
    (hsize : data.length ≤ kvMaxPayloadBytes) : ∃ tsMs, wireEvents data = some (tsMs, evs) := by
  cases hbatch with
  | @batch time events further htime hevents hcount hfurther =>
    cases henc with
    | @arr _ head body h hbody =>
      cases hbody with
      | @cons _ _ timeBytes _ htimeEnc hbody =>
        cases hbody with
        | @cons _ _ eventsBytes furtherBytes heventsEnc hfurtherEnc =>
          cases heventsEnc with
          | @arr _ head' body' h' hbody' =>
            rw [List.append_assoc head' body'] at hsize ⊢
            have hlength := hevents.length_eq
            have hcap : events.length ≤ kvMaxEventsPerBatch := hlength ▸ hcount
            obtain ⟨tsMs, hread⟩ := readBatchHead_encoded htime h htimeEnc h' hcap hsize
            have hevs := readMany_encoded
              (hevents.imp fun _ _ hev _ => readEvent_represented hev) hbody' furtherBytes
            have hskip := skipFurther_encoded hfurther hfurtherEnc []
            rw [List.append_nil] at hskip
            refine ⟨tsMs, ?_⟩
            rw [wireEvents, hread]
            simp only [Option.bind_eq_bind, Option.bind_some, ← hlength, hevs,
              Nat.add_sub_cancel, hskip]
            rfl

/-- **Every encoding decodes.** Take a batch whose value is within the decoder's bounds,
and any encoding of it of at most four megabytes: integers, lengths and hashes in any of
their forms, any unknown tags and further fields. The decoder returns the events of the
batch; and it reads a hash written as bytes as the integer that the bytes write. -/
theorem decode_encoded :
    (∀ {evs : List KvEvent} {v : MsgValue} {data : List UInt8}, RepresentsBatch .decoder evs v →
      Encodes v data → data.length ≤ kvMaxPayloadBytes →
        ∃ tsMs, decodeKvEventBatch data = some (KvEventBatch.recordAll { tsMs := tsMs } 0 evs)) ∧
    (∀ {bytes written number : List UInt8} (rest : Reader), 0 < bytes.length →
      bytes.length ≤ kvMaxHashBytes → Encodes (.bin bytes) written ∨ Encodes (.str bytes) written →
      Encodes (.int (beValue bytes)) number →
        readHash (written ++ rest) = readHash (number ++ rest)) := by
  refine ⟨?_, ?_⟩
  · intro evs v data hbatch henc hsize
    obtain ⟨tsMs, hwire⟩ := wireEvents_encoded hbatch henc hsize
    exact ⟨tsMs, by rw [decodeKvEventBatch_eq, hwire, Option.map_some]⟩
  · intro bytes written number rest hpos hcap hwritten hnumber
    have hint : readHash (number ++ rest) = some (UInt64.ofNat (beValue bytes), rest) := by
      rw [← ofInt_natCast]
      exact readHash_encoded (.int _) hnumber rest
    rw [hint]
    rcases hwritten with hwritten | hwritten
    · exact readHash_encoded (.bin ⟨hpos, hcap⟩) hwritten rest
    · exact readHash_encoded (.str ⟨hpos, hcap⟩) hwritten rest

/-- A removal of block 10, written as a byte string, with a further field, and an event
with a tag of its own; the timestamp in two bytes. -/
def mixedBatch : MsgValue :=
  .arr [.int (1 : ℕ), .arr [
    .arr [.str "BlockRemoved".toUTF8.data.toList, .arr [.bin [10]], .nil],
    .arr [.str [0x58]]]]

/-- One of its encodings. -/
def mixedBytes : List UInt8 :=
  [0x92, 0xcd, 0x00, 0x01, 0x92, 0x93, 0xac] ++ "BlockRemoved".toUTF8.data.toList ++
    [0x91, 0xc4, 0x01, 0x0a, 0xc0, 0x91, 0xa1, 0x58]

theorem encodes_arr_short {vs : List MsgValue} {body : List UInt8} (h : vs.length < 16)
    (hbody : EncodesAll vs body) :
    Encodes (.arr vs) ((0x90 + UInt8.ofNat vs.length) :: body) :=
  Encodes.arr (LengthForm.short h) hbody

theorem encodes_str_short {bytes : List UInt8} (h : bytes.length < 32) :
    Encodes (.str bytes) ((0xa0 + UInt8.ofNat bytes.length) :: bytes) :=
  Encodes.str (LengthForm.short h)

theorem encodes_mixedBatch : Encodes mixedBatch mixedBytes := by
  have htime : Encodes (.int (1 : ℕ)) (0xcd :: beBytes 2 1) :=
    .int (.unsigned (by decide) (by decide))
  have hhash : Encodes (.bin [10]) ((0xc4 :: beBytes 1 1) ++ [10]) :=
    .bin (.long (by decide) (by decide))
  have hremoved := encodes_arr_short (by decide) (.cons
    (encodes_str_short (show "BlockRemoved".toUTF8.data.toList.length < 32 by decide))
    (.cons (encodes_arr_short (by decide) (.cons hhash .nil)) (.cons .nil .nil)))
  have hown := encodes_arr_short (by decide)
    (.cons (encodes_str_short (show [0x58].length < 32 by decide)) .nil)
  have henc := encodes_arr_short (by decide) (.cons htime
    (.cons (encodes_arr_short (by decide) (.cons hremoved (.cons hown .nil))) .nil))
  exact henc

/-- The batch stands for the removal and the event that is not known. -/
theorem represents_mixedBatch :
    RepresentsBatch .decoder [.BlockRemoved ⟨[10]⟩, .unknown] mixedBatch := by
  have hbytes : WireBounds.decoder.hashBytes ([10] : List UInt8).length := ⟨by decide, by decide⟩
  have hhash : RepresentsHash .decoder 10 (.bin [10]) := .bin hbytes
  have hevents : (2 : ℕ) ≤ kvMaxEventsPerBatch := by decide
  have hhashes : (1 : ℕ) ≤ kvMaxHashesPerEvent := by decide
  have htag : (1 : ℕ) ≤ 64 := by decide
  refine .batch (.int 1) (.cons ?_ (.cons ?_ .nil)) hevents (by simp)
  · refine .removed (.cons hhash .nil) hhashes ?_
    intro v hv
    obtain rfl := List.mem_singleton.mp hv
    trivial
  · exact .unknown (by decide) htag (by simp)

theorem decode_encoded_mixedBatch :
    ∃ tsMs, decodeKvEventBatch mixedBytes =
      some (KvEventBatch.recordAll { tsMs := tsMs } 0 [.BlockRemoved ⟨[10]⟩, .unknown]) :=
  decode_encoded.1 represents_mixedBatch encodes_mixedBatch (by decide)

/-- A value within `n` arrays. -/
def nestedNil : ℕ → MsgValue
  | 0 => .nil
  | n + 1 => .arr [nestedNil n]

theorem encodes_nestedNil (n : ℕ) : Encodes (nestedNil n) (List.replicate n 0x91 ++ [0xc0]) := by
  induction n with
  | zero => exact .nil
  | succ n ih =>
    have henc := encodes_arr_short (show [nestedNil n].length < 16 by simp) (.cons ih .nil)
    rw [List.append_nil] at henc
    exact henc

/-- A clear with a further field, nil within 17 arrays. -/
def deepBytes : List UInt8 :=
  [0x92, 0x01, 0x91, 0x92, 0xb0] ++ "AllBlocksCleared".toUTF8.data.toList ++
    (List.replicate 17 0x91 ++ [0xc0])

/-- **Too deep to skip.** The format writes any nesting in a further field; the decoder
refuses the batch. -/
theorem deep_field_refused :
    ∃ v, RepresentsBatch .format [.AllBlocksCleared] v ∧ Encodes v deepBytes ∧
      decodeKvEventBatch deepBytes = none := by
  have htime : Encodes (.int (1 : ℕ)) [0x01] := .int (.positive (by decide))
  have hclear := encodes_arr_short (by simp) (.cons
    (encodes_str_short (show "AllBlocksCleared".toUTF8.data.toList.length < 32 by decide))
    (.cons (encodes_nestedNil 17) .nil))
  have henc := encodes_arr_short (by simp) (.cons htime
    (.cons (encodes_arr_short (by simp) (.cons hclear .nil)) .nil))
  refine ⟨_, .batch (.int 1) (.cons (.cleared ?_) .nil) trivial ?_, henc, by decide +kernel⟩
  · exact fun _ _ => trivial
  · exact fun _ _ => trivial

end Ranvier
