import Mathlib.Algebra.Group.Nat.Defs
import Mathlib.Data.Int.Notation
import Mathlib.Data.List.Induction

/-!
# MessagePack

The values of the format and the bytes that write them. A value has many encodings:
an integer can be written in every width it fits, a length in every width that holds
it.

* `beBytes`, `beValue` — numbers in big-endian bytes;
* `MsgValue` — the values;
* `Encodes` — the bytes are an encoding of the value.
-/

namespace Ranvier

/-! ## Numbers -/

/-- The last `n` bytes of a number, most significant first. -/
def beBytes : ℕ → ℕ → List UInt8
  | 0, _ => []
  | n + 1, v => beBytes n (v / 256) ++ [UInt8.ofNat v]

/-- The number that bytes write. -/
def beValue (bytes : List UInt8) : ℕ := bytes.foldl (fun v b => v * 256 + b.toNat) 0

@[simp] theorem length_beBytes (n v : ℕ) : (beBytes n v).length = n := by
  induction n generalizing v with
  | zero => rfl
  | succ n ih => simp [beBytes, ih]

theorem beValue_append_singleton (bytes : List UInt8) (b : UInt8) :
    beValue (bytes ++ [b]) = beValue bytes * 256 + b.toNat := by
  simp [beValue]

theorem beValue_beBytes {n v : ℕ} (h : v < 256 ^ n) : beValue (beBytes n v) = v := by
  induction n generalizing v with
  | zero =>
    obtain rfl : v = 0 := by simpa using h
    rfl
  | succ n ih =>
    have hdiv : v / 256 < 256 ^ n := by
      rw [Nat.pow_succ] at h
      exact Nat.div_lt_of_lt_mul (by rwa [Nat.mul_comm] at h)
    rw [beBytes, beValue_append_singleton, ih hdiv, UInt8.toNat_ofNat']
    have : (2 : ℕ) ^ 8 = 256 := rfl
    omega

/-- The bytes in front count in multiples of the bytes behind. -/
theorem beValue_append (front back : List UInt8) :
    beValue (front ++ back) = beValue front * 256 ^ back.length + beValue back := by
  induction back using List.reverseRecOn with
  | nil => simp [beValue]
  | append_singleton back b ih =>
    rw [← List.append_assoc, beValue_append_singleton, ih, beValue_append_singleton,
      List.length_append, List.length_singleton, Nat.pow_succ]
    rw [Nat.add_mul, Nat.mul_assoc, Nat.add_assoc]

/-! ## Values -/

/-- A value. The entries of a map stand as keys and values in turn. -/
inductive MsgValue : Type where
  | nil
  | bool (b : Bool)
  | int (z : ℤ)
  | float32 (bits : UInt32)
  | float64 (bits : UInt64)
  | str (bytes : List UInt8)
  | bin (bytes : List UInt8)
  | arr (vs : List MsgValue)
  | map (entries : List MsgValue)
  | ext (type : UInt8) (bytes : List UInt8)

/-! ## Forms -/

/-- The forms of an integer: in one byte, or in 1, 2, 4 or 8 bytes behind a code,
unsigned or in two's complement. -/
inductive IntForm : ℤ → List UInt8 → Prop where
  | positive {n : ℕ} (h : n < 128) : IntForm n [UInt8.ofNat n]
  | negative {n : ℕ} (h : n < 32) : IntForm (-(n + 1)) [0xff - UInt8.ofNat n]
  | unsigned {n : ℕ} {code : UInt8} {width : ℕ}
      (hcode : (code, width) ∈ [(0xcc, 1), (0xcd, 2), (0xce, 4), (0xcf, 8)])
      (h : n < 256 ^ width) : IntForm n (code :: beBytes width n)
  | signed {z : ℤ} {code : UInt8} {width : ℕ}
      (hcode : (code, width) ∈ [(0xd0, 1), (0xd1, 2), (0xd2, 4), (0xd3, 8)])
      (hlow : -(256 ^ width : ℕ) ≤ 2 * z) (hhigh : 2 * z < (256 ^ width : ℕ)) :
      IntForm z (code :: beBytes width (z % (256 ^ width : ℕ)).toNat)

/-- The forms of a length: below `cap` within the code `base`, or behind a code. -/
inductive LengthForm (base : UInt8) (cap : ℕ) (codes : List (UInt8 × ℕ)) :
    ℕ → List UInt8 → Prop where
  | short {n : ℕ} (h : n < cap) : LengthForm base cap codes n [base + UInt8.ofNat n]
  | long {n : ℕ} {code : UInt8} {width : ℕ} (hcode : (code, width) ∈ codes)
      (h : n < 256 ^ width) : LengthForm base cap codes n (code :: beBytes width n)

/-- Lengths of strings. -/
def StrHead : ℕ → List UInt8 → Prop := LengthForm 0xa0 32 [(0xd9, 1), (0xda, 2), (0xdb, 4)]

/-- Lengths of byte strings. -/
def BinHead : ℕ → List UInt8 → Prop := LengthForm 0 0 [(0xc4, 1), (0xc5, 2), (0xc6, 4)]

/-- Lengths of arrays. -/
def ArrHead : ℕ → List UInt8 → Prop := LengthForm 0x90 16 [(0xdc, 2), (0xdd, 4)]

/-- Lengths of maps. -/
def MapHead : ℕ → List UInt8 → Prop := LengthForm 0x80 16 [(0xde, 2), (0xdf, 4)]

/-- Lengths of extension data. -/
inductive ExtHead : ℕ → List UInt8 → Prop where
  | fixed {n : ℕ} {code : UInt8}
      (hcode : (code, n) ∈ [(0xd4, 1), (0xd5, 2), (0xd6, 4), (0xd7, 8), (0xd8, 16)]) :
      ExtHead n [code]
  | long {n : ℕ} {code : UInt8} {width : ℕ}
      (hcode : (code, width) ∈ [(0xc7, 1), (0xc8, 2), (0xc9, 4)]) (h : n < 256 ^ width) :
      ExtHead n (code :: beBytes width n)

/-! ## Encodings -/

mutual

/-- The bytes write the value. -/
inductive Encodes : MsgValue → List UInt8 → Prop where
  | nil : Encodes .nil [0xc0]
  | bool (b : Bool) : Encodes (.bool b) [if b then 0xc3 else 0xc2]
  | int {z : ℤ} {bytes : List UInt8} (h : IntForm z bytes) : Encodes (.int z) bytes
  | float32 (bits : UInt32) : Encodes (.float32 bits) (0xca :: beBytes 4 bits.toNat)
  | float64 (bits : UInt64) : Encodes (.float64 bits) (0xcb :: beBytes 8 bits.toNat)
  | str {bytes head : List UInt8} (h : StrHead bytes.length head) :
      Encodes (.str bytes) (head ++ bytes)
  | bin {bytes head : List UInt8} (h : BinHead bytes.length head) :
      Encodes (.bin bytes) (head ++ bytes)
  | arr {vs : List MsgValue} {head body : List UInt8} (h : ArrHead vs.length head)
      (hbody : EncodesAll vs body) : Encodes (.arr vs) (head ++ body)
  | map {entries : List MsgValue} {n : ℕ} {head body : List UInt8} (hn : entries.length = 2 * n)
      (h : MapHead n head) (hbody : EncodesAll entries body) : Encodes (.map entries) (head ++ body)
  | ext {type : UInt8} {bytes head : List UInt8} (h : ExtHead bytes.length head) :
      Encodes (.ext type bytes) (head ++ type :: bytes)

/-- The bytes write the values one after another. -/
inductive EncodesAll : List MsgValue → List UInt8 → Prop where
  | nil : EncodesAll [] []
  | cons {v : MsgValue} {vs : List MsgValue} {bytes rest : List UInt8} (h : Encodes v bytes)
      (hrest : EncodesAll vs rest) : EncodesAll (v :: vs) (bytes ++ rest)

end

end Ranvier
