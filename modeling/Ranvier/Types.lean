import Mathlib.Algebra.Group.Nat.Defs
import Mathlib.Data.List.Basic
import Mathlib.Data.List.Infix

/-!
# Tokens, backends and the byte encoding of keys

The vocabulary shared by every component: token ids are 32-bit integers,
backends are identified by an integer, and a route carries the **origin** it
was learned from. The radix tree works on bytes, so a token sequence enters it
through the big-endian encoding below (`encodeTokensBe`); what the tree proofs
need of that encoding is that it is injective and that it neither creates nor
hides prefixes (`encodeTokensBe_isPrefix_iff`).
-/

namespace Ranvier

/-- Token ids come from the tokenizer as `int32_t`. -/
abbrev TokenId : Type := Int32

/-- Backend (GPU pool) ids. The source's `int32_t` is never computed with, only
compared, so its width plays no role. -/
abbrev BackendId : Type := ℤ

/-- `kYieldInterval`: a long loop offers to yield after this many rounds. -/
def kYieldInterval : ℕ := 128

/-- Where a route was learned. The numeric order is the trust order: lower is
more trusted. -/
inductive RouteOrigin : Type where
  /-- learned from a direct request on this node -/
  | LOCAL
  /-- pushed by a backend's cache event -/
  | PUSH
  /-- learned from cluster gossip -/
  | REMOTE
  deriving DecidableEq, Repr

namespace RouteOrigin

/-- `origin_index`: the enum's numeric value. -/
def index : RouteOrigin → ℕ
  | LOCAL => 0
  | PUSH => 1
  | REMOTE => 2

end RouteOrigin

/-! ## Big-endian words -/

/-- `be_write_u32`: the four bytes appended to the buffer. -/
def beWriteU32 (v : UInt32) : List UInt8 :=
  [(v >>> 24).toUInt8, (v >>> 16).toUInt8, (v >>> 8).toUInt8, v.toUInt8]

/-- `be_read_u32` on the four bytes it reads. -/
def beReadU32 (b₀ b₁ b₂ b₃ : UInt8) : UInt32 :=
  (b₀.toUInt32 <<< 24) ||| (b₁.toUInt32 <<< 16) ||| (b₂.toUInt32 <<< 8) ||| b₃.toUInt32

theorem toNat_beReadU32 (b₀ b₁ b₂ b₃ : UInt8) :
    (beReadU32 b₀ b₁ b₂ b₃).toNat =
      b₀.toNat * 2 ^ 24 + b₁.toNat * 2 ^ 16 + b₂.toNat * 2 ^ 8 + b₃.toNat := by
  have h₀ := b₀.toNat_lt
  have h₁ := b₁.toNat_lt
  have h₂ := b₂.toNat_lt
  have h₃ := b₃.toNat_lt
  simp only [beReadU32, UInt32.toNat_or, UInt32.toNat_shiftLeft, UInt8.toNat_toUInt32,
    Nat.shiftLeft_eq]
  simp only [show (24 : UInt32).toNat % 32 = 24 from rfl,
    show (16 : UInt32).toNat % 32 = 16 from rfl, show (8 : UInt32).toNat % 32 = 8 from rfl]
  rw [Nat.mod_eq_of_lt (by omega), Nat.mod_eq_of_lt (by omega), Nat.mod_eq_of_lt (by omega)]
  -- the four shifted bytes do not overlap, so each `|||` is a sum
  rw [Nat.or_assoc, Nat.or_assoc, Nat.mul_comm b₂.toNat, ← Nat.two_pow_add_eq_or_of_lt (by omega),
    Nat.mul_comm b₁.toNat, ← Nat.two_pow_add_eq_or_of_lt (by omega),
    Nat.mul_comm b₀.toNat, ← Nat.two_pow_add_eq_or_of_lt (by omega)]
  omega

/-- Reading back what was written. -/
theorem beReadU32_write (v : UInt32) :
    beReadU32 (v >>> 24).toUInt8 (v >>> 16).toUInt8 (v >>> 8).toUInt8 v.toUInt8 = v := by
  apply UInt32.toNat_inj.mp
  have hv := v.toNat_lt
  rw [toNat_beReadU32]
  simp only [UInt32.toNat_toUInt8, UInt32.toNat_shiftRight, Nat.shiftRight_eq_div_pow]
  simp only [show (24 : UInt32).toNat % 32 = 24 from rfl,
    show (16 : UInt32).toNat % 32 = 16 from rfl, show (8 : UInt32).toNat % 32 = 8 from rfl]
  omega

/-! ## Token sequences as bytes -/

/-- `encode_token_be`: the cast to `uint32_t` keeps the two's complement bits. -/
def encodeTokenBe (token : TokenId) : List UInt8 := beWriteU32 token.toUInt32

/-- `encode_tokens_be`. -/
def encodeTokensBe (tokens : List TokenId) : List UInt8 := tokens.flatMap encodeTokenBe

/-- `decode_token_be` on the four bytes at its offset. -/
def decodeTokenBe (b₀ b₁ b₂ b₃ : UInt8) : TokenId := (beReadU32 b₀ b₁ b₂ b₃).toInt32

/-- `decode_tokens_be`: whole tokens only, a trailing partial one is not read. -/
def decodeTokensBe : List UInt8 → List TokenId
  | b₀ :: b₁ :: b₂ :: b₃ :: rest => decodeTokenBe b₀ b₁ b₂ b₃ :: decodeTokensBe rest
  | _ => []

@[simp] theorem encodeTokensBe_nil : encodeTokensBe [] = [] := rfl

@[simp] theorem encodeTokensBe_cons (t : TokenId) (ts : List TokenId) :
    encodeTokensBe (t :: ts) = encodeTokenBe t ++ encodeTokensBe ts := by
  simp [encodeTokensBe]

@[simp] theorem length_encodeTokenBe (t : TokenId) : (encodeTokenBe t).length = 4 := rfl

@[simp] theorem length_encodeTokensBe (ts : List TokenId) :
    (encodeTokensBe ts).length = 4 * ts.length := by
  induction ts with
  | nil => rfl
  | cons t ts ih =>
    rw [encodeTokensBe_cons, List.length_append, ih, length_encodeTokenBe, List.length_cons]
    omega

/-- **Round trip**: decoding the bytes of a token sequence gives it back. -/
@[simp] theorem decodeTokensBe_encode (ts : List TokenId) :
    decodeTokensBe (encodeTokensBe ts) = ts := by
  induction ts with
  | nil => rfl
  | cons t ts ih =>
    rw [encodeTokensBe_cons]
    change decodeTokenBe _ _ _ _ :: decodeTokensBe (encodeTokensBe ts) = t :: ts
    rw [ih, decodeTokenBe, beReadU32_write, Int32.toInt32_toUInt32]

theorem encodeTokensBe_injective {ts us : List TokenId}
    (h : encodeTokensBe ts = encodeTokensBe us) : ts = us := by
  rw [← decodeTokensBe_encode ts, h, decodeTokensBe_encode]

/-- The encoding preserves and reflects prefixes: every token takes exactly
four bytes, so a byte prefix that is itself an encoding stops between tokens. -/
theorem encodeTokensBe_isPrefix_iff {ts us : List TokenId} :
    encodeTokensBe ts <+: encodeTokensBe us ↔ ts <+: us := by
  constructor
  · intro h
    induction ts generalizing us with
    | nil => exact List.nil_prefix
    | cons t ts ih =>
      cases us with
      | nil =>
        have := h.length_le
        simp at this
      | cons u us =>
        rw [encodeTokensBe_cons, encodeTokensBe_cons] at h
        have hlen : (encodeTokenBe t).length = (encodeTokenBe u).length := rfl
        obtain ⟨s, hs⟩ := h
        rw [List.append_assoc] at hs
        obtain ⟨htok, hrest⟩ := List.append_inj hs hlen
        have htu : t = u := by
          have hsingle : encodeTokensBe [t] = encodeTokensBe [u] := by
            simpa [encodeTokensBe] using htok
          exact List.singleton_inj.mp (encodeTokensBe_injective hsingle)
        subst htu
        exact List.prefix_cons_inj t |>.mpr (ih ⟨s, hrest⟩)
  · rintro ⟨s, rfl⟩
    exact ⟨encodeTokensBe s, by simp [encodeTokensBe, List.flatMap_append]⟩

end Ranvier
