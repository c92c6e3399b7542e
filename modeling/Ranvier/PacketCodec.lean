import Ranvier.Announcement

/-!
# The packets of reliable delivery on the wire

Besides route announcements a node sends acknowledgements, node states and cache
evictions. All four have a fixed layout: type and version, then the fields in
big-endian order, and a length that the reader checks exactly.

* `beWriteU32_read` and its siblings — a word read from its bytes is written back
  as these bytes;
* `packets_round_trip` — writing then reading gives the packet back, reading then
  writing gives the **bytes** back, and stamping a number into a serialized
  announcement is serializing with that number.

`serialize` takes the number of tokens from the tokens and not from `token_count`,
so an announcement comes back with the count of its tokens whatever it had. Type and
version are constants of each format.
-/

namespace Ranvier

/-! ## Words -/

/-- `be_write_u64`. -/
def beWriteU64 (v : UInt64) : List UInt8 :=
  [(v >>> 56).toUInt8, (v >>> 48).toUInt8, (v >>> 40).toUInt8, (v >>> 32).toUInt8,
    (v >>> 24).toUInt8, (v >>> 16).toUInt8, (v >>> 8).toUInt8, v.toUInt8]

/-- `be_read_u64` on the eight bytes it reads. -/
def beReadU64 (b₀ b₁ b₂ b₃ b₄ b₅ b₆ b₇ : UInt8) : UInt64 :=
  (b₀.toUInt64 <<< 56) ||| (b₁.toUInt64 <<< 48) ||| (b₂.toUInt64 <<< 40) |||
    (b₃.toUInt64 <<< 32) ||| (b₄.toUInt64 <<< 24) ||| (b₅.toUInt64 <<< 16) |||
    (b₆.toUInt64 <<< 8) ||| b₇.toUInt64

theorem toNat_beReadU16 (b₀ b₁ : UInt8) :
    (beReadU16 b₀ b₁).toNat = b₀.toNat * 2 ^ 8 + b₁.toNat := by
  have h₀ := b₀.toNat_lt
  have h₁ := b₁.toNat_lt
  simp only [beReadU16, UInt16.toNat_or, UInt16.toNat_shiftLeft, UInt8.toNat_toUInt16,
    Nat.shiftLeft_eq, show (8 : UInt16).toNat % 16 = 8 from rfl]
  rw [Nat.mod_eq_of_lt (by omega), Nat.mul_comm b₀.toNat, ← Nat.two_pow_add_eq_or_of_lt (by omega)]

theorem toNat_beReadU64 (b₀ b₁ b₂ b₃ b₄ b₅ b₆ b₇ : UInt8) :
    (beReadU64 b₀ b₁ b₂ b₃ b₄ b₅ b₆ b₇).toNat =
      b₀.toNat * 2 ^ 56 + b₁.toNat * 2 ^ 48 + b₂.toNat * 2 ^ 40 + b₃.toNat * 2 ^ 32 +
        b₄.toNat * 2 ^ 24 + b₅.toNat * 2 ^ 16 + b₆.toNat * 2 ^ 8 + b₇.toNat := by
  have h₀ := b₀.toNat_lt
  have h₁ := b₁.toNat_lt
  have h₂ := b₂.toNat_lt
  have h₃ := b₃.toNat_lt
  have h₄ := b₄.toNat_lt
  have h₅ := b₅.toNat_lt
  have h₆ := b₆.toNat_lt
  have h₇ := b₇.toNat_lt
  simp only [beReadU64, UInt64.toNat_or, UInt64.toNat_shiftLeft, UInt8.toNat_toUInt64,
    Nat.shiftLeft_eq]
  simp only [UInt64.reduceToNat, Nat.reduceMod]
  rw [Nat.mod_eq_of_lt (by omega), Nat.mod_eq_of_lt (by omega), Nat.mod_eq_of_lt (by omega),
    Nat.mod_eq_of_lt (by omega), Nat.mod_eq_of_lt (by omega), Nat.mod_eq_of_lt (by omega),
    Nat.mod_eq_of_lt (by omega)]
  -- the shifted bytes do not overlap, so each `|||` is a sum
  simp only [Nat.or_assoc]
  rw [Nat.mul_comm b₆.toNat, ← Nat.two_pow_add_eq_or_of_lt (by omega),
    Nat.mul_comm b₅.toNat, ← Nat.two_pow_add_eq_or_of_lt (by omega),
    Nat.mul_comm b₄.toNat, ← Nat.two_pow_add_eq_or_of_lt (by omega),
    Nat.mul_comm b₃.toNat, ← Nat.two_pow_add_eq_or_of_lt (by omega),
    Nat.mul_comm b₂.toNat, ← Nat.two_pow_add_eq_or_of_lt (by omega),
    Nat.mul_comm b₁.toNat, ← Nat.two_pow_add_eq_or_of_lt (by omega),
    Nat.mul_comm b₀.toNat, ← Nat.two_pow_add_eq_or_of_lt (by omega)]
  omega

/-- One more byte of a number. -/
theorem byte_add_mod (n k : ℕ) : n / 2 ^ k % 2 ^ 8 * 2 ^ k + n % 2 ^ k = n % 2 ^ (k + 8) := by
  rw [Nat.pow_add, Nat.mod_mul, Nat.mul_comm, Nat.add_comm]

theorem beReadU64_write (v : UInt64) :
    beReadU64 (v >>> 56).toUInt8 (v >>> 48).toUInt8 (v >>> 40).toUInt8 (v >>> 32).toUInt8
      (v >>> 24).toUInt8 (v >>> 16).toUInt8 (v >>> 8).toUInt8 v.toUInt8 = v := by
  apply UInt64.toNat_inj.mp
  rw [toNat_beReadU64]
  simp only [UInt64.toNat_toUInt8, UInt64.toNat_shiftRight, Nat.shiftRight_eq_div_pow]
  simp only [UInt64.reduceToNat, Nat.reduceMod, Nat.add_assoc]
  rw [byte_add_mod _ 8, byte_add_mod _ 16, byte_add_mod _ 24, byte_add_mod _ 32,
    byte_add_mod _ 40, byte_add_mod _ 48, byte_add_mod _ 56]
  exact Nat.mod_eq_of_lt v.toNat_lt

/-- The bytes of a word are determined by it. -/
theorem beWriteU32_read (b₀ b₁ b₂ b₃ : UInt8) :
    beWriteU32 (beReadU32 b₀ b₁ b₂ b₃) = [b₀, b₁, b₂, b₃] := by
  have h₀ := b₀.toNat_lt
  have h₁ := b₁.toNat_lt
  have h₂ := b₂.toNat_lt
  have h₃ := b₃.toNat_lt
  simp only [beWriteU32, List.cons.injEq, and_true, ← UInt8.toNat_inj, UInt32.toNat_toUInt8,
    UInt32.toNat_shiftRight, Nat.shiftRight_eq_div_pow, toNat_beReadU32]
  simp only [show (24 : UInt32).toNat % 32 = 24 from rfl,
    show (16 : UInt32).toNat % 32 = 16 from rfl, show (8 : UInt32).toNat % 32 = 8 from rfl]
  omega

theorem beWriteU16_read (b₀ b₁ : UInt8) : beWriteU16 (beReadU16 b₀ b₁) = [b₀, b₁] := by
  have h₀ := b₀.toNat_lt
  have h₁ := b₁.toNat_lt
  simp only [beWriteU16, List.cons.injEq, and_true, ← UInt8.toNat_inj, UInt16.toNat_toUInt8,
    UInt16.toNat_shiftRight, Nat.shiftRight_eq_div_pow, toNat_beReadU16,
    show (8 : UInt16).toNat % 16 = 8 from rfl]
  omega

theorem beWriteU64_read (b₀ b₁ b₂ b₃ b₄ b₅ b₆ b₇ : UInt8) :
    beWriteU64 (beReadU64 b₀ b₁ b₂ b₃ b₄ b₅ b₆ b₇) = [b₀, b₁, b₂, b₃, b₄, b₅, b₆, b₇] := by
  have h₀ := b₀.toNat_lt
  have h₁ := b₁.toNat_lt
  have h₂ := b₂.toNat_lt
  have h₃ := b₃.toNat_lt
  have h₄ := b₄.toNat_lt
  have h₅ := b₅.toNat_lt
  have h₆ := b₆.toNat_lt
  have h₇ := b₇.toNat_lt
  simp only [beWriteU64, List.cons.injEq, and_true, ← UInt8.toNat_inj, UInt64.toNat_toUInt8,
    UInt64.toNat_shiftRight, Nat.shiftRight_eq_div_pow, toNat_beReadU64]
  simp only [UInt64.reduceToNat, Nat.reduceMod]
  refine ⟨?_, ?_, ?_, ?_, ?_, ?_, ?_, ?_⟩ <;> omega

/-- Whole tokens are written back as the bytes they were read from. -/
theorem encodeTokensBe_decode {bytes : List UInt8} {n : ℕ} (h : bytes.length = n * 4) :
    encodeTokensBe (decodeTokensBe bytes) = bytes ∧ (decodeTokensBe bytes).length = n := by
  induction n generalizing bytes with
  | zero =>
    obtain rfl : bytes = [] := List.eq_nil_of_length_eq_zero (by omega)
    exact ⟨rfl, rfl⟩
  | succ n ih =>
    obtain ⟨b₀, b₁, b₂, b₃, rest, rfl⟩ : ∃ b₀ b₁ b₂ b₃ rest, bytes = b₀ :: b₁ :: b₂ :: b₃ :: rest := by
      match bytes, h with
      | b₀ :: b₁ :: b₂ :: b₃ :: rest, _ => exact ⟨b₀, b₁, b₂, b₃, rest, rfl⟩
      | [], h | [_], h | [_, _], h | [_, _, _], h =>
        simp only [List.length_cons, List.length_nil] at h
        omega
    simp only [List.length_cons] at h
    have hwhole : rest.length = n * 4 := by omega
    obtain ⟨hrest, hlength⟩ := ih hwhole
    constructor
    · rw [decodeTokensBe, encodeTokensBe_cons, hrest, encodeTokenBe, decodeTokenBe,
        UInt32.toUInt32_toInt32, beWriteU32_read]
      rfl
    · rw [decodeTokensBe, List.length_cons, hlength]

/-! ## Route announcements -/

namespace RouteAnnouncementPacket

/-- What is read is written back as the same bytes. -/
theorem serialize_of_deserialize {bytes : List UInt8} {p : RouteAnnouncementPacket}
    (h : deserialize bytes = some p) : p.serialize = bytes := by
  rw [deserialize.eq_def] at h
  split at h
  · next ty version s₀ s₁ s₂ s₃ b₀ b₁ b₂ b₃ c₀ c₁ rest =>
    split at h
    · cases h
    · next hheader =>
      dsimp only at h
      split at h
      · cases h
      · next hlength =>
        obtain ⟨rfl, rfl⟩ := not_or.mp hheader |>.imp not_not.mp not_not.mp
        obtain ⟨hrest, hcap⟩ := not_or.mp hlength |>.imp not_not.mp not_lt.mp
        obtain ⟨hwhole, hcount⟩ := encodeTokensBe_decode hrest
        have htokens : cappedCount (decodeTokensBe rest) = beReadU16 c₀ c₁ := by
          apply UInt16.toNat_inj.mp
          rw [toNat_cappedCount, hcount, Nat.min_eq_left hcap]
        obtain rfl := Option.some.inj h
        rw [serialize, htokens, ← hcount, List.take_length, hwhole, beWriteU32_read,
          Int32.ofInt_toInt, UInt32.toUInt32_toInt32, beWriteU32_read, beWriteU16_read]
        rfl
  · cases h

/-- Stamping is serializing with the number. -/
theorem stampSeqNum_serialize (seqNum : UInt32) (p : RouteAnnouncementPacket) :
    stampSeqNum seqNum p.serialize = serialize { p with seqNum := seqNum } := rfl

end RouteAnnouncementPacket

/-! ## The other packets -/

/-- `RouteAckPacket`. -/
structure RouteAckPacket : Type where
  seqNum : UInt32
  deriving DecidableEq, Repr

namespace RouteAckPacket

/-- `GossipPacketType::ROUTE_ACK`. -/
def packetType : UInt8 := 0x03

/-- `PROTOCOL_VERSION`. -/
def protocolVersion : UInt8 := 2

/-- `serialize`. -/
def serialize (p : RouteAckPacket) : List UInt8 :=
  packetType :: protocolVersion :: beWriteU32 p.seqNum

/-- `deserialize`: any length but `PACKET_SIZE` is refused. -/
def deserialize : List UInt8 → Option RouteAckPacket
  | [ty, version, s₀, s₁, s₂, s₃] =>
    if ty ≠ packetType ∨ version ≠ protocolVersion then none
    else some { seqNum := beReadU32 s₀ s₁ s₂ s₃ }
  | _ => none

theorem deserialize_ack (p : RouteAckPacket) : deserialize p.serialize = some p := by
  simp [serialize, deserialize, beWriteU32, beReadU32_write]

theorem serialize_of_deserialize {bytes : List UInt8} {p : RouteAckPacket}
    (h : deserialize bytes = some p) : p.serialize = bytes := by
  rw [deserialize.eq_def] at h
  split at h
  · split at h
    · cases h
    · next hheader =>
      obtain ⟨rfl, rfl⟩ := not_or.mp hheader |>.imp not_not.mp not_not.mp
      obtain rfl := Option.some.inj h
      rw [serialize, beWriteU32_read]
  · cases h

end RouteAckPacket

/-- `NodeState`, an enumeration with `uint8_t` underneath: a packet may carry any
byte. -/
structure NodeState : Type where
  byte : UInt8
  deriving DecidableEq, Repr

/-- `NodeState::ACTIVE`. -/
def NodeState.ACTIVE : NodeState := ⟨0x00⟩

/-- `NodeState::DRAINING`. -/
def NodeState.DRAINING : NodeState := ⟨0x01⟩

/-- `NodeStatePacket`; the backend id has the width it has on the wire. -/
structure NodeStatePacket : Type where
  state : NodeState := .ACTIVE
  backendId : Int32 := 0
  deriving DecidableEq, Repr

namespace NodeStatePacket

/-- `GossipPacketType::NODE_STATE`. -/
def packetType : UInt8 := 0x04

/-- `PROTOCOL_VERSION`. -/
def protocolVersion : UInt8 := 2

/-- `serialize`. -/
def serialize (p : NodeStatePacket) : List UInt8 :=
  packetType :: protocolVersion :: p.state.byte :: beWriteU32 p.backendId.toUInt32

/-- `deserialize`. -/
def deserialize : List UInt8 → Option NodeStatePacket
  | [ty, version, state, b₀, b₁, b₂, b₃] =>
    if ty ≠ packetType ∨ version ≠ protocolVersion then none
    else some { state := ⟨state⟩, backendId := (beReadU32 b₀ b₁ b₂ b₃).toInt32 }
  | _ => none

theorem deserialize_nodeState (p : NodeStatePacket) : deserialize p.serialize = some p := by
  simp [serialize, deserialize, beWriteU32, beReadU32_write]

theorem serialize_of_deserialize {bytes : List UInt8} {p : NodeStatePacket}
    (h : deserialize bytes = some p) : p.serialize = bytes := by
  rw [deserialize.eq_def] at h
  split at h
  · split at h
    · cases h
    · next hheader =>
      obtain ⟨rfl, rfl⟩ := not_or.mp hheader |>.imp not_not.mp not_not.mp
      obtain rfl := Option.some.inj h
      rw [serialize, UInt32.toUInt32_toInt32, beWriteU32_read]
  · cases h

end NodeStatePacket

/-- `CacheEvictionPacket`. -/
structure CacheEvictionPacket : Type where
  seqNum : UInt32 := 0
  backendId : Int32 := 0
  prefixHash : UInt64 := 0
  deriving DecidableEq, Repr

namespace CacheEvictionPacket

/-- `GossipPacketType::CACHE_EVICTION`. -/
def packetType : UInt8 := 0x05

/-- `PROTOCOL_VERSION`. -/
def protocolVersion : UInt8 := 2

/-- `serialize`. -/
def serialize (p : CacheEvictionPacket) : List UInt8 :=
  packetType :: protocolVersion :: beWriteU32 p.seqNum ++ beWriteU32 p.backendId.toUInt32 ++
    beWriteU64 p.prefixHash

/-- `deserialize`. -/
def deserialize : List UInt8 → Option CacheEvictionPacket
  | [ty, version, s₀, s₁, s₂, s₃, b₀, b₁, b₂, b₃, h₀, h₁, h₂, h₃, h₄, h₅, h₆, h₇] =>
    if ty ≠ packetType ∨ version ≠ protocolVersion then none
    else
      some
        { seqNum := beReadU32 s₀ s₁ s₂ s₃
          backendId := (beReadU32 b₀ b₁ b₂ b₃).toInt32
          prefixHash := beReadU64 h₀ h₁ h₂ h₃ h₄ h₅ h₆ h₇ }
  | _ => none

theorem deserialize_eviction (p : CacheEvictionPacket) : deserialize p.serialize = some p := by
  simp [serialize, deserialize, beWriteU32, beReadU32_write, beWriteU64, beReadU64_write]

theorem serialize_of_deserialize {bytes : List UInt8} {p : CacheEvictionPacket}
    (h : deserialize bytes = some p) : p.serialize = bytes := by
  rw [deserialize.eq_def] at h
  split at h
  · split at h
    · cases h
    · next hheader =>
      obtain ⟨rfl, rfl⟩ := not_or.mp hheader |>.imp not_not.mp not_not.mp
      obtain rfl := Option.some.inj h
      rw [serialize, beWriteU32_read, UInt32.toUInt32_toInt32, beWriteU32_read, beWriteU64_read]
      rfl
  · cases h

end CacheEvictionPacket

/-! ## All of them -/

/-- **Packets and bytes.** An announcement of at most `MAX_TOKENS` tokens whose
`token_count` is their number is read back as it was written, and so is every
acknowledgement, node state and cache eviction. Whatever bytes a packet is read from,
it is written as these bytes again. Stamping a number into a serialized announcement
gives what `serialize` produces for that number. -/
theorem packets_round_trip :
    (∀ (seqNum : UInt32) (backend : Int32) (tokens : List TokenId),
      tokens.length ≤ maxAnnouncedTokens →
        RouteAnnouncementPacket.deserialize (RouteAnnouncementPacket.serialize
            ⟨seqNum, backend.toInt, tokens.length.toUInt16, tokens⟩) =
          some ⟨seqNum, backend.toInt, tokens.length.toUInt16, tokens⟩) ∧
      (∀ p : RouteAckPacket, RouteAckPacket.deserialize p.serialize = some p) ∧
      (∀ p : NodeStatePacket, NodeStatePacket.deserialize p.serialize = some p) ∧
      (∀ p : CacheEvictionPacket, CacheEvictionPacket.deserialize p.serialize = some p) ∧
      (∀ bytes : List UInt8,
        (∀ p, RouteAnnouncementPacket.deserialize bytes = some p → p.serialize = bytes) ∧
        (∀ p, RouteAckPacket.deserialize bytes = some p → p.serialize = bytes) ∧
        (∀ p, NodeStatePacket.deserialize bytes = some p → p.serialize = bytes) ∧
        (∀ p, CacheEvictionPacket.deserialize bytes = some p → p.serialize = bytes)) ∧
      (∀ (seqNum : UInt32) (p : RouteAnnouncementPacket),
        stampSeqNum seqNum p.serialize =
          RouteAnnouncementPacket.serialize { p with seqNum := seqNum }) := by
  refine ⟨?_, RouteAckPacket.deserialize_ack, NodeStatePacket.deserialize_nodeState,
    CacheEvictionPacket.deserialize_eviction, ?_, RouteAnnouncementPacket.stampSeqNum_serialize⟩
  · intro seqNum backend tokens hlength
    have hcount : RouteAnnouncementPacket.cappedCount tokens = tokens.length.toUInt16 := by
      rw [RouteAnnouncementPacket.cappedCount, Nat.min_eq_left hlength]
    rw [RouteAnnouncementPacket.deserialize_serialize, hcount, List.take_of_length_le hlength]
  · intro bytes
    exact ⟨fun _ => RouteAnnouncementPacket.serialize_of_deserialize,
      fun _ => RouteAckPacket.serialize_of_deserialize,
      fun _ => NodeStatePacket.serialize_of_deserialize,
      fun _ => CacheEvictionPacket.serialize_of_deserialize⟩

theorem packets_round_trip_two_tokens :
    [(5 : TokenId), -1].length ≤ maxAnnouncedTokens ∧
      RouteAnnouncementPacket.deserialize (RouteAnnouncementPacket.serialize ⟨7, 3, 2, [5, -1]⟩) =
        some ⟨7, 3, 2, [5, -1]⟩ :=
  ⟨by decide, packets_round_trip.1 7 3 [5, -1] (by decide)⟩

/-- An announcement of one token with the default `token_count` comes back with the
count 1. -/
theorem token_count_not_kept :
    ¬∀ p : RouteAnnouncementPacket, p.tokens.length ≤ maxAnnouncedTokens →
      RouteAnnouncementPacket.deserialize p.serialize = some p := by
  intro h
  have hread := h ⟨0, 1, 0, [5]⟩ (by decide)
  revert hread
  decide

end Ranvier
