import Ranvier.Gossip
import Ranvier.RouteLearning

/-!
# Route announcements on the wire

A flushed route goes to the peers as a `RouteAnnouncementPacket`, serialized once and
stamped with each peer's sequence number; the peer reads it back and buffers the
route like any other. The packet carries at most `MAX_TOKENS` tokens.

* `deserialize_announce` — what a peer reads: the first `MAX_TOKENS` tokens, which is
  the payload `broadcastRoute` puts into flight;
* `announced_key_iff` — under which key a peer stores an announced route, and when
  that is the announcing node's key.
-/

namespace Ranvier

/-! ## Packets -/

/-- `be_write_u16`. -/
def beWriteU16 (v : UInt16) : List UInt8 := [(v >>> 8).toUInt8, v.toUInt8]

/-- `be_read_u16` on the two bytes it reads. -/
def beReadU16 (b₀ b₁ : UInt8) : UInt16 := (b₀.toUInt16 <<< 8) ||| b₁.toUInt16

theorem beReadU16_write (v : UInt16) : beReadU16 (v >>> 8).toUInt8 v.toUInt8 = v := by
  apply UInt16.toNat_inj.mp
  have hv := v.toNat_lt
  have hlow : v.toNat % 2 ^ 8 < 2 ^ 8 := Nat.mod_lt _ (by decide)
  simp only [beReadU16, UInt16.toNat_or, UInt16.toNat_shiftLeft, UInt8.toNat_toUInt16,
    UInt16.toNat_toUInt8, UInt16.toNat_shiftRight, Nat.shiftLeft_eq, Nat.shiftRight_eq_div_pow]
  simp only [show (8 : UInt16).toNat % 16 = 8 from rfl]
  rw [Nat.mod_eq_of_lt (by omega : v.toNat / 2 ^ 8 % 2 ^ 8 * 2 ^ 8 < 2 ^ 16), Nat.mul_comm,
    ← Nat.two_pow_add_eq_or_of_lt hlow]
  omega

/-- `RouteAnnouncementPacket`; its type and version are constants of the format. -/
structure RouteAnnouncementPacket : Type where
  seqNum : UInt32 := 0
  backendId : BackendId
  tokenCount : UInt16
  tokens : List TokenId
  deriving DecidableEq, Repr

namespace RouteAnnouncementPacket

/-- `GossipPacketType::ROUTE_ANNOUNCEMENT`. -/
def packetType : UInt8 := 0x01

/-- `PROTOCOL_VERSION`. -/
def protocolVersion : UInt8 := 2

/-- The `count` of `serialize` and the `token_count` of `broadcast_route`. -/
def cappedCount (tokens : List TokenId) : UInt16 :=
  UInt16.ofNat (min tokens.length maxAnnouncedTokens)

/-- `serialize`. The casts keep the two's complement bits of the backend id. -/
def serialize (p : RouteAnnouncementPacket) : List UInt8 :=
  packetType :: protocolVersion :: beWriteU32 p.seqNum ++
    beWriteU32 (Int32.ofInt p.backendId).toUInt32 ++ beWriteU16 (cappedCount p.tokens) ++
    encodeTokensBe (p.tokens.take (cappedCount p.tokens).toNat)

/-- `deserialize`. -/
def deserialize : List UInt8 → Option RouteAnnouncementPacket
  | ty :: version :: s₀ :: s₁ :: s₂ :: s₃ :: b₀ :: b₁ :: b₂ :: b₃ :: c₀ :: c₁ :: rest =>
    if ty ≠ packetType ∨ version ≠ protocolVersion then none
    else
      let count := beReadU16 c₀ c₁
      if rest.length ≠ count.toNat * 4 ∨ maxAnnouncedTokens < count.toNat then none
      else
        some
          { seqNum := beReadU32 s₀ s₁ s₂ s₃
            backendId := (beReadU32 b₀ b₁ b₂ b₃).toInt32.toInt
            tokenCount := count
            tokens := decodeTokensBe rest }
  -- shorter than `HEADER_SIZE`
  | _ => none

theorem toNat_cappedCount (tokens : List TokenId) :
    (cappedCount tokens).toNat = min tokens.length maxAnnouncedTokens := by
  have hle : min tokens.length maxAnnouncedTokens ≤ 256 := Nat.min_le_right _ _
  rw [cappedCount, UInt16.toNat_ofNat']
  exact Nat.mod_eq_of_lt (by omega)

theorem take_cappedCount (tokens : List TokenId) :
    tokens.take (cappedCount tokens).toNat = tokens.take maxAnnouncedTokens := by
  rw [toNat_cappedCount, Nat.min_comm, ← List.take_eq_take_min]

/-- **Round trip**, up to the token cap. -/
theorem deserialize_serialize (seqNum : UInt32) (backend : Int32) (tokens : List TokenId)
    (tokenCount : UInt16) :
    deserialize (serialize ⟨seqNum, backend.toInt, tokenCount, tokens⟩) =
      some ⟨seqNum, backend.toInt, cappedCount tokens, tokens.take maxAnnouncedTokens⟩ := by
  have hlength : (encodeTokensBe (tokens.take maxAnnouncedTokens)).length =
      (cappedCount tokens).toNat * 4 := by
    rw [length_encodeTokensBe, List.length_take, toNat_cappedCount, Nat.min_comm, Nat.mul_comm]
  have hcap : (cappedCount tokens).toNat ≤ maxAnnouncedTokens := by
    rw [toNat_cappedCount]
    exact Nat.min_le_right _ _
  simp only [serialize, take_cappedCount, beWriteU32, beWriteU16, List.cons_append,
    List.nil_append, deserialize, beReadU16_write, beReadU32_write]
  rw [if_neg (by simp), if_neg (by rw [hlength]; omega), decodeTokensBe_encode,
    Int32.ofInt_toInt, Int32.toInt32_toUInt32]

end RouteAnnouncementPacket

/-! ## From node to node -/

/-- Write a peer's sequence number into bytes 2 to 5 of the serialized packet. -/
def stampSeqNum (seqNum : UInt32) (serialized : List UInt8) : List UInt8 :=
  serialized.take 2 ++ beWriteU32 seqNum ++ serialized.drop 6

/-- The datagram `broadcast_route` sends to a peer. -/
def announce (seqNum : UInt32) (tokens : List TokenId) (backend : BackendId) : List UInt8 :=
  stampSeqNum seqNum (RouteAnnouncementPacket.serialize
    { backendId := backend
      tokenCount := RouteAnnouncementPacket.cappedCount tokens
      tokens := tokens })

/-- The peer reads the first `MAX_TOKENS` tokens. -/
theorem deserialize_announce (seqNum : UInt32) (tokens : List TokenId) (backend : Int32) :
    RouteAnnouncementPacket.deserialize (announce seqNum tokens backend.toInt) =
      some ⟨seqNum, backend.toInt, RouteAnnouncementPacket.cappedCount tokens,
        tokens.take maxAnnouncedTokens⟩ :=
  RouteAnnouncementPacket.deserialize_serialize seqNum backend tokens
    (RouteAnnouncementPacket.cappedCount tokens)

/-- The key a node with blocks of `blockAlignment` tokens stores a route under. -/
def storedKey (blockAlignment : ℕ+) (tokens : List TokenId) : List TokenId :=
  RadixTree.alignedTokens blockAlignment tokens

/-- Of a route's tokens only the stored key reaches the tree. -/
theorem RadixTree.insertWith_storedKey {t : RadixTree} (now : ℕ) {tokens tokens' : List TokenId}
    (h : storedKey t.blockAlignment tokens = storedKey t.blockAlignment tokens')
    (backend : BackendId) (origin : RouteOrigin) (trust : Option Bool) :
    t.insertWith now tokens backend origin trust =
      t.insertWith now tokens' backend origin trust := by
  have hlen : alignedLen t.blockAlignment tokens = alignedLen t.blockAlignment tokens' := by
    rw [← length_alignedTokens, ← length_alignedTokens]
    exact congrArg List.length h
  rw [storedKey, storedKey] at h
  rw [insertWith, insertWith, hlen, h]

/-- A route cut to its first `n` tokens, at whole blocks. -/
theorem storedKey_take (a : ℕ+) (tokens : List TokenId) (n : ℕ) :
    storedKey a (tokens.take n) = (storedKey a tokens).take (n / a * a) := by
  simp only [storedKey, RadixTree.alignedTokens, RadixTree.alignedLen, List.length_take,
    List.take_take]
  congr 1
  rcases Nat.le_total n tokens.length with hle | hle
  · have hblocks : n / a * a ≤ tokens.length / a * (a : ℕ) :=
      Nat.mul_le_mul_right _ (Nat.div_le_div_right hle)
    rw [Nat.min_eq_left hle, Nat.min_eq_left (Nat.div_mul_le_self _ _), Nat.min_eq_left hblocks]
  · have hblocks : tokens.length / a * a ≤ n / a * (a : ℕ) :=
      Nat.mul_le_mul_right _ (Nat.div_le_div_right hle)
    rw [Nat.min_eq_right hle, Nat.min_eq_right hblocks]
    exact Nat.min_eq_left ((Nat.div_mul_le_self _ _).trans hle)

/-- Cutting a route to `n` tokens keeps its key exactly when it has no whole block
beyond them. -/
theorem storedKey_take_eq_iff (a : ℕ+) (tokens : List TokenId) (n : ℕ) :
    storedKey a (tokens.take n) = storedKey a tokens ↔
      tokens.length ≤ n ∨ tokens.length / a = n / a := by
  have hlength : (storedKey a tokens).length = tokens.length / a * a :=
    RadixTree.length_alignedTokens a tokens
  rw [storedKey_take, List.take_eq_self_iff, hlength, Nat.mul_le_mul_right_iff a.pos]
  constructor
  · intro h
    rcases Nat.le_total tokens.length n with hle | hle
    · exact .inl hle
    · exact .inr (Nat.le_antisymm h (Nat.div_le_div_right hle))
  · rintro (hle | heq)
    · exact Nat.div_le_div_right hle
    · exact heq.le

/-- **The announced key.** Whatever the sequence number, the tokens and the backend, a
peer that reads the announcement stores the route under the whole blocks within the
first `MAX_TOKENS` tokens. That is the key of the announcing node exactly when the
route has no more than `MAX_TOKENS` tokens or no whole block beyond them, and then the
insertion does on every tree what the route itself would do. -/
theorem announced_key_iff (a : ℕ+) (seqNum : UInt32) (tokens : List TokenId) (backend : Int32) :
    ∃ pkt, RouteAnnouncementPacket.deserialize (announce seqNum tokens backend.toInt) = some pkt ∧
      pkt.seqNum = seqNum ∧ pkt.backendId = backend.toInt ∧
      storedKey a pkt.tokens = (storedKey a tokens).take (maxAnnouncedTokens / a * a) ∧
      (storedKey a pkt.tokens = storedKey a tokens ↔
        tokens.length ≤ maxAnnouncedTokens ∨ tokens.length / a = maxAnnouncedTokens / a) ∧
      (tokens.length ≤ maxAnnouncedTokens ∨ tokens.length / a = maxAnnouncedTokens / a →
        ∀ t : RadixTree, t.blockAlignment = a → ∀ now origin trust,
          t.insertWith now pkt.tokens pkt.backendId origin trust =
            t.insertWith now tokens backend.toInt origin trust) := by
  have hiff := storedKey_take_eq_iff a tokens maxAnnouncedTokens
  refine ⟨_, deserialize_announce seqNum tokens backend, rfl, rfl,
    storedKey_take a tokens maxAnnouncedTokens, hiff, ?_⟩
  rintro h t rfl now origin trust
  exact RadixTree.insertWith_storedKey now (hiff.mpr h) backend.toInt origin trust

/-- A route of 272 tokens, 17 blocks of 16: the peer stores it under its first 16
blocks. -/
theorem announced_key_differs :
    ∃ pkt, RouteAnnouncementPacket.deserialize (announce 0 (List.replicate 272 7) 1) = some pkt ∧
      storedKey 16 pkt.tokens ≠ storedKey 16 (List.replicate 272 7) := by
  refine ⟨_, deserialize_announce 0 (List.replicate 272 7) 1, fun heq => ?_⟩
  rw [storedKey_take_eq_iff, List.length_replicate] at heq
  revert heq
  decide

end Ranvier
