import Mathlib.Algebra.Order.Floor.Semiring
import Mathlib.Algebra.Order.Ring.Rat
import Mathlib.Data.Rat.Floor
import Ranvier.Bitmap
import Ranvier.PacketCodec

/-!
# The packets of latest-value state on the wire

Cache states, hot-prefix digests and extensions are sent without acknowledgement, and a
newer node may append fields to them: a reader takes the fields it knows and leaves the
rest. The version is recorded and refuses nothing.

* `CacheStatePacket.deserialize_append` — the two signals come back as the step of
  `1 / 65535` next to them;
* `HotPrefixDigestPacket.deserialize_append` — what is read from a digest and any tail.
  The bitmap of the verified hashes is written only if there are any, and the reader
  tells by the length alone whether there is one;
* `state_packets_tail` — what comes back whatever is appended.
-/

namespace Ranvier

/-! ## Cache states -/

/-- `quantize_unit`. -/
def quantizeUnit (v : ℚ) : UInt16 :=
  if v ≤ 0 then 0 else if 1 ≤ v then 65535 else UInt16.ofNat ⌊v * 65535 + 1 / 2⌋₊

/-- `dequantize_unit`. -/
def dequantizeUnit (v : UInt16) : ℚ := v.toNat / 65535

/-- What was read from the wire is written back as it was. -/
theorem quantizeUnit_dequantizeUnit (w : UInt16) : quantizeUnit (dequantizeUnit w) = w := by
  have hlt := w.toNat_lt
  apply UInt16.toNat_inj.mp
  rw [quantizeUnit, dequantizeUnit]
  split
  · next hle =>
    have hzero : (w.toNat : ℚ) ≤ 0 := by
      have := (div_le_iff₀ (by norm_num : (0 : ℚ) < 65535)).mp hle
      linarith
    have hnat : w.toNat = 0 := by exact_mod_cast Nat.le_zero.mp (by exact_mod_cast hzero)
    rw [hnat]
    rfl
  · split
    · next hge =>
      have hmax : (65535 : ℚ) ≤ w.toNat := by
        have := (le_div_iff₀ (by norm_num : (0 : ℚ) < 65535)).mp hge
        linarith
      have hnat : 65535 ≤ w.toNat := by exact_mod_cast hmax
      have heq : w.toNat = 65535 := by omega
      rw [heq]
      rfl
    · have hstep : (w.toNat : ℚ) / 65535 * 65535 + 1 / 2 = w.toNat + 1 / 2 := by
        rw [div_mul_cancel₀ _ (by norm_num : (65535 : ℚ) ≠ 0)]
      have hfloor : ⌊(w.toNat : ℚ) + 1 / 2⌋₊ = w.toNat := by
        rw [Nat.floor_eq_iff (by positivity)]
        constructor
        · linarith
        · linarith
      rw [hstep, hfloor, UInt16.ofNat_toNat]

/-- The step next to a signal. -/
theorem abs_dequantizeUnit_quantizeUnit {v : ℚ} (h₀ : 0 ≤ v) (h₁ : v ≤ 1) :
    |dequantizeUnit (quantizeUnit v) - v| ≤ 1 / 131070 := by
  rw [quantizeUnit]
  split
  · next hle =>
    obtain rfl := le_antisymm hle h₀
    simp [dequantizeUnit]
  · split
    · next hge =>
      obtain rfl := le_antisymm h₁ hge
      simp [dequantizeUnit]
    · next hlt =>
      have hnonneg : 0 ≤ v * 65535 + 1 / 2 := by linarith
      have hlow := Nat.floor_le hnonneg
      have hhigh := Nat.lt_floor_add_one (v * 65535 + 1 / 2)
      have hroom : ⌊v * 65535 + 1 / 2⌋₊ < 2 ^ 16 := by
        rw [Nat.floor_lt hnonneg]
        norm_num
        linarith
      have htoNat : (UInt16.ofNat ⌊v * 65535 + 1 / 2⌋₊).toNat = ⌊v * 65535 + 1 / 2⌋₊ := by
        rw [UInt16.toNat_ofNat']
        exact Nat.mod_eq_of_lt hroom
      rw [dequantizeUnit, htoNat, abs_le]
      constructor
      · rw [le_sub_iff_add_le, le_div_iff₀ (by norm_num)]
        linarith
      · rw [sub_le_iff_le_add, div_le_iff₀ (by norm_num)]
        linarith

/-- `CacheStatePacket`; its type is a constant of the format. -/
structure CacheStatePacket : Type where
  version : UInt8 := 1
  backendId : Int32 := 0
  cacheUsage : ℚ := 0
  residencyWeight : ℚ := 0
  deriving DecidableEq, Repr

namespace CacheStatePacket

/-- `GossipPacketType::CACHE_STATE`. -/
def packetType : UInt8 := 0x06

/-- `serialize`. -/
def serialize (p : CacheStatePacket) : List UInt8 :=
  packetType :: p.version :: beWriteU32 p.backendId.toUInt32 ++
    beWriteU16 (quantizeUnit p.cacheUsage) ++ beWriteU16 (quantizeUnit p.residencyWeight)

/-- `deserialize`: bytes behind `PACKET_SIZE` are left alone. -/
def deserialize : List UInt8 → Option CacheStatePacket
  | ty :: version :: b₀ :: b₁ :: b₂ :: b₃ :: u₀ :: u₁ :: w₀ :: w₁ :: _ =>
    if ty ≠ packetType then none
    else
      some
        { version
          backendId := (beReadU32 b₀ b₁ b₂ b₃).toInt32
          cacheUsage := dequantizeUnit (beReadU16 u₀ u₁)
          residencyWeight := dequantizeUnit (beReadU16 w₀ w₁) }
  | _ => none

/-- The packet as it is on the wire: the signals have the steps of the fixed-point
format. -/
def onWire (p : CacheStatePacket) : CacheStatePacket :=
  { p with
    cacheUsage := dequantizeUnit (quantizeUnit p.cacheUsage)
    residencyWeight := dequantizeUnit (quantizeUnit p.residencyWeight) }

theorem onWire_onWire (p : CacheStatePacket) : p.onWire.onWire = p.onWire := by
  simp only [onWire, quantizeUnit_dequantizeUnit]

theorem deserialize_append (p : CacheStatePacket) (tail : List UInt8) :
    deserialize (p.serialize ++ tail) = some p.onWire := by
  simp [serialize, deserialize, beWriteU32, beReadU32_write, beWriteU16, beReadU16_write, onWire]

end CacheStatePacket

/-! ## Hot-prefix digests -/

/-- The hashes of the digest, one after the other. -/
def writeHashes (hashes : List UInt64) : List UInt8 := hashes.flatMap beWriteU64

/-- The first `n` hashes. -/
def readHashes : ℕ → List UInt8 → List UInt64
  | n + 1, h₀ :: h₁ :: h₂ :: h₃ :: h₄ :: h₅ :: h₆ :: h₇ :: rest =>
    beReadU64 h₀ h₁ h₂ h₃ h₄ h₅ h₆ h₇ :: readHashes n rest
  | _, _ => []

theorem length_writeHashes (hashes : List UInt64) :
    (writeHashes hashes).length = hashes.length * 8 := by
  induction hashes with
  | nil => rfl
  | cons h hashes ih =>
    rw [writeHashes, List.flatMap_cons, List.length_append, List.length_cons]
    rw [writeHashes] at ih
    rw [ih]
    simp only [beWriteU64, List.length_cons, List.length_nil]
    omega

theorem readHashes_write (hashes : List UInt64) (tail : List UInt8) :
    readHashes hashes.length (writeHashes hashes ++ tail) = hashes := by
  induction hashes with
  | nil => simp [readHashes]
  | cons h hashes ih =>
    rw [writeHashes, List.flatMap_cons, List.append_assoc, ← writeHashes]
    simp only [beWriteU64, List.length_cons, List.cons_append, List.nil_append, readHashes,
      beReadU64_write, ih]

/-- `HotPrefixDigestPacket`; its type is a constant of the format. -/
structure HotPrefixDigestPacket : Type where
  version : UInt8 := 2
  backendId : Int32 := 0
  prefixHashes : List UInt64 := []
  verifiedHashes : List UInt64 := []
  deriving DecidableEq, Repr

namespace HotPrefixDigestPacket

/-- `GossipPacketType::HOT_PREFIX_DIGEST`. -/
def packetType : UInt8 := 0x07

/-- `MAX_HASHES`. -/
def maxHashes : ℕ := 128

/-- What the sender promises: at most `MAX_HASHES` hashes, and "always a subset of
prefix_hashes, kept in membership order". -/
structure WellFormed (p : HotPrefixDigestPacket) : Prop where
  length_le : p.prefixHashes.length ≤ maxHashes
  verified : p.verifiedHashes = p.prefixHashes.filter (· ∈ p.verifiedHashes)

/-- The verified hashes as a bitmap over the membership, if there are any. -/
def bitmapTail (hashes verified : List UInt64) : List UInt8 :=
  if verified = [] then []
  else Bitmap.ofFlags (fun i => hashes.getD i default ∈ verified) hashes.length

/-- `serialize`. -/
def serialize (p : HotPrefixDigestPacket) : List UInt8 :=
  let hashes := p.prefixHashes.take maxHashes
  packetType :: p.version :: beWriteU32 p.backendId.toUInt32 ++
    beWriteU16 (UInt16.ofNat hashes.length) ++ writeHashes hashes ++
    bitmapTail hashes p.verifiedHashes

/-- `deserialize`: what is long enough behind the hashes is read as a bitmap, a partial
one is ignored. -/
def deserialize : List UInt8 → Option HotPrefixDigestPacket
  | ty :: version :: b₀ :: b₁ :: b₂ :: b₃ :: c₀ :: c₁ :: rest =>
    if ty ≠ packetType then none
    else
      let count := (beReadU16 c₀ c₁).toNat
      if maxHashes < count then none
      else if rest.length < count * 8 then none
      else
        let hashes := readHashes count rest
        let tail := rest.drop (count * 8)
        some
          { version
            backendId := (beReadU32 b₀ b₁ b₂ b₃).toInt32
            prefixHashes := hashes
            verifiedHashes :=
              if 0 < count ∧ Bitmap.bytesFor count ≤ tail.length then Bitmap.marked tail hashes
              else [] }
  | _ => none

/-- The verified hashes that are read from the hashes and what stands behind them. -/
def readVerified (hashes : List UInt64) (tail : List UInt8) : List UInt64 :=
  if 0 < hashes.length ∧ Bitmap.bytesFor hashes.length ≤ tail.length then
    Bitmap.marked tail hashes
  else []

theorem deserialize_bytes (version : UInt8) (backendId : Int32) {hashes : List UInt64}
    (hlength : hashes.length ≤ maxHashes) (tail : List UInt8) :
    deserialize (packetType :: version :: beWriteU32 backendId.toUInt32 ++
      beWriteU16 (UInt16.ofNat hashes.length) ++ writeHashes hashes ++ tail) =
      some ⟨version, backendId, hashes, readVerified hashes tail⟩ := by
  have hcount : (UInt16.ofNat hashes.length).toNat = hashes.length := by
    rw [UInt16.toNat_ofNat']
    rw [maxHashes] at hlength
    exact Nat.mod_eq_of_lt (by omega)
  have hlong : ¬(writeHashes hashes ++ tail).length < hashes.length * 8 := by
    rw [List.length_append, length_writeHashes]
    omega
  have hdrop : (writeHashes hashes ++ tail).drop (hashes.length * 8) = tail := by
    rw [← length_writeHashes, List.drop_left]
  simp only [List.cons_append, List.nil_append, beWriteU32, beWriteU16, deserialize,
    beReadU16_write, beReadU32_write, hcount, Int32.toInt32_toUInt32]
  rw [if_neg (by simp), if_neg (not_lt.mpr hlength), if_neg hlong, readHashes_write, hdrop,
    readVerified]

/-- What is read from a digest and a tail. -/
theorem deserialize_append (p : HotPrefixDigestPacket) (tail : List UInt8) :
    deserialize (p.serialize ++ tail) =
      some
        { p with
          prefixHashes := p.prefixHashes.take maxHashes
          verifiedHashes := readVerified (p.prefixHashes.take maxHashes)
            (bitmapTail (p.prefixHashes.take maxHashes) p.verifiedHashes ++ tail) } := by
  have hbytes := deserialize_bytes p.version p.backendId
    (List.length_take_le maxHashes p.prefixHashes)
    (bitmapTail (p.prefixHashes.take maxHashes) p.verifiedHashes ++ tail)
  rw [serialize, List.append_assoc _ _ tail]
  exact hbytes

/-- A bitmap is read as it was written, whatever stands behind it. -/
theorem readVerified_bitmapTail {hashes verified : List UInt64} (hsome : verified ≠ [])
    (tail : List UInt8) :
    readVerified hashes (bitmapTail hashes verified ++ tail) = hashes.filter (· ∈ verified) := by
  have hlength : (bitmapTail hashes verified).length = Bitmap.bytesFor hashes.length := by
    rw [bitmapTail, if_neg hsome, Bitmap.length_ofFlags]
  rw [readVerified]
  split
  · rw [Bitmap.marked_append (le_of_eq hlength.symm), bitmapTail, if_neg hsome]
    exact Bitmap.marked_ofFlags (fun h => decide (h ∈ verified)) hashes
  · next hshort =>
    have hnone : hashes = [] := by
      rw [List.length_append, hlength] at hshort
      rw [← List.length_eq_zero_iff]
      omega
    rw [hnone]
    rfl

/-- Without verified hashes the tail stands where the bitmap would. -/
theorem readVerified_bitmapTail_nil (hashes : List UInt64) (tail : List UInt8) :
    readVerified hashes (bitmapTail hashes [] ++ tail) = readVerified hashes tail := by
  rw [bitmapTail, if_pos rfl, List.nil_append]

theorem readVerified_eq_nil {hashes : List UInt64} {tail : List UInt8}
    (h : hashes = [] ∨ tail.length < Bitmap.bytesFor hashes.length) :
    readVerified hashes tail = [] := by
  rw [readVerified, if_neg]
  rintro ⟨hpos, hlong⟩
  rcases h with rfl | hshort
  · exact absurd hpos (Nat.lt_irrefl 0)
  · omega

theorem WellFormed.deserialize_append {p : HotPrefixDigestPacket} (h : p.WellFormed)
    {tail : List UInt8}
    (hbitmap : p.verifiedHashes = [] →
      p.prefixHashes = [] ∨ tail.length < Bitmap.bytesFor p.prefixHashes.length) :
    deserialize (p.serialize ++ tail) = some p := by
  have htake : p.prefixHashes.take maxHashes = p.prefixHashes := List.take_of_length_le h.length_le
  have hverified : readVerified p.prefixHashes
      (bitmapTail p.prefixHashes p.verifiedHashes ++ tail) = p.verifiedHashes := by
    by_cases hnone : p.verifiedHashes = []
    · rw [hnone, readVerified_bitmapTail_nil]
      exact readVerified_eq_nil (hbitmap hnone)
    · rw [readVerified_bitmapTail hnone]
      exact h.verified.symm
  rw [HotPrefixDigestPacket.deserialize_append, htake, hverified]

end HotPrefixDigestPacket

/-! ## Extensions -/

/-- `ExtensionPacket`; its type is a constant of the format. -/
structure ExtensionPacket : Type where
  version : UInt8 := 1
  payload : List UInt8 := []
  deriving DecidableEq, Repr

namespace ExtensionPacket

/-- `GossipPacketType::EXTENSION`. -/
def packetType : UInt8 := 0x08

/-- `MAX_PAYLOAD`. -/
def maxPayload : ℕ := 1024

/-- `serialize`. -/
def serialize (p : ExtensionPacket) : List UInt8 :=
  let payload := p.payload.take maxPayload
  packetType :: p.version :: beWriteU16 (UInt16.ofNat payload.length) ++ payload

/-- `deserialize`. -/
def deserialize : List UInt8 → Option ExtensionPacket
  | ty :: version :: l₀ :: l₁ :: rest =>
    if ty ≠ packetType then none
    else
      let payloadLen := (beReadU16 l₀ l₁).toNat
      if maxPayload < payloadLen then none
      else if rest.length < payloadLen then none
      else some { version, payload := rest.take payloadLen }
  | _ => none

theorem deserialize_append (p : ExtensionPacket) (tail : List UInt8) :
    deserialize (p.serialize ++ tail) = some { p with payload := p.payload.take maxPayload } := by
  have hcap : (p.payload.take maxPayload).length ≤ maxPayload := List.length_take_le ..
  have hlength : (UInt16.ofNat (p.payload.take maxPayload).length).toNat =
      (p.payload.take maxPayload).length := by
    rw [UInt16.toNat_ofNat']
    rw [maxPayload] at hcap
    exact Nat.mod_eq_of_lt (by rw [maxPayload]; omega)
  have hlong : ¬(p.payload.take maxPayload ++ tail).length < (p.payload.take maxPayload).length := by
    rw [List.length_append]
    omega
  simp only [serialize, List.cons_append, List.nil_append, beWriteU16, deserialize,
    beReadU16_write, hlength]
  rw [if_neg (by simp), if_neg (not_lt.mpr hcap), if_neg hlong, List.take_left]

end ExtensionPacket

/-! ## Newer peers -/

/-- **Tails.** Whatever a newer peer appends, a cache state comes back with its signals
on the steps of the wire, half a step away at most, and one that is on the steps comes
back as it was. A digest comes back as it was if it carries its bitmap, if it is empty,
and if the tail is too short for a bitmap; so does an extension. -/
theorem state_packets_tail :
    (∀ (p : CacheStatePacket) (tail : List UInt8),
      CacheStatePacket.deserialize (p.serialize ++ tail) = some p.onWire ∧
      CacheStatePacket.deserialize (p.onWire.serialize ++ tail) = some p.onWire ∧
      (0 ≤ p.cacheUsage → p.cacheUsage ≤ 1 →
        |p.onWire.cacheUsage - p.cacheUsage| ≤ 1 / 131070) ∧
      (0 ≤ p.residencyWeight → p.residencyWeight ≤ 1 →
        |p.onWire.residencyWeight - p.residencyWeight| ≤ 1 / 131070)) ∧
    (∀ p : HotPrefixDigestPacket, p.WellFormed → ∀ tail : List UInt8,
      (p.verifiedHashes = [] →
        p.prefixHashes = [] ∨ tail.length < Bitmap.bytesFor p.prefixHashes.length) →
      HotPrefixDigestPacket.deserialize (p.serialize ++ tail) = some p) ∧
    (∀ p : ExtensionPacket, p.payload.length ≤ ExtensionPacket.maxPayload →
      ∀ tail : List UInt8, ExtensionPacket.deserialize (p.serialize ++ tail) = some p) := by
  refine ⟨fun p tail => ⟨p.deserialize_append tail, ?_, ?_, ?_⟩, fun p hp tail hbitmap => ?_,
    fun p hp tail => ?_⟩
  · rw [p.onWire.deserialize_append, p.onWire_onWire]
  · exact abs_dequantizeUnit_quantizeUnit
  · exact abs_dequantizeUnit_quantizeUnit
  · exact hp.deserialize_append hbitmap
  · rw [p.deserialize_append, List.take_of_length_le hp]

theorem state_packets_tail_bitmap :
    HotPrefixDigestPacket.deserialize (HotPrefixDigestPacket.serialize
      { backendId := 5, prefixHashes := [10, 20], verifiedHashes := [20] } ++ [0xDE, 0xAD]) =
      some { backendId := 5, prefixHashes := [10, 20], verifiedHashes := [20] } :=
  state_packets_tail.2.1 _ ⟨by decide, by decide⟩ _ (fun hnone => absurd hnone (by decide))

/-- Half a cache is not a step of the wire. -/
theorem half_usage_not_kept :
    ¬((∀ (p : CacheStatePacket) (tail : List UInt8),
        CacheStatePacket.deserialize (p.serialize ++ tail) = some p) ∧
      (∀ p : HotPrefixDigestPacket, p.WellFormed → ∀ tail : List UInt8,
        HotPrefixDigestPacket.deserialize (p.serialize ++ tail) = some p) ∧
      (∀ p : ExtensionPacket, p.payload.length ≤ ExtensionPacket.maxPayload →
        ∀ tail : List UInt8, ExtensionPacket.deserialize (p.serialize ++ tail) = some p)) := by
  rintro ⟨hstate, -, -⟩
  have hkept := hstate { backendId := 1, cacheUsage := 1 / 2 } []
  rw [CacheStatePacket.deserialize_append] at hkept
  have husage : dequantizeUnit (quantizeUnit (1 / 2)) = 1 / 2 :=
    congrArg CacheStatePacket.cacheUsage (Option.some.inj hkept)
  have hquantized : quantizeUnit (1 / 2) = 32768 := by
    have hfloor : ⌊(1 / 2 : ℚ) * 65535 + 1 / 2⌋₊ = 32768 := by norm_num
    rw [quantizeUnit, if_neg (by norm_num), if_neg (by norm_num), hfloor]
    rfl
  rw [hquantized, dequantizeUnit, show (32768 : UInt16).toNat = 32768 from rfl] at husage
  norm_num at husage

end Ranvier
