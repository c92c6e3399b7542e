import Ranvier.Types

/-!
# Decoding KV event batches

A backend's engine publishes batches of cache events as msgpack. The decoder
reads the bounded subset below and groups the events by kind: stores and removals
each with their position in the batch, clears as one flag.

* `decodeKvEventBatch` — the decoder;
* `wireEvents` — the same reading, with the events left in wire order;
* `decodeKvEventBatch_eq` — the decoded batch is the wire order, grouped.
-/

namespace Ranvier

/-! ## Events -/

/-- `KvBlockStored`. -/
structure KvBlockStored : Type where
  blockHashes : List UInt64
  parentBlockHash : Option UInt64
  tokenIds : List TokenId
  blockSize : UInt32
  deriving DecidableEq, Repr

/-- `KvBlockRemoved`. -/
structure KvBlockRemoved : Type where
  blockHashes : List UInt64
  deriving DecidableEq, Repr

/-- `KvEventBatch`. Each event stands with its entry of `order_stored` or
`order_removed`, its position in the wire order. -/
structure KvEventBatch : Type where
  tsMs : UInt64 := 0
  stored : List (ℕ × KvBlockStored) := []
  removed : List (ℕ × KvBlockRemoved) := []
  /-- an `AllBlocksCleared` appeared in the batch -/
  allCleared : Bool := false
  unknownEvents : ℕ := 0
  deriving DecidableEq, Repr

/-- An event as it stands on the wire. -/
inductive KvEvent : Type where
  | BlockStored (ev : KvBlockStored)
  | BlockRemoved (ev : KvBlockRemoved)
  | AllBlocksCleared
  /-- a tag the decoder does not know -/
  | unknown
  deriving DecidableEq, Repr

/-- What the decoder does with the event at position `i`. -/
def KvEventBatch.record (batch : KvEventBatch) (i : ℕ) : KvEvent → KvEventBatch
  | .BlockStored ev => { batch with stored := batch.stored ++ [(i, ev)] }
  | .BlockRemoved ev => { batch with removed := batch.removed ++ [(i, ev)] }
  | .AllBlocksCleared => { batch with allCleared := true }
  | .unknown => { batch with unknownEvents := batch.unknownEvents + 1 }

/-! ## Bounds -/

/-- `kKvMaxPayloadBytes`. -/
def kvMaxPayloadBytes : ℕ := 4 * 1024 * 1024

/-- `kKvMaxEventsPerBatch`. -/
def kvMaxEventsPerBatch : ℕ := 8192

/-- `kKvMaxHashesPerEvent`. -/
def kvMaxHashesPerEvent : ℕ := 16384

/-- `kKvMaxTokensPerEvent`. -/
def kvMaxTokensPerEvent : ℕ := 256 * 1024

/-- `kKvMaxSkipDepth`. -/
def kvMaxSkipDepth : ℕ := 16

/-- `kKvMaxHashBytes`. -/
def kvMaxHashBytes : ℕ := 64

/-! ## The msgpack subset -/

namespace KvMsgpack

/-- `Reader`: the bytes between the cursor and the end. -/
abbrev Reader : Type := List UInt8

/-- `Kind`, the value kinds of the schema. -/
inductive Kind : Type where
  | INT
  | F64
  | STR
  | ARR
  | MAP
  | NIL
  | BOOL
  | BIN
  deriving DecidableEq, Repr

/-- `Header`: one value header, with the payload of a scalar. -/
structure Header : Type where
  kind : Kind
  /-- the raw bits of an integer, or a length -/
  uval : UInt64 := 0
  /-- the integer is negative as an `int64_t` -/
  negative : Bool := false
  fval : Float := 0.0

/-- `Reader::big_endian`. -/
def bigEndian : ℕ → Reader → Option (UInt64 × Reader)
  | n, r =>
    if r.length < n then none
    else some ((r.take n).foldl (fun v b => (v <<< 8) ||| b.toUInt64) 0, r.drop n)

/-- A header whose value are the next `n` bytes. -/
def sized (n : ℕ) (r : Reader) (h : UInt64 → Header) : Option (Header × Reader) := do
  let (v, r) ← bigEndian n r
  return (h v, r)

/-- A header of a signed integer that the cast `ext` widens to 64 bits. -/
def signed (ext : UInt64 → Int64) (v : UInt64) : Header :=
  { kind := .INT, uval := (ext v).toUInt64, negative := decide (ext v < 0) }

/-- `read_header`. -/
def readHeader : Reader → Option (Header × Reader)
  | [] => none
  | b :: r =>
    if b ≤ 0x7f then some ({ kind := .INT, uval := b.toUInt64 }, r)
    else if 0xe0 ≤ b then
      some ({ kind := .INT, uval := b.toInt8.toInt64.toUInt64, negative := true }, r)
    else if 0xa0 ≤ b ∧ b ≤ 0xbf then some ({ kind := .STR, uval := (b &&& 0x1f).toUInt64 }, r)
    else if 0x90 ≤ b ∧ b ≤ 0x9f then some ({ kind := .ARR, uval := (b &&& 0x0f).toUInt64 }, r)
    else if 0x80 ≤ b ∧ b ≤ 0x8f then some ({ kind := .MAP, uval := (b &&& 0x0f).toUInt64 }, r)
    else if b = 0xc0 then some ({ kind := .NIL }, r)
    else if b = 0xc2 then some ({ kind := .BOOL, uval := 0 }, r)
    else if b = 0xc3 then some ({ kind := .BOOL, uval := 1 }, r)
    else if b = 0xcc then sized 1 r fun v => { kind := .INT, uval := v }
    else if b = 0xcd then sized 2 r fun v => { kind := .INT, uval := v }
    else if b = 0xce then sized 4 r fun v => { kind := .INT, uval := v }
    else if b = 0xcf then sized 8 r fun v => { kind := .INT, uval := v }
    else if b = 0xd0 then sized 1 r (signed fun v => v.toUInt8.toInt8.toInt64)
    else if b = 0xd1 then sized 2 r (signed fun v => v.toUInt16.toInt16.toInt64)
    else if b = 0xd2 then sized 4 r (signed fun v => v.toUInt32.toInt32.toInt64)
    else if b = 0xd3 then sized 8 r (signed UInt64.toInt64)
    else if b = 0xca then
      sized 4 r fun v => { kind := .F64, fval := (Float32.ofBits v.toUInt32).toFloat }
    else if b = 0xcb then sized 8 r fun v => { kind := .F64, fval := Float.ofBits v }
    else if b = 0xd9 then sized 1 r fun v => { kind := .STR, uval := v }
    else if b = 0xda then sized 2 r fun v => { kind := .STR, uval := v }
    else if b = 0xdb then sized 4 r fun v => { kind := .STR, uval := v }
    else if b = 0xc4 then sized 1 r fun v => { kind := .BIN, uval := v }
    else if b = 0xc5 then sized 2 r fun v => { kind := .BIN, uval := v }
    else if b = 0xc6 then sized 4 r fun v => { kind := .BIN, uval := v }
    else if b = 0xdc then sized 2 r fun v => { kind := .ARR, uval := v }
    else if b = 0xdd then sized 4 r fun v => { kind := .ARR, uval := v }
    else if b = 0xde then sized 2 r fun v => { kind := .MAP, uval := v }
    else if b = 0xdf then sized 4 r fun v => { kind := .MAP, uval := v }
    -- extension types and reserved bytes
    else none

/-- Read `n` values with `read`. -/
def readMany {α : Type} (read : Reader → Option (α × Reader)) : ℕ → Reader → Option (List α × Reader)
  | 0, r => some ([], r)
  | n + 1, r => do
    let (a, r) ← read r
    let (as, r) ← readMany read n r
    return (a :: as, r)

/-- Skip `n` values with `skip`. -/
def skipMany (skip : Reader → Option Reader) : ℕ → Reader → Option Reader
  | 0, r => some r
  | n + 1, r => skip r >>= skipMany skip n

/-- `skip_value`, with `levels` nesting levels left. -/
def skipNested : ℕ → Reader → Option Reader
  | 0, _ => none
  | levels + 1, r => do
    let (h, r) ← readHeader r
    match h.kind with
    | .STR | .BIN => if r.length < h.uval.toNat then none else some (r.drop h.uval.toNat)
    | .ARR =>
      if kvMaxEventsPerBatch + kvMaxHashesPerEvent < h.uval.toNat then none
      else skipMany (skipNested levels) h.uval.toNat r
    | .MAP =>
      if kvMaxEventsPerBatch < h.uval.toNat then none
      else skipMany (fun r => skipNested levels r >>= skipNested levels) h.uval.toNat r
    | _ => some r

/-- `skip_value` at depth zero: the nesting cap itself is still allowed. -/
def skipValue (r : Reader) : Option Reader := skipNested (kvMaxSkipDepth + 1) r

/-- `read_str`. -/
def readStr (r : Reader) : Option (List UInt8 × Reader) := do
  let (h, r) ← readHeader r
  if h.kind ≠ .STR ∨ 64 < h.uval.toNat ∨ r.length < h.uval.toNat then none
  else some (r.take h.uval.toNat, r.drop h.uval.toNat)

/-- `hash_from_header`: an integer as it is, the last eight bytes of a byte string. -/
def hashFromHeader (e : Header) (r : Reader) : Option (UInt64 × Reader) :=
  match e.kind with
  | .INT => some (e.uval, r)
  | .BIN | .STR =>
    let n := e.uval.toNat
    if n = 0 ∨ kvMaxHashBytes < n ∨ r.length < n then none
    else
      let bytes := (r.take n).drop (n - 8)
      some (bytes.foldl (fun v b => (v <<< 8) ||| b.toUInt64) 0, r.drop n)
  | _ => none

/-- One element of a hash array. -/
def readHash (r : Reader) : Option (UInt64 × Reader) := do
  let (e, r) ← readHeader r
  hashFromHeader e r

/-- One element of a token array. -/
def readToken (r : Reader) : Option (TokenId × Reader) := do
  let (e, r) ← readHeader r
  if e.kind ≠ .INT then none else some (e.uval.toUInt32.toInt32, r)

/-- The shape shared by `read_hash_array` and `read_token_array`. -/
def readArray {α : Type} (read : Reader → Option (α × Reader)) (maxN : ℕ) (r : Reader) :
    Option (List α × Reader) := do
  let (h, r) ← readHeader r
  if h.kind ≠ .ARR ∨ maxN < h.uval.toNat then none else readMany read h.uval.toNat r

/-- `read_hash_array`. -/
def readHashArray (r : Reader) : Option (List UInt64 × Reader) :=
  readArray readHash kvMaxHashesPerEvent r

/-- `read_token_array`. -/
def readTokenArray (r : Reader) : Option (List TokenId × Reader) :=
  readArray readToken kvMaxTokensPerEvent r

end KvMsgpack

/-! ## Batches -/

open KvMsgpack

/-- The parent of a store: nil, or a hash. -/
def readParent (r : Reader) : Option (Option UInt64 × Reader) := do
  let (parent, r) ← readHeader r
  if parent.kind = .NIL then some (none, r)
  else (hashFromHeader parent r).map fun (pv, r) => (some pv, r)

/-- The block size of a store: a positive integer within the token cap. -/
def readBlockSize (r : Reader) : Option (UInt32 × Reader) := do
  let (bs, r) ← readHeader r
  if bs.kind ≠ .INT ∨ bs.negative ∨ bs.uval = 0 ∨ kvMaxTokensPerEvent < bs.uval.toNat then none
  else some (bs.uval.toUInt32, r)

/-- The fields of a `BlockStored` event, `remaining` of them after the tag. -/
def readBlockStored (remaining : ℕ) (r : Reader) : Option (KvBlockStored × Reader) :=
  if remaining < 4 then none
  else do
    let (blockHashes, r) ← readHashArray r
    let (parentBlockHash, r) ← readParent r
    let (tokenIds, r) ← readTokenArray r
    let (blockSize, r) ← readBlockSize r
    let r ← skipMany skipValue (remaining - 4) r
    return (⟨blockHashes, parentBlockHash, tokenIds, blockSize⟩, r)

/-- The fields of a `BlockRemoved` event. -/
def readBlockRemoved (remaining : ℕ) (r : Reader) : Option (KvBlockRemoved × Reader) := do
  if remaining < 1 then none
  let (blockHashes, r) ← readHashArray r
  let r ← skipMany skipValue (remaining - 1) r
  return (⟨blockHashes⟩, r)

/-- The fields of an event after its tag. -/
def readFields (tag : List UInt8) (remaining : ℕ) (r : Reader) : Option (KvEvent × Reader) :=
  if tag = "BlockStored".toUTF8.data.toList then
    (readBlockStored remaining r).map fun (ev, r) => (.BlockStored ev, r)
  else if tag = "BlockRemoved".toUTF8.data.toList then
    (readBlockRemoved remaining r).map fun (ev, r) => (.BlockRemoved ev, r)
  else (skipMany skipValue remaining r).map fun r =>
    (if tag = "AllBlocksCleared".toUTF8.data.toList then .AllBlocksCleared else .unknown, r)

/-- One event of the batch. -/
def readEvent (r : Reader) : Option (KvEvent × Reader) := do
  let (ev, r) ← readHeader r
  if ev.kind ≠ .ARR ∨ ev.uval.toNat < 1 then none
  else do
    let (tag, r) ← readStr r
    readFields tag (ev.uval.toNat - 1) r

/-- The timestamp in milliseconds, clamped; what is neither a float nor a
non-negative integer is refused. -/
def readTimestamp (r : Reader) : Option (UInt64 × Reader) := do
  let (ts, r) ← readHeader r
  if ts.kind = .F64 then
    if ts.fval.isFinite && decide (0.0 < ts.fval) then
      let ms := ts.fval * 1000.0
      return (if 18446744073709549568.0 ≤ ms then UInt64.ofNat (2 ^ 64 - 1) else ms.toUInt64, r)
    else return (0, r)
  else if ts.kind = .INT ∧ !ts.negative then
    return (if (2 ^ 64 - 1) / 1000 < ts.uval.toNat then UInt64.ofNat (2 ^ 64 - 1)
      else ts.uval * 1000, r)
  else none

/-- The fields before the events: how many there are in the batch, the timestamp,
how many events. -/
def readBatchHead (data : List UInt8) : Option ((ℕ × UInt64 × ℕ) × Reader) := do
  if data = [] ∨ kvMaxPayloadBytes < data.length then none
  let (batch, r) ← readHeader data
  if batch.kind ≠ .ARR ∨ batch.uval.toNat < 2 then none
  let (tsMs, r) ← readTimestamp r
  let (events, r) ← readHeader r
  if events.kind ≠ .ARR ∨ kvMaxEventsPerBatch < events.uval.toNat then none
  return ((batch.uval.toNat, tsMs, events.uval.toNat), r)

/-- The loop over the events, from position `i`. -/
def decodeEvents : ℕ → ℕ → KvEventBatch → Reader → Option (KvEventBatch × Reader)
  | 0, _, out, r => some (out, r)
  | n + 1, i, out, r => do
    let (ev, r) ← readEvent r
    decodeEvents n (i + 1) (out.record i ev) r

/-- `decode_kv_event_batch`. -/
def decodeKvEventBatch (data : List UInt8) : Option KvEventBatch := do
  let ((fields, tsMs, events), r) ← readBatchHead data
  let (out, r) ← decodeEvents events 0 { tsMs := tsMs } r
  let _ ← skipMany skipValue (fields - 2) r
  return out

/-- The timestamp and the events of a payload in wire order. -/
def wireEvents (data : List UInt8) : Option (UInt64 × List KvEvent) := do
  let ((fields, tsMs, events), r) ← readBatchHead data
  let (evs, r) ← readMany readEvent events r
  let _ ← skipMany skipValue (fields - 2) r
  return (tsMs, evs)

/-- Events in wire order, grouped from position `i` on. -/
def KvEventBatch.recordAll (batch : KvEventBatch) (i : ℕ) : List KvEvent → KvEventBatch
  | [] => batch
  | ev :: evs => (batch.record i ev).recordAll (i + 1) evs

theorem decodeEvents_eq (n i : ℕ) (out : KvEventBatch) (r : Reader) :
    decodeEvents n i out r = (readMany readEvent n r).map fun p => (out.recordAll i p.1, p.2) := by
  induction n generalizing i out r with
  | zero => rfl
  | succ n ih =>
    simp only [decodeEvents, readMany]
    rcases readEvent r with _ | ⟨ev, r'⟩
    · rfl
    · simp only [Option.bind_eq_bind, Option.bind_some, ih]
      rcases readMany readEvent n r' with _ | ⟨evs, r''⟩
      · rfl
      · rfl

/-- **Decoding groups.** A payload decodes exactly when its events can be read, and
the batch is those events grouped by kind, with their positions. -/
theorem decodeKvEventBatch_eq (data : List UInt8) :
    decodeKvEventBatch data =
      (wireEvents data).map fun p => KvEventBatch.recordAll { tsMs := p.1 } 0 p.2 := by
  simp only [decodeKvEventBatch, wireEvents]
  rcases readBatchHead data with _ | ⟨⟨fields, tsMs, events⟩, r⟩
  · rfl
  · simp only [Option.bind_eq_bind, Option.bind_some, decodeEvents_eq]
    rcases readMany readEvent events r with _ | ⟨evs, r'⟩
    · rfl
    · simp only [Option.map_some, Option.bind_some]
      rcases skipMany skipValue (fields - 2) r' with _ | r''
      · rfl
      · rfl

/-! ## What is accepted -/

theorem readMany_forall {α : Type} {read : Reader → Option (α × Reader)} {P : α → Prop}
    (hread : ∀ r a r', read r = some (a, r') → P a) {n : ℕ} {r r' : Reader} {as : List α}
    (h : readMany read n r = some (as, r')) : ∀ a, a ∈ as → P a := by
  induction n generalizing r as with
  | zero =>
    obtain ⟨rfl, rfl⟩ := Prod.mk.inj (Option.some.inj h)
    intro a ha
    cases ha
  | succ n ih =>
    simp only [readMany, Option.bind_eq_bind, Option.bind_eq_some_iff] at h
    obtain ⟨⟨a₀, r₁⟩, hfirst, ⟨as', r₂⟩, hrest, heq⟩ := h
    obtain ⟨rfl, rfl⟩ := Prod.mk.inj (Option.some.inj heq)
    intro a ha
    rcases List.mem_cons.mp ha with rfl | ha
    · exact hread r a r₁ hfirst
    · exact ih hrest a ha

theorem readBlockSize_le {r r' : Reader} {blockSize : UInt32}
    (h : readBlockSize r = some (blockSize, r')) : blockSize.toNat ≤ kvMaxTokensPerEvent := by
  rw [readBlockSize, Option.bind_eq_bind, Option.bind_eq_some_iff] at h
  obtain ⟨⟨bs, r₁⟩, -, h⟩ := h
  dsimp only at h
  split_ifs at h with hbad
  obtain ⟨rfl, rfl⟩ := Prod.mk.inj (Option.some.inj h)
  rw [not_or, not_or, not_or, Nat.not_lt] at hbad
  exact (Nat.mod_le _ _).trans hbad.2.2.2

theorem readBlockStored_blockSize {remaining : ℕ} {r r' : Reader} {ev : KvBlockStored}
    (h : readBlockStored remaining r = some (ev, r')) :
    ev.blockSize.toNat ≤ kvMaxTokensPerEvent := by
  rw [readBlockStored] at h
  split_ifs at h
  simp only [Option.bind_eq_bind, Option.bind_eq_some_iff] at h
  obtain ⟨_, -, _, -, _, -, ⟨blockSize, r₁⟩, hsize, _, -, heq⟩ := h
  obtain ⟨rfl, rfl⟩ := Prod.mk.inj (Option.some.inj heq)
  exact readBlockSize_le hsize

theorem readEvent_blockSize {r r' : Reader} {ev : KvBlockStored}
    (h : readEvent r = some (.BlockStored ev, r')) : ev.blockSize.toNat ≤ kvMaxTokensPerEvent := by
  rw [readEvent, Option.bind_eq_bind, Option.bind_eq_some_iff] at h
  obtain ⟨⟨head, r₁⟩, -, h⟩ := h
  dsimp only at h
  split_ifs at h
  rw [Option.bind_eq_bind, Option.bind_eq_some_iff] at h
  obtain ⟨⟨tag, r₂⟩, -, h⟩ := h
  rw [readFields] at h
  split_ifs at h <;> obtain ⟨a, hread, heq⟩ := Option.map_eq_some_iff.mp h
  · obtain ⟨hev, rfl⟩ := Prod.mk.inj heq
    obtain rfl := KvEvent.BlockStored.inj hev
    exact readBlockStored_blockSize hread
  · cases heq
  · cases heq
  · cases heq

/-- The stores of a payload have a block size within the token cap. -/
theorem wireEvents_blockSize {data : List UInt8} {tsMs : UInt64} {evs : List KvEvent}
    (h : wireEvents data = some (tsMs, evs)) {ev : KvBlockStored} (hev : .BlockStored ev ∈ evs) :
    ev.blockSize.toNat ≤ kvMaxTokensPerEvent := by
  simp only [wireEvents, Option.bind_eq_bind, Option.bind_eq_some_iff] at h
  obtain ⟨⟨⟨fields, ts, events⟩, r⟩, -, ⟨evs', r'⟩, hread, _, -, heq⟩ := h
  obtain ⟨rfl, rfl⟩ := Prod.mk.inj (Option.some.inj heq)
  refine readMany_forall (P := fun e => ∀ ev, e = .BlockStored ev →
    ev.blockSize.toNat ≤ kvMaxTokensPerEvent) ?_ hread _ hev ev rfl
  rintro r a r' hr ev rfl
  exact readEvent_blockSize hr

end Ranvier
