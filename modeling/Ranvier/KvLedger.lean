import Mathlib.Data.Finmap
import Ranvier.KvDecoder
import Ranvier.NativeKv
import Ranvier.PrefixHash

/-!
# The block ledger

The ledger turns decoded batches into operations on routing state. Per backend it
tracks the blocks the engine reported, each with the hash accumulator at its
boundary; a stored block extends its parent's accumulator.

* `onStored`, `onRemoved` — one event;
* `translate` — one decoded batch;
* `applyEvents` — the events of a batch one at a time, in the order given;
* `translate_recordAll` — a batch is translated as if its clears came first.
-/

namespace Ranvier

/-! ## State -/

/-- `KvBlockLedger::BlockState`. -/
structure BlockState : Type where
  fnvState : UInt64 := fnvOffsetBasis
  tokenCount : UInt32 := 0
  hasParent : Bool := false
  parentHash : UInt64 := 0
  /-- this block's tokens, kept within `max_materialize_tokens` only -/
  ownTokens : List TokenId := []
  deriving DecidableEq, Repr

/-- `BlockMap`: the tracked blocks of a backend by the engine's block hash. -/
abbrev BlockMap : Type := Finmap fun _ : UInt64 => BlockState

/-- `KvBlockLedger::Limits`. -/
structure LedgerLimits : Type where
  /-- `block_alignment`; the configuration check refuses zero -/
  blockAlignment : ℕ+ := 16
  maxIndexedTokenDepth : UInt32 := 2048
  maxTrackedBlocks : UInt32 := 65536
  /-- zero disables materialization -/
  maxMaterializeTokens : UInt32 := 128

/-- `KvBlockLedger::Stats`. -/
structure LedgerStats : Type where
  blocksTrackedTotal : ℕ := 0
  blocksDroppedCapacity : ℕ := 0
  blocksDroppedDepth : ℕ := 0
  orphanChains : ℕ := 0
  malformedEvents : ℕ := 0
  misalignedBackends : ℕ := 0
  materializeOps : ℕ := 0
  materializeChainBreaks : ℕ := 0
  deriving DecidableEq, Repr

/-- `KvBlockLedger`. A backend without an entry in `_blocks` tracks nothing. -/
structure KvBlockLedger : Type where
  limits : LedgerLimits
  stats : LedgerStats
  blocks : BackendId → BlockMap

namespace KvBlockLedger

/-- The constructor. -/
def create (limits : LedgerLimits) : KvBlockLedger := ⟨limits, {}, fun _ => ∅⟩

/-- Change the counters. -/
def count (f : LedgerStats → LedgerStats) (l : KvBlockLedger) : KvBlockLedger :=
  { l with stats := f l.stats }

/-- Replace the tracked blocks of a backend. -/
def setBlocks (backend : BackendId) (m : BlockMap) (l : KvBlockLedger) : KvBlockLedger :=
  { l with blocks := Function.update l.blocks backend m }

end KvBlockLedger

/-! ## Stores -/

/-- The state at the boundary of the next block: the accumulator runs over its
tokens, and they are kept while the depth is within the materialization cap. -/
def BlockState.extend (limits : LedgerLimits) (state : BlockState) (blockSize : UInt32)
    (tokens : List TokenId) (prev : Option UInt64) : BlockState :=
  let tokenCount := state.tokenCount + blockSize
  { fnvState := fnvTokens state.fnvState tokens
    tokenCount := tokenCount
    hasParent := prev.isSome
    parentHash := prev.getD 0
    ownTokens := if tokenCount ≤ limits.maxMaterializeTokens then tokens else [] }

/-- The variables of the loop over the blocks of a store. -/
structure StoreLoop : Type where
  state : BlockState
  /-- `prev_hash`, when `prev_exists` -/
  prev : Option UInt64
  blocks : BlockMap
  stats : LedgerStats
  storedBlocks : UInt32
  out : List NativeKvOp

/-- The operation that announces a boundary hash. -/
def upsertOf (backend : BackendId) (tsMs prefixHash : UInt64) : NativeKvOp :=
  { kind := .UPSERT, backend := backend, prefixHash := prefixHash, tsMs := tsMs }

/-- The operation that withdraws a boundary hash. -/
def removeOf (backend : BackendId) (tsMs prefixHash : UInt64) : NativeKvOp :=
  { kind := .REMOVE, backend := backend, prefixHash := prefixHash, tsMs := tsMs }

/-- One turn that stores: write the block, remember it as the next one's parent and
emit its boundary hash. -/
def StoreLoop.store (s : StoreLoop) (backend : BackendId) (tsMs : UInt64) (hash : UInt64)
    (state : BlockState) : StoreLoop where
  state := state
  prev := some hash
  blocks := s.blocks.insert hash state
  stats := { s.stats with blocksTrackedTotal := s.stats.blocksTrackedTotal + 1 }
  storedBlocks := s.storedBlocks + 1
  out := s.out ++ [upsertOf backend tsMs state.fnvState]

/-- The loop over the blocks: `tokens` are those not yet consumed. -/
def storeBlocks (limits : LedgerLimits) (backend : BackendId) (tsMs : UInt64) (blockSize : UInt32) :
    List UInt64 → List TokenId → StoreLoop → StoreLoop
  | [], _, s => s
  | hash :: hashes, tokens, s =>
    if limits.maxIndexedTokenDepth ≤ s.state.tokenCount then
      { s with stats := { s.stats with blocksDroppedDepth := s.stats.blocksDroppedDepth + 1 } }
    else
      let state := s.state.extend limits blockSize (tokens.take blockSize.toNat) s.prev
      if limits.maxTrackedBlocks.toNat ≤ s.blocks.keys.card ∧ hash ∉ s.blocks then
        { s with stats := { s.stats with
            blocksDroppedCapacity := s.stats.blocksDroppedCapacity + 1 } }
      else
        storeBlocks limits backend tsMs blockSize hashes (tokens.drop blockSize.toNat)
          (s.store backend tsMs hash state)

/-- The walk along the parent links, ancestors collected root first. It fails at a
block that is gone or kept no tokens, and after `fuel` further hops. -/
def walkChain (blocks : BlockMap) : ℕ → UInt64 → List TokenId → Option (List TokenId)
  | fuel, cursor, chain =>
    match blocks.lookup cursor with
    | none => none
    | some state =>
      if state.ownTokens = [] then none
      else if state.hasParent then
        match fuel with
        | 0 => none
        | fuel + 1 => walkChain blocks fuel state.parentHash (state.ownTokens ++ chain)
      else some (state.ownTokens ++ chain)

/-- The tokens before the event: none at the root, else the walk from the parent,
which must give exactly as many as the parent counts. -/
def ancestorTokens (limits : LedgerLimits) (ev : KvBlockStored) (parentTokenCount : UInt32)
    (blocks : BlockMap) : Option (List TokenId) :=
  if 0 < parentTokenCount then
    match walkChain blocks (limits.maxMaterializeTokens / ev.blockSize + 1).toNat
        (ev.parentBlockHash.getD 0) [] with
    | some tokens => if tokens.length ≠ parentTokenCount.toNat then none else some tokens
    | none => none
  else some []

/-- `maybe_materialize`. -/
def maybeMaterialize (limits : LedgerLimits) (backend : BackendId) (ev : KvBlockStored)
    (parentTokenCount storedBlocks : UInt32) (tsMs : UInt64) (blocks : BlockMap)
    (stats : LedgerStats) : LedgerStats × List NativeKvOp :=
  if limits.maxMaterializeTokens = 0 ∨ storedBlocks = 0 then (stats, [])
  else
    let firstNew := parentTokenCount + ev.blockSize
    if limits.maxMaterializeTokens < firstNew then (stats, [])
    else
      let eventEnd := parentTokenCount + storedBlocks * ev.blockSize
      let stop := min eventEnd
        (limits.maxMaterializeTokens - limits.maxMaterializeTokens % ev.blockSize)
      if stop < firstNew then (stats, [])
      else
        match ancestorTokens limits ev parentTokenCount blocks with
        | none =>
          ({ stats with materializeChainBreaks := stats.materializeChainBreaks + 1 }, [])
        | some ancestors =>
          ({ stats with materializeOps := stats.materializeOps + 1 },
           [{ kind := .MATERIALIZE, backend := backend, tsMs := tsMs,
              tokens := ancestors ++ ev.tokenIds.take (stop - parentTokenCount).toNat,
              firstNewTokenCount := firstNew.toNat, boundaryStep := ev.blockSize.toNat }])

/-- What an event gives: the ledger, the operations, and whether it was accepted. -/
structure EventResult : Type where
  ledger : KvBlockLedger
  out : List NativeKvOp
  ok : Bool

/-- The state a store starts from: fresh at the root, else its parent's, if tracked. -/
def startState (blocks : BlockMap) (ev : KvBlockStored) : Option BlockState :=
  match ev.parentBlockHash with
  | none => some {}
  | some parent => blocks.lookup parent

namespace KvBlockLedger

/-- `on_stored`. -/
def onStored (l : KvBlockLedger) (backend : BackendId) (ev : KvBlockStored) (tsMs : UInt64) :
    EventResult :=
  if ev.blockSize = 0 ∨ ev.blockHashes = [] then
    ⟨l.count fun c => { c with malformedEvents := c.malformedEvents + 1 }, [], true⟩
  else if ev.blockSize.toNat % l.limits.blockAlignment ≠ 0 then
    ⟨l.count fun c => { c with misalignedBackends := c.misalignedBackends + 1 }, [], false⟩
  else if ev.tokenIds.length ≠ ev.blockHashes.length * ev.blockSize.toNat then
    ⟨l.count fun c => { c with malformedEvents := c.malformedEvents + 1 }, [], true⟩
  else
    match startState (l.blocks backend) ev with
    | none => ⟨l.count fun c => { c with orphanChains := c.orphanChains + 1 }, [], true⟩
    | some state =>
      let s := storeBlocks l.limits backend tsMs ev.blockSize ev.blockHashes ev.tokenIds
        ⟨state, ev.parentBlockHash, l.blocks backend, l.stats, 0, []⟩
      let m := maybeMaterialize l.limits backend ev state.tokenCount s.storedBlocks tsMs s.blocks
        s.stats
      ⟨{ (l.setBlocks backend s.blocks) with stats := m.1 }, s.out ++ m.2, true⟩

/-- One hash of a removal. -/
def removeBlock (backend : BackendId) (tsMs : UInt64) (p : BlockMap × List NativeKvOp)
    (hash : UInt64) : BlockMap × List NativeKvOp :=
  match p.1.lookup hash with
  | none => p
  | some state =>
    (p.1.erase hash, p.2 ++ [removeOf backend tsMs state.fnvState])

/-- `on_removed`. -/
def onRemoved (l : KvBlockLedger) (backend : BackendId) (ev : KvBlockRemoved) (tsMs : UInt64) :
    EventResult :=
  let p := ev.blockHashes.foldl (removeBlock backend tsMs) (l.blocks backend, [])
  ⟨l.setBlocks backend p.1, p.2, true⟩

/-- The `all_cleared` branch of `translate`. -/
def onCleared (l : KvBlockLedger) (backend : BackendId) (tsMs : UInt64) : EventResult :=
  ⟨l.setBlocks backend ∅, [{ kind := .CLEAR, backend := backend, tsMs := tsMs }], true⟩

/-- Go on with `next` after an event, unless it was refused. -/
def andThen (r : EventResult) (next : KvBlockLedger → EventResult) : EventResult :=
  if r.ok then
    let r' := next r.ledger
    ⟨r'.ledger, r.out ++ r'.out, r'.ok⟩
  else r

/-- The merge of stores and removals back into wire order. -/
def translateLoop (backend : BackendId) (tsMs : UInt64) :
    List (ℕ × KvBlockStored) → List (ℕ × KvBlockRemoved) → KvBlockLedger → EventResult
  | [], [], l => ⟨l, [], true⟩
  | (_, ev) :: stored, [], l =>
    andThen (l.onStored backend ev tsMs) (translateLoop backend tsMs stored [])
  | [], (_, ev) :: removed, l =>
    andThen (l.onRemoved backend ev tsMs) (translateLoop backend tsMs [] removed)
  | (i, ev) :: stored, (j, ev') :: removed, l =>
    if i < j then
      andThen (l.onStored backend ev tsMs) (translateLoop backend tsMs stored ((j, ev') :: removed))
    else
      andThen (l.onRemoved backend ev' tsMs) (translateLoop backend tsMs ((i, ev) :: stored) removed)
termination_by stored removed => stored.length + removed.length

/-- `translate`. -/
def translate (l : KvBlockLedger) (backend : BackendId) (batch : KvEventBatch) : EventResult :=
  if batch.allCleared then
    andThen (l.onCleared backend batch.tsMs)
      (translateLoop backend batch.tsMs batch.stored batch.removed)
  else translateLoop backend batch.tsMs batch.stored batch.removed l

/-- `reset_backend`. -/
def resetBackend (l : KvBlockLedger) (backend : BackendId) (tsMs : UInt64) :
    KvBlockLedger × List NativeKvOp :=
  (l.setBlocks backend ∅, [{ kind := .RESET, backend := backend, tsMs := tsMs }])

/-- `drop_backend`. -/
def dropBackend (l : KvBlockLedger) (backend : BackendId) : KvBlockLedger := l.setBlocks backend ∅

/-- `tracked_blocks`. -/
def trackedBlocks (l : KvBlockLedger) (backend : BackendId) : ℕ := (l.blocks backend).keys.card

/-! ## The blocks a store writes -/

/-- The blocks the loop of a store writes, with the states written. -/
def storedStates (limits : LedgerLimits) (blockSize : UInt32) :
    List UInt64 → List TokenId → BlockState → Option UInt64 → BlockMap → List (UInt64 × BlockState)
  | [], _, _, _, _ => []
  | hash :: hashes, tokens, state, prev, blocks =>
    if limits.maxIndexedTokenDepth ≤ state.tokenCount then []
    else
      let state := state.extend limits blockSize (tokens.take blockSize.toNat) prev
      if limits.maxTrackedBlocks.toNat ≤ blocks.keys.card ∧ hash ∉ blocks then []
      else
        (hash, state) :: storedStates limits blockSize hashes (tokens.drop blockSize.toNat) state
          (some hash) (blocks.insert hash state)

/-- The loop, by what it writes. -/
theorem storeBlocks_eq (limits : LedgerLimits) (backend : BackendId) (tsMs : UInt64)
    (blockSize : UInt32) (hashes : List UInt64) (tokens : List TokenId) (s : StoreLoop) :
    let written := storedStates limits blockSize hashes tokens s.state s.prev s.blocks
    let s' := storeBlocks limits backend tsMs blockSize hashes tokens s
    s'.blocks = written.foldl (fun m w => m.insert w.1 w.2) s.blocks ∧
      s'.out = s.out ++ (written.map fun w => upsertOf backend tsMs w.2.fnvState) ∧
      s'.storedBlocks = s.storedBlocks + UInt32.ofNat written.length := by
  induction hashes generalizing tokens s with
  | nil => simp [storedStates, storeBlocks]
  | cons hash hashes ih =>
    simp only [storedStates, storeBlocks]
    split
    · simp
    · split
      · simp
      · obtain ⟨hblocks, hout, hcount⟩ := ih (tokens.drop blockSize.toNat) (s.store backend tsMs
          hash (s.state.extend limits blockSize (tokens.take blockSize.toNat) s.prev))
        refine ⟨hblocks, ?_, ?_⟩
        · rw [hout]
          simp [StoreLoop.store]
        · rw [hcount]
          simp [StoreLoop.store, UInt32.ofNat_add, UInt32.add_assoc, UInt32.add_comm]

/-- A store passes the checks on its shape. -/
def Accepts (limits : LedgerLimits) (ev : KvBlockStored) : Prop :=
  ev.blockSize ≠ 0 ∧ ev.blockHashes ≠ [] ∧ ev.blockSize.toNat % limits.blockAlignment = 0 ∧
    ev.tokenIds.length = ev.blockHashes.length * ev.blockSize.toNat

instance (limits : LedgerLimits) (ev : KvBlockStored) : Decidable (Accepts limits ev) :=
  inferInstanceAs (Decidable (_ ∧ _ ∧ _ ∧ _))

/-- A store that passes them and whose parent is tracked, by what it writes. -/
theorem onStored_accepted (l : KvBlockLedger) (backend : BackendId) {ev : KvBlockStored}
    (tsMs : UInt64) (h : Accepts l.limits ev) {state : BlockState}
    (hstart : startState (l.blocks backend) ev = some state) :
    ∃ stats,
      let written := storedStates l.limits ev.blockSize ev.blockHashes ev.tokenIds state
        ev.parentBlockHash (l.blocks backend)
      let blocks := written.foldl (fun m w => m.insert w.1 w.2) (l.blocks backend)
      let m := maybeMaterialize l.limits backend ev state.tokenCount
        (UInt32.ofNat written.length) tsMs blocks stats
      l.onStored backend ev tsMs =
        ⟨{ (l.setBlocks backend blocks) with stats := m.1 },
          (written.map fun w => upsertOf backend tsMs w.2.fnvState) ++ m.2, true⟩ := by
  obtain ⟨hsize, hhashes, halign, hcount⟩ := h
  obtain ⟨hblocks, hout, hstored⟩ := storeBlocks_eq l.limits backend tsMs ev.blockSize
    ev.blockHashes ev.tokenIds ⟨state, ev.parentBlockHash, l.blocks backend, l.stats, 0, []⟩
  dsimp only at hblocks hout hstored
  refine ⟨(storeBlocks l.limits backend tsMs ev.blockSize ev.blockHashes ev.tokenIds
    ⟨state, ev.parentBlockHash, l.blocks backend, l.stats, 0, []⟩).stats, ?_⟩
  rw [onStored, if_neg (by simp [hsize, hhashes]), if_neg (by simp [halign]),
    if_neg (by simp [hcount]), hstart]
  simp only [hblocks, hout, hstored, List.nil_append, UInt32.zero_add]

/-- A store without effect on the tracked blocks: refused, malformed or an orphan. -/
theorem onStored_dropped (l : KvBlockLedger) (backend : BackendId) {ev : KvBlockStored}
    (tsMs : UInt64)
    (h : ¬Accepts l.limits ev ∨ startState (l.blocks backend) ev = none) :
    (l.onStored backend ev tsMs).ledger.limits = l.limits ∧
      (l.onStored backend ev tsMs).ledger.blocks = l.blocks ∧
      (l.onStored backend ev tsMs).out = [] := by
  rw [onStored]
  split_ifs with hempty halign hcount
  · exact ⟨rfl, rfl, rfl⟩
  · exact ⟨rfl, rfl, rfl⟩
  · exact ⟨rfl, rfl, rfl⟩
  · have haccepts : Accepts l.limits ev := by
      rw [Accepts]
      tauto
    rw [h.resolve_left fun hnot => hnot haccepts]
    exact ⟨rfl, rfl, rfl⟩

/-! ## Wire order -/

/-- One event of the wire. -/
def applyEvent (l : KvBlockLedger) (backend : BackendId) (tsMs : UInt64) : KvEvent → EventResult
  | .BlockStored ev => l.onStored backend ev tsMs
  | .BlockRemoved ev => l.onRemoved backend ev tsMs
  | .AllBlocksCleared => l.onCleared backend tsMs
  | .unknown => ⟨l, [], true⟩

/-- Events one at a time, in the order given, up to the first that is refused. -/
def applyEvents (backend : BackendId) (tsMs : UInt64) : List KvEvent → KvBlockLedger → EventResult
  | [], l => ⟨l, [], true⟩
  | ev :: evs, l => andThen (l.applyEvent backend tsMs ev) (applyEvents backend tsMs evs)

/-- The order the ledger really takes a batch in: one clear first, if there is any,
then the other events as they came. -/
def clearsFirst (evs : List KvEvent) : List KvEvent :=
  (if .AllBlocksCleared ∈ evs then [.AllBlocksCleared] else []) ++
    evs.filter fun ev => decide (ev ≠ .AllBlocksCleared)

/-- No store or removal stands before a clear. -/
def clearsLead : List KvEvent → Bool
  | [] => true
  | .AllBlocksCleared :: evs => clearsLead evs
  | .unknown :: evs => clearsLead evs
  | .BlockStored _ :: evs => decide (.AllBlocksCleared ∉ evs)
  | .BlockRemoved _ :: evs => decide (.AllBlocksCleared ∉ evs)

@[simp] theorem andThen_done (l : KvBlockLedger) (next : KvBlockLedger → EventResult) :
    andThen ⟨l, [], true⟩ next = next l := rfl

/-- The stores among events from position `i` on, with their positions. -/
def storedFrom (i : ℕ) : List KvEvent → List (ℕ × KvBlockStored)
  | [] => []
  | .BlockStored ev :: evs => (i, ev) :: storedFrom (i + 1) evs
  | _ :: evs => storedFrom (i + 1) evs

/-- The removals among events from position `i` on, with their positions. -/
def removedFrom (i : ℕ) : List KvEvent → List (ℕ × KvBlockRemoved)
  | [] => []
  | .BlockRemoved ev :: evs => (i, ev) :: removedFrom (i + 1) evs
  | _ :: evs => removedFrom (i + 1) evs

theorem recordAll_eq (batch : KvEventBatch) (i : ℕ) (evs : List KvEvent) :
    (batch.recordAll i evs).tsMs = batch.tsMs ∧
      (batch.recordAll i evs).stored = batch.stored ++ storedFrom i evs ∧
      (batch.recordAll i evs).removed = batch.removed ++ removedFrom i evs ∧
      (batch.recordAll i evs).allCleared =
        (batch.allCleared || decide (.AllBlocksCleared ∈ evs)) := by
  induction evs generalizing batch i with
  | nil => simp [KvEventBatch.recordAll, storedFrom, removedFrom]
  | cons ev evs ih =>
    obtain ⟨hts, hstored, hremoved, hcleared⟩ := ih (batch.record i ev) (i + 1)
    rw [KvEventBatch.recordAll, hts, hstored, hremoved, hcleared]
    cases ev <;> simp [KvEventBatch.record, storedFrom, removedFrom]

theorem storedFrom_le {i : ℕ} {evs : List KvEvent} {p : ℕ × KvBlockStored}
    (h : p ∈ storedFrom i evs) : i ≤ p.1 := by
  induction evs generalizing i with
  | nil => cases h
  | cons ev evs ih =>
    cases ev with
    | BlockStored ev =>
      rcases List.mem_cons.mp h with rfl | h
      · exact le_refl _
      · exact (Nat.le_succ i).trans (ih h)
    | _ => exact (Nat.le_succ i).trans (ih h)

theorem removedFrom_le {i : ℕ} {evs : List KvEvent} {p : ℕ × KvBlockRemoved}
    (h : p ∈ removedFrom i evs) : i ≤ p.1 := by
  induction evs generalizing i with
  | nil => cases h
  | cons ev evs ih =>
    cases ev with
    | BlockRemoved ev =>
      rcases List.mem_cons.mp h with rfl | h
      · exact le_refl _
      · exact (Nat.le_succ i).trans (ih h)
    | _ => exact (Nat.le_succ i).trans (ih h)

/-- The merge takes the stored event in front. -/
theorem translateLoop_stored (backend : BackendId) (tsMs : UInt64) {i : ℕ} (ev : KvBlockStored)
    (stored : List (ℕ × KvBlockStored)) {removed : List (ℕ × KvBlockRemoved)}
    (h : ∀ p, p ∈ removed → i < p.1) (l : KvBlockLedger) :
    translateLoop backend tsMs ((i, ev) :: stored) removed l =
      andThen (l.onStored backend ev tsMs) (translateLoop backend tsMs stored removed) := by
  cases removed with
  | nil => rw [translateLoop]
  | cons p removed => rw [translateLoop, if_pos (h p List.mem_cons_self)]

/-- The merge takes the removal in front. -/
theorem translateLoop_removed (backend : BackendId) (tsMs : UInt64) {j : ℕ} (ev : KvBlockRemoved)
    {stored : List (ℕ × KvBlockStored)} (removed : List (ℕ × KvBlockRemoved))
    (h : ∀ p, p ∈ stored → j < p.1) (l : KvBlockLedger) :
    translateLoop backend tsMs stored ((j, ev) :: removed) l =
      andThen (l.onRemoved backend ev tsMs) (translateLoop backend tsMs stored removed) := by
  cases stored with
  | nil => rw [translateLoop]
  | cons p stored =>
    have hlt := h p List.mem_cons_self
    rw [translateLoop, if_neg (by omega)]

/-- The merge restores the wire order of stores and removals. -/
theorem translateLoop_eq (backend : BackendId) (tsMs : UInt64) (i : ℕ) (evs : List KvEvent)
    (l : KvBlockLedger) :
    translateLoop backend tsMs (storedFrom i evs) (removedFrom i evs) l =
      applyEvents backend tsMs (evs.filter fun ev => decide (ev ≠ .AllBlocksCleared)) l := by
  induction evs generalizing i l with
  | nil =>
    rw [storedFrom, removedFrom, translateLoop]
    rfl
  | cons ev evs ih =>
    have hnext : translateLoop backend tsMs (storedFrom (i + 1) evs) (removedFrom (i + 1) evs) =
        applyEvents backend tsMs (evs.filter fun ev => decide (ev ≠ .AllBlocksCleared)) :=
      funext fun l => ih (i + 1) l
    cases ev with
    | BlockStored ev =>
      rw [storedFrom, removedFrom, translateLoop_stored backend tsMs ev _
        (fun p hp => removedFrom_le hp), hnext]
      · rfl
      · simp
    | BlockRemoved ev =>
      rw [storedFrom, removedFrom, translateLoop_removed backend tsMs ev _
        (fun p hp => storedFrom_le hp), hnext]
      · rfl
      · simp
    | AllBlocksCleared => exact ih (i + 1) l
    | unknown => exact ih (i + 1) l

/-- **Clears come first.** A batch is translated as its events one at a time, in
wire order but with a single clear moved to the front. -/
theorem translate_recordAll (l : KvBlockLedger) (backend : BackendId) (tsMs : UInt64)
    (evs : List KvEvent) :
    l.translate backend (KvEventBatch.recordAll { tsMs := tsMs } 0 evs) =
      applyEvents backend tsMs (clearsFirst evs) l := by
  obtain ⟨hts, hstored, hremoved, hcleared⟩ := recordAll_eq { tsMs := tsMs } 0 evs
  have hloop := translateLoop_eq backend tsMs 0 evs
  rw [translate, hts, hstored, hremoved, hcleared, clearsFirst]
  by_cases hmem : .AllBlocksCleared ∈ evs
  · simp only [hmem, decide_true, Bool.or_true, if_true, List.nil_append, hloop,
      List.singleton_append, applyEvents]
    exact congrArg _ (funext hloop)
  · simp only [hmem, decide_false, Bool.or_false, Bool.false_eq_true, if_false, List.nil_append,
      hloop]

/-- The same ledger, the same verdict, and operations with the same net effect on
the index of any shard. -/
structure SameEffect (a b : EventResult) : Prop where
  ledger : a.ledger = b.ledger
  ok : a.ok = b.ok
  net : ∀ r : Residency, r.applyAll a.out = r.applyAll b.out

theorem SameEffect.refl (a : EventResult) : SameEffect a a := ⟨rfl, rfl, fun _ => rfl⟩

theorem SameEffect.trans {a b c : EventResult} (h : SameEffect a b) (h' : SameEffect b c) :
    SameEffect a c :=
  ⟨h.ledger.trans h'.ledger, h.ok.trans h'.ok, fun r => (h.net r).trans (h'.net r)⟩

/-- Clearing twice is clearing once. -/
theorem onCleared_twice (l : KvBlockLedger) (backend : BackendId) (tsMs : UInt64)
    (next : KvBlockLedger → EventResult) :
    SameEffect (andThen (l.onCleared backend tsMs) next)
      (andThen (l.onCleared backend tsMs) fun l => andThen (l.onCleared backend tsMs) next) := by
  have hblocks : (l.setBlocks backend ∅).setBlocks backend ∅ = l.setBlocks backend ∅ := by
    simp [setBlocks]
  simp only [andThen, onCleared, if_true, hblocks]
  refine ⟨rfl, rfl, fun r => ?_⟩
  have hpurge : ∀ r : Residency, (r.purge backend).purge backend = r.purge backend := by
    intro r
    have herase : (r.indexEntries.erase backend).erase backend = r.indexEntries.erase backend := by
      refine Finmap.ext_lookup fun id => ?_
      by_cases hid : id = backend
      · rw [hid, Finmap.lookup_erase, Finmap.lookup_erase]
      · rw [Finmap.lookup_erase_ne hid]
    simp [Residency.purge, herase]
  simp [Residency.applyAll, Residency.apply, hpurge]

theorem SameEffect.andThen {a : EventResult} {f g : KvBlockLedger → EventResult}
    (h : SameEffect (f a.ledger) (g a.ledger)) : SameEffect (andThen a f) (andThen a g) := by
  rw [KvBlockLedger.andThen, KvBlockLedger.andThen]
  split
  · refine ⟨h.ledger, h.ok, fun r => ?_⟩
    have hnet := h.net (r.applyAll a.out)
    simp only [Residency.applyAll, List.foldl_append] at hnet ⊢
    exact hnet
  · exact SameEffect.refl a

/-- Where the clears lead, moving them to the front changes nothing that counts. -/
theorem applyEvents_clearsFirst (backend : BackendId) (tsMs : UInt64) {evs : List KvEvent}
    (h : clearsLead evs = true) (l : KvBlockLedger) :
    SameEffect (applyEvents backend tsMs (clearsFirst evs) l)
      (applyEvents backend tsMs evs l) := by
  induction evs generalizing l with
  | nil => exact SameEffect.refl _
  | cons ev evs ih =>
    -- without a clear further on, nothing is moved
    have hstay : .AllBlocksCleared ∉ evs → clearsFirst evs = evs := by
      intro hnot
      rw [clearsFirst, if_neg hnot, List.nil_append, List.filter_eq_self]
      intro e he
      exact decide_eq_true fun hc => hnot (hc ▸ he)
    cases ev with
    | BlockStored ev =>
      have hnot : .AllBlocksCleared ∉ evs := of_decide_eq_true h
      have hcons : clearsFirst (.BlockStored ev :: evs) = .BlockStored ev :: clearsFirst evs := by
        simp [clearsFirst, hnot]
      rw [hcons, hstay hnot]
      exact SameEffect.refl _
    | BlockRemoved ev =>
      have hnot : .AllBlocksCleared ∉ evs := of_decide_eq_true h
      have hcons : clearsFirst (.BlockRemoved ev :: evs) = .BlockRemoved ev :: clearsFirst evs := by
        simp [clearsFirst, hnot]
      rw [hcons, hstay hnot]
      exact SameEffect.refl _
    | AllBlocksCleared =>
      have hrest := fun l => ih h l
      by_cases hmem : .AllBlocksCleared ∈ evs
      · have hcons : clearsFirst (.AllBlocksCleared :: evs) = clearsFirst evs := by
          simp [clearsFirst, hmem]
        have hlead : clearsFirst evs = .AllBlocksCleared ::
            evs.filter fun ev => decide (ev ≠ .AllBlocksCleared) := by
          simp [clearsFirst, hmem]
        rw [hcons, hlead]
        refine SameEffect.trans (onCleared_twice l backend tsMs _) (SameEffect.andThen ?_)
        have hinner := hrest (l.onCleared backend tsMs).ledger
        rw [hlead] at hinner
        exact hinner
      · have hcons : clearsFirst (.AllBlocksCleared :: evs) =
            .AllBlocksCleared :: clearsFirst evs := by
          simp [clearsFirst, hmem]
        rw [hcons]
        exact SameEffect.andThen (hrest _)
    | unknown =>
      have hcons : applyEvents backend tsMs (clearsFirst (.unknown :: evs)) l =
          applyEvents backend tsMs (clearsFirst evs) l := by
        by_cases hmem : .AllBlocksCleared ∈ evs
        · simp only [clearsFirst, List.mem_cons, hmem, or_true, if_true]
          rfl
        · simp [clearsFirst, hmem, applyEvents, applyEvent]
      rw [hcons]
      exact ih h l

/-- **A decoded batch.** Its translation is that of its events one at a time, in
wire order but with a single clear moved to the front; and where no store or
removal stands before a clear, it has the same effect as the wire order. -/
theorem translate_decoded {data : List UInt8} {batch : KvEventBatch}
    (hdecode : decodeKvEventBatch data = some batch) (l : KvBlockLedger) (backend : BackendId) :
    ∃ tsMs evs, wireEvents data = some (tsMs, evs) ∧
      l.translate backend batch = applyEvents backend tsMs (clearsFirst evs) l ∧
      (clearsLead evs = true →
        SameEffect (l.translate backend batch) (applyEvents backend tsMs evs l)) := by
  rw [decodeKvEventBatch_eq] at hdecode
  obtain ⟨⟨tsMs, evs⟩, hwire, rfl⟩ := Option.map_eq_some_iff.mp hdecode
  refine ⟨tsMs, evs, hwire, l.translate_recordAll backend tsMs evs, fun hlead => ?_⟩
  rw [translate_recordAll]
  exact applyEvents_clearsFirst backend tsMs hlead l

/-- A payload of one second: a clear, then the store of block 10 over one token. -/
def clearThenStore : List UInt8 :=
  [0x92, 0x01, 0x92, 0x91, 0xb0] ++ "AllBlocksCleared".toUTF8.data.toList ++
    [0x95, 0xab] ++ "BlockStored".toUTF8.data.toList ++ [0x91, 0x0a, 0xc0, 0x91, 0x07, 0x01]

/-- The same events the other way round. -/
def storeThenClear : List UInt8 :=
  [0x92, 0x01, 0x92, 0x95, 0xab] ++ "BlockStored".toUTF8.data.toList ++
    [0x91, 0x0a, 0xc0, 0x91, 0x07, 0x01, 0x91, 0xb0] ++ "AllBlocksCleared".toUTF8.data.toList

/-- A ledger over single tokens that tracks nothing yet. -/
def emptyLedger : KvBlockLedger := create { blockAlignment := ⟨1, Nat.one_pos⟩ }

theorem translate_decoded_clearThenStore :
    ∃ tsMs evs, wireEvents clearThenStore = some (tsMs, evs) ∧
      emptyLedger.translate 0 ⟨1000, [(1, ⟨[10], none, [7], 1⟩)], [], true, 0⟩ =
        applyEvents 0 tsMs (clearsFirst evs) emptyLedger ∧
      (clearsLead evs = true →
        SameEffect (emptyLedger.translate 0 ⟨1000, [(1, ⟨[10], none, [7], 1⟩)], [], true, 0⟩)
          (applyEvents 0 tsMs evs emptyLedger)) :=
  translate_decoded (by decide) emptyLedger 0

/-- A store before a clear survives it: the ledger tracks a block after the batch,
and none after the events in wire order. -/
theorem store_survives_clear :
    ∃ batch tsMs evs, decodeKvEventBatch storeThenClear = some batch ∧
      wireEvents storeThenClear = some (tsMs, evs) ∧
      (emptyLedger.translate 0 batch).ledger.trackedBlocks 0 = 1 ∧
      (applyEvents 0 tsMs evs emptyLedger).ledger.trackedBlocks 0 = 0 := by
  refine ⟨⟨1000, [(0, ⟨[10], none, [7], 1⟩)], [], true, 0⟩, 1000,
    [.BlockStored ⟨[10], none, [7], 1⟩, .AllBlocksCleared], ?_⟩
  decide +kernel

end KvBlockLedger

end Ranvier
