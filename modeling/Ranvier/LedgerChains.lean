import Ranvier.LedgerMirror

/-!
# The hashes and tokens the ledger emits

The accumulator is carried from block to block, across events and batches, and the
tokens of a materialization are collected backwards along parent links. Where
every block hash of the engine denotes one parent and one token block, both agree
with the chain of tokens from the root:

* `Chain D k T` — the tokens from the root block to block `k`;
* `BlockOk` — what the ledger knows of a tracked block, in terms of its chain;
* `storedStates_ok`, `walkChain_eq` — the forward and the backward walk;
* `ops_faithful` — every `UPSERT` carries the prefix hash of its block's chain and
  every `MATERIALIZE` a prefix of it.
-/

namespace Ranvier

open KvBlockLedger

/-! ## Chains -/

/-- What the engine's block hashes stand for: the parent and the block's tokens. -/
abbrev Denotation : Type := UInt64 → Option UInt64 × List TokenId

/-- `T` are the tokens from the root block to block `k`. -/
inductive Chain (D : Denotation) : UInt64 → List TokenId → Prop where
  | root {k : UInt64} (h : (D k).1 = none) : Chain D k (D k).2
  | child {k p : UInt64} {T : List TokenId} (h : (D k).1 = some p) (hp : Chain D p T) :
      Chain D k (T ++ (D k).2)

theorem Chain.unique {D : Denotation} {k : UInt64} {T T' : List TokenId} (h : Chain D k T)
    (h' : Chain D k T') : T = T' := by
  induction h generalizing T' with
  | root hk =>
    cases h' with
    | root => rfl
    | child hk' => rw [hk] at hk'; cases hk'
  | child hk _ ih =>
    cases h' with
    | root hk' => rw [hk] at hk'; cases hk'
    | child hk' hp' =>
      rw [hk] at hk'
      obtain rfl := Option.some.inj hk'
      rw [ih hp']

/-- The tokens before a block whose parent is `prev`. -/
def ChainTo (D : Denotation) : Option UInt64 → List TokenId → Prop
  | none, T => T = []
  | some p, T => Chain D p T

theorem ChainTo.extend {D : Denotation} {k : UInt64} {T : List TokenId}
    (h : ChainTo D (D k).1 T) : Chain D k (T ++ (D k).2) := by
  rcases hk : (D k).1 with _ | p
  · rw [hk] at h
    obtain rfl : T = [] := h
    exact Chain.root hk
  · rw [hk] at h
    exact Chain.child hk h

/-- The blocks of an event denote what the event says of them. -/
def Denotes (D : Denotation) (blockSize : ℕ) : Option UInt64 → List UInt64 → List TokenId → Prop
  | _, [], _ => True
  | prev, hash :: hashes, tokens =>
    D hash = (prev, tokens.take blockSize) ∧
      Denotes D blockSize (some hash) hashes (tokens.drop blockSize)

/-- A hash at whole blocks covers everything. -/
theorem hashPrefix_self {a : ℕ+} {T : List TokenId} (h : (a : ℕ) ∣ T.length) :
    hashPrefix T T.length a = fnvTokens fnvOffsetBasis T := by
  have hlen : hashedLen a T.length = T.length := by
    rw [hashedLen, Nat.div_mul_cancel h]
    exact ite_self _
  rw [hashPrefix, hlen, List.take_length]

/-! ## What is known of a tracked block -/

/-- A state that sums up the tokens `T`. -/
structure Sums (limits : LedgerLimits) (state : BlockState) (T : List TokenId) : Prop where
  fnv : state.fnvState = fnvTokens fnvOffsetBasis T
  count : state.tokenCount.toNat = T.length
  aligned : (limits.blockAlignment : ℕ) ∣ T.length

/-- A tracked block and its chain. -/
structure BlockOk (D : Denotation) (limits : LedgerLimits) (k : UInt64) (state : BlockState) :
    Prop where
  chain : ∃ T, Chain D k T ∧ Sums limits state T
  hasParent : state.hasParent = (D k).1.isSome
  parentHash : state.parentHash = (D k).1.getD 0
  ownTokens : state.ownTokens ≠ [] → state.ownTokens = (D k).2

/-- Every tracked block is known by its chain. -/
def BlocksOk (D : Denotation) (limits : LedgerLimits) (blocks : BlockMap) : Prop :=
  ∀ k state, blocks.lookup k = some state → BlockOk D limits k state

theorem BlocksOk.insert {D : Denotation} {limits : LedgerLimits} {blocks : BlockMap}
    (h : BlocksOk D limits blocks) {k : UInt64} {state : BlockState}
    (hk : BlockOk D limits k state) : BlocksOk D limits (blocks.insert k state) := by
  intro k' state' h'
  by_cases hne : k' = k
  · subst hne
    rw [Finmap.lookup_insert] at h'
    obtain rfl := Option.some.inj h'
    exact hk
  · rw [Finmap.lookup_insert_of_ne _ hne] at h'
    exact h k' state' h'

theorem BlocksOk.erase {D : Denotation} {limits : LedgerLimits} {blocks : BlockMap}
    (h : BlocksOk D limits blocks) (k : UInt64) : BlocksOk D limits (blocks.erase k) := by
  intro k' state' h'
  by_cases hne : k' = k
  · rw [hne, Finmap.lookup_erase] at h'
    cases h'
  · rw [Finmap.lookup_erase_ne hne] at h'
    exact h k' state' h'

theorem BlocksOk.insertAll {D : Denotation} {limits : LedgerLimits} {blocks : BlockMap}
    (h : BlocksOk D limits blocks) {written : List (UInt64 × BlockState)}
    (hw : ∀ w, w ∈ written → BlockOk D limits w.1 w.2) :
    BlocksOk D limits (written.foldl (fun m w => m.insert w.1 w.2) blocks) := by
  induction written generalizing blocks with
  | nil => exact h
  | cons w written ih =>
    exact ih (h.insert (hw w List.mem_cons_self)) fun w' hw' => hw w' (List.mem_cons_of_mem _ hw')

theorem BlocksOk.applyAll {D : Denotation} {limits : LedgerLimits} {blocks : BlockMap}
    (h : BlocksOk D limits blocks) {es : List (MapEdit UInt64 BlockState)}
    (hput : ∀ k state, .put k state ∈ es → BlockOk D limits k state) :
    BlocksOk D limits (MapEdit.applyAll blocks es) := by
  induction es generalizing blocks with
  | nil => exact h
  | cons e es ih =>
    refine ih ?_ fun k state hmem => hput k state (List.mem_cons_of_mem _ hmem)
    cases e with
    | put k state => exact h.insert (hput k state List.mem_cons_self)
    | del k => exact h.erase k
    | wipe =>
      intro k state hk
      cases hk

/-! ## The forward walk -/

/-- Extending a state by a block of `blockSize` tokens, below the depth cap. -/
theorem Sums.extend {limits : LedgerLimits} {state : BlockState} {T : List TokenId}
    (h : Sums limits state T) {blockSize : UInt32} {block : List TokenId} (prev : Option UInt64)
    (hblock : block.length = blockSize.toNat)
    (halign : blockSize.toNat % limits.blockAlignment = 0)
    (hdepth : ¬limits.maxIndexedTokenDepth ≤ state.tokenCount)
    (hsize : limits.maxIndexedTokenDepth.toNat + blockSize.toNat ≤ 2 ^ 32) :
    Sums limits (state.extend limits blockSize block prev) (T ++ block) where
  fnv := by
    rw [fnvTokens_append, ← h.fnv]
    rfl
  count := by
    have hlt : state.tokenCount.toNat < limits.maxIndexedTokenDepth.toNat := by
      rw [UInt32.le_iff_toNat_le] at hdepth
      omega
    change (state.tokenCount + blockSize).toNat = _
    rw [UInt32.toNat_add, h.count, List.length_append, hblock, Nat.mod_eq_of_lt]
    rw [← h.count]
    omega
  aligned := by
    rw [List.length_append, hblock]
    exact Nat.dvd_add h.aligned (Nat.dvd_of_mod_eq_zero halign)

/-- The block written behind a chain is known by the chain extended by its tokens. -/
theorem BlockOk.of_extend {D : Denotation} {limits : LedgerLimits} {state : BlockState}
    {hash : UInt64} {T block : List TokenId} {blockSize : UInt32} {prev : Option UInt64}
    (hD : D hash = (prev, block)) (hchain : Chain D hash (T ++ block))
    (hsums : Sums limits (state.extend limits blockSize block prev) (T ++ block)) :
    BlockOk D limits hash (state.extend limits blockSize block prev) := by
  refine ⟨⟨_, hchain, hsums⟩, ?_, ?_, ?_⟩
  · rw [hD]
    rfl
  · rw [hD]
    rfl
  · -- own tokens are kept within the materialization cap only
    intro hne
    rw [hD]
    rw [BlockState.extend] at hne ⊢
    dsimp only at hne ⊢
    split at hne
    · next hcap => rw [if_pos hcap]
    · exact absurd rfl hne

/-- **Forward.** The blocks a store writes are the first of the event, each known by
its chain: the tokens before the event and the event's tokens up to it. -/
theorem storedStates_ok {D : Denotation} {limits : LedgerLimits} {blockSize : UInt32}
    (halign : blockSize.toNat % limits.blockAlignment = 0)
    (hsize : limits.maxIndexedTokenDepth.toNat + blockSize.toNat ≤ 2 ^ 32)
    {hashes : List UInt64} {tokens : List TokenId} {state : BlockState} {prev : Option UInt64}
    (blocks : BlockMap) {P : List TokenId}
    (hden : Denotes D blockSize.toNat prev hashes tokens)
    (hlen : tokens.length = hashes.length * blockSize.toNat)
    (hprev : ChainTo D prev P) (hstate : Sums limits state P) :
    let written := storedStates limits blockSize hashes tokens state prev blocks
    (∀ w, w ∈ written → BlockOk D limits w.1 w.2) ∧
      written.map Prod.fst = hashes.take written.length ∧
      ∀ j, j < written.length → ∃ w, written[j]? = some w ∧
        Chain D w.1 (P ++ tokens.take ((j + 1) * blockSize.toNat)) := by
  induction hashes generalizing tokens state prev blocks P with
  | nil => simp [storedStates]
  | cons hash hashes ih =>
    obtain ⟨hD, hden⟩ := hden
    rw [List.length_cons, Nat.add_mul, Nat.one_mul] at hlen
    simp only [storedStates]
    split
    · simp
    · rename_i hdepth
      split
      · simp
      · have hblock : (tokens.take blockSize.toNat).length = blockSize.toNat := by
          rw [List.length_take]
          omega
        have hext := hstate.extend prev hblock halign hdepth hsize
        have hchain : Chain D hash (P ++ tokens.take blockSize.toNat) := by
          have h : ChainTo D (D hash).1 P := by
            rw [hD]
            exact hprev
          have h := h.extend
          rw [hD] at h
          exact h
        have hok : BlockOk D limits hash
            (state.extend limits blockSize (tokens.take blockSize.toNat) prev) :=
          .of_extend hD hchain hext
        obtain ⟨hall, hkeys, hchains⟩ := ih (blocks.insert hash
          (state.extend limits blockSize (tokens.take blockSize.toNat) prev)) hden
          (by rw [List.length_drop]; omega) hchain hext
        refine ⟨?_, ?_, ?_⟩
        · intro w hw
          rcases List.mem_cons.mp hw with rfl | hw
          · exact hok
          · exact hall w hw
        · rw [List.map_cons, hkeys, List.length_cons, List.take_succ_cons]
        · intro j hj
          cases j with
          | zero => exact ⟨_, rfl, by rw [Nat.zero_add, Nat.one_mul]; exact hchain⟩
          | succ j =>
            obtain ⟨w, hw, hc⟩ := hchains j (by simpa using hj)
            refine ⟨w, hw, ?_⟩
            rw [List.append_assoc, ← List.take_add] at hc
            rw [Nat.succ_mul (j + 1), Nat.add_comm]
            exact hc

/-! ## The backward walk -/

/-- A block without a parent has its chain in its own tokens. -/
theorem BlockOk.ownTokens_eq_chain {D : Denotation} {limits : LedgerLimits} {p : UInt64}
    {state : BlockState} {P : List TokenId} (hb : BlockOk D limits p state)
    (hown : state.ownTokens ≠ []) (hpar : ¬state.hasParent = true) (hchain : Chain D p P) :
    state.ownTokens = P := by
  rw [hb.hasParent] at hpar
  have hroot : (D p).1 = none := by simpa using hpar
  rw [hb.ownTokens hown, Chain.unique hchain (Chain.root hroot)]

/-- **Backward.** If the walk along the parent links ends, it has collected the chain. -/
theorem walkChain_eq {D : Denotation} {limits : LedgerLimits} {blocks : BlockMap}
    (hok : BlocksOk D limits blocks) {fuel : ℕ} {p : UInt64} {P acc R : List TokenId}
    (hchain : Chain D p P) (h : walkChain blocks fuel p acc = some R) : R = P ++ acc := by
  induction fuel generalizing p P acc with
  | zero =>
    rw [walkChain] at h
    split at h
    · cases h
    · rename_i state hfind
      have hb := hok p state hfind
      split_ifs at h with hown hpar
      obtain rfl := Option.some.inj h
      rw [hb.ownTokens_eq_chain hown hpar hchain]
  | succ fuel ih =>
    rw [walkChain] at h
    split at h
    · cases h
    · rename_i state hfind
      have hb := hok p state hfind
      split_ifs at h with hown hpar
      · rw [hb.hasParent] at hpar
        obtain ⟨q, hq⟩ := Option.isSome_iff_exists.mp hpar
        rw [hb.parentHash, hq, Option.getD_some, hb.ownTokens hown] at h
        cases hchain with
        | root hroot => rw [hroot] at hq; cases hq
        | child hq' hqchain =>
          rw [hq] at hq'
          obtain rfl := Option.some.inj hq'
          rw [ih hqchain h, List.append_assoc]
      · obtain rfl := Option.some.inj h
        rw [hb.ownTokens_eq_chain hown hpar hchain]

/-! ## Materialization -/

/-- The depths at which a `MATERIALIZE` inserts routes (`applyMaterialize`). -/
def NativeKvOp.boundaries (op : NativeKvOp) : List ℕ :=
  List.range' op.firstNewTokenCount
    ((op.tokens.length - op.firstNewTokenCount) / op.boundaryStep + 1) op.boundaryStep

/-- The multiples of `step` after `p`, up to the `n`-th and to the last multiple of
`step` within `cap`: for a `p` on the grid, those within `cap`. -/
theorem mem_grid_iff {p step n cap stop c : ℕ} (hstep : 0 < step) (hp : step ∣ p)
    (hstop : stop = min (p + n * step) (cap - cap % step)) (hfirst : p + step ≤ stop) :
    c ∈ List.range' (p + step) ((stop - (p + step)) / step + 1) step ↔
      ∃ j, j < n ∧ c = p + (j + 1) * step ∧ c ≤ cap := by
  have hcap : ∀ q, q * step ≤ cap → q * step ≤ cap - cap % step := by
    intro q hq
    have hle : q * step ≤ cap / step * step :=
      Nat.mul_le_mul_right step ((Nat.le_div_iff_mul_le hstep).mpr hq)
    have hdiv := Nat.div_add_mod' cap step
    omega
  obtain ⟨k, rfl⟩ := hp
  rw [List.mem_range']
  constructor
  · rintro ⟨i, hi, rfl⟩
    have hle : i * step ≤ stop - (step * k + step) :=
      (Nat.le_div_iff_mul_le hstep).mp (Nat.lt_succ_iff.mp hi)
    have hmul : step * i = i * step := Nat.mul_comm _ _
    have hsucc : (i + 1) * step = i * step + step := Nat.succ_mul _ _
    have hn : i + 1 ≤ n := Nat.le_of_mul_le_mul_right (by omega) hstep
    exact ⟨i, hn, by omega, by omega⟩
  · rintro ⟨j, hj, rfl, hle⟩
    have hsum : step * k + (j + 1) * step = (k + (j + 1)) * step := by
      rw [Nat.add_mul k, Nat.mul_comm step k]
    have hgrid := hcap (k + (j + 1)) (by omega)
    have hn : (j + 1) * step ≤ n * step := Nat.mul_le_mul_right step hj
    have hsucc : (j + 1) * step = j * step + step := Nat.succ_mul _ _
    refine ⟨j, ?_, by rw [Nat.mul_comm step j]; omega⟩
    exact Nat.lt_succ_iff.mpr ((Nat.le_div_iff_mul_le hstep).mpr (by omega))

theorem toNat_min (a b : UInt32) : (min a b).toNat = min a.toNat b.toNat := by
  change (if a ≤ b then a else b).toNat = _
  split <;> rename_i h <;> rw [UInt32.le_iff_toNat_le] at h <;> omega

/-- What a `MATERIALIZE` for an event says, when the event stored its first `n` blocks
after the tokens `P`: a prefix of the chain of the last of them, and, if the grid of
the event's blocks starts at the root, routes at exactly the new boundaries within
the cap. -/
structure Materializes (limits : LedgerLimits) (ev : KvBlockStored) (P : List TokenId) (n : ℕ)
    (op : NativeKvOp) : Prop where
  isPrefix : op.tokens <+: P ++ ev.tokenIds.take (n * ev.blockSize.toNat)
  covers : ev.blockSize.toNat ∣ P.length → ∀ c, c ∈ op.boundaries ↔
    ∃ j, j < n ∧ c = P.length + (j + 1) * ev.blockSize.toNat ∧
      c ≤ limits.maxMaterializeTokens.toNat

/-- The walk from the parent, when it succeeds, gives the tokens before the event. -/
theorem ancestorTokens_eq {D : Denotation} {limits : LedgerLimits} {blocks : BlockMap}
    (hok : BlocksOk D limits blocks) {ev : KvBlockStored} {P R : List TokenId}
    (hparent : ChainTo D ev.parentBlockHash P) {count : UInt32} (hcount : count.toNat = P.length)
    (h : ancestorTokens limits ev count blocks = some R) : R = P := by
  rw [ancestorTokens] at h
  split at h
  · rename_i hpos
    split at h
    · rename_i tokens hwalk
      split_ifs at h
      obtain rfl := Option.some.inj h
      rcases hp : ev.parentBlockHash with _ | p
      · -- without a parent nothing precedes the event
        rw [hp] at hparent
        obtain rfl : P = [] := hparent
        rw [UInt32.lt_iff_toNat_lt, hcount] at hpos
        exact absurd hpos (lt_irrefl 0)
      · rw [hp] at hwalk hparent
        rw [walkChain_eq hok hparent hwalk, List.append_nil]
    · cases h
  · rename_i hzero
    obtain rfl := Option.some.inj h
    rw [UInt32.lt_iff_toNat_lt, hcount, UInt32.toNat_zero, Nat.pos_iff_ne_zero, not_not] at hzero
    exact (List.length_eq_zero_iff.mp hzero).symm

theorem maybeMaterialize_ok {D : Denotation} {limits : LedgerLimits} {backend : BackendId}
    {ev : KvBlockStored} {count : UInt32} {n : ℕ} {tsMs : UInt64} {blocks : BlockMap}
    {stats : LedgerStats} {P : List TokenId} (hok : BlocksOk D limits blocks)
    (hparent : ChainTo D ev.parentBlockHash P) (hcount : count.toNat = P.length)
    (hbs : ev.blockSize ≠ 0) (hn : n * ev.blockSize.toNat ≤ ev.tokenIds.length)
    (hroom : 0 < n → P.length + n * ev.blockSize.toNat < 2 ^ 32) {op : NativeKvOp}
    (hop : op ∈ (maybeMaterialize limits backend ev count (UInt32.ofNat n) tsMs blocks stats).2) :
    Materializes limits ev P n op := by
  have hpos : 0 < ev.blockSize.toNat := by
    rcases Nat.eq_zero_or_pos ev.blockSize.toNat with h | h
    · exact absurd (UInt32.toNat_inj.mp h) hbs
    · exact h
  unfold maybeMaterialize at hop
  dsimp only at hop
  split_ifs at hop with hoff hfirst hstop <;> try cases hop
  -- something was stored, so nothing below wraps around
  have hn0 : 0 < n := by
    rcases Nat.eq_zero_or_pos n with rfl | h
    · exact absurd (.inr rfl) hoff
    · exact h
  have hlt := hroom hn0
  have hnlt : n < 2 ^ 32 := by
    have := Nat.le_mul_of_pos_right n hpos
    omega
  have hstep : ev.blockSize.toNat ≤ n * ev.blockSize.toNat := Nat.le_mul_of_pos_left _ hn0
  have hnew : (count + ev.blockSize).toNat = P.length + ev.blockSize.toNat := by
    rw [UInt32.toNat_add, hcount, Nat.mod_eq_of_lt (by omega)]
  have hend : (count + UInt32.ofNat n * ev.blockSize).toNat =
      P.length + n * ev.blockSize.toNat := by
    rw [UInt32.toNat_add, UInt32.toNat_mul, UInt32.toNat_ofNat', Nat.mod_eq_of_lt hnlt,
      Nat.mod_eq_of_lt (by omega : n * ev.blockSize.toNat < 2 ^ 32), hcount, Nat.mod_eq_of_lt hlt]
  have hcap : (limits.maxMaterializeTokens - limits.maxMaterializeTokens % ev.blockSize).toNat =
      limits.maxMaterializeTokens.toNat - limits.maxMaterializeTokens.toNat % ev.blockSize.toNat := by
    have hle : limits.maxMaterializeTokens % ev.blockSize ≤ limits.maxMaterializeTokens := by
      rw [UInt32.le_iff_toNat_le, UInt32.toNat_mod]
      exact Nat.mod_le _ _
    rw [UInt32.toNat_sub_of_le _ _ hle, UInt32.toNat_mod]
  generalize hmin : min (count + UInt32.ofNat n * ev.blockSize)
    (limits.maxMaterializeTokens - limits.maxMaterializeTokens % ev.blockSize) = stop at hop hstop
  have hminNat : stop.toNat = min (P.length + n * ev.blockSize.toNat)
      (limits.maxMaterializeTokens.toNat -
        limits.maxMaterializeTokens.toNat % ev.blockSize.toNat) := by
    rw [← hmin, toNat_min, hend, hcap]
  rw [UInt32.lt_iff_toNat_lt, hnew] at hstop
  split at hop
  · cases hop
  · rename_i ancestors hwalk
    obtain rfl := List.mem_singleton.mp hop
    rw [ancestorTokens_eq hok hparent hcount hwalk]
    have hsub : (stop - count).toNat = stop.toNat - P.length := by
      rw [UInt32.toNat_sub_of_le _ _ (by rw [UInt32.le_iff_toNat_le]; omega), hcount]
    rw [hsub, hnew]
    have hstopLe : stop.toNat - P.length ≤ n * ev.blockSize.toNat := by omega
    refine ⟨?_, fun hdvd c => ?_⟩
    · exact (List.prefix_append_right_inj P).mpr (List.take_prefix_take_left hstopLe)
    · have hlength : (P ++ ev.tokenIds.take (stop.toNat - P.length)).length = stop.toNat := by
        rw [List.length_append, List.length_take]
        omega
      rw [NativeKvOp.boundaries]
      dsimp only
      rw [hlength]
      exact mem_grid_iff hpos hdvd hminNat (by omega)

/-! ## Runs -/

/-- The stores of a run, with their backend and timestamp. -/
def storesOf (as : List LedgerAction) : List (BackendId × UInt64 × KvBlockStored) :=
  as.flatMap fun
    | .batch backend tsMs evs => evs.filterMap fun
      | .BlockStored ev => some (backend, tsMs, ev)
      | _ => none
    | .reset _ _ => []

/-- Every batch of the run is a decoded payload. -/
def AllDecoded (as : List LedgerAction) : Prop :=
  ∀ backend tsMs evs, .batch backend tsMs evs ∈ as → ∃ data, wireEvents data = some (tsMs, evs)

/-- The operations of one store: for its first `n` blocks, in order, the prefix hash
of the block's chain at every block size that divides its length, the router's
alignment among them, and then possibly a materialization. -/
structure StoreOps (D : Denotation) (limits : LedgerLimits) (backend : BackendId) (tsMs : UInt64)
    (ev : KvBlockStored) (P : List TokenId) (n : ℕ) (upserts rest : List NativeKvOp) : Prop where
  parent : ChainTo D ev.parentBlockHash P
  upserted : List.Forall₂
    (fun k op => ∃ T, Chain D k T ∧ (limits.blockAlignment : ℕ) ∣ T.length ∧
      ∀ b : ℕ+, (b : ℕ) ∣ T.length → op = upsertOf backend tsMs (hashPrefix T T.length b))
    (ev.blockHashes.take n) upserts
  materialized : ∀ op, op ∈ rest → op.kind = .MATERIALIZE ∧ Materializes limits ev P n op

/-- Operations that are, piece by piece, those of a store among `stores`, or neither
`UPSERT` nor `MATERIALIZE`. -/
inductive OpsFaithful (D : BackendId → Denotation) (limits : LedgerLimits)
    (stores : List (BackendId × UInt64 × KvBlockStored)) : List NativeKvOp → Prop where
  | nil : OpsFaithful D limits stores []
  | other {op : NativeKvOp} (h : op.kind ≠ .UPSERT ∧ op.kind ≠ .MATERIALIZE) :
      OpsFaithful D limits stores [op]
  | store {backend : BackendId} {tsMs : UInt64} {ev : KvBlockStored} {P : List TokenId} {n : ℕ}
      {upserts rest : List NativeKvOp} (hmem : (backend, tsMs, ev) ∈ stores)
      (h : StoreOps (D backend) limits backend tsMs ev P n upserts rest) :
      OpsFaithful D limits stores (upserts ++ rest)
  | append {ops ops' : List NativeKvOp} (h : OpsFaithful D limits stores ops)
      (h' : OpsFaithful D limits stores ops') : OpsFaithful D limits stores (ops ++ ops')

theorem OpsFaithful.mono {D : BackendId → Denotation} {limits : LedgerLimits}
    {stores stores' : List (BackendId × UInt64 × KvBlockStored)} (hsub : stores ⊆ stores')
    {ops : List NativeKvOp} (h : OpsFaithful D limits stores ops) :
    OpsFaithful D limits stores' ops := by
  induction h with
  | nil => exact .nil
  | other h => exact .other h
  | store hmem h => exact .store (hsub hmem) h
  | append _ _ ih ih' => exact .append ih ih'

theorem OpsFaithful.others {D : BackendId → Denotation} {limits : LedgerLimits}
    {stores : List (BackendId × UInt64 × KvBlockStored)} {ops : List NativeKvOp}
    (h : ∀ op, op ∈ ops → op.kind ≠ .UPSERT ∧ op.kind ≠ .MATERIALIZE) :
    OpsFaithful D limits stores ops := by
  induction ops with
  | nil => exact .nil
  | cons op ops ih =>
    have hfirst : OpsFaithful D limits stores [op] := .other (h op List.mem_cons_self)
    exact hfirst.append (ih fun op' hop' => h op' (List.mem_cons_of_mem _ hop'))

namespace KvBlockLedger

/-- What is known of every backend's blocks. -/
def LedgerOk (D : BackendId → Denotation) (l : KvBlockLedger) : Prop :=
  ∀ backend, BlocksOk (D backend) l.limits (l.blocks backend)

/-- The start of a store is summed up by the tokens before it. -/
theorem startState_ok {D : Denotation} {limits : LedgerLimits} {blocks : BlockMap}
    (hok : BlocksOk D limits blocks) {ev : KvBlockStored} {state : BlockState}
    (h : startState blocks ev = some state) :
    ∃ P, ChainTo D ev.parentBlockHash P ∧ Sums limits state P := by
  rw [startState] at h
  rcases hp : ev.parentBlockHash with _ | p
  · rw [hp] at h
    obtain rfl := Option.some.inj h
    exact ⟨[], rfl, rfl, rfl, Nat.dvd_zero _⟩
  · rw [hp] at h
    exact (hok p state h).chain

/-- The operations of a store that is taken, by what it writes. -/
theorem storeOps_ok {D : Denotation} {limits : LedgerLimits} {blocks : BlockMap}
    (hok : BlocksOk D limits blocks) {ev : KvBlockStored} (haccepts : Accepts limits ev)
    (hsize : limits.maxIndexedTokenDepth.toNat + ev.blockSize.toNat ≤ 2 ^ 32)
    (hden : Denotes D ev.blockSize.toNat ev.parentBlockHash ev.blockHashes ev.tokenIds)
    {state : BlockState} (hstart : startState blocks ev = some state)
    {written : List (UInt64 × BlockState)}
    (hwritten : storedStates limits ev.blockSize ev.blockHashes ev.tokenIds state
      ev.parentBlockHash blocks = written) (backend : BackendId) (tsMs : UInt64)
    (stats : LedgerStats) :
    (∀ w, w ∈ written → BlockOk D limits w.1 w.2) ∧
      ∃ P, StoreOps D limits backend tsMs ev P written.length
        (written.map fun w => upsertOf backend tsMs w.2.fnvState)
        (maybeMaterialize limits backend ev state.tokenCount (UInt32.ofNat written.length) tsMs
          (written.foldl (fun m w => m.insert w.1 w.2) blocks) stats).2 := by
  obtain ⟨hbs, -, halign, hlen⟩ := haccepts
  obtain ⟨P, hprev, hsums⟩ := startState_ok hok hstart
  obtain ⟨hall, hkeys, hchains⟩ := storedStates_ok halign hsize blocks hden hlen hprev hsums
  rw [hwritten] at hall hkeys hchains
  have hcount : written.length ≤ ev.blockHashes.length := by
    have h := congrArg List.length hkeys
    rw [List.length_map, List.length_take] at h
    omega
  have hn : written.length * ev.blockSize.toNat ≤ ev.tokenIds.length := by
    rw [hlen]
    exact Nat.mul_le_mul_right _ hcount
  -- the count of the last block written did not wrap around
  have hroom : 0 < written.length →
      P.length + written.length * ev.blockSize.toNat < 2 ^ 32 := by
    intro hpos
    obtain ⟨w, hw, hchain⟩ := hchains (written.length - 1) (by omega)
    obtain ⟨T, hT, hsumsT⟩ := (hall w (List.mem_of_getElem? hw)).chain
    rw [Nat.sub_add_cancel hpos] at hchain
    have hlength := congrArg List.length (hT.unique hchain)
    rw [← hsumsT.count, List.length_append, List.length_take, Nat.min_eq_left hn] at hlength
    rw [← hlength]
    exact w.2.tokenCount.toNat_lt
  refine ⟨hall, P, hprev, ?_, ?_⟩
  · rw [← hkeys, List.forall₂_map_left_iff, List.forall₂_map_right_iff, List.forall₂_same]
    intro w hw
    obtain ⟨T, hT, hsumsT⟩ := (hall w hw).chain
    refine ⟨T, hT, hsumsT.aligned, fun b hb => ?_⟩
    rw [hashPrefix_self hb, hsumsT.fnv]
  · intro op hop
    exact ⟨(mem_maybeMaterialize hop).1,
      maybeMaterialize_ok (hok.insertAll hall) hprev hsums.count hbs hn hroom hop⟩

/-- **One store.** Its operations are faithful, and the blocks stay known. -/
theorem onStored_faithful {D : BackendId → Denotation} {l : KvBlockLedger} {backend : BackendId}
    (hok : BlocksOk (D backend) l.limits (l.blocks backend)) (ev : KvBlockStored) (tsMs : UInt64)
    (hsize : l.limits.maxIndexedTokenDepth.toNat + ev.blockSize.toNat ≤ 2 ^ 32)
    (hden : Accepts l.limits ev →
      Denotes (D backend) ev.blockSize.toNat ev.parentBlockHash ev.blockHashes ev.tokenIds) :
    (∀ k state, .put k state ∈ storeEdits l.limits (l.blocks backend) ev →
      BlockOk (D backend) l.limits k state) ∧
    OpsFaithful D l.limits [(backend, tsMs, ev)] (l.onStored backend ev tsMs).out := by
  -- a dropped event emits nothing and writes nothing
  have hdropped : ¬Accepts l.limits ev ∨ startState (l.blocks backend) ev = none →
      OpsFaithful D l.limits [(backend, tsMs, ev)] (l.onStored backend ev tsMs).out := by
    intro h
    obtain ⟨-, -, hout⟩ := l.onStored_dropped backend tsMs h
    rw [hout]
    exact .nil
  rw [storeEdits]
  by_cases haccepts : Accepts l.limits ev
  · rw [if_pos haccepts]
    rcases hstart : startState (l.blocks backend) ev with _ | state
    · refine ⟨?_, hdropped (.inr hstart)⟩
      intro k state hmem
      cases hmem
    · obtain ⟨stats, heq⟩ := l.onStored_accepted backend tsMs haccepts hstart
      obtain ⟨hall, P, hops⟩ := storeOps_ok hok haccepts hsize (hden haccepts) hstart rfl
        backend tsMs stats
      rw [heq]
      refine ⟨?_, .store List.mem_cons_self hops⟩
      intro k state hmem
      obtain ⟨w, hw, hput⟩ := List.mem_map.mp hmem
      obtain ⟨rfl, rfl⟩ := MapEdit.put.inj hput
      exact hall w hw
  · rw [if_neg haccepts]
    refine ⟨?_, hdropped (.inl haccepts)⟩
    intro k state hmem
    cases hmem

/-- What is asked of an event: a block size that cannot overflow the depth counter,
and blocks that denote what the event says of them. -/
def EventTrue (D : Denotation) (limits : LedgerLimits) : KvEvent → Prop
  | .BlockStored ev => limits.maxIndexedTokenDepth.toNat + ev.blockSize.toNat ≤ 2 ^ 32 ∧
      (Accepts limits ev →
        Denotes D ev.blockSize.toNat ev.parentBlockHash ev.blockHashes ev.tokenIds)
  | _ => True

/-- **One event.** -/
theorem applyEvent_faithful {D : BackendId → Denotation} {l : KvBlockLedger} {backend : BackendId}
    (hok : BlocksOk (D backend) l.limits (l.blocks backend)) (tsMs : UInt64) {ev : KvEvent}
    (hev : EventTrue (D backend) l.limits ev) :
    BlocksOk (D backend) l.limits ((l.applyEvent backend tsMs ev).ledger.blocks backend) ∧
      OpsFaithful D l.limits (storesOf [.batch backend tsMs [ev]])
        (l.applyEvent backend tsMs ev).out := by
  rw [(applyEvent_edits l backend tsMs ev).1.blocks]
  cases ev with
  | BlockStored ev =>
    obtain ⟨hput, hops⟩ := onStored_faithful hok ev tsMs hev.1 hev.2
    exact ⟨BlocksOk.applyAll hok hput, hops⟩
  | BlockRemoved ev =>
    refine ⟨BlocksOk.applyAll hok ?_, OpsFaithful.others ?_⟩
    · intro k state hmem
      obtain ⟨_, -, hdel⟩ := List.mem_map.mp hmem
      cases hdel
    · intro op hop
      have hkind : op.kind = .REMOVE := removeBlocks_kind (by intro op hop; cases hop) op hop
      rw [hkind]
      decide
  | AllBlocksCleared =>
    refine ⟨BlocksOk.applyAll hok ?_, OpsFaithful.others ?_⟩
    · intro k state hmem
      cases List.mem_singleton.mp hmem
    · intro op hop
      obtain rfl := List.mem_singleton.mp hop
      refine ⟨fun h => ?_, fun h => ?_⟩
      · cases h
      · cases h
  | unknown =>
    refine ⟨hok, .nil⟩

theorem storesOf_cons (backend : BackendId) (tsMs : UInt64) (ev : KvEvent) (evs : List KvEvent) :
    storesOf [.batch backend tsMs (ev :: evs)] =
      storesOf [.batch backend tsMs [ev]] ++ storesOf [.batch backend tsMs evs] := by
  cases ev <;> simp [storesOf]

/-- **Events one at a time.** -/
theorem applyEvents_faithful {D : BackendId → Denotation} {backend : BackendId} (tsMs : UInt64)
    {evs : List KvEvent} {l : KvBlockLedger}
    (hok : BlocksOk (D backend) l.limits (l.blocks backend))
    (hevs : ∀ ev, ev ∈ evs → EventTrue (D backend) l.limits ev) :
    BlocksOk (D backend) l.limits ((applyEvents backend tsMs evs l).ledger.blocks backend) ∧
      OpsFaithful D l.limits (storesOf [.batch backend tsMs evs])
        (applyEvents backend tsMs evs l).out := by
  induction evs generalizing l with
  | nil => exact ⟨hok, .nil⟩
  | cons ev evs ih =>
    obtain ⟨hfirst, hops⟩ := applyEvent_faithful hok tsMs (hevs ev List.mem_cons_self)
    rw [applyEvents, andThen, storesOf_cons]
    split
    · have hlimits := (applyEvent_edits l backend tsMs ev).1.limits
      rw [← hlimits] at hfirst hops
      obtain ⟨hrest, hops'⟩ := ih hfirst (by
        rw [hlimits]
        exact fun ev' hev' => hevs ev' (List.mem_cons_of_mem _ hev'))
      rw [hlimits] at hrest hops hops'
      exact ⟨hrest, .append (hops.mono (List.subset_append_left _ _))
        (hops'.mono (List.subset_append_right _ _))⟩
    · exact ⟨hfirst, hops.mono (List.subset_append_left _ _)⟩

theorem mem_clearsFirst {ev : KvEvent} {evs : List KvEvent} (h : ev ∈ clearsFirst evs) :
    ev ∈ evs := by
  rw [clearsFirst, List.mem_append] at h
  rcases h with h | h
  · split_ifs at h with hmem
    · obtain rfl := List.mem_singleton.mp h
      exact hmem
    · cases h
  · exact List.mem_of_mem_filter h

theorem storesOf_mono {backend : BackendId} {tsMs : UInt64} {evs evs' : List KvEvent}
    (h : ∀ ev, ev ∈ evs → ev ∈ evs') :
    storesOf [.batch backend tsMs evs] ⊆ storesOf [.batch backend tsMs evs'] := by
  intro x hx
  simp only [storesOf, List.flatMap_cons, List.flatMap_nil, List.append_nil,
    List.mem_filterMap] at hx ⊢
  obtain ⟨ev, hmem, heq⟩ := hx
  exact ⟨ev, h ev hmem, heq⟩

/-- What is asked of an action. -/
def ActionTrue (D : BackendId → Denotation) (limits : LedgerLimits) : LedgerAction → Prop
  | .batch backend _ evs => ∀ ev, ev ∈ evs → EventTrue (D backend) limits ev
  | .reset _ _ => True

/-- **One action.** -/
theorem act_faithful {D : BackendId → Denotation} {l : KvBlockLedger} (hok : LedgerOk D l)
    {a : LedgerAction} (ha : ActionTrue D l.limits a) :
    LedgerOk D (l.act a).1 ∧ OpsFaithful D l.limits (storesOf [a]) (l.act a).2 := by
  have hlimits : (l.act a).1.limits = l.limits := (act_edits l 0 a).1
  cases a with
  | batch b tsMs evs =>
    have htrue : ∀ ev, ev ∈ clearsFirst evs → EventTrue (D b) l.limits ev :=
      fun ev hev => ha ev (mem_clearsFirst hev)
    have hevents := applyEvents_faithful tsMs (hok b) htrue
    have hedits := applyEvents_edits b tsMs (clearsFirst evs) l
    rw [LedgerOk, hlimits]
    simp only [act, translate_recordAll]
    refine ⟨fun backend => ?_, hevents.2.mono (storesOf_mono fun ev => mem_clearsFirst)⟩
    by_cases hb : backend = b
    · rw [hb]
      exact hevents.1
    · rw [hedits.others backend hb]
      exact hok backend
  | reset b tsMs =>
    rw [LedgerOk, hlimits]
    refine ⟨fun backend => ?_, OpsFaithful.others ?_⟩
    · rw [(act_edits l backend (.reset b tsMs)).2.1]
      refine BlocksOk.applyAll (hok backend) ?_
      intro k state hmem
      rw [actionEdits] at hmem
      split_ifs at hmem
      · cases List.mem_singleton.mp hmem
      · cases hmem
    · intro op hop
      obtain rfl := List.mem_singleton.mp hop
      refine ⟨fun h => ?_, fun h => ?_⟩
      · cases h
      · cases h

/-- **A run.** -/
theorem run_faithful {D : BackendId → Denotation} {as : List LedgerAction} {l : KvBlockLedger}
    (hok : LedgerOk D l) (has : ∀ a, a ∈ as → ActionTrue D l.limits a) :
    OpsFaithful D l.limits (storesOf as) (l.run as).2 := by
  induction as generalizing l with
  | nil => exact .nil
  | cons a as ih =>
    obtain ⟨hfirst, hops⟩ := act_faithful hok (has a List.mem_cons_self)
    have hlimits : (l.act a).1.limits = l.limits := (act_edits l 0 a).1
    have hrest := ih hfirst (by
      rw [hlimits]
      exact fun a' ha' => has a' (List.mem_cons_of_mem _ ha'))
    rw [hlimits] at hrest
    have hstores : storesOf (a :: as) = storesOf [a] ++ storesOf as := by
      simp [storesOf]
    rw [hstores, run]
    exact .append (hops.mono (List.subset_append_left _ _))
      (hrest.mono (List.subset_append_right _ _))

/-- **Faithful operations.** In every run over decoded batches and resets in which
each block hash denotes one parent and one token block, the operations are, store by
store, the prefix hashes of the chains of the blocks stored and a materialization
that says the same. -/
theorem ops_faithful (D : BackendId → Denotation) (limits : LedgerLimits) (as : List LedgerAction)
    (hdepth : limits.maxIndexedTokenDepth.toNat + kvMaxTokensPerEvent ≤ 2 ^ 32)
    (hdecoded : AllDecoded as)
    (hden : ∀ backend tsMs ev, (backend, tsMs, ev) ∈ storesOf as → Accepts limits ev →
      Denotes (D backend) ev.blockSize.toNat ev.parentBlockHash ev.blockHashes ev.tokenIds) :
    OpsFaithful D limits (storesOf as) ((create limits).run as).2 := by
  refine run_faithful (l := create limits) ?_ ?_
  · intro backend k state hk
    cases hk
  · intro a ha
    cases a with
    | reset => trivial
    | batch backend tsMs evs =>
      intro ev hev
      cases ev with
      | BlockStored ev =>
        obtain ⟨data, hdata⟩ := hdecoded backend tsMs evs ha
        have hsize := wireEvents_blockSize hdata hev
        refine ⟨?_, hden backend tsMs ev ?_⟩
        · change limits.maxIndexedTokenDepth.toNat + _ ≤ _
          omega
        · exact List.mem_flatMap.mpr ⟨_, ha, List.mem_filterMap.mpr ⟨_, hev, rfl⟩⟩
      | _ => trivial

/-- Block 10 is a root over one token, every other block its child over two. -/
def tenThenPair : Denotation := fun k => if k = 10 then (none, [7]) else (some 10, [8, 9])

/-- The store of block 10, and then of block 11 after it, with a larger block size. -/
def storesTenThenPair : List UInt8 :=
  [0x92, 0x01, 0x92, 0x95, 0xab] ++ "BlockStored".toUTF8.data.toList ++
    [0x91, 0x0a, 0xc0, 0x91, 0x07, 0x01] ++ [0x95, 0xab] ++ "BlockStored".toUTF8.data.toList ++
    [0x91, 0x0b, 0x0a, 0x92, 0x08, 0x09, 0x02]

/-- The batch of that payload. -/
def batchTenThenPair : LedgerAction :=
  .batch 0 1000 [.BlockStored ⟨[10], none, [7], 1⟩, .BlockStored ⟨[11], some 10, [8, 9], 2⟩]

theorem decoded_tenThenPair : AllDecoded [batchTenThenPair] := by
  intro backend tsMs evs h
  obtain ⟨rfl, rfl, rfl⟩ := LedgerAction.batch.inj (List.mem_singleton.mp h)
  exact ⟨storesTenThenPair, by decide⟩

theorem denotes_tenThenPair {backend : BackendId} {tsMs : UInt64} {ev : KvBlockStored}
    (h : (backend, tsMs, ev) ∈ storesOf [batchTenThenPair]) :
    Denotes tenThenPair ev.blockSize.toNat ev.parentBlockHash ev.blockHashes ev.tokenIds := by
  change _ ∈ [((0 : BackendId), (1000 : UInt64), (⟨[10], none, [7], 1⟩ : KvBlockStored)),
    (0, 1000, ⟨[11], some 10, [8, 9], 2⟩)] at h
  rw [List.mem_pair] at h
  rcases h with h | h
  · obtain ⟨-, -, rfl⟩ := Prod.mk.inj h |>.imp_right Prod.mk.inj
    exact ⟨rfl, trivial⟩
  · obtain ⟨-, -, rfl⟩ := Prod.mk.inj h |>.imp_right Prod.mk.inj
    exact ⟨rfl, trivial⟩

theorem ops_faithful_tenThenPair :
    OpsFaithful (fun _ => tenThenPair) tokenLimits (storesOf [batchTenThenPair])
      ((create tokenLimits).run [batchTenThenPair]).2 :=
  ops_faithful _ tokenLimits _ (by decide) decoded_tenThenPair
    fun _ _ _ hmem _ => denotes_tenThenPair hmem

/-- The chain of block 11 has three tokens and its block size is two: no operation
carries the chain's hash at that block size, though the block is tracked. -/
theorem upsert_misses_blockSize :
    Chain tenThenPair 11 [7, 8, 9] ∧
      ((create tokenLimits).run [batchTenThenPair]).1.trackedBlocks 0 = 2 ∧
      AllDecoded [batchTenThenPair] ∧
      (∀ backend tsMs ev, (backend, tsMs, ev) ∈ storesOf [batchTenThenPair] →
        Denotes tenThenPair ev.blockSize.toNat ev.parentBlockHash ev.blockHashes ev.tokenIds) ∧
      ∀ op, op ∈ ((create tokenLimits).run [batchTenThenPair]).2 →
        op.prefixHash ≠ hashPrefix [7, 8, 9] 3 2 := by
  refine ⟨?_, by decide +kernel, decoded_tenThenPair, fun _ _ _ => denotes_tenThenPair, ?_⟩
  · exact Chain.child (T := [7]) rfl (Chain.root rfl)
  · decide +kernel

end KvBlockLedger

end Ranvier
