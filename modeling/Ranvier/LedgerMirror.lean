import Ranvier.KvLedger
import Ranvier.MirroredMap

/-!
# The operations mirror the tracked blocks

The shards never see the ledger: they see the operations it emits, and keep per
backend the set of hashes upserted and not removed since. That set should be the
boundary hashes of the blocks the ledger tracks.

* `eventEdits`, `runEdits` — every event is a list of edits of the backend's block
  map, a store or a removal of one block each;
* `run_edits` — the ledger and the replayed operations after a run are those
  edits, on the map and on the set that mirrors it;
* `replay_tracks` — so the mirror holds throughout a run whose edits are
  faithful; `replay_loses_hash` — and not in every run.
-/

namespace Ranvier

/-- One operation replayed on the set of hashes known for a backend. -/
def replayOp (backend : BackendId) (s : Finset UInt64) (op : NativeKvOp) : Finset UInt64 :=
  if op.backend ≠ backend then s
  else
    match op.kind with
    | .UPSERT => insert op.prefixHash s
    | .REMOVE => s.erase op.prefixHash
    | .CLEAR | .RESET => ∅
    | _ => s

/-- Operations replayed one after another. -/
def replay (backend : BackendId) (s : Finset UInt64) (ops : List NativeKvOp) : Finset UInt64 :=
  ops.foldl (replayOp backend) s

theorem replay_append (backend : BackendId) (s : Finset UInt64) (ops ops' : List NativeKvOp) :
    replay backend s (ops ++ ops') = replay backend (replay backend s ops) ops' :=
  List.foldl_append ..

/-- Operations of other backends are not replayed. -/
theorem replay_of_ne {backend : BackendId} (s : Finset UInt64) {ops : List NativeKvOp}
    (h : ∀ op, op ∈ ops → op.backend ≠ backend) : replay backend s ops = s := by
  induction ops generalizing s with
  | nil => rfl
  | cons op ops ih =>
    have hop : replayOp backend s op = s := if_pos (h op List.mem_cons_self)
    rw [replay, List.foldl_cons, hop]
    exact ih s fun op' hop' => h op' (List.mem_cons_of_mem _ hop')

/-- What happens to the ledger: the batch whose events are `evs` is translated, or a
backend is reset after a stream fault. -/
inductive LedgerAction : Type where
  | batch (backend : BackendId) (tsMs : UInt64) (evs : List KvEvent)
  | reset (backend : BackendId) (tsMs : UInt64)
  deriving DecidableEq, Repr

namespace KvBlockLedger

/-- One action: the ledger after it and the operations it emits. A decoded batch is
`recordAll` of its events (`decodeKvEventBatch_eq`). -/
def act (l : KvBlockLedger) : LedgerAction → KvBlockLedger × List NativeKvOp
  | .batch backend tsMs evs =>
    let r := l.translate backend (KvEventBatch.recordAll { tsMs := tsMs } 0 evs)
    (r.ledger, r.out)
  | .reset backend tsMs => l.resetBackend backend tsMs

/-- A run: the ledger at its end and all operations emitted. -/
def run (l : KvBlockLedger) : List LedgerAction → KvBlockLedger × List NativeKvOp
  | [] => (l, [])
  | a :: as =>
    let r := (l.act a).1.run as
    (r.1, (l.act a).2 ++ r.2)

/-! ## Edits -/

/-- The edits of the block map: stored blocks in order, or nothing if the event is
dropped. -/
def storeEdits (limits : LedgerLimits) (blocks : BlockMap) (ev : KvBlockStored) :
    List (MapEdit UInt64 BlockState) :=
  if Accepts limits ev then
    match startState blocks ev with
    | none => []
    | some state =>
      (storedStates limits ev.blockSize ev.blockHashes ev.tokenIds state ev.parentBlockHash
        blocks).map fun w => .put w.1 w.2
  else []

/-- The edits of one event. -/
def eventEdits (limits : LedgerLimits) (blocks : BlockMap) : KvEvent → List (MapEdit UInt64 BlockState)
  | .BlockStored ev => storeEdits limits blocks ev
  | .BlockRemoved ev => ev.blockHashes.map .del
  | .AllBlocksCleared => [.wipe]
  | .unknown => []

/-- A store is refused for its block size. -/
def refuses (limits : LedgerLimits) : KvEvent → Bool
  | .BlockStored ev =>
    decide (ev.blockSize ≠ 0 ∧ ev.blockHashes ≠ [] ∧
      ev.blockSize.toNat % limits.blockAlignment ≠ 0)
  | _ => false

/-- The edits of events one at a time, up to the first that is refused. -/
def eventsEdits (limits : LedgerLimits) : BlockMap → List KvEvent → List (MapEdit UInt64 BlockState)
  | _, [] => []
  | blocks, ev :: evs =>
    let es := eventEdits limits blocks ev
    if refuses limits ev then es
    else es ++ eventsEdits limits (MapEdit.applyAll blocks es) evs

/-- The edits an action makes to the blocks of `backend`. -/
def actionEdits (limits : LedgerLimits) (backend : BackendId) (blocks : BlockMap) :
    LedgerAction → List (MapEdit UInt64 BlockState)
  | .batch b _ evs => if b = backend then eventsEdits limits blocks (clearsFirst evs) else []
  | .reset b _ => if b = backend then [.wipe] else []

/-- The edits a run makes to the blocks of `backend`, one block at a time. -/
def runEdits (limits : LedgerLimits) (backend : BackendId) :
    BlockMap → List LedgerAction → List (MapEdit UInt64 BlockState)
  | _, [] => []
  | blocks, a :: as =>
    let es := actionEdits limits backend blocks a
    es ++ runEdits limits backend (MapEdit.applyAll blocks es) as

/-! ## Each event is its edits -/

/-- What an event does to the ledger: only the blocks of its backend change, by the
edits `es`, and the operations replay to the mirror of the edits. -/
structure EditsTo (l : KvBlockLedger) (backend : BackendId) (es : List (MapEdit UInt64 BlockState))
    (l' : KvBlockLedger) (out : List NativeKvOp) : Prop where
  limits : l'.limits = l.limits
  blocks : l'.blocks backend = MapEdit.applyAll (l.blocks backend) es
  others : ∀ b, b ≠ backend → l'.blocks b = l.blocks b
  own : ∀ op, op ∈ out → op.backend = backend
  mirrored : ∀ s, replay backend s out =
    MapEdit.mirrorAll BlockState.fnvState (l.blocks backend) s es

theorem EditsTo.same {l l' : KvBlockLedger} {backend : BackendId} (hlimits : l'.limits = l.limits)
    (hblocks : l'.blocks = l.blocks) : EditsTo l backend [] l' [] where
  limits := hlimits
  blocks := by rw [hblocks]; rfl
  others _ _ := by rw [hblocks]
  own _ h := by cases h
  mirrored _ := rfl

theorem EditsTo.trans {l l' l'' : KvBlockLedger} {backend : BackendId}
    {es es' : List (MapEdit UInt64 BlockState)} {out out' : List NativeKvOp}
    (h : EditsTo l backend es l' out) (h' : EditsTo l' backend es' l'' out') :
    EditsTo l backend (es ++ es') l'' (out ++ out') where
  limits := h'.limits.trans h.limits
  blocks := by rw [h'.blocks, h.blocks, MapEdit.applyAll_append]
  others b hb := (h'.others b hb).trans (h.others b hb)
  own op hop := (List.mem_append.mp hop).elim (h.own op) (h'.own op)
  mirrored s := by
    rw [replay_append, h.mirrored, h'.mirrored, MapEdit.mirrorAll_append, h.blocks]

/-- The writes of a store, on the map and on the set. -/
theorem puts_eq (backend : BackendId) (tsMs : UInt64) (written : List (UInt64 × BlockState))
    (blocks : BlockMap) (s : Finset UInt64) :
    MapEdit.applyAll blocks (written.map fun w => .put w.1 w.2) =
        written.foldl (fun m w => m.insert w.1 w.2) blocks ∧
      replay backend s (written.map fun w => upsertOf backend tsMs w.2.fnvState) =
        MapEdit.mirrorAll BlockState.fnvState blocks s (written.map fun w => .put w.1 w.2) := by
  induction written generalizing blocks s with
  | nil => exact ⟨rfl, rfl⟩
  | cons w written ih =>
    obtain ⟨hmap, hset⟩ := ih (blocks.insert w.1 w.2) (insert w.2.fnvState s)
    refine ⟨hmap, ?_⟩
    have hop : replayOp backend s (upsertOf backend tsMs w.2.fnvState) = insert w.2.fnvState s :=
      if_neg (fun h => h rfl)
    rw [List.map_cons, replay, List.foldl_cons, hop]
    exact hset

/-- A removal emits nothing but `REMOVE`. -/
theorem removeBlocks_kind {backend : BackendId} {tsMs : UInt64} {hashes : List UInt64}
    {p : BlockMap × List NativeKvOp} (hp : ∀ op, op ∈ p.2 → op.kind = .REMOVE) :
    ∀ op, op ∈ (hashes.foldl (removeBlock backend tsMs) p).2 → op.kind = .REMOVE := by
  induction hashes generalizing p with
  | nil => exact hp
  | cons hash hashes ih =>
    refine ih ?_
    rw [removeBlock]
    split
    · exact hp
    · intro op hop
      rcases List.mem_append.mp hop with hop | hop
      · exact hp op hop
      · obtain rfl := List.mem_singleton.mp hop
        rfl

/-- The removals of an event, on the map and on the set. -/
theorem dels_eq (backend : BackendId) (tsMs : UInt64) (hashes : List UInt64) (blocks : BlockMap)
    (out : List NativeKvOp) :
    ∃ out', hashes.foldl (removeBlock backend tsMs) (blocks, out) =
        (MapEdit.applyAll blocks (hashes.map .del), out ++ out') ∧
      (∀ op, op ∈ out' → op.backend = backend) ∧
      ∀ s, replay backend s out' =
        MapEdit.mirrorAll BlockState.fnvState blocks s (hashes.map .del) := by
  induction hashes generalizing blocks out with
  | nil =>
    refine ⟨[], ?_, ?_, fun _ => rfl⟩
    · rw [List.append_nil]
      rfl
    · intro op hop
      cases hop
  | cons hash hashes ih =>
    rw [List.foldl_cons, List.map_cons]
    rcases hfind : blocks.lookup hash with _ | state
    · -- an untracked hash emits nothing and erases nothing
      have hstep : removeBlock backend tsMs (blocks, out) hash = (blocks, out) := by
        simp only [removeBlock, hfind]
      obtain ⟨out', heq, hown, hset⟩ := ih blocks out
      refine ⟨out', ?_, hown, fun s => ?_⟩
      · rw [hstep, heq]
        simp only [MapEdit.applyAll, List.foldl_cons, MapEdit.apply, erase_of_lookup_none hfind]
      · rw [hset]
        simp only [MapEdit.mirrorAll, MapEdit.apply, MapEdit.mirror, hfind,
          erase_of_lookup_none hfind]
    · have hstep : removeBlock backend tsMs (blocks, out) hash =
          (blocks.erase hash, out ++ [removeOf backend tsMs state.fnvState]) := by
        simp only [removeBlock, hfind]
      obtain ⟨out', heq, hown, hset⟩ := ih (blocks.erase hash)
        (out ++ [removeOf backend tsMs state.fnvState])
      refine ⟨removeOf backend tsMs state.fnvState :: out', ?_, ?_, fun s => ?_⟩
      · rw [hstep, heq, List.append_assoc]
        rfl
      · intro op hop
        rcases List.mem_cons.mp hop with rfl | hop
        · rfl
        · exact hown op hop
      · have hop : replayOp backend s (removeOf backend tsMs state.fnvState) =
            s.erase state.fnvState := if_neg (fun h => h rfl)
        have hrest := hset (s.erase state.fnvState)
        rw [replay] at hrest
        rw [replay, List.foldl_cons, hop, hrest]
        simp only [MapEdit.mirrorAll, MapEdit.apply, MapEdit.mirror, hfind]

/-- All that materialization may emit is one `MATERIALIZE`. -/
theorem mem_maybeMaterialize {limits : LedgerLimits} {backend : BackendId} {ev : KvBlockStored}
    {parentTokenCount storedBlocks : UInt32} {tsMs : UInt64} {blocks : BlockMap}
    {stats : LedgerStats} {op : NativeKvOp}
    (h : op ∈ (maybeMaterialize limits backend ev parentTokenCount storedBlocks tsMs blocks
      stats).2) : op.kind = .MATERIALIZE ∧ op.backend = backend := by
  unfold maybeMaterialize at h
  dsimp only at h
  split_ifs at h <;> try cases h
  split at h
  · cases h
  · obtain rfl := List.mem_singleton.mp h
    exact ⟨rfl, rfl⟩

/-- A sweep of the backend empties the set. -/
theorem replay_sweep {backend : BackendId} (s : Finset UInt64) {op : NativeKvOp}
    (hb : op.backend = backend) (hsweep : op.kind = .CLEAR ∨ op.kind = .RESET) :
    replay backend s [op] = ∅ := by
  rw [replay, List.foldl_cons, List.foldl_nil, replayOp, if_neg (fun h => h hb)]
  rcases hsweep with h | h <;> rw [h]

theorem replay_materialize {backend : BackendId} (s : Finset UInt64) {ops : List NativeKvOp}
    (h : ∀ op, op ∈ ops → op.kind = .MATERIALIZE) : replay backend s ops = s := by
  induction ops generalizing s with
  | nil => rfl
  | cons op ops ih =>
    have hop : replayOp backend s op = s := by
      rw [replayOp, h op List.mem_cons_self]
      exact ite_self s
    rw [replay, List.foldl_cons, hop]
    exact ih s fun op' hop' => h op' (List.mem_cons_of_mem _ hop')

theorem EditsTo.setBlocks {l l' : KvBlockLedger} {backend : BackendId} {m : BlockMap}
    {es : List (MapEdit UInt64 BlockState)} {out : List NativeKvOp}
    (hlimits : l'.limits = l.limits) (hl : l'.blocks = Function.update l.blocks backend m)
    (hm : m = MapEdit.applyAll (l.blocks backend) es)
    (hown : ∀ op, op ∈ out → op.backend = backend)
    (hset : ∀ s, replay backend s out =
      MapEdit.mirrorAll BlockState.fnvState (l.blocks backend) s es) :
    EditsTo l backend es l' out where
  limits := hlimits
  blocks := by rw [hl, Function.update_self, hm]
  others b hb := by rw [hl, Function.update_of_ne hb]
  own := hown
  mirrored := hset

theorem onStored_edits (l : KvBlockLedger) (backend : BackendId) (ev : KvBlockStored)
    (tsMs : UInt64) :
    EditsTo l backend (storeEdits l.limits (l.blocks backend) ev)
      (l.onStored backend ev tsMs).ledger (l.onStored backend ev tsMs).out := by
  have hdropped : ¬Accepts l.limits ev ∨ startState (l.blocks backend) ev = none →
      EditsTo l backend [] (l.onStored backend ev tsMs).ledger
        (l.onStored backend ev tsMs).out := by
    intro h
    obtain ⟨hlimits, hblocks, hout⟩ := l.onStored_dropped backend tsMs h
    rw [hout]
    exact EditsTo.same hlimits hblocks
  rw [storeEdits]
  by_cases haccepts : Accepts l.limits ev
  · rw [if_pos haccepts]
    rcases hstart : startState (l.blocks backend) ev with _ | state
    · exact hdropped (.inr hstart)
    · obtain ⟨stats, heq⟩ := l.onStored_accepted backend tsMs haccepts hstart
      rw [heq]
      refine EditsTo.setBlocks rfl rfl (puts_eq backend tsMs _ _ ∅).1.symm ?_ fun s => ?_
      · intro op hop
        rcases List.mem_append.mp hop with hop | hop
        · obtain ⟨w, -, rfl⟩ := List.mem_map.mp hop
          rfl
        · exact (mem_maybeMaterialize hop).2
      · rw [replay_append, replay_materialize _ fun op hop => (mem_maybeMaterialize hop).1]
        exact (puts_eq backend tsMs _ _ s).2
  · rw [if_neg haccepts]
    exact hdropped (.inl haccepts)

theorem onStored_ok (l : KvBlockLedger) (backend : BackendId) (ev : KvBlockStored)
    (tsMs : UInt64) :
    (l.onStored backend ev tsMs).ok = !refuses l.limits (.BlockStored ev) := by
  rw [onStored, refuses]
  split_ifs with hempty halign hcount
  · rw [decide_eq_false (by tauto)]
    rfl
  · rw [decide_eq_true (by tauto)]
    rfl
  · rw [decide_eq_false (by tauto)]
    rfl
  · rw [decide_eq_false (by tauto)]
    split <;> rfl

/-- **One event** is its edits. -/
theorem applyEvent_edits (l : KvBlockLedger) (backend : BackendId) (tsMs : UInt64) (ev : KvEvent) :
    EditsTo l backend (eventEdits l.limits (l.blocks backend) ev)
        (l.applyEvent backend tsMs ev).ledger (l.applyEvent backend tsMs ev).out ∧
      (l.applyEvent backend tsMs ev).ok = !refuses l.limits ev := by
  cases ev with
  | BlockStored ev => exact ⟨onStored_edits l backend ev tsMs, onStored_ok l backend ev tsMs⟩
  | BlockRemoved ev =>
    refine ⟨?_, rfl⟩
    obtain ⟨out, heq, hown, hset⟩ := dels_eq backend tsMs ev.blockHashes (l.blocks backend) []
    rw [List.nil_append] at heq
    simp only [applyEvent, onRemoved, heq]
    exact EditsTo.setBlocks rfl rfl rfl hown hset
  | AllBlocksCleared =>
    refine ⟨EditsTo.setBlocks rfl rfl rfl ?_ ?_, rfl⟩
    · intro op hop
      obtain rfl := List.mem_singleton.mp hop
      rfl
    · exact fun s => replay_sweep s rfl (.inl rfl)
  | unknown => exact ⟨EditsTo.same rfl rfl, rfl⟩

theorem applyEvents_edits (backend : BackendId) (tsMs : UInt64) (evs : List KvEvent)
    (l : KvBlockLedger) :
    EditsTo l backend (eventsEdits l.limits (l.blocks backend) evs)
      (applyEvents backend tsMs evs l).ledger (applyEvents backend tsMs evs l).out := by
  induction evs generalizing l with
  | nil => exact EditsTo.same rfl rfl
  | cons ev evs ih =>
    obtain ⟨hfirst, hok⟩ := applyEvent_edits l backend tsMs ev
    rw [applyEvents, eventsEdits, andThen, hok]
    cases refuses l.limits ev with
    | true => exact hfirst
    | false =>
      have hrest := ih (l.applyEvent backend tsMs ev).ledger
      rw [hfirst.limits, hfirst.blocks] at hrest
      exact hfirst.trans hrest

/-! ## Runs -/

/-- What an action does, seen by `backend`. -/
theorem act_edits (l : KvBlockLedger) (backend : BackendId) (a : LedgerAction) :
    (l.act a).1.limits = l.limits ∧
      (l.act a).1.blocks backend =
        MapEdit.applyAll (l.blocks backend) (actionEdits l.limits backend (l.blocks backend) a) ∧
      ∀ s, replay backend s (l.act a).2 = MapEdit.mirrorAll BlockState.fnvState (l.blocks backend) s
        (actionEdits l.limits backend (l.blocks backend) a) := by
  cases a with
  | batch b tsMs evs =>
    simp only [act, actionEdits, translate_recordAll]
    have h := applyEvents_edits b tsMs (clearsFirst evs) l
    by_cases hb : b = backend
    · subst hb
      rw [if_pos rfl]
      exact ⟨h.limits, h.blocks, h.mirrored⟩
    · rw [if_neg hb]
      refine ⟨h.limits, h.others backend (Ne.symm hb), fun s => ?_⟩
      exact replay_of_ne s fun op hop => by rw [h.own op hop]; exact hb
  | reset b tsMs =>
    simp only [act, actionEdits, resetBackend, KvBlockLedger.setBlocks]
    by_cases hb : b = backend
    · subst hb
      rw [if_pos rfl, Function.update_self]
      exact ⟨trivial, rfl, fun s => replay_sweep s rfl (.inr rfl)⟩
    · rw [if_neg hb, Function.update_of_ne (Ne.symm hb)]
      refine ⟨trivial, rfl, fun s => replay_of_ne s ?_⟩
      intro op hop
      obtain rfl := List.mem_singleton.mp hop
      exact hb

/-- **A run** is its edits: the tracked blocks are the edited map, and replaying
the operations gives the set kept beside it. -/
theorem run_edits (l : KvBlockLedger) (backend : BackendId) (as : List LedgerAction) :
    (l.run as).1.blocks backend =
        MapEdit.applyAll (l.blocks backend) (runEdits l.limits backend (l.blocks backend) as) ∧
      ∀ s, replay backend s (l.run as).2 = MapEdit.mirrorAll BlockState.fnvState (l.blocks backend) s
        (runEdits l.limits backend (l.blocks backend) as) := by
  induction as generalizing l with
  | nil => exact ⟨rfl, fun _ => rfl⟩
  | cons a as ih =>
    obtain ⟨hlimits, hblocks, hset⟩ := act_edits l backend a
    obtain ⟨hrblocks, hrset⟩ := ih (l.act a).1
    rw [hlimits, hblocks] at hrblocks hrset
    refine ⟨?_, fun s => ?_⟩
    · rw [runEdits, MapEdit.applyAll_append]
      exact hrblocks
    · rw [runEdits, MapEdit.mirrorAll_append, run, replay_append, hset]
      exact hrset _

theorem runEdits_append (limits : LedgerLimits) (backend : BackendId) (blocks : BlockMap)
    (as as' : List LedgerAction) :
    runEdits limits backend blocks as <+: runEdits limits backend blocks (as ++ as') := by
  induction as generalizing blocks with
  | nil => exact List.nil_prefix
  | cons a as ih =>
    rw [List.cons_append, runEdits, runEdits, List.prefix_append_right_inj]
    exact ih _

/-- **The mirror.** In a run whose edits are faithful, replaying the operations
emitted so far gives, after every action, exactly the boundary hashes of the blocks
tracked. -/
theorem replay_tracks (limits : LedgerLimits) (backend : BackendId) (as : List LedgerAction)
    (hfaithful : MapEdit.FaithfulAll BlockState.fnvState ∅ (runEdits limits backend ∅ as)) :
    ∀ pre, pre <+: as →
      Mirrors BlockState.fnvState (((create limits).run pre).1.blocks backend)
        (replay backend ∅ ((create limits).run pre).2) := by
  rintro pre ⟨rest, rfl⟩
  obtain ⟨hblocks, hset⟩ := run_edits (create limits) backend pre
  rw [hblocks, hset]
  exact (mirrors_run_iff (mirrors_empty _) _).mpr hfaithful _
    (runEdits_append limits backend ∅ pre rest)

/-- Block 10 over one token at the root. -/
def storeTen : KvEvent := .BlockStored ⟨[10], none, [7], 1⟩

/-- Block 11 over the same token, also at the root: the engine tells blocks apart by
more than their tokens. -/
def storeEleven : KvEvent := .BlockStored ⟨[11], none, [7], 1⟩

/-- The limits for single-token blocks. -/
def tokenLimits : LedgerLimits := { blockAlignment := ⟨1, Nat.one_pos⟩ }

/-- A block is stored and removed, then another is stored. -/
theorem replay_tracks_storeTen :
    MapEdit.FaithfulAll BlockState.fnvState ∅ (runEdits tokenLimits 0 ∅
        [.batch 0 1 [storeTen, .BlockRemoved ⟨[10]⟩], .batch 0 2 [storeEleven]]) ∧
      Mirrors BlockState.fnvState
        (((create tokenLimits).run [.batch 0 1 [storeTen, .BlockRemoved ⟨[10]⟩],
          .batch 0 2 [storeEleven]]).1.blocks 0)
        (replay 0 ∅ ((create tokenLimits).run [.batch 0 1 [storeTen, .BlockRemoved ⟨[10]⟩],
          .batch 0 2 [storeEleven]]).2) := by
  have hfaithful : MapEdit.FaithfulAll BlockState.fnvState ∅ (runEdits tokenLimits 0 ∅
      [.batch 0 1 [storeTen, .BlockRemoved ⟨[10]⟩], .batch 0 2 [storeEleven]]) := by
    refine ⟨?_, ?_, ?_, trivial⟩
    · intro old hold
      cases hold
    · intro v _ k' v' hne hk'
      rw [MapEdit.apply, Finmap.lookup_insert_of_ne _ hne] at hk'
      cases hk'
    · intro old hold
      cases hold
  exact ⟨hfaithful, replay_tracks tokenLimits 0 _ hfaithful _ (List.prefix_refl _)⟩

/-- **Lost hash.** Two tracked blocks share a boundary hash and one of them is
removed: the replayed operations lose the hash, the ledger still tracks a block
with it. -/
theorem replay_loses_hash :
    ¬ Mirrors BlockState.fnvState
        (((create tokenLimits).run [.batch 0 1 [storeTen, storeEleven],
          .batch 0 2 [.BlockRemoved ⟨[10]⟩]]).1.blocks 0)
        (replay 0 ∅ ((create tokenLimits).run [.batch 0 1 [storeTen, storeEleven],
          .batch 0 2 [.BlockRemoved ⟨[10]⟩]]).2) := by
  intro hmirrors
  have hbears := (hmirrors (fnvTokens fnvOffsetBasis [7])).mpr
    ⟨11, ⟨fnvTokens fnvOffsetBasis [7], 1, false, 0, [7]⟩, by decide +kernel, rfl⟩
  revert hbears
  decide +kernel

end KvBlockLedger

end Ranvier
