import Mathlib.Algebra.BigOperators.Fin
import Ranvier.KeyedMap
import Ranvier.Run

/-!
# Telemetry windows

`telemetry_service.cpp`: every shard counts the outcomes of its requests in a bounded table
of buckets; once a window, shard 0 collects a snapshot from every shard, in any order and
while the shards go on counting, merges them and hands the report to a sink. A window that
comes due while a report is still being handed over is skipped.

* `slotKey` — the bucket an outcome is counted in, its own or, in a full table, the overflow
  bucket;
* `Sound` — the invariant of the shards, the emission in progress and the reports;
* `telemetry_conserves` — over every interleaving, each outcome is counted once.
-/

namespace Ranvier

namespace Telemetry

universe u

/-- The counters of an `AggregateRecord`. -/
inductive Counter : Type where
  | requestCount
  | cacheHitCount
  | cacheMissCount
  | loadRedirectCount
  | costRedirectCount
  | fastLaneCount
  | successCount
  | failureCount
  | timeoutCount
  | connectionErrorCount
  deriving DecidableEq

/-- `TelemetryOutcome::Kind`. -/
inductive Kind : Type where
  | success
  | failure
  | timeout
  | connectionError
  deriving DecidableEq

/-- `TelemetryOutcome`. -/
structure Outcome : Type where
  /-- `kind` -/
  kind : Kind
  /-- `cache_hit` -/
  cacheHit : Bool := false
  /-- `was_load_redirect` -/
  wasLoadRedirect : Bool := false
  /-- `was_cost_redirect` -/
  wasCostRedirect : Bool := false
  /-- `was_fast_lane` -/
  wasFastLane : Bool := false
  deriving DecidableEq

/-- `AggregateRecord`, by counter. -/
abbrev AggregateRecord : Type := Counter → ℕ

/-- What `record_outcome` adds to a record. -/
def Outcome.counts (o : Outcome) : AggregateRecord
  | .requestCount => 1
  | .cacheHitCount => if o.cacheHit then 1 else 0
  | .cacheMissCount => if o.cacheHit then 0 else 1
  | .loadRedirectCount => if o.wasLoadRedirect then 1 else 0
  | .costRedirectCount => if o.wasCostRedirect then 1 else 0
  | .fastLaneCount => if o.wasFastLane then 1 else 0
  | .successCount => if o.kind = .success then 1 else 0
  | .failureCount => if o.kind = .failure then 1 else 0
  | .timeoutCount => if o.kind = .timeout then 1 else 0
  | .connectionErrorCount => if o.kind = .connectionError then 1 else 0

/-- `merge_from`. -/
def mergeFrom (r other : AggregateRecord) : AggregateRecord := fun c => r c + other c

/-- The part of `TelemetryService` on every shard. -/
structure Shard (κ : Type u) : Type u where
  /-- `_buckets` -/
  buckets : KeyedMap κ AggregateRecord := {}
  /-- `_buckets_overflowed` -/
  bucketsOverflowed : ℕ := 0

/-- `ShardSnapshot` and `WindowReport`: the records, and how many outcomes overflowed. -/
structure Snapshot (κ : Type u) : Type u where
  /-- `records` -/
  records : KeyedMap κ AggregateRecord := {}
  /-- `buckets_overflowed` -/
  bucketsOverflowed : ℕ := 0

section Shards

variable {κ : Type u} [DecidableEq κ] (overflowKey : κ) (maxBuckets : ℕ)

/-- `ensure_overflow_sentinel`. -/
def ensureOverflowSentinel (m : KeyedMap κ AggregateRecord) : KeyedMap κ AggregateRecord :=
  if (m.find overflowKey).isSome then m else m.set overflowKey fun _ => 0

/-- The bucket that `get_or_overflow_slot` answers. -/
def slotKey (s : Shard κ) (key : κ) : κ :=
  if (s.buckets.find key).isSome then key
  else if s.buckets.size < maxBuckets then key
  else overflowKey

/-- `get_or_overflow_slot`: a new bucket if there is room for it; `none` where the code
would go through the end iterator. -/
def getOrOverflowSlot (s : Shard κ) (key : κ) : Option (Shard κ) :=
  if (s.buckets.find key).isSome then some s
  else if s.buckets.size < maxBuckets then
    some { s with buckets := s.buckets.set key fun _ => 0 }
  else if (s.buckets.find overflowKey).isSome then
    some { s with bucketsOverflowed := s.bucketsOverflowed + 1 }
  else none

/-- `record_outcome` of a shard whose sink is enabled. -/
def recordOutcome (s : Shard κ) (key : κ) (o : Outcome) : Option (Shard κ) :=
  (getOrOverflowSlot overflowKey maxBuckets s key).map fun s' =>
    { s' with
      buckets := s'.buckets.modify (slotKey overflowKey maxBuckets s key) fun r c =>
        r c + o.counts c }

/-- A record that `snapshot_and_reset` leaves out. -/
def isEmptyRecord (r : AggregateRecord) : Bool :=
  r .requestCount == 0 && r .cacheHitCount == 0 && r .cacheMissCount == 0

/-- `snapshot_and_reset`. -/
def snapshotAndReset (s : Shard κ) : Snapshot κ × Shard κ :=
  ({ records := s.buckets.filter fun r => !isEmptyRecord r
     bucketsOverflowed := s.bucketsOverflowed },
    { buckets := ensureOverflowSentinel overflowKey {}
      bucketsOverflowed := 0 })

/-- The records of one shard's snapshot are merged. -/
def mergeRecord (merged : KeyedMap κ AggregateRecord) (e : κ × AggregateRecord) :
    KeyedMap κ AggregateRecord :=
  match merged.find e.1 with
  | none => merged.set e.1 e.2
  | some r => merged.set e.1 (mergeFrom r e.2)

/-- The report of `emit_async` over the snapshots of all shards. -/
def mergeSnapshots (snaps : List (Snapshot κ)) : Snapshot κ where
  records := snaps.foldl (fun m s => s.records.entries.foldl mergeRecord m) {}
  bucketsOverflowed := (snaps.map Snapshot.bucketsOverflowed).sum

end Shards

/-- The emitter: idle, collecting snapshots, or waiting for the sink. -/
inductive Emitter (κ : Type u) (n : ℕ) : Type u where
  | idle
  | collecting (perShard : Fin (n + 1) → Option (Snapshot κ))
  | consuming (report : Snapshot κ)

/-- The service on all shards. -/
structure Service (κ : Type u) (n : ℕ) : Type u where
  /-- the shards -/
  shards : Fin (n + 1) → Shard κ
  /-- the emission in progress: `_consume_in_flight` unless it is idle -/
  emitter : Emitter κ n := .idle
  /-- the reports the sink has taken -/
  emitted : List (Snapshot κ) := []
  /-- the reports the sink has failed on -/
  failed : List (Snapshot κ) := []
  /-- `_reports_dropped_backpressure` -/
  reportsDroppedBackpressure : ℕ := 0
  /-- the outcomes recorded so far: the key, the bucket it was counted in, the outcome -/
  log : List (κ × κ × Outcome) := []

/-- What happens, in any order. -/
inductive Action (κ : Type u) (n : ℕ) : Type u where
  /-- a request ends on a shard -/
  | recordOutcome (shard : Fin (n + 1)) (key : κ) (o : Outcome)
  /-- `on_emit_timer` -/
  | onEmitTimer
  /-- the shard runs `snapshot_and_reset` for the emitter -/
  | collect (shard : Fin (n + 1))
  /-- the snapshots are all there and are merged -/
  | merge
  /-- the sink's future resolves, or fails -/
  | consumed (ok : Bool)

section Steps

variable {κ : Type u} [DecidableEq κ] (overflowKey : κ) (maxBuckets : ℕ) {n : ℕ}

/-- One step. -/
def step (s : Service κ n) : Action κ n → Option (Service κ n)
  | .recordOutcome shard key o =>
    (recordOutcome overflowKey maxBuckets (s.shards shard) key o).map fun sh =>
      { s with
        shards := Function.update s.shards shard sh
        log := s.log ++ [(key, slotKey overflowKey maxBuckets (s.shards shard) key, o)] }
  | .onEmitTimer =>
    match s.emitter with
    | .idle => some { s with emitter := .collecting fun _ => none }
    | _ => some { s with reportsDroppedBackpressure := s.reportsDroppedBackpressure + 1 }
  | .collect shard =>
    match s.emitter with
    | .collecting perShard =>
      if (perShard shard).isSome then none
      else
        let r := snapshotAndReset overflowKey (s.shards shard)
        some
          { s with
            shards := Function.update s.shards shard r.2
            emitter := .collecting (Function.update perShard shard (some r.1)) }
    | _ => none
  | .merge =>
    match s.emitter with
    | .collecting perShard =>
      if ∀ shard, (perShard shard).isSome then
        some
          { s with
            emitter := .consuming
              (mergeSnapshots ((List.finRange (n + 1)).filterMap perShard)) }
      else none
    | _ => none
  | .consumed ok =>
    match s.emitter with
    | .consuming report =>
      some
        (if ok then { s with emitter := .idle, emitted := s.emitted ++ [report] }
        else { s with emitter := .idle, failed := s.failed ++ [report] })
    | _ => none

/-- The service once every shard is started. -/
def started : Service κ n where
  shards _ := { buckets := ensureOverflowSentinel overflowKey {} }

end Steps

/-- The three ways in which a record adds up to its requests. -/
structure Consistent (r : AggregateRecord) : Prop where
  /-- every request hit the cache or missed it -/
  cache : r .cacheHitCount + r .cacheMissCount = r .requestCount
  /-- every request ended in one way -/
  ends : r .successCount + r .failureCount + r .timeoutCount + r .connectionErrorCount =
    r .requestCount
  /-- the flags are of requests -/
  flags : r .loadRedirectCount ≤ r .requestCount ∧ r .costRedirectCount ≤ r .requestCount ∧
    r .fastLaneCount ≤ r .requestCount

theorem consistent_zero : Consistent fun _ => 0 :=
  ⟨rfl, rfl, Nat.le_refl _, Nat.le_refl _, Nat.le_refl _⟩

theorem Consistent.add {r r' : AggregateRecord} (h : Consistent r) (h' : Consistent r') :
    Consistent fun c => r c + r' c := by
  obtain ⟨hcache, hends, hload, hcost, hfast⟩ := h
  obtain ⟨hcache', hends', hload', hcost', hfast'⟩ := h'
  refine ⟨?_, ?_, ?_, ?_, ?_⟩ <;> omega

theorem Outcome.consistent (o : Outcome) : Consistent o.counts := by
  obtain ⟨kind, hit, load, cost, fast⟩ := o
  refine ⟨?_, ?_, ?_, ?_, ?_⟩
  · cases hit <;> rfl
  · cases kind <;> rfl
  · cases load <;> exact Nat.le_of_ble_eq_true rfl
  · cases cost <;> exact Nat.le_of_ble_eq_true rfl
  · cases fast <;> exact Nat.le_of_ble_eq_true rfl

/-- A record that is left out of a snapshot has nothing in it. -/
theorem Consistent.eq_zero {r : AggregateRecord} (h : Consistent r)
    (hempty : isEmptyRecord r = true) (c : Counter) : r c = 0 := by
  obtain ⟨hcache, hends, hload, hcost, hfast⟩ := h
  simp only [isEmptyRecord, Bool.and_eq_true, beq_iff_eq] at hempty
  cases c <;> omega

section Measures

variable {κ : Type u} [DecidableEq κ] {overflowKey : κ} {maxBuckets : ℕ} {n : ℕ}

/-- What a table has under a key, by counter. -/
def tally (m : KeyedMap κ AggregateRecord) (k : κ) (c : Counter) : ℕ :=
  (m.find k).elim 0 fun r => r c

theorem tally_of_find {m : KeyedMap κ AggregateRecord} {k : κ} {r : AggregateRecord}
    (h : m.find k = some r) (c : Counter) : tally m k c = r c := by
  rw [tally, h]
  rfl

theorem tally_of_none {m : KeyedMap κ AggregateRecord} {k : κ} (h : m.find k = none)
    (c : Counter) : tally m k c = 0 := by
  rw [tally, h]
  rfl

theorem tally_set (m : KeyedMap κ AggregateRecord) (k : κ) (r : AggregateRecord) (b : κ)
    (c : Counter) : tally (m.set k r) b c = if b = k then r c else tally m b c := by
  rw [tally, KeyedMap.find_set]
  split_ifs
  · rfl
  · rfl

/-- A new bucket counts nothing. -/
theorem tally_set_new {m : KeyedMap κ AggregateRecord} {k : κ} (h : m.find k = none) (b : κ)
    (c : Counter) : tally (m.set k fun _ => 0) b c = tally m b c := by
  rw [tally_set]
  split_ifs with hb
  · rw [hb, tally_of_none h]
  · rfl

/-- An outcome counted under a key that has a bucket. -/
theorem tally_modify {m : KeyedMap κ AggregateRecord} {k : κ} (h : (m.find k).isSome)
    (o : Outcome) (b : κ) (c : Counter) :
    tally (m.modify k fun r c => r c + o.counts c) b c =
      tally m b c + if k = b then o.counts c else 0 := by
  obtain ⟨r, hr⟩ := Option.isSome_iff_exists.mp h
  rw [KeyedMap.modify, hr]
  simp only [tally_set]
  by_cases hb : b = k
  · rw [if_pos hb, if_pos hb.symm, hb, tally_of_find hr]
  · rw [if_neg hb, if_neg (Ne.symm hb), Nat.add_zero]

/-- What entries have under a key, by counter. -/
def entryTally (es : List (κ × AggregateRecord)) (k : κ) (c : Counter) : ℕ :=
  (es.map fun e => if e.1 = k then e.2 c else 0).sum

theorem entryTally_of_not_mem {es : List (κ × AggregateRecord)} {k : κ} (h : k ∉ keysOf es)
    (c : Counter) : entryTally es k c = 0 := by
  induction es with
  | nil => rfl
  | cons e es ih =>
    rw [keysOf_cons, List.mem_cons, not_or] at h
    rw [entryTally, List.map_cons, List.sum_cons, if_neg (Ne.symm h.1), Nat.zero_add]
    exact ih h.2

theorem entryTally_entries (m : KeyedMap κ AggregateRecord) (k : κ) (c : Counter) :
    entryTally m.entries k c = tally m k c := by
  obtain ⟨es, hes⟩ := m
  rw [tally, KeyedMap.find]
  induction es with
  | nil => rfl
  | cons e es ih =>
    obtain ⟨b, r⟩ := e
    rw [keysOf_cons, List.nodup_cons] at hes
    have hrest := ih hes.2
    rw [entryTally, List.map_cons, List.sum_cons, lookup_cons_eq]
    by_cases hk : k = b
    · subst hk
      rw [if_pos rfl, if_pos rfl]
      have hzero := entryTally_of_not_mem hes.1 c
      rw [entryTally] at hzero
      rw [hzero]
      rfl
    · rw [if_neg (Ne.symm hk), if_neg hk, Nat.zero_add]
      exact hrest

/-- Merging adds up. -/
theorem tally_mergeRecord (m : KeyedMap κ AggregateRecord) (e : κ × AggregateRecord) (k : κ)
    (c : Counter) :
    tally (mergeRecord m e) k c = tally m k c + if e.1 = k then e.2 c else 0 := by
  rw [mergeRecord]
  cases hfind : m.find e.1 with
  | none =>
    simp only [tally_set]
    by_cases hk : k = e.1
    · rw [if_pos hk, if_pos hk.symm, hk, tally_of_none hfind, Nat.zero_add]
    · rw [if_neg hk, if_neg (Ne.symm hk), Nat.add_zero]
  | some r =>
    simp only [tally_set, mergeFrom]
    by_cases hk : k = e.1
    · rw [if_pos hk, if_pos hk.symm, hk, tally_of_find hfind]
    · rw [if_neg hk, if_neg (Ne.symm hk), Nat.add_zero]

theorem tally_mergeRecords (es : List (κ × AggregateRecord)) (m : KeyedMap κ AggregateRecord)
    (k : κ) (c : Counter) :
    tally (es.foldl mergeRecord m) k c = tally m k c + entryTally es k c := by
  induction es generalizing m with
  | nil => rfl
  | cons e es ih =>
    rw [List.foldl_cons, ih, tally_mergeRecord, entryTally, entryTally, List.map_cons,
      List.sum_cons, Nat.add_assoc]

theorem tally_mergeSnapshots (snaps : List (Snapshot κ)) (k : κ) (c : Counter) :
    tally (mergeSnapshots snaps).records k c = (snaps.map fun s => tally s.records k c).sum := by
  have hfold : ∀ (snaps : List (Snapshot κ)) (m : KeyedMap κ AggregateRecord),
      tally (snaps.foldl (fun m s => s.records.entries.foldl mergeRecord m) m) k c =
        tally m k c + (snaps.map fun s => tally s.records k c).sum := by
    intro snaps
    induction snaps with
    | nil =>
      intro m
      rfl
    | cons s snaps ih =>
      intro m
      rw [List.foldl_cons, ih, tally_mergeRecords, entryTally_entries, List.map_cons,
        List.sum_cons, Nat.add_assoc]
  rw [mergeSnapshots]
  exact (hfold snaps {}).trans (Nat.zero_add _)

/-- Every record of a table has the property. -/
def AllRecords (P : AggregateRecord → Prop) (m : KeyedMap κ AggregateRecord) : Prop :=
  ∀ k r, m.find k = some r → P r

variable {P : AggregateRecord → Prop}

theorem AllRecords.set {m : KeyedMap κ AggregateRecord} (h : AllRecords P m) (k : κ)
    {r : AggregateRecord} (hr : P r) : AllRecords P (m.set k r) := by
  intro b r' hr'
  rw [KeyedMap.find_set] at hr'
  split_ifs at hr'
  · obtain rfl := Option.some.inj hr'
    exact hr
  · exact h b r' hr'

theorem allRecords_empty : AllRecords P ({} : KeyedMap κ AggregateRecord) := by
  intro k r hr
  cases hr

/-- A property that merging keeps is one of the merged records. -/
theorem AllRecords.mergeSnapshots (hmerge : ∀ r r', P r → P r' → P (mergeFrom r r'))
    {snaps : List (Snapshot κ)} (h : ∀ s ∈ snaps, AllRecords P s.records) :
    AllRecords P (Telemetry.mergeSnapshots snaps).records := by
  have hrecord : ∀ (es : List (κ × AggregateRecord)) (m : KeyedMap κ AggregateRecord),
      (∀ e ∈ es, P e.2) → AllRecords P m → AllRecords P (es.foldl mergeRecord m) := by
    intro es
    induction es with
    | nil => exact fun m _ hm => hm
    | cons e es ih =>
      intro m hes hm
      refine ih _ (fun e' he' => hes e' (List.mem_cons_of_mem _ he')) ?_
      rw [mergeRecord]
      cases hfind : m.find e.1 with
      | none => exact hm.set e.1 (hes e List.mem_cons_self)
      | some r => exact hm.set e.1 (hmerge _ _ (hm e.1 r hfind) (hes e List.mem_cons_self))
  have hfold : ∀ (snaps : List (Snapshot κ)) (m : KeyedMap κ AggregateRecord),
      (∀ s ∈ snaps, AllRecords P s.records) → AllRecords P m →
      AllRecords P (snaps.foldl (fun m s => s.records.entries.foldl mergeRecord m) m) := by
    intro snaps
    induction snaps with
    | nil => exact fun m _ hm => hm
    | cons s snaps ih =>
      intro m hsnaps hm
      refine ih _ (fun s' hs' => hsnaps s' (List.mem_cons_of_mem _ hs')) (hrecord _ _ ?_ hm)
      rintro ⟨k, r⟩ he
      exact hsnaps s List.mem_cons_self k r (KeyedMap.find_of_mem he)
  exact hfold snaps {} h allRecords_empty

end Measures

section Shards

variable {κ : Type u} [DecidableEq κ] {overflowKey : κ} {maxBuckets : ℕ}

/-- The invariant of a shard. -/
structure ShardOk (overflowKey : κ) (maxBuckets : ℕ) (s : Shard κ) : Prop where
  /-- the overflow bucket is there -/
  sentinel : (s.buckets.find overflowKey).isSome
  /-- the table is bounded; the overflow bucket is there in any case -/
  bounded : s.buckets.size ≤ max maxBuckets 1
  /-- the records add up -/
  consistent : AllRecords Consistent s.buckets

/-- The reset table: the overflow bucket, empty. -/
theorem ensureOverflowSentinel_empty :
    ensureOverflowSentinel overflowKey ({} : KeyedMap κ AggregateRecord) =
      ({} : KeyedMap κ AggregateRecord).set overflowKey fun _ => 0 := rfl

theorem shardOk_reset (overflowed : ℕ) :
    ShardOk overflowKey maxBuckets
      { buckets := ensureOverflowSentinel overflowKey {}, bucketsOverflowed := overflowed } := by
  rw [ensureOverflowSentinel_empty]
  refine ⟨?_, ?_, allRecords_empty.set overflowKey consistent_zero⟩
  · rw [KeyedMap.find_set, if_pos rfl]
    rfl
  · exact le_max_right _ _

variable {s : Shard κ}

/-- An outcome is counted once, in the bucket that `slotKey` names, and the shard never
reaches through the end iterator. -/
theorem recordOutcome_spec (h : ShardOk overflowKey maxBuckets s) (key : κ) (o : Outcome) :
    ∃ s', recordOutcome overflowKey maxBuckets s key o = some s' ∧
      ShardOk overflowKey maxBuckets s' ∧
      (∀ k c, tally s'.buckets k c = tally s.buckets k c +
        if slotKey overflowKey maxBuckets s key = k then o.counts c else 0) ∧
      s'.bucketsOverflowed = s.bucketsOverflowed +
        if slotKey overflowKey maxBuckets s key = key then 0 else 1 := by
  have hcount : ∀ {m : KeyedMap κ AggregateRecord} {k : κ} {ov : ℕ}, (m.find k).isSome →
      (m.find overflowKey).isSome → m.size ≤ max maxBuckets 1 → AllRecords Consistent m →
      ShardOk overflowKey maxBuckets
        { buckets := m.modify k fun r c => r c + o.counts c, bucketsOverflowed := ov } := by
    intro m k ov hk hsentinel hbound hconsistent
    obtain ⟨r, hr⟩ := Option.isSome_iff_exists.mp hk
    refine ⟨?_, ?_, ?_⟩
    · rw [KeyedMap.find_isSome_iff, KeyedMap.keys_modify, ← KeyedMap.find_isSome_iff]
      exact hsentinel
    · rw [← KeyedMap.length_keys, KeyedMap.keys_modify, KeyedMap.length_keys]
      exact hbound
    · rw [KeyedMap.modify, hr]
      exact hconsistent.set k ((hconsistent k r hr).add o.consistent)
  rw [recordOutcome, getOrOverflowSlot, slotKey]
  by_cases hfound : (s.buckets.find key).isSome
  · simp only [if_pos hfound, Option.map_some]
    exact ⟨_, rfl, hcount hfound h.sentinel h.bounded h.consistent, tally_modify hfound o, rfl⟩
  · have hnone : s.buckets.find key = none := by simpa using hfound
    by_cases hroom : s.buckets.size < maxBuckets
    · simp only [if_neg hfound, if_pos hroom, Option.map_some]
      have hnew : ((s.buckets.set key fun _ => 0).find key).isSome := by
        rw [KeyedMap.find_set, if_pos rfl]
        rfl
      refine ⟨_, rfl, hcount hnew ?_ ?_ (h.consistent.set key consistent_zero), fun k c => ?_, rfl⟩
      · rw [KeyedMap.find_isSome_iff, KeyedMap.mem_keys_set]
        exact .inr (KeyedMap.find_isSome_iff.mp h.sentinel)
      · have hkey : key ∉ s.buckets.keys := KeyedMap.find_eq_none_iff.mp hnone
        rw [KeyedMap.size_set, if_neg hkey]
        exact (Nat.succ_le_of_lt hroom).trans (le_max_left _ _)
      · rw [tally_modify hnew, tally_set_new hnone]
    · have hne : overflowKey ≠ key := by
        rintro rfl
        exact hfound h.sentinel
      simp only [if_neg hfound, if_neg hroom, if_pos h.sentinel, Option.map_some, if_neg hne]
      exact ⟨_, rfl, hcount h.sentinel h.sentinel h.bounded h.consistent,
        tally_modify h.sentinel o, rfl⟩

/-- A record as it is reported. -/
def Reported (r : AggregateRecord) : Prop := Consistent r ∧ 0 < r .requestCount

theorem Reported.merge (r r' : AggregateRecord) (h : Reported r) (h' : Reported r') :
    Reported (mergeFrom r r') :=
  ⟨h.1.add h'.1, Nat.add_pos_left h.2 _⟩

/-- A snapshot has everything the shard counted, and the shard starts again from nothing. -/
theorem snapshotAndReset_spec (h : ShardOk overflowKey maxBuckets s) :
    AllRecords Reported (snapshotAndReset overflowKey s).1.records ∧
      (∀ k c, tally (snapshotAndReset overflowKey s).1.records k c = tally s.buckets k c) ∧
      ShardOk overflowKey maxBuckets (snapshotAndReset overflowKey s).2 ∧
      ∀ k c, tally (snapshotAndReset overflowKey s).2.buckets k c = 0 := by
  refine ⟨?_, ?_, shardOk_reset 0, ?_⟩
  · intro k r hr
    simp only [snapshotAndReset, KeyedMap.find_filter] at hr
    obtain ⟨hfind, hkeep⟩ := Option.filter_eq_some_iff.mp hr
    have hconsistent := h.consistent k r hfind
    refine ⟨hconsistent, Nat.pos_of_ne_zero fun hzero => ?_⟩
    obtain ⟨hcache, -, -⟩ := hconsistent
    have hempty : isEmptyRecord r = true := by
      simp only [isEmptyRecord, Bool.and_eq_true, beq_iff_eq]
      omega
    rw [hempty] at hkeep
    cases hkeep
  · intro k c
    simp only [snapshotAndReset, tally, KeyedMap.find_filter]
    cases hfind : s.buckets.find k with
    | none => rfl
    | some r =>
      cases hempty : isEmptyRecord r with
      | false => simp [Option.filter, hempty]
      | true => simp [Option.filter, hempty, (h.consistent k r hfind).eq_zero hempty c]
  · intro k c
    change tally (ensureOverflowSentinel overflowKey {}) k c = 0
    rw [ensureOverflowSentinel_empty, tally_set_new rfl]
    rfl

end Shards

section Service

variable {κ : Type u} [DecidableEq κ] {overflowKey : κ} {maxBuckets n : ℕ}

/-- A number read off a table and its overflow count. -/
abbrev Measure (κ : Type u) : Type u := KeyedMap κ AggregateRecord → ℕ → ℕ

/-- The measure of a snapshot or report. -/
def Snapshot.measure (μ : Measure κ) (s : Snapshot κ) : ℕ := μ s.records s.bucketsOverflowed

/-- The measure of a shard. -/
def Shard.measure (μ : Measure κ) (s : Shard κ) : ℕ := μ s.buckets s.bucketsOverflowed

/-- Of a shard's snapshot, if the emission in progress has it. -/
def Emitter.collected (μ : Measure κ) : Emitter κ n → Fin (n + 1) → ℕ
  | .collecting perShard, i => (perShard i).elim 0 (Snapshot.measure μ)
  | _, _ => 0

/-- Of the report that is being handed over. -/
def Emitter.merged (μ : Measure κ) : Emitter κ n → ℕ
  | .consuming report => report.measure μ
  | _ => 0

/-- Of everything there is: on the shards, under way, taken by the sink or lost by it. -/
def Service.total (μ : Measure κ) (s : Service κ n) : ℕ :=
  ∑ i, ((s.shards i).measure μ + s.emitter.collected μ i) + s.emitter.merged μ +
    (s.emitted.map (Snapshot.measure μ)).sum + (s.failed.map (Snapshot.measure μ)).sum

/-- A measure that snapshots and merges keep. -/
structure Conserved (overflowKey : κ) (maxBuckets : ℕ) (μ : Measure κ) : Prop where
  /-- the snapshot has it all, and the shard nothing -/
  snapshot : ∀ s : Shard κ, ShardOk overflowKey maxBuckets s →
    (snapshotAndReset overflowKey s).1.measure μ = s.measure μ ∧
      (snapshotAndReset overflowKey s).2.measure μ = 0
  /-- the report has the sum -/
  merge : ∀ snaps : List (Snapshot κ),
    (mergeSnapshots snaps).measure μ = (snaps.map (Snapshot.measure μ)).sum

theorem conserved_tally (k : κ) (c : Counter) :
    Conserved overflowKey maxBuckets fun m _ => tally m k c := by
  refine ⟨fun s hs => ?_, fun snaps => tally_mergeSnapshots snaps k c⟩
  obtain ⟨-, hsnap, -, hreset⟩ := snapshotAndReset_spec hs
  exact ⟨hsnap k c, hreset k c⟩

theorem conserved_overflowed :
    Conserved overflowKey maxBuckets fun (_ : KeyedMap κ AggregateRecord) ov => ov :=
  ⟨fun _ _ => ⟨rfl, rfl⟩, fun _ => rfl⟩

/-- A sum in which one term grows. -/
theorem sum_grows {f g : Fin (n + 1) → ℕ} {a : Fin (n + 1)} {d : ℕ}
    (hother : ∀ i, i ≠ a → g i = f i) (ha : g a = f a + d) : ∑ i, g i = ∑ i, f i + d := by
  have hrest : ∑ i ∈ Finset.univ.erase a, g i = ∑ i ∈ Finset.univ.erase a, f i :=
    Finset.sum_congr rfl fun i hi => hother i (Finset.ne_of_mem_erase hi)
  rw [← Finset.add_sum_erase _ g (Finset.mem_univ a),
    ← Finset.add_sum_erase _ f (Finset.mem_univ a), hrest, ha]
  omega

/-- The snapshots of the shards, summed up in their order. -/
theorem sum_filterMap {α β : Type*} (g : α → Option β) (f : β → ℕ) (l : List α) :
    ((l.filterMap g).map f).sum = (l.map fun a => (g a).elim 0 f).sum := by
  induction l with
  | nil => rfl
  | cons a l ih =>
    rw [List.map_cons, List.sum_cons, ← ih]
    cases hg : g a with
    | none => rw [List.filterMap_cons_none hg, Option.elim_none, Nat.zero_add]
    | some b => rw [List.filterMap_cons_some hg, List.map_cons, List.sum_cons, Option.elim_some]

/-- The snapshots of an emission and its report. -/
def Emitter.Ok : Emitter κ n → Prop
  | .idle => True
  | .collecting perShard => ∀ i s, perShard i = some s → AllRecords Reported s.records
  | .consuming report => AllRecords Reported report.records

/-- The invariant. -/
structure Sound (overflowKey : κ) (maxBuckets : ℕ) (s : Service κ n) : Prop where
  /-- of the shards -/
  shards : ∀ i, ShardOk overflowKey maxBuckets (s.shards i)
  /-- of the emission in progress -/
  emitter : s.emitter.Ok
  /-- of the reports -/
  reports : ∀ r ∈ s.emitted ++ s.failed, AllRecords Reported r.records
  /-- each outcome is counted in its own bucket or in the overflow bucket -/
  slots : ∀ e ∈ s.log, e.2.1 = e.1 ∨ e.2.1 = overflowKey
  /-- each outcome is counted once -/
  counted : ∀ k c, s.total (fun m _ => tally m k c) =
    (s.log.map fun e => if e.2.1 = k then e.2.2.counts c else 0).sum
  /-- so is each that overflowed -/
  overflowed : s.total (fun _ ov => ov) = (s.log.map fun e => if e.2.1 = e.1 then 0 else 1).sum

/-- A step that records nothing: whatever is conserved stays. -/
structure Kept (overflowKey : κ) (maxBuckets : ℕ) (s s' : Service κ n) : Prop where
  log : s'.log = s.log
  shards : ∀ i, ShardOk overflowKey maxBuckets (s'.shards i)
  emitter : s'.emitter.Ok
  reports : ∀ r ∈ s'.emitted ++ s'.failed, AllRecords Reported r.records
  total : ∀ μ, Conserved overflowKey maxBuckets μ → s'.total μ = s.total μ

section Steps

variable {s s' : Service κ n}

theorem kept_onEmitTimer (h : Sound overflowKey maxBuckets s)
    (hstep : step overflowKey maxBuckets s .onEmitTimer = some s') :
    Kept overflowKey maxBuckets s s' := by
  rw [step] at hstep
  cases hemitter : s.emitter with
  | idle =>
    simp only [hemitter] at hstep
    obtain rfl := Option.some.inj hstep
    refine ⟨rfl, h.shards, ?_, h.reports, fun μ _ => ?_⟩
    · intro i snap hsnap
      cases hsnap
    · rw [Service.total, Service.total, hemitter]
      rfl
  | collecting perShard =>
    simp only [hemitter] at hstep
    obtain rfl := Option.some.inj hstep
    refine ⟨rfl, h.shards, hemitter ▸ h.emitter, h.reports, fun μ _ => ?_⟩
    rw [Service.total, Service.total, hemitter]
  | consuming report =>
    simp only [hemitter] at hstep
    obtain rfl := Option.some.inj hstep
    refine ⟨rfl, h.shards, hemitter ▸ h.emitter, h.reports, fun μ _ => ?_⟩
    rw [Service.total, Service.total, hemitter]

/-- What a shard gives up is in its snapshot. -/
theorem kept_collect {j : Fin (n + 1)} (h : Sound overflowKey maxBuckets s)
    (hstep : step overflowKey maxBuckets s (.collect j) = some s') :
    Kept overflowKey maxBuckets s s' := by
  rw [step] at hstep
  cases hemitter : s.emitter with
  | idle => simp only [hemitter, reduceCtorEq] at hstep
  | consuming report => simp only [hemitter, reduceCtorEq] at hstep
  | collecting perShard =>
    simp only [hemitter] at hstep
    split_ifs at hstep with hthere
    obtain rfl := Option.some.inj hstep
    have hnone : perShard j = none := by simpa using hthere
    have hok := h.emitter
    rw [hemitter] at hok
    obtain ⟨hrecords, -, hreset, -⟩ := snapshotAndReset_spec (h.shards j)
    refine ⟨rfl, fun i => ?_, fun i snap hsnap => ?_, h.reports, fun μ hμ => ?_⟩
    · by_cases hi : i = j
      · subst hi
        simp only [Function.update_self]
        exact hreset
      · simp only [Function.update_of_ne hi]
        exact h.shards i
    · by_cases hi : i = j
      · subst hi
        rw [Function.update_self] at hsnap
        rw [← Option.some.inj hsnap]
        exact hrecords
      · rw [Function.update_of_ne hi] at hsnap
        exact hok i snap hsnap
    · obtain ⟨hsnap, hzero⟩ := hμ.snapshot _ (h.shards j)
      rw [Service.total, Service.total, hemitter]
      congr 3
      refine Finset.sum_congr rfl fun i _ => ?_
      by_cases hi : i = j
      · subst hi
        simp only [Function.update_self, Emitter.collected, hnone, Option.elim_none,
          Option.elim_some, hsnap, hzero, Nat.zero_add, Nat.add_zero]
      · simp only [Function.update_of_ne hi, Emitter.collected]

/-- What the snapshots have is in the merged report. -/
theorem kept_merge (h : Sound overflowKey maxBuckets s)
    (hstep : step overflowKey maxBuckets s .merge = some s') :
    Kept overflowKey maxBuckets s s' := by
  rw [step] at hstep
  cases hemitter : s.emitter with
  | idle => simp only [hemitter, reduceCtorEq] at hstep
  | consuming report => simp only [hemitter, reduceCtorEq] at hstep
  | collecting perShard =>
    simp only [hemitter] at hstep
    split_ifs at hstep with hall
    obtain rfl := Option.some.inj hstep
    have hok := h.emitter
    rw [hemitter] at hok
    refine ⟨rfl, h.shards, ?_, h.reports, fun μ hμ => ?_⟩
    · refine AllRecords.mergeSnapshots Reported.merge fun snap hsnap => ?_
      obtain ⟨i, -, hi⟩ := List.mem_filterMap.mp hsnap
      exact hok i snap hi
    · rw [Service.total, Service.total, hemitter]
      simp only [Emitter.collected, Emitter.merged, Nat.add_zero, hμ.merge, sum_filterMap]
      rw [← Fin.sum_univ_def, Finset.sum_add_distrib]

/-- A report is emitted or fails; either way it is there. -/
theorem kept_consumed {ok : Bool} (h : Sound overflowKey maxBuckets s)
    (hstep : step overflowKey maxBuckets s (.consumed ok) = some s') :
    Kept overflowKey maxBuckets s s' := by
  rw [step] at hstep
  cases hemitter : s.emitter with
  | idle => simp only [hemitter, reduceCtorEq] at hstep
  | collecting perShard => simp only [hemitter, reduceCtorEq] at hstep
  | consuming report =>
    simp only [hemitter] at hstep
    obtain rfl := Option.some.inj hstep
    have hok := h.emitter
    rw [hemitter] at hok
    have hreports : ∀ r, r ∈ s.emitted ++ s.failed ∨ r = report →
        AllRecords Reported r.records := by
      rintro r (hr | rfl)
      · exact h.reports r hr
      · exact hok
    cases ok with
    | true =>
      refine ⟨rfl, h.shards, trivial, fun r hr => hreports r ?_, fun μ _ => ?_⟩
      · simp only [if_true, List.mem_append, List.mem_singleton] at hr ⊢
        tauto
      · rw [Service.total, Service.total, hemitter]
        simp only [if_true, Emitter.collected, Emitter.merged, List.map_append,
          List.map_singleton, List.sum_append, List.sum_singleton]
        omega
    | false =>
      refine ⟨rfl, h.shards, trivial, fun r hr => hreports r ?_, fun μ _ => ?_⟩
      · simp only [Bool.false_eq_true, if_false, List.mem_append, List.mem_singleton] at hr ⊢
        tauto
      · rw [Service.total, Service.total, hemitter]
        simp only [Bool.false_eq_true, if_false, Emitter.collected, Emitter.merged,
          List.map_append, List.map_singleton, List.sum_append, List.sum_singleton]
        omega

/-- What one step does: an outcome is recorded, or everything that is conserved stays. -/
theorem step_cases {a : Action κ n} (h : Sound overflowKey maxBuckets s)
    (hstep : step overflowKey maxBuckets s a = some s') :
    (∃ i key o sh, recordOutcome overflowKey maxBuckets (s.shards i) key o = some sh ∧
      s' = { s with
        shards := Function.update s.shards i sh
        log := s.log ++ [(key, slotKey overflowKey maxBuckets (s.shards i) key, o)] }) ∨
    Kept overflowKey maxBuckets s s' := by
  cases a with
  | recordOutcome i key o =>
    obtain ⟨sh, hsh, rfl⟩ := Option.map_eq_some_iff.mp hstep
    exact .inl ⟨i, key, o, sh, hsh, rfl⟩
  | onEmitTimer => exact .inr (kept_onEmitTimer h hstep)
  | collect j => exact .inr (kept_collect h hstep)
  | merge => exact .inr (kept_merge h hstep)
  | consumed ok => exact .inr (kept_consumed h hstep)

end Steps

omit [DecidableEq κ] in
/-- An outcome recorded on a shard adds to every measure what it adds there. -/
theorem total_recorded {s : Service κ n} {i : Fin (n + 1)} {sh : Shard κ}
    {log : List (κ × κ × Outcome)} {μ : Measure κ} {d : ℕ}
    (hd : sh.measure μ = (s.shards i).measure μ + d) :
    Service.total μ { s with shards := Function.update s.shards i sh, log := log } =
      s.total μ + d := by
  have hsum : ∑ j, ((Function.update s.shards i sh j).measure μ + s.emitter.collected μ j) =
      ∑ j, ((s.shards j).measure μ + s.emitter.collected μ j) + d := by
    refine sum_grows (a := i) (fun j hj => ?_) ?_
    · rw [Function.update_of_ne hj]
    · rw [Function.update_self, hd]
      omega
  rw [Service.total, Service.total]
  simp only [hsum]
  omega

theorem sound_step {s s' : Service κ n} {a : Action κ n} (h : Sound overflowKey maxBuckets s)
    (hstep : step overflowKey maxBuckets s a = some s') : Sound overflowKey maxBuckets s' := by
  rcases step_cases h hstep with ⟨i, key, o, sh, hsh, rfl⟩ |
    ⟨hlog, hshards, hemitter, hreports, htotal⟩
  · obtain ⟨sh', hsh', hok, htally, hoverflowed⟩ := recordOutcome_spec (h.shards i) key o
    obtain rfl : sh = sh' := Option.some.inj (hsh.symm.trans hsh')
    refine ⟨fun j => ?_, h.emitter, h.reports, fun e he => ?_, fun k c => ?_, ?_⟩
    · by_cases hj : j = i
      · subst hj
        simp only [Function.update_self]
        exact hok
      · simp only [Function.update_of_ne hj]
        exact h.shards j
    · rcases List.mem_append.mp he with he | he
      · exact h.slots e he
      · rw [List.mem_singleton] at he
        subst he
        simp only [slotKey]
        split_ifs
        · exact .inl rfl
        · exact .inl rfl
        · exact .inr rfl
    · have hμ : sh.measure (fun m _ => tally m k c) =
          (s.shards i).measure (fun m _ => tally m k c) +
            if slotKey overflowKey maxBuckets (s.shards i) key = k then o.counts c else 0 :=
        htally k c
      rw [total_recorded hμ, h.counted k c, List.map_append, List.sum_append,
        List.map_singleton, List.sum_singleton]
    · have hμ : sh.measure (fun _ ov => ov) = (s.shards i).measure (fun _ ov => ov) +
          if slotKey overflowKey maxBuckets (s.shards i) key = key then 0 else 1 := hoverflowed
      rw [total_recorded hμ, h.overflowed, List.map_append, List.sum_append,
        List.map_singleton, List.sum_singleton]
  · refine ⟨hshards, hemitter, hreports, ?_, fun k c => ?_, ?_⟩
    · rw [hlog]
      exact h.slots
    · rw [htotal _ (conserved_tally k c), hlog]
      exact h.counted k c
    · rw [htotal _ conserved_overflowed, hlog]
      exact h.overflowed

/-- A measure that is zero on a reset shard is zero on a service that starts. -/
theorem total_started {μ : Measure κ} (hμ : μ (ensureOverflowSentinel overflowKey {}) 0 = 0) :
    (started overflowKey : Service κ n).total μ = 0 := by
  have hsum :
      ∑ i : Fin (n + 1), (((started overflowKey : Service κ n).shards i).measure μ + 0) = 0 :=
    Finset.sum_eq_zero fun i _ => hμ
  rw [Service.total]
  exact hsum

theorem sound_started : Sound overflowKey maxBuckets (started overflowKey : Service κ n) := by
  refine ⟨fun i => shardOk_reset 0, trivial, ?_, ?_, fun k c => ?_, ?_⟩
  · intro r hr
    cases hr
  · intro e he
    cases he
  · refine total_started ?_
    rw [ensureOverflowSentinel_empty, tally_set_new rfl]
    rfl
  · exact total_started rfl

/-- What the readers of the reports can rely on. -/
structure Contract (overflowKey : κ) (maxBuckets : ℕ) (s : Service κ n) : Prop where
  /-- by bucket and counter, what the shards hold, the emission in progress has and the reports
  have, taken by the sink or lost by it, is what the outcomes recorded there add up to -/
  counted : ∀ k c, s.total (fun m _ => tally m k c) =
    (s.log.map fun e => if e.2.1 = k then e.2.2.counts c else 0).sum
  /-- an outcome is in its own bucket or in the overflow bucket -/
  slots : ∀ e ∈ s.log, e.2.1 = e.1 ∨ e.2.1 = overflowKey
  /-- and the overflow counts tell how many are there for another -/
  overflowed : s.total (fun _ ov => ov) = (s.log.map fun e => if e.2.1 = e.1 then 0 else 1).sum
  /-- the records of a report add up and none is empty -/
  reports : ∀ r ∈ s.emitted, AllRecords Reported r.records
  /-- the table of a shard is bounded -/
  bounded : ∀ i, (s.shards i).buckets.size ≤ max maxBuckets 1
  /-- an outcome always finds a bucket -/
  recordable : ∀ i key o, (recordOutcome overflowKey maxBuckets (s.shards i) key o).isSome

/-- **No outcome is lost or counted twice**, however recording, the timer, the snapshots of the
shards, the merge and the sink interleave. -/
theorem telemetry_conserves {s : Service κ n} {acts : List (Action κ n)}
    (hrun : exec (step overflowKey maxBuckets) (started overflowKey) acts = some s) :
    Contract overflowKey maxBuckets s := by
  have hsound := @exec_induction _ _ (step overflowKey maxBuckets)
    (fun _ s => Sound overflowKey maxBuckets s) (fun hstep hs => sound_step hs hstep) [] acts
    (started overflowKey) s hrun sound_started
  refine ⟨hsound.counted, hsound.slots, hsound.overflowed, fun r hr => ?_,
    fun i => (hsound.shards i).bounded, fun i key o => ?_⟩
  · exact hsound.reports r (List.mem_append_left _ hr)
  · obtain ⟨sh, hsh, -⟩ := recordOutcome_spec (hsound.shards i) key o
    rw [hsh]
    rfl

/-- Two shards with room for one bucket beside the overflow bucket. The second outcome of shard
1 overflows, and shard 0 records one after its snapshot is taken. -/
def oneWindow : List (Action ℕ 1) :=
  [.recordOutcome (Fin.last 1) 5 { kind := .success, cacheHit := true },
    .recordOutcome (Fin.last 1) 6 { kind := .timeout }, .onEmitTimer,
    .collect (Fin.last 0).castSucc, .recordOutcome (Fin.last 0).castSucc 5 { kind := .failure },
    .collect (Fin.last 1), .merge, .onEmitTimer, .consumed true]

theorem telemetry_conserves_oneWindow :
    ∃ s, exec (step 0 2) (started 0) oneWindow = some s ∧ Contract 0 2 s := by
  have hrun := @exec_eq_some_getD _ _ (step 0 2) (started 0) oneWindow (by decide)
  exact ⟨_, hrun, telemetry_conserves hrun⟩

end Service

end Telemetry

end Ranvier
