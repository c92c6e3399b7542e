import Ranvier.NativeKv

/-!
# Upserts after a sweep

A `CLEAR` or a `RESET` drops a backend's entries from the index, and the stream
then reports its blocks again, a backfill with the timestamps they had at first.
The sweep leaves `cache_event_timestamps` as it is, so these upserts meet the
timestamps recorded before it.

* `Quiet` — what cannot happen to a pair while no operation writes it;
* `upsert_after_sweep_iff` — which upserts after a sweep put their hash back;
* `backfill_stays_out` — a backfilled one does not.
-/

namespace Ranvier

/-- The operations a message carries. -/
def NativeMessage.ops : NativeMessage → List NativeKvOp
  | segment ops => ops
  | sweep _ _ _ => []

namespace Residency

/-! ## While the pair is not written -/

/-- From `r` to `r'` the pair was not written: its timestamp is the same, it did not
enter the index, and the backend gained at most `n` entries. -/
structure Quiet (hash : UInt64) (backend : BackendId) (n : ℕ) (r r' : Residency) : Prop where
  stamp : r'.cacheEventTimestamps.lookup (hash, backend) =
    r.cacheEventTimestamps.lookup (hash, backend)
  absent : backend ∉ r.prefixHashIndex hash → backend ∉ r'.prefixHashIndex hash
  entries : r'.entriesOf backend ≤ r.entriesOf backend + n

variable {hash : UInt64} {backend : BackendId} {r r' r'' : Residency}

theorem Quiet.refl (r : Residency) : Quiet hash backend 0 r r := ⟨rfl, id, le_refl _⟩

theorem Quiet.trans {m n : ℕ} (h : Quiet hash backend m r r') (h' : Quiet hash backend n r' r'') :
    Quiet hash backend (m + n) r r'' where
  stamp := h'.stamp.trans h.stamp
  absent hnot := h'.absent (h.absent hnot)
  entries := by
    have := h.entries
    have := h'.entries
    omega

theorem Quiet.mono {m n : ℕ} (h : Quiet hash backend m r r') (hle : m ≤ n) :
    Quiet hash backend n r r' :=
  ⟨h.stamp, h.absent, h.entries.trans (Nat.add_le_add_left hle _)⟩

/-- Counting entries for a backend: one's own count is written, others stay. -/
theorem entriesOf_insert_le (r : Residency) (id backend : BackendId) {n : ℕ}
    (hn : n ≤ r.entriesOf id + 1) :
    ({ r with indexEntries := r.indexEntries.insert id n }).entriesOf backend ≤
      r.entriesOf backend + 1 := by
  rw [entriesOf]
  by_cases hid : backend = id
  · subst hid
    rw [Finmap.lookup_insert]
    exact hn
  · rw [Finmap.lookup_insert_of_ne _ hid]
    exact Nat.le_succ _

theorem entriesOf_purge_le (r : Residency) (id backend : BackendId) :
    (r.purge id).entriesOf backend ≤ r.entriesOf backend := by
  rw [entriesOf, entriesOf, purge]
  by_cases hid : backend = id
  · subst hid
    rw [Finmap.lookup_erase]
    exact Nat.zero_le _
  · rw [Finmap.lookup_erase_ne hid]

/-- After its own sweep a backend has no entries. -/
theorem entriesOf_purge_self (r : Residency) (backend : BackendId) :
    (r.purge backend).entriesOf backend = 0 := by
  rw [entriesOf, purge, Finmap.lookup_erase]
  rfl

theorem entriesOf_store_le (r : Residency) (op : NativeKvOp) (backend : BackendId) :
    (r.store op).entriesOf backend ≤ r.entriesOf backend + 1 := by
  refine entriesOf_insert_le r op.backend backend ?_
  split_ifs
  · exact le_refl _
  · exact Nat.le_succ _

theorem entriesOf_drop_le (r : Residency) (op : NativeKvOp) (backend : BackendId) :
    (r.drop op).entriesOf backend ≤ r.entriesOf backend + 1 := by
  by_cases h : op.backend ∈ r.prefixHashIndex op.prefixHash ∧ 0 < r.entriesOf op.backend
  · have hle := entriesOf_insert_le r op.backend backend
      (by omega : r.entriesOf op.backend - 1 ≤ r.entriesOf op.backend + 1)
    rw [drop, if_pos h]
    exact hle
  · rw [drop, if_neg h]
    exact Nat.le_succ _

theorem entriesOf_apply_le (r : Residency) (op : NativeKvOp) (backend : BackendId) :
    (r.apply op).entriesOf backend ≤ r.entriesOf backend + 1 := by
  have hrecord := record_entriesOf (r := r) (op.prefixHash, op.backend) op.tsMs backend
  cases hk : op.kind
  case UPSERT =>
    simp only [apply, hk]
    split_ifs
    · exact Nat.le_succ _
    · exact (entriesOf_store_le _ op backend).trans_eq (by rw [hrecord])
  case REMOVE =>
    simp only [apply, hk]
    split_ifs
    · exact Nat.le_succ _
    · exact (entriesOf_drop_le _ op backend).trans_eq (by rw [hrecord])
  case CLEAR | RESET =>
    simp only [apply, hk]
    exact (entriesOf_purge_le r op.backend backend).trans (Nat.le_succ _)
  all_goals
    simp only [apply, hk]
    exact Nat.le_succ _

theorem quiet_purge (r : Residency) (id : BackendId) : Quiet hash backend 0 r (r.purge id) where
  stamp := rfl
  absent hnot hmem := hnot (mem_purge.mp hmem).1
  entries := entriesOf_purge_le r id backend

/-- An operation that does not write the pair is quiet. -/
theorem quiet_apply {op : NativeKvOp} (hop : ¬op.Writes hash backend) (r : Residency) :
    Quiet hash backend 1 r (r.apply op) where
  stamp := (lookup_apply op).resolve_right fun h => hop h.1
  absent hnot := by
    by_cases hs : op.Sweeps backend
    · exact mem_apply_of_sweeps hs
    · rw [mem_apply_of_not hs fun h => hop h.1]
      exact hnot
  entries := entriesOf_apply_le r op backend

theorem quiet_applyAll {ops : List NativeKvOp} (hops : ∀ op, op ∈ ops → ¬op.Writes hash backend)
    (r : Residency) : Quiet hash backend ops.length r (r.applyAll ops) := by
  induction ops generalizing r with
  | nil => exact Quiet.refl r
  | cons op ops ih =>
    have hfirst := quiet_apply (hops op List.mem_cons_self) r
    have hrest := ih (fun o ho => hops o (List.mem_cons_of_mem _ ho)) (r.apply op)
    exact (hfirst.trans hrest).mono (by rw [List.length_cons]; omega)

theorem quiet_receive {m : NativeMessage} (hm : ∀ op, op ∈ m.ops → ¬op.Writes hash backend)
    (r : Residency) : Quiet hash backend m.ops.length r (r.receive m) := by
  cases m with
  | sweep id clearRoutes dropTrust => exact quiet_purge r id
  | segment ops =>
    have hall : ∀ op, op ∈ ops.filter (fun op => !op.isSweep) → ¬op.Writes hash backend :=
      fun op hop => hm op (List.mem_of_mem_filter hop)
    exact (quiet_applyAll hall r).mono (List.length_filter_le _ _)

theorem quiet_receiveAll {msgs : List NativeMessage}
    (hmsgs : ∀ op, op ∈ msgs.flatMap NativeMessage.ops → ¬op.Writes hash backend) (r : Residency) :
    Quiet hash backend (msgs.flatMap NativeMessage.ops).length r (r.receiveAll msgs) := by
  induction msgs generalizing r with
  | nil => exact Quiet.refl r
  | cons m msgs ih =>
    rw [List.flatMap_cons] at hmsgs ⊢
    have hfirst := quiet_receive (fun op hop => hmsgs op (List.mem_append_left _ hop)) r
    have hrest := ih (fun op hop => hmsgs op (List.mem_append_right _ hop)) (r.receive m)
    rw [List.length_append]
    exact hfirst.trans hrest

/-! ## Upserts -/

/-- Whether a pair is in the index after its upsert: it was there already, or the
upsert is newer than the timestamp recorded and there is room for another entry. -/
theorem mem_apply_upsert {op : NativeKvOp} (hop : op.kind = .UPSERT) (r : Residency) :
    op.backend ∈ (r.apply op).prefixHashIndex op.prefixHash ↔
      op.backend ∈ r.prefixHashIndex op.prefixHash ∨
        r.isStale (op.prefixHash, op.backend) op.tsMs = false ∧
          r.entriesOf op.backend < maxEntriesPerBackend := by
  rcases hst : r.isStale (op.prefixHash, op.backend) op.tsMs with _ | _
  · rw [mem_apply_of_writes ⟨.inl hop, rfl, rfl⟩ hst]
    simp [hop, Admits]
  · rw [apply, hop]
    simp [hst]

end Residency

/-- The operations since a sweep: those of the messages after it and those before
the upsert in its own segment. -/
def opsSince (msgs : List (ℕ × NativeMessage)) (pre : List NativeKvOp) : List NativeKvOp :=
  (msgs.map Prod.snd).flatMap NativeMessage.ops ++ pre

/-- **Upserts after a sweep.** In any shard state let a backend be swept, let any
messages follow, and let an upsert of the backend be applied within a segment. It
leaves its hash in the index exactly when the hash is there already, or the upsert
is newer than the timestamp recorded for the pair and the backend is below its entry
cap. If it is the first write of the pair since the sweep, and the cap is out of
reach, the timestamp recorded **before** the sweep decides. -/
theorem upsert_after_sweep_iff (s : ShardLocalState) (now₀ now : ℕ) (clearRoutes dropTrust : Bool)
    (msgs : List (ℕ × NativeMessage)) (pre : List NativeKvOp) (op : NativeKvOp)
    (hop : op.kind = .UPSERT) :
    let s' := applyNativeKvOpsLocal now pre
      (deliverAll ((now₀, .sweep op.backend clearRoutes dropTrust) :: msgs) s)
    (op.backend ∈ (applyNativeKvOp now op s').prefixHashIndex op.prefixHash ↔
      op.backend ∈ s'.prefixHashIndex op.prefixHash ∨
        s'.isStale (op.prefixHash, op.backend) op.tsMs = false ∧
          s'.entriesOf op.backend < maxEntriesPerBackend) ∧
    ((∀ o, o ∈ opsSince msgs pre → ¬o.Writes op.prefixHash op.backend) →
      (opsSince msgs pre).length < maxEntriesPerBackend →
      (op.backend ∈ (applyNativeKvOp now op s').prefixHashIndex op.prefixHash ↔
        s.isStale (op.prefixHash, op.backend) op.tsMs = false)) := by
  intro s'
  have hnot : op.isSweep = false := by simp [NativeKvOp.isSweep, hop]
  have hmem : op.backend ∈ (applyNativeKvOp now op s').prefixHashIndex op.prefixHash ↔
      op.backend ∈ s'.prefixHashIndex op.prefixHash ∨
        s'.isStale (op.prefixHash, op.backend) op.tsMs = false ∧
          s'.entriesOf op.backend < maxEntriesPerBackend := by
    have hres := residency_applyNativeKvOp now op s'
    rw [hnot, if_neg Bool.false_ne_true] at hres
    have h := Residency.mem_apply_upsert hop s'.residency
    rw [← hres] at h
    exact h
  refine ⟨hmem, fun hquiet hfew => ?_⟩
  have hres : s'.residency =
      ((s.residency.purge op.backend).receiveAll (msgs.map Prod.snd)).receive (.segment pre) := by
    rw [residency_applyNativeKvOpsLocal, residency_deliverAll]
    rfl
  -- nothing wrote the pair since the sweep
  have hmsgs := Residency.quiet_receiveAll
    (fun o ho => hquiet o (List.mem_append_left _ ho)) (s.residency.purge op.backend)
  have hpre := Residency.quiet_receive (m := .segment pre)
    (fun o ho => hquiet o (List.mem_append_right _ ho))
    ((s.residency.purge op.backend).receiveAll (msgs.map Prod.snd))
  have hall := hmsgs.trans hpre
  rw [← hres] at hall
  have hstale : s'.isStale (op.prefixHash, op.backend) op.tsMs =
      s.isStale (op.prefixHash, op.backend) op.tsMs := by
    have hstamp : s'.cacheEventTimestamps.lookup (op.prefixHash, op.backend) =
        s.cacheEventTimestamps.lookup (op.prefixHash, op.backend) := hall.stamp
    rw [ShardLocalState.isStale, hstamp]
    rfl
  have habsent : op.backend ∉ s'.prefixHashIndex op.prefixHash :=
    hall.absent fun h => (Residency.mem_purge.mp h).2 rfl
  have hroom : s'.entriesOf op.backend < maxEntriesPerBackend := by
    have hentries := hall.entries
    rw [Residency.entriesOf_purge_self, Nat.zero_add] at hentries
    rw [opsSince, List.length_append] at hfew
    exact lt_of_le_of_lt hentries hfew
  rw [hmem, hstale]
  simp [habsent, hroom]

/-- The store of hash 7 by backend 1 at time 5. -/
def storeSeven : NativeKvOp := { kind := .UPSERT, backend := 1, prefixHash := 7, tsMs := 5 }

/-- A shard that evicted hash 7 earlier takes the store after a reset. -/
theorem upsert_after_sweep_iff_storeSeven :
    1 ∈ (applyNativeKvOp 0 storeSeven
      (deliverAll [(0, .sweep 1 false true)] evictedShard)).prefixHashIndex 7 :=
  ((upsert_after_sweep_iff evictedShard 0 0 false true [] [] storeSeven rfl).2
    (by decide) (by decide)).mpr (by decide)

/-- **Lost backfill.** A store, a reset, and the same store replayed with its original
timestamp: the hash stays out of the index. -/
theorem backfill_stays_out :
    1 ∉ (deliverAll [(0, .segment [storeSeven]), (0, .sweep 1 false true),
      (0, .segment [storeSeven])] emptyShard).prefixHashIndex 7 := by
  decide

end Ranvier
