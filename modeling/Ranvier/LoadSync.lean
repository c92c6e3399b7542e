import Mathlib.Algebra.GroupWithZero.Nat
import Ranvier.KeyedMap
import Ranvier.Types

/-!
# Cross-shard load

Every shard sends the others its requests in flight per backend. A receiver keeps the last
snapshot of each shard and one sum per backend, which it never computes anew: it takes out
what the sender reported before and puts in what it reports now.

* `applyLoadSnapshot` — the receiver;
* `latestLoad` — what a shard reported last, read off the events alone;
* `Balanced` — the sum is that of the snapshots, and stands for one of them;
* `crossShardLoad_balanced` — it is, after any events, and no subtraction goes below zero.
-/

namespace Ranvier

/-- What a snapshot is sent as. -/
abbrev LoadPairs : Type := List (BackendId × ℕ)

/-- The load sync state of a shard; the loads count requests. -/
structure LoadSync : Type where
  shardLoadSnapshots : List (KeyedMap BackendId ℕ)
  crossShardLoad : KeyedMap BackendId ℕ := {}

/-- What happens to it. -/
inductive LoadEvent : Type where
  | snapshot (sourceShard : ℕ) (snapshotPairs : LoadPairs)
  | reset

/-- The turn of the first loop. -/
def subtractLoad (crossShardLoad : KeyedMap BackendId ℕ) (old : BackendId × ℕ) :
    KeyedMap BackendId ℕ :=
  match crossShardLoad.find old.1 with
  | none => crossShardLoad
  | some load =>
    if load ≤ old.2 then crossShardLoad.erase old.1
    else crossShardLoad.set old.1 (load - old.2)

/-- The second loop. -/
def storeSnapshot (snapshotPairs : LoadPairs) : KeyedMap BackendId ℕ :=
  snapshotPairs.foldl (fun snapshot e => snapshot.set e.1 e.2) {}

/-- The turn of the third loop; a new entry starts at zero. -/
def addLoad (crossShardLoad : KeyedMap BackendId ℕ) (new : BackendId × ℕ) :
    KeyedMap BackendId ℕ :=
  crossShardLoad.set new.1 ((crossShardLoad.find new.1).getD 0 + new.2)

namespace LoadSync

/-- One snapshot per shard, all empty. -/
def init (shards : ℕ) : LoadSync where
  shardLoadSnapshots := List.replicate shards {}

/-- `apply_load_snapshot`. -/
def applyLoadSnapshot (s : LoadSync) (sourceShard : ℕ) (snapshotPairs : LoadPairs) : LoadSync :=
  match s.shardLoadSnapshots[sourceShard]? with
  | none => s
  | some oldSnapshot =>
    let snapshot := storeSnapshot snapshotPairs
    { shardLoadSnapshots := s.shardLoadSnapshots.set sourceShard snapshot
      crossShardLoad := snapshot.entries.foldl addLoad
        (oldSnapshot.entries.foldl subtractLoad s.crossShardLoad) }

/-- The part of `ShardLocalState::reset` that is about load sync. -/
def reset (s : LoadSync) : LoadSync where
  shardLoadSnapshots := s.shardLoadSnapshots.map fun _ => {}

/-- One event. -/
def step (s : LoadSync) : LoadEvent → LoadSync
  | .snapshot sourceShard snapshotPairs => s.applyLoadSnapshot sourceShard snapshotPairs
  | .reset => s.reset

/-- What a shard sent last, since the last reset. -/
def latestPairs (shard : ℕ) (events : List LoadEvent) : LoadPairs :=
  events.foldl (fun last e =>
    match e with
    | .snapshot sourceShard snapshotPairs => if sourceShard = shard then snapshotPairs else last
    | .reset => []) []

/-- The load of a backend in it, if it lists the backend; of two pairs the later counts. -/
def latestLoad (shard : ℕ) (id : BackendId) (events : List LoadEvent) : Option ℕ :=
  (latestPairs shard events).reverse.lookup id

/-! ## One entry -/

/-- The first loop at one entry. -/
def lowered (old : ℕ) : Option ℕ → Option ℕ
  | none => none
  | some load => if load ≤ old then none else some (load - old)

/-- The third loop at one entry. -/
def raised (new : ℕ) (load : Option ℕ) : Option ℕ := some (load.getD 0 + new)

theorem find_subtractLoad (m : KeyedMap BackendId ℕ) (e : BackendId × ℕ) (id : BackendId) :
    (subtractLoad m e).find id = if id = e.1 then lowered e.2 (m.find id) else m.find id := by
  rw [subtractLoad]
  cases h : m.find e.1 with
  | none =>
    dsimp only
    split
    · next heq => rw [heq, h, lowered]
    · rfl
  | some load =>
    dsimp only
    split
    · next hle =>
      rw [KeyedMap.find_erase]
      split
      · next heq => rw [heq, h, lowered, if_pos hle]
      · rfl
    · next hle =>
      rw [KeyedMap.find_set]
      split
      · next heq => rw [heq, h, lowered, if_neg hle]
      · rfl

theorem find_addLoad (m : KeyedMap BackendId ℕ) (e : BackendId × ℕ) (id : BackendId) :
    (addLoad m e).find id = if id = e.1 then raised e.2 (m.find id) else m.find id := by
  rw [addLoad, KeyedMap.find_set]
  split
  · next heq => rw [heq, raised]
  · rfl

theorem find_storeSnapshot (pairs : LoadPairs) (id : BackendId) :
    (storeSnapshot pairs).find id = pairs.reverse.lookup id := by
  induction pairs using List.reverseRecOn with
  | nil => rfl
  | append_singleton pairs e ih =>
    have hlast : storeSnapshot (pairs ++ [e]) = (storeSnapshot pairs).set e.1 e.2 := by
      rw [storeSnapshot, List.foldl_append]
      rfl
    rw [hlast, KeyedMap.find_set, List.reverse_append, ih]
    exact (lookup_cons_eq id e.1 e.2 pairs.reverse).symm

/-- What the first loop leaves of an entry. -/
def leftover (old load : Option ℕ) : Option ℕ := (old.map fun l => lowered l load).getD load

/-- What the third loop makes of it. -/
def refilled (new load : Option ℕ) : Option ℕ := (new.map fun l => raised l load).getD load

theorem find_subtractLoads (old m : KeyedMap BackendId ℕ) (id : BackendId) :
    (old.entries.foldl subtractLoad m).find id = leftover (old.find id) (m.find id) :=
  KeyedMap.find_foldl find_subtractLoad old.nodup m id

theorem find_addLoads (new m : KeyedMap BackendId ℕ) (id : BackendId) :
    (new.entries.foldl addLoad m).find id = refilled (new.find id) (m.find id) :=
  KeyedMap.find_foldl find_addLoad new.nodup m id

theorem leftover_getD (old load : Option ℕ) :
    (leftover old load).getD 0 = load.getD 0 - old.getD 0 := by
  cases old with
  | none => rfl
  | some l =>
    cases load with
    | none => exact (Nat.zero_sub l).symm
    | some load =>
      change (if load ≤ l then none else some (load - l)).getD 0 = load - l
      split
      · next hle => exact (Nat.sub_eq_zero_of_le hle).symm
      · rfl

theorem refilled_getD (new load : Option ℕ) :
    (refilled new load).getD 0 = load.getD 0 + new.getD 0 := by
  cases new with
  | none => rfl
  | some l => rfl

/-- An entry that is left was not touched, or more than the snapshot's part of it. -/
theorem isSome_leftover {old load : Option ℕ} (h : (leftover old load).isSome) :
    old = none ∧ load.isSome ∨ old.getD 0 < load.getD 0 := by
  cases old with
  | none => exact Or.inl ⟨rfl, h⟩
  | some l =>
    cases load with
    | none => cases h
    | some load =>
      change (if load ≤ l then none else some (load - l)).isSome at h
      split at h
      · cases h
      · next hlt => exact Or.inr (not_le.mp hlt)

theorem isSome_refilled {new load : Option ℕ} (h : (refilled new load).isSome) :
    new.isSome ∨ load.isSome := by
  cases new with
  | none => exact Or.inr h
  | some l => exact Or.inl rfl

/-! ## The sum -/

/-- The load of a backend in a snapshot, zero if it is not listed. -/
def loadIn (id : BackendId) (snapshot : KeyedMap BackendId ℕ) : ℕ := (snapshot.find id).getD 0

/-- The sum over the snapshots that are kept. -/
def snapshotTotal (s : LoadSync) (id : BackendId) : ℕ :=
  (s.shardLoadSnapshots.map (loadIn id)).sum

/-- One of the snapshots has an entry for the backend. -/
def Listed (s : LoadSync) (id : BackendId) : Prop :=
  ∃ (shard : ℕ) (snapshot : KeyedMap BackendId ℕ),
    s.shardLoadSnapshots[shard]? = some snapshot ∧ (snapshot.find id).isSome

/-- The load of each backend is the sum over the snapshots, and has an entry only if one of
them lists it. -/
def Balanced (s : LoadSync) : Prop :=
  ∀ id, (s.crossShardLoad.find id).getD 0 = s.snapshotTotal id ∧
    ((s.crossShardLoad.find id).isSome → s.Listed id)

theorem sum_map_set {α : Type} (f : α → ℕ) {l : List α} {i : ℕ} {a : α} (h : l[i]? = some a)
    (b : α) : ((l.set i b).map f).sum + f a = (l.map f).sum + f b := by
  induction l generalizing i with
  | nil => cases h
  | cons x l ih =>
    cases i with
    | zero =>
      obtain rfl := Option.some.inj h
      rw [List.set_cons_zero, List.map_cons, List.map_cons, List.sum_cons, List.sum_cons]
      omega
    | succ i =>
      have hrest := ih h
      rw [List.set_cons_succ, List.map_cons, List.map_cons, List.sum_cons, List.sum_cons]
      omega

/-- A shard that reports some load of a backend lists it. -/
theorem listed_of_total_pos {s : LoadSync} {id : BackendId} (h : 0 < s.snapshotTotal id) :
    s.Listed id := by
  rw [snapshotTotal, List.sum_pos_iff_exists_pos_nat] at h
  obtain ⟨load, hload, hpos⟩ := h
  obtain ⟨snapshot, hmem, rfl⟩ := List.mem_map.mp hload
  obtain ⟨shard, hshard⟩ := List.mem_iff_getElem?.mp hmem
  refine ⟨shard, snapshot, hshard, ?_⟩
  cases hfind : snapshot.find id with
  | none =>
    rw [loadIn, hfind] at hpos
    exact absurd hpos (lt_irrefl 0)
  | some load => rfl

/-- Empty snapshots and no entry. -/
theorem balanced_empty {s : LoadSync} (hsnapshots : ∀ m ∈ s.shardLoadSnapshots, m = {})
    (hcross : s.crossShardLoad = {}) : s.Balanced := by
  intro id
  have hnone : s.crossShardLoad.find id = none := by
    rw [hcross]
    rfl
  rw [hnone]
  refine ⟨(List.sum_eq_zero_iff_forall_eq_nat.mpr fun load hload => ?_).symm, fun h => nomatch h⟩
  obtain ⟨snapshot, hmem, rfl⟩ := List.mem_map.mp hload
  rw [hsnapshots snapshot hmem]
  rfl

/-- A snapshot is a part of the sum. -/
theorem loadIn_le_total {s : LoadSync} {shard : ℕ} {snapshot : KeyedMap BackendId ℕ}
    (h : s.shardLoadSnapshots[shard]? = some snapshot) (id : BackendId) :
    loadIn id snapshot ≤ s.snapshotTotal id := by
  have hsum := sum_map_set (loadIn id) h {}
  have hempty : loadIn id {} = 0 := rfl
  rw [snapshotTotal]
  omega

/-- A snapshot that comes in changes the sum by what its shard reports differently. -/
theorem Balanced.applyLoadSnapshot {s : LoadSync} (h : s.Balanced) (sourceShard : ℕ)
    (snapshotPairs : LoadPairs) : (s.applyLoadSnapshot sourceShard snapshotPairs).Balanced := by
  rw [LoadSync.applyLoadSnapshot]
  split
  · exact h
  · next old hold =>
    intro id
    obtain ⟨hsum, hlisted⟩ := h id
    dsimp only
    rw [find_addLoads, find_subtractLoads]
    have htotal := sum_map_set (loadIn id) hold (storeSnapshot snapshotPairs)
    have hpart := loadIn_le_total hold id
    constructor
    · rw [refilled_getD, leftover_getD, hsum]
      simp only [snapshotTotal, loadIn] at htotal hpart ⊢
      omega
    · intro hsome
      rcases isSome_refilled hsome with hnew | hleft
      · exact ⟨sourceShard, _, List.getElem?_set_self (List.getElem?_eq_some_iff.mp hold).1, hnew⟩
      · rcases isSome_leftover hleft with ⟨hnone, hentry⟩ | hmore
        · -- the shard that lists it is another one
          obtain ⟨shard, snapshot, hshard, hfind⟩ := hlisted hentry
          refine ⟨shard, snapshot, ?_, hfind⟩
          rw [List.getElem?_set_ne, hshard]
          rintro rfl
          rw [hold] at hshard
          obtain rfl := Option.some.inj hshard
          rw [hnone] at hfind
          cases hfind
        · refine listed_of_total_pos ?_
          simp only [snapshotTotal, loadIn] at htotal hsum ⊢
          omega

theorem Balanced.step {s : LoadSync} (h : s.Balanced) (e : LoadEvent) : (s.step e).Balanced := by
  cases e with
  | snapshot sourceShard snapshotPairs => exact h.applyLoadSnapshot sourceShard snapshotPairs
  | reset =>
    refine balanced_empty (fun m hm => ?_) rfl
    obtain ⟨-, -, rfl⟩ := List.mem_map.mp hm
    rfl

/-! ## Runs -/

/-- The state after the events. -/
def run (shards : ℕ) (events : List LoadEvent) : LoadSync := events.foldl step (init shards)

theorem run_append_singleton (shards : ℕ) (events : List LoadEvent) (e : LoadEvent) :
    run shards (events ++ [e]) = (run shards events).step e := by
  rw [run, List.foldl_append]
  rfl

theorem balanced_run (shards : ℕ) (events : List LoadEvent) : (run shards events).Balanced := by
  induction events using List.reverseRecOn with
  | nil => exact balanced_empty (fun _ hm => List.eq_of_mem_replicate hm) rfl
  | append_singleton events e ih =>
    rw [run_append_singleton]
    exact ih.step e

theorem latestPairs_append_singleton (shard : ℕ) (events : List LoadEvent) (e : LoadEvent) :
    latestPairs shard (events ++ [e]) =
      match e with
      | .snapshot sourceShard snapshotPairs =>
        if sourceShard = shard then snapshotPairs else latestPairs shard events
      | .reset => [] := by
  rw [latestPairs, List.foldl_append]
  rfl

theorem snapshots_step (s : LoadSync) (e : LoadEvent) :
    (s.step e).shardLoadSnapshots =
      match e with
      | .snapshot sourceShard snapshotPairs =>
        s.shardLoadSnapshots.set sourceShard (storeSnapshot snapshotPairs)
      | .reset => s.shardLoadSnapshots.map fun _ => {} := by
  cases e with
  | snapshot sourceShard snapshotPairs =>
    rw [step, applyLoadSnapshot]
    split
    · next hnone => exact (List.set_eq_of_length_le (List.getElem?_eq_none_iff.mp hnone)).symm
    · rfl
  | reset => rfl

/-- The snapshots that are kept are the latest ones. -/
theorem snapshots_run (shards : ℕ) (events : List LoadEvent) :
    (run shards events).shardLoadSnapshots =
      (List.range shards).map fun shard => storeSnapshot (latestPairs shard events) := by
  induction events using List.reverseRecOn with
  | nil =>
    have hconst : (List.range shards).map (fun _ => storeSnapshot []) =
        List.replicate (List.range shards).length (storeSnapshot []) := List.map_const'
    rw [List.length_range] at hconst
    exact hconst.symm
  | append_singleton events e ih =>
    rw [run_append_singleton, snapshots_step, ih]
    cases e with
    | snapshot sourceShard snapshotPairs =>
      refine List.ext_getElem? fun shard => ?_
      dsimp only
      rw [List.getElem?_set, List.getElem?_map, List.getElem?_map, List.length_map,
        List.length_range]
      by_cases hlt : shard < shards
      · rw [List.getElem?_range hlt, Option.map_some, Option.map_some,
          latestPairs_append_singleton]
        dsimp only
        split
        · next heq => rw [heq, if_pos hlt]
        · rfl
      · have hnone : (List.range shards)[shard]? = none :=
          List.getElem?_eq_none (by rw [List.length_range]; omega)
        rw [hnone]
        split
        · next heq => rw [heq, if_neg hlt]; rfl
        · rfl
    | reset =>
      rw [List.map_map]
      exact List.map_congr_left fun shard _ => by
        rw [latestPairs_append_singleton]
        rfl

theorem latestLoad_eq_find (shard : ℕ) (id : BackendId) (events : List LoadEvent) :
    latestLoad shard id events = (storeSnapshot (latestPairs shard events)).find id :=
  (find_storeSnapshot _ id).symm

theorem snapshotTotal_run (shards : ℕ) (events : List LoadEvent) (id : BackendId) :
    (run shards events).snapshotTotal id =
      ((List.range shards).map fun shard => (latestLoad shard id events).getD 0).sum := by
  simp only [latestLoad_eq_find]
  rw [snapshotTotal, snapshots_run, List.map_map]
  rfl

/-- **Load sync.** After any events the load of a backend is the sum of what the shards
reported last, without an entry if none of them lists it; and whichever snapshot is taken out
next, in whatever order, no subtraction goes below zero. -/
theorem crossShardLoad_balanced (shards : ℕ) (events : List LoadEvent) (id : BackendId) :
    ((run shards events).crossShardLoad.find id).getD 0 =
        ((List.range shards).map fun shard => (latestLoad shard id events).getD 0).sum ∧
      ((∀ shard < shards, latestLoad shard id events = none) →
        (run shards events).crossShardLoad.find id = none) ∧
      ∀ oldSnapshot ∈ (run shards events).shardLoadSnapshots, ∀ done load rest,
        oldSnapshot.entries.Perm (done ++ (id, load) :: rest) →
          load ≤ ((done.foldl subtractLoad (run shards events).crossShardLoad).find id).getD 0 := by
  obtain ⟨hsum, hlisted⟩ := balanced_run shards events id
  refine ⟨hsum.trans (snapshotTotal_run shards events id), fun hnone => ?_, ?_⟩
  · cases hfind : (run shards events).crossShardLoad.find id with
    | none => rfl
    | some load =>
      obtain ⟨shard, snapshot, hshard, hlists⟩ := hlisted (by rw [hfind]; rfl)
      rw [snapshots_run] at hshard
      obtain ⟨i, hi, rfl⟩ := List.mem_map.mp (List.mem_of_getElem? hshard)
      rw [← latestLoad_eq_find, hnone i (List.mem_range.mp hi)] at hlists
      cases hlists
  · intro old hmem done load rest hperm
    obtain ⟨shard, hshard⟩ := List.mem_iff_getElem?.mp hmem
    have hkeys : (keysOf (done ++ (id, load) :: rest)).Nodup :=
      (hperm.map Prod.fst).nodup_iff.mp old.nodup
    have hload : old.find id = some load :=
      KeyedMap.find_of_mem (hperm.mem_iff.mpr (List.mem_append_right _ List.mem_cons_self))
    -- the turns before concern other backends
    rw [keysOf_append, keysOf_cons, List.nodup_append] at hkeys
    have hother : done.lookup id = none :=
      lookup_eq_none_iff_keys.mpr fun hin => hkeys.2.2 id hin id List.mem_cons_self rfl
    rw [KeyedMap.find_foldl find_subtractLoad hkeys.1, hother]
    calc load = loadIn id old := by rw [loadIn, hload]; rfl
      _ ≤ (run shards events).snapshotTotal id := loadIn_le_total hshard id
      _ = _ := hsum.symm

end LoadSync

end Ranvier
