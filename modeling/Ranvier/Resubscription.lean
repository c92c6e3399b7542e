import Ranvier.KvSubscriber
import Ranvier.RouteLearning
import Ranvier.SweepReplay

/-!
# Subscribing again

The subscriber and a shard are two ends of a pipe: what the worker hands over is
shipped, and the shard executes it later. A subscription that is removed takes its
ledger along and ships nothing, so what it put into the index stays there, and counts
as verified as soon as a second subscription of the backend gives a sign of life.

* `KvLink.step` — the worker, what it has handed over, and one shard;
* `LearningShard.puts`, `LearningShard.withdraws` — the actions that put a pair into
  the index, and those that take it out;
* `LearningShard.mem_step_iff` — what one action that does not put the pair does to it;
* `unreported_iff` — an entry that nothing puts in again goes unreported exactly when
  something takes it out.
-/

namespace Ranvier

/-! ## Routes -/

section Pair

variable (hash : UInt64) (backend : BackendId)

namespace ShardRouting

/-- The route claims the hash for the backend. -/
def routePuts (s : ShardRouting) (route : PendingRoute) : Bool :=
  decide (route.tokens ≠ [] ∧ s.routeHash route = hash ∧ route.backend = backend)

/-- A locally learned route takes the claim away. -/
def localRouteWithdraws (now : ℕ) (route : PendingRoute) (s : ShardRouting) : Bool :=
  decide (route.tokens ≠ []) && !localRouteKeeps hash backend now route s

/-- An announced route takes the claim away. -/
def remoteRouteWithdraws (now : ℕ) (route : PendingRoute) (s : ShardRouting) : Bool :=
  decide (route.tokens ≠ []) && !remoteRouteKeeps hash backend now route s

end ShardRouting

open ShardRouting

/-- Some route of a local batch does, in its turn. -/
def localBatchWithdraws (now : ℕ) : List PendingRoute → ShardRouting → Bool
  | [], _ => false
  | route :: batch, s =>
    localRouteWithdraws hash backend now route s ||
      localBatchWithdraws now batch (s.applyLocalRoute now route).1

/-- Some route of an announced batch does, in its turn. -/
def remoteBatchWithdraws (now : ℕ) : List PendingRoute → ShardRouting → Bool
  | [], _ => false
  | route :: batch, s =>
    remoteRouteWithdraws hash backend now route s ||
      remoteBatchWithdraws now batch (s.applyRemoteRoute now route)

/-! ## Messages -/

/-- An upsert of the pair. -/
def messagePuts : NativeMessage → Bool
  | .segment ops => ops.any fun op =>
      decide (op.kind = .UPSERT ∧ op.prefixHash = hash ∧ op.backend = backend)
  | .sweep _ _ _ => false

/-- A removal of the pair that is newer than the last event recorded for it, or a
sweep of the backend. -/
def messageWithdraws (kv : ShardLocalState) : NativeMessage → Bool
  | .segment ops => ops.any fun op =>
      decide (op.kind = .REMOVE ∧ op.prefixHash = hash ∧ op.backend = backend ∧
        kv.isStale (hash, backend) op.tsMs = false)
  | .sweep id _ _ => decide (id = backend)

/-! ## Actions -/

namespace LearningShard

/-- The routes an action applies to the index, once its buffer is full or flushed. -/
def appliedLocal (s : LearningShard) : ShardAction → Option (ℕ × List PendingRoute)
  | .learnLocal now route =>
    let buffer := pushRoute route s.pendingLocal
    if maxBatchSize ≤ buffer.length then some (now, deduplicateLocalBatch buffer) else none
  | .flushLocal now => some (now, deduplicateLocalBatch s.pendingLocal)
  | .receiveLocal now batch => some (now, batch)
  | _ => none

/-- The same for announcements; one that is too long never reaches the buffer. -/
def appliedRemote (s : LearningShard) : ShardAction → Option (ℕ × List PendingRoute)
  | .learnRemote now route =>
    let buffer := pushRoute route s.pendingRemote
    if (0 < s.routing.kv.maxRouteTokens ∧ s.routing.kv.maxRouteTokens < route.tokens.length) ∨
        buffer.length < maxBatchSize then none
    else some (now, buffer)
  | .flushRemote now => some (now, s.pendingRemote)
  | .receiveRemote now batch => some (now, batch)
  | _ => none

/-- The action puts the pair into the index: a native upsert of it, a route of the
backend under the hash, or a rebuilt index that lists it. -/
def puts (s : LearningShard) (a : ShardAction) : Bool :=
  (s.appliedLocal a).any (fun r => r.2.any (s.routing.routePuts hash backend)) ||
    (s.appliedRemote a).any (fun r => r.2.any (s.routing.routePuts hash backend)) ||
    match a with
    | .native _ m => messagePuts hash backend m
    | .swap _ => s.rebuilt.any fun rebuilt => decide (backend ∈ rebuilt hash)
    | _ => false

/-- The action takes the pair out of the index: a route that takes its place, a native
removal or a sweep, an eviction notice that is not stale, or a rebuilt index swapped in
while the backend's stream is not fresh. -/
def withdraws (s : LearningShard) (a : ShardAction) : Bool :=
  (s.appliedLocal a).any (fun r => localBatchWithdraws hash backend r.1 r.2 s.routing) ||
    (s.appliedRemote a).any (fun r => remoteBatchWithdraws hash backend r.1 r.2 s.routing) ||
    match a with
    | .native _ m => messageWithdraws hash backend s.routing.kv m
    | .evict h b ts => decide (h = hash ∧ b = backend ∧
        s.routing.kv.isStale (hash, backend) ts = false)
    | .swap now => decide (backend ∉ freshBackends now s.routing)
    | _ => false

end LearningShard

/-! ## What one action does to the pair -/

variable {hash backend}

namespace ShardRouting

variable {s : ShardRouting} {route : PendingRoute} {now : ℕ}

theorem routePuts_congr {s' : ShardRouting} (h : s'.config = s.config) :
    s'.routePuts hash backend = s.routePuts hash backend := by
  funext route
  rw [routePuts, routePuts, routeHash, routeHash, h]

/-- A claim of another backend, or under another hash, leaves the pair unless it
displaces it. -/
theorem mem_claim_iff {displaced : Option BackendId}
    (hputs : s.routePuts hash backend route = false) :
    backend ∈ (s.claim route displaced).kv.prefixHashIndex hash ↔
      backend ∈ s.kv.prefixHashIndex hash ∧
        ¬(route.tokens ≠ [] ∧ s.routeHash route = hash ∧ displaced = some backend) := by
  have hnot := of_decide_eq_false hputs
  rw [claim]
  split_ifs with hempty
  · simp [hempty]
  · change backend ∈ Function.update s.kv.prefixHashIndex (s.routeHash route) _ hash ↔ _
    by_cases hhash : s.routeHash route = hash
    · have hother : backend ≠ route.backend := fun hb => hnot ⟨hempty, hhash, hb.symm⟩
      rw [hhash, Function.update_self, Finset.mem_insert, or_iff_right hother]
      cases displaced with
      | none => simp
      | some prior => simp [Finset.mem_erase, hempty, eq_comm, and_comm]
    · rw [Function.update_of_ne (Ne.symm hhash)]
      simp [hhash]

/-- **One learned route.** -/
theorem mem_applyLocalRoute_iff (hputs : s.routePuts hash backend route = false) :
    backend ∈ (s.applyLocalRoute now route).1.kv.prefixHashIndex hash ↔
      backend ∈ s.kv.prefixHashIndex hash ∧
        localRouteWithdraws hash backend now route s = false := by
  rw [applyLocalRoute, localRouteWithdraws, localRouteKeeps]
  cases s.kv.tree with
  | none => simp
  | some tree =>
    dsimp only
    split_ifs with hdropped
    · simp [hdropped.1, withInsert]
    · change backend ∈ ((s.withInsert _).claim route _).kv.prefixHashIndex hash ↔ _
      rw [mem_claim_iff (s := s.withInsert _) hputs]
      refine and_congr_right fun _ => ?_
      change ¬(_ ∧ s.routeHash route = hash ∧ _) ↔ _
      by_cases hdisplaced : (s.insertLocal now route tree).displaced route = some backend
      · have hverdict : (s.insertLocal now route tree).verdict ≠ some .REFUSED :=
          fun hv => hdropped ⟨hv, by rw [hdisplaced]; rfl⟩
        simp [hdisplaced, hverdict]
      · simp [hdisplaced]

/-- **One announced route.** -/
theorem mem_applyRemoteRoute_iff (hputs : s.routePuts hash backend route = false) :
    backend ∈ (s.applyRemoteRoute now route).kv.prefixHashIndex hash ↔
      backend ∈ s.kv.prefixHashIndex hash ∧
        remoteRouteWithdraws hash backend now route s = false := by
  rw [applyRemoteRoute, remoteRouteWithdraws, remoteRouteKeeps]
  cases s.kv.tree with
  | none => simp
  | some tree =>
    dsimp only
    split_ifs with hrefused
    · simp [remoteDisplaces, hrefused, withInsert]
    · rw [mem_claim_iff (s := s.withInsert _) hputs]
      refine and_congr_right fun _ => ?_
      change ¬(_ ∧ s.routeHash route = hash ∧ _) ↔ _
      simp

end ShardRouting

theorem mem_applyLocalBatch_iff {now : ℕ} {batch : List PendingRoute} {s : ShardRouting}
    (hputs : batch.any (s.routePuts hash backend) = false) :
    backend ∈ (applyLocalBatchToTree now batch s).1.kv.prefixHashIndex hash ↔
      backend ∈ s.kv.prefixHashIndex hash ∧
        localBatchWithdraws hash backend now batch s = false := by
  induction batch generalizing s with
  | nil => simp [applyLocalBatchToTree, localBatchWithdraws]
  | cons route batch ih =>
    rw [List.any_cons, Bool.or_eq_false_iff] at hputs
    have hrest : batch.any ((s.applyLocalRoute now route).1.routePuts hash backend) = false := by
      rw [routePuts_congr applyLocalRoute_config]
      exact hputs.2
    rw [applyLocalBatchToTree, localBatchWithdraws, Bool.or_eq_false_iff, ← and_assoc,
      ← mem_applyLocalRoute_iff hputs.1]
    exact ih hrest

theorem mem_applyRemoteBatch_iff {now : ℕ} {batch : List PendingRoute} {s : ShardRouting}
    (hputs : batch.any (s.routePuts hash backend) = false) :
    backend ∈ (applyRouteBatchToLocalTree now batch s).kv.prefixHashIndex hash ↔
      backend ∈ s.kv.prefixHashIndex hash ∧
        remoteBatchWithdraws hash backend now batch s = false := by
  induction batch generalizing s with
  | nil => simp [applyRouteBatchToLocalTree, remoteBatchWithdraws]
  | cons route batch ih =>
    rw [List.any_cons, Bool.or_eq_false_iff] at hputs
    have hrest : batch.any ((s.applyRemoteRoute now route).routePuts hash backend) = false := by
      rw [routePuts_congr applyRemoteRoute_config]
      exact hputs.2
    rw [remoteBatchWithdraws, Bool.or_eq_false_iff, ← and_assoc, ← mem_applyRemoteRoute_iff hputs.1]
    exact ih hrest

namespace Residency

variable {r : Residency}

/-- Without an upsert of the pair, a list of operations takes it out exactly by a
removal that is newer than what was recorded at its start: a stale one changes nothing,
and the operations on other pairs leave the record alone. -/
theorem mem_applyAll_iff {ops : List NativeKvOp} (hsweep : ∀ op ∈ ops, op.isSweep = false)
    (hputs : ∀ op ∈ ops, ¬(op.kind = .UPSERT ∧ op.prefixHash = hash ∧ op.backend = backend)) :
    backend ∈ (r.applyAll ops).prefixHashIndex hash ↔
      backend ∈ r.prefixHashIndex hash ∧
        ∀ op ∈ ops, ¬(op.kind = .REMOVE ∧ op.prefixHash = hash ∧ op.backend = backend ∧
          r.isStale (hash, backend) op.tsMs = false) := by
  induction ops generalizing r with
  | nil => simp
  | cons op ops ih =>
    have hrest := ih (r := r.apply op) (fun o ho => hsweep o (List.mem_cons_of_mem _ ho))
      fun o ho => hputs o (List.mem_cons_of_mem _ ho)
    have hnosweep : ¬op.Sweeps backend := by
      rintro ⟨hs, -⟩
      rw [hsweep op List.mem_cons_self] at hs
      cases hs
    rw [applyAll_cons, hrest]
    by_cases hw : op.Writes hash backend ∧ r.isStale (hash, backend) op.tsMs = false
    · -- the pair is taken out here
      obtain ⟨hwrites, hfresh⟩ := hw
      have hkind : op.kind = .REMOVE :=
        hwrites.1.resolve_left fun hup => hputs op List.mem_cons_self ⟨hup, hwrites.2⟩
      have hgone : backend ∉ (r.apply op).prefixHashIndex hash := by
        rw [mem_apply_of_writes hwrites hfresh, hkind]
        simp
      refine iff_of_false (fun h => hgone h.1) fun h => ?_
      exact h.2 op List.mem_cons_self ⟨hkind, hwrites.2.1, hwrites.2.2, hfresh⟩
    · have hstale : ∀ ts, (r.apply op).isStale (hash, backend) ts =
          r.isStale (hash, backend) ts := by
        intro ts
        have hstamp := (r.lookup_apply op).resolve_right fun h => hw ⟨h.1, h.2.1⟩
        rw [isStale, isStale, hstamp]
      rw [mem_apply_of_not hnosweep hw]
      simp only [hstale, List.forall_mem_cons]
      refine and_congr_right fun _ => (and_iff_right ?_).symm
      rintro ⟨hkind, hhash, hback, hnew⟩
      exact hw ⟨⟨.inr hkind, hhash, hback⟩, hnew⟩

/-- **One message.** -/
theorem mem_receive_iff {kv : ShardLocalState} (hkv : kv.residency = r) {m : NativeMessage}
    (hputs : messagePuts hash backend m = false) :
    backend ∈ (r.receive m).prefixHashIndex hash ↔
      backend ∈ r.prefixHashIndex hash ∧ messageWithdraws hash backend kv m = false := by
  subst hkv
  cases m with
  | sweep id clearRoutes dropTrust =>
    rw [receive, mem_purge, messageWithdraws, decide_eq_false_iff_not]
  | segment ops =>
    have hup : ∀ op ∈ ops, ¬(op.kind = .UPSERT ∧ op.prefixHash = hash ∧ op.backend = backend) := by
      simpa [messagePuts] using hputs
    rw [receive, mem_applyAll_iff (by simp) fun op hop => hup op (List.mem_of_mem_filter hop)]
    refine and_congr_right fun _ => ?_
    -- the removals are no sweeps, so the filter keeps them
    rw [messageWithdraws, List.any_eq_false]
    constructor
    · intro h op hop hremoves
      have hremove := of_decide_eq_true hremoves
      have hkept : op ∈ ops.filter fun op => !op.isSweep :=
        List.mem_filter.mpr ⟨hop, by simp [NativeKvOp.isSweep, hremove.1]⟩
      exact h op hkept hremove
    · intro h op hop hremove
      exact h op (List.mem_of_mem_filter hop) (decide_eq_true hremove)

end Residency

theorem mem_evict_iff {s : ShardLocalState} {h : UInt64} {b : BackendId} {ts : UInt64} :
    backend ∈ (evictByPrefixHashLocal h b ts s).prefixHashIndex hash ↔
      backend ∈ s.prefixHashIndex hash ∧
        ¬(h = hash ∧ b = backend ∧ s.isStale (hash, backend) ts = false) := by
  have hrecord : (s.recordTimestamp (h, b) ts).prefixHashIndex = s.prefixHashIndex := by
    rw [ShardLocalState.recordTimestamp]
    split <;> rfl
  rw [evictByPrefixHashLocal]
  dsimp only
  rw [hrecord]
  split_ifs with hstale hlisted
  · refine (and_iff_left ?_).symm
    rintro ⟨rfl, rfl, hnew⟩
    rw [hnew] at hstale
    cases hstale
  · change backend ∈ Function.update (s.recordTimestamp (h, b) ts).prefixHashIndex h _ hash ↔ _
    have hnew : s.isStale (h, b) ts = false := Bool.eq_false_iff.mpr hstale
    by_cases hhash : h = hash
    · subst hhash
      rw [Function.update_self, Finset.mem_erase, and_comm]
      refine and_congr_right fun _ => not_congr ⟨?_, fun h => h.2.1.symm⟩
      rintro rfl
      exact ⟨rfl, rfl, hnew⟩
    · rw [Function.update_of_ne (Ne.symm hhash), hrecord]
      simp [hhash]
  · rw [hrecord]
    refine (and_iff_left_of_imp ?_).symm
    rintro hmem ⟨rfl, rfl, -⟩
    exact hlisted hmem

theorem mem_swap_iff {s : ShardRouting} {now : ℕ} {rebuilt : UInt64 → Finset BackendId}
    (hputs : backend ∉ rebuilt hash) :
    backend ∈ (swapInRebuiltIndex now rebuilt s).kv.prefixHashIndex hash ↔
      backend ∈ s.kv.prefixHashIndex hash ∧ backend ∈ freshBackends now s := by
  change backend ∈ rebuilt hash ∪ (s.kv.prefixHashIndex hash).filter (· ∈ freshBackends now s) ↔ _
  rw [Finset.mem_union, or_iff_right hputs, Finset.mem_filter]

namespace LearningShard

variable {s s' : LearningShard} {a : ShardAction}

theorem step_appliedLocal {now : ℕ} {batch : List PendingRoute}
    (h : s.appliedLocal a = some (now, batch)) (hstep : s.step a = some s') :
    s'.routing = (applyLocalBatchToTree now batch s.routing).1 := by
  cases a with
  | learnLocal now' route =>
    obtain rfl := Option.some.inj hstep
    simp only [appliedLocal] at h
    split_ifs at h with hfull
    obtain ⟨rfl, rfl⟩ := Prod.mk.inj (Option.some.inj h)
    rw [bufferLocalRoute, if_pos hfull]
    rfl
  | flushLocal now' =>
    obtain rfl := Option.some.inj hstep
    obtain ⟨rfl, rfl⟩ := Prod.mk.inj (Option.some.inj h)
    rfl
  | receiveLocal now' batch' =>
    obtain rfl := Option.some.inj hstep
    obtain ⟨rfl, rfl⟩ := Prod.mk.inj (Option.some.inj h)
    rfl
  | _ => cases h

theorem step_appliedRemote {now : ℕ} {batch : List PendingRoute}
    (h : s.appliedRemote a = some (now, batch)) (hstep : s.step a = some s') :
    s'.routing = applyRouteBatchToLocalTree now batch s.routing := by
  cases a with
  | learnRemote now' route =>
    obtain rfl := Option.some.inj hstep
    simp only [appliedRemote] at h
    split_ifs at h with hheld
    obtain ⟨rfl, rfl⟩ := Prod.mk.inj (Option.some.inj h)
    obtain ⟨hshort, hfull⟩ := not_or.mp hheld
    rw [learnRouteRemote, if_neg hshort]
    dsimp only
    rw [if_pos (Nat.not_lt.mp hfull)]
    rfl
  | flushRemote now' =>
    obtain rfl := Option.some.inj hstep
    obtain ⟨rfl, rfl⟩ := Prod.mk.inj (Option.some.inj h)
    rfl
  | receiveRemote now' batch' =>
    obtain rfl := Option.some.inj hstep
    obtain ⟨rfl, rfl⟩ := Prod.mk.inj (Option.some.inj h)
    rfl
  | _ => cases h

/-- An action that applies no routes is a native message, an eviction notice or a swap,
or it leaves the index alone. -/
theorem mem_step_other (hlocal : s.appliedLocal a = none) (hremote : s.appliedRemote a = none)
    (hputs : s.puts hash backend a = false) (hstep : s.step a = some s') :
    backend ∈ s'.routing.kv.prefixHashIndex hash ↔
      backend ∈ s.routing.kv.prefixHashIndex hash ∧ s.withdraws hash backend a = false := by
  have hputs' := hputs
  simp only [puts, hlocal, hremote, Option.any_none, Bool.false_or] at hputs'
  simp only [withdraws, hlocal, hremote, Option.any_none, Bool.false_or]
  cases a with
  | native now m =>
    obtain rfl := Option.some.inj hstep
    have hres := residency_deliver now s.routing.kv m
    have hmem := Residency.mem_receive_iff (rfl : s.routing.kv.residency = _) hputs'
    rw [← hres] at hmem
    exact hmem
  | evict h b ts =>
    obtain rfl := Option.some.inj hstep
    simp only [decide_eq_false_iff_not]
    exact mem_evict_iff
  | swap now =>
    obtain ⟨rebuilt, hrebuilt, rfl⟩ := Option.map_eq_some_iff.mp hstep
    rw [hrebuilt] at hputs'
    simp only [decide_eq_false_iff_not, not_not]
    exact mem_swap_iff (of_decide_eq_false hputs')
  | load h b ts =>
    obtain rfl := Option.some.inj hstep
    have hload : (loadRouteLocal h b ts s.routing.kv).prefixHashIndex =
        s.routing.kv.prefixHashIndex := by
      rw [loadRouteLocal, ShardLocalState.recordTimestamp]
      split_ifs <;> rfl
    change backend ∈ (loadRouteLocal h b ts s.routing.kv).prefixHashIndex hash ↔ _
    rw [hload]
    simp
  | learnLocal now route =>
    obtain rfl := Option.some.inj hstep
    simp only [appliedLocal, ite_eq_right_iff, reduceCtorEq, imp_false] at hlocal
    rw [bufferLocalRoute, if_neg hlocal]
    simp
  | learnRemote now route =>
    obtain rfl := Option.some.inj hstep
    simp only [appliedRemote, ite_eq_left_iff, reduceCtorEq, imp_false, not_not] at hremote
    rw [learnRouteRemote]
    dsimp only
    split_ifs with hlong hfull
    · simp
    · exact absurd (hremote.resolve_left hlong) (Nat.not_lt.mpr hfull)
    · simp
  | flushLocal now => cases hlocal
  | receiveLocal now batch => cases hlocal
  | flushRemote now => cases hremote
  | receiveRemote now batch => cases hremote
  | _ =>
    obtain rfl := Option.some.inj hstep
    simp [onTree, onKv, onRouting, unregisterBackend]

/-- **One action** that does not put the pair in leaves it in exactly when it does not
take it out. -/
theorem mem_step_iff (hputs : s.puts hash backend a = false) (hstep : s.step a = some s') :
    backend ∈ s'.routing.kv.prefixHashIndex hash ↔
      backend ∈ s.routing.kv.prefixHashIndex hash ∧ s.withdraws hash backend a = false := by
  cases hlocal : s.appliedLocal a with
  | some r =>
    -- only the three actions on local batches are left
    have hwithdraws : s.withdraws hash backend a =
        localBatchWithdraws hash backend r.1 r.2 s.routing := by
      cases a with
      | learnLocal | flushLocal | receiveLocal => simp [withdraws, hlocal, appliedRemote]
      | _ => cases hlocal
    simp only [puts, hlocal, Option.any_some, Bool.or_eq_false_iff] at hputs
    rw [step_appliedLocal hlocal hstep, mem_applyLocalBatch_iff hputs.1.1, hwithdraws]
  | none =>
    cases hremote : s.appliedRemote a with
    | some r =>
      have hwithdraws : s.withdraws hash backend a =
          remoteBatchWithdraws hash backend r.1 r.2 s.routing := by
        cases a with
        | learnRemote | flushRemote | receiveRemote => simp [withdraws, hremote, hlocal]
        | _ => cases hremote
      simp only [puts, hlocal, hremote, Option.any_some, Bool.or_eq_false_iff] at hputs
      rw [step_appliedRemote hremote hstep, mem_applyRemoteBatch_iff hputs.1.2, hwithdraws]
    | none => exact mem_step_other hlocal hremote hputs hstep

end LearningShard

end Pair

/-! ## The subscriber and a shard -/

/-- The worker, what it has handed over and not shipped, the messages of its shipments
that the shard has not executed, and the shard. -/
structure KvLink : Type where
  worker : KvEventSubscriber
  pending : List NativeKvOp := []
  inFlight : List NativeMessage := []
  shard : LearningShard

/-- What happens. -/
inductive LinkEvent : Type where
  /-- a turn of the worker -/
  | worker (e : SubscriberEvent)
  /-- the next `n` operations are shipped; `ship` cuts them by weight -/
  | ship (n : ℕ)
  /-- the shard executes a message; shipments are applied concurrently, so it need not
  be the oldest one -/
  | deliver (i : ℕ) (now : ℕ)
  /-- anything else the shard does -/
  | shard (a : ShardAction)

namespace KvLink

/-- The action of the shard behind an event. -/
def shardAction (s : KvLink) : LinkEvent → Option ShardAction
  | .deliver i now => s.inFlight[i]?.map (.native now)
  | .shard (.native _ _) => none
  | .shard a => some a
  | _ => none

/-- One event. -/
noncomputable def step (s : KvLink) : LinkEvent → Option KvLink
  | .worker e =>
    let r := s.worker.handle e
    some { s with worker := r.1, pending := s.pending ++ r.2 }
  | .ship n =>
    some { s with
      pending := s.pending.drop n
      inFlight := s.inFlight ++ shipmentMessages (s.pending.take n) }
  | .deliver i now => do
    let a ← s.shardAction (.deliver i now)
    let shard ← s.shard.step a
    return { s with shard := shard, inFlight := s.inFlight.eraseIdx i }
  | .shard a => do
    let a ← s.shardAction (.shard a)
    let shard ← s.shard.step a
    return { s with shard := shard }

/-- The event puts the pair into the shard's index. -/
def puts (hash : UInt64) (backend : BackendId) (s : KvLink) (e : LinkEvent) : Bool :=
  (s.shardAction e).any (s.shard.puts hash backend)

/-- The event takes the pair out of the shard's index. -/
def withdraws (hash : UInt64) (backend : BackendId) (s : KvLink) (e : LinkEvent) : Bool :=
  (s.shardAction e).any (s.shard.withdraws hash backend)

/-- The shard lists the backend under the hash. -/
def lists (s : KvLink) (hash : UInt64) (backend : BackendId) : Prop :=
  backend ∈ s.shard.routing.kv.prefixHashIndex hash

/-- The shard reports the block as resident, verified by the backend's own stream. -/
def reportsResident (s : KvLink) (now : ℕ) (hash : UInt64) (backend : BackendId) : Prop :=
  s.lists hash backend ∧ s.shard.routing.nativeResidencyFresh now backend = true

variable {hash : UInt64} {backend : BackendId} {s s' : KvLink} {e : LinkEvent}

/-- A holder that the query returns is reported in this sense. -/
theorem reportsResident_of_verifiedHolder {now : ℕ} {listed liveBackends : List BackendId}
    {exclude : BackendId} (hlisted : ∀ id ∈ listed, s.lists hash id)
    (h : backend ∈ s.shard.routing.verifiedHoldersOf now listed liveBackends exclude) :
    s.reportsResident now hash backend := by
  obtain ⟨hmem, -, -, -, hfresh⟩ := s.shard.routing.mem_verifiedHoldersOf h
  exact ⟨hlisted backend hmem, hfresh⟩

theorem step_shard (hstep : s.step e = some s') :
    match s.shardAction e with
    | none => s'.shard = s.shard
    | some a => s.shard.step a = some s'.shard := by
  cases e with
  | worker e =>
    obtain rfl := Option.some.inj hstep
    rfl
  | ship n =>
    obtain rfl := Option.some.inj hstep
    rfl
  | deliver i now =>
    obtain ⟨a, ha, hstep⟩ := Option.bind_eq_some_iff.mp hstep
    obtain ⟨shard, hshard, hstep⟩ := Option.bind_eq_some_iff.mp hstep
    obtain rfl := Option.some.inj hstep
    rw [ha]
    exact hshard
  | shard a =>
    obtain ⟨a, ha, hstep⟩ := Option.bind_eq_some_iff.mp hstep
    obtain ⟨shard, hshard, hstep⟩ := Option.bind_eq_some_iff.mp hstep
    obtain rfl := Option.some.inj hstep
    rw [ha]
    exact hshard

theorem lists_step_iff (hputs : s.puts hash backend e = false) (hstep : s.step e = some s') :
    s'.lists hash backend ↔ s.lists hash backend ∧ s.withdraws hash backend e = false := by
  have hshard := step_shard hstep
  rw [puts] at hputs
  rw [withdraws]
  cases ha : s.shardAction e with
  | none =>
    rw [ha] at hshard
    rw [lists, hshard]
    simp [lists]
  | some a =>
    rw [ha] at hshard hputs
    exact LearningShard.mem_step_iff hputs hshard

/-- **A run** without anything that puts the pair in. -/
theorem lists_exec_iff {es : List LinkEvent}
    (hputs : Meets step (fun s e => s.puts hash backend e = false) s es)
    (hexec : exec step s es = some s') :
    s'.lists hash backend ↔
      s.lists hash backend ∧ Meets step (fun s e => s.withdraws hash backend e = false) s es := by
  induction es generalizing s with
  | nil =>
    obtain rfl := Option.some.inj hexec
    simp [Meets]
  | cons e es ih =>
    obtain ⟨t, ht, hrest⟩ := exec_cons hexec
    simp only [Meets, ht] at hputs ⊢
    rw [ih hputs.2 hrest, lists_step_iff hputs.1 ht, and_assoc]

/-- Nothing is under way; the shard is in any state. -/
def start (replayOnConnect : Bool) (limits : LedgerLimits) (shard : LearningShard) : KvLink where
  worker := KvEventSubscriber.create replayOnConnect limits
  shard := shard

/-- In the course of the events the subscription is removed and added again. -/
def Resubscribes (backend : BackendId) (es : List LinkEvent) : Prop :=
  ∃ first between second endpoint replayEndpoint answer nowMs,
    es = first ++ LinkEvent.worker (.remove backend) :: between ++
      LinkEvent.worker (.add backend endpoint replayEndpoint true answer nowMs) :: second

/-- A run `es ++ fs` with `s₀` in between, in which the subscription of the backend is
removed and added again, and the pair is not put in any more in `fs`: not by the second
subscription, and not by a route or a rebuilt index either. If the pair is listed in the
end, it stems from what put it in before `s₀`, the first subscription say. -/
structure StemsFromBefore (start : KvLink) (hash : UInt64) (backend : BackendId)
    (es fs : List LinkEvent) (s₀ s : KvLink) : Prop where
  before : exec step start es = some s₀
  after : exec step s₀ fs = some s
  again : Resubscribes backend (es ++ fs)
  notStored : Meets step (fun s e => s.puts hash backend e = false) s₀ fs

/-- **Stale entries.** Take any run in which the subscription of a backend is removed
and added again, and a state in which its stream counts as fresh. A block that was not
stored again goes unreported there exactly when an event has taken its entry out since
it was put in: nothing does so on behalf of the removal. -/
theorem unreported_iff {replayOnConnect : Bool} {limits : LedgerLimits} {shard : LearningShard}
    {es fs : List LinkEvent} {s₀ s : KvLink}
    (hrun : StemsFromBefore (start replayOnConnect limits shard) hash backend es fs s₀ s) {now : ℕ}
    (hfresh : s.shard.routing.nativeResidencyFresh now backend = true) :
    ¬ s.reportsResident now hash backend ↔
      (s₀.lists hash backend →
        ¬ Meets step (fun s e => s.withdraws hash backend e = false) s₀ fs) := by
  rw [reportsResident, lists_exec_iff hrun.notStored hrun.after, and_iff_left hfresh, not_and]

/-- The engine stores block 10 over the token 7 as its first batch. -/
def firstStore : Message :=
  [[], seqBytes 0, [0x92, 0x01, 0x91, 0x95, 0xab] ++ "BlockStored".toUTF8.data.toList ++
    [0x91, 0x0a, 0xc0, 0x91, 0x07, 0x01]]

/-- A subscription without replay. -/
def subscribeEngine : LinkEvent := .worker (.add 2 "tcp://engine:5557" "" true none 0)

/-- The first subscription reports the block. -/
def firstLife : List LinkEvent :=
  [subscribeEngine, .worker (.receive 2 firstStore none 1), .ship 8, .deliver 0 0]

/-- It is removed and added again, and sees one batch and a heartbeat; what the engine
did in between nobody has heard. -/
def secondLife : List LinkEvent :=
  [.worker (.remove 2), subscribeEngine, .worker (.receive 2 (liveFrame 9) none 2),
    .worker (.heartbeat [2] 3), .ship 8, .deliver 0 1]

/-- The same with a gap in the second stream: the sweep is executed before the
heartbeat. -/
def secondLifeGap : List LinkEvent :=
  [.worker (.remove 2), subscribeEngine, .worker (.receive 2 (liveFrame 9) none 2),
    .worker (.receive 2 (liveFrame 11) none 3), .worker (.heartbeat [2] 4), .ship 8,
    .deliver 0 1, .deliver 0 1]

/-- The shard before its first message. -/
def linkStart : KvLink := start true KvBlockLedger.tokenLimits blankShard

/-- The state in which the first subscription is removed. -/
noncomputable def removedAt : KvLink := (exec step linkStart firstLife).getD linkStart

/-- The state that the second subscription ends in. -/
noncomputable def endsAt (fs : List LinkEvent) : KvLink := (exec step removedAt fs).getD linkStart

theorem stemsFromBefore_firstLife {fs : List LinkEvent} (hsome : (exec step removedAt fs).isSome)
    (hagain : ∃ rest, fs = .worker (.remove 2) :: subscribeEngine :: rest)
    (hputs : Meets step (fun s e => s.puts (fnvTokens fnvOffsetBasis [7]) 2 e = false)
      removedAt fs) :
    StemsFromBefore linkStart (fnvTokens fnvOffsetBasis [7]) 2 firstLife fs removedAt
      (endsAt fs) where
  before := exec_eq_some_getD (by decide +kernel)
  after := by
    obtain ⟨s, hs⟩ := Option.isSome_iff_exists.mp hsome
    rw [endsAt, hs, Option.getD_some]
  again := by
    obtain ⟨rest, rfl⟩ := hagain
    exact ⟨firstLife, [], rest, _, _, _, _, rfl⟩
  notStored := hputs

theorem unreported_secondLifeGap :
    ¬ (endsAt secondLifeGap).reportsResident 1 (fnvTokens fnvOffsetBasis [7]) 2 := by
  have hrun : StemsFromBefore linkStart (fnvTokens fnvOffsetBasis [7]) 2 firstLife secondLifeGap
      removedAt (endsAt secondLifeGap) :=
    stemsFromBefore_firstLife (by decide +kernel) ⟨_, rfl⟩ (by decide +kernel)
  refine (unreported_iff hrun (by decide +kernel)).mpr fun _ => ?_
  decide +kernel

/-- **The stale entry is reported.** The block of the first subscription is still listed,
and the heartbeat of the second makes it count as verified. -/
theorem stale_entry_reported :
    StemsFromBefore linkStart (fnvTokens fnvOffsetBasis [7]) 2 firstLife secondLife removedAt
        (endsAt secondLife) ∧
      (endsAt secondLife).shard.routing.nativeResidencyFresh 1 2 = true ∧
      (endsAt secondLife).reportsResident 1 (fnvTokens fnvOffsetBasis [7]) 2 ∧
      2 ∈ (endsAt secondLife).shard.routing.verifiedHoldersOf 1 [2] [2] 0 := by
  have hfresh : (endsAt secondLife).shard.routing.nativeResidencyFresh 1 2 = true := by
    decide +kernel
  have hlists : 2 ∈ (endsAt secondLife).shard.routing.kv.prefixHashIndex
      (fnvTokens fnvOffsetBasis [7]) := by
    decide +kernel
  exact ⟨stemsFromBefore_firstLife (by decide +kernel) ⟨_, rfl⟩ (by decide +kernel), hfresh,
    ⟨hlists, hfresh⟩, by decide +kernel⟩

end KvLink

end Ranvier
