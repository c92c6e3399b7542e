import Ranvier.Backends
import Ranvier.Broadcast
import Ranvier.Run

/-!
# The registry of backends

Every shard has its own map of backends, list of ids and dead set. Registration,
removal, draining and the health status of a backend are broadcast: the shard
that issues one applies it and submits it to the others, and a shard applies what
arrives without a look at when it was issued.

Admin requests are served by any shard. Health checks, discovery and the drain
reaper run on shard 0.
-/

namespace Ranvier

/-! ## One shard -/

/-- What `register_backend_global` is called with. -/
structure Registration : Type where
  addr : SocketAddress
  weight : ℕ := 100
  priority : ℕ := 0
  compressionRatio : ℚ := 1
  type : BackendType := .VLLM
  poolRole : PoolRole := .UNIFIED

/-- The constructor of `BackendInfo`: counters, labels and the price start anew. -/
def Registration.toBackendInfo (r : Registration) : BackendInfo where
  addr := r.addr
  weight := r.weight
  priority := r.priority
  compressionRatio := r.compressionRatio
  poolRole := r.poolRole
  weightsKey := { backendType := r.type }

/-- What the registry adds to the state that routing reads. -/
structure ShardRegistry : Type extends ShardRouting where
  /-- `BackendInfo::drain_start_time` -/
  drainStartTime : BackendId → ℕ := fun _ => 0
  /-- `config.backend_drain_timeout` -/
  backendDrainTimeout : ℕ := 60

namespace ShardRegistry

variable (s : ShardRegistry)

/-- Changes the record of a backend, if there is one. -/
def updateBackend (id : BackendId) (f : BackendInfo → BackendInfo) : ShardRegistry :=
  { s with backends := Function.update s.backends id ((s.backends id).map f) }

/-- `register_backend_global` on this shard. -/
def registerBackend (id : BackendId) (r : Registration) : ShardRegistry :=
  { s with
    backends := Function.update s.backends id (some r.toBackendInfo)
    drainStartTime := Function.update s.drainStartTime id 0
    backendIds := if id ∈ s.backendIds then s.backendIds else s.backendIds ++ [id]
    backendIds_nodup := by
      split
      · exact s.backendIds_nodup
      · next h => exact s.backendIds_nodup.append (List.nodup_singleton id) (by simpa using h) }

/-- `unregister_backend_global` on this shard. -/
def unregisterBackend (id : BackendId) : ShardRegistry :=
  { s with
    backends := Function.update s.backends id none
    backendIds := s.backendIds.erase id
    backendIds_nodup := s.backendIds_nodup.erase id
    deadBackends := s.deadBackends.erase id }

/-- `drain_backend_global` on this shard. -/
def drainBackend (id : BackendId) (now : ℕ) : ShardRegistry :=
  { s.updateBackend id fun info => { info with isDraining := true } with
    drainStartTime := Function.update s.drainStartTime id now }

/-- `set_backend_status_global` on this shard. -/
def setBackendStatus (id : BackendId) (isAlive : Bool) : ShardRegistry :=
  { s with deadBackends := if isAlive then s.deadBackends.erase id else insert id s.deadBackends }

/-- The backends `run_draining_reaper` removes. -/
def drainExpired (now : ℕ) : List BackendId :=
  s.backendIds.filter fun id =>
    match s.backends id with
    | none => false
    | some info => info.isDraining && s.backendDrainTimeout ≤ now - s.drainStartTime id

/-! ### Request guards -/

/-- What the guards of a request do to the record of its backend. -/
inductive GuardAction : Type where
  | beginRequest (id : BackendId)
  | endRequest (id : BackendId)
  | reserveCost (id : BackendId) (cost : ℚ)
  | releaseCost (id : BackendId) (cost : ℚ)

/-- `BackendRequestGuard` and `CostBudgetGuard`: their constructors and
destructors. -/
def guard : GuardAction → ShardRegistry
  | .beginRequest id =>
    s.updateBackend id fun info => { info with activeRequests := info.activeRequests + 1 }
  | .endRequest id =>
    s.updateBackend id fun info => { info with activeRequests := info.activeRequests - 1 }
  | .reserveCost id cost =>
    if 0 < cost ∧ s.config.costRoutingEnabled = true then
      s.updateBackend id fun info =>
        { info with currentCostBudget := info.currentCostBudget + cost }
    else s
  | .releaseCost id cost =>
    s.updateBackend id fun info =>
      { info with currentCostBudget := max 0 (info.currentCostBudget - cost) }

end ShardRegistry

/-! ## Messages -/

/-- What is submitted to the other shards. -/
inductive RegistryMessage : Type where
  | register (id : BackendId) (r : Registration)
  | unregister (id : BackendId)
  | drain (id : BackendId) (now : ℕ)
  | setStatus (id : BackendId) (isAlive : Bool)

namespace RegistryMessage

/-- The backend it is about. -/
def backend : RegistryMessage → BackendId
  | .register id _ => id
  | .unregister id => id
  | .drain id _ => id
  | .setStatus id _ => id

/-- What it does on the shard it arrives at. -/
def apply : RegistryMessage → ShardRegistry → ShardRegistry
  | .register id r, s => s.registerBackend id r
  | .unregister id, s => s.unregisterBackend id
  | .drain id now, s => s.drainBackend id now
  | .setStatus id isAlive, s => s.setBackendStatus id isAlive

end RegistryMessage

/-! ## What the shards have to agree on -/

/-- Address, weight, priority and draining flag of a registered backend. -/
structure BackendRecord : Type where
  addr : SocketAddress
  weight : ℕ
  priority : ℕ
  isDraining : Bool
  deriving DecidableEq, Repr

/-- One backend as a shard sees it. -/
@[ext]
structure BackendView : Type where
  record : Option BackendRecord
  /-- it is in `backend_ids` -/
  listed : Bool
  dead : Bool
  deriving DecidableEq, Repr

/-- The record routing reads, without its counters. -/
def BackendInfo.toRecord (info : BackendInfo) : BackendRecord :=
  ⟨info.addr, info.weight, info.priority, info.isDraining⟩

/-- The view a shard has of a backend. -/
def ShardRegistry.viewOf (id : BackendId) (s : ShardRegistry) : BackendView where
  record := (s.backends id).map BackendInfo.toRecord
  listed := id ∈ s.backendIds
  dead := id ∈ s.deadBackends

/-- What a message does to the view of a backend. -/
def RegistryMessage.applyView (id : BackendId) (m : RegistryMessage) (v : BackendView) :
    BackendView :=
  if m.backend = id then
    match m with
    | .register _ r => { v with record := some r.toBackendInfo.toRecord, listed := true }
    | .unregister _ => { record := none, listed := false, dead := false }
    | .drain _ _ => { v with record := v.record.map fun r => { r with isDraining := true } }
    | .setStatus _ isAlive => { v with dead := !isAlive }
  else v

namespace ShardRegistry

variable (s : ShardRegistry) {id : BackendId}

theorem viewOf_updateBackend {f : BackendInfo → BackendInfo} {target : BackendId}
    (hf : ∀ info, (f info).toRecord = info.toRecord) :
    (s.updateBackend target f).viewOf id = s.viewOf id := by
  refine BackendView.ext ?_ rfl rfl
  simp only [viewOf, updateBackend]
  by_cases hid : id = target
  · subst hid
    rw [Function.update_self, Option.map_map]
    congr 1
    funext info
    exact hf info
  · rw [Function.update_of_ne hid]

theorem viewOf_guard (a : GuardAction) : (s.guard a).viewOf id = s.viewOf id := by
  cases a with
  | beginRequest _ => exact s.viewOf_updateBackend fun _ => rfl
  | endRequest _ => exact s.viewOf_updateBackend fun _ => rfl
  | reserveCost _ _ =>
    rw [guard]
    split
    · exact s.viewOf_updateBackend fun _ => rfl
    · rfl
  | releaseCost _ _ => exact s.viewOf_updateBackend fun _ => rfl

end ShardRegistry

/-- A message leaves the other backends alone. -/
theorem RegistryMessage.viewOf_apply_of_ne {id : BackendId} {m : RegistryMessage}
    (hne : id ≠ m.backend) (s : ShardRegistry) : (m.apply s).viewOf id = s.viewOf id := by
  cases m with
  | register target r =>
    have htarget : id ≠ target := hne
    refine BackendView.ext ?_ ?_ rfl
    · simp [apply, ShardRegistry.viewOf, ShardRegistry.registerBackend, Function.update_of_ne htarget]
    · simp only [apply, ShardRegistry.viewOf, ShardRegistry.registerBackend]
      split <;> simp [htarget]
  | unregister target =>
    have htarget : id ≠ target := hne
    refine BackendView.ext ?_ ?_ ?_
    · simp [apply, ShardRegistry.viewOf, ShardRegistry.unregisterBackend, Function.update_of_ne htarget]
    · simp [apply, ShardRegistry.viewOf, ShardRegistry.unregisterBackend, List.mem_erase_of_ne htarget]
    · simp [apply, ShardRegistry.viewOf, ShardRegistry.unregisterBackend, htarget]
  | drain target now =>
    have htarget : id ≠ target := hne
    refine BackendView.ext ?_ rfl rfl
    simp [apply, ShardRegistry.viewOf, ShardRegistry.drainBackend, ShardRegistry.updateBackend,
      Function.update_of_ne htarget]
  | setStatus target isAlive =>
    have htarget : id ≠ target := hne
    refine BackendView.ext rfl rfl ?_
    cases isAlive <;> simp [apply, ShardRegistry.viewOf, ShardRegistry.setBackendStatus, htarget]

/-- The view follows the messages. -/
theorem RegistryMessage.viewOf_apply (id : BackendId) (m : RegistryMessage) (s : ShardRegistry) :
    (m.apply s).viewOf id = m.applyView id (s.viewOf id) := by
  by_cases hid : m.backend = id
  · subst hid
    unfold applyView
    rw [if_pos rfl]
    cases m with
    | register target r =>
      refine BackendView.ext ?_ ?_ rfl
      · simp [apply, ShardRegistry.viewOf, ShardRegistry.registerBackend, backend]
      · simp only [apply, ShardRegistry.viewOf, ShardRegistry.registerBackend, backend]
        split <;> simp [*]
    | unregister target =>
      refine BackendView.ext ?_ ?_ ?_
      · simp [apply, ShardRegistry.viewOf, ShardRegistry.unregisterBackend, backend]
      · simp [apply, ShardRegistry.viewOf, ShardRegistry.unregisterBackend, backend,
          s.backendIds_nodup.mem_erase_iff]
      · simp [apply, ShardRegistry.viewOf, ShardRegistry.unregisterBackend, backend]
    | drain target now =>
      refine BackendView.ext ?_ rfl rfl
      simp [apply, ShardRegistry.viewOf, ShardRegistry.drainBackend, ShardRegistry.updateBackend,
        backend, Function.comp_def, BackendInfo.toRecord]
    | setStatus target isAlive =>
      refine BackendView.ext rfl rfl ?_
      cases isAlive <;> simp [apply, ShardRegistry.viewOf, ShardRegistry.setBackendStatus, backend]
  · unfold applyView
    rw [if_neg hid]
    exact viewOf_apply_of_ne (fun h => hid h.symm) s

/-! ## Messages that cross -/

namespace RegistryMessage

/-- Which of two messages about one backend arrives first makes a difference. -/
def clashes : RegistryMessage → RegistryMessage → Bool
  | .register _ r, .register _ r' => r.toBackendInfo.toRecord != r'.toBackendInfo.toRecord
  | .register _ _, .unregister _ => true
  | .unregister _, .register _ _ => true
  | .register _ _, .drain _ _ => true
  | .drain _ _, .register _ _ => true
  | .unregister _, .setStatus _ isAlive => !isAlive
  | .setStatus _ isAlive, .unregister _ => !isAlive
  | .setStatus _ isAlive, .setStatus _ isAlive' => isAlive != isAlive'
  | _, _ => false

/-- **Crossing.** Two messages about one backend commute exactly when they do
not clash. -/
theorem commute_iff {id : BackendId} {m m' : RegistryMessage} (hm : m.backend = id)
    (hm' : m'.backend = id) :
    (∀ v, m.applyView id (m'.applyView id v) = m'.applyView id (m.applyView id v)) ↔
      m.clashes m' = false := by
  constructor
  · intro h
    have hv := h ⟨some ⟨0, 0, 0, false⟩, true, false⟩
    unfold applyView at hv
    rw [if_pos hm, if_pos hm'] at hv
    cases m <;> cases m' <;> simp_all [clashes, Registration.toBackendInfo, BackendInfo.toRecord]
  · intro h v
    unfold applyView
    rw [if_pos hm, if_pos hm']
    cases m <;> cases m' <;>
      simp_all [clashes, Registration.toBackendInfo, BackendInfo.toRecord, Function.comp_def]

/-- Two messages commute unless both are about the backend and clash. -/
theorem applyView_comm {id : BackendId} {m m' : RegistryMessage}
    (h : m.backend = id → m'.backend = id → m.clashes m' = false) (v : BackendView) :
    m.applyView id (m'.applyView id v) = m'.applyView id (m.applyView id v) := by
  by_cases hm : m.backend = id
  · by_cases hm' : m'.backend = id
    · exact (commute_iff hm hm').mpr (h hm hm') v
    · have hid : ∀ v, m'.applyView id v = v := fun v => if_neg hm'
      rw [hid, hid]
  · have hid : ∀ v, m.applyView id v = v := fun v => if_neg hm
    rw [hid, hid]

end RegistryMessage

/-! ## All shards -/

/-- The shards and what is in flight between them. -/
abbrev Registry (n : ℕ) : Type := Network (Fin (n + 1)) ShardRegistry RegistryMessage

/-- What happens on the shards: admin requests and discovery (`register`,
`unregister`, `drain`), health checks, the reaper, the arrival of a message, and
the guards of requests. -/
inductive RegistryAction (n : ℕ) : Type where
  | register (shard : Fin (n + 1)) (id : BackendId) (r : Registration)
  | unregister (shard : Fin (n + 1)) (id : BackendId)
  | drain (shard : Fin (n + 1)) (id : BackendId) (now : ℕ)
  | setStatus (id : BackendId) (isAlive : Bool)
  | runDrainingReaper (now : ℕ)
  | deliver (sender receiver : Fin (n + 1))
  | guard (shard : Fin (n + 1)) (a : ShardRegistry.GuardAction)

namespace Registry

variable {n : ℕ} (net : Registry n)

/-- The messages an action issues, and the shard that issues them: a drain of a
backend this shard does not know and a status that is no change issue none. -/
def issued : RegistryAction n → Fin (n + 1) × List RegistryMessage
  | .register shard id r => (shard, [.register id r])
  | .unregister shard id => (shard, [.unregister id])
  | .drain shard id now =>
    (shard, if ((net.state shard).backends id).isSome then [.drain id now] else [])
  | .setStatus id isAlive =>
    (0, if isAlive = decide (id ∈ (net.state 0).deadBackends) then [.setStatus id isAlive] else [])
  | .runDrainingReaper now => (0, ((net.state 0).drainExpired now).map .unregister)
  | .deliver _ receiver => (receiver, [])
  | .guard shard _ => (shard, [])

/-- A shard issues messages one after another. -/
def issueAll (shard : Fin (n + 1)) (messages : List RegistryMessage) : Registry n :=
  messages.foldl (fun net m => net.issue RegistryMessage.apply shard m) net

/-- One action. -/
def step (a : RegistryAction n) : Option (Registry n) :=
  match a with
  | .deliver sender receiver => net.deliver RegistryMessage.apply sender receiver
  | .guard shard a => some (net.alter shard ((net.state shard).guard a))
  | a => some (net.issueAll (net.issued a).1 (net.issued a).2)

/-- No message about `id` that the action issues clashes with one that another
shard still has in flight. -/
def Apart (id : BackendId) (a : RegistryAction n) : Prop :=
  ∀ m ∈ (net.issued a).2, ∀ k ≠ (net.issued a).1, ∀ i, ∀ m' ∈ net.inFlight k i,
    m.backend = id → m'.backend = id → m.clashes m' = false

instance (id : BackendId) (a : RegistryAction n) : Decidable (net.Apart id a) :=
  inferInstanceAs (Decidable (∀ m ∈ (net.issued a).2, ∀ k, k ≠ (net.issued a).1 → ∀ i,
    ∀ m' ∈ net.inFlight k i, m.backend = id → m'.backend = id → m.clashes m' = false))

/-- All shards have the same view of the backend. -/
def Agrees (id : BackendId) : Prop :=
  ∀ i j, (net.state i).viewOf id = (net.state j).viewOf id

/-- However the pending messages arrive, the shards end with one view. -/
def Settling (id : BackendId) : Prop :=
  ∃ v, net.Settles (ShardRegistry.viewOf id) (RegistryMessage.applyView id) v

variable {net} {id : BackendId}

theorem Settling.issueAll {shard : Fin (n + 1)} {messages : List RegistryMessage}
    (hsettling : net.Settling id)
    (hapart : ∀ m ∈ messages, ∀ k ≠ shard, ∀ i, ∀ m' ∈ net.inFlight k i,
      m.backend = id → m'.backend = id → m.clashes m' = false) :
    (net.issueAll shard messages).Settling id := by
  induction messages generalizing net with
  | nil => exact hsettling
  | cons m messages ih =>
    obtain ⟨v, hv⟩ := hsettling
    have hclear : net.Clear (RegistryMessage.applyView id) shard m := by
      intro k hk i m' hm' w
      exact RegistryMessage.applyView_comm (hapart m List.mem_cons_self k hk i m' hm') w
    have hissued : Settling (net.issue RegistryMessage.apply shard m) id :=
      ⟨_, hv.issue (RegistryMessage.viewOf_apply id) hclear⟩
    refine ih hissued ?_
    -- what the other shards have in flight is as before
    intro m₁ hm₁ k hk i m' hm'
    have hsame : (net.issue RegistryMessage.apply shard m).inFlight k i = net.inFlight k i :=
      if_neg fun h => hk h.1
    rw [hsame] at hm'
    exact hapart m₁ (List.mem_cons_of_mem _ hm₁) k hk i m' hm'

theorem Settling.step {net' : Registry n} {a : RegistryAction n} (hsettling : net.Settling id)
    (hapart : net.Apart id a) (hstep : net.step a = some net') : net'.Settling id := by
  cases a with
  | deliver sender receiver =>
    obtain ⟨v, hv⟩ := hsettling
    exact ⟨v, hv.deliver (RegistryMessage.viewOf_apply id) hstep⟩
  | guard shard a =>
    obtain ⟨v, hv⟩ := hsettling
    obtain rfl := Option.some.inj hstep
    exact ⟨v, hv.alter ((net.state shard).viewOf_guard a)⟩
  | register _ _ _ | unregister _ _ | drain _ _ _ | setStatus _ _ | runDrainingReaper _ =>
    obtain rfl := Option.some.inj hstep
    exact hsettling.issueAll hapart

/-- **Agreement of the shards.** From shards that agree on a backend, with
nothing in flight: if no broadcast about it clashes, when it is issued, with one
that another shard has in flight, then the shards agree on it whenever
everything has arrived. -/
theorem shards_agree {net net' : Registry n} {run : List (RegistryAction n)} (hquiet : net.Quiet)
    (hagree : net.Agrees id) (hapart : Meets step (fun net => net.Apart id) net run)
    (hexec : exec step net run = some net') (hdone : net'.Quiet) : net'.Agrees id := by
  have hstart : net.Settling id :=
    ⟨(net.state 0).viewOf id, Network.settles_of_agree hquiet fun i => hagree i 0⟩
  have hend : net'.Settling id :=
    exec_invariant (I := fun _ net => net.Settling id)
      (fun hok hstep hinv => hinv.step hok hstep) (h := []) hapart hexec hstart
  obtain ⟨v, hv⟩ := hend
  intro i j
  rw [hv.agree hdone i, hv.agree hdone j]

/-- Shards as they start, without backends. -/
def booted (n : ℕ) : Registry n where
  state _ :=
    { kv := emptyShard
      quarantined := ∅
      backends := fun _ => none
      backendIds := []
      backendIds_nodup := List.nodup_nil
      deadBackends := ∅
      config := { blockAlignment := defaultPrefixConfig.blockAlignment }
      failOpenActive := false
      crossShardLoad := fun _ => none
      gpuLoadCache := {}
      cacheHeadroomCache := {}
      residencyCache := fun _ => none
      scoringWeightsOverrides := fun _ => none }
  inFlight _ _ := []
  self_empty _ := rfl

/-- Shard 0 of two. -/
def shardZero : Fin 2 := (Fin.last 0).castSucc

/-- Shard 1 of two. -/
def shardOne : Fin 2 := Fin.last 1

/-- Registered on shard 1, drained on shard 0 once that knows it, found dead, and
removed by the reaper; shard 1 hears of the rest at the end. -/
def registeredAndReaped : List (RegistryAction 1) :=
  [.register shardOne 7 { addr := 101 }, .deliver shardOne shardZero, .drain shardZero 7 10,
    .setStatus 7 false, .guard shardOne (.beginRequest 7), .runDrainingReaper 80,
    .deliver shardZero shardOne, .deliver shardZero shardOne, .deliver shardZero shardOne]

theorem shards_agree_reaped :
    Meets step (fun net => net.Apart 7) (booted 1) registeredAndReaped ∧
      ((exec step (booted 1) registeredAndReaped).getD (booted 1)).Agrees 7 := by
  have hapart : Meets step (fun net => net.Apart 7) (booted 1) registeredAndReaped := by
    decide
  refine ⟨hapart, shards_agree (fun _ _ => rfl) (fun _ _ => rfl) hapart
    (exec_eq_some_getD (by decide)) ?_⟩
  unfold Network.Quiet
  decide

/-- Two shards register the backend with different addresses, and each hears of
the other's registration last. -/
def registeredTwice : List (RegistryAction 1) :=
  [.register shardZero 7 { addr := 101 }, .register shardOne 7 { addr := 102 },
    .deliver shardZero shardOne, .deliver shardOne shardZero]

/-- Everything has arrived and the shards have different addresses. -/
theorem shards_disagree :
    ∃ net, exec step (booted 1) registeredTwice = some net ∧ net.Quiet ∧
      ((net.state 0).viewOf 7).record = some ⟨102, 100, 0, false⟩ ∧
      ((net.state 1).viewOf 7).record = some ⟨101, 100, 0, false⟩ := by
  refine ⟨_, exec_eq_some_getD (by decide), ?_, by decide, by decide⟩
  unfold Network.Quiet
  decide

end Registry

end Ranvier
