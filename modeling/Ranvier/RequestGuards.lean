import Mathlib.Algebra.BigOperators.Pi
import Mathlib.Algebra.BigOperators.Ring.Finset
import Mathlib.Algebra.Group.Submonoid.Operations
import Mathlib.Algebra.Order.BigOperators.Group.Finset
import Mathlib.Algebra.Order.Monoid.Prod
import Mathlib.Algebra.Order.Monoid.Submonoid
import Mathlib.Algebra.Order.Ring.Rat
import Ranvier.Parties
import Ranvier.Registry

/-!
# Guards of requests

A request in flight has two guards, made for the backend it was routed to: one counts it
among the backend's active requests, the other reserves its cost. They count it out and
give the cost back when the request ends, on whatever way. A circuit fallback makes new
guards for the new backend; a connect fallback directs the request elsewhere and leaves
them where they are.

* `attend` — what happens to one request, `guardStep` — to all of a shard and to its
  registry;
* `Attended` — the **invariant**;
* `guards_count_directed` — without connect fallbacks, each backend's counters are those
  of the requests directed to it.
-/

namespace Ranvier

/-! ## The guards -/

structure BackendRequestGuard : Type where
  backendId : BackendId
  active : Bool
  deriving DecidableEq

/-- Costs are estimated from token counts and a multiplier that is never negative. -/
structure CostBudgetGuard : Type where
  backendId : BackendId
  cost : ℚ≥0
  active : Bool
  deriving DecidableEq

namespace ShardRegistry

variable (s : ShardRegistry)

def makeRequestGuard (id : BackendId) : BackendRequestGuard × ShardRegistry :=
  (⟨id, (s.backends id).isSome⟩, s.guard (.beginRequest id))

def dropRequestGuard (g : BackendRequestGuard) : ShardRegistry :=
  if g.active then s.guard (.endRequest g.backendId) else s

def makeCostGuard (id : BackendId) (cost : ℚ≥0) : CostBudgetGuard × ShardRegistry :=
  (⟨id, cost, 0 < cost && s.config.costRoutingEnabled && (s.backends id).isSome⟩,
    s.guard (.reserveCost id cost))

def dropCostGuard (g : CostBudgetGuard) : ShardRegistry :=
  if g.active then s.guard (.releaseCost g.backendId g.cost) else s

end ShardRegistry

/-! ## One request -/

/-- A request in flight. -/
structure DirectedRequest : Type where
  /-- `ctx->current_backend` -/
  currentBackend : BackendId
  cost : ℚ≥0
  /-- the body writer has taken over -/
  connecting : Bool
  backendGuard : BackendRequestGuard
  costGuard : CostBudgetGuard
  deriving DecidableEq

/-- Routing and both fallbacks choose among the registered backends, and a fallback never
the one it is from. -/
inductive RequestEvent : Type where
  | route (id : BackendId) (cost : ℚ≥0)
  | circuitFallback (id : BackendId)
  | connectFallback (id : BackendId)
  /-- the end of the request, on whatever way: both guards are destroyed -/
  | finish
  deriving DecidableEq

/-- What happens to a request, or to the place of one that is not there. -/
def attend (p : Option DirectedRequest) (s : ShardRegistry) (e : RequestEvent) :
    Option (Option DirectedRequest × ShardRegistry) :=
  match p, e with
  | none, .route id cost =>
    if (s.backends id).isSome then
      let (backendGuard, s) := s.makeRequestGuard id
      let (costGuard, s) := s.makeCostGuard id cost
      some (some ⟨id, cost, false, backendGuard, costGuard⟩, s)
    else none
  | some r, .circuitFallback id =>
    if (s.backends id).isSome ∧ id ≠ r.currentBackend ∧ r.connecting = false then
      -- move assignment: the new guard is made before the old one lets go
      let (backendGuard, s) := s.makeRequestGuard id
      let s := s.dropRequestGuard r.backendGuard
      let (costGuard, s) := s.makeCostGuard id r.cost
      let s := s.dropCostGuard r.costGuard
      some (some { r with currentBackend := id, backendGuard, costGuard }, s)
    else none
  | some r, .connectFallback id =>
    if (s.backends id).isSome ∧ id ≠ r.currentBackend then
      some (some { r with currentBackend := id, connecting := true }, s)
    else none
  | some r, .finish => some (none, (s.dropCostGuard r.costGuard).dropRequestGuard r.backendGuard)
  | _, _ => none

/-- No connect fallback; and if new guards are made for a request with a cost, cost routing
is switched on. -/
def RequestEvent.Keeps (p : Option DirectedRequest) (s : ShardRegistry) : RequestEvent → Prop
  | .route _ cost => cost = 0 ∨ s.config.costRoutingEnabled = true
  | .circuitFallback _ => (∀ r, p = some r → r.cost = 0) ∨ s.config.costRoutingEnabled = true
  | .connectFallback _ => False
  | .finish => True

instance (p : Option DirectedRequest) (s : ShardRegistry) (e : RequestEvent) :
    Decidable (e.Keeps p s) :=
  match e, p with
  | .route _ cost, _ => inferInstanceAs (Decidable (cost = 0 ∨ s.config.costRoutingEnabled = true))
  | .circuitFallback _, none => .isTrue (.inl fun _ h => nomatch h)
  | .circuitFallback _, some r =>
    decidable_of_iff (r.cost = 0 ∨ s.config.costRoutingEnabled = true)
      (by simp [RequestEvent.Keeps])
  | .connectFallback _, _ => inferInstanceAs (Decidable False)
  | .finish, _ => inferInstanceAs (Decidable True)

/-! ## All requests of a shard -/

section Shard

variable {ι : Type} [DecidableEq ι]

/-- The places for requests, and the registry. -/
abbrev GuardedShard (ι : Type) : Type := Parties.World ι (Option DirectedRequest) ShardRegistry

inductive ShardEvent (ι : Type) : Type where
  | request (i : ι) (e : RequestEvent)
  /-- a registration, a removal, a drain or a change of status reaches the shard -/
  | registry (m : RegistryMessage)
  /-- `update_config` -/
  | updateConfig (config : RoutingConfig)

def guardStep (w : GuardedShard ι) : ShardEvent ι → Option (GuardedShard ι)
  | .request i e => Parties.step attend w (i, e)
  | .registry m => some { w with shared := m.apply w.shared }
  | .updateConfig config => some { w with shared := { w.shared with config } }

/-- The backends that are registered in a run. -/
def registeredIn (run : List (ShardEvent ι)) : List BackendId :=
  run.filterMap fun
    | .registry (.register id _) => some id
    | _ => none

/-- No backend is registered twice, nor one that was there from the start. -/
def NoReRegistration (start : ShardRegistry) (run : List (ShardEvent ι)) : Prop :=
  (registeredIn run).Nodup ∧ ∀ id ∈ registeredIn run, start.backends id = none

/-- No connect fallback is taken, and where a request with a cost gets its guards cost
routing is switched on. -/
def KeepsGuards (w : GuardedShard ι) : ShardEvent ι → Prop
  | .request i e => e.Keeps (w.parts i) w.shared
  | _ => True

instance (w : GuardedShard ι) (a : ShardEvent ι) : Decidable (KeepsGuards w a) :=
  match a with
  | .request i e => inferInstanceAs (Decidable (e.Keeps (w.parts i) w.shared))
  | .registry _ => inferInstanceAs (Decidable True)
  | .updateConfig _ => inferInstanceAs (Decidable True)

/-- Nothing is counted or reserved. -/
def ShardRegistry.Idle (s : ShardRegistry) : Prop :=
  ∀ id info, s.backends id = some info → info.activeRequests = 0 ∧ info.currentCostBudget = 0

end Shard

/-! ## What the guards do to the counters -/

/-- The active requests and the reserved cost of a backend. -/
def ShardRegistry.counters (s : ShardRegistry) (id : BackendId) : ℕ × ℚ :=
  match s.backends id with
  | some info => (info.activeRequests, info.currentCostBudget)
  | none => 0

/-- What belongs to the backend `b`, as `id` sees it. -/
def partAt (b id : BackendId) (c : ℕ × ℚ) : ℕ × ℚ := if b = id then c else 0

/-- What a request adds to the counters of the backend it is directed to. -/
def share (id : BackendId) : Option DirectedRequest → ℕ × ℚ
  | some r => partAt r.currentBackend id (1, r.cost)
  | none => 0

section Counters

variable {s : ShardRegistry} {a : ShardRegistry.GuardAction} {b id : BackendId} {cost : ℚ≥0}
  {rest : ℕ × ℚ}

theorem partAt_add (c d : ℕ × ℚ) : partAt b id (c + d) = partAt b id c + partAt b id d := by
  rw [partAt, partAt, partAt]
  split
  · rfl
  · exact (add_zero 0).symm

theorem partAt_nonneg {c : ℕ × ℚ} (h : 0 ≤ c) : 0 ≤ partAt b id c := by
  rw [partAt]
  split
  · exact h
  · exact le_refl 0

theorem request_nonneg : (0 : ℕ × ℚ) ≤ (1, 0) := ⟨Nat.zero_le 1, le_refl 0⟩

theorem cost_nonneg (cost : ℚ≥0) : (0 : ℕ × ℚ) ≤ (0, (cost : ℚ)) := ⟨le_refl 0, cost.2⟩

namespace ShardRegistry

theorem counters_of_some {info : BackendInfo} (h : s.backends id = some info) :
    s.counters id = (info.activeRequests, info.currentCostBudget) := by
  rw [counters, h]

theorem backends_updateBackend (f : BackendInfo → BackendInfo) :
    (s.updateBackend b f).backends id =
      if b = id then (s.backends id).map f else s.backends id := by
  rw [updateBackend]
  by_cases h : b = id
  · subst h
    rw [if_pos rfl]
    exact Function.update_self _ _ _
  · rw [if_neg h]
    exact Function.update_of_ne (Ne.symm h) _ _

@[simp] theorem isSome_backends_guard :
    ((s.guard a).backends id).isSome = (s.backends id).isSome := by
  have hupdate : ∀ b f, ((s.updateBackend b f).backends id).isSome = (s.backends id).isSome := by
    intro b f
    rw [backends_updateBackend]
    split
    · exact Option.isSome_map
    · rfl
  cases a with
  | beginRequest b => exact hupdate b _
  | endRequest b => exact hupdate b _
  | reserveCost b cost =>
    rw [guard]
    split
    · exact hupdate b _
    · rfl
  | releaseCost b cost => exact hupdate b _

@[simp] theorem config_guard : (s.guard a).config = s.config := by
  cases a with
  | reserveCost b cost =>
    rw [guard]
    split <;> rfl
  | _ => rfl

/-- What an update of one record does to the counters. -/
theorem counters_updateBackend {f : BackendInfo → BackendInfo} (c : ℕ × ℚ → ℕ × ℚ)
    (hf : ∀ info, ((f info).activeRequests, (f info).currentCostBudget) =
      c (info.activeRequests, info.currentCostBudget))
    (hreg : (s.backends id).isSome = true) :
    (s.updateBackend b f).counters id = if b = id then c (s.counters id) else s.counters id := by
  obtain ⟨info, hinfo⟩ := Option.isSome_iff_exists.mp hreg
  rw [counters, counters, backends_updateBackend, hinfo]
  by_cases h : b = id
  · rw [if_pos h, if_pos h]
    exact hf info
  · rw [if_neg h, if_neg h]

theorem counters_makeRequestGuard (hreg : (s.backends id).isSome = true) :
    (s.makeRequestGuard b).2.counters id = partAt b id (1, 0) + s.counters id := by
  rw [makeRequestGuard, guard, counters_updateBackend (fun c => (1, 0) + c) _ hreg, partAt]
  · split
    · rfl
    · exact (zero_add _).symm
  · intro info
    rw [Prod.mk_add_mk, zero_add, add_comm]

theorem counters_dropRequestGuard (hreg : (s.backends id).isSome = true)
    (hbefore : s.counters id = partAt b id (1, 0) + rest) :
    (s.dropRequestGuard ⟨b, true⟩).counters id = rest := by
  rw [dropRequestGuard, if_pos rfl, guard,
    counters_updateBackend (fun c => (c.1 - 1, c.2)) (fun _ => rfl) hreg, hbefore, partAt]
  split
  · simp
  · exact zero_add rest

theorem counters_makeCostGuard (hreg : (s.backends id).isSome = true)
    (hon : cost = 0 ∨ s.config.costRoutingEnabled = true) :
    (s.makeCostGuard b cost).2.counters id = partAt b id (0, cost) + s.counters id := by
  rw [makeCostGuard, guard]
  split
  · rw [counters_updateBackend (fun c => (0, (cost : ℚ)) + c) _ hreg, partAt]
    · split
      · rfl
      · exact (zero_add _).symm
    · intro info
      rw [Prod.mk_add_mk, zero_add, add_comm]
  · next hoff =>
    have hzero : cost = 0 := by
      obtain hzero | hon := hon
      · exact hzero
      · by_contra hne
        exact hoff ⟨NNRat.cast_pos.mpr (pos_of_ne_zero hne), hon⟩
    subst hzero
    rw [partAt]
    split <;> exact (zero_add _).symm

theorem counters_dropCostGuard (hreg : (s.backends id).isSome = true) (hrest : 0 ≤ rest)
    (hbefore : s.counters id = partAt b id (0, cost) + rest) :
    (s.dropCostGuard ⟨b, cost, 0 < cost⟩).counters id = rest := by
  rw [dropCostGuard]
  split
  · rw [guard, counters_updateBackend (fun c => (c.1, max 0 (c.2 - cost))) (fun _ => rfl) hreg,
      hbefore, partAt]
    split
    · have hcost : 0 ≤ rest.2 := hrest.2
      simp [max_eq_right hcost]
    · exact zero_add rest
  · next hzero =>
    rw [hbefore, partAt]
    obtain rfl : cost = 0 := by simpa using hzero
    split <;> exact zero_add rest

@[simp] theorem isSome_backends_dropRequestGuard (g : BackendRequestGuard) :
    ((s.dropRequestGuard g).backends id).isSome = (s.backends id).isSome := by
  rw [dropRequestGuard]
  split
  · exact isSome_backends_guard
  · rfl

@[simp] theorem config_dropRequestGuard (g : BackendRequestGuard) :
    (s.dropRequestGuard g).config = s.config := by
  rw [dropRequestGuard]
  split
  · exact config_guard
  · rfl

@[simp] theorem isSome_backends_dropCostGuard (g : CostBudgetGuard) :
    ((s.dropCostGuard g).backends id).isSome = (s.backends id).isSome := by
  rw [dropCostGuard]
  split
  · exact isSome_backends_guard
  · rfl

@[simp] theorem isSome_backends_makeRequestGuard :
    ((s.makeRequestGuard b).2.backends id).isSome = (s.backends id).isSome :=
  isSome_backends_guard

@[simp] theorem config_makeRequestGuard : (s.makeRequestGuard b).2.config = s.config :=
  config_guard

@[simp] theorem isSome_backends_makeCostGuard :
    ((s.makeCostGuard b cost).2.backends id).isSome = (s.backends id).isSome :=
  isSome_backends_guard

theorem makeRequestGuard_fst (hreg : (s.backends b).isSome = true) :
    (s.makeRequestGuard b).1 = ⟨b, true⟩ := by
  rw [makeRequestGuard, hreg]

theorem makeCostGuard_fst (hreg : (s.backends b).isSome = true)
    (hon : cost = 0 ∨ s.config.costRoutingEnabled = true) :
    (s.makeCostGuard b cost).1 = ⟨b, cost, 0 < cost⟩ := by
  rw [makeCostGuard, hreg]
  obtain rfl | hon := hon
  · simp
  · simp [hon]

end ShardRegistry

end Counters

/-! ## One event of one request -/

/-- Both guards are at the backend that the request is directed to. -/
structure DirectedRequest.Kept (r : DirectedRequest) : Prop where
  backendGuard : r.backendGuard = ⟨r.currentBackend, true⟩
  costGuard : r.costGuard = ⟨r.currentBackend, r.cost, 0 < r.cost⟩

/-- What an event leaves of a request and of the registry. -/
structure Attends (p : Option DirectedRequest) (s : ShardRegistry) (p' : Option DirectedRequest)
    (s' : ShardRegistry) : Prop where
  kept : ∀ r, p' = some r → r.Kept
  registered : ∀ r, p' = some r → (s.backends r.currentBackend).isSome = true
  backends : ∀ id, (s'.backends id).isSome = (s.backends id).isSome
  counters : ∀ id rest, (s.backends id).isSome = true → 0 ≤ rest →
    s.counters id = share id p + rest → s'.counters id = share id p' + rest

section Events

variable {p p' : Option DirectedRequest} {s s' : ShardRegistry} {e : RequestEvent} {id : BackendId}
  {cost : ℚ≥0} {r : DirectedRequest}

theorem share_some : share id (some r) =
    partAt r.currentBackend id (1, 0) + partAt r.currentBackend id (0, r.cost) := by
  rw [share, ← partAt_add, Prod.mk_add_mk, add_zero, zero_add]

theorem share_nonneg (id : BackendId) (p : Option DirectedRequest) : 0 ≤ share id p := by
  cases p with
  | none => exact le_refl 0
  | some r =>
    rw [share_some]
    exact add_nonneg (partAt_nonneg request_nonneg) (partAt_nonneg (cost_nonneg r.cost))

/-- A request gets its guards. -/
theorem attends_route (hreg : (s.backends id).isSome = true)
    (hon : cost = 0 ∨ s.config.costRoutingEnabled = true) :
    Attends none s
      (some ⟨id, cost, false, (s.makeRequestGuard id).1,
        ((s.makeRequestGuard id).2.makeCostGuard id cost).1⟩)
      ((s.makeRequestGuard id).2.makeCostGuard id cost).2 where
  kept r hr := by
    obtain rfl := Option.some.inj hr
    refine ⟨ShardRegistry.makeRequestGuard_fst hreg, ShardRegistry.makeCostGuard_fst ?_ ?_⟩
    · rwa [ShardRegistry.isSome_backends_makeRequestGuard]
    · rwa [ShardRegistry.config_makeRequestGuard]
  registered r hr := by
    obtain rfl := Option.some.inj hr
    exact hreg
  backends id := by simp
  counters id' rest hreg' _ hbefore := by
    rw [ShardRegistry.counters_makeCostGuard, ShardRegistry.counters_makeRequestGuard hreg',
      hbefore, share_some]
    · simp only [share, zero_add]
      rw [← add_assoc, add_comm (partAt _ _ _)]
    · rwa [ShardRegistry.isSome_backends_makeRequestGuard]
    · rwa [ShardRegistry.config_makeRequestGuard]

/-- A request's guards go with it. -/
theorem attends_finish (hkept : r.Kept) :
    Attends (some r) s none ((s.dropCostGuard r.costGuard).dropRequestGuard r.backendGuard) where
  kept _ hr := nomatch hr
  registered _ hr := nomatch hr
  backends id := by simp
  counters id rest hreg hrest hbefore := by
    rw [share_some, add_comm (partAt _ _ _), add_assoc] at hbefore
    rw [hkept.backendGuard, hkept.costGuard]
    have hpart : 0 ≤ partAt r.currentBackend id (1, 0) + rest := 
      add_nonneg (partAt_nonneg request_nonneg) hrest
    have hcost := ShardRegistry.counters_dropCostGuard hreg hpart hbefore
    rw [ShardRegistry.counters_dropRequestGuard _ hcost, share, zero_add]
    rwa [ShardRegistry.isSome_backends_dropCostGuard]

/-- A request gets new guards for old. -/
theorem attends_circuitFallback (hkept : r.Kept) (hreg : (s.backends id).isSome = true)
    (hon : r.cost = 0 ∨ s.config.costRoutingEnabled = true)
    {s₁ s₂ s₃ : ShardRegistry} (h₁ : s₁ = (s.makeRequestGuard id).2)
    (h₂ : s₂ = s₁.dropRequestGuard r.backendGuard) (h₃ : s₃ = (s₂.makeCostGuard id r.cost).2) :
    Attends (some r) s
      (some { r with
        currentBackend := id
        backendGuard := (s.makeRequestGuard id).1
        costGuard := (s₂.makeCostGuard id r.cost).1 })
      (s₃.dropCostGuard r.costGuard) where
  kept r' hr := by
    obtain rfl := Option.some.inj hr
    refine ⟨ShardRegistry.makeRequestGuard_fst hreg, ShardRegistry.makeCostGuard_fst ?_ ?_⟩
    · simpa [h₂, h₁] using hreg
    · simpa [h₂, h₁] using hon
  registered r' hr := by
    obtain rfl := Option.some.inj hr
    exact hreg
  backends id := by simp [h₃, h₂, h₁]
  counters id' rest hreg' hrest hbefore := by
    have hreg₁ : (s₁.backends id').isSome = true := by simpa [h₁] using hreg'
    have hreg₂ : (s₂.backends id').isSome = true := by simpa [h₂] using hreg₁
    have hreg₃ : (s₃.backends id').isSome = true := by simpa [h₃] using hreg₂
    have hcount₁ : s₁.counters id' = partAt r.currentBackend id' (1, 0) +
        (partAt id id' (1, 0) + (partAt r.currentBackend id' (0, r.cost) + rest)) := by
      rw [h₁, ShardRegistry.counters_makeRequestGuard hreg', hbefore, share_some]
      abel
    have hcount₂ : s₂.counters id' =
        partAt id id' (1, 0) + (partAt r.currentBackend id' (0, r.cost) + rest) := by
      rw [h₂, hkept.backendGuard, ShardRegistry.counters_dropRequestGuard hreg₁ hcount₁]
    have hcount₃ : s₃.counters id' = partAt r.currentBackend id' (0, r.cost) +
        (partAt id id' (0, r.cost) + partAt id id' (1, 0) + rest) := by
      rw [h₃, ShardRegistry.counters_makeCostGuard hreg₂ (by simpa [h₂, h₁] using hon), hcount₂]
      abel
    rw [hkept.costGuard, ShardRegistry.counters_dropCostGuard hreg₃ _ hcount₃, share_some]
    · rw [add_comm (partAt _ _ _)]
    · refine add_nonneg (add_nonneg ?_ ?_) hrest
      · exact partAt_nonneg (cost_nonneg r.cost)
      · exact partAt_nonneg request_nonneg

/-- **One event** of a request whose guards are where it is directed to. -/
theorem attends_of_attend (hkept : ∀ r, p = some r → r.Kept) (hkeeps : e.Keeps p s)
    (h : attend p s e = some (p', s')) : Attends p s p' s' := by
  cases p with
  | none =>
    cases e with
    | route id cost =>
      rw [attend] at h
      split at h
      · next hreg =>
        obtain ⟨rfl, rfl⟩ := Prod.mk.inj (Option.some.inj h)
        exact attends_route hreg hkeeps
      · cases h
    | _ => cases h
  | some r =>
    have hr := hkept r rfl
    cases e with
    | route id cost => cases h
    | circuitFallback id =>
      rw [attend] at h
      split at h
      · next hfree =>
        obtain ⟨rfl, rfl⟩ := Prod.mk.inj (Option.some.inj h)
        have hon : r.cost = 0 ∨ s.config.costRoutingEnabled = true :=
          hkeeps.imp_left fun hzero => hzero r rfl
        exact attends_circuitFallback hr hfree.1 hon rfl rfl rfl
      · cases h
    | connectFallback id => exact hkeeps.elim
    | finish =>
      obtain ⟨rfl, rfl⟩ := Prod.mk.inj (Option.some.inj h)
      exact attends_finish hr

end Events

/-! ## Runs -/

section Runs

variable {ι : Type} [Fintype ι]

/-- A backend that was there from the start or came in the run. -/
def SeenIn (start : ShardRegistry) (run : List (ShardEvent ι)) (id : BackendId) : Prop :=
  (start.backends id).isSome = true ∨ id ∈ registeredIn run

/-- The guards are where the requests are directed to, these and the registered backends
have been seen, and each registered backend counts the requests directed to it. -/
structure Attended (start : ShardRegistry) (run : List (ShardEvent ι)) (w : GuardedShard ι) :
    Prop where
  kept : ∀ i r, w.parts i = some r → r.Kept
  directed : ∀ i r, w.parts i = some r → SeenIn start run r.currentBackend
  registered : ∀ id, (w.shared.backends id).isSome = true → SeenIn start run id
  accounts : ∀ id, (w.shared.backends id).isSome = true →
    Parties.Accounts (share id) (fun s => s.counters id) w

variable {start : ShardRegistry} {run : List (ShardEvent ι)} {w w' : GuardedShard ι}
  {id : BackendId} {a : ShardEvent ι} {m : RegistryMessage} {r : Registration}

omit [Fintype ι] in
theorem SeenIn.concat (h : SeenIn start run id) : SeenIn start (run ++ [a]) id := by
  refine h.imp_right fun hmem => ?_
  rw [registeredIn, List.filterMap_append]
  exact List.mem_append_left _ hmem

/-- What does not concern the counters. -/
theorem Attended.of_same (h : Attended start run w) (hparts : w'.parts = w.parts)
    (hbackends : ∀ id, (w'.shared.backends id).isSome = true →
      (w.shared.backends id).isSome = true ∧ w'.shared.counters id = w.shared.counters id) :
    Attended start (run ++ [a]) w' where
  kept i r hr := h.kept i r (by rwa [← hparts])
  directed i r hr := (h.directed i r (by rwa [← hparts])).concat
  registered id hid := (h.registered id (hbackends id hid).1).concat
  accounts id hid := by
    obtain ⟨hreg, hcounters⟩ := hbackends id hid
    rw [Parties.Accounts, hparts, hcounters]
    exact h.accounts id hreg

/-- A backend that no request has seen is registered, with nothing counted. -/
theorem Attended.register (h : Attended start run w) (hnew : ¬SeenIn start run id) :
    Attended start (run ++ [.registry (.register id r)])
      { w with shared := w.shared.registerBackend id r } where
  kept := h.kept
  directed i r hr := (h.directed i r hr).concat
  registered id' hid := by
    by_cases hne : id' = id
    · subst hne
      right
      simp [registeredIn]
    · refine (h.registered id' ?_).concat
      have hother : (w.shared.registerBackend id r).backends id' = w.shared.backends id' :=
        Function.update_of_ne hne _ _
      rwa [← hother]
  accounts id' hid := by
    by_cases hne : id' = id
    · subst hne
      have hself : (w.shared.registerBackend id' r).backends id' = some r.toBackendInfo :=
        Function.update_self _ _ _
      have hnone : ∀ i, share id' (w.parts i) = 0 := by
        intro i
        cases hp : w.parts i with
        | none => rfl
        | some r =>
          rw [share, partAt, if_neg]
          rintro rfl
          exact hnew (h.directed i r hp)
      simp only [Parties.Accounts, hnone, Finset.sum_const_zero]
      exact ShardRegistry.counters_of_some hself
    · have hother : (w.shared.registerBackend id r).backends id' = w.shared.backends id' :=
        Function.update_of_ne hne _ _
      have hcounters : (w.shared.registerBackend id r).counters id' = w.shared.counters id' := by
        rw [ShardRegistry.counters, ShardRegistry.counters, hother]
      rw [Parties.Accounts, hcounters]
      exact h.accounts id' (by rwa [← hother])

/-- **One message** to the registry. -/
theorem Attended.registry (h : Attended start run w)
    (hnew : ∀ id r, m = .register id r → ¬SeenIn start run id) :
    Attended start (run ++ [.registry m]) { w with shared := m.apply w.shared } := by
  cases m with
  | register id r => exact h.register (hnew id r rfl)
  | unregister id =>
    refine h.of_same rfl fun id' hid => ?_
    by_cases hne : id' = id
    · subst hne
      have hgone : (w.shared.unregisterBackend id').backends id' = none :=
        Function.update_self _ _ _
      change ((w.shared.unregisterBackend id').backends id').isSome = true at hid
      rw [hgone] at hid
      cases hid
    · have hother : (w.shared.unregisterBackend id).backends id' = w.shared.backends id' :=
        Function.update_of_ne hne _ _
      change ((w.shared.unregisterBackend id).backends id').isSome = true at hid
      rw [hother] at hid
      refine ⟨hid, ?_⟩
      change (w.shared.unregisterBackend id).counters id' = _
      rw [ShardRegistry.counters, ShardRegistry.counters, hother]
  | drain id now =>
    refine h.of_same rfl fun id' hid => ?_
    have hreg : (w.shared.backends id').isSome = true := by
      change ((w.shared.updateBackend id _).backends id').isSome = true at hid
      rw [ShardRegistry.backends_updateBackend] at hid
      split at hid
      · rwa [Option.isSome_map] at hid
      · exact hid
    refine ⟨hreg, ?_⟩
    change (w.shared.updateBackend id _).counters id' = _
    rw [ShardRegistry.counters_updateBackend (fun c => c) _ hreg, ite_self]
    exact fun _ => rfl
  | setStatus id isAlive => exact h.of_same rfl fun _ hid => ⟨hid, rfl⟩

omit [Fintype ι] in
theorem noReRegistration_concat (h : NoReRegistration start (run ++ [a])) :
    NoReRegistration start run ∧
      ∀ id r, a = .registry (.register id r) → ¬SeenIn start run id := by
  obtain ⟨hnodup, hnew⟩ := h
  rw [registeredIn, List.filterMap_append] at hnodup hnew
  obtain ⟨hold, -, hapart⟩ := List.nodup_append.mp hnodup
  refine ⟨⟨hold, fun id hid => hnew id (List.mem_append_left _ hid)⟩, ?_⟩
  rintro id r rfl (hstart | hseen)
  · rw [hnew id (List.mem_append_right _ List.mem_cons_self)] at hstart
    cases hstart
  · exact hapart id hseen id List.mem_cons_self rfl

variable [DecidableEq ι]

/-- **One event** of one request. -/
theorem Attended.request {i : ι} {e : RequestEvent} (h : Attended start run w)
    (hkeeps : e.Keeps (w.parts i) w.shared) (hstep : Parties.step attend w (i, e) = some w') :
    Attended start (run ++ [.request i e]) w' := by
  obtain ⟨p, s, hattend, rfl⟩ := Parties.step_cases hstep
  have hattends := attends_of_attend (h.kept i) hkeeps hattend
  exact
    { kept := by
        refine Parties.local_step (I := fun _ p => ∀ r, p = some r → DirectedRequest.Kept r) ?_
          hstep h.kept
        intro p v hact hkept
        exact (attends_of_attend hkept hkeeps hact).kept
      directed := by
        refine Parties.local_step (I := fun _ p => ∀ r, p = some r →
          SeenIn start (run ++ [.request i e]) (DirectedRequest.currentBackend r)) ?_ hstep
          fun j r hr => (h.directed j r hr).concat
        intro p v hact _ r hr
        refine (h.registered _ ?_).concat
        exact (attends_of_attend (h.kept i) hkeeps hact).registered r hr
      registered := by
        intro id hid
        exact (h.registered id ((hattends.backends id).symm.trans hid)).concat
      accounts := by
        intro id hid
        have hreg := (hattends.backends id).symm.trans hid
        refine (h.accounts id hreg).step (S := AddSubmonoid.nonneg (ℕ × ℚ))
          (fun j => share_nonneg id _) ?_ hstep
        intro p v hact rest hrest hbefore
        exact (attends_of_attend (h.kept i) hkeeps hact).counters id rest hreg hrest hbefore }

theorem Attended.step (h : NoReRegistration start run → Attended start run w)
    (hkeeps : KeepsGuards w a) (hstep : guardStep w a = some w') :
    NoReRegistration start (run ++ [a]) → Attended start (run ++ [a]) w' := by
  intro hfresh
  obtain ⟨hbefore, hnew⟩ := noReRegistration_concat hfresh
  cases a with
  | request i e => exact (h hbefore).request hkeeps hstep
  | registry m =>
    obtain rfl := Option.some.inj hstep
    exact (h hbefore).registry fun id r hm => hnew id r (congrArg _ hm)
  | updateConfig config =>
    obtain rfl := Option.some.inj hstep
    exact (h hbefore).of_same rfl fun _ hid => ⟨hid, rfl⟩

end Runs

end Ranvier
