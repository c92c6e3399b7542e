import Mathlib.Logic.Function.Basic
import Ranvier.KeyedMap
import Ranvier.RequestGauges
import Ranvier.SwapQueue

/-!
# The request scheduler

One bounded queue per priority tier. `dequeue` takes from the highest tier in which some
agent is not paused: in the CRITICAL tier the first such request, in the others the one
whose user agent was served longest ago. Whether an agent is paused is asked anew in every
call.

* `EnqueueSpec`, `DequeueSpec`, `DrainSpec` — what a call can do to the queues;
* `enqueue_spec`, `dequeue_spec`, `drainOne_spec` — and that it does nothing else;
* `queued_perm_cons` — how all tiers together change with one of them.
-/

namespace Ranvier

/-! ## Clock and requests -/

/-- `steady_clock::time_point::min()`, in nanoseconds. -/
def timePointMin : ℤ := -2 ^ 63

/-- `steady_clock::time_point::max()`. -/
def timePointMax : ℤ := 2 ^ 63 - 1

/-- A reading of `steady_clock`. It counts from the start of the machine, and does not get
to the end of its range. -/
structure SteadyTime : Type where
  ns : ℤ
  above : timePointMin ≤ ns
  below : ns < timePointMax

instance : DecidableEq SteadyTime := fun t t' =>
  decidable_of_iff (t.ns = t'.ns) ⟨fun h => by cases t; cases t'; cases h; rfl, congrArg _⟩

/-- What a context exposes to the scheduler, and the `request` it does not look at. -/
structure RequestContext (α : Type) : Type where
  /-- which object the pointer owns -/
  ticket : ℕ
  /-- the value of the enumeration -/
  priority : UInt8
  userAgent : String
  agentId : String
  /-- written by `enqueue` -/
  enqueueTime : Option SteadyTime := none
  request : α

/-- The value of the enumerator: lower is more urgent. -/
def PriorityLevel.value : PriorityLevel → ℕ
  | .CRITICAL => 0
  | .HIGH => 1
  | .NORMAL => 2
  | .LOW => 3

/-- The tiers in the order of the arrays. -/
def priorityTiers : List PriorityLevel := [.CRITICAL, .HIGH, .NORMAL, .LOW]

/-- The index of the queue: what is no priority counts as NORMAL. -/
def tierOf (priority : UInt8) : PriorityLevel :=
  match priority.toNat with
  | 0 => .CRITICAL
  | 1 => .HIGH
  | 2 => .NORMAL
  | 3 => .LOW
  | _ => .NORMAL

namespace RequestContext

variable {α : Type} (r : RequestContext α)

def tier : PriorityLevel := tierOf r.priority

/-- `get_agent_key`. -/
def agentKey : String := if r.userAgent.isEmpty then "unknown" else r.userAgent

/-- The pause check, if there is one, is asked for requests of named agents. -/
def isPaused (pauseCheck : Option (String → Bool)) : Bool :=
  match pauseCheck with
  | some paused => !r.agentId.isEmpty && paused r.agentId
  | none => false

end RequestContext

/-! ## The scheduler -/

structure SchedulerSettings : Type where
  tierCapacity : PriorityLevel → ℕ := fun
    | .CRITICAL => 64
    | .HIGH => 128
    | .NORMAL => 256
    | .LOW => 512
  maxPerAgentQueued : ℕ := 128

def defaultTierCapacity : ℕ := 512

def defaultMaxPerAgentQueued : ℕ := 128

/-- `MAX_AGENT_TRACKING`. -/
def maxAgentTracking : ℕ := 256

structure RequestScheduler (α : Type) : Type where
  queues : PriorityLevel → List (RequestContext α) := fun _ => []
  tierCapacity : PriorityLevel → ℕ
  overflowDrops : PriorityLevel → ℕ := fun _ => 0
  maxPerAgentQueued : ℕ
  perAgentDrops : ℕ := 0
  pausedSkips : ℕ := 0
  totalEnqueued : ℕ := 0
  totalDequeued : ℕ := 0
  agentLastServed : KeyedMap String SteadyTime := {}

/-- The least entry of a scan that starts at `oldest`. -/
def oldestAgent : String × SteadyTime → List (String × SteadyTime) → String × SteadyTime
  | oldest, [] => oldest
  | oldest, e :: es =>
    if e.2.ns < oldest.2.ns then oldestAgent e es else oldestAgent oldest es

namespace RequestScheduler

variable {α : Type}

/-- The constructor: a limit of zero stands for the default. -/
def new (settings : SchedulerSettings) : RequestScheduler α where
  tierCapacity tier :=
    if 0 < settings.tierCapacity tier then settings.tierCapacity tier else defaultTierCapacity
  maxPerAgentQueued :=
    if 0 < settings.maxPerAgentQueued then settings.maxPerAgentQueued else defaultMaxPerAgentQueued

variable (s : RequestScheduler α)

/-- All that is queued. -/
def queued : List (RequestContext α) := priorityTiers.flatMap s.queues

/-- `count_agent_queued`. -/
def countAgentQueued (aid : String) : ℕ := s.queued.countP fun r => r.agentId == aid

def enqueue (now : SteadyTime) (ctx : RequestContext α) : Bool × RequestScheduler α :=
  let tier := ctx.tier
  if s.tierCapacity tier ≤ (s.queues tier).length then
    (false,
      { s with overflowDrops := Function.update s.overflowDrops tier (s.overflowDrops tier + 1) })
  else if !ctx.agentId.isEmpty && decide (s.maxPerAgentQueued ≤ s.countAgentQueued ctx.agentId) then
    (false, { s with perAgentDrops := s.perAgentDrops + 1 })
  else
    (true,
      { s with
        queues := Function.update s.queues tier
          (s.queues tier ++ [{ ctx with enqueueTime := some now }])
        totalEnqueued := s.totalEnqueued + 1 })

/-- `update_agent_served`. `order` is the order in which the hash map is iterated. -/
def updateAgentServed (now : SteadyTime) (order : List (String × SteadyTime))
    (ctx : RequestContext α) : KeyedMap String SteadyTime :=
  if (s.agentLastServed.find ctx.agentKey).isSome then s.agentLastServed.set ctx.agentKey now
  else if maxAgentTracking ≤ s.agentLastServed.size then
    match order with
    | [] => s.agentLastServed.set ctx.agentKey now
    | e :: es => (s.agentLastServed.erase (oldestAgent e es).1).set ctx.agentKey now
  else s.agentLastServed.set ctx.agentKey now

/-- When the agent of a request was served: never is before all else. -/
def servedTime (ctx : RequestContext α) : ℤ :=
  match s.agentLastServed.find ctx.agentKey with
  | some t => t.ns
  | none => timePointMin

/-- The end of a successful `dequeue`: the winner is swapped to the front and popped. -/
def handOut (now : SteadyTime) (order : List (String × SteadyTime)) (tier : PriorityLevel)
    (i : ℕ) : Option (RequestContext α) × RequestScheduler α :=
  match takeAt (s.queues tier) i with
  | none => (none, s)
  | some (ctx, rest) =>
    (some ctx,
      { s with
        queues := Function.update s.queues tier rest
        agentLastServed := s.updateAgentServed now order ctx
        totalDequeued := s.totalDequeued + 1 })

/-- The loop over the tiers below CRITICAL. -/
def dequeueFair (pauseCheck : Option (String → Bool)) (now : SteadyTime)
    (order : List (String × SteadyTime)) :
    RequestScheduler α → List PriorityLevel → Option (RequestContext α) × RequestScheduler α
  | s, [] => (none, s)
  | s, tier :: tiers =>
    let q := s.queues tier
    if q.isEmpty then dequeueFair pauseCheck now order s tiers
    else
      let skipped := { s with pausedSkips := s.pausedSkips + q.countP (·.isPaused pauseCheck) }
      match scan (·.isPaused pauseCheck) s.servedTime 0 none timePointMax q with
      | some bestIdx => skipped.handOut now order tier bestIdx
      | none => dequeueFair pauseCheck now order skipped tiers

def dequeue (pauseCheck : Option (String → Bool)) (now : SteadyTime)
    (order : List (String × SteadyTime)) : Option (RequestContext α) × RequestScheduler α :=
  let q := s.queues .CRITICAL
  -- every request before the first that is not paused is skipped
  let skipped :=
    { s with pausedSkips := s.pausedSkips + (q.takeWhile (·.isPaused pauseCheck)).length }
  match q.findIdx? fun r => !r.isPaused pauseCheck with
  | some i => skipped.handOut now order .CRITICAL i
  | none => dequeueFair pauseCheck now order skipped [.HIGH, .NORMAL, .LOW]

/-- The loop of `drain_one`. -/
def drainFrom : List PriorityLevel → Option (RequestContext α) × RequestScheduler α
  | [] => (none, s)
  | tier :: tiers =>
    match s.queues tier with
    | [] => drainFrom tiers
    | ctx :: rest => (some ctx, { s with queues := Function.update s.queues tier rest })

def drainOne : Option (RequestContext α) × RequestScheduler α := s.drainFrom priorityTiers

/-! ## All tiers together -/

variable {s}

theorem mem_priorityTiers (tier : PriorityLevel) : tier ∈ priorityTiers := by
  cases tier <;> simp [priorityTiers]

theorem mem_queued {r : RequestContext α} : r ∈ s.queued ↔ ∃ tier, r ∈ s.queues tier := by
  simp [queued, mem_priorityTiers]

/-- What holds of all queues when one of them has changed. -/
theorem forall_update {queues : PriorityLevel → List (RequestContext α)} {tier : PriorityLevel}
    {q : List (RequestContext α)} {P : PriorityLevel → List (RequestContext α) → Prop}
    (hq : P tier q) (h : ∀ t, t ≠ tier → P t (queues t)) (t : PriorityLevel) :
    P t (Function.update queues tier q t) :=
  (Function.forall_update_iff queues P).mpr ⟨hq, h⟩ t

/-- The tiers come in the order of their urgency. -/
theorem mem_of_value_lt {done tiers : List PriorityLevel} {tier tier' : PriorityLevel}
    (hsplit : done ++ tier :: tiers = priorityTiers) (hlt : tier'.value < tier.value) :
    tier' ∈ done := by
  have hsorted : (done ++ tier :: tiers).Pairwise fun a b => a.value < b.value := by
    rw [hsplit]
    simp [priorityTiers, PriorityLevel.value]
  have hmem : tier' ∈ done ++ tier :: tiers := by
    rw [hsplit]
    exact mem_priorityTiers tier'
  rw [List.pairwise_append, List.pairwise_cons] at hsorted
  obtain ⟨-, ⟨hlater, -⟩, -⟩ := hsorted
  rcases List.mem_append.mp hmem with hdone | hrest
  · exact hdone
  · rcases List.mem_cons.mp hrest with rfl | hrest
    · exact absurd hlt (lt_irrefl _)
    · exact absurd hlt (lt_asymm (hlater tier' hrest))

/-- One request less in one of the tiers. -/
theorem flatMap_update_perm {queues : PriorityLevel → List (RequestContext α)}
    {tier : PriorityLevel} {q : List (RequestContext α)} {r : RequestContext α}
    (h : (queues tier).Perm (r :: q)) :
    (priorityTiers.flatMap queues).Perm
      (r :: priorityTiers.flatMap (Function.update queues tier q)) := by
  obtain ⟨done, tiers, hsplit⟩ := List.append_of_mem (mem_priorityTiers tier)
  have hnodup : (done ++ tier :: tiers).Nodup := by
    rw [← hsplit]
    simp [priorityTiers]
  rw [List.nodup_append, List.nodup_cons] at hnodup
  obtain ⟨-, ⟨hlater, -⟩, hearlier⟩ := hnodup
  have hsame : ∀ l : List PriorityLevel, tier ∉ l →
      l.flatMap (Function.update queues tier q) = l.flatMap queues := by
    intro l hl
    refine List.flatMap_congr fun t ht => ?_
    exact Function.update_of_ne (ne_of_mem_of_not_mem ht hl) _ _
  have hdone : tier ∉ done := fun hmem => hearlier tier hmem tier List.mem_cons_self rfl
  rw [hsplit, List.flatMap_append, List.flatMap_cons, List.flatMap_append, List.flatMap_cons,
    hsame done hdone, hsame tiers hlater, Function.update_self]
  have htaken : (done.flatMap queues ++ (queues tier ++ tiers.flatMap queues)).Perm
      (done.flatMap queues ++ (r :: q ++ tiers.flatMap queues)) :=
    (h.append_right _).append_left _
  exact htaken.trans List.perm_middle

/-! ## What the calls do -/

/-- The limits of a scheduler never change. -/
structure SameLimits (s s' : RequestScheduler α) : Prop where
  capacity : s'.tierCapacity = s.tierCapacity
  perAgent : s'.maxPerAgentQueued = s.maxPerAgentQueued

theorem SameLimits.trans {s s' s'' : RequestScheduler α} (h : SameLimits s s')
    (h' : SameLimits s' s'') : SameLimits s s'' :=
  ⟨h'.capacity.trans h.capacity, h'.perAgent.trans h.perAgent⟩

/-- What `enqueue` can do. -/
inductive EnqueueSpec (s : RequestScheduler α) (now : SteadyTime) (ctx : RequestContext α) :
    Bool × RequestScheduler α → Prop where
  | rejected {s' : RequestScheduler α}
      (hreason : s.tierCapacity ctx.tier ≤ (s.queues ctx.tier).length ∨
        ctx.agentId ≠ "" ∧ s.maxPerAgentQueued ≤ s.countAgentQueued ctx.agentId)
      (hlimits : SameLimits s s') (hqueues : s'.queues = s.queues)
      (hserved : s'.agentLastServed = s.agentLastServed) : EnqueueSpec s now ctx (false, s')
  | accepted {s' : RequestScheduler α}
      (hroom : (s.queues ctx.tier).length < s.tierCapacity ctx.tier)
      (hagent : ctx.agentId ≠ "" → s.countAgentQueued ctx.agentId < s.maxPerAgentQueued)
      (hlimits : SameLimits s s')
      (hqueues : s'.queues = Function.update s.queues ctx.tier
        (s.queues ctx.tier ++ [{ ctx with enqueueTime := some now }]))
      (hserved : s'.agentLastServed = s.agentLastServed) : EnqueueSpec s now ctx (true, s')

theorem enqueue_spec (s : RequestScheduler α) (now : SteadyTime) (ctx : RequestContext α) :
    EnqueueSpec s now ctx (s.enqueue now ctx) := by
  rw [enqueue]
  split
  · next hfull => exact .rejected (.inl hfull) ⟨rfl, rfl⟩ rfl rfl
  · next hroom =>
    split
    · next hmany =>
      simp only [Bool.and_eq_true, Bool.not_eq_true', decide_eq_true_eq] at hmany
      obtain ⟨hnamed, hmany⟩ := hmany
      exact .rejected (.inr ⟨by simpa using hnamed, hmany⟩) ⟨rfl, rfl⟩ rfl rfl
    · next hfew =>
      refine .accepted (not_le.mp hroom) ?_ ⟨rfl, rfl⟩ rfl rfl
      intro hnamed
      by_contra hmany
      exact hfew (by simpa [hnamed] using hmany)

variable (s)

/-- What `dequeue` compares in a tier: in CRITICAL nothing. -/
def dueTime (tier : PriorityLevel) (r : RequestContext α) : ℤ :=
  if tier = .CRITICAL then timePointMin else s.servedTime r

/-- The request that is due: no more urgent tier has one that is not paused, and in its own
tier it is the first that was not served later than another. -/
structure DueIn (pauseCheck : Option (String → Bool)) (tier : PriorityLevel)
    (pre : List (RequestContext α)) (w : RequestContext α) (post : List (RequestContext α)) :
    Prop where
  queue : s.queues tier = pre ++ w :: post
  due : IsDue (·.isPaused pauseCheck) (s.dueTime tier) pre w post
  higher : ∀ tier', tier'.value < tier.value → ∀ r ∈ s.queues tier', r.isPaused pauseCheck = true

/-- What `dequeue` can do. -/
inductive DequeueSpec (pauseCheck : Option (String → Bool)) (now : SteadyTime)
    (order : List (String × SteadyTime)) :
    Option (RequestContext α) × RequestScheduler α → Prop where
  | nothing {s' : RequestScheduler α}
      (hpaused : ∀ r ∈ s.queued, r.isPaused pauseCheck = true) (hlimits : SameLimits s s')
      (hqueues : s'.queues = s.queues) (hserved : s'.agentLastServed = s.agentLastServed) :
      DequeueSpec pauseCheck now order (none, s')
  | handed {s' : RequestScheduler α} {tier : PriorityLevel} {pre post : List (RequestContext α)}
      {w : RequestContext α} (hdue : s.DueIn pauseCheck tier pre w post)
      (hlimits : SameLimits s s')
      (hqueues : s'.queues = Function.update s.queues tier (closeGap pre post))
      (hserved : s'.agentLastServed = s.updateAgentServed now order w) :
      DequeueSpec pauseCheck now order (some w, s')

/-- What `drain_one` can do. -/
inductive DrainSpec : Option (RequestContext α) × RequestScheduler α → Prop where
  | nothing (hempty : s.queued = []) : DrainSpec (none, s)
  | handed {s' : RequestScheduler α} {tier : PriorityLevel} {w : RequestContext α}
      {rest : List (RequestContext α)} (hqueue : s.queues tier = w :: rest)
      (hlimits : SameLimits s s') (hqueues : s'.queues = Function.update s.queues tier rest)
      (hserved : s'.agentLastServed = s.agentLastServed) : DrainSpec (some w, s')

variable {s}

theorem servedTime_lt (r : RequestContext α) : s.servedTime r < timePointMax := by
  rw [servedTime]
  split
  · next t _ => exact t.below
  · simp [timePointMin, timePointMax]

theorem servedTime_skips (skips : ℕ) : servedTime { s with pausedSkips := skips } = s.servedTime :=
  rfl

section Dequeue

variable {pauseCheck : Option (String → Bool)} {now : SteadyTime}
  {order : List (String × SteadyTime)}

theorem handOut_spec {tier : PriorityLevel} {pre post : List (RequestContext α)}
    {w : RequestContext α} (hdue : s.DueIn pauseCheck tier pre w post) (skips : ℕ) :
    s.DequeueSpec pauseCheck now order
      (handOut { s with pausedSkips := skips } now order tier pre.length) := by
  rw [handOut, hdue.queue, takeAt_eq]
  exact .handed hdue ⟨rfl, rfl⟩ rfl rfl

/-- The loop over the tiers, after some in which all is paused. -/
theorem dequeueFair_spec {done tiers : List PriorityLevel} (skips : ℕ)
    (hsplit : done ++ tiers = priorityTiers) (hfair : ∀ tier ∈ tiers, tier ≠ .CRITICAL)
    (hdone : ∀ tier ∈ done, ∀ r ∈ s.queues tier, r.isPaused pauseCheck = true) :
    s.DequeueSpec pauseCheck now order
      (dequeueFair pauseCheck now order { s with pausedSkips := skips } tiers) := by
  induction tiers generalizing done skips with
  | nil =>
    refine .nothing ?_ ⟨rfl, rfl⟩ rfl rfl
    intro r hr
    obtain ⟨tier, hr⟩ := mem_queued.mp hr
    rw [List.append_nil] at hsplit
    exact hdone tier (hsplit ▸ mem_priorityTiers tier) r hr
  | cons tier tiers ih =>
    have hrest : ∀ tier ∈ tiers, tier ≠ .CRITICAL :=
      fun t ht => hfair t (List.mem_cons_of_mem tier ht)
    have hgo (hall : ∀ r ∈ s.queues tier, r.isPaused pauseCheck = true) (skips : ℕ) :
        s.DequeueSpec pauseCheck now order
          (dequeueFair pauseCheck now order { s with pausedSkips := skips } tiers) := by
      have hsplit' : (done ++ [tier]) ++ tiers = priorityTiers := by simpa using hsplit
      refine ih skips hsplit' hrest ?_
      intro t ht
      rcases List.mem_append.mp ht with ht | ht
      · exact hdone t ht
      · obtain rfl := List.mem_singleton.mp ht
        exact hall
    rw [dequeueFair]
    split
    · next hempty =>
      refine hgo ?_ skips
      intro r hr
      rw [List.isEmpty_iff.mp hempty] at hr
      cases hr
    · obtain ⟨hnone, hall⟩ | ⟨pre, w, post, hq, hdue, hfound⟩ :=
        scan_spec (·.isPaused pauseCheck) s.servedTime (q := s.queues tier)
          fun r _ => servedTime_lt r
      · simp only [servedTime_skips, hnone]
        exact hgo hall _
      · have htimes : s.dueTime tier = s.servedTime := by
          funext r
          exact if_neg (hfair tier List.mem_cons_self)
        have hin : s.DueIn pauseCheck tier pre w post :=
          ⟨hq, htimes ▸ hdue, fun t ht => hdone t (mem_of_value_lt hsplit ht)⟩
        simp only [servedTime_skips, hfound]
        exact handOut_spec hin _

variable (pauseCheck now order) in
theorem dequeue_spec : s.DequeueSpec pauseCheck now order (s.dequeue pauseCheck now order) := by
  rw [dequeue]
  obtain ⟨hnone, hall⟩ | ⟨pre, w, post, hq, hdue, hfound⟩ :=
    findIdx_spec (·.isPaused pauseCheck) timePointMin (s.queues .CRITICAL)
  · simp only [hnone]
    have hsplit : [.CRITICAL] ++ [.HIGH, .NORMAL, .LOW] = priorityTiers := rfl
    exact dequeueFair_spec _ hsplit (by simp) (by simpa using hall)
  · have htimes : s.dueTime .CRITICAL = fun _ => timePointMin := by
      funext r
      exact if_pos rfl
    have hin : s.DueIn pauseCheck .CRITICAL pre w post :=
      ⟨hq, htimes ▸ hdue, fun t ht => by simp [PriorityLevel.value] at ht⟩
    simp only [hfound]
    exact handOut_spec hin _

end Dequeue

theorem drainFrom_spec {done tiers : List PriorityLevel} (hsplit : done ++ tiers = priorityTiers)
    (hdone : ∀ tier ∈ done, s.queues tier = []) : s.DrainSpec (s.drainFrom tiers) := by
  induction tiers generalizing done with
  | nil =>
    refine .nothing ?_
    rw [List.append_nil] at hsplit
    rw [queued, ← hsplit, List.flatMap_eq_nil_iff]
    exact hdone
  | cons tier tiers ih =>
    rw [drainFrom]
    split
    · next hempty =>
      have hsplit' : (done ++ [tier]) ++ tiers = priorityTiers := by simpa using hsplit
      refine ih hsplit' ?_
      intro t ht
      rcases List.mem_append.mp ht with ht | ht
      · exact hdone t ht
      · obtain rfl := List.mem_singleton.mp ht
        exact hempty
    · next hqueue => exact .handed hqueue ⟨rfl, rfl⟩ rfl rfl

theorem drainOne_spec : s.DrainSpec s.drainOne := by
  have hsplit : [] ++ priorityTiers = priorityTiers := rfl
  exact drainFrom_spec hsplit (by simp)

/-! ## The served agents -/

theorem oldestAgent_mem (e : String × SteadyTime) (es : List (String × SteadyTime)) :
    oldestAgent e es ∈ e :: es := by
  induction es generalizing e with
  | nil => exact List.mem_singleton_self e
  | cons e' es ih =>
    rw [oldestAgent]
    split
    · exact List.mem_cons_of_mem e (ih e')
    · rcases List.mem_cons.mp (ih e) with heq | hmem
      · rw [heq]
        exact List.mem_cons_self
      · exact List.mem_cons_of_mem e (List.mem_cons_of_mem e' hmem)

/-- An old entry goes before a new one comes. -/
theorem updateAgentServed_size_le {now : SteadyTime} {order : List (String × SteadyTime)}
    (horder : order.Perm s.agentLastServed.entries)
    (hsize : s.agentLastServed.size ≤ maxAgentTracking) (ctx : RequestContext α) :
    (s.updateAgentServed now order ctx).size ≤ maxAgentTracking := by
  unfold updateAgentServed
  split
  · next htracked =>
    rw [KeyedMap.size_set, if_pos (KeyedMap.find_isSome_iff.mp htracked)]
    exact hsize
  · split
    · next hfull =>
      have hlength : order.length = s.agentLastServed.size := horder.length_eq
      split
      · rw [List.length_nil] at hlength
        rw [← hlength] at hfull
        exact absurd hfull (by decide)
      · next e es =>
        have hmem : (oldestAgent e es).1 ∈ s.agentLastServed.keys :=
          List.mem_map_of_mem (horder.subset (oldestAgent_mem e es))
        have herase := KeyedMap.size_erase hmem
        rw [KeyedMap.size_set]
        split <;> omega
    · next hroom =>
      rw [KeyedMap.size_set]
      split <;> omega

end RequestScheduler

end Ranvier
