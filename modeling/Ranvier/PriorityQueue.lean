import Ranvier.AgentRegistry
import Ranvier.SchedulerRuns

/-!
# The priority queue of a shard

Requests wait in the scheduler for one of the concurrency slots. A background loop takes the
next request out of it, waits for a slot on its behalf and hands it over; with nothing to take
out it waits on a condition variable, which arrivals and resumed agents signal.

* `PriorityShard.step` — requests, control calls and the loop, in any order;
* `StepSpec` — what one of these can do;
* `Blocked`, `waiting_blocked` — a loop that waits on the variable has nothing to do;
* `Ordered`, `grants_in_order` — a slot never goes to a request while a more urgent one waits,
  unless that one came or was resumed after the loop had taken the other out.

Whether the variable remembers a signal that nobody waits for is left open.
-/

namespace Ranvier

/-- Where `process_priority_queue` is. -/
inductive LoopPhase (α : Type) : Type where
  /-- it will run: at its start, behind a turn, or woken -/
  | ready
  /-- suspended on the condition variable, without a signal -/
  | waiting
  /-- suspended for a slot, with the request it has taken out -/
  | holding (ctx : RequestContext α)
  | ended

instance {α : Type} (phase : LoopPhase α) : Decidable (phase = .waiting) :=
  match phase with
  | .waiting => .isTrue rfl
  | .ready | .holding _ | .ended => .isFalse nofun

/-- A slot was handed to a request; who waited then, without being paused. -/
structure SlotGrant (α : Type) : Type where
  ctx : RequestContext α
  waiting : List (RequestContext α)

/-- The part of `HttpController` that hands out slots. -/
structure PriorityShard (α : Type) : Type where
  scheduler : RequestScheduler α
  registry : Option AgentRegistry
  phase : LoopPhase α := .ready
  /-- a signal that nobody has waited for yet -/
  signalled : Bool := false
  /-- the variable is broken and the gate closed -/
  closed : Bool := false
  /-- units of `_request_semaphore` -/
  freeSlots : ℕ
  /-- requests that have a slot -/
  inFlight : ℕ := 0
  /-- requests that came so far; a request's ticket is its number -/
  arrivals : ℕ := 0
  grants : List (SlotGrant α) := []

/-- What happens to it. -/
inductive SlotAction (α : Type) : Type where
  /-- a request is identified and enqueued; `custom` is the header `X-Ranvier-Agent` -/
  | arrive (priority : UInt8) (custom userAgent : String) (request : α) (now : SteadyTime)
      (agentOrder : List (String × AgentInfo)) (kept : Bool)
  /-- a request gives its slot back -/
  | depart
  | pause (id : String)
  | resume (id : String) (kept : Bool)
  /-- the loop runs up to its next suspension -/
  | turn (now : SteadyTime) (order : List (String × SteadyTime))
  /-- it gets the slot it waits for -/
  | grant
  /-- `get_units` fails -/
  | failSlot
  | shutDown

/-- The loop of `drain_one` at the end. -/
def RequestScheduler.drainAll {α : Type} : ℕ → RequestScheduler α → RequestScheduler α
  | 0, s => s
  | fuel + 1, s =>
    match s.drainOne with
    | (some _, s) => drainAll fuel s
    | (none, s) => s

/-- What `enqueue` asks for. -/
def RequestScheduler.hasRoomFor {α : Type} (s : RequestScheduler α) (ctx : RequestContext α) :
    Bool :=
  (s.queues ctx.tier).length < s.tierCapacity ctx.tier &&
    (ctx.agentId.isEmpty || s.countAgentQueued ctx.agentId < s.maxPerAgentQueued)

namespace PriorityShard

variable {α : Type}

/-- The constructor and the start of the loop. -/
def start (settings : SchedulerSettings) (config : Option AgentRegistryConfig) (slots : ℕ) :
    PriorityShard α where
  scheduler := .new settings
  registry := config.map AgentRegistry.new
  freeSlots := slots

variable (s : PriorityShard α)

/-- `_queue_cv.signal()`. -/
def signal (kept : Bool) : PriorityShard α :=
  match s.phase with
  | .waiting => { s with phase := .ready }
  | _ => { s with signalled := s.signalled || kept }

/-- Whether the scheduler would skip a request. -/
def skips (r : RequestContext α) : Bool := r.isPaused (pauseCheckOf s.registry)

/-- The agent of a request, and the registry that may have learned of it. -/
def identify (agentOrder : List (String × AgentInfo)) (custom userAgent : String) :
    String × Option AgentRegistry :=
  match s.registry with
  | none => ("", none)
  | some r =>
    match r.identifyAgent agentOrder custom userAgent with
    | (id, r) => (id.getD "", some r)

/-- The stub that `acquire_concurrency_slot` makes. -/
def stub (priority : UInt8) (custom userAgent : String) (request : α)
    (agentOrder : List (String × AgentInfo)) : RequestContext α where
  ticket := s.arrivals
  priority := priority
  userAgent := userAgent
  agentId := (s.identify agentOrder custom userAgent).1
  request := request

/-- `handle_proxy` from the identification on, up to the wait for a slot. -/
def arrive (priority : UInt8) (custom userAgent : String) (request : α) (now : SteadyTime)
    (agentOrder : List (String × AgentInfo)) (kept : Bool) : PriorityShard α :=
  let found := s.identify agentOrder custom userAgent
  match s.scheduler.enqueue now (s.stub priority custom userAgent request agentOrder) with
  | (accepted, scheduler) =>
    let s := { s with scheduler, registry := found.2, arrivals := s.arrivals + 1 }
    if accepted then s.signal kept else s

/-- One turn of the loop, from its test of the gate on. -/
def loopTurn (now : SteadyTime) (order : List (String × SteadyTime)) : PriorityShard α :=
  if s.closed then
    { s with
      scheduler := s.scheduler.drainAll s.scheduler.queued.length
      phase := .ended }
  else
    match s.scheduler.dequeue (pauseCheckOf s.registry) now order with
    | (some ctx, scheduler) => { s with scheduler, phase := .holding ctx }
    | (none, scheduler) =>
      if s.signalled then { s with scheduler, signalled := false }
      else { s with scheduler, phase := .waiting }

/-- The slot is there: the request that waits for it goes on. -/
def grantTo (ctx : RequestContext α) : PriorityShard α :=
  { s with
    phase := .ready
    freeSlots := s.freeSlots - 1
    inFlight := s.inFlight + 1
    grants := s.grants ++ [⟨ctx, s.scheduler.queued.filter fun r => !s.skips r⟩] }

/-- One action. -/
def step (s : PriorityShard α) : SlotAction α → Option (PriorityShard α)
  | .arrive priority custom userAgent request now agentOrder kept =>
    if ∀ r ∈ s.registry, agentOrder.Perm r.agents.entries then
      some (s.arrive priority custom userAgent request now agentOrder kept)
    else none
  | .depart =>
    if 0 < s.inFlight then
      some { s with freeSlots := s.freeSlots + 1, inFlight := s.inFlight - 1 }
    else none
  | .pause id => some { s with registry := (handlePauseAgent s.registry id).2 }
  | .resume id kept =>
    match handleResumeAgent s.registry id with
    | (.resumed, registry) => some ({ s with registry }.signal kept)
    | (_, registry) => some { s with registry }
  | .turn now order =>
    match s.phase with
    | .ready =>
      if order.Perm s.scheduler.agentLastServed.entries then some (s.loopTurn now order) else none
    | _ => none
  | .grant =>
    match s.phase with
    | .holding ctx => if 0 < s.freeSlots then some (s.grantTo ctx) else none
    | _ => none
  | .failSlot =>
    match s.phase with
    | .holding _ => some { s with phase := .ready }
    | _ => none
  | .shutDown =>
    match s.phase with
    | .waiting => some { s with phase := .ready, closed := true }
    | _ => some { s with closed := true }

/-! ## One action -/

variable {s}

/-- What a signal leaves of a phase: a loop that waited will run. -/
def Woken (phase phase' : LoopPhase α) : Prop :=
  phase' = .ready ∨ phase' = phase ∧ phase ≠ .waiting

/-- What an action can do. -/
inductive StepSpec (s s' : PriorityShard α) : SlotAction α → Prop where
  /-- nothing new is queued, and nobody paused or resumed -/
  | quiet {a : SlotAction α}
      (hqueues : ∀ tier, s'.scheduler.queues tier ⊆ s.scheduler.queues tier)
      (hskips : s'.skips = s.skips)
      (hphase : s'.phase = s.phase ∨ s'.phase = .ready ∨ s'.phase = .ended)
      (hgrants : s'.grants = s.grants) (harrivals : s.arrivals ≤ s'.arrivals) : StepSpec s s' a
  | accepted {priority : UInt8} {custom userAgent : String} {request : α} {now : SteadyTime}
      {agentOrder : List (String × AgentInfo)} {kept : Bool} {r : RequestContext α}
      (hr : r = { s.stub priority custom userAgent request agentOrder with
        enqueueTime := some now })
      (hroom : s.scheduler.hasRoomFor (s.stub priority custom userAgent request agentOrder))
      (hqueues : s'.scheduler.queues =
        Function.update s.scheduler.queues r.tier (s.scheduler.queues r.tier ++ [r]))
      (hskips : s'.skips = s.skips) (hphase : Woken s.phase s'.phase)
      (hgrants : s'.grants = s.grants) (harrivals : s'.arrivals = s.arrivals + 1) :
      StepSpec s s' (.arrive priority custom userAgent request now agentOrder kept)
  | paused {id : String} (hscheduler : s'.scheduler = s.scheduler)
      (hskips : ∀ r, s.skips r = true → s'.skips r = true) (hphase : s'.phase = s.phase)
      (hgrants : s'.grants = s.grants) (harrivals : s'.arrivals = s.arrivals) :
      StepSpec s s' (.pause id)
  | resumed {id : String} {kept : Bool} (hscheduler : s'.scheduler = s.scheduler)
      (hskips : ∀ r, r.agentId ≠ id → s'.skips r = s.skips r) (hphase : Woken s.phase s'.phase)
      (hgrants : s'.grants = s.grants) (harrivals : s'.arrivals = s.arrivals) :
      StepSpec s s' (.resume id kept)
  /-- there was nothing to take out -/
  | idle {now : SteadyTime} {order : List (String × SteadyTime)}
      (hqueues : s'.scheduler.queues = s.scheduler.queues) (hskips : s'.skips = s.skips)
      (hall : ∀ r ∈ s.scheduler.queued, s.skips r = true) (hphase : s'.phase = .waiting)
      (hgrants : s'.grants = s.grants) (harrivals : s'.arrivals = s.arrivals) :
      StepSpec s s' (.turn now order)
  /-- a request was taken out, and none of a more urgent tier could be -/
  | taken {now : SteadyTime} {order : List (String × SteadyTime)} {ctx : RequestContext α}
      {tier : PriorityLevel} (hmem : ctx ∈ s.scheduler.queues tier) (hctx : s.skips ctx = false)
      (hhigher : ∀ tier', tier'.value < tier.value →
        ∀ r ∈ s.scheduler.queues tier', s.skips r = true)
      (hqueues : ∀ tier, s'.scheduler.queues tier ⊆ s.scheduler.queues tier)
      (hskips : s'.skips = s.skips) (hphase : s'.phase = .holding ctx)
      (hgrants : s'.grants = s.grants) (harrivals : s'.arrivals = s.arrivals) :
      StepSpec s s' (.turn now order)
  | granted {ctx : RequestContext α} (hphase : s.phase = .holding ctx)
      (hnext : s' = s.grantTo ctx) : StepSpec s s' .grant

theorem skips_eq_of_isPaused {s' : PriorityShard α}
    (h : pauseCheckOf s'.registry = pauseCheckOf s.registry) : s'.skips = s.skips := by
  funext r
  rw [skips, skips, h]

/-- Who is identified is neither paused nor resumed. -/
theorem pauseCheckOf_identify (agentOrder : List (String × AgentInfo))
    (custom userAgent : String) :
    pauseCheckOf (s.identify agentOrder custom userAgent).2 = pauseCheckOf s.registry := by
  rw [identify]
  cases s.registry with
  | none => rfl
  | some r => exact congrArg some (AgentRegistry.isPaused_identifyAgent agentOrder custom userAgent)

theorem signal_phase (kept : Bool) : Woken s.phase (s.signal kept).phase := by
  rw [signal]
  split
  · exact Or.inl rfl
  · next hphase => exact Or.inr ⟨rfl, hphase⟩

/-- A signal concerns the loop only. -/
theorem signal_frame (kept : Bool) :
    (s.signal kept).scheduler = s.scheduler ∧ (s.signal kept).registry = s.registry ∧
      (s.signal kept).grants = s.grants ∧ (s.signal kept).arrivals = s.arrivals := by
  rw [signal]
  split <;> exact ⟨rfl, rfl, rfl, rfl⟩

theorem arrive_spec (priority : UInt8) (custom userAgent : String) (request : α)
    (now : SteadyTime) (agentOrder : List (String × AgentInfo)) (kept : Bool) :
    StepSpec s (s.arrive priority custom userAgent request now agentOrder kept)
      (.arrive priority custom userAgent request now agentOrder kept) := by
  have hcheck := s.pauseCheckOf_identify agentOrder custom userAgent
  have hspec := s.scheduler.enqueue_spec now (s.stub priority custom userAgent request agentOrder)
  rw [arrive]
  generalize s.scheduler.enqueue now _ = result at hspec ⊢
  cases hspec with
  | rejected _ _ hqueues =>
    refine .quiet ?_ (skips_eq_of_isPaused hcheck) (Or.inl rfl) rfl (Nat.le_succ _)
    intro tier
    rw [← hqueues]
    exact List.Subset.refl _
  | @accepted scheduler hroom hagent _ hqueues =>
    have hroom' : s.scheduler.hasRoomFor
        (s.stub priority custom userAgent request agentOrder) = true := by
      simp only [RequestScheduler.hasRoomFor, Bool.and_eq_true, Bool.or_eq_true,
        decide_eq_true_eq, String.isEmpty_iff]
      exact ⟨hroom, or_iff_not_imp_left.mpr hagent⟩
    -- the state that is signalled
    let next : PriorityShard α :=
      { s with
        scheduler
        registry := (s.identify agentOrder custom userAgent).2
        arrivals := s.arrivals + 1 }
    obtain ⟨hscheduler, hregistry, hgrants, harrivals⟩ := next.signal_frame kept
    change StepSpec s (next.signal kept) _
    refine .accepted rfl hroom' ?_ ?_ (next.signal_phase kept) hgrants harrivals
    · rw [hscheduler]
      exact hqueues
    · refine skips_eq_of_isPaused ?_
      rw [hregistry]
      exact hcheck

theorem pause_spec (id : String) :
    StepSpec s { s with registry := (handlePauseAgent s.registry id).2 } (.pause id) := by
  obtain ⟨-, hsame⟩ | ⟨-, -, r, r', hr, hr', hpaused⟩ := handlePauseAgent_spec s.registry id
  · rw [hsame]
    exact .paused rfl (fun _ h => h) rfl rfl rfl
  · refine .paused rfl ?_ rfl rfl rfl
    intro ctx hctx
    rw [skips, hr] at hctx
    simp only [skips, hr', RequestContext.isPaused, pauseCheckOf, Option.map_some,
      Bool.and_eq_true] at hctx ⊢
    refine ⟨hctx.1, ?_⟩
    rw [hpaused]
    by_cases heq : ctx.agentId = id
    · rw [heq, Function.update_self]
    · rw [Function.update_of_ne heq]
      exact hctx.2

theorem resume_spec {s' : PriorityShard α} {id : String} {kept : Bool}
    (h : s.step (.resume id kept) = some s') : StepSpec s s' (.resume id kept) := by
  have hspec := handleResumeAgent_spec s.registry id
  rw [step] at h
  generalize handleResumeAgent s.registry id = result at h hspec
  obtain ⟨reply, registry⟩ := result
  obtain ⟨hreply, hsame⟩ | ⟨hreply, r, r', hr, hr', hpaused⟩ := hspec
  · have hs' : s' = { s with registry } := by
      cases reply <;> first | exact absurd rfl hreply | exact (Option.some.inj h).symm
    obtain rfl : registry = s.registry := hsame
    rw [hs']
    exact .quiet (fun _ => List.Subset.refl _) rfl (Or.inl rfl) rfl (le_refl _)
  · obtain rfl : reply = .resumed := hreply
    obtain rfl := Option.some.inj h
    obtain ⟨hscheduler, hregistry, hgrants, harrivals⟩ :=
      ({ s with registry } : PriorityShard α).signal_frame kept
    refine .resumed hscheduler ?_ (signal_phase kept) hgrants harrivals
    intro ctx hctx
    rw [skips, skips, hregistry, hr]
    change ctx.isPaused (pauseCheckOf registry) = _
    obtain rfl : registry = some r' := hr'
    simp only [RequestContext.isPaused, pauseCheckOf, Option.map_some, hpaused,
      Function.update_of_ne hctx]

theorem update_subset {queues : PriorityLevel → List (RequestContext α)} {tier : PriorityLevel}
    {q : List (RequestContext α)} (h : q ⊆ queues tier) (t : PriorityLevel) :
    Function.update queues tier q t ⊆ queues t :=
  RequestScheduler.forall_update (P := fun t q => q ⊆ queues t) h
    (fun _ _ => List.Subset.refl _) t

theorem drainAll_subset (fuel : ℕ) (scheduler : RequestScheduler α) (tier : PriorityLevel) :
    (scheduler.drainAll fuel).queues tier ⊆ scheduler.queues tier := by
  induction fuel generalizing scheduler with
  | zero => exact List.Subset.refl _
  | succ fuel ih =>
    rw [RequestScheduler.drainAll]
    have hspec := scheduler.drainOne_spec
    generalize scheduler.drainOne = result at hspec ⊢
    cases hspec with
    | nothing => exact List.Subset.refl _
    | @handed scheduler' front _ rest hqueue _ hqueues =>
      refine List.Subset.trans (ih scheduler') ?_
      rw [hqueues]
      refine update_subset ?_ tier
      rw [hqueue]
      exact List.subset_cons_self _ _

/-- As many turns as requests are queued leave none. -/
theorem drainAll_queued {fuel : ℕ} {scheduler : RequestScheduler α}
    (h : scheduler.queued.length ≤ fuel) : (scheduler.drainAll fuel).queued = [] := by
  induction fuel generalizing scheduler with
  | zero => exact List.length_eq_zero_iff.mp (Nat.le_zero.mp h)
  | succ fuel ih =>
    rw [RequestScheduler.drainAll]
    have hspec := scheduler.drainOne_spec
    generalize scheduler.drainOne = result at hspec ⊢
    cases hspec with
    | nothing hempty => exact hempty
    | @handed scheduler' front ctx rest hqueue _ hqueues =>
      have hperm : scheduler.queued.Perm (ctx :: scheduler'.queued) := by
        rw [RequestScheduler.queued, RequestScheduler.queued, hqueues]
        exact RequestScheduler.flatMap_update_perm (hqueue ▸ List.Perm.refl _)
      rw [hperm.length_eq, List.length_cons] at h
      exact ih (Nat.le_of_succ_le_succ h)

theorem loopTurn_spec (now : SteadyTime) (order : List (String × SteadyTime)) :
    StepSpec s (s.loopTurn now order) (.turn now order) := by
  rw [loopTurn]
  split
  · exact .quiet (drainAll_subset _ _) rfl (Or.inr (Or.inr rfl)) rfl (le_refl _)
  · have hspec := s.scheduler.dequeue_spec (pauseCheckOf s.registry) now order
    generalize s.scheduler.dequeue (pauseCheckOf s.registry) now order = result at hspec ⊢
    cases hspec with
    | @nothing scheduler hpaused _ hqueues =>
      dsimp only
      split
      · refine .quiet ?_ rfl (Or.inl rfl) rfl (le_refl _)
        intro tier
        rw [← hqueues]
        exact List.Subset.refl _
      · exact .idle hqueues rfl hpaused rfl rfl rfl
    | @handed scheduler tier pre post w hdue _ hqueues =>
      have hmem : w ∈ s.scheduler.queues tier := by
        rw [hdue.queue]
        exact List.mem_append_right pre List.mem_cons_self
      refine .taken hmem ?_ hdue.higher ?_ rfl rfl rfl rfl
      · exact hdue.due.unskipped
      · intro tier'
        change scheduler.queues tier' ⊆ _
        rw [hqueues]
        refine update_subset ?_ tier'
        rw [hdue.queue]
        exact fun r hr => (perm_cons_closeGap pre w post).mem_iff.mpr (List.mem_cons_of_mem w hr)

/-- Nothing else happens. -/
theorem step_spec {s' : PriorityShard α} {a : SlotAction α} (h : s.step a = some s') :
    StepSpec s s' a := by
  cases a with
  | arrive priority custom userAgent request now agentOrder kept =>
    rw [step] at h
    split at h
    · obtain rfl := Option.some.inj h
      exact arrive_spec priority custom userAgent request now agentOrder kept
    · cases h
  | depart =>
    rw [step] at h
    split at h
    · obtain rfl := Option.some.inj h
      exact .quiet (fun _ => List.Subset.refl _) rfl (Or.inl rfl) rfl (le_refl _)
    · cases h
  | pause id =>
    obtain rfl := Option.some.inj h
    exact pause_spec id
  | resume id kept => exact resume_spec h
  | turn now order =>
    rw [step] at h
    split at h
    · split at h
      · obtain rfl := Option.some.inj h
        exact loopTurn_spec now order
      · cases h
    · cases h
  | grant =>
    rw [step] at h
    split at h
    · next ctx hphase =>
      split at h
      · exact .granted hphase (Option.some.inj h).symm
      · cases h
    · cases h
  | failSlot =>
    rw [step] at h
    split at h
    · obtain rfl := Option.some.inj h
      exact .quiet (fun _ => List.Subset.refl _) rfl (Or.inr (Or.inl rfl)) rfl (le_refl _)
    · cases h
  | shutDown =>
    rw [step] at h
    split at h
    · obtain rfl := Option.some.inj h
      exact .quiet (fun _ => List.Subset.refl _) rfl (Or.inr (Or.inl rfl)) rfl (le_refl _)
    · obtain rfl := Option.some.inj h
      exact .quiet (fun _ => List.Subset.refl _) rfl (Or.inl rfl) rfl (le_refl _)

/-! ## A loop that waits -/

theorem mem_queued_of_subset {scheduler scheduler' : RequestScheduler α}
    (h : ∀ tier, scheduler'.queues tier ⊆ scheduler.queues tier) {r : RequestContext α}
    (hr : r ∈ scheduler'.queued) : r ∈ scheduler.queued := by
  obtain ⟨tier, hr⟩ := RequestScheduler.mem_queued.mp hr
  exact RequestScheduler.mem_queued.mpr ⟨tier, h tier hr⟩

theorem Woken.holding {phase phase' : LoopPhase α} (h : Woken phase phase')
    {ctx : RequestContext α} (hctx : phase' = .holding ctx) : phase = .holding ctx := by
  rcases h with h | ⟨h, -⟩
  · cases h.symm.trans hctx
  · exact h.symm.trans hctx

/-- The phases that a quiet action can lead to. -/
theorem holding_of_quiet {phase phase' : LoopPhase α}
    (h : phase' = phase ∨ phase' = .ready ∨ phase' = .ended) {ctx : RequestContext α}
    (hctx : phase' = .holding ctx) : phase = .holding ctx := by
  rcases h with h | h | h
  · exact h.symm.trans hctx
  · cases h.symm.trans hctx
  · cases h.symm.trans hctx

theorem Woken.ne_waiting {phase phase' : LoopPhase α} (h : Woken phase phase') :
    phase' ≠ .waiting := by
  rcases h with h | ⟨h, hwait⟩
  · rw [h]
    exact nofun
  · rw [h]
    exact hwait

/-- No signal is missed: while the loop waits, all that is queued would be skipped. -/
def Blocked (s : PriorityShard α) : Prop :=
  s.phase = .waiting → ∀ r ∈ s.scheduler.queued, s.skips r = true

theorem Blocked.step {s' : PriorityShard α} {a : SlotAction α} (h : Blocked s)
    (hstep : s.step a = some s') : Blocked s' := by
  intro hwait r hr
  cases step_spec hstep with
  | quiet hqueues hskips hphase =>
    have hphase' : s.phase = .waiting := by
      rcases hphase with hphase | hphase | hphase
      · rw [← hphase, hwait]
      · cases hwait.symm.trans hphase
      · cases hwait.symm.trans hphase
    rw [hskips]
    exact h hphase' r (mem_queued_of_subset hqueues hr)
  | accepted _ _ _ _ hphase => exact absurd hwait hphase.ne_waiting
  | paused hscheduler hskips hphase =>
    rw [hscheduler] at hr
    exact hskips r (h (hphase ▸ hwait) r hr)
  | resumed _ _ hphase => exact absurd hwait hphase.ne_waiting
  | idle hqueues hskips hall =>
    rw [hskips]
    refine hall r (mem_queued_of_subset ?_ hr)
    intro tier
    rw [hqueues]
    exact List.Subset.refl _
  | taken _ _ _ _ _ hphase => cases hwait.symm.trans hphase
  | granted _ hnext =>
    rw [hnext] at hwait
    cases hwait

/-- **No lost wake-up.** Whatever happened on a shard, a loop that is suspended on the
condition variable with no signal has nothing to do: every request in the queues is of an
agent that is paused. -/
theorem waiting_blocked (settings : SchedulerSettings) (config : Option AgentRegistryConfig)
    (slots : ℕ) {actions : List (SlotAction α)} {s : PriorityShard α}
    (hexec : exec step (start settings config slots) actions = some s)
    (hwait : s.phase = .waiting) :
    ∀ r ∈ s.scheduler.queued, ∃ registry ∈ s.registry, registry.isPaused r.agentId = true := by
  have hblocked : Blocked s := by
    refine exec_induction (I := fun _ s => Blocked s) (fun hstep h => h.step hstep) (h := [])
      hexec ?_
    intro hstart
    cases hstart
  intro r hr
  have hskips := hblocked hwait r hr
  cases hregistry : s.registry with
  | none =>
    rw [skips, hregistry] at hskips
    cases hskips
  | some registry =>
    simp only [skips, hregistry, RequestContext.isPaused, pauseCheckOf, Option.map_some,
      Bool.and_eq_true] at hskips
    exact ⟨registry, rfl, hskips.2⟩

/-- A registry that knows one agent. -/
def oneAgent : AgentRegistryConfig where
  knownAgents := [⟨"aider", "Aider", 1, true⟩]

/-- The agent of `oneAgent`, when it is paused. -/
def aiderPaused : String × AgentInfo :=
  ("aider", ⟨"aider", "Aider", "aider", .HIGH, true, true⟩)

/-- The agent is paused, and behind its request another one gets a slot. -/
def pausedAhead : List (SlotAction Unit) :=
  [.pause "aider",
    .arrive 1 "" "aider/0.5" () SchedulerRun.bootTime [aiderPaused] true,
    .arrive 3 "" "" () SchedulerRun.bootTime [aiderPaused] true,
    .turn SchedulerRun.bootTime [], .grant,
    .turn SchedulerRun.bootTime [("unknown", SchedulerRun.bootTime)],
    .turn SchedulerRun.bootTime [("unknown", SchedulerRun.bootTime)]]

theorem waiting_blocked_pausedAhead :
    ∃ s, exec step (start {} (some oneAgent) 1) pausedAhead = some s ∧ s.phase = .waiting ∧
      s.scheduler.queued.map RequestContext.agentId = ["aider"] ∧
      ∀ r ∈ s.scheduler.queued, ∃ registry ∈ s.registry, registry.isPaused r.agentId = true := by
  have hexec := exec_eq_some_getD
    (by decide : (exec step (start {} (some oneAgent) 1) pausedAhead).isSome)
  have hwait : ((exec step (start {} (some oneAgent) 1) pausedAhead).getD
      (start {} (some oneAgent) 1)).phase = .waiting := by
    decide
  exact ⟨_, hexec, hwait, by decide, waiting_blocked {} (some oneAgent) 1 hexec hwait⟩

/-! ## Who gets a slot -/

/-- The request is more urgent than the one that the loop holds. -/
def moreUrgent (s : PriorityShard α) (r : RequestContext α) : Bool :=
  match s.phase with
  | .holding ctx => r.tier.value < ctx.tier.value
  | _ => false

/-- While the loop waits for a slot, a more urgent request than the one it holds comes into
the queue or is paused no longer. -/
def disturbedBy (s : PriorityShard α) : SlotAction α → Bool
  | .arrive priority custom userAgent request _ agentOrder _ =>
    let r := s.stub priority custom userAgent request agentOrder
    s.moreUrgent r && !s.skips r && s.scheduler.hasRoomFor r
  | .resume id _ =>
    s.scheduler.queued.any fun r => s.moreUrgent r && s.skips r && r.agentId = id
  | _ => false

/-- Nothing more urgent waits behind a request that the loop holds, nor was it so when a slot
was given away. -/
structure Ordered (s : PriorityShard α) : Prop where
  filed : ∀ tier, ∀ r ∈ s.scheduler.queues tier, r.tier = tier
  held : ∀ r ∈ s.scheduler.queued, s.moreUrgent r = true → s.skips r = true
  granted : ∀ g ∈ s.grants, ∀ r ∈ g.waiting, ¬r.tier.value < g.ctx.tier.value

theorem moreUrgent_iff {r : RequestContext α} :
    s.moreUrgent r = true ↔ ∃ ctx, s.phase = .holding ctx ∧ r.tier.value < ctx.tier.value := by
  rw [moreUrgent]
  cases s.phase <;> simp

/-- A loop that holds nothing new. -/
theorem moreUrgent_of_holding {s' : PriorityShard α}
    (h : ∀ {ctx}, s'.phase = .holding ctx → s.phase = .holding ctx) {r : RequestContext α}
    (hr : s'.moreUrgent r = true) : s.moreUrgent r = true := by
  obtain ⟨ctx, hctx, hlt⟩ := moreUrgent_iff.mp hr
  exact moreUrgent_iff.mpr ⟨ctx, h hctx, hlt⟩

theorem filed_of_subset {scheduler scheduler' : RequestScheduler α}
    (hqueues : ∀ tier, scheduler'.queues tier ⊆ scheduler.queues tier)
    (h : ∀ tier, ∀ r ∈ scheduler.queues tier, r.tier = tier) :
    ∀ tier, ∀ r ∈ scheduler'.queues tier, r.tier = tier :=
  fun tier r hr => h tier r (hqueues tier hr)

theorem Ordered.accept {s' : PriorityShard α} {r : RequestContext α} (h : Ordered s)
    (hr : s.moreUrgent r = true → s.skips r = true)
    (hqueues : s'.scheduler.queues =
      Function.update s.scheduler.queues r.tier (s.scheduler.queues r.tier ++ [r]))
    (hskips : s'.skips = s.skips) (hphase : Woken s.phase s'.phase)
    (hgrants : s'.grants = s.grants) : Ordered s' := by
  have hnew : ∀ tier, ∀ r' ∈ s'.scheduler.queues tier,
      r' ∈ s.scheduler.queues tier ∨ r' = r ∧ tier = r.tier := by
    rw [hqueues]
    refine RequestScheduler.forall_update (P := fun tier q => ∀ r' ∈ q,
      r' ∈ s.scheduler.queues tier ∨ r' = r ∧ tier = r.tier) ?_ ?_
    · intro r' hr'
      rcases List.mem_append.mp hr' with hr' | hr'
      · exact Or.inl hr'
      · exact Or.inr ⟨List.mem_singleton.mp hr', rfl⟩
    · intro tier _ r' hr'
      exact Or.inl hr'
  refine ⟨?_, ?_, hgrants ▸ h.granted⟩
  · intro tier r' hr'
    rcases hnew tier r' hr' with hold | ⟨rfl, htier⟩
    · exact h.filed tier r' hold
    · exact htier.symm
  · intro r' hr' hurgent
    obtain ⟨tier, hr'⟩ := RequestScheduler.mem_queued.mp hr'
    have hurgent' := moreUrgent_of_holding hphase.holding hurgent
    rw [hskips]
    rcases hnew tier r' hr' with hold | ⟨rfl, -⟩
    · exact h.held r' (RequestScheduler.mem_queued.mpr ⟨tier, hold⟩) hurgent'
    · exact hr hurgent'

theorem Ordered.grantTo {ctx : RequestContext α} (h : Ordered s) (hphase : s.phase = .holding ctx) :
    Ordered (s.grantTo ctx) := by
  refine ⟨h.filed, ?_, ?_⟩
  · intro r _ hurgent
    cases hurgent
  · intro g hg
    rcases List.mem_append.mp hg with hg | hg
    · exact h.granted g hg
    · obtain rfl := List.mem_singleton.mp hg
      intro r hr hlt
      obtain ⟨hr, hskips⟩ := List.mem_filter.mp hr
      have hheld := h.held r hr (moreUrgent_iff.mpr ⟨ctx, hphase, hlt⟩)
      rw [hheld] at hskips
      cases hskips

theorem Ordered.step {s' : PriorityShard α} {a : SlotAction α} (h : Ordered s)
    (hundisturbed : s.disturbedBy a = false) (hstep : s.step a = some s') : Ordered s' := by
  cases step_spec hstep with
  | quiet hqueues hskips hphase hgrants =>
    refine ⟨filed_of_subset hqueues h.filed, ?_, hgrants ▸ h.granted⟩
    intro r hr hurgent
    rw [hskips]
    exact h.held r (mem_queued_of_subset hqueues hr)
      (moreUrgent_of_holding (holding_of_quiet hphase) hurgent)
  | @accepted priority custom userAgent request now agentOrder kept r hr hroom hqueues hskips
      hphase hgrants =>
    refine h.accept ?_ hqueues hskips hphase hgrants
    intro hurgent
    by_contra hskip
    -- the time of its arrival is not looked at
    obtain rfl := hr
    have hdisturbs : s.disturbedBy
        (.arrive priority custom userAgent request now agentOrder kept) = true := by
      simp only [disturbedBy, Bool.and_eq_true, Bool.not_eq_true']
      exact ⟨⟨hurgent, Bool.not_eq_true _ ▸ hskip⟩, hroom⟩
    cases hundisturbed.symm.trans hdisturbs
  | paused hscheduler hskips hphase hgrants =>
    refine ⟨hscheduler ▸ h.filed, ?_, hgrants ▸ h.granted⟩
    intro r hr hurgent
    rw [hscheduler] at hr
    have hurgent' := moreUrgent_of_holding (fun hctx => hphase.symm.trans hctx) hurgent
    exact hskips r (h.held r hr hurgent')
  | @resumed id kept hscheduler hskips hphase hgrants =>
    refine ⟨hscheduler ▸ h.filed, ?_, hgrants ▸ h.granted⟩
    intro r hr hurgent
    rw [hscheduler] at hr
    have hurgent' := moreUrgent_of_holding hphase.holding hurgent
    have hbefore := h.held r hr hurgent'
    by_cases heq : r.agentId = id
    · have hdisturbs : s.disturbedBy (.resume id kept) = true := by
        refine List.any_eq_true.mpr ⟨r, hr, ?_⟩
        simp only [Bool.and_eq_true, decide_eq_true_eq]
        exact ⟨⟨hurgent', hbefore⟩, heq⟩
      cases hundisturbed.symm.trans hdisturbs
    · rw [hskips r heq]
      exact hbefore
  | idle hqueues hskips _ hphase hgrants =>
    refine ⟨hqueues ▸ h.filed, ?_, hgrants ▸ h.granted⟩
    intro r _ hurgent
    obtain ⟨ctx, hctx, -⟩ := moreUrgent_iff.mp hurgent
    cases hphase.symm.trans hctx
  | @taken now order ctx tier hmem _ hhigher hqueues hskips hphase hgrants =>
    refine ⟨filed_of_subset hqueues h.filed, ?_, hgrants ▸ h.granted⟩
    intro r hr hurgent
    obtain ⟨ctx', hctx, hlt⟩ := moreUrgent_iff.mp hurgent
    obtain rfl : ctx = ctx' := LoopPhase.holding.inj (hphase.symm.trans hctx)
    obtain ⟨tier', hr⟩ := RequestScheduler.mem_queued.mp hr
    have hr' := hqueues tier' hr
    rw [h.filed tier' r hr', h.filed tier ctx hmem] at hlt
    rw [hskips]
    exact hhigher tier' hlt r hr'
  | granted hphase hnext =>
    rw [hnext]
    exact h.grantTo hphase

theorem ordered_start (settings : SchedulerSettings) (config : Option AgentRegistryConfig)
    (slots : ℕ) : Ordered (start settings config slots : PriorityShard α) where
  filed _ _ hr := by cases hr
  held _ _ hurgent := by cases hurgent
  granted _ hg := by cases hg

/-- **Slots go by priority**, as long as nothing more urgent comes or is resumed while the
loop waits for a slot: no slot was given to a request while an unpaused one of a more urgent
tier was queued. -/
theorem grants_in_order (settings : SchedulerSettings) (config : Option AgentRegistryConfig)
    (slots : ℕ) {actions : List (SlotAction α)} {s : PriorityShard α}
    (hundisturbed : Meets step (fun s a => s.disturbedBy a = false)
      (start settings config slots) actions)
    (hexec : exec step (start settings config slots) actions = some s) :
    ∀ g ∈ s.grants, ∀ r ∈ g.waiting, ¬r.tier.value < g.ctx.tier.value := by
  have hordered : Ordered s :=
    exec_invariant (I := fun _ s => Ordered s) (fun hok hstep h => h.step hok hstep) (h := [])
      hundisturbed hexec (ordered_start settings config slots)
  exact hordered.granted

/-- A more urgent request comes before the loop takes the next one out, a less urgent one
while it waits for a slot. -/
def urgentInTime : List (SlotAction Unit) :=
  [.arrive 2 "" "" () SchedulerRun.bootTime [] true, .turn SchedulerRun.bootTime [], .grant,
    .arrive 2 "" "" () SchedulerRun.bootTime [] true,
    .arrive 0 "" "" () SchedulerRun.bootTime [] true,
    .turn SchedulerRun.bootTime [("unknown", SchedulerRun.bootTime)],
    .arrive 3 "" "" () SchedulerRun.bootTime [] true, .depart, .grant]

theorem grants_in_order_urgentInTime :
    ∃ s, exec step (start {} none 1) urgentInTime = some s ∧
      s.grants.map (fun g => (g.ctx.ticket, g.waiting.map RequestContext.ticket)) =
        [(0, []), (2, [1, 3])] ∧
      ∀ g ∈ s.grants, ∀ r ∈ g.waiting, ¬r.tier.value < g.ctx.tier.value := by
  have hexec := exec_eq_some_getD
    (by decide : (exec step (start {} none 1) urgentInTime).isSome)
  exact ⟨_, hexec, by decide, grants_in_order {} none 1 (by decide) hexec⟩

/-- The urgent request comes while the loop already waits for a slot. -/
def urgentTooLate : List (SlotAction Unit) :=
  [.arrive 2 "" "" () SchedulerRun.bootTime [] true, .turn SchedulerRun.bootTime [], .grant,
    .arrive 3 "" "" () SchedulerRun.bootTime [] true,
    .turn SchedulerRun.bootTime [("unknown", SchedulerRun.bootTime)],
    .arrive 0 "" "" () SchedulerRun.bootTime [] true, .depart, .grant]

/-- **The slip.** The slot that becomes free goes to the LOW request that the loop has taken
out before, and the CRITICAL one goes on waiting. -/
theorem urgentTooLate_passed_over :
    ∃ s, exec step (start {} none 1) urgentTooLate = some s ∧
      s.grants.map (fun g => (g.ctx.tier, g.waiting.map RequestContext.tier)) =
        [(.NORMAL, []), (.LOW, [.CRITICAL])] ∧
      ¬ ∀ g ∈ s.grants, ∀ r ∈ g.waiting, ¬r.tier.value < g.ctx.tier.value := by
  have hexec := exec_eq_some_getD
    (by decide : (exec step (start {} none 1) urgentTooLate).isSome)
  exact ⟨_, hexec, by decide, by decide⟩

end PriorityShard

end Ranvier
