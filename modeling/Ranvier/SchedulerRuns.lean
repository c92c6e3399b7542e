import Ranvier.RequestScheduler
import Ranvier.Run

/-!
# Runs of the request scheduler

Calls of `enqueue`, `dequeue` and `drain_one` in any order; each `dequeue` comes with its
own answers to the question which agents are paused. Every `enqueue` brings an object of
its own, and its ticket is the number of the call.

* `StepSpec` — what a call can do, read off the specifications of the three;
* `Accounted` — no request is lost or doubled and no limit exceeded;
* `scheduler_contract` — **what holds in every run**;
* `InOrder` — requests of one agent leave a tier in the order in which they came, which
  `FrontKept` is enough for.
-/

namespace Ranvier

/-- The scheduler and what went in and out. -/
structure SchedulerRun (α : Type) : Type where
  scheduler : RequestScheduler α
  /-- calls of `enqueue` so far -/
  arrivals : ℕ := 0
  /-- what `enqueue` has accepted -/
  accepted : List (RequestContext α) := []
  /-- what `dequeue` and `drain_one` have returned -/
  handedOut : List (RequestContext α) := []

inductive SchedulerCall (α : Type) : Type where
  | enqueue (priority : UInt8) (userAgent agentId : String) (request : α) (now : SteadyTime)
  /-- `order` is the order in which the hash map of served agents is iterated -/
  | dequeue (pauseCheck : Option (String → Bool)) (now : SteadyTime)
      (order : List (String × SteadyTime))
  | drainOne

namespace SchedulerRun

variable {α : Type}

def start (settings : SchedulerSettings) : SchedulerRun α where
  scheduler := .new settings

variable (s : SchedulerRun α)

/-- The result of a call that hands out. -/
def give (r : Option (RequestContext α) × RequestScheduler α) : SchedulerRun α :=
  { s with scheduler := r.2, handedOut := s.handedOut ++ r.1.toList }

def step : SchedulerCall α → Option (SchedulerRun α)
  | .enqueue priority userAgent agentId request now =>
    let ctx : RequestContext α := { ticket := s.arrivals, priority, userAgent, agentId, request }
    let r := s.scheduler.enqueue now ctx
    some
      { s with
        scheduler := r.2
        arrivals := s.arrivals + 1
        accepted :=
          if r.1 then s.accepted ++ [{ ctx with enqueueTime := some now }] else s.accepted }
  | .dequeue pauseCheck now order =>
    if order.Perm s.scheduler.agentLastServed.entries then
      some (s.give (s.scheduler.dequeue pauseCheck now order))
    else none
  | .drainOne => some (s.give s.scheduler.drainOne)

/-! ## One call -/

/-- What a call can do. -/
inductive StepSpec (call : SchedulerCall α) : SchedulerRun α → Prop where
  /-- nothing goes in or out -/
  | idle {scheduler : RequestScheduler α} {arrivals : ℕ}
      (hlimits : RequestScheduler.SameLimits s.scheduler scheduler)
      (hqueues : scheduler.queues = s.scheduler.queues) (harrivals : s.arrivals ≤ arrivals) :
      StepSpec call { s with scheduler, arrivals }
  | accepted {scheduler : RequestScheduler α} {r : RequestContext α}
      (hticket : r.ticket = s.arrivals)
      (hroom : (s.scheduler.queues r.tier).length < s.scheduler.tierCapacity r.tier)
      (hagent : r.agentId ≠ "" →
        s.scheduler.countAgentQueued r.agentId < s.scheduler.maxPerAgentQueued)
      (hlimits : RequestScheduler.SameLimits s.scheduler scheduler)
      (hqueues : scheduler.queues =
        Function.update s.scheduler.queues r.tier (s.scheduler.queues r.tier ++ [r])) :
      StepSpec call
        { s with scheduler, arrivals := s.arrivals + 1, accepted := s.accepted ++ [r] }
  /-- an entry is taken out of a queue: its front, or the one that was due -/
  | handed {scheduler : RequestScheduler α} {tier : PriorityLevel}
      {pre post : List (RequestContext α)} {w : RequestContext α}
      (hqueue : s.scheduler.queues tier = pre ++ w :: post)
      (hdue : pre = [] ∨ ∃ pauseCheck now order, call = .dequeue pauseCheck now order ∧
        s.scheduler.DueIn pauseCheck tier pre w post)
      (hlimits : RequestScheduler.SameLimits s.scheduler scheduler)
      (hqueues : scheduler.queues =
        Function.update s.scheduler.queues tier (closeGap pre post)) :
      StepSpec call { s with scheduler, handedOut := s.handedOut ++ [w] }

variable {s}

theorem give_none (scheduler : RequestScheduler α) :
    s.give (none, scheduler) = { s with scheduler } := by
  simp [give]

theorem step_spec {s' : SchedulerRun α} {call : SchedulerCall α} (h : s.step call = some s') :
    s.StepSpec call s' := by
  cases call with
  | enqueue priority userAgent agentId request now =>
    obtain rfl := Option.some.inj h
    have hspec := s.scheduler.enqueue_spec now
      { ticket := s.arrivals, priority, userAgent, agentId, request }
    generalize s.scheduler.enqueue now _ = r at hspec ⊢
    cases hspec with
    | rejected _ hlimits hqueues => exact .idle hlimits hqueues (Nat.le_succ _)
    | accepted hroom hagent hlimits hqueues => exact .accepted rfl hroom hagent hlimits hqueues
  | dequeue pauseCheck now order =>
    rw [step] at h
    split at h
    · obtain rfl := Option.some.inj h
      have hspec := s.scheduler.dequeue_spec pauseCheck now order
      generalize s.scheduler.dequeue pauseCheck now order = r at hspec ⊢
      cases hspec with
      | nothing _ hlimits hqueues =>
        rw [give_none]
        exact .idle hlimits hqueues (le_refl _)
      | handed hdue hlimits hqueues =>
        exact .handed hdue.queue (.inr ⟨pauseCheck, now, order, rfl, hdue⟩) hlimits hqueues
    · cases h
  | drainOne =>
    obtain rfl := Option.some.inj h
    have hspec := s.scheduler.drainOne_spec
    generalize s.scheduler.drainOne = r at hspec ⊢
    cases hspec with
    | nothing =>
      rw [give_none]
      exact .idle ⟨rfl, rfl⟩ rfl (le_refl _)
    | handed hqueue hlimits hqueues =>
      exact .handed hqueue (.inl rfl) hlimits hqueues

/-! ## Nothing is lost, nothing exceeds its limit -/

/-- What went in is what came out and what is left, each request once and in its own tier,
and the limits are kept. -/
structure Accounted (settings : SchedulerSettings) (s : SchedulerRun α) : Prop where
  limits : RequestScheduler.SameLimits (.new settings) s.scheduler
  conserved : s.accepted.Perm (s.handedOut ++ s.scheduler.queued)
  arrived : ∀ r ∈ s.accepted, r.ticket < s.arrivals
  once : (s.accepted.map RequestContext.ticket).Nodup
  placed : ∀ tier, ∀ r ∈ s.scheduler.queues tier, r.tier = tier
  capacity : ∀ tier, (s.scheduler.queues tier).length ≤ s.scheduler.tierCapacity tier
  perAgent : ∀ aid, aid ≠ "" → s.scheduler.countAgentQueued aid ≤ s.scheduler.maxPerAgentQueued

theorem accounted_start (settings : SchedulerSettings) :
    Accounted settings (start settings : SchedulerRun α) where
  limits := ⟨rfl, rfl⟩
  conserved := List.Perm.refl _
  arrived := by simp [start]
  once := List.nodup_nil
  placed := by simp [start, RequestScheduler.new]
  capacity := by simp [start, RequestScheduler.new]
  perAgent aid _ := by
    have hnone : (start settings : SchedulerRun α).scheduler.countAgentQueued aid = 0 := rfl
    rw [hnone]
    exact Nat.zero_le _

variable {settings : SchedulerSettings} {s' : SchedulerRun α} {call : SchedulerCall α}

theorem Accounted.accept {scheduler : RequestScheduler α} {r : RequestContext α}
    (h : Accounted settings s) (hticket : r.ticket = s.arrivals)
    (hroom : (s.scheduler.queues r.tier).length < s.scheduler.tierCapacity r.tier)
    (hagent : r.agentId ≠ "" →
      s.scheduler.countAgentQueued r.agentId < s.scheduler.maxPerAgentQueued)
    (hlimits : RequestScheduler.SameLimits s.scheduler scheduler)
    (hqueues : scheduler.queues =
      Function.update s.scheduler.queues r.tier (s.scheduler.queues r.tier ++ [r])) :
    Accounted settings
      { s with scheduler, arrivals := s.arrivals + 1, accepted := s.accepted ++ [r] } := by
  have hperm : scheduler.queued.Perm (r :: s.scheduler.queued) := by
    have htaken : (scheduler.queues r.tier).Perm (r :: s.scheduler.queues r.tier) := by
      rw [hqueues, Function.update_self]
      exact List.perm_append_singleton r _
    have hall := RequestScheduler.flatMap_update_perm htaken
    rwa [hqueues, Function.update_idem, Function.update_eq_self, ← hqueues] at hall
  refine
    { limits := h.limits.trans hlimits
      conserved := ?_
      arrived := ?_
      once := ?_
      placed := ?_
      capacity := ?_
      perAgent := ?_ }
  · have hmove : (s.handedOut ++ scheduler.queued).Perm
        (s.handedOut ++ s.scheduler.queued ++ [r]) := by
      rw [List.append_assoc]
      exact (hperm.trans (List.perm_append_singleton r _).symm).append_left _
    exact (h.conserved.append_right [r]).trans hmove.symm
  · intro b hb
    rcases List.mem_append.mp hb with hb | hb
    · exact Nat.lt_succ_of_lt (h.arrived b hb)
    · obtain rfl := List.mem_singleton.mp hb
      exact hticket ▸ Nat.lt_succ_self _
  · rw [List.map_append, List.map_singleton, List.nodup_append]
    refine ⟨h.once, List.nodup_singleton _, ?_⟩
    intro t ht t' ht'
    obtain ⟨b, hb, rfl⟩ := List.mem_map.mp ht
    obtain rfl := List.mem_singleton.mp ht'
    rw [hticket]
    exact (h.arrived b hb).ne
  · rw [hqueues]
    refine RequestScheduler.forall_update (P := fun tier q => ∀ b ∈ q, b.tier = tier) ?_ ?_
    · intro b hb
      rcases List.mem_append.mp hb with hb | hb
      · exact h.placed r.tier b hb
      · obtain rfl := List.mem_singleton.mp hb
        rfl
    · intro tier _
      exact h.placed tier
  · rw [hqueues, hlimits.capacity]
    refine RequestScheduler.forall_update (P := fun tier q =>
      q.length ≤ s.scheduler.tierCapacity tier) ?_ ?_
    · rw [List.length_append, List.length_singleton]
      exact hroom
    · intro tier _
      exact h.capacity tier
  · intro aid haid
    have hcount := h.perAgent aid haid
    rw [RequestScheduler.countAgentQueued] at hcount ⊢
    rw [hlimits.perAgent, hperm.countP_eq, List.countP_cons]
    split
    · next hsame =>
      obtain rfl : r.agentId = aid := by simpa using hsame
      have hfew := hagent haid
      rw [RequestScheduler.countAgentQueued] at hfew
      omega
    · omega

theorem Accounted.hand {scheduler : RequestScheduler α} {tier : PriorityLevel}
    {pre post : List (RequestContext α)} {w : RequestContext α} (h : Accounted settings s)
    (hqueue : s.scheduler.queues tier = pre ++ w :: post)
    (hlimits : RequestScheduler.SameLimits s.scheduler scheduler)
    (hqueues : scheduler.queues = Function.update s.scheduler.queues tier (closeGap pre post)) :
    Accounted settings { s with scheduler, handedOut := s.handedOut ++ [w] } := by
  have htaken : (s.scheduler.queues tier).Perm (w :: closeGap pre post) := by
    rw [hqueue]
    exact perm_cons_closeGap pre w post
  have hperm : s.scheduler.queued.Perm (w :: scheduler.queued) := by
    have hall := RequestScheduler.flatMap_update_perm htaken
    rwa [← hqueues] at hall
  refine
    { limits := h.limits.trans hlimits
      conserved := ?_
      arrived := h.arrived
      once := h.once
      placed := ?_
      capacity := ?_
      perAgent := ?_ }
  · have hmove := h.conserved.trans (hperm.append_left s.handedOut)
    rwa [List.append_cons] at hmove
  · rw [hqueues]
    refine RequestScheduler.forall_update (P := fun t q => ∀ r ∈ q, r.tier = t) ?_ ?_
    · intro r hr
      exact h.placed tier r (htaken.mem_iff.mpr (List.mem_cons_of_mem w hr))
    · intro t _
      exact h.placed t
  · rw [hqueues, hlimits.capacity]
    refine RequestScheduler.forall_update (P := fun t q =>
      q.length ≤ s.scheduler.tierCapacity t) ?_ ?_
    · have hlength := htaken.length_eq
      have hle := h.capacity tier
      rw [List.length_cons] at hlength
      omega
    · intro t _
      exact h.capacity t
  · intro aid haid
    have hcount := h.perAgent aid haid
    rw [RequestScheduler.countAgentQueued] at hcount ⊢
    rw [hperm.countP_eq, List.countP_cons] at hcount
    rw [hlimits.perAgent]
    exact (Nat.le_add_right _ _).trans hcount

theorem Accounted.step (h : Accounted settings s) (hstep : s.step call = some s') :
    Accounted settings s' := by
  cases step_spec hstep with
  | @idle scheduler _ hlimits hqueues harrivals =>
    have hqueued : scheduler.queued = s.scheduler.queued :=
      congrArg priorityTiers.flatMap hqueues
    refine
      { limits := h.limits.trans hlimits
        conserved := ?_
        arrived := fun r hr => (h.arrived r hr).trans_le harrivals
        once := h.once
        placed := ?_
        capacity := ?_
        perAgent := ?_ }
    · rw [hqueued]
      exact h.conserved
    · rw [hqueues]
      exact h.placed
    · rw [hqueues, hlimits.capacity]
      exact h.capacity
    · intro aid haid
      rw [RequestScheduler.countAgentQueued, hqueued, hlimits.perAgent,
        ← RequestScheduler.countAgentQueued]
      exact h.perAgent aid haid
  | accepted hticket hroom hagent hlimits hqueues =>
    exact h.accept hticket hroom hagent hlimits hqueues
  | handed hqueue _ hlimits hqueues => exact h.hand hqueue hlimits hqueues

theorem accounted_of_exec {calls : List (SchedulerCall α)}
    (h : exec SchedulerRun.step (start settings) calls = some s) : Accounted settings s := by
  refine exec_induction (I := fun _ s => Accounted settings s) ?_ (h := []) h
    (accounted_start settings)
  intro h s a s' hstep hinv
  exact hinv.step hstep

/-- **The contract.** In every run what was accepted has been handed out or is queued, each
request once; `dequeue` finds nothing exactly if all that is queued is paused, and never
passes over a request of a more urgent tier that is not; no tier holds more than its
capacity and no named agent has more queued than its limit. -/
theorem scheduler_contract (settings : SchedulerSettings) {calls : List (SchedulerCall α)}
    {s : SchedulerRun α} (h : exec SchedulerRun.step (start settings) calls = some s) :
    s.accepted.Perm (s.handedOut ++ s.scheduler.queued) ∧
      ((s.handedOut ++ s.scheduler.queued).map RequestContext.ticket).Nodup ∧
      (∀ pauseCheck now order,
        ((s.scheduler.dequeue pauseCheck now order).1 = none ↔
          ∀ r ∈ s.scheduler.queued, r.isPaused pauseCheck = true) ∧
        ∀ w, (s.scheduler.dequeue pauseCheck now order).1 = some w →
          w ∈ s.scheduler.queued ∧ w.isPaused pauseCheck = false ∧
            ∀ r ∈ s.scheduler.queued, r.tier.value < w.tier.value →
              r.isPaused pauseCheck = true) ∧
      (∀ tier, (s.scheduler.queues tier).length ≤
        (RequestScheduler.new settings : RequestScheduler α).tierCapacity tier) ∧
      ∀ aid, aid ≠ "" → s.scheduler.countAgentQueued aid ≤
        (RequestScheduler.new settings : RequestScheduler α).maxPerAgentQueued := by
  have hinv := accounted_of_exec h
  refine ⟨hinv.conserved, ?_, ?_, ?_, ?_⟩
  · exact (hinv.conserved.map _).nodup_iff.mp hinv.once
  · intro pauseCheck now order
    have hspec := s.scheduler.dequeue_spec pauseCheck now order
    generalize s.scheduler.dequeue pauseCheck now order = r at hspec ⊢
    cases hspec with
    | nothing hpaused => exact ⟨⟨fun _ => hpaused, fun _ => rfl⟩, fun w hw => by cases hw⟩
    | @handed _ tier pre post w hdue =>
      have hmem : w ∈ s.scheduler.queues tier := by
        rw [hdue.queue]
        exact List.mem_append_right pre List.mem_cons_self
      have hqueued : w ∈ s.scheduler.queued := RequestScheduler.mem_queued.mpr ⟨tier, hmem⟩
      have hunpaused : w.isPaused pauseCheck = false := hdue.due.unskipped
      refine ⟨⟨fun hnone => absurd hnone (Option.some_ne_none w), fun hall => ?_⟩, ?_⟩
      · rw [hall w hqueued] at hunpaused
        cases hunpaused
      · intro w' hw'
        obtain rfl := Option.some.inj hw'
        refine ⟨hqueued, hunpaused, ?_⟩
        intro r hr hlt
        obtain ⟨tier', hr'⟩ := RequestScheduler.mem_queued.mp hr
        rw [hinv.placed tier' r hr', hinv.placed tier _ hmem] at hlt
        exact hdue.higher tier' hlt r hr'
  · rw [← hinv.limits.capacity]
    exact hinv.capacity
  · rw [← hinv.limits.perAgent]
    exact hinv.perAgent

/-- The clock at the start of the machine. -/
def bootTime : SteadyTime := ⟨0, by decide, by decide⟩

/-- Two CRITICAL requests of one agent and one of another, taken out while the first agent
is paused and after it has been resumed. -/
def pausedAndResumed : List (SchedulerCall Unit) :=
  [.enqueue 0 "" "a" () bootTime,
    .enqueue 0 "" "a" () bootTime,
    .enqueue 0 "" "b" () bootTime,
    .dequeue (some fun agent => agent == "a") bootTime [],
    .dequeue none bootTime [("unknown", bootTime)],
    .dequeue none bootTime [("unknown", bootTime)]]

theorem scheduler_contract_resumed :
    ∃ s, exec SchedulerRun.step (start {}) pausedAndResumed = some s ∧
      s.handedOut.map RequestContext.ticket = [2, 1, 0] ∧
      s.accepted.Perm (s.handedOut ++ s.scheduler.queued) := by
  have hrun : exec SchedulerRun.step (start {}) pausedAndResumed = some _ :=
    exec_eq_some_getD (by decide)
  exact ⟨_, hrun, by decide, (scheduler_contract {} hrun).1⟩

/-- The table of served agents keeps its bound. -/
theorem agentsTracked_le {calls : List (SchedulerCall α)}
    (h : exec SchedulerRun.step (start settings) calls = some s) :
    s.scheduler.agentLastServed.size ≤ maxAgentTracking := by
  refine exec_induction (I := fun _ s => s.scheduler.agentLastServed.size ≤ maxAgentTracking) ?_
    (h := []) h (Nat.zero_le _)
  intro h s call s' hstep hsize
  cases call with
  | enqueue priority userAgent agentId request now =>
    obtain rfl := Option.some.inj hstep
    have hspec := s.scheduler.enqueue_spec now
      { ticket := s.arrivals, priority, userAgent, agentId, request }
    generalize s.scheduler.enqueue now _ = r at hspec ⊢
    cases hspec with
    | rejected _ _ _ hserved => exact hserved ▸ hsize
    | accepted _ _ _ _ hserved => exact hserved ▸ hsize
  | dequeue pauseCheck now order =>
    rw [SchedulerRun.step] at hstep
    split at hstep
    · next horder =>
      obtain rfl := Option.some.inj hstep
      have hspec := s.scheduler.dequeue_spec pauseCheck now order
      generalize s.scheduler.dequeue pauseCheck now order = r at hspec ⊢
      cases hspec with
      | nothing _ _ _ hserved => exact hserved ▸ hsize
      | @handed _ _ _ _ w _ _ _ hserved =>
        exact hserved ▸ RequestScheduler.updateAgentServed_size_le horder hsize w
    · cases hstep
  | drainOne =>
    obtain rfl := Option.some.inj hstep
    have hspec := s.scheduler.drainOne_spec
    generalize s.scheduler.drainOne = r at hspec ⊢
    cases hspec with
    | nothing => exact hsize
    | handed _ _ _ hserved => exact hserved ▸ hsize

/-! ## First come, first served -/

end SchedulerRun

/-- Where a request comes from and which tier it is in. -/
def RequestContext.stream {α : Type} (r : RequestContext α) : PriorityLevel × String × String :=
  (r.tier, r.agentId, r.userAgent)

namespace SchedulerRun

variable {α : Type}

/-- Requests of one stream were handed out in the order in which they were enqueued. -/
def InOrder (s : SchedulerRun α) : Prop :=
  s.handedOut.Pairwise fun r r' => r.stream = r'.stream → r.ticket < r'.ticket

instance (s : SchedulerRun α) : Decidable s.InOrder :=
  inferInstanceAs (Decidable (List.Pairwise _ _))

/-- No request of the front's stream stands between the front of a tier and the request
that is due there. -/
def FrontKept (s : SchedulerRun α) : SchedulerCall α → Prop
  | .dequeue pauseCheck _ _ =>
    ∀ tier front mid w post, s.scheduler.DueIn pauseCheck tier (front :: mid) w post →
      ∀ r ∈ mid, r.stream ≠ front.stream
  | _ => True

/-- What is handed out and what is queued is in order. -/
structure Ordered (s : SchedulerRun α) : Prop where
  handed : s.InOrder
  queued : ∀ tier, (s.scheduler.queues tier).Pairwise
    fun r r' => r.stream = r'.stream → r.ticket < r'.ticket
  across : ∀ r ∈ s.handedOut, ∀ r' ∈ s.scheduler.queued, r.stream = r'.stream → r.ticket < r'.ticket

variable {settings : SchedulerSettings} {s s' : SchedulerRun α} {call : SchedulerCall α}

theorem ordered_start (settings : SchedulerSettings) :
    Ordered (start settings : SchedulerRun α) where
  handed := List.Pairwise.nil
  queued _ := List.Pairwise.nil
  across _ hr := absurd hr List.not_mem_nil

/-- The stream of a request decides whether it is paused and when it was served. -/
theorem isPaused_of_stream {r w : RequestContext α} (h : r.stream = w.stream)
    (pauseCheck : Option (String → Bool)) : r.isPaused pauseCheck = w.isPaused pauseCheck := by
  obtain ⟨-, hagent, -⟩ := by simpa [RequestContext.stream] using h
  simp only [RequestContext.isPaused, hagent]

theorem dueTime_of_stream {r w : RequestContext α} (h : r.stream = w.stream)
    (scheduler : RequestScheduler α) (tier : PriorityLevel) :
    scheduler.dueTime tier r = scheduler.dueTime tier w := by
  obtain ⟨-, -, hua⟩ := by simpa [RequestContext.stream] using h
  simp only [RequestScheduler.dueTime, RequestScheduler.servedTime, RequestContext.agentKey, hua]

theorem Ordered.hand {scheduler : RequestScheduler α} {tier : PriorityLevel}
    {pre post : List (RequestContext α)} {w : RequestContext α} (h : s.Ordered)
    (hplaced : ∀ tier, ∀ r ∈ s.scheduler.queues tier, r.tier = tier)
    (hqueue : s.scheduler.queues tier = pre ++ w :: post)
    (hfirst : ∀ r ∈ pre, r.stream ≠ w.stream)
    (hfront : ∀ front mid, pre = front :: mid → ∀ r ∈ mid, r.stream ≠ front.stream)
    (hqueues : scheduler.queues = Function.update s.scheduler.queues tier (closeGap pre post)) :
    Ordered { s with scheduler, handedOut := s.handedOut ++ [w] } := by
  have hsorted := h.queued tier
  rw [hqueue] at hsorted
  have hwmem : w ∈ s.scheduler.queues tier := by
    rw [hqueue]
    exact List.mem_append_right pre List.mem_cons_self
  have hsplit := List.pairwise_append.mp hsorted
  -- what is left was queued before, and whatever is of the same stream came later
  have hleft : ∀ t, ∀ r ∈ scheduler.queues t,
      r ∈ s.scheduler.queued ∧ (w.stream = r.stream → w.ticket < r.ticket) := by
    rw [hqueues]
    refine RequestScheduler.forall_update (P := fun _ q => ∀ r ∈ q,
      r ∈ s.scheduler.queued ∧ (w.stream = r.stream → w.ticket < r.ticket)) ?_ ?_
    · intro r hr
      have hwas : r ∈ s.scheduler.queues tier := by
        rw [hqueue]
        exact (perm_cons_closeGap pre w post).mem_iff.mpr (List.mem_cons_of_mem w hr)
      refine ⟨RequestScheduler.mem_queued.mpr ⟨tier, hwas⟩, ?_⟩
      rcases mem_closeGap.mp hr with hr | hr
      · exact fun hsame => absurd hsame.symm (hfirst r hr)
      · obtain ⟨-, hlater, -⟩ := hsplit
        exact (List.pairwise_cons.mp hlater).1 r hr
    · intro t ht r hr
      refine ⟨RequestScheduler.mem_queued.mpr ⟨t, hr⟩, fun hsame => ?_⟩
      have htier : w.tier = r.tier := congrArg Prod.fst hsame
      rw [hplaced t r hr, hplaced tier w hwmem] at htier
      exact absurd htier.symm ht
  refine ⟨?_, ?_, ?_⟩
  · rw [InOrder, List.pairwise_append]
    refine ⟨h.handed, List.pairwise_singleton _ _, ?_⟩
    intro r hr r' hr'
    obtain rfl := List.mem_singleton.mp hr'
    exact h.across r hr r' (RequestScheduler.mem_queued.mpr ⟨tier, hwmem⟩)
  · rw [hqueues]
    refine RequestScheduler.forall_update (P := fun _ q => q.Pairwise
      fun r r' => r.stream = r'.stream → r.ticket < r'.ticket) ?_ ?_
    · exact pairwise_closeGap hsorted fun front mid hpre r hr hsame =>
        absurd hsame (hfront front mid hpre r hr)
    · intro t _
      exact h.queued t
  · intro r hr r' hr'
    obtain ⟨t, hr'⟩ := RequestScheduler.mem_queued.mp hr'
    obtain ⟨hwas, hlater⟩ := hleft t r' hr'
    rcases List.mem_append.mp hr with hr | hr
    · exact h.across r hr r' hwas
    · obtain rfl := List.mem_singleton.mp hr
      exact hlater

theorem Ordered.accept {scheduler : RequestScheduler α} {r : RequestContext α} {arrivals : ℕ}
    {accepted : List (RequestContext α)} (h : s.Ordered)
    (hnew : ∀ r' ∈ s.handedOut ++ s.scheduler.queued, r'.ticket < r.ticket)
    (hqueues : scheduler.queues =
      Function.update s.scheduler.queues r.tier (s.scheduler.queues r.tier ++ [r])) :
    Ordered { s with scheduler, arrivals, accepted } := by
  refine ⟨h.handed, ?_, ?_⟩
  · rw [hqueues]
    refine RequestScheduler.forall_update (P := fun _ q => q.Pairwise
      fun r r' => r.stream = r'.stream → r.ticket < r'.ticket) ?_ ?_
    · rw [List.pairwise_append]
      refine ⟨h.queued r.tier, List.pairwise_singleton _ _, ?_⟩
      intro a ha b hb _
      obtain rfl := List.mem_singleton.mp hb
      exact hnew a (List.mem_append_right _ (RequestScheduler.mem_queued.mpr ⟨b.tier, ha⟩))
    · intro tier _
      exact h.queued tier
  · have hall : ∀ tier, ∀ b ∈ scheduler.queues tier, ∀ a ∈ s.handedOut,
        a.stream = b.stream → a.ticket < b.ticket := by
      rw [hqueues]
      refine RequestScheduler.forall_update (P := fun _ q => ∀ b ∈ q, ∀ a ∈ s.handedOut,
        a.stream = b.stream → a.ticket < b.ticket) ?_ ?_
      · intro b hb a ha hsame
        rcases List.mem_append.mp hb with hb | hb
        · exact h.across a ha b (RequestScheduler.mem_queued.mpr ⟨r.tier, hb⟩) hsame
        · obtain rfl := List.mem_singleton.mp hb
          exact hnew a (List.mem_append_left _ ha)
      · intro tier _ b hb a ha
        exact h.across a ha b (RequestScheduler.mem_queued.mpr ⟨tier, hb⟩)
    intro a ha b hb
    obtain ⟨tier, hb⟩ := RequestScheduler.mem_queued.mp hb
    exact hall tier b hb a ha

theorem Ordered.step (h : s.Ordered) (hinv : Accounted settings s) (hok : s.FrontKept call)
    (hstep : s.step call = some s') : s'.Ordered := by
  cases step_spec hstep with
  | @idle scheduler _ _ hqueues _ =>
    have hqueued : scheduler.queued = s.scheduler.queued :=
      congrArg priorityTiers.flatMap hqueues
    refine ⟨h.handed, ?_, ?_⟩
    · rw [hqueues]
      exact h.queued
    · rw [hqueued]
      exact h.across
  | accepted hticket _ _ _ hqueues =>
    refine h.accept ?_ hqueues
    intro r hr
    rw [hticket]
    exact hinv.arrived r (hinv.conserved.mem_iff.mpr hr)
  | handed hqueue hdue _ hqueues =>
    rcases hdue with rfl | ⟨pauseCheck, now, order, rfl, hdue⟩
    · exact h.hand hinv.placed hqueue (by simp) (by simp) hqueues
    · refine h.hand hinv.placed hqueue ?_ ?_ hqueues
      · intro r hr
        exact hdue.due.kind_ne hr (fun hsame => isPaused_of_stream hsame pauseCheck)
          (fun hsame => dueTime_of_stream hsame _ _)
      · rintro front mid rfl
        exact hok _ front mid _ _ hdue

/-- **First come, first served.** Requests of one agent id and user agent leave their tier in
the order in which they came, in every run in which no `dequeue` moves the front of a tier
behind another request of the front's stream. -/
theorem inOrder_of_frontKept (settings : SchedulerSettings) {calls : List (SchedulerCall α)}
    {s : SchedulerRun α} (hmeets : Meets SchedulerRun.step FrontKept (start settings) calls)
    (h : exec SchedulerRun.step (start settings) calls = some s) : s.InOrder := by
  have hinv : Accounted settings s ∧ s.Ordered := by
    refine exec_invariant (I := fun _ s => Accounted settings s ∧ s.Ordered) ?_ (h := []) hmeets h
      ⟨accounted_start settings, ordered_start settings⟩
    intro h s call s' hok hstep hinv
    obtain ⟨haccounted, hordered⟩ := hinv
    exact ⟨haccounted.step hstep, hordered.step haccounted hok hstep⟩
  exact hinv.2.handed

/-- It is enough that no two requests of a tier are of one stream. -/
theorem frontKept_of_nodup
    (h : ∀ tier, ((s.scheduler.queues tier).map RequestContext.stream).Nodup)
    (call : SchedulerCall α) : s.FrontKept call := by
  cases call with
  | enqueue => trivial
  | dequeue pauseCheck now order =>
    intro tier front mid w post hdue r hr hsame
    have hnodup := h tier
    rw [hdue.queue, List.cons_append, List.map_cons, List.nodup_cons, List.map_append] at hnodup
    exact hnodup.1 (List.mem_append_left _ (hsame ▸ List.mem_map_of_mem hr))
  | drainOne => trivial

/-- Three agents in one tier, and the first two are paused. -/
def twoPaused : List (SchedulerCall Unit) :=
  [.enqueue 1 "" "a" () bootTime,
    .enqueue 1 "" "b" () bootTime,
    .enqueue 1 "" "c" () bootTime,
    .dequeue (some fun agent => agent == "a" || agent == "b") bootTime []]

theorem inOrder_of_frontKept_twoPaused :
    Meets SchedulerRun.step FrontKept (start {}) twoPaused ∧
      ((exec SchedulerRun.step (start {}) twoPaused).getD (start {})).InOrder := by
  have hmeets : Meets SchedulerRun.step FrontKept (start {}) twoPaused := by
    refine ⟨trivial, trivial, trivial, frontKept_of_nodup ?_ _, ?_⟩
    · intro tier
      cases tier <;> decide
    · split <;> trivial
  exact ⟨hmeets, inOrder_of_frontKept {} hmeets (exec_eq_some_getD (by decide))⟩

/-- While the first agent is paused its first request is swapped behind its second. -/
theorem front_swapped_behind :
    ¬ ∀ s, exec SchedulerRun.step (start {}) pausedAndResumed = some s → s.InOrder := by
  intro h
  have hordered := h _ (exec_eq_some_getD (by decide))
  revert hordered
  decide

end SchedulerRun

end Ranvier
