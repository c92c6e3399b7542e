import Ranvier.Parties
import Ranvier.PriorityQueue

/-!
# Pausing an agent

Every shard has its own registry of agents, its own queues and its own loop, and a control
call reaches one of them. So an agent is paused on the shard that has answered the call, and
nowhere else.

* `Arrived` — tickets tell earlier requests from later ones;
* `HeldBack` — what a pause leaves behind, and what only a resume can undo;
* `paused_until_resumed` — on the shard that answered no later request of the agent gets a
  slot before the agent is resumed there.
-/

namespace Ranvier

namespace PriorityShard

variable {α : Type} {s s' : PriorityShard α} {a : SlotAction α}

/-! ## One shard -/

/-- All requests that are somewhere have come before. -/
structure Arrived (s : PriorityShard α) : Prop where
  queued : ∀ tier, ∀ r ∈ s.scheduler.queues tier, r.ticket < s.arrivals
  held : ∀ ctx, s.phase = .holding ctx → ctx.ticket < s.arrivals
  granted : ∀ g ∈ s.grants, g.ctx.ticket < s.arrivals

theorem arrived_start (settings : SchedulerSettings) (config : Option AgentRegistryConfig)
    (slots : ℕ) : Arrived (start settings config slots : PriorityShard α) where
  queued _ _ hr := by cases hr
  held _ hctx := by cases hctx
  granted _ hg := by cases hg

/-- Nothing new is anywhere. -/
theorem Arrived.mono (h : Arrived s)
    (hqueues : ∀ tier, s'.scheduler.queues tier ⊆ s.scheduler.queues tier)
    (hphase : ∀ {ctx}, s'.phase = .holding ctx → s.phase = .holding ctx)
    (hgrants : s'.grants = s.grants) (harrivals : s.arrivals ≤ s'.arrivals) : Arrived s' where
  queued tier r hr := (h.queued tier r (hqueues tier hr)).trans_le harrivals
  held ctx hctx := (h.held ctx (hphase hctx)).trans_le harrivals
  granted g hg := (h.granted g (hgrants ▸ hg)).trans_le harrivals

theorem Arrived.step (h : Arrived s) (hstep : s.step a = some s') : Arrived s' := by
  cases step_spec hstep with
  | quiet hqueues _ hphase hgrants harrivals =>
    exact h.mono hqueues (holding_of_quiet hphase) hgrants harrivals
  | @accepted _ _ _ _ _ _ _ r hr _ hqueues _ hphase hgrants harrivals =>
    have hticket : r.ticket = s.arrivals := by
      rw [hr]
      rfl
    refine ⟨?_, ?_, ?_⟩
    · rw [hqueues, harrivals]
      refine RequestScheduler.forall_update (P := fun _ q => ∀ r ∈ q, r.ticket < s.arrivals + 1)
        ?_ ?_
      · intro r' hr'
        rcases List.mem_append.mp hr' with hr' | hr'
        · exact Nat.lt_succ_of_lt (h.queued r.tier r' hr')
        · obtain rfl := List.mem_singleton.mp hr'
          exact hticket ▸ Nat.lt_succ_self _
      · intro tier _ r' hr'
        exact Nat.lt_succ_of_lt (h.queued tier r' hr')
    · intro ctx hctx
      rw [harrivals]
      exact Nat.lt_succ_of_lt (h.held ctx (hphase.holding hctx))
    · rw [hgrants, harrivals]
      exact fun g hg => Nat.lt_succ_of_lt (h.granted g hg)
  | paused hscheduler _ hphase hgrants harrivals =>
    refine h.mono ?_ (fun hctx => hphase.symm.trans hctx) hgrants harrivals.ge
    exact fun tier => hscheduler ▸ List.Subset.refl _
  | resumed hscheduler _ hphase hgrants harrivals =>
    refine h.mono ?_ hphase.holding hgrants harrivals.ge
    exact fun tier => hscheduler ▸ List.Subset.refl _
  | idle hqueues _ _ hphase hgrants harrivals =>
    refine h.mono ?_ (fun hctx => ?_) hgrants harrivals.ge
    · exact fun tier => hqueues ▸ List.Subset.refl _
    · cases hphase.symm.trans hctx
  | @taken _ _ ctx tier hmem _ _ hqueues _ hphase hgrants harrivals =>
    refine ⟨?_, ?_, ?_⟩
    · rw [harrivals]
      exact fun tier r hr => h.queued tier r (hqueues tier hr)
    · intro ctx' hctx
      obtain rfl : ctx = ctx' := LoopPhase.holding.inj (hphase.symm.trans hctx)
      rw [harrivals]
      exact h.queued tier ctx hmem
    · rw [hgrants, harrivals]
      exact h.granted
  | @granted ctx hphase hnext =>
    rw [hnext]
    refine ⟨h.queued, ?_, ?_⟩
    · intro ctx' hctx
      cases hctx
    · intro g hg
      rcases List.mem_append.mp hg with hg | hg
      · exact h.granted g hg
      · obtain rfl := List.mem_singleton.mp hg
        exact h.held ctx hphase

/-- The agent is paused, and of its requests only the first `n` got a slot or will get one
nevertheless. -/
structure HeldBack (id : String) (n : ℕ) (s : PriorityShard α) : Prop where
  paused : ∀ r : RequestContext α, r.agentId = id → s.skips r = true
  held : ∀ ctx, s.phase = .holding ctx → ctx.agentId = id → ctx.ticket < n
  granted : ∀ g ∈ s.grants, g.ctx.agentId = id → g.ctx.ticket < n

variable {id : String} {n : ℕ}

theorem HeldBack.mono (h : HeldBack id n s)
    (hskips : ∀ r, r.agentId = id → s.skips r = true → s'.skips r = true)
    (hphase : ∀ {ctx}, s'.phase = .holding ctx → s.phase = .holding ctx)
    (hgrants : s'.grants = s.grants) : HeldBack id n s' where
  paused r hr := hskips r hr (h.paused r hr)
  held ctx hctx := h.held ctx (hphase hctx)
  granted := hgrants ▸ h.granted

/-- A pause that was answered with success. -/
theorem heldBack_of_pause (h : Arrived s)
    (hanswer : (handlePauseAgent s.registry id).1 = .paused)
    (hstep : s.step (.pause id) = some s') : HeldBack id s.arrivals s' := by
  obtain rfl := Option.some.inj hstep
  obtain ⟨hfailed, -⟩ | ⟨-, hid, r, r', -, hr', hpaused⟩ := handlePauseAgent_spec s.registry id
  · exact absurd hanswer hfailed
  · refine ⟨?_, fun ctx hctx _ => h.held ctx hctx, fun g hg _ => h.granted g hg⟩
    intro ctx hctx
    simp only [skips, hr', RequestContext.isPaused, pauseCheckOf, Option.map_some, hctx, hpaused,
      Function.update_self, Bool.and_true]
    simpa using hid

theorem HeldBack.step (h : HeldBack id n s) (hresume : ∀ kept, a ≠ .resume id kept)
    (hstep : s.step a = some s') : HeldBack id n s' := by
  cases step_spec hstep with
  | quiet _ hskips hphase hgrants =>
    exact h.mono (fun _ _ hpaused => hskips ▸ hpaused) (holding_of_quiet hphase) hgrants
  | accepted _ _ _ hskips hphase hgrants =>
    exact h.mono (fun _ _ hpaused => hskips ▸ hpaused) hphase.holding hgrants
  | paused _ hskips hphase hgrants =>
    exact h.mono (fun r _ => hskips r) (fun hctx => hphase.symm.trans hctx) hgrants
  | @resumed other kept _ hskips hphase hgrants =>
    refine h.mono ?_ hphase.holding hgrants
    intro r hr hpaused
    have hne : r.agentId ≠ other := by
      rintro rfl
      exact hresume kept (hr ▸ rfl)
    rw [hskips r hne]
    exact hpaused
  | idle _ hskips _ hphase hgrants =>
    refine h.mono (fun _ _ hpaused => hskips ▸ hpaused) (fun hctx => ?_) hgrants
    cases hphase.symm.trans hctx
  | @taken _ _ ctx _ _ hctx _ _ hskips hphase hgrants =>
    refine ⟨hskips ▸ h.paused, ?_, hgrants ▸ h.granted⟩
    -- a request of the agent would have been skipped
    intro ctx' hctx' hagent
    obtain rfl : ctx = ctx' := LoopPhase.holding.inj (hphase.symm.trans hctx')
    cases (h.paused ctx hagent).symm.trans hctx
  | @granted ctx hphase hnext =>
    rw [hnext]
    refine ⟨h.paused, ?_, ?_⟩
    · intro ctx' hctx
      cases hctx
    · intro g hg
      rcases List.mem_append.mp hg with hg | hg
      · exact h.granted g hg
      · obtain rfl := List.mem_singleton.mp hg
        exact h.held ctx hphase

/-! ## All shards -/

/-- A shard acts by itself. -/
def act (s : PriorityShard α) (_ : Unit) (a : SlotAction α) : Option (PriorityShard α × Unit) :=
  (s.step a).map fun s' => (s', ())

theorem act_eq_some {u v : Unit} (h : s.act u a = some (s', v)) : s.step a = some s' := by
  obtain ⟨s'', hstep, heq⟩ := Option.map_eq_some_iff.mp h
  obtain rfl : s'' = s' := congrArg Prod.fst heq
  exact hstep

section Shards

variable {ι : Type}

/-- The shards of a process when they are started. They share nothing. -/
def startAll (settings : SchedulerSettings) (config : Option AgentRegistryConfig) (slots : ℕ) :
    Parties.World ι (PriorityShard α) Unit :=
  ⟨fun _ => start settings config slots, ()⟩

variable [DecidableEq ι]

theorem arrived_of_exec {settings : SchedulerSettings} {config : Option AgentRegistryConfig}
    {slots : ℕ} {run : List (ι × SlotAction α)} {w : Parties.World ι (PriorityShard α) Unit}
    (hexec : exec (Parties.step act) (startAll settings config slots) run = some w) :
    ∀ i, Arrived (w.parts i) := by
  refine exec_induction (I := fun _ w => ∀ i, Arrived (w.parts i)) ?_ (h := []) hexec
    fun _ => arrived_start settings config slots
  intro _ w t w' hstep h
  exact Parties.local_step (I := fun _ s => Arrived s)
    (fun hact harrived => harrived.step (act_eq_some hact)) hstep h

/-- **A pause holds where it was answered.** After a shard has answered a pause of an agent
with success, no slot goes to a request of the agent that came to this shard afterwards, until
a resume of the agent reaches this shard; whatever the other shards do. -/
theorem paused_until_resumed (settings : SchedulerSettings) (config : Option AgentRegistryConfig)
    (slots : ℕ) {before after : List (ι × SlotAction α)}
    {w₁ w₂ w₃ : Parties.World ι (PriorityShard α) Unit} {j : ι} {id : String}
    (hbefore : exec (Parties.step act) (startAll settings config slots) before = some w₁)
    (hpause : Parties.step act w₁ (j, .pause id) = some w₂)
    (hanswer : (handlePauseAgent (w₁.parts j).registry id).1 = .paused)
    (hafter : exec (Parties.step act) w₂ after = some w₃)
    (hresume : ∀ kept, (j, .resume id kept) ∉ after) :
    ∀ g ∈ (w₃.parts j).grants, g.ctx.agentId = id → g.ctx.ticket < (w₁.parts j).arrivals := by
  have hpaused : HeldBack id (w₁.parts j).arrivals (w₂.parts j) := by
    obtain ⟨s, _, hact, rfl⟩ := Parties.step_cases hpause
    change HeldBack id _ (Function.update w₁.parts j s j)
    rw [Function.update_self]
    exact heldBack_of_pause (arrived_of_exec hbefore j) hanswer (act_eq_some hact)
  have hmeets :
      Meets (Parties.step act) (fun _ t => ∀ kept, t ≠ (j, .resume id kept)) w₂ after := by
    refine meets_of_forall_mem ?_
    rintro t ht kept rfl
    exact hresume kept ht
  have hall : ∀ i, i = j → HeldBack id (w₁.parts j).arrivals (w₃.parts i) := by
    refine exec_invariant
      (I := fun _ w => ∀ i, i = j → HeldBack id (w₁.parts j).arrivals (w.parts i)) ?_ (h := [])
      hmeets hafter ?_
    · intro _ w t w' hok hstep h
      refine Parties.local_step (I := fun i s => i = j → HeldBack id _ s) ?_ hstep h
      intro s _ hact hheld heq
      refine (hheld heq).step ?_ (act_eq_some hact)
      exact fun kept hcall => hok kept (Prod.ext heq hcall)
    · rintro i rfl
      exact hpaused
  exact (hall j rfl).granted

end Shards

/-- The agent of `oneAgent`, before it is paused. -/
def aiderRunning : String × AgentInfo :=
  ("aider", ⟨"aider", "Aider", "aider", .HIGH, true, false⟩)

/-- A request that comes before the pause, and one that comes after it. -/
def beforePause : List (Fin 2 × SlotAction Unit) :=
  [(⟨0, Nat.two_pos⟩, .arrive 1 "" "aider/0.5" () SchedulerRun.bootTime [aiderRunning] true),
    (⟨0, Nat.two_pos⟩, .turn SchedulerRun.bootTime [])]

def afterPause : List (Fin 2 × SlotAction Unit) :=
  [(⟨0, Nat.two_pos⟩, .arrive 1 "" "aider/0.5" () SchedulerRun.bootTime [aiderPaused] true),
    (⟨0, Nat.two_pos⟩, .grant)]

theorem paused_until_resumed_requestBefore :
    ∃ w₁ w₂ w₃, exec (Parties.step act) (startAll {} (some oneAgent) 1) beforePause = some w₁ ∧
      Parties.step act w₁ (0, .pause "aider") = some w₂ ∧
      exec (Parties.step act) w₂ afterPause = some w₃ ∧
      (w₃.parts 0).grants.map (fun g => (g.ctx.agentId, g.ctx.ticket)) = [("aider", 0)] ∧
      (w₃.parts 0).scheduler.queued.map RequestContext.ticket = [1] ∧
      ∀ g ∈ (w₃.parts 0).grants, g.ctx.agentId = "aider" →
        g.ctx.ticket < (w₁.parts 0).arrivals := by
  have hresume : ∀ kept, ((0 : Fin 2), SlotAction.resume "aider" kept) ∉ afterPause := by
    simp [afterPause]
  refine ⟨_, _, _, rfl, rfl, rfl, by decide, by decide, ?_⟩
  exact @paused_until_resumed Unit (Fin 2) _ {} (some oneAgent) 1 beforePause afterPause _ _ _ 0
    "aider" rfl rfl (by decide) rfl hresume

/-- A request of the agent comes to the other shard. -/
def otherShard : List (Fin 2 × SlotAction Unit) :=
  [(⟨1, Nat.one_lt_two⟩, .arrive 1 "" "aider/0.5" () SchedulerRun.bootTime [aiderRunning] true),
    (⟨1, Nat.one_lt_two⟩, .turn SchedulerRun.bootTime []), (⟨1, Nat.one_lt_two⟩, .grant)]

/-- The first shard has answered that the agent is paused; on the other one its next request
gets a slot, though nobody has resumed it. -/
theorem otherShard_granted :
    (handlePauseAgent ((startAll {} (some oneAgent) 1 :
        Parties.World (Fin 2) (PriorityShard Unit) Unit).parts 0).registry "aider").1 = .paused ∧
      (∀ i kept, (i, .resume "aider" kept) ∉ otherShard) ∧
      ∃ w, exec (Parties.step act) (startAll {} (some oneAgent) 1)
          ((0, .pause "aider") :: otherShard) = some w ∧
        (w.parts 1).grants.map (fun g => g.ctx.agentId) = ["aider"] := by
  refine ⟨by decide, by simp [otherShard], _, rfl, by decide⟩

end PriorityShard

end Ranvier
