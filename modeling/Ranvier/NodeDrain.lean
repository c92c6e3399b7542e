import Ranvier.PacketCodec
import Ranvier.Registry

/-!
# Nodes that drain and return

A node tells the cluster that its backend drains, and later that it is active again. The first
marks the backend as draining on every shard and leaves its weight alone, the second takes the
mark away. In between the reaper of shard 0 removes every backend that has been draining for
too long, whoever made it drain.

* `handleNodeStateChange` — what a notification is broadcast as;
* `finalView` — how a shard sees the backend once everything has arrived;
* `restored_iff_notReaped` — an ACTIVE restores the backend on every shard, exactly if no run of
  the reaper has found it draining for too long.
-/

namespace Ranvier

/-- There is a shard 0. -/
local instance (priority := 2000) neZero_nodeShards (n : ℕ) : NeZero (n + 1) :=
  ⟨Nat.succ_ne_zero n⟩

/-- What shard 0 submits to the other shards. -/
inductive NodeMessage : Type where
  | draining (id : BackendId)
  | active (id : BackendId)
  | unregister (id : BackendId)
  deriving DecidableEq, Repr

/-- An ACTIVE, on one shard. -/
def ShardRegistry.restoreBackend (s : ShardRegistry) (id : BackendId) : ShardRegistry :=
  s.updateBackend id fun info => if info.isDraining then { info with isDraining := false } else info

namespace NodeMessage

/-- What it does on the shard it arrives at; a drain begins when it arrives. -/
def apply (now : ℕ) : NodeMessage → ShardRegistry → ShardRegistry
  | .draining id, s => s.drainBackend id now
  | .active id, s => s.restoreBackend id
  | .unregister id, s => s.unregisterBackend id

/-- The backend it is about. -/
def backend : NodeMessage → BackendId
  | .draining id => id
  | .active id => id
  | .unregister id => id

/-- What it does to the view of a backend. -/
def applyView (id : BackendId) (m : NodeMessage) (v : BackendView) : BackendView :=
  if m.backend = id then
    match m with
    | .draining _ => { v with record := v.record.map fun r => { r with isDraining := true } }
    | .active _ => { v with record := v.record.map fun r => { r with isDraining := false } }
    | .unregister _ => { record := none, listed := false, dead := false }
  else v

end NodeMessage

/-- `handle_node_state_change`: other states are ignored. -/
def handleNodeStateChange (id : BackendId) (state : NodeState) : List NodeMessage :=
  if state = .DRAINING then [.draining id]
  else if state = .ACTIVE then [.active id]
  else []

/-- The shards, and what shard 0 has in flight. -/
abbrev NodeNet (n : ℕ) : Type := Network (Fin (n + 1)) ShardRegistry NodeMessage

/-- What happens. Each action has the time at which it happens. -/
inductive NodeAction (n : ℕ) : Type where
  | notify (id : BackendId) (state : NodeState) (now : ℕ)
  | runDrainingReaper (now : ℕ)
  | deliver (receiver : Fin (n + 1)) (now : ℕ)
  deriving DecidableEq

namespace NodeNet

variable {n : ℕ}

/-- Shard 0 issues messages one after another. -/
def issueAll (now : ℕ) (net : NodeNet n) (messages : List NodeMessage) : NodeNet n :=
  messages.foldl (fun net m => net.issue (NodeMessage.apply now) 0 m) net

/-- One action. -/
def step (net : NodeNet n) : NodeAction n → Option (NodeNet n)
  | .notify id state now => some (issueAll now net (handleNodeStateChange id state))
  | .runDrainingReaper now =>
    some (issueAll now net (((net.state 0).drainExpired now).map .unregister))
  | .deliver receiver now => net.deliver (NodeMessage.apply now) 0 receiver

/-- What is known of the last notification about a backend: whether it was DRAINING. -/
def noteDraining (id : BackendId) (last : Option Bool) : NodeAction n → Option Bool
  | .notify target state _ =>
    if target = id ∧ state = .DRAINING then some true
    else if target = id ∧ state = .ACTIVE then some false
    else last
  | _ => last

/-- The last notification of a run about a backend. -/
def lastDraining (id : BackendId) (run : List (NodeAction n)) : Option Bool :=
  run.foldl (noteDraining id) none

/-- The reaper does not find this backend to be draining for too long. -/
def NotReaped (id : BackendId) (net : NodeNet n) : NodeAction n → Prop
  | .runDrainingReaper now => id ∉ (net.state 0).drainExpired now
  | _ => True

instance (id : BackendId) (net : NodeNet n) (a : NodeAction n) : Decidable (NotReaped id net a) :=
  match a with
  | .runDrainingReaper now => inferInstanceAs (Decidable (id ∉ (net.state 0).drainExpired now))
  | .notify _ _ _ | .deliver _ _ => .isTrue trivial

/-- On this shard the backend is registered and not draining, and has the weight. -/
def Restored (id : BackendId) (weight : ℕ) (s : ShardRegistry) : Prop :=
  id ∈ s.backendIds ∧
    ∃ info, s.backends id = some info ∧ info.isDraining = false ∧ info.weight = weight

end NodeNet

/-! ## How the shards see a backend -/

theorem NodeMessage.viewOf_apply (id : BackendId) (m : NodeMessage) (now : ℕ) (s : ShardRegistry) :
    (m.apply now s).viewOf id = m.applyView id (s.viewOf id) := by
  cases m with
  | draining target => exact RegistryMessage.viewOf_apply id (.drain target now) s
  | unregister target => exact RegistryMessage.viewOf_apply id (.unregister target) s
  | active target =>
    unfold applyView
    rw [apply, ShardRegistry.restoreBackend, backend]
    by_cases htarget : target = id
    · rw [if_pos htarget]
      subst htarget
      refine BackendView.ext ?_ rfl rfl
      cases hinfo : s.backends target with
      | none => simp [ShardRegistry.viewOf, ShardRegistry.updateBackend, hinfo]
      | some info =>
        cases hdraining : info.isDraining <;>
          simp [ShardRegistry.viewOf, ShardRegistry.updateBackend, hinfo, hdraining,
            BackendInfo.toRecord]
    · rw [if_neg htarget]
      refine BackendView.ext ?_ rfl rfl
      simp [ShardRegistry.viewOf, ShardRegistry.updateBackend,
        Function.update_of_ne (Ne.symm htarget)]

/-- Nothing brings back what is not registered. -/
theorem NodeMessage.record_applyView {id : BackendId} {m : NodeMessage} {v : BackendView}
    (h : v.record = none) : (m.applyView id v).record = none := by
  unfold applyView
  split
  · cases m with
    | draining | active => simp [h]
    | unregister => rfl
  · exact h

namespace NodeNet

variable {n : ℕ} {id : BackendId} {net net' : NodeNet n}

/-- How a shard sees the backend once everything from shard 0 has arrived. -/
def finalView (id : BackendId) (net : NodeNet n) (i : Fin (n + 1)) : BackendView :=
  (net.inFlight 0 i).foldl (fun v m => m.applyView id v) ((net.state i).viewOf id)

theorem finalView_issue (now : ℕ) (m : NodeMessage) (i : Fin (n + 1)) :
    finalView id (net.issue (NodeMessage.apply now) 0 m) i = m.applyView id (finalView id net i) := by
  unfold finalView Network.issue
  dsimp only
  by_cases hi : i = 0
  · -- shard 0 has nothing in flight to itself
    subst hi
    rw [if_neg (fun h => h.2 rfl), net.self_empty, Function.update_self, NodeMessage.viewOf_apply]
    rfl
  · rw [if_pos ⟨rfl, hi⟩, Function.update_of_ne hi, List.foldl_concat]

theorem finalView_issueAll (now : ℕ) (messages : List NodeMessage) (i : Fin (n + 1)) :
    finalView id (issueAll now net messages) i =
      messages.foldl (fun v m => m.applyView id v) (finalView id net i) := by
  induction messages generalizing net with
  | nil => rfl
  | cons m messages ih =>
    rw [List.foldl_cons, ← finalView_issue now m i]
    exact ih

theorem finalView_deliver {now : ℕ} {receiver : Fin (n + 1)}
    (h : net.deliver (NodeMessage.apply now) 0 receiver = some net') (i : Fin (n + 1)) :
    finalView id net' i = finalView id net i := by
  rw [Network.deliver] at h
  split at h
  · cases h
  · next m rest hhead =>
    obtain rfl := Option.some.inj h
    unfold finalView
    dsimp only
    by_cases hi : i = receiver
    · subst hi
      rw [if_pos ⟨rfl, rfl⟩, Function.update_self, NodeMessage.viewOf_apply, hhead]
      rfl
    · rw [if_neg (fun h => hi h.2), Function.update_of_ne hi]

/-- The backend is registered with its weight, and drains if it was last said to. -/
def Kept (weight : ℕ) (last : Option Bool) (v : BackendView) : Prop :=
  v.listed = true ∧ ∃ r, v.record = some r ∧ r.weight = weight ∧ ∀ b, last = some b → r.isDraining = b

/-- The backend is on its way to be kept, on every shard. -/
def AllKept (id : BackendId) (weight : Fin (n + 1) → ℕ) (last : Option Bool) (net : NodeNet n) :
    Prop :=
  ∀ i, Kept (weight i) last (finalView id net i)

/-- A notification, about this backend or another. -/
theorem Kept.notify {weight : ℕ} {last : Option Bool} {v : BackendView} (h : Kept weight last v)
    (target : BackendId) (state : NodeState) (now : ℕ) :
    Kept weight (noteDraining (n := n) id last (.notify target state now))
      ((handleNodeStateChange target state).foldl (fun v m => m.applyView id v) v) := by
  rw [noteDraining, handleNodeStateChange]
  by_cases htarget : target = id
  · subst htarget
    have hkept := h
    obtain ⟨hlisted, r, hrecord, hweight, -⟩ := hkept
    by_cases hdraining : state = .DRAINING
    · rw [if_pos ⟨rfl, hdraining⟩, if_pos hdraining]
      refine ⟨?_, { r with isDraining := true }, ?_, hweight, fun b hb => Option.some.inj hb⟩
      · simpa [NodeMessage.applyView, NodeMessage.backend] using hlisted
      · simp [NodeMessage.applyView, NodeMessage.backend, hrecord]
    · rw [if_neg fun h => hdraining h.2, if_neg hdraining]
      by_cases hactive : state = .ACTIVE
      · rw [if_pos ⟨rfl, hactive⟩, if_pos hactive]
        refine ⟨?_, { r with isDraining := false }, ?_, hweight, fun b hb => Option.some.inj hb⟩
        · simpa [NodeMessage.applyView, NodeMessage.backend] using hlisted
        · simp [NodeMessage.applyView, NodeMessage.backend, hrecord]
      · rw [if_neg fun h => hactive h.2, if_neg hactive]
        exact h
  · rw [if_neg fun h => htarget h.1, if_neg fun h => htarget h.1]
    split_ifs <;> simpa [NodeMessage.applyView, NodeMessage.backend, htarget] using h

/-- The removal of other backends. -/
theorem foldl_unregister {ids : List BackendId} (h : id ∉ ids) (v : BackendView) :
    (ids.map NodeMessage.unregister).foldl (fun v m => m.applyView id v) v = v := by
  induction ids generalizing v with
  | nil => rfl
  | cons target ids ih =>
    rw [List.mem_cons, not_or] at h
    have hother : (NodeMessage.unregister target).applyView id v = v :=
      if_neg (Ne.symm h.1)
    rw [List.map_cons, List.foldl_cons, hother]
    exact ih h.2 v

theorem AllKept.step {weight : Fin (n + 1) → ℕ} {last : Option Bool} {a : NodeAction n}
    (h : AllKept id weight last net) (hok : NotReaped id net a) (hstep : net.step a = some net') :
    AllKept id weight (noteDraining id last a) net' := by
  intro i
  cases a with
  | notify target state now =>
    obtain rfl := Option.some.inj hstep
    rw [finalView_issueAll]
    exact (h i).notify target state now
  | runDrainingReaper now =>
    obtain rfl := Option.some.inj hstep
    rw [finalView_issueAll, foldl_unregister hok]
    exact h i
  | deliver receiver now =>
    rw [finalView_deliver hstep]
    exact h i

/-- Shard 0 no longer has the backend. -/
def Gone (id : BackendId) (net : NodeNet n) : Prop := ((net.state 0).viewOf id).record = none

theorem gone_issue {now : ℕ} {m : NodeMessage}
    (h : (m.applyView id ((net.state 0).viewOf id)).record = none) :
    Gone id (net.issue (NodeMessage.apply now) 0 m) := by
  unfold Gone Network.issue
  dsimp only
  rw [Function.update_self, NodeMessage.viewOf_apply]
  exact h

theorem Gone.issueAll (h : Gone id net) (now : ℕ) (messages : List NodeMessage) :
    Gone id (issueAll now net messages) := by
  induction messages generalizing net with
  | nil => exact h
  | cons m messages ih => exact ih (gone_issue (NodeMessage.record_applyView h))

theorem Gone.step {a : NodeAction n} (h : Gone id net) (hstep : net.step a = some net') :
    Gone id net' := by
  cases a with
  | notify | runDrainingReaper =>
    obtain rfl := Option.some.inj hstep
    exact h.issueAll _ _
  | deliver receiver now =>
    rw [NodeNet.step, Network.deliver] at hstep
    split at hstep
    · cases hstep
    · next m rest hhead =>
      obtain rfl := Option.some.inj hstep
      unfold Gone
      dsimp only
      by_cases hreceiver : receiver = 0
      · subst hreceiver
        rw [Function.update_self, NodeMessage.viewOf_apply]
        exact NodeMessage.record_applyView h
      · rw [Function.update_of_ne (Ne.symm hreceiver)]
        exact h

/-- The reaper removes what it finds. -/
theorem gone_of_reaped {a : NodeAction n} (h : ¬ NotReaped id net a)
    (hstep : net.step a = some net') : Gone id net' := by
  cases a with
  | notify | deliver => exact absurd trivial h
  | runDrainingReaper now =>
    obtain rfl := Option.some.inj hstep
    have hmem : id ∈ (net.state 0).drainExpired now := not_not.mp h
    obtain ⟨before, after, hsplit⟩ := List.append_of_mem hmem
    rw [hsplit, List.map_append, List.map_cons, issueAll, List.foldl_append, List.foldl_cons]
    refine Gone.issueAll (gone_issue ?_) now _
    simp [NodeMessage.applyView, NodeMessage.backend]

theorem gone_of_not_meets {run : List (NodeAction n)} (h : ¬ Meets step (NotReaped id) net run)
    (hexec : exec step net run = some net') : Gone id net' := by
  induction run generalizing net with
  | nil => exact absurd trivial h
  | cons a run ih =>
    obtain ⟨t, ht, hrest⟩ := exec_cons hexec
    rw [Meets, ht] at h
    by_cases hok : NotReaped id net a
    · exact ih (fun hmeets => h ⟨hok, hmeets⟩) hrest
    · refine exec_induction (I := fun _ net => Gone id net) ?_ (h := []) hrest
        (gone_of_reaped hok ht)
      exact fun hstep hgone => Gone.step hgone hstep

/-- **An ACTIVE restores what has not been reaped.** A backend is registered on every shard, with
some weight there. After any notifications of any nodes, runs of the reaper and deliveries, at
any times, when the last notification about it was ACTIVE and has arrived everywhere: it is
registered and not draining, with that weight, on every shard, exactly if no run of the reaper
found it to be draining for too long. -/
theorem restored_iff_notReaped {weight : Fin (n + 1) → ℕ} {run : List (NodeAction n)}
    (hquiet : net.Quiet)
    (hregistered : ∀ i, id ∈ (net.state i).backendIds ∧
      ∃ info, (net.state i).backends id = some info ∧ info.weight = weight i)
    (hexec : exec step net run = some net') (hactive : lastDraining id run = some false)
    (hdone : net'.Quiet) :
    (∀ i, Restored id (weight i) (net'.state i)) ↔ Meets step (NotReaped id) net run := by
  constructor
  · intro hrestored
    by_contra hreaped
    obtain ⟨-, info, hinfo, -⟩ := hrestored 0
    have hgone := gone_of_not_meets hreaped hexec
    simp [Gone, ShardRegistry.viewOf, hinfo] at hgone
  · intro hmeets i
    have hstart : AllKept id weight none net := by
      intro i
      obtain ⟨hlisted, info, hinfo, hweight⟩ := hregistered i
      refine ⟨?_, info.toRecord, ?_, hweight, fun _ hnone => by cases hnone⟩
      · simpa [finalView, hquiet 0 i, ShardRegistry.viewOf] using hlisted
      · simp [finalView, hquiet 0 i, ShardRegistry.viewOf, hinfo]
    have hkept : AllKept id weight (lastDraining id ([] ++ run)) net' := by
      refine exec_invariant (I := fun h net => AllKept id weight (lastDraining id h) net) ?_
        hmeets hexec hstart
      intro h s a s' hok hstep hall
      rw [lastDraining, List.foldl_concat]
      exact hall.step hok hstep
    obtain ⟨hlisted, r, hrecord, hweight, hdraining⟩ := hkept i
    have hfinal : finalView id net' i = (net'.state i).viewOf id := by
      rw [finalView, hdone 0 i]
      rfl
    rw [hfinal] at hlisted hrecord
    obtain ⟨info, hinfo, rfl⟩ := Option.map_eq_some_iff.mp hrecord
    exact ⟨by simpa [ShardRegistry.viewOf] using hlisted, info, hinfo, hdraining false hactive,
      hweight⟩

/-- Two shards that know one backend. -/
def oneBackend : NodeNet 1 where
  state _ := ((Registry.booted 1).state Registry.shardZero).registerBackend 7
    { addr := 101, weight := 40 }
  inFlight _ _ := []
  self_empty _ := rfl

/-- The node drains, and returns before the time is over. -/
def returnsInTime : List (NodeAction 1) :=
  [.notify 7 .DRAINING 10, .deliver Registry.shardOne 11, .runDrainingReaper 40,
    .notify 7 .ACTIVE 50, .deliver Registry.shardOne 51]

theorem restored_iff_notReaped_inTime :
    ∃ net, exec step oneBackend returnsInTime = some net ∧
      ∀ i, Restored 7 40 (net.state i) := by
  have hsome : (exec step oneBackend returnsInTime).isSome := by decide +kernel
  refine ⟨_, exec_eq_some_getD hsome, ?_⟩
  have hregistered : ∀ i, 7 ∈ (oneBackend.state i).backendIds ∧
      ∃ info, (oneBackend.state i).backends 7 = some info ∧ info.weight = 40 :=
    fun i => ⟨by decide +kernel +revert, _, rfl, rfl⟩
  refine (@restored_iff_notReaped 1 7 oneBackend _ (fun _ => 40) returnsInTime (fun _ _ => rfl)
    hregistered (exec_eq_some_getD hsome) (by decide +kernel) ?_).mpr (by decide +kernel)
  unfold Network.Quiet
  decide +kernel

/-- The node drains, and returns when the reaper has been there. -/
def returnsTooLate : List (NodeAction 1) :=
  [.notify 7 .DRAINING 10, .deliver Registry.shardOne 11, .runDrainingReaper 75,
    .deliver Registry.shardOne 76, .notify 7 .ACTIVE 100, .deliver Registry.shardOne 101]

/-- The ACTIVE has been handled everywhere, and the backend is registered nowhere. -/
theorem returnsTooLate_gone :
    ∃ net, exec step oneBackend returnsTooLate = some net ∧ net.Quiet ∧
      lastDraining 7 returnsTooLate = some false ∧ ∀ i, ((net.state i).backends 7).isNone := by
  have hsome : (exec step oneBackend returnsTooLate).isSome := by decide +kernel
  refine ⟨_, exec_eq_some_getD hsome, ?_, by decide +kernel, by decide +kernel⟩
  unfold Network.Quiet
  decide +kernel

end NodeNet

end Ranvier
