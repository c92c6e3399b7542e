import Ranvier.HeldIterators
import Ranvier.IdCollisions

/-!
# A resync beside the watch

The resync removes what its list does not have, and decides so long after the list
was taken; a removal erases its entry long after it decided to. An endpoint that
the watch writes in between is lost in two ways: the list is too old to have it, or
the removal of its former entry is still under way and erases the new one.
-/

namespace Ranvier

namespace Batch

/-- A removal of the endpoint is queued or under way. -/
def Removes (b : Batch) (uid : String) : Prop :=
  .removed uid ∈ b.queue ∨ ∃ it ∈ iterators b.waiting, it.key = uid

instance (b : Batch) (uid : String) : Decidable (b.Removes uid) :=
  inferInstanceAs (Decidable (_ ∨ ∃ it ∈ iterators b.waiting, it.key = uid))

/-- A batch that removes nothing. -/
def Writes (b : Batch) : Prop :=
  (∀ op ∈ b.queue, op.writes ≠ none) ∧ iterators b.waiting = []

/-- A batch that writes nothing. -/
def Erases (b : Batch) : Prop := ∀ op ∈ b.queue, op.writes = none

theorem Writes.not_removes {b : Batch} (h : b.Writes) (uid : String) : ¬b.Removes uid := by
  rintro (hqueue | ⟨it, hit, -⟩)
  · exact h.1 _ hqueue rfl
  · rw [h.2] at hit
    cases hit

end Batch

/-- The action is a watch event that removes the endpoint. -/
def K8sAction.deletes (targetPort : ℕ) (uid : String) : K8sAction → Bool
  | .event (.DELETED doc) => (doc.parse targetPort).any fun ep => ep.uid = uid
  | _ => false

namespace K8sService

variable {socketAddress : String → ℕ → Option SocketAddress} {targetPort : ℕ}
  {s s' : K8sService} {u : String}

/-- A scan for stale endpoints finds the endpoint in the list. -/
def ListHas (u : String) (s : K8sService) : K8sAction → Prop
  | .scan _ =>
    match s.phase with
    | .syncing currentUids => u ∈ currentUids
    | _ => True
  | _ => True

instance (u : String) (s : K8sService) (a : K8sAction) : Decidable (ListHas u s a) := by
  unfold ListHas
  split
  · split <;> infer_instance
  · infer_instance

/-- The endpoint is tracked and nothing is about to remove it. -/
structure Kept (u : String) (s : K8sService) : Prop where
  steady : s.Steady
  tracked : (s.tracked u).isSome
  resync : ¬s.resync.Removes u
  watch : ¬s.watch.Removes u

theorem Kept.not_removes (h : s.Kept u) (w : Writer) : ¬(s.batch w).Removes u := by
  cases w with
  | resync => exact h.resync
  | watch => exact h.watch

/-! ## The batches after a handler -/

/-- A handler of one writer brings no removal of the endpoint about, unless it is one. -/
theorem not_removes_advance (w' : Writer) {w : Writer} {queue : List EndpointOp} {waiting : List Suspended}
    {p : Continuation} (h : ∀ w, ¬(s.batch w).Removes u) (hqueue : queue ⊆ (s.batch w).queue)
    (hwaiting : waiting ⊆ (s.batch w).waiting)
    (hwaits : ∀ it ∈ iterators p.waits.toList, it.key ≠ u) :
    ¬((s.advance w queue waiting p).batch w').Removes u := by
  rw [batch_advance]
  split
  · next hw =>
    rintro (hremoved | ⟨it, hit, hkey⟩)
    · exact h w (.inl (hqueue hremoved))
    · rw [iterators, List.filterMap_append] at hit
      rcases List.mem_append.mp hit with hit | hit
      · refine h w (.inr ⟨it, ?_, hkey⟩)
        exact mem_iterators.mpr (hwaiting (mem_iterators.mp hit))
      · exact hwaits it hit hkey
  · exact h w'

theorem removed_notMem_operations {discovered : List K8sEndpoint} {uid : String} :
    .removed uid ∉ s.operations discovered := fun h => writes_of_mem_operations h rfl

theorem tracked_write {ep : K8sEndpoint} {rehash : Bool} (h : (s.tracked u).isSome) :
    ((s.service.write ep rehash).endpoints.get u).isSome := by
  rw [K8sDiscovery.write, FlatHashMap.get_set]
  split
  · rfl
  · exact h

/-! ## An endpoint that is kept -/

theorem Kept.start {w : Writer} {rehash : Bool} {now : ℕ} (h : s.Kept u)
    (hcareful : s.Careful (.start w rehash now))
    (hstep : s.step socketAddress targetPort (.start w rehash now) = some s') : s'.Kept u := by
  have hsteady := h.steady.start hcareful hstep
  obtain ⟨op, queue, hqueue, rfl⟩ := step_start hstep
  have hbegins := s.service.begin_begins socketAddress rehash now op
  generalize s.service.begin socketAddress rehash now op = p at hbegins hsteady ⊢
  have hsub : queue ⊆ (s.batch w).queue := by
    rw [hqueue]
    exact List.subset_cons_self op queue
  -- the handler keeps the entry and holds no iterator to it
  suffices hspares : (p.service.endpoints.get u).isSome ∧
      ∀ it ∈ iterators p.waits.toList, it.key ≠ u from
    { steady := hsteady
      tracked := hspares.1
      resync := not_removes_advance .resync h.not_removes hsub (List.Subset.refl _) hspares.2
      watch := not_removes_advance .watch h.not_removes hsub (List.Subset.refl _) hspares.2 }
  cases hbegins with
  | rejected _ _ | absent _ => exact ⟨h.tracked, by simp [iterators]⟩
  | added _ requests | modified _ requests =>
    refine ⟨tracked_write h.tracked, ?_⟩
    rw [iterators_of_requests requests]
    simp
  | addedIdle _ | drained _ _ | modifiedIdle _ _ =>
    exact ⟨tracked_write h.tracked, by simp [iterators, Suspended.iterator?]⟩
  | @removed uid ep it _ tracked found =>
    refine ⟨h.tracked, ?_⟩
    intro it' hit' hkey
    obtain rfl : it' = it := by simpa [iterators, Suspended.iterator?] using hit'
    rw [FlatHashMap.find_key found] at hkey
    subst hkey
    refine h.not_removes w (.inl ?_)
    rw [hqueue]
    exact List.mem_cons_self

theorem Kept.resume_step {w : Writer} {i : ℕ} {secret : Option String}
    {wreck : FlatHashMap String K8sEndpoint} (h : s.Kept u)
    (hstep : s.step socketAddress targetPort (.resume w i secret wreck) = some s') : s'.Kept u := by
  have hsteady := h.steady.resume hstep
  obtain ⟨t, ht, rfl⟩ := step_resume hstep
  have hresumes := s.service.resume_resumes socketAddress secret wreck t
  have hsub : (s.batch w).waiting.eraseIdx i ⊆ (s.batch w).waiting := List.eraseIdx_subset
  generalize s.service.resume socketAddress secret wreck t = p at hresumes hsteady ⊢
  suffices hspares : (p.service.endpoints.get u).isSome ∧ iterators p.waits.toList = [] by
    have hnone : ∀ it ∈ iterators p.waits.toList, it.key ≠ u := by
      rw [hspares.2]
      simp
    exact
      { steady := hsteady
        tracked := hspares.1
        resync := not_removes_advance .resync h.not_removes (List.Subset.refl _) hsub hnone
        watch := not_removes_advance .watch h.not_removes (List.Subset.refl _) hsub hnone }
  cases hresumes with
  | unresolved | invalid _ | registered _ | callback => exact ⟨h.tracked, rfl⟩
  | @erased _ it =>
    refine ⟨?_, rfl⟩
    have hit : it ∈ iterators (s.batch w).waiting :=
      mem_iterators.mpr (List.mem_of_getElem? ht)
    have hvalid : s.service.endpoints.Valid it :=
      h.steady.valid it ((s.held_perm w).mem_iff.mpr (List.mem_append_left _ hit))
    show ((s.service.endpoints.eraseAt it wreck).get u).isSome
    rw [FlatHashMap.get_eraseAt hvalid, if_neg]
    · exact h.tracked
    · rintro rfl
      exact h.not_removes w (.inr ⟨it, hit, rfl⟩)

/-- **A kept endpoint stays kept**, unless a scan finds it missing from the list or
an event removes it. -/
theorem Kept.step {a : K8sAction} (h : s.Kept u) (hcareful : s.Careful a)
    (hlisted : ListHas u s a) (hdeletes : a.deletes targetPort u = false)
    (hstep : s.step socketAddress targetPort a = some s') : s'.Kept u := by
  cases a with
  | start w rehash now => exact h.start hcareful hstep
  | resume w i secret wreck => exact h.resume_step hstep
  | takeList discovered =>
    have hsteady := h.steady.step hcareful hstep
    obtain ⟨_, rfl⟩ := step_takeList hstep
    exact ⟨hsteady, h.tracked, h.resync, h.watch⟩
  | finish =>
    have hsteady := h.steady.step hcareful hstep
    obtain ⟨_, rfl⟩ := step_finish hstep
    exact ⟨hsteady, h.tracked, h.resync, h.watch⟩
  | reap id =>
    have hsteady := h.steady.step hcareful hstep
    obtain ⟨_, rfl⟩ := step_reap hstep
    exact ⟨hsteady, h.tracked, h.resync, h.watch⟩
  | sync =>
    have hsteady := h.steady.step hcareful hstep
    obtain ⟨discovered, _, _, rfl⟩ := step_sync hstep
    refine ⟨hsteady, h.tracked, ?_, h.watch⟩
    rintro (hqueue | ⟨it, hit, -⟩)
    · exact removed_notMem_operations hqueue
    · cases hit
  | scan uids =>
    have hsteady := h.steady.step hcareful hstep
    obtain ⟨currentUids, hphase, _, hperm, rfl⟩ := step_scan hstep
    refine ⟨hsteady, h.tracked, ?_, h.watch⟩
    simp only [ListHas, hphase] at hlisted
    rintro (hqueue | ⟨it, hit, -⟩)
    · obtain ⟨uid, huid, he⟩ := List.mem_map.mp hqueue
      obtain rfl : uid = u := EndpointOp.removed.inj he
      have hstale := (List.mem_filter.mp (hperm.mem_iff.mp huid)).2
      exact absurd hlisted (by simpa using hstale)
    · cases hit
  | event e =>
    have hsteady := h.steady.step hcareful hstep
    obtain ⟨_, rfl⟩ := step_event hstep
    refine ⟨hsteady, h.tracked, h.resync, ?_⟩
    rintro (hqueue | ⟨it, hit, -⟩)
    · cases e with
      | ADDED doc => exact removed_notMem_operations hqueue
      | MODIFIED doc => exact removed_notMem_operations hqueue
      | DELETED doc =>
        obtain ⟨ep, hep, he⟩ := List.mem_map.mp hqueue
        have hany : (doc.parse targetPort).any (fun ep => decide (ep.uid = u)) = true :=
          List.any_eq_true.mpr ⟨ep, hep, by simpa using EndpointOp.removed.inj he⟩
        exact Bool.false_ne_true (hdeletes.symm.trans hany)
    · cases hit

/-! ## The batches of the watch -/

/-- An event writes endpoints or removes them, never both. -/
def WatchPure (s : K8sService) : Prop := s.watch.Writes ∨ s.watch.Erases

theorem WatchPure.advance {w : Writer} {queue : List EndpointOp} {waiting : List Suspended}
    {p : Continuation} (h : s.WatchPure) (hqueue : queue ⊆ (s.batch w).queue)
    (hwaiting : waiting ⊆ (s.batch w).waiting)
    (hwaits : w = .watch → s.watch.Writes → iterators p.waits.toList = []) :
    (s.advance w queue waiting p).WatchPure := by
  cases w with
  | resync => exact h
  | watch =>
    rcases h with hwrites | herases
    · refine .inl ⟨fun op hop => hwrites.1 op (hqueue hop), ?_⟩
      show iterators (waiting ++ p.waits.toList) = []
      rw [iterators, List.filterMap_append, List.append_eq_nil_iff]
      refine ⟨?_, hwaits rfl hwrites⟩
      refine List.eq_nil_iff_forall_not_mem.mpr fun it hit => ?_
      have hheld := mem_iterators.mpr (hwaiting (mem_iterators.mp hit))
      rw [show iterators (s.batch .watch).waiting = [] from hwrites.2] at hheld
      cases hheld
    · exact .inr fun op hop => herases op (hqueue hop)

theorem WatchPure.step {a : K8sAction} (h : s.WatchPure)
    (hstep : s.step socketAddress targetPort a = some s') : s'.WatchPure := by
  cases a with
  | takeList discovered =>
    obtain ⟨_, rfl⟩ := step_takeList hstep
    exact h
  | sync =>
    obtain ⟨_, _, _, rfl⟩ := step_sync hstep
    exact h
  | scan uids =>
    obtain ⟨_, _, _, _, rfl⟩ := step_scan hstep
    exact h
  | finish =>
    obtain ⟨_, rfl⟩ := step_finish hstep
    exact h
  | reap id =>
    obtain ⟨_, rfl⟩ := step_reap hstep
    exact h
  | event e =>
    obtain ⟨_, rfl⟩ := step_event hstep
    cases e with
    | ADDED doc => exact .inl ⟨fun op hop => writes_of_mem_operations hop, rfl⟩
    | MODIFIED doc => exact .inl ⟨fun op hop => writes_of_mem_operations hop, rfl⟩
    | DELETED doc =>
      refine .inr fun op hop => ?_
      obtain ⟨ep, -, rfl⟩ := List.mem_map.mp hop
      rfl
  | start w rehash now =>
    obtain ⟨op, queue, hqueue, rfl⟩ := step_start hstep
    have hbegins := s.service.begin_begins socketAddress rehash now op
    generalize s.service.begin socketAddress rehash now op = p at hbegins ⊢
    refine h.advance (by rw [hqueue]; exact List.subset_cons_self op queue) (List.Subset.refl _) ?_
    rintro rfl hwrites
    refine iterators_of_writes hbegins (hwrites.1 op ?_)
    rw [show s.watch.queue = op :: queue from hqueue]
    exact List.mem_cons_self
  | resume w i secret wreck =>
    obtain ⟨t, _, rfl⟩ := step_resume hstep
    have hresumes := s.service.resume_resumes socketAddress secret wreck t
    generalize s.service.resume socketAddress secret wreck t = p at hresumes ⊢
    refine h.advance (List.Subset.refl _) List.eraseIdx_subset fun _ _ => ?_
    cases hresumes <;> rfl

/-! ## An endpoint the watch writes -/

/-- The watch has written the endpoint: its next handler was for it, and the map
has what that handler was called with. -/
def WatchWrote (u : String) (s s' : K8sService) : Prop :=
  ∃ op ∈ s.watch.queue.head?, ∃ ep, op.writes = some ep ∧ ep.uid = u ∧ s'.tracked u = some ep

/-- **A resync beside the watch.** In every run of a resync and of watch events,
from a state with nothing under way, an endpoint that the watch writes and that no
later event removes is tracked in every state behind, in particular when both have
finished, if

* no insertion rehashes the map while a removal waits for its drain, and no
  endpoint is removed while a removal of it waits;
* when the watch writes the endpoint, the resync has no removal of it queued or
  under way;
* a scan behind finds the endpoint in the list. -/
theorem watch_written_stays {s₀ t : K8sService} {before after : List K8sAction} {rehash : Bool}
    {now : ℕ} (hidle : s₀.resync.Finished ∧ s₀.watch.Finished)
    (hbefore : exec (fun s => s.step socketAddress targetPort) s₀ before = some s)
    (hwrite : s.step socketAddress targetPort (.start .watch rehash now) = some s')
    (hwrote : WatchWrote u s s')
    (hafter : exec (fun s => s.step socketAddress targetPort) s' after = some t)
    (hnodelete : ∀ a ∈ after, a.deletes targetPort u = false)
    (hcareful : Meets (fun s => s.step socketAddress targetPort) Careful s₀
      (before ++ .start .watch rehash now :: after))
    (hfree : ¬s.resync.Removes u)
    (hlisted : Meets (fun s => s.step socketAddress targetPort) (ListHas u) s' after) :
    (t.tracked u).isSome := by
  obtain ⟨hcareful, hcareful', hcareful''⟩ := (meets_append hbefore).mp hcareful
  simp only [hwrite] at hcareful''
  have hpure : s.WatchPure := by
    refine exec_induction (I := fun _ s => s.WatchPure) (fun hstep h => h.step hstep) (h := [])
      hbefore (.inl ⟨?_, ?_⟩)
    · rw [hidle.2.1]
      simp
    · rw [hidle.2.2]
      rfl
  have hsteady : s.Steady := by
    have hheld : s₀.held = [] := by
      rw [held, hidle.1.2, hidle.2.2]
      rfl
    refine exec_invariant (I := fun _ s => s.Steady) (fun hok hstep h => h.step hok hstep)
      (h := []) hcareful hbefore ⟨?_, ?_⟩ <;> rw [hheld] <;> simp
  have hkept : s'.Kept u := by
    have hsteady' := hsteady.start hcareful' hwrite
    obtain ⟨op, hop, ep, hep, rfl, htracked⟩ := hwrote
    obtain ⟨op', queue, hqueue, rfl⟩ := step_start hwrite
    rw [show s.watch.queue = op' :: queue from hqueue, List.head?_cons, Option.mem_some] at hop
    subst hop
    have hmem : op' ∈ s.watch.queue := by
      rw [show s.watch.queue = op' :: queue from hqueue]
      exact List.mem_cons_self
    have hwatch : s.watch.Writes := by
      refine hpure.resolve_right fun herases => ?_
      exact Option.some_ne_none ep (hep.symm.trans (herases op' hmem))
    have hnone : ∀ w, ¬(s.batch w).Removes ep.uid := by
      intro w
      cases w with
      | resync => exact hfree
      | watch => exact hwatch.not_removes ep.uid
    have hwaits := iterators_of_writes (s.service.begin_begins socketAddress rehash now op')
      (hwatch.1 op' hmem)
    have hsub : queue ⊆ (s.batch .watch).queue := by
      rw [hqueue]
      exact List.subset_cons_self op' queue
    refine ⟨hsteady', by rw [htracked]; rfl, hfree, ?_⟩
    refine not_removes_advance .watch hnone hsub (List.Subset.refl _) ?_
    rw [hwaits]
    simp
  have hend : t.Kept u :=
    exec_invariant (I := fun _ s => s.Kept u)
      (fun hok hstep h => h.step hok.1 hok.2.1 hok.2.2 hstep) (h := [])
      (hcareful''.and (hlisted.and (meets_of_forall_mem hnodelete))) hafter hkept
  exact hend.tracked

/-! ## Runs -/

/-- The service after a run from its start. -/
def after (run : List K8sAction) : K8sService :=
  (exec (fun s => step podAddress 8080 s) {} run).getD {}

/-- The list has the endpoint the watch is about to write. -/
def listedAndSeen : List K8sAction :=
  [.takeList [endpointOf "10.4.1.70"], .event (.ADDED (sliceOf "10.4.1.70" true))]

/-- The list is worked through behind the watch event. -/
def listWorkedThrough : List K8sAction :=
  [.resume .watch 0 none {}, .sync, .start .resync false 0, .resume .resync 0 none {}, .scan [],
    .finish]

theorem watch_written_stays_listed :
    (after (listedAndSeen ++ .start .watch false 0 :: listWorkedThrough)).phase = .done ∧
      ((after (listedAndSeen ++ .start .watch false 0 :: listWorkedThrough)).tracked
        "10.4.1.70").isSome := by
  refine ⟨by decide, ?_⟩
  refine @watch_written_stays podAddress 8080 (after listedAndSeen)
    (after (listedAndSeen ++ [.start .watch false 0])) "10.4.1.70" {} _ listedAndSeen
    listWorkedThrough false 0 (by decide)
    (exec_eq_some_getD (by decide)) ?_ ?_ ?_ (by decide) (by decide)
    (by decide) (by decide)
  · exact (Option.getD_of_ne_none (by decide) {}).symm
  · exact ⟨.added (endpointOf "10.4.1.70"), by decide, endpointOf "10.4.1.70", rfl, rfl,
      by decide⟩
  · exact (Option.getD_of_ne_none (by decide) {}).symm

/-- A list without the endpoint is taken, the watch adds it, and the resync goes on. -/
def addedBehindList : List K8sAction :=
  K8sAction.takeList [] :: handled (.ADDED (sliceOf "10.4.1.70" true)) ++
    [K8sAction.sync, .scan ["10.4.1.70"], .start .resync false 0,
      .resume .resync 0 none {}, .finish]

/-- The endpoint was gone when the list was taken; while the resync drains it, the
watch adds it again. -/
def addedWhileDrained : List K8sAction :=
  handled (.ADDED (sliceOf "10.4.1.70" true)) ++
    [K8sAction.takeList [], .sync, .scan ["10.4.1.70"], .start .resync false 0] ++
    handled (.MODIFIED (sliceOf "10.4.1.70" true)) ++
    [K8sAction.resume .resync 0 none {}, .finish]

/-- Both runs end with resync and watch finished, and have lost the endpoint. -/
theorem watch_added_lost :
    ((after (addedBehindList.take 4)).tracked "10.4.1.70" = some (endpointOf "10.4.1.70") ∧
        (after addedBehindList).phase = .done ∧ (after addedBehindList).watch.Finished ∧
        (after addedBehindList).tracked "10.4.1.70" = none) ∧
      (after (addedWhileDrained.take 10)).tracked "10.4.1.70" = some (endpointOf "10.4.1.70") ∧
        (after addedWhileDrained).phase = .done ∧ (after addedWhileDrained).watch.Finished ∧
        (after addedWhileDrained).tracked "10.4.1.70" = none := by
  decide

end K8sService

end Ranvier
