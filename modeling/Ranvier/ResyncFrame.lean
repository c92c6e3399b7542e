import Ranvier.IdCollisions

/-!
# A resync that finds nothing new

The resync hands every endpoint of its list that is tracked to
`handle_endpoint_modified`, which registers a ready endpoint again whether or not
anything about it changed, and a registration replaces the record of the backend.
So the in-flight requests, the reserved cost and the draining flag of a backend
survive a resync that finds nothing new exactly when they are at their defaults,
on every shard.
-/

namespace Ranvier

/-- The counters and the draining flag of the registered backends are as before. -/
def ShardRegistry.FrameKept (shard shard' : ShardRegistry) : Prop :=
  ∀ id info, shard.backends id = some info → ∃ info', shard'.backends id = some info' ∧
    info'.activeRequests = info.activeRequests ∧
    info'.currentCostBudget = info.currentCostBudget ∧ info'.isDraining = info.isDraining

/-- No request in flight, no cost reserved, not draining. -/
def BackendInfo.Idle (info : BackendInfo) : Prop :=
  info.activeRequests = 0 ∧ info.currentCostBudget = 0 ∧ info.isDraining = false

/-- The action is one of the resync. -/
def K8sAction.ofResync : K8sAction → Bool
  | .sync => true
  | .scan _ => true
  | .finish => true
  | .start w _ _ => w = .resync
  | .resume w _ _ _ => w = .resync
  | _ => false

namespace K8sService

section Frame

variable {socketAddress : String → ℕ → Option SocketAddress} {targetPort : ℕ}
  {secrets : String → Option String} {discovered : List K8sEndpoint} {s s' : K8sService}

/-- A secret lookup answers with what `secrets` has. -/
def Resolves (secrets : String → Option String) (s : K8sService) : K8sAction → Prop
  | .resume w i secret _ =>
    match (s.batch w).waiting[i]? with
    | some (.secret ep) => secret = secrets ep.apiKeySecretRef
    | _ => True
  | _ => True

instance (s : K8sService) (a : K8sAction) : Decidable (Resolves secrets s a) := by
  unfold Resolves
  split
  · split <;> infer_instance
  · infer_instance

variable (socketAddress secrets discovered) in
/-- The endpoint of the list is ready, its credential is found and its address is one. -/
structure Registrable (ep : K8sEndpoint) : Prop where
  listed : ep ∈ discovered
  ready : ep.ready = true
  credential : ep.apiKeySecretRef = "" ∨ (secrets ep.apiKeySecretRef).isSome
  address : (socketAddress ep.address ep.port).isSome

variable (socketAddress) in
/-- The endpoint's registration is among the calls. -/
def RegisteredIn (calls : List RegistryMessage) (ep : K8sEndpoint) : Prop :=
  ∃ addr, socketAddress ep.address ep.port = some addr ∧
    .register ep.toBackendId (ep.registration addr) ∈ calls

/-! ## The calls on a shard -/

theorem onShard_registers {calls : List RegistryMessage}
    (h : ∀ m ∈ calls, ∃ id r, m = .register id r) (shard : ShardRegistry) (id : BackendId) :
    ((∀ r, .register id r ∉ calls) ∧ (onShard calls shard).backends id = shard.backends id) ∨
      ∃ r, .register id r ∈ calls ∧
        (onShard calls shard).backends id = some r.toBackendInfo := by
  induction calls using List.reverseRecOn with
  | nil => exact .inl ⟨by simp, rfl⟩
  | append_singleton calls m ih =>
    obtain ⟨target, r, rfl⟩ := h m (by simp)
    have happly : onShard (calls ++ [.register target r]) shard =
        (onShard calls shard).registerBackend target r := by
      rw [onShard, List.foldl_append]
      rfl
    rw [happly]
    by_cases hid : id = target
    · subst hid
      exact .inr ⟨r, by simp, Function.update_self ..⟩
    · have hother : ((onShard calls shard).registerBackend target r).backends id =
          (onShard calls shard).backends id := Function.update_of_ne hid ..
      rw [hother]
      rcases ih fun m hm => h m (List.mem_append_left _ hm) with ⟨hnone, hsame⟩ | ⟨r', hr', hrecord⟩
      · refine .inl ⟨fun r' hr' => ?_, hsame⟩
        rcases List.mem_append.mp hr' with hr' | hr'
        · exact hnone r' hr'
        · rw [List.mem_singleton, RegistryMessage.register.injEq] at hr'
          exact hid hr'.1
      · exact .inr ⟨r', List.mem_append_left _ hr', hrecord⟩

/-! ## The resync under way -/

variable (socketAddress secrets discovered) in
/-- How far the resync is, with the calls it has made: the map is as before, the
calls are registrations of endpoints of the list, and of each registrable one the
registration is called or still to come. -/
structure Unchanged (start s : K8sService) (calls : List RegistryMessage) : Prop where
  calls_eq : s.calls = start.calls ++ calls
  tracked : ∀ uid, s.tracked uid = start.tracked uid
  sound : ∀ m ∈ calls, ∃ ep addr, Registrable socketAddress secrets discovered ep ∧
    socketAddress ep.address ep.port = some addr ∧
      m = .register ep.toBackendId (ep.registration addr)
  queue : ∀ op ∈ s.resync.queue, ∃ ep ∈ discovered, op = .modified ep
  waiting : ∀ t ∈ s.resync.waiting, t = .callback ∨
    ∃ ep ∈ discovered, ep.ready = true ∧ ep.apiKeySecretRef ≠ "" ∧ t = .secret ep
  complete : ∀ ep, Registrable socketAddress secrets discovered ep →
    (s.phase = .listed discovered ∨ .modified ep ∈ s.resync.queue ∨
      .secret ep ∈ s.resync.waiting ∨ RegisteredIn socketAddress calls ep)
  phase : s.phase = .listed discovered ∨
    s.phase = .syncing (discovered.map K8sEndpoint.uid) ∨ s.phase = .removing ∨ s.phase = .done
  finished : s.phase = .done → s.resync.Finished

/-- A listed endpoint is tracked with the record the list has. -/
def ListsTracked (discovered : List K8sEndpoint) (s : K8sService) : Prop :=
  (∀ ep ∈ discovered, s.tracked ep.uid = some ep) ∧
    ∀ uid, (s.tracked uid).isSome → uid ∈ discovered.map K8sEndpoint.uid

section Steps

variable {start : K8sService} {calls : List RegistryMessage}

theorem Unchanged.sync (h : Unchanged socketAddress secrets discovered start s calls)
    (hlists : ListsTracked discovered start)
    (hstep : s.step socketAddress targetPort .sync = some s') :
    Unchanged socketAddress secrets discovered start s' calls := by
  obtain ⟨listed, hphase, -, rfl⟩ := step_sync hstep
  obtain rfl : listed = discovered := by
    rcases h.phase with hp | hp | hp | hp <;> rw [hphase] at hp <;> cases hp
    rfl
  have hops : s.operations listed = listed.map .modified := by
    refine List.map_congr_left fun ep hep => if_neg ?_
    rw [h.tracked, hlists.1 ep hep]
    exact Option.some_ne_none ep
  refine { h with
    queue := ?_, waiting := by simp, complete := ?_, phase := .inr (.inl rfl), finished := by simp }
  · intro op hop
    rw [hops] at hop
    obtain ⟨ep, hep, rfl⟩ := List.mem_map.mp hop
    exact ⟨ep, hep, rfl⟩
  · intro ep hep
    refine .inr (.inl ?_)
    rw [hops]
    exact List.mem_map_of_mem hep.listed

theorem Unchanged.scan {uids : List String}
    (h : Unchanged socketAddress secrets discovered start s calls)
    (hlists : ListsTracked discovered start)
    (hstep : s.step socketAddress targetPort (.scan uids) = some s') :
    Unchanged socketAddress secrets discovered start s' calls := by
  obtain ⟨currentUids, hphase, hfinished, hperm, rfl⟩ := step_scan hstep
  obtain rfl : currentUids = discovered.map K8sEndpoint.uid := by
    rcases h.phase with hp | hp | hp | hp <;> rw [hphase] at hp <;> cases hp
    rfl
  -- every tracked endpoint is in the list
  have hnone : uids = [] := by
    refine List.eq_nil_iff_forall_not_mem.mpr fun uid huid => ?_
    obtain ⟨hkey, hstale⟩ := List.mem_filter.mp (hperm.mem_iff.mp huid)
    have htracked : (start.tracked uid).isSome := by
      rw [← h.tracked]
      exact FlatHashMap.get_isSome_iff.mpr hkey
    exact absurd (hlists.2 uid htracked) (by simpa using hstale)
  subst hnone
  refine { h with
    queue := by simp, waiting := by simp, complete := ?_, phase := .inr (.inr (.inl rfl))
    finished := by simp }
  intro ep hep
  rcases h.complete ep hep with hp | hqueue | hwaiting | hdone
  · rw [hphase] at hp
    cases hp
  · rw [hfinished.1] at hqueue
    cases hqueue
  · rw [hfinished.2] at hwaiting
    cases hwaiting
  · exact .inr (.inr (.inr hdone))

theorem RegisteredIn.append {ep : K8sEndpoint} (h : RegisteredIn socketAddress calls ep)
    (more : List RegistryMessage) : RegisteredIn socketAddress (calls ++ more) ep := by
  obtain ⟨addr, haddr, hmem⟩ := h
  exact ⟨addr, haddr, List.mem_append_left _ hmem⟩

/-- A handler of the resync that leaves the map as it is, with the calls and waits
of a registration. -/
theorem Unchanged.advance {queue : List EndpointOp} {waiting : List Suspended} {p : Continuation}
    (h : Unchanged socketAddress secrets discovered start s calls) (hdone : s.phase ≠ .done)
    (htracked : ∀ uid, p.service.endpoints.get uid = start.tracked uid)
    (hqueue : queue ⊆ s.resync.queue) (hwaiting : waiting ⊆ s.resync.waiting)
    (hsound : ∀ m ∈ p.calls, ∃ ep addr, Registrable socketAddress secrets discovered ep ∧
      socketAddress ep.address ep.port = some addr ∧
        m = .register ep.toBackendId (ep.registration addr))
    (hwaits : ∀ t ∈ p.waits, t = .callback ∨
      ∃ ep ∈ discovered, ep.ready = true ∧ ep.apiKeySecretRef ≠ "" ∧ t = .secret ep)
    (hcomplete : ∀ ep, Registrable socketAddress secrets discovered ep →
      .modified ep ∈ s.resync.queue ∨ .secret ep ∈ s.resync.waiting →
        .modified ep ∈ queue ∨ .secret ep ∈ waiting ∨ .secret ep ∈ p.waits ∨
          RegisteredIn socketAddress p.calls ep) :
    Unchanged socketAddress secrets discovered start (s.advance .resync queue waiting p)
      (calls ++ p.calls) where
  calls_eq := by
    rw [K8sService.advance, h.calls_eq, List.append_assoc]
  tracked := htracked
  sound m hm := (List.mem_append.mp hm).elim (h.sound m) (hsound m)
  queue op hop := h.queue op (hqueue hop)
  waiting t ht := by
    rcases List.mem_append.mp ht with ht | ht
    · exact h.waiting t (hwaiting ht)
    · exact hwaits t (Option.mem_toList.mp ht)
  complete ep hep := by
    have hstill : .modified ep ∈ s.resync.queue ∨ .secret ep ∈ s.resync.waiting →
        (s.advance .resync queue waiting p).phase = .listed discovered ∨
          .modified ep ∈ (s.advance .resync queue waiting p).resync.queue ∨
          .secret ep ∈ (s.advance .resync queue waiting p).resync.waiting ∨
          RegisteredIn socketAddress (calls ++ p.calls) ep := by
      intro hpending
      rcases hcomplete ep hep hpending with hq | hw | hw | ⟨addr, haddr, hcall⟩
      · exact .inr (.inl hq)
      · exact .inr (.inr (.inl (List.mem_append_left _ hw)))
      · exact .inr (.inr (.inl (List.mem_append_right _ (Option.mem_toList.mpr hw))))
      · exact .inr (.inr (.inr ⟨addr, haddr, List.mem_append_right _ hcall⟩))
    rcases h.complete ep hep with hp | hq | hw | hcalled
    · exact .inl hp
    · exact hstill (.inl hq)
    · exact hstill (.inr hw)
    · exact .inr (.inr (.inr (hcalled.append _)))
  phase := h.phase
  finished hphase := absurd hphase hdone

theorem Unchanged.start_step {rehash : Bool} {now : ℕ}
    (h : Unchanged socketAddress secrets discovered start s calls)
    (hlists : ListsTracked discovered start)
    (hstep : s.step socketAddress targetPort (.start .resync rehash now) = some s') :
    ∃ calls', Unchanged socketAddress secrets discovered start s' calls' := by
  obtain ⟨op, queue, hqueue, rfl⟩ := step_start hstep
  have hqueue : s.resync.queue = op :: queue := hqueue
  obtain ⟨ep, hep, rfl⟩ := h.queue op (by rw [hqueue]; exact List.mem_cons_self)
  have hsame : s.service.endpoints.get ep.uid = some ep := (h.tracked ep.uid).trans (hlists.1 ep hep)
  have hbegins := s.service.begin_begins socketAddress rehash now (.modified ep)
  generalize s.service.begin socketAddress rehash now (.modified ep) = p at hbegins ⊢
  -- the write puts back what is there
  have hwrite : ∀ uid, (s.service.write ep rehash).endpoints.get uid = start.tracked uid := by
    intro uid
    rw [K8sDiscovery.write, FlatHashMap.get_set]
    split
    · next huid => rw [huid, hlists.1 ep hep]
    · exact h.tracked uid
  have hdone : s.phase ≠ .done := by
    intro hphase
    have hempty := (h.finished hphase).1
    rw [hqueue] at hempty
    cases hempty
  have hsub : queue ⊆ s.resync.queue := by
    rw [hqueue]
    exact List.subset_cons_self _ queue
  have hpending : ∀ {ep'} {P : Prop}, (ep' = ep → P) →
      .modified ep' ∈ s.resync.queue ∨ .secret ep' ∈ s.resync.waiting →
        .modified ep' ∈ queue ∨ .secret ep' ∈ s.resync.waiting ∨ P := by
    intro ep' P hP
    rw [hqueue]
    rintro (hmem | hmem)
    · rcases List.mem_cons.mp hmem with he | hmem
      · exact .inr (.inr (hP (EndpointOp.modified.inj he)))
      · exact .inl hmem
    · exact .inr (.inl hmem)
  cases hbegins with
  | modified ready requests =>
    cases requests with
    | invalid keyless addr =>
      refine ⟨_, h.advance hdone hwrite hsub (List.Subset.refl _) (by simp) (by simp)
        fun ep' hep' => hpending ?_⟩
      rintro rfl
      exact absurd hep'.address (by rw [addr]; simp)
    | @registered addr keyless parsed =>
      refine ⟨_, h.advance hdone hwrite hsub (List.Subset.refl _) ?_ (by simp)
        fun ep' hep' => hpending ?_⟩
      · intro m hm
        obtain rfl := List.mem_singleton.mp hm
        exact ⟨ep, addr, ⟨hep, ready, .inl keyless, by rw [parsed]; rfl⟩, parsed, rfl⟩
      · rintro rfl
        exact .inr ⟨addr, parsed, List.mem_cons_self⟩
    | secret ref =>
      refine ⟨_, h.advance hdone hwrite hsub (List.Subset.refl _) (by simp) ?_
        fun ep' hep' => hpending ?_⟩
      · intro t ht
        obtain rfl := Option.some.inj ht
        exact .inr ⟨ep, hep, ready, ref, rfl⟩
      · rintro rfl
        exact .inl rfl
  | drained ready wasReady =>
    rw [hsame, Option.any_some, ready] at wasReady
    cases wasReady
  | modifiedIdle ready wasReady =>
    refine ⟨_, h.advance hdone hwrite hsub (List.Subset.refl _) (by simp) (by simp)
      fun ep' hep' => hpending ?_⟩
    rintro rfl
    exact absurd (hep'.ready.symm.trans ready) (by decide)

theorem Unchanged.resume_step {i : ℕ} {secret : Option String}
    {wreck : FlatHashMap String K8sEndpoint}
    (h : Unchanged socketAddress secrets discovered start s calls)
    (hresolves : Resolves secrets s (.resume .resync i secret wreck))
    (hstep : s.step socketAddress targetPort (.resume .resync i secret wreck) = some s') :
    ∃ calls', Unchanged socketAddress secrets discovered start s' calls' := by
  obtain ⟨t, ht, rfl⟩ := step_resume hstep
  have ht : s.resync.waiting[i]? = some t := ht
  have hmem : t ∈ s.resync.waiting := List.mem_of_getElem? ht
  have hdone : s.phase ≠ .done := by
    intro hphase
    rw [(h.finished hphase).2] at hmem
    cases hmem
  simp only [Resolves, batch, ht] at hresolves
  have hresumes := s.service.resume_resumes socketAddress secret wreck t
  generalize s.service.resume socketAddress secret wreck t = p at hresumes ⊢
  have hsub : s.resync.waiting.eraseIdx i ⊆ s.resync.waiting := List.eraseIdx_subset
  have hpending : ∀ {ep'} {P : Prop}, (t = .secret ep' → P) →
      .modified ep' ∈ s.resync.queue ∨ .secret ep' ∈ s.resync.waiting →
        .modified ep' ∈ s.resync.queue ∨ .secret ep' ∈ s.resync.waiting.eraseIdx i ∨ P := by
    rintro ep' P hP (hmem' | hmem')
    · exact .inl hmem'
    · obtain ⟨hi, he⟩ := List.getElem?_eq_some_iff.mp ht
      rcases List.mem_cons.mp ((List.getElem_cons_eraseIdx_perm hi).mem_iff.mpr hmem') with he' | hm
      · exact .inr (.inr (hP (he.symm.trans he'.symm)))
      · exact .inr (.inl hm)
  cases hresumes with
  | @unresolved ep =>
    refine ⟨_, h.advance hdone h.tracked (List.Subset.refl _) hsub (by simp) (by simp)
      fun ep' hep' => hpending fun he => ?_⟩
    obtain rfl := Suspended.secret.inj he
    rcases h.waiting _ hmem with he' | ⟨_, _, _, href, he'⟩
    · cases he'
    · obtain rfl := Suspended.secret.inj he'
      rcases hep'.credential with hkeyless | hsome
      · exact absurd hkeyless href
      · rw [← hresolves] at hsome
        cases hsome
  | @invalid ep _ addr =>
    refine ⟨_, h.advance hdone h.tracked (List.Subset.refl _) hsub (by simp) (by simp)
      fun ep' hep' => hpending fun he => ?_⟩
    obtain rfl := Suspended.secret.inj he
    exact absurd hep'.address (by rw [addr]; simp)
  | @registered ep key addr parsed =>
    obtain ⟨hlisted, hready⟩ : ep ∈ discovered ∧ ep.ready = true := by
      rcases h.waiting _ hmem with he' | ⟨_, hlisted, hready, _, he'⟩
      · cases he'
      · obtain rfl := Suspended.secret.inj he'
        exact ⟨hlisted, hready⟩
    refine ⟨_, h.advance hdone h.tracked (List.Subset.refl _) hsub ?_ (by simp)
      fun ep' hep' => hpending fun he => ?_⟩
    · intro m hm
      obtain rfl := List.mem_singleton.mp hm
      refine ⟨ep, addr, ⟨hlisted, hready, .inr ?_, by rw [parsed]; rfl⟩, parsed, rfl⟩
      rw [← hresolves]
      rfl
    · obtain rfl := Suspended.secret.inj he
      exact .inr ⟨addr, parsed, List.mem_cons_self⟩
  | callback =>
    refine ⟨_, h.advance hdone h.tracked (List.Subset.refl _) hsub (by simp) (by simp)
      fun ep' hep' => hpending fun he => ?_⟩
    cases he
  | erased =>
    rcases h.waiting _ hmem with he | ⟨_, _, _, _, he⟩ <;> cases he

theorem Unchanged.step {a : K8sAction}
    (h : Unchanged socketAddress secrets discovered start s calls)
    (hlists : ListsTracked discovered start) (hresync : a.ofResync = true)
    (hresolves : Resolves secrets s a) (hstep : s.step socketAddress targetPort a = some s') :
    ∃ calls', Unchanged socketAddress secrets discovered start s' calls' := by
  cases a with
  | sync => exact ⟨calls, h.sync hlists hstep⟩
  | scan uids => exact ⟨calls, h.scan hlists hstep⟩
  | finish =>
    obtain ⟨⟨hphase, hfinished⟩, rfl⟩ := step_finish hstep
    refine ⟨calls, { h with complete := ?_, phase := .inr (.inr (.inr rfl)), finished := ?_ }⟩
    · intro ep hep
      rcases h.complete ep hep with hp | hpending
      · rw [hphase] at hp
        cases hp
      · exact .inr hpending
    · exact fun _ => hfinished
  | start w rehash now =>
    obtain rfl : w = .resync := by simpa [K8sAction.ofResync] using hresync
    exact h.start_step hlists hstep
  | resume w i secret wreck =>
    obtain rfl : w = .resync := by simpa [K8sAction.ofResync] using hresync
    exact h.resume_step hresolves hstep
  | takeList _ | event _ | reap _ => cases hresync

end Steps

/-- **A resync that finds nothing new.** For every shard, and every complete resync
whose list has just the tracked endpoints as they are: the in-flight requests, the
reserved cost and the draining flag of all registered backends are as before
exactly when, of each ready endpoint whose credential is found and whose address is
one, the record on that shard (if there is one) has them at their defaults. -/
theorem resync_frame_iff (shard : ShardRegistry) {t : K8sService} {run : List K8sAction}
    (hidle : s.phase = .idle ∧ s.resync.Finished) (hlists : ListsTracked discovered s)
    (hrun : exec (fun s => s.step socketAddress targetPort) s (.takeList discovered :: run) =
      some t)
    (hdone : t.phase = .done) (hresync : ∀ a ∈ run, a.ofResync = true)
    (hsecrets : Meets (fun s => s.step socketAddress targetPort) (Resolves secrets) s
      (.takeList discovered :: run)) :
    shard.FrameKept (onShard (t.calls.drop s.calls.length) shard) ↔
      ∀ ep, Registrable socketAddress secrets discovered ep →
        ∀ info, shard.backends ep.toBackendId = some info → info.Idle := by
  obtain ⟨s₁, hstep, hrest⟩ := exec_cons hrun
  obtain ⟨-, hsecrets⟩ := hsecrets
  simp only [hstep] at hsecrets
  have hstart : Unchanged socketAddress secrets discovered s s₁ [] := by
    obtain ⟨-, rfl⟩ := step_takeList hstep
    refine ⟨by simp, fun _ => rfl, by simp, ?_, ?_, fun _ _ => .inl rfl, .inl rfl, by simp⟩
    · rw [hidle.2.1]
      simp
    · rw [hidle.2.2]
      simp
  obtain ⟨calls, hend⟩ : ∃ calls, Unchanged socketAddress secrets discovered s t calls := by
    refine exec_invariant (I := fun _ t => ∃ calls, Unchanged socketAddress secrets discovered s t
      calls) ?_ (h := []) (hsecrets.and (meets_of_forall_mem hresync)) hrest ⟨[], hstart⟩
    rintro _ _ _ _ hok hstep ⟨calls, h⟩
    exact h.step hlists hok.2 hok.1 hstep
  have hcalls : t.calls.drop s.calls.length = calls := by
    rw [hend.calls_eq, List.drop_left]
  have hcomplete : ∀ ep, Registrable socketAddress secrets discovered ep →
      RegisteredIn socketAddress calls ep := by
    intro ep hep
    have hfinished := hend.finished hdone
    rcases hend.complete ep hep with hp | hqueue | hwaiting | hcalled
    · rw [hdone] at hp
      cases hp
    · rw [hfinished.1] at hqueue
      cases hqueue
    · rw [hfinished.2] at hwaiting
      cases hwaiting
    · exact hcalled
  have hregisters : ∀ m ∈ calls, ∃ id r, m = .register id r := by
    intro m hm
    obtain ⟨ep, addr, -, -, rfl⟩ := hend.sound m hm
    exact ⟨_, _, rfl⟩
  rw [hcalls]
  constructor
  · intro hkept ep hep info hinfo
    obtain ⟨addr, haddr, hcall⟩ := hcomplete ep hep
    obtain ⟨info', hinfo', hactive, hcost, hdraining⟩ := hkept _ info hinfo
    rcases onShard_registers hregisters shard ep.toBackendId with ⟨hnone, -⟩ | ⟨r, -, hrecord⟩
    · exact absurd hcall (hnone _)
    · rw [hrecord] at hinfo'
      obtain rfl := Option.some.inj hinfo'
      exact ⟨hactive.symm, hcost.symm, hdraining.symm⟩
  · intro hclean id info hinfo
    rcases onShard_registers hregisters shard id with ⟨-, hsame⟩ | ⟨r, hcall, hrecord⟩
    · exact ⟨info, by rw [hsame, hinfo], rfl, rfl, rfl⟩
    · obtain ⟨ep, addr, hep, -, he⟩ := hend.sound _ hcall
      obtain ⟨rfl, rfl⟩ := RegistryMessage.register.inj he
      obtain ⟨hactive, hcost, hdraining⟩ := hclean ep hep info hinfo
      exact ⟨_, hrecord, hactive.symm, hcost.symm, hdraining.symm⟩

end Frame

/-! ## Runs -/

/-- A resync with one endpoint in its list. -/
def oneResynced : List K8sAction :=
  [.sync, .start .resync false 0, .resume .resync 0 none {}, .scan [], .finish]

theorem listsTracked_oneEndpoint : ListsTracked [endpointOf "10.4.1.70"] oneEndpoint := by
  have hkeys : keysOf oneEndpoint.service.endpoints.entries = ["10.4.1.70"] := by decide
  refine ⟨?_, fun uid huid => ?_⟩
  · intro ep hep
    obtain rfl := List.mem_singleton.mp hep
    show oneEndpoint.tracked "10.4.1.70" = _
    decide
  · have hmem := FlatHashMap.get_isSome_iff.mp huid
    rwa [hkeys] at hmem

/-- The shard has registered `10.4.1.70`. -/
def oneRegistered : ShardRegistry :=
  emptyRegistry.registerBackend (endpointOf "10.4.1.70").toBackendId
    ((endpointOf "10.4.1.70").registration (168034630 * 65536 + 8000))

theorem resync_frame_idle :
    ∃ t, exec (fun s => step podAddress 8080 s) oneEndpoint
        (.takeList [endpointOf "10.4.1.70"] :: oneResynced) = some t ∧
      oneRegistered.FrameKept (onShard (t.calls.drop oneEndpoint.calls.length) oneRegistered) := by
  refine ⟨_, exec_eq_some_getD (by decide), ?_⟩
  refine (@resync_frame_iff podAddress 8080 (fun _ => none) _ oneEndpoint oneRegistered _ oneResynced
    ⟨by decide, by decide⟩ listsTracked_oneEndpoint
    (exec_eq_some_getD (by decide)) (by decide) (by decide)
    (by decide)).mpr ?_
  intro ep hep info hinfo
  obtain rfl := List.mem_singleton.mp hep.listed
  rw [oneRegistered, ShardRegistry.registerBackend] at hinfo
  simp only [Function.update_self, Option.some.injEq] at hinfo
  subst hinfo
  exact ⟨rfl, rfl, rfl⟩

/-- A request is in flight to `10.4.1.70`, and the backend drains. -/
def oneBusy : ShardRegistry :=
  (oneRegistered.guard (.beginRequest (endpointOf "10.4.1.70").toBackendId)).drainBackend
    (endpointOf "10.4.1.70").toBackendId 0

/-- The resync finds nothing new, and afterwards no request is in flight and the
backend does not drain. -/
theorem resync_resets_record :
    ListsTracked [endpointOf "10.4.1.70"] oneEndpoint ∧
      ∃ t, exec (fun s => step podAddress 8080 s) oneEndpoint
          (.takeList [endpointOf "10.4.1.70"] :: oneResynced) = some t ∧ t.phase = .done ∧
        (oneBusy.backends (endpointOf "10.4.1.70").toBackendId).map
            (fun info => (info.activeRequests, info.isDraining)) = some (1, true) ∧
        ((onShard (t.calls.drop oneEndpoint.calls.length) oneBusy).backends
            (endpointOf "10.4.1.70").toBackendId).map
            (fun info => (info.activeRequests, info.isDraining)) = some (0, false) := by
  refine ⟨listsTracked_oneEndpoint, _, exec_eq_some_getD (by decide), by decide,
    by decide, by decide⟩

end K8sService

end Ranvier
