import Ranvier.Discovery

/-!
# Endpoints that share a backend id

The backend id of an endpoint is 31 bits of a hash of its uid, and two uids may
have the same. The handlers note which uid came last, and a removal leaves the
note of another uid alone; the drain it calls for does not ask. So an endpoint in
service stays so exactly as long as no other endpoint with its hash is removed or
turns not ready.
-/

namespace Ranvier

namespace K8sService

section Drains

variable {socketAddress : String → ℕ → Option SocketAddress} {targetPort : ℕ}
  {s s' : K8sService} {a : K8sAction}

/-- The endpoint whose backend a step drains: a tracked one that is removed, or a
tracked ready one that turns not ready. -/
def drains (s : K8sService) : K8sAction → Option K8sEndpoint
  | .start w _ _ =>
    match (s.batch w).queue with
    | .removed uid :: _ => s.tracked uid
    | .modified ep :: _ =>
      if ep.ready = false ∧ (s.tracked ep.uid).any K8sEndpoint.ready then some ep else none
    | _ => none
  | _ => none

/-! ## The calls of a step -/

/-- What a step adds to the calls: nothing, one registration, the drain it is
there for, or the removal of a backend whose drain has run out. -/
inductive Calls (s : K8sService) : Option K8sEndpoint → List RegistryMessage → Prop
  | silent : Calls s none []
  | register (id : BackendId) (r : Registration) : Calls s none [.register id r]
  | drain (u : K8sEndpoint) (now : ℕ) : Calls s (some u) [.drain u.toBackendId now]
  | unregister {id target : BackendId} {now : ℕ}
      (expired : latest s.calls id = some (.drain target now)) : Calls s none [.unregister id]

theorem Calls.of_requests {ep : K8sEndpoint} {calls : List RegistryMessage}
    {waits : Option Suspended} (h : K8sDiscovery.Requests socketAddress ep calls waits) :
    Calls s none calls := by
  cases h with
  | invalid _ _ => exact .silent
  | registered _ _ => exact .register _ _
  | secret _ => exact .silent

theorem start_calls {w : Writer} {rehash : Bool} {now : ℕ} {op : EndpointOp}
    {queue : List EndpointOp} {p : Continuation} (hqueue : (s.batch w).queue = op :: queue)
    (h : s.service.Begins socketAddress rehash now op p) :
    Calls s (s.drains (.start w rehash now)) p.calls := by
  simp only [drains, hqueue]
  cases h with
  | rejected _ _ => exact .silent
  | added _ requests => exact .of_requests requests
  | addedIdle _ => exact .silent
  | @modified ep _ _ ready requests =>
    have hkeeps : ¬(ep.ready = false ∧ (s.tracked ep.uid).any K8sEndpoint.ready = true) := by
      rw [ready]
      rintro ⟨hready, -⟩
      cases hready
    simp only [if_neg hkeeps]
    exact .of_requests requests
  | @drained ep ready wasReady =>
    have hdrains : ep.ready = false ∧ (s.tracked ep.uid).any K8sEndpoint.ready = true :=
      ⟨ready, wasReady⟩
    simp only [if_pos hdrains]
    exact .drain ep now
  | @modifiedIdle ep ready wasReady =>
    have hkeeps : ¬(ep.ready = false ∧ (s.tracked ep.uid).any K8sEndpoint.ready = true) := by
      rintro ⟨-, hwas⟩
      exact Bool.false_ne_true (wasReady.symm.trans hwas)
    simp only [if_neg hkeeps]
    exact .silent
  | absent untracked =>
    simp only [tracked, untracked]
    exact .silent
  | @removed uid ep it _ found _ =>
    simp only [tracked, found]
    exact .drain ep now

theorem step_calls (h : s.step socketAddress targetPort a = some s') :
    ∃ calls, s'.calls = s.calls ++ calls ∧ Calls s (s.drains a) calls := by
  cases a with
  | takeList discovered =>
    obtain ⟨_, rfl⟩ := step_takeList h
    exact ⟨[], by simp, .silent⟩
  | sync =>
    obtain ⟨_, _, _, rfl⟩ := step_sync h
    exact ⟨[], by simp, .silent⟩
  | scan uids =>
    obtain ⟨_, _, _, _, rfl⟩ := step_scan h
    exact ⟨[], by simp, .silent⟩
  | finish =>
    obtain ⟨_, rfl⟩ := step_finish h
    exact ⟨[], by simp, .silent⟩
  | event e =>
    obtain ⟨_, rfl⟩ := step_event h
    exact ⟨[], by simp, .silent⟩
  | reap id =>
    obtain ⟨⟨target, now, hexpired⟩, rfl⟩ := step_reap h
    exact ⟨_, rfl, .unregister hexpired⟩
  | resume w i secret wreck =>
    obtain ⟨t, _, rfl⟩ := step_resume h
    refine ⟨_, rfl, ?_⟩
    have hresumes := s.service.resume_resumes socketAddress secret wreck t
    show Calls s none (s.service.resume socketAddress secret wreck t).calls
    generalize s.service.resume socketAddress secret wreck t = p at hresumes ⊢
    cases hresumes with
    | unresolved => exact .silent
    | invalid _ => exact .silent
    | registered _ => exact .register _ _
    | callback => exact .silent
    | erased => exact .silent
  | start w rehash now =>
    obtain ⟨op, queue, hqueue, rfl⟩ := step_start h
    exact ⟨_, rfl, start_calls hqueue (s.service.begin_begins socketAddress rehash now op)⟩

/-- A step takes a backend out of service exactly when it drains an endpoint with
its id. -/
theorem inService_step {shard : ShardRegistry} {id : BackendId}
    (h : s.step socketAddress targetPort a = some s') (hserv : InService s.calls shard id) :
    InService s'.calls shard id ↔ ∀ u ∈ s.drains a, u.toBackendId ≠ id := by
  obtain ⟨calls, hcalls, hkind⟩ := step_calls h
  generalize s.drains a = drained at hkind
  rw [hcalls]
  obtain ⟨r, hr, hdraining⟩ := hserv
  cases hkind with
  | silent =>
    rw [List.append_nil]
    exact ⟨fun _ _ hu => absurd hu (by simp), fun _ => ⟨r, hr, hdraining⟩⟩
  | register target r' =>
    refine ⟨fun _ _ hu => absurd hu (by simp), fun _ => ?_⟩
    unfold InService
    rw [viewOf_onShard_concat]
    unfold RegistryMessage.applyView
    split
    · exact ⟨_, rfl, rfl⟩
    · exact ⟨r, hr, hdraining⟩
  | drain u now =>
    unfold InService
    rw [viewOf_onShard_concat]
    unfold RegistryMessage.applyView
    simp only [Option.mem_def, Option.some.injEq, forall_eq']
    by_cases hid : u.toBackendId = id
    · rw [if_pos (show (RegistryMessage.drain u.toBackendId now).backend = id from hid)]
      refine ⟨?_, fun hne => absurd hid hne⟩
      rintro ⟨r', hr', hdraining'⟩
      obtain ⟨r'', -, rfl⟩ := Option.map_eq_some_iff.mp hr'
      cases hdraining'
    · rw [if_neg (show (RegistryMessage.drain u.toBackendId now).backend ≠ id from hid)]
      exact ⟨fun _ => hid, fun _ => ⟨r, hr, hdraining⟩⟩
  | @unregister target _ _ expired =>
    refine ⟨fun _ _ hu => absurd hu (by simp), fun _ => ?_⟩
    unfold InService
    rw [viewOf_onShard_concat]
    unfold RegistryMessage.applyView
    have hne : (RegistryMessage.unregister target).backend ≠ id := by
      intro htarget
      obtain rfl : target = id := htarget
      exact not_inService_of_drain expired shard ⟨r, hr, hdraining⟩
    rw [if_neg hne]
    exact ⟨r, hr, hdraining⟩

end Drains

/-! ## Whole runs -/

section Runs

variable (socketAddress : String → ℕ → Option SocketAddress) (targetPort : ℕ)

/-- The backend is in service in every state of the run. -/
def ServedThroughout (shard : ShardRegistry) (id : BackendId) (s : K8sService)
    (run : List K8sAction) : Prop :=
  ∀ before, before <+: run → ∀ t,
    exec (fun s => s.step socketAddress targetPort) s before = some t →
      InService t.calls shard id

/-- **Shared ids.** For an endpoint `v` whose backend is in service on a shard,
and every run of the service that does not itself remove `v` or find it not
ready: the backend is in service in every state of the run exactly when no step
drains another endpoint whose uid has the hash of `v`. -/
theorem served_iff_no_shared_drain (shard : ShardRegistry) (v : K8sEndpoint) (s : K8sService)
    (run : List K8sAction)
    (hrun : (exec (fun s => s.step socketAddress targetPort) s run).isSome)
    (hserv : InService s.calls shard v.toBackendId)
    (hown : Meets (fun s => s.step socketAddress targetPort)
      (fun s a => ∀ u ∈ s.drains a, u.uid ≠ v.uid) s run) :
    ServedThroughout socketAddress targetPort shard v.toBackendId s run ↔
      Meets (fun s => s.step socketAddress targetPort)
        (fun s a => ∀ u ∈ s.drains a, u.uid ≠ v.uid → backendIdOf u.uid ≠ backendIdOf v.uid)
        s run := by
  induction run generalizing s with
  | nil =>
    refine ⟨fun _ => trivial, fun _ before hbefore t ht => ?_⟩
    rw [List.prefix_nil.mp hbefore] at ht
    obtain rfl := Option.some.inj ht
    exact hserv
  | cons a run ih =>
    obtain ⟨last, hlast⟩ := Option.isSome_iff_exists.mp hrun
    obtain ⟨s', hstep, hrest⟩ := exec_cons hlast
    have hrun' : (exec (fun s => s.step socketAddress targetPort) s' run).isSome := by
      rw [hrest]
      rfl
    obtain ⟨hown, hown'⟩ := hown
    simp only [hstep] at hown'
    have hiff := inService_step hstep hserv
    simp only [Meets, hstep]
    constructor
    · intro hthroughout
      have hnext : InService s'.calls shard v.toBackendId :=
        hthroughout [a] (by simp) s' (by simp [exec, hstep])
      refine ⟨fun u hu _ => hiff.mp hnext u hu, (ih s' hrun' hnext hown').mp ?_⟩
      intro before hbefore t ht
      refine hthroughout (a :: before) ((List.prefix_cons_inj a).mpr hbefore) t ?_
      simpa only [exec, hstep] using ht
    · rintro ⟨hclear, hclear'⟩ before hbefore t ht
      have hnext : InService s'.calls shard v.toBackendId :=
        hiff.mpr fun u hu => hclear u hu (hown u hu)
      cases before with
      | nil =>
        obtain rfl := Option.some.inj ht
        exact hserv
      | cons b before =>
        obtain ⟨rfl, hbehind⟩ := List.cons_prefix_cons.mp hbefore
        simp only [exec, hstep] at ht
        exact (ih s' hrun' hnext hown').mpr hclear' before hbehind t ht

end Runs

/-! ## Runs with and without shared hashes -/

/-- `inet_address` on the addresses of the runs below. -/
def podAddress (address : String) (port : ℕ) : Option SocketAddress :=
  (List.lookup address [("10.0.245.193", 167835073), ("10.4.1.70", 168034630),
    ("10.0.0.7", 167772167)]).map fun ip => ip * 65536 + port

/-- A slice of one endpoint without a pod uid. -/
def sliceOf (address : String) (ready : Bool) : EndpointSlice where
  endpoints := [{ addresses := [address], ready := some ready }]
  ports := [some 8000]

/-- The endpoint of that slice. -/
def endpointOf (address : String) : K8sEndpoint where
  uid := address
  address := address
  port := 8000
  ready := true

/-- A shard without backends. -/
def emptyRegistry : ShardRegistry := (Registry.booted 0).state 0

/-- An event whose one handler runs to its end, the drain of a removal included. -/
def handled (e : WatchEvent) : List K8sAction :=
  [.event e, .start .watch false 0, .resume .watch 0 none {}]

/-- After the registration of `10.4.1.70`. -/
def oneEndpoint : K8sService :=
  (exec (fun s => step podAddress 8080 s) {}
    (handled (.ADDED (sliceOf "10.4.1.70" true)))).getD {}

/-- Another endpoint with a hash of its own comes and goes. -/
def comesAndGoes : List K8sAction :=
  handled (.ADDED (sliceOf "10.0.0.7" true)) ++ handled (.DELETED (sliceOf "10.0.0.7" true))

theorem served_beside_other :
    oneEndpoint.tracked "10.4.1.70" = some (endpointOf "10.4.1.70") ∧
      ServedThroughout podAddress 8080 emptyRegistry (endpointOf "10.4.1.70").toBackendId
        oneEndpoint comesAndGoes := by
  refine ⟨by decide, ?_⟩
  refine (served_iff_no_shared_drain podAddress 8080 emptyRegistry (endpointOf "10.4.1.70")
    oneEndpoint comesAndGoes (by decide) ?_ (by decide)).mpr (by decide)
  exact ⟨⟨168034630 * 65536 + 8000, 100, 0, false⟩, by decide, rfl⟩

example : backendIdOf "10.0.245.193" = backendIdOf "10.4.1.70" := by decide

/-- The slice of the first address is deleted; the second is tracked, ready and
registered, and its backend drains. -/
theorem shared_id_drained :
    ∃ s t, exec (fun s => step podAddress 8080 s) {}
          (handled (.ADDED (sliceOf "10.0.245.193" true)) ++
            handled (.ADDED (sliceOf "10.4.1.70" true))) = some s ∧
      s.tracked "10.4.1.70" = some (endpointOf "10.4.1.70") ∧
      ((onShard s.calls emptyRegistry).viewOf (endpointOf "10.4.1.70").toBackendId).record =
        some ⟨168034630 * 65536 + 8000, 100, 0, false⟩ ∧
      exec (fun s => step podAddress 8080 s) s (handled (.DELETED (sliceOf "10.0.245.193" true))) =
        some t ∧
      t.tracked "10.4.1.70" = some (endpointOf "10.4.1.70") ∧
      ((onShard t.calls emptyRegistry).viewOf (endpointOf "10.4.1.70").toBackendId).record =
        some ⟨168034630 * 65536 + 8000, 100, 0, true⟩ := by
  refine ⟨_, _, exec_eq_some_getD (by decide), by decide, by decide,
    exec_eq_some_getD (by decide), by decide, by decide⟩

end K8sService

end Ranvier
