import Ranvier.EventHandling
import Ranvier.IdCollisions

/-!
# The tracked endpoints and the slices

The watch hands over one slice at a time. The service does not keep slices: it
writes the endpoints an event has and, if the event deletes the slice, removes
them. What is tracked is what the slices list as long as

* a new version of a slice drops no endpoint that is listed nowhere else,
* no uid is listed with two records, and
* a deleted slice has its endpoints once and to itself.

Secret lookups, registrations and drains are taken to succeed here, uids to have
different hashes and the slices to stay within the endpoint limit.
-/

namespace Ranvier

/-- The current versions of the slices, under their names, and the service that
mirrors them. -/
structure SliceMirror : Type where
  slices : List (String × EndpointSlice) := []
  service : K8sService := {}

/-- Events of the slices, and the handlers of the event under way. -/
inductive MirrorAction : Type where
  | added (name : String) (doc : EndpointSlice)
  | modified (name : String) (doc : EndpointSlice)
  | deleted (name : String)
  | start (rehash : Bool) (now : ℕ)
  | resume (i : ℕ) (secret : Option String) (wreck : FlatHashMap String K8sEndpoint)
  | reap (id : BackendId)

namespace SliceMirror

variable (socketAddress : String → ℕ → Option SocketAddress) (targetPort : ℕ)

/-- The other slices. -/
def without (name : String) (slices : List (String × EndpointSlice)) :
    List (String × EndpointSlice) :=
  slices.filter fun e => e.1 ≠ name

/-- The endpoints the slices list. -/
def listed (slices : List (String × EndpointSlice)) : List K8sEndpoint :=
  slices.flatMap fun e => e.2.parse targetPort

variable (m : SliceMirror)

/-- The slices after an event. -/
def slicesAfter : MirrorAction → List (String × EndpointSlice)
  | .added name doc => (name, doc) :: without name m.slices
  | .modified name doc => (name, doc) :: without name m.slices
  | .deleted name => without name m.slices
  | _ => m.slices

/-- What the watch is told: with a deleted slice comes its last version. -/
def serviceAction : MirrorAction → Option K8sAction
  | .added _ doc => some (.event (.ADDED doc))
  | .modified _ doc => some (.event (.MODIFIED doc))
  | .deleted name => (m.slices.lookup name).map fun doc => .event (.DELETED doc)
  | .start rehash now => some (.start .watch rehash now)
  | .resume i secret wreck => some (.resume .watch i secret wreck)
  | .reap id => some (.reap id)

/-- One action. -/
def step (a : MirrorAction) : Option SliceMirror :=
  (m.serviceAction a).bind fun b =>
    (m.service.step socketAddress targetPort b).map fun s => ⟨m.slicesAfter a, s⟩

/-! ## What is assumed, and what it takes -/

/-- The endpoints of a version are within `fleet` and have addresses; the slices
stay within the endpoint limit; secret lookups succeed. -/
def Admissible (fleet : Set String) (m : SliceMirror) : MirrorAction → Prop
  | .added name doc | .modified name doc =>
    (∀ ep ∈ doc.parse targetPort, ep.uid ∈ fleet ∧ (socketAddress ep.address ep.port).isSome) ∧
      ((listed targetPort ((name, doc) :: without name m.slices)).map
        K8sEndpoint.uid).toFinset.card ≤ k8sMaxEndpoints
  | .resume i secret _ =>
    match m.service.watch.waiting[i]? with
    | some (.secret _) => secret.isSome
    | _ => True
  | _ => True

/-- A new version drops no endpoint that is listed nowhere else and leaves no uid
with two records; a deleted slice has its endpoints once and to itself. -/
def Covered (m : SliceMirror) : MirrorAction → Prop
  | .added name doc | .modified name doc =>
    (∀ ep ∈ listed targetPort m.slices,
        ep.uid ∈ (listed targetPort ((name, doc) :: without name m.slices)).map K8sEndpoint.uid) ∧
      Unambiguous (listed targetPort ((name, doc) :: without name m.slices))
  | .deleted name =>
    ∀ doc ∈ m.slices.lookup name,
      ((doc.parse targetPort).map K8sEndpoint.uid).Nodup ∧
        ∀ ep ∈ doc.parse targetPort,
          ep.uid ∉ (listed targetPort (without name m.slices)).map K8sEndpoint.uid
  | _ => True

instance (fleet : Set String) [DecidablePred (· ∈ fleet)] (m : SliceMirror) (a : MirrorAction) :
    Decidable (Admissible socketAddress targetPort fleet m a) := by
  unfold Admissible
  split
  · exact inferInstanceAs (Decidable (_ ∧ _))
  · exact inferInstanceAs (Decidable (_ ∧ _))
  · split <;> infer_instance
  · infer_instance

instance (m : SliceMirror) (a : MirrorAction) : Decidable (Covered targetPort m a) := by
  unfold Covered
  split <;> infer_instance

/-- The mirror is exact: what is tracked is what is listed, ready endpoints are
registered as they are listed, and of what the service has registered nothing else
is in service. -/
structure Exact (shard : ShardRegistry) (m : SliceMirror) : Prop where
  tracked : ∀ uid ep, m.service.tracked uid = some ep ↔
    ep ∈ listed targetPort m.slices ∧ ep.uid = uid
  registered : ∀ uid ep, m.service.tracked uid = some ep → ep.ready = true →
    ∃ addr, socketAddress ep.address ep.port = some addr ∧
      ((K8sService.onShard m.service.calls shard).viewOf ep.toBackendId).record =
        some ⟨addr, ep.weight, ep.priority, false⟩
  drained : ∀ id r, .register id r ∈ m.service.calls →
    (∀ uid ep, m.service.tracked uid = some ep → ep.ready = true → ep.toBackendId ≠ id) →
      ¬K8sService.InService m.service.calls shard id

/-! ## The mirror -/

section Mirror

variable {socketAddress targetPort} {fleet : Set String} {m m' : SliceMirror}

variable (socketAddress targetPort fleet) in
/-- The mirror in every state of a run. -/
structure Sound (m : SliceMirror) : Prop where
  names : (keysOf m.slices).Nodup
  resync : m.service.resync.Finished
  steady : m.service.Steady
  wellListed : WellListed socketAddress fleet (listed targetPort m.slices)
  limit : ((listed targetPort m.slices).map K8sEndpoint.uid).toFinset.card ≤ k8sMaxEndpoints
  underway : Underway socketAddress fleet (listed targetPort m.slices) m.service.tracked
    m.service.watch.queue m.service.watch.waiting m.service.calls

theorem step_cases {a : MirrorAction} (h : m.step socketAddress targetPort a = some m') :
    ∃ b, m.serviceAction a = some b ∧ m'.slices = m.slicesAfter a ∧
      m.service.step socketAddress targetPort b = some m'.service := by
  obtain ⟨b, hb, hstep⟩ := Option.bind_eq_some_iff.mp h
  obtain ⟨s, hs, rfl⟩ := Option.map_eq_some_iff.mp hstep
  exact ⟨b, hb, rfl, hs⟩

theorem listed_without_subset (name : String) (slices : List (String × EndpointSlice)) :
    listed targetPort (without name slices) ⊆ listed targetPort slices := by
  intro ep hep
  obtain ⟨e, he, hmem⟩ := List.mem_flatMap.mp hep
  exact List.mem_flatMap.mpr ⟨e, (List.mem_filter.mp he).1, hmem⟩

theorem nodup_without {name : String} (h : (keysOf m.slices).Nodup) :
    name ∉ keysOf (without name m.slices) ∧ (keysOf (without name m.slices)).Nodup := by
  constructor
  · intro hmem
    obtain ⟨e, he, rfl⟩ := List.mem_map.mp hmem
    have hne : e.1 ≠ e.1 := by simpa using (List.mem_filter.mp he).2
    exact hne rfl
  · exact h.sublist (List.filter_sublist.map Prod.fst)

theorem Sound.version {name : String} {doc : EndpointSlice} (h : Sound socketAddress targetPort fleet m)
    {s : K8sService} (hidle : m.service.watch.Finished) (hsteady : s.Steady)
    (hs : s = { m.service with
      watch := { queue := m.service.operations (doc.parse targetPort) } })
    (hknown : ∀ ep ∈ doc.parse targetPort,
      ep.uid ∈ fleet ∧ (socketAddress ep.address ep.port).isSome)
    (hlimit : ((listed targetPort ((name, doc) :: without name m.slices)).map
      K8sEndpoint.uid).toFinset.card ≤ k8sMaxEndpoints)
    (hcovered : ∀ ep ∈ listed targetPort m.slices,
      ep.uid ∈ (listed targetPort ((name, doc) :: without name m.slices)).map K8sEndpoint.uid)
    (hunambiguous : Unambiguous (listed targetPort ((name, doc) :: without name m.slices))) :
    Sound socketAddress targetPort fleet ⟨(name, doc) :: without name m.slices, s⟩ := by
  have hunderway := h.underway
  rw [hidle.1, hidle.2] at hunderway
  have hmem : ∀ ep ∈ listed targetPort ((name, doc) :: without name m.slices),
      ep ∈ doc.parse targetPort ∨ ep ∈ listed targetPort m.slices := by
    intro ep hep
    rw [listed, List.flatMap_cons] at hep
    rcases List.mem_append.mp hep with hep | hep
    · exact .inl hep
    · exact .inr (listed_without_subset name m.slices hep)
  subst hs
  refine
    { names := ?_, resync := h.resync, steady := hsteady, limit := hlimit
      wellListed := ⟨hunambiguous, fun ep hep => ?_⟩
      underway := hunderway.version h.wellListed ?_ hmem hcovered }
  · rw [keysOf_cons, List.nodup_cons]
    exact nodup_without h.names
  · exact (hmem ep hep).elim (hknown ep) (h.wellListed.known ep)
  · intro ep hep
    rw [listed, List.flatMap_cons]
    exact List.mem_append_left _ hep

theorem Sound.deletion {name : String} {doc : EndpointSlice}
    (h : Sound socketAddress targetPort fleet m) {s : K8sService}
    (hidle : m.service.watch.Finished) (hsteady : s.Steady)
    (hs : s = { m.service with
      watch := { queue := (doc.parse targetPort).map fun ep => .removed ep.uid } })
    (hdoc : m.slices.lookup name = some doc)
    (honce : ((doc.parse targetPort).map K8sEndpoint.uid).Nodup)
    (hown : ∀ ep ∈ doc.parse targetPort,
      ep.uid ∉ (listed targetPort (without name m.slices)).map K8sEndpoint.uid) :
    Sound socketAddress targetPort fleet ⟨without name m.slices, s⟩ := by
  have hunderway := h.underway
  rw [hidle.1, hidle.2] at hunderway
  have hsub : listed targetPort (without name m.slices) ⊆ listed targetPort m.slices :=
    listed_without_subset name m.slices
  subst hs
  refine
    { names := (nodup_without h.names).2, resync := h.resync, steady := hsteady
      wellListed := ⟨fun ep hep ep' hep' => ?_, fun ep hep => h.wellListed.known ep (hsub hep)⟩
      limit := le_trans (Finset.card_le_card ?_) h.limit
      underway := hunderway.deletion hsub ?_ honce hown }
  · exact h.wellListed.unambiguous ep (hsub hep) ep' (hsub hep')
  · intro uid huid
    rw [List.mem_toFinset] at huid ⊢
    exact List.map_subset _ hsub huid
  · intro ep hep
    obtain ⟨⟨n, d⟩, he, hmem⟩ := List.mem_flatMap.mp hep
    by_cases hname : n = name
    · subst hname
      have hsame := lookup_of_mem h.names he
      rw [hdoc, Option.some.injEq] at hsame
      exact .inl (hsame ▸ hmem)
    · exact .inr (List.mem_flatMap.mpr ⟨_, List.mem_filter.mpr ⟨he, by simpa using hname⟩, hmem⟩)

/-- The handlers of one event keep to the iterators they hold. -/
theorem Sound.careful {rehash : Bool} {now : ℕ} (h : Sound socketAddress targetPort fleet m) :
    m.service.Careful (.start .watch rehash now) := by
  have hheld : m.service.held = iterators m.service.watch.waiting := by
    rw [K8sService.held, h.resync.2]
    rfl
  refine K8sService.careful_start (fun uid rest hqueue => ?_) (fun op rest hqueue hne => ?_)
  · rw [hheld]
    intro it hit hkey
    rcases h.underway.kind with hwriting | hremoving
    · rw [hwriting.held] at hit
      cases hit
    · have honce := hremoving.once
      rw [show m.service.watch.queue = .removed uid :: rest from hqueue,
        List.filterMap_cons_some (show removes (.removed uid) = some uid from rfl),
        List.cons_append, List.nodup_cons] at honce
      exact honce.1 (List.mem_append_right _ (hkey ▸ List.mem_map_of_mem hit))
  · rcases h.underway.kind with hwriting | hremoving
    · rw [hheld, hwriting.held]
    · have hop : op ∈ m.service.watch.queue := by
        rw [show m.service.watch.queue = op :: rest from hqueue]
        exact List.mem_cons_self
      exact absurd (hremoving.queued op hop) hne

/-- While an event writes, the map has room for what is listed. -/
theorem Sound.room (h : Sound socketAddress targetPort fleet m)
    (hwriting : Writing (listed targetPort m.slices) m.service.tracked m.service.watch.queue
      m.service.watch.waiting) {uid : String} (hnew : m.service.tracked uid = none)
    (hlisted : uid ∈ (listed targetPort m.slices).map K8sEndpoint.uid) :
    m.service.service.endpoints.size < k8sMaxEndpoints := by
  refine lt_of_lt_of_le (FlatHashMap.size_lt_of_keys ?_ hnew (List.mem_toFinset.mpr hlisted)) h.limit
  intro j hj
  obtain ⟨ep, hep⟩ := Option.isSome_iff_exists.mp hj
  obtain ⟨hkey, -⟩ := h.underway.keyed j ep hep
  rw [List.mem_toFinset]
  rcases h.underway.listed j ep hep with hmem | ⟨op, hop, e, hwrites, rfl⟩ | hout
  · exact hkey ▸ List.mem_map_of_mem hmem
  · obtain ⟨e', he', hwrites'⟩ := hwriting.queued op hop
    rw [hwrites, Option.some.injEq] at hwrites'
    exact List.mem_map_of_mem (hwrites' ▸ he')
  · rcases List.mem_append.mp hout with hmem | hmem
    · obtain ⟨op, hop, hremoves⟩ := List.mem_filterMap.mp hmem
      obtain ⟨e', -, hwrites'⟩ := hwriting.queued op hop
      cases op <;> cases hremoves
      cases hwrites'
    · rw [hwriting.held] at hmem
      cases hmem

theorem Sound.step (hfleet : Set.InjOn backendIdOf fleet) {a : MirrorAction}
    (h : Sound socketAddress targetPort fleet m)
    (hadmissible : Admissible socketAddress targetPort fleet m a)
    (hcovered : Covered targetPort m a) (hstep : m.step socketAddress targetPort a = some m') :
    Sound socketAddress targetPort fleet m' := by
  obtain ⟨b, hb, hslices, hservice⟩ := step_cases hstep
  obtain ⟨slices, s⟩ := m'
  obtain rfl : slices = m.slicesAfter a := hslices
  replace hservice : m.service.step socketAddress targetPort b = some s := hservice
  cases a with
  | added name doc =>
    obtain rfl := Option.some.inj hb
    obtain ⟨hidle, hs⟩ := K8sService.step_event hservice
    have hsteady := h.steady.step (a := .event (.ADDED doc)) trivial hservice
    exact h.version hidle hsteady hs hadmissible.1 hadmissible.2 hcovered.1 hcovered.2
  | modified name doc =>
    obtain rfl := Option.some.inj hb
    obtain ⟨hidle, hs⟩ := K8sService.step_event hservice
    have hsteady := h.steady.step (a := .event (.MODIFIED doc)) trivial hservice
    exact h.version hidle hsteady hs hadmissible.1 hadmissible.2 hcovered.1 hcovered.2
  | deleted name =>
    obtain ⟨doc, hdoc, rfl⟩ := Option.map_eq_some_iff.mp hb
    obtain ⟨hidle, hs⟩ := K8sService.step_event hservice
    obtain ⟨honce, hown⟩ := hcovered doc hdoc
    have hsteady := h.steady.step (a := .event (.DELETED doc)) trivial hservice
    exact h.deletion hidle hsteady hs hdoc honce hown
  | start rehash now =>
    obtain rfl := Option.some.inj hb
    have hsteady := h.steady.start h.careful hservice
    obtain ⟨op, rest, hqueue, rfl⟩ := K8sService.step_start hservice
    replace hqueue : m.service.watch.queue = op :: rest := hqueue
    refine { h with steady := hsteady, underway := ?_ }
    have hunderway := h.underway
    rw [hqueue] at hunderway
    refine hunderway.begin hfleet h.wellListed (fun hwriting uid hnew hlisted => ?_)
      (m.service.service.begin_begins socketAddress rehash now op)
    exact h.room (hqueue ▸ hwriting) hnew hlisted
  | resume i secret wreck =>
    obtain rfl := Option.some.inj hb
    have hsteady := h.steady.resume hservice
    obtain ⟨t, ht, rfl⟩ := K8sService.step_resume hservice
    refine { h with steady := hsteady, underway := ?_ }
    refine h.underway.resume hfleet h.wellListed ht (fun it hit => ?_) (fun ep he => ?_)
      (m.service.service.resume_resumes socketAddress secret wreck t)
    · exact h.steady.valid it (List.mem_append_right _ hit)
    · subst he
      simpa only [Admissible, show m.service.watch.waiting[i]? = some (.secret ep) from ht]
        using hadmissible
  | reap id =>
    obtain rfl := Option.some.inj hb
    obtain ⟨⟨target, now, hlatest⟩, rfl⟩ := K8sService.step_reap hservice
    exact { h with steady := h.steady.same rfl rfl, underway := h.underway.reap hlatest }

theorem sound_empty : Sound socketAddress targetPort fleet {} where
  names := List.nodup_nil
  resync := ⟨rfl, rfl⟩
  steady := ⟨by simp [K8sService.held, iterators], by simp [K8sService.held, iterators]⟩
  wellListed := ⟨by simp [Unambiguous, listed], by simp [listed]⟩
  limit := by simp [listed]
  underway := by
    have hget : ∀ uid, K8sService.tracked {} uid = none := fun _ => rfl
    refine ⟨?_, ?_, ?_, .inl ⟨?_, rfl, ?_⟩, ?_, ?_, ?_, ?_, ?_⟩ <;>
      simp [hget, listed, iterators, Serves, K8sService.latest]

/-- A backend that the service has registered at some time and that its last call
did not register is not in service. -/
theorem not_inService {calls : List RegistryMessage} {id : BackendId} {r : Registration}
    (hstatus : ∀ id isAlive, .setStatus id isAlive ∉ calls) (hcall : .register id r ∈ calls)
    (hserves : ¬Serves calls id) (shard : ShardRegistry) :
    ¬K8sService.InService calls shard id := by
  have hsome : (K8sService.latest calls id).isSome := by
    rw [K8sService.latest, List.find?_isSome]
    exact ⟨_, List.mem_reverse.mpr hcall, by simp [RegistryMessage.backend]⟩
  obtain ⟨x, hlatest⟩ := Option.isSome_iff_exists.mp hsome
  have hmem : x ∈ calls := List.mem_reverse.mp (List.mem_of_find?_eq_some hlatest)
  cases x with
  | register target r' => exact absurd ⟨target, r', hlatest⟩ hserves
  | drain target now => exact K8sService.not_inService_of_drain hlatest shard
  | setStatus target isAlive => exact absurd hmem (hstatus target isAlive)
  | unregister target =>
    rintro ⟨record, hrecord, -⟩
    obtain ⟨hid, v, hv⟩ := K8sService.viewOf_onShard_of_latest hlatest shard
    rw [hv] at hrecord
    unfold RegistryMessage.applyView at hrecord
    rw [if_pos hid] at hrecord
    cases hrecord

/-- **The mirror.** In every run of events of the slices, handled one after another
with all their interleavings inside, in which each event is covered: whenever an
event has been handled, the tracked endpoints are the listed ones, the ready ones
are registered on every shard as they are listed, and no other backend that the
service has registered is in service. -/
theorem mirror_exact (hfleet : Set.InjOn backendIdOf fleet) {run : List MirrorAction}
    (hadmissible : Meets (fun m => m.step socketAddress targetPort)
      (Admissible socketAddress targetPort fleet) {} run)
    (hcovered : Meets (fun m => m.step socketAddress targetPort) (Covered targetPort) {} run)
    (hexec : exec (fun m => m.step socketAddress targetPort) {} run = some m)
    (hhandled : m.service.watch.Finished) (shard : ShardRegistry) :
    Exact socketAddress targetPort shard m := by
  have hsound : Sound socketAddress targetPort fleet m :=
    exec_invariant (I := fun _ m => Sound socketAddress targetPort fleet m)
      (fun hok hstep h => h.step hfleet hok.1 hok.2 hstep) (h := [])
      (hadmissible.and hcovered) hexec sound_empty
  have hunderway := hsound.underway
  rw [hhandled.1, hhandled.2] at hunderway
  obtain ⟨htracked, hregistered⟩ := hunderway.settled
  refine ⟨htracked, ?_, ?_⟩
  · intro uid ep hget hready
    obtain ⟨addr, haddr, hlatest⟩ := hregistered uid ep hget hready
    exact ⟨addr, haddr, K8sService.record_of_register hlatest shard⟩
  · intro id r hcall hnone
    refine not_inService hunderway.statuses hcall (fun hserves => ?_) shard
    obtain ⟨uid, ep, hget, hready, hid⟩ := hunderway.served id hserves
    exact hnone uid ep hget hready hid

end Mirror

/-! ## Runs -/

/-- A slice of endpoints without pod uids, with the port 8000. -/
def podSlice (pods : List (String × Bool)) : EndpointSlice where
  endpoints := pods.map fun pod => { addresses := [pod.1], ready := some pod.2 }
  ports := [some 8000]

/-- The uids of the runs below. -/
def twoPods : Set String := {uid | uid ∈ ["10.0.0.7", "10.4.1.70"]}

instance : DecidablePred (· ∈ twoPods) := fun uid =>
  inferInstanceAs (Decidable (uid ∈ ["10.0.0.7", "10.4.1.70"]))

theorem injOn_twoPods : Set.InjOn backendIdOf twoPods := by
  have hall : ∀ uid ∈ ["10.0.0.7", "10.4.1.70"], ∀ uid' ∈ ["10.0.0.7", "10.4.1.70"],
      backendIdOf uid = backendIdOf uid' → uid = uid' := by decide
  exact fun uid huid uid' huid' h => hall uid huid uid' huid' h

/-- The two handlers of an event run side by side. -/
def bothHandled : List MirrorAction :=
  [.start false 0, .start false 0, .resume 1 none {}, .resume 0 none {}]

/-- Two endpoints come, and one of them turns not ready. -/
def turnsNotReady : List MirrorAction :=
  .added "gpu-a" (podSlice [("10.0.0.7", true), ("10.4.1.70", true)]) :: bothHandled ++
    .modified "gpu-a" (podSlice [("10.0.0.7", false), ("10.4.1.70", true)]) :: bothHandled

theorem mirror_exact_not_ready :
    ∃ m, exec (fun m => step K8sService.podAddress 8080 m) {} turnsNotReady = some m ∧
      m.service.watch.Finished ∧
      Exact K8sService.podAddress 8080 K8sService.emptyRegistry m := by
  refine ⟨_, exec_eq_some_getD (by decide), by decide, ?_⟩
  exact @mirror_exact K8sService.podAddress 8080 twoPods _ injOn_twoPods turnsNotReady
    (by decide) (by decide) (exec_eq_some_getD (by decide)) (by decide) K8sService.emptyRegistry

/-- Two endpoints come, and a new version of their slice has one of them. -/
def dropsEndpoint : List MirrorAction :=
  MirrorAction.added "gpu-a" (podSlice [("10.0.0.7", true), ("10.4.1.70", true)]) ::
    bothHandled ++ [MirrorAction.modified "gpu-a" (podSlice [("10.4.1.70", true)]),
      .start false 0, .resume 0 none {}]

/-- The endpoint that disappeared is tracked, and its backend is in service. -/
theorem dropped_endpoint_served :
    Set.InjOn backendIdOf twoPods ∧
      Meets (fun m => step K8sService.podAddress 8080 m)
        (Admissible K8sService.podAddress 8080 twoPods) {} dropsEndpoint ∧
      ∃ m, exec (fun m => step K8sService.podAddress 8080 m) {} dropsEndpoint = some m ∧
        m.service.watch.Finished ∧
        "10.0.0.7" ∉ (listed 8080 m.slices).map K8sEndpoint.uid ∧
        m.service.tracked "10.0.0.7" = some (K8sService.endpointOf "10.0.0.7") ∧
        ((K8sService.onShard m.service.calls K8sService.emptyRegistry).viewOf
            (backendIdOf "10.0.0.7")).record =
          some ⟨167772167 * 65536 + 8000, 100, 0, false⟩ := by
  refine ⟨injOn_twoPods, by decide, _, exec_eq_some_getD (by decide),
    by decide, by decide, by decide, by decide⟩

end SliceMirror

end Ranvier
