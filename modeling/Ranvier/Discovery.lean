import Ranvier.EndpointSlices
import Ranvier.FlatHashMap
import Ranvier.Registry

/-!
# The discovery service

The service keeps the endpoints of one Kubernetes service in a map and tells the
router what to register and to drain. Two coroutines write the map: the periodic
resync, which works through a list of all slices and then removes what the list
does not have, and the watch, which works through one event after another. Both
hand their endpoints to the same handlers, at most sixteen at a time, and a
handler is suspended while a secret is looked up and while a registration or a
drain is under way; everything else may happen meanwhile.

`handle_endpoint_removed` looks its entry up, waits for the drain, and then
erases through the iterator it has held all the time.
-/

namespace Ranvier

/-- `K8S_MAX_ENDPOINTS`. -/
def k8sMaxEndpoints : ℕ := 1000

/-- `K8S_MAX_CONCURRENT_ENDPOINT_OPS`. -/
def k8sMaxConcurrentEndpointOps : ℕ := 16

/-! ## Handlers -/

/-- The two maps of the service. -/
structure K8sDiscovery : Type where
  endpoints : FlatHashMap String K8sEndpoint := {}
  backendIdToUid : BackendId → Option String := fun _ => none

/-- A handler and what it is called with. -/
inductive EndpointOp : Type where
  | added (ep : K8sEndpoint)
  | modified (ep : K8sEndpoint)
  | removed (uid : String)
  deriving DecidableEq

/-- What a suspended handler waits for. -/
inductive Suspended : Type where
  /-- the secret of the endpoint, before it is registered -/
  | secret (ep : K8sEndpoint)
  /-- a callback with nothing to do behind it -/
  | callback
  /-- the drain, before the entry is erased -/
  | drain (it : FlatIterator String)
  deriving DecidableEq

/-- Where a handler is after it ran up to its next suspension: the maps, the calls
it made, and what it waits for, if it is not finished. -/
structure Continuation : Type where
  service : K8sDiscovery
  calls : List RegistryMessage := []
  waits : Option Suspended := none

section Handlers

-- `inet_address` of the text of an address, with a port; none if it throws
variable (socketAddress : String → ℕ → Option SocketAddress)

/-- What the endpoint is registered with. -/
def K8sEndpoint.registration (ep : K8sEndpoint) (addr : SocketAddress) : Registration where
  addr := addr
  weight := ep.weight
  priority := ep.priority
  type := ep.type
  poolRole := ep.role

namespace K8sDiscovery

variable (d : K8sDiscovery)

/-- The registration itself, once the credential is there. -/
def register (ep : K8sEndpoint) : Continuation :=
  match socketAddress ep.address ep.port with
  | none => { service := d }
  | some addr =>
    { service := d
      calls := [.register ep.toBackendId (ep.registration addr)]
      waits := some .callback }

/-- `register_with_secret`. -/
def registerWithSecret (ep : K8sEndpoint) : Continuation :=
  if ep.apiKeySecretRef = "" then d.register socketAddress ep
  else { service := d, waits := some (.secret ep) }

/-- The drain callback, with nothing behind it. -/
def drain (id : BackendId) (now : ℕ) : Continuation :=
  { service := d, calls := [.drain id now], waits := some .callback }

/-- The writes of `handle_endpoint_added` and `handle_endpoint_modified`. -/
def write (ep : K8sEndpoint) (rehash : Bool) : K8sDiscovery where
  endpoints := d.endpoints.set ep.uid ep rehash
  backendIdToUid := Function.update d.backendIdToUid ep.toBackendId (some ep.uid)

/-- `handle_endpoint_added`. -/
def handleEndpointAdded (ep : K8sEndpoint) (rehash : Bool) : Continuation :=
  if d.endpoints.get ep.uid = none ∧ k8sMaxEndpoints ≤ d.endpoints.size then { service := d }
  else if ep.ready then (d.write ep rehash).registerWithSecret socketAddress ep
  else { service := d.write ep rehash }

/-- `handle_endpoint_modified`. -/
def handleEndpointModified (ep : K8sEndpoint) (rehash : Bool) (now : ℕ) : Continuation :=
  let wasReady := (d.endpoints.get ep.uid).any K8sEndpoint.ready
  let d' := d.write ep rehash
  if ep.ready ∧ ¬wasReady then d'.registerWithSecret socketAddress ep
  else if ¬ep.ready ∧ wasReady then d'.drain ep.toBackendId now
  -- still ready: registered again, whether or not anything changed
  else if ep.ready then d'.registerWithSecret socketAddress ep
  else { service := d' }

/-- `handle_endpoint_removed` up to the drain. -/
def handleEndpointRemoved (uid : String) (now : ℕ) : Continuation :=
  match d.endpoints.get uid, d.endpoints.find uid with
  | some ep, some it =>
    { service :=
        { d with
          backendIdToUid :=
            if d.backendIdToUid ep.toBackendId = some ep.uid then
              Function.update d.backendIdToUid ep.toBackendId none
            else d.backendIdToUid }
      calls := [.drain ep.toBackendId now]
      waits := some (.drain it) }
  | _, _ => { service := d }

/-- A handler starts. -/
def begin (rehash : Bool) (now : ℕ) : EndpointOp → Continuation
  | .added ep => d.handleEndpointAdded socketAddress ep rehash
  | .modified ep => d.handleEndpointModified socketAddress ep rehash now
  | .removed uid => d.handleEndpointRemoved uid now

/-- A suspended handler goes on: with the answer of the secret lookup, or with the
erase, which through a bad iterator leaves the map as `wreck`. -/
def resume (secret : Option String) (wreck : FlatHashMap String K8sEndpoint) :
    Suspended → Continuation
  | .secret ep =>
    match secret with
    | none => { service := d }
    | some _ => d.register socketAddress ep
  | .callback => { service := d }
  | .drain it => { service := { d with endpoints := d.endpoints.eraseAt it wreck } }

/-! ### What a handler can do -/

/-- The calls of a registration and what it then waits for. -/
inductive Requests (ep : K8sEndpoint) : List RegistryMessage → Option Suspended → Prop
  | invalid (keyless : ep.apiKeySecretRef = "")
      (addr : socketAddress ep.address ep.port = none) : Requests ep [] none
  | registered {addr : SocketAddress} (keyless : ep.apiKeySecretRef = "")
      (parsed : socketAddress ep.address ep.port = some addr) :
      Requests ep [.register ep.toBackendId (ep.registration addr)] (some .callback)
  | secret (ref : ep.apiKeySecretRef ≠ "") : Requests ep [] (some (.secret ep))

/-- The first part of a handler. -/
inductive Begins (rehash : Bool) (now : ℕ) : EndpointOp → Continuation → Prop
  | rejected {ep : K8sEndpoint} (new : d.endpoints.get ep.uid = none)
      (full : k8sMaxEndpoints ≤ d.endpoints.size) : Begins rehash now (.added ep) { service := d }
  | added {ep : K8sEndpoint} {calls : List RegistryMessage} {waits : Option Suspended}
      (ready : ep.ready = true) (requests : Requests socketAddress ep calls waits) :
      Begins rehash now (.added ep) ⟨d.write ep rehash, calls, waits⟩
  | addedIdle {ep : K8sEndpoint} (ready : ep.ready = false) :
      Begins rehash now (.added ep) { service := d.write ep rehash }
  | modified {ep : K8sEndpoint} {calls : List RegistryMessage} {waits : Option Suspended}
      (ready : ep.ready = true) (requests : Requests socketAddress ep calls waits) :
      Begins rehash now (.modified ep) ⟨d.write ep rehash, calls, waits⟩
  | drained {ep : K8sEndpoint} (ready : ep.ready = false)
      (wasReady : (d.endpoints.get ep.uid).any K8sEndpoint.ready = true) :
      Begins rehash now (.modified ep)
        ⟨d.write ep rehash, [.drain ep.toBackendId now], some .callback⟩
  | modifiedIdle {ep : K8sEndpoint} (ready : ep.ready = false)
      (wasReady : (d.endpoints.get ep.uid).any K8sEndpoint.ready = false) :
      Begins rehash now (.modified ep) { service := d.write ep rehash }
  | absent {uid : String} (untracked : d.endpoints.get uid = none) :
      Begins rehash now (.removed uid) { service := d }
  | removed {uid : String} {ep : K8sEndpoint} {it : FlatIterator String}
      {owners : BackendId → Option String} (tracked : d.endpoints.get uid = some ep)
      (found : d.endpoints.find uid = some it) :
      Begins rehash now (.removed uid)
        ⟨{ d with backendIdToUid := owners }, [.drain ep.toBackendId now], some (.drain it)⟩

/-- The rest of a handler. -/
inductive Resumes (wreck : FlatHashMap String K8sEndpoint) :
    Option String → Suspended → Continuation → Prop
  | unresolved {ep : K8sEndpoint} : Resumes wreck none (.secret ep) { service := d }
  | invalid {ep : K8sEndpoint} {key : String} (addr : socketAddress ep.address ep.port = none) :
      Resumes wreck (some key) (.secret ep) { service := d }
  | registered {ep : K8sEndpoint} {key : String} {addr : SocketAddress}
      (parsed : socketAddress ep.address ep.port = some addr) :
      Resumes wreck (some key) (.secret ep)
        ⟨d, [.register ep.toBackendId (ep.registration addr)], some .callback⟩
  | callback {secret : Option String} : Resumes wreck secret .callback { service := d }
  | erased {secret : Option String} {it : FlatIterator String} :
      Resumes wreck secret (.drain it)
        { service := { d with endpoints := d.endpoints.eraseAt it wreck } }

theorem registerWithSecret_requests (ep : K8sEndpoint) :
    ∃ calls waits, d.registerWithSecret socketAddress ep = ⟨d, calls, waits⟩ ∧
      Requests socketAddress ep calls waits := by
  unfold registerWithSecret register
  split
  · next hkeyless =>
    split
    · next haddr => exact ⟨_, _, rfl, .invalid hkeyless haddr⟩
    · next addr haddr => exact ⟨_, _, rfl, .registered hkeyless haddr⟩
  · next href => exact ⟨_, _, rfl, .secret href⟩

theorem begin_begins (rehash : Bool) (now : ℕ) (op : EndpointOp) :
    d.Begins socketAddress rehash now op (d.begin socketAddress rehash now op) := by
  cases op with
  | added ep =>
    simp only [begin, handleEndpointAdded]
    split
    · next hfull => exact .rejected hfull.1 hfull.2
    · split
      · next hready =>
        obtain ⟨calls, waits, he, hrequests⟩ :=
          (d.write ep rehash).registerWithSecret_requests socketAddress ep
        rw [he]
        exact .added hready hrequests
      · next hready => exact .addedIdle (by simpa using hready)
  | modified ep =>
    obtain ⟨calls, waits, he, hrequests⟩ :=
      (d.write ep rehash).registerWithSecret_requests socketAddress ep
    simp only [begin, handleEndpointModified]
    split
    · next hready =>
      rw [he]
      exact .modified hready.1 hrequests
    · split
      · next hready => exact .drained (by simpa using hready.1) hready.2
      · next hboth =>
        split
        · next hready =>
          rw [he]
          exact .modified hready hrequests
        · next hready =>
          have hready : ep.ready = false := by simpa using hready
          refine .modifiedIdle hready ?_
          by_contra hwas
          exact hboth ⟨by simp [hready], by simpa using hwas⟩
  | removed uid =>
    simp only [begin, handleEndpointRemoved]
    split
    · next ep it hep hit => exact .removed hep hit
    · next hneither =>
      refine .absent ?_
      cases hget : d.endpoints.get uid with
      | none => rfl
      | some ep =>
        have hfind : (d.endpoints.find uid).isSome := by
          rw [FlatHashMap.find_isSome, hget]
          rfl
        obtain ⟨it, hit⟩ := Option.isSome_iff_exists.mp hfind
        exact absurd hit (hneither ep it hget)

theorem resume_resumes (secret : Option String) (wreck : FlatHashMap String K8sEndpoint)
    (t : Suspended) :
    d.Resumes socketAddress wreck secret t (d.resume socketAddress secret wreck t) := by
  cases t with
  | secret ep =>
    cases secret with
    | none => exact .unresolved
    | some key =>
      simp only [resume, register]
      split
      · next haddr => exact .invalid haddr
      · next addr haddr => exact .registered haddr
  | callback => exact .callback
  | drain it => exact .erased

end K8sDiscovery

/-! ## The two coroutines -/

/-- `max_concurrent_for_each` under way. -/
structure Batch : Type where
  queue : List EndpointOp := []
  waiting : List Suspended := []
  deriving DecidableEq

/-- All its handlers are finished. -/
def Batch.Finished (b : Batch) : Prop := b.queue = [] ∧ b.waiting = []

instance (b : Batch) : Decidable b.Finished :=
  inferInstanceAs (Decidable (b.queue = [] ∧ b.waiting = []))

/-- How far the resync is. -/
inductive SyncPhase : Type where
  | idle
  /-- the list is taken and on its way -/
  | listed (discovered : List K8sEndpoint)
  /-- `current_uids`, with the endpoints of the list being handled -/
  | syncing (currentUids : List String)
  /-- the endpoints the list does not have are being removed -/
  | removing
  | done
  deriving DecidableEq

/-- The writers of the map. -/
inductive Writer : Type where
  | resync
  | watch
  deriving DecidableEq, Repr

/-- A watch event and the slice it carries. -/
inductive WatchEvent : Type where
  | ADDED (doc : EndpointSlice)
  | MODIFIED (doc : EndpointSlice)
  | DELETED (doc : EndpointSlice)
  deriving DecidableEq

/-- The service with its coroutines and the calls it has made, oldest first. -/
structure K8sService : Type where
  service : K8sDiscovery := {}
  phase : SyncPhase := .idle
  resync : Batch := {}
  watch : Batch := {}
  calls : List RegistryMessage := []

/-- What happens to the service. -/
inductive K8sAction : Type where
  /-- the API server takes the list -/
  | takeList (discovered : List K8sEndpoint)
  /-- the list arrives -/
  | sync
  /-- the scan for endpoints the list does not have, in the order of the map -/
  | scan (uidsToRemove : List String)
  | finish
  | event (e : WatchEvent)
  | start (w : Writer) (rehash : Bool) (now : ℕ)
  | resume (w : Writer) (i : ℕ) (secret : Option String) (wreck : FlatHashMap String K8sEndpoint)
  /-- the reaper on shard 0 removes a backend whose drain has run out -/
  | reap (id : BackendId)

namespace K8sService

variable (targetPort : ℕ) (s : K8sService)

/-- The endpoint tracked under a uid. -/
def tracked (uid : String) : Option K8sEndpoint := s.service.endpoints.get uid

/-- The handlers that write the endpoints, as `is_new` stands now. -/
def operations (discovered : List K8sEndpoint) : List EndpointOp :=
  discovered.map fun ep => if s.tracked ep.uid = none then .added ep else .modified ep

/-- The handlers an event calls. -/
def eventOps : WatchEvent → List EndpointOp
  | .ADDED doc => s.operations (doc.parse targetPort)
  | .MODIFIED doc => s.operations (doc.parse targetPort)
  | .DELETED doc => (doc.parse targetPort).map fun ep => .removed ep.uid

/-- The batch of a writer. -/
def batch : Writer → Batch
  | .resync => s.resync
  | .watch => s.watch

/-- The service after a handler of `w` ran, with the batch it left. -/
def advance (w : Writer) (queue : List EndpointOp) (waiting : List Suspended) (p : Continuation) :
    K8sService :=
  let b : Batch := ⟨queue, waiting ++ p.waits.toList⟩
  { s with
    service := p.service
    calls := s.calls ++ p.calls
    resync := if w = .resync then b else s.resync
    watch := if w = .watch then b else s.watch }

/-- The last call about a backend. -/
def latest (calls : List RegistryMessage) (id : BackendId) : Option RegistryMessage :=
  calls.reverse.find? fun m => m.backend = id

/-- One action. -/
def step : K8sAction → Option K8sService
  | .takeList discovered =>
    if s.phase = .idle then some { s with phase := .listed discovered } else none
  | .sync =>
    match s.phase with
    | .listed discovered =>
      if s.resync.Finished then
        some { s with
          phase := .syncing (discovered.map K8sEndpoint.uid)
          resync := { queue := s.operations discovered } }
      else none
    | _ => none
  | .scan uidsToRemove =>
    match s.phase with
    | .syncing currentUids =>
      if s.resync.Finished ∧ uidsToRemove.Perm
          ((keysOf s.service.endpoints.entries).filter fun uid => uid ∉ currentUids) then
        some { s with phase := .removing, resync := { queue := uidsToRemove.map .removed } }
      else none
    | _ => none
  | .finish =>
    if s.phase = .removing ∧ s.resync.Finished then some { s with phase := .done } else none
  | .event e =>
    if s.watch.Finished then some { s with watch := { queue := s.eventOps targetPort e } } else none
  | .start w rehash now =>
    match (s.batch w).queue with
    | [] => none
    | op :: queue =>
      if (s.batch w).waiting.length < k8sMaxConcurrentEndpointOps then
        some (s.advance w queue (s.batch w).waiting
          (s.service.begin socketAddress rehash now op))
      else none
  | .resume w i secret wreck =>
    match (s.batch w).waiting[i]? with
    | none => none
    | some t =>
      some (s.advance w (s.batch w).queue ((s.batch w).waiting.eraseIdx i)
        (s.service.resume socketAddress secret wreck t))
  | .reap id =>
    match latest s.calls id with
    | some (.drain _ _) => some { s with calls := s.calls ++ [.unregister id] }
    | _ => none

/-! ### The calls on a shard -/

/-- A shard after the calls have arrived there. -/
def onShard (calls : List RegistryMessage) (shard : ShardRegistry) : ShardRegistry :=
  calls.foldl (fun shard m => m.apply shard) shard

/-- The backend is registered on the shard and not draining. -/
def InService (calls : List RegistryMessage) (shard : ShardRegistry) (id : BackendId) : Prop :=
  ∃ r, ((onShard calls shard).viewOf id).record = some r ∧ r.isDraining = false

theorem viewOf_onShard_concat (calls : List RegistryMessage) (m : RegistryMessage)
    (shard : ShardRegistry) (id : BackendId) :
    (onShard (calls ++ [m]) shard).viewOf id =
      m.applyView id ((onShard calls shard).viewOf id) := by
  rw [onShard, List.foldl_append]
  exact m.viewOf_apply id _

theorem latest_concat (calls : List RegistryMessage) (m : RegistryMessage) (id : BackendId) :
    latest (calls ++ [m]) id = if m.backend = id then some m else latest calls id := by
  rw [latest, List.reverse_append, List.reverse_singleton, List.singleton_append, List.find?_cons]
  by_cases h : m.backend = id
  · simp [h]
  · simp [h, latest]

/-- The last call about a backend decides how it stands. -/
theorem viewOf_onShard_of_latest {calls : List RegistryMessage} {id : BackendId}
    {m : RegistryMessage} (h : latest calls id = some m) (shard : ShardRegistry) :
    m.backend = id ∧ ∃ v, (onShard calls shard).viewOf id = m.applyView id v := by
  induction calls using List.reverseRecOn with
  | nil => cases h
  | append_singleton calls x ih =>
    rw [latest_concat] at h
    rw [viewOf_onShard_concat]
    split at h
    · next hx =>
      obtain rfl := Option.some.inj h
      exact ⟨hx, _, rfl⟩
    · next hx =>
      obtain ⟨hm, v, hv⟩ := ih h
      exact ⟨hm, v, by rw [hv]; unfold RegistryMessage.applyView; rw [if_neg hx]⟩

/-- A backend whose last call is a drain is not in service. -/
theorem not_inService_of_drain {calls : List RegistryMessage} {id target : BackendId} {now : ℕ}
    (h : latest calls id = some (.drain target now)) (shard : ShardRegistry) :
    ¬InService calls shard id := by
  rintro ⟨r, hr, hdraining⟩
  obtain ⟨hid, v, hv⟩ := viewOf_onShard_of_latest h shard
  rw [hv] at hr
  unfold RegistryMessage.applyView at hr
  rw [if_pos hid] at hr
  obtain ⟨r', -, rfl⟩ := Option.map_eq_some_iff.mp hr
  cases hdraining

/-- A backend whose last call is a registration is registered just so. -/
theorem record_of_register {calls : List RegistryMessage} {id target : BackendId}
    {r : Registration} (h : latest calls id = some (.register target r)) (shard : ShardRegistry) :
    ((onShard calls shard).viewOf id).record = some r.toBackendInfo.toRecord := by
  obtain ⟨hid, v, hv⟩ := viewOf_onShard_of_latest h shard
  rw [hv]
  unfold RegistryMessage.applyView
  rw [if_pos hid]

/-! ### What a step can be -/

variable {socketAddress targetPort s} {s' : K8sService}

theorem step_takeList {discovered : List K8sEndpoint}
    (h : s.step socketAddress targetPort (.takeList discovered) = some s') :
    s.phase = .idle ∧ s' = { s with phase := .listed discovered } := by
  simp only [step] at h
  split at h
  · next hidle => exact ⟨hidle, (Option.some.inj h).symm⟩
  · cases h

theorem step_sync (h : s.step socketAddress targetPort .sync = some s') :
    ∃ discovered, s.phase = .listed discovered ∧ s.resync.Finished ∧
      s' = { s with
        phase := .syncing (discovered.map K8sEndpoint.uid)
        resync := { queue := s.operations discovered } } := by
  simp only [step] at h
  split at h
  · next discovered hphase =>
    split at h
    · next hidle => exact ⟨discovered, hphase, hidle, (Option.some.inj h).symm⟩
    · cases h
  · cases h

theorem step_scan {uids : List String}
    (h : s.step socketAddress targetPort (.scan uids) = some s') :
    ∃ currentUids, s.phase = .syncing currentUids ∧ s.resync.Finished ∧
      uids.Perm ((keysOf s.service.endpoints.entries).filter fun uid => uid ∉ currentUids) ∧
      s' = { s with phase := .removing, resync := { queue := uids.map .removed } } := by
  simp only [step] at h
  split at h
  · next currentUids hphase =>
    split at h
    · next hcond => exact ⟨currentUids, hphase, hcond.1, hcond.2, (Option.some.inj h).symm⟩
    · cases h
  · cases h

theorem step_finish (h : s.step socketAddress targetPort .finish = some s') :
    (s.phase = .removing ∧ s.resync.Finished) ∧ s' = { s with phase := .done } := by
  simp only [step] at h
  split at h
  · next hremoved => exact ⟨hremoved, (Option.some.inj h).symm⟩
  · cases h

theorem step_event {e : WatchEvent} (h : s.step socketAddress targetPort (.event e) = some s') :
    s.watch.Finished ∧ s' = { s with watch := { queue := s.eventOps targetPort e } } := by
  simp only [step] at h
  split at h
  · next hidle => exact ⟨hidle, (Option.some.inj h).symm⟩
  · cases h

theorem step_start {w : Writer} {rehash : Bool} {now : ℕ}
    (h : s.step socketAddress targetPort (.start w rehash now) = some s') :
    ∃ op queue, (s.batch w).queue = op :: queue ∧
      s' = s.advance w queue (s.batch w).waiting
        (s.service.begin socketAddress rehash now op) := by
  simp only [step] at h
  split at h
  · cases h
  · next op queue hqueue =>
    split at h
    · exact ⟨op, queue, hqueue, (Option.some.inj h).symm⟩
    · cases h

theorem step_resume {w : Writer} {i : ℕ} {secret : Option String}
    {wreck : FlatHashMap String K8sEndpoint}
    (h : s.step socketAddress targetPort (.resume w i secret wreck) = some s') :
    ∃ t, (s.batch w).waiting[i]? = some t ∧
      s' = s.advance w (s.batch w).queue ((s.batch w).waiting.eraseIdx i)
        (s.service.resume socketAddress secret wreck t) := by
  simp only [step] at h
  split at h
  · cases h
  · next t ht => exact ⟨t, ht, (Option.some.inj h).symm⟩

theorem step_reap {id : BackendId} (h : s.step socketAddress targetPort (.reap id) = some s') :
    (∃ target now, latest s.calls id = some (.drain target now)) ∧
      s' = { s with calls := s.calls ++ [.unregister id] } := by
  simp only [step] at h
  split at h
  · next target now hlatest => exact ⟨⟨target, now, hlatest⟩, (Option.some.inj h).symm⟩
  · cases h

end K8sService

end Handlers

end Ranvier
