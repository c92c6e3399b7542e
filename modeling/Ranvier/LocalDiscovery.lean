import Ranvier.Discovery
import Ranvier.KeyedMap
import Ranvier.Run

/-!
# Local discovery

`LocalDiscoveryService` scans ports of the local host again and again, and reconciles the backends
that it tracks with each scan: a backend that three scans in a row have missed is unregistered,
and one that is new is registered under the next id as long as there is room. Only the discovery
loop touches the map, so that its suspensions leave a reconciliation as it is; the order in which
the map is iterated is any.

* `reconcile` — one scan, with the calls that it makes to the registry;
* `Tracked` — the map mirrors the registrations: what each of the three loops keeps;
* `misses` — how many scans in a row have missed a port, which is what the failure counters
  have;
* `reconcile_contract` — what holds after every history of scans.
-/

namespace Ranvier

/-- What `probe_port` finds: a backend without an id, and without failures. -/
structure ProbedBackend : Type where
  port : UInt16
  serverType : String := "unknown"
  availableModels : List String := []
  lastSeen : ℕ := 0
  deriving DecidableEq, Repr

/-- `DiscoveredBackend`. -/
structure DiscoveredBackend : Type where
  id : BackendId
  port : UInt16
  serverType : String
  availableModels : List String
  lastSeen : ℕ
  consecutiveFailures : ℕ
  deriving DecidableEq, Repr

/-- The state of `LocalDiscoveryService`, with the calls it has made. -/
structure LocalDiscovery : Type where
  knownBackends : KeyedMap UInt16 DiscoveredBackend := {}
  nextBackendId : BackendId := 10000
  overflowDrops : ℕ := 0
  backendsAdded : ℕ := 0
  backendsRemoved : ℕ := 0
  calls : List RegistryMessage := []

/-- A scan: the backends that responded, and the order in which the map is iterated. -/
structure PortScan : Type where
  discovered : List ProbedBackend
  order : List UInt16
  deriving DecidableEq, Repr

/-- `REMOVAL_THRESHOLD`. -/
def removalThreshold : ℕ := 3

/-- `MAX_KNOWN_BACKENDS`. -/
def maxKnownBackends : ℕ := 64

/-- The last value of `BackendId`. -/
def lastBackendId : BackendId := 2147483647

/-- `socket_address(inet_address("127.0.0.1"), port)`. -/
def localAddress (port : UInt16) : SocketAddress := 2130706433 * 65536 + port.toNat

/-- What a port is registered with. -/
def localRegistration (port : UInt16) : Registration where
  addr := localAddress port
  weight := 100
  priority := 0

namespace PortScan

/-- `discovered_by_port`: of two backends on a port the later one. -/
def byPort (scan : PortScan) (port : UInt16) : Option ProbedBackend :=
  scan.discovered.reverse.find? fun d => d.port = port

/-- No backend on the port responded. -/
def Misses (scan : PortScan) (port : UInt16) : Prop := ∀ d ∈ scan.discovered, d.port ≠ port

instance (scan : PortScan) (port : UInt16) : Decidable (scan.Misses port) :=
  inferInstanceAs (Decidable (∀ d ∈ scan.discovered, d.port ≠ port))

end PortScan

/-- The entry of a port after a scan in which `found` was on it. -/
def DiscoveredBackend.refreshed (known : DiscoveredBackend) :
    Option ProbedBackend → DiscoveredBackend
  | none => { known with consecutiveFailures := known.consecutiveFailures + 1 }
  | some d =>
    { known with
      consecutiveFailures := 0
      lastSeen := d.lastSeen
      availableModels :=
        if known.availableModels ≠ d.availableModels then d.availableModels
        else known.availableModels }

/-- A backend that was found, under its id. -/
def ProbedBackend.withId (d : ProbedBackend) (id : BackendId) : DiscoveredBackend where
  id := id
  port := d.port
  serverType := d.serverType
  availableModels := d.availableModels
  lastSeen := d.lastSeen
  consecutiveFailures := 0

namespace LocalDiscovery

/-- The first loop at one entry, with `to_remove`. -/
def visit (scan : PortScan) (r : KeyedMap UInt16 DiscoveredBackend × List UInt16)
    (port : UInt16) : KeyedMap UInt16 DiscoveredBackend × List UInt16 :=
  match r.1.find port with
  | none => r
  | some known =>
    let known := known.refreshed (scan.byPort port)
    (r.1.set port known,
      if scan.byPort port = none ∧ removalThreshold ≤ known.consecutiveFailures then r.2 ++ [port]
      else r.2)

/-- The second loop at one port. -/
def removeBackend (s : LocalDiscovery) (port : UInt16) : LocalDiscovery :=
  match s.knownBackends.find port with
  | none => s
  | some known =>
    { s with
      knownBackends := s.knownBackends.erase port
      backendsRemoved := s.backendsRemoved + 1
      calls := s.calls ++ [.unregister known.id] }

/-- The limit on the backends tracked. -/
def effectiveLimit (maxBackends : ℕ) : ℕ := min maxBackends maxKnownBackends

/-- The third loop at one backend. There is no id after the last one: the increment overflows. -/
def addBackend (maxBackends : ℕ) (s : LocalDiscovery) (d : ProbedBackend) :
    Option LocalDiscovery :=
  if d.port ∈ s.knownBackends.keys then some s
  else if effectiveLimit maxBackends ≤ s.knownBackends.size then
    some { s with overflowDrops := s.overflowDrops + 1 }
  else if s.nextBackendId = lastBackendId then none
  else
    some { s with
      knownBackends := s.knownBackends.set d.port (d.withId s.nextBackendId)
      nextBackendId := s.nextBackendId + 1
      backendsAdded := s.backendsAdded + 1
      calls := s.calls ++ [.register s.nextBackendId (localRegistration d.port)] }

/-- The first two loops. -/
def removeMissing (s : LocalDiscovery) (scan : PortScan) : LocalDiscovery :=
  let r := scan.order.foldl (visit scan) (s.knownBackends, [])
  r.2.foldl removeBackend { s with knownBackends := r.1 }

/-- `reconcile`. -/
def reconcile (maxBackends : ℕ) (s : LocalDiscovery) (scan : PortScan) : Option LocalDiscovery :=
  if scan.order.Perm s.knownBackends.keys then
    exec (addBackend maxBackends) (s.removeMissing scan) scan.discovered
  else none

/-! ## What is to hold -/

/-- The port has a backend: the last call about some id registered it. -/
def Registered (calls : List RegistryMessage) (port : UInt16) : Prop :=
  ∃ id, K8sService.latest calls id = some (.register id (localRegistration port))

/-- The ids of all registrations. -/
def registeredIds (calls : List RegistryMessage) : List BackendId :=
  calls.filterMap fun m => match m with
    | .register id _ => some id
    | _ => none

/-- The last three scans have missed the port. -/
def MissedThrice (scans : List PortScan) (port : UInt16) : Prop :=
  ∃ before a b c, scans = before ++ [a, b, c] ∧ a.Misses port ∧ b.Misses port ∧ c.Misses port

/-! ## The map and the registrations -/

theorem localRegistration_inj {port port' : UInt16}
    (h : localRegistration port = localRegistration port') : port = port' := by
  have haddr : localAddress port = localAddress port' := congrArg Registration.addr h
  exact UInt16.toNat_inj.mp (Nat.add_left_cancel haddr)

/-- The last call about a backend is one of the calls. -/
theorem mem_registeredIds {calls : List RegistryMessage} {id target : BackendId} {r : Registration}
    (h : K8sService.latest calls id = some (.register target r)) :
    target = id ∧ id ∈ registeredIds calls := by
  have hfound := List.find?_some h
  have hid : target = id := of_decide_eq_true hfound
  have hmem : .register target r ∈ calls := List.mem_reverse.mp (List.mem_of_find?_eq_some h)
  exact ⟨hid, hid ▸ List.mem_filterMap.mpr ⟨_, hmem, rfl⟩⟩

/-- Every entry of the map is registered, and nothing else is; ids are handed out once. -/
structure Tracked (s : LocalDiscovery) : Prop where
  registered : ∀ port d, s.knownBackends.find port = some d →
    K8sService.latest s.calls d.id = some (.register d.id (localRegistration port))
  served : ∀ id target r, K8sService.latest s.calls id = some (.register target r) →
    ∃ port d, s.knownBackends.find port = some d ∧ d.id = id
  issued : ∀ id ∈ registeredIds s.calls, id < s.nextBackendId
  distinct : (registeredIds s.calls).Nodup

section Tracked

variable {s s' : LocalDiscovery} {port port' : UInt16} {d d' : DiscoveredBackend}

theorem tracked_start : Tracked {} where
  registered port d hd := by cases hd
  served id target r h := by cases h
  issued id h := by cases h
  distinct := List.nodup_nil

theorem Tracked.port_eq (h : Tracked s) (hd : s.knownBackends.find port = some d)
    (hd' : s.knownBackends.find port' = some d') (hid : d.id = d'.id) : port = port' := by
  have hlatest := h.registered port d hd
  rw [hid, h.registered port' d' hd', Option.some.injEq, RegistryMessage.register.injEq] at hlatest
  exact localRegistration_inj hlatest.2.symm

/-- The ports that are tracked are those that are registered. -/
theorem Tracked.find_isSome_iff (h : Tracked s) (port : UInt16) :
    (s.knownBackends.find port).isSome ↔ Registered s.calls port := by
  constructor
  · intro hsome
    obtain ⟨d, hd⟩ := Option.isSome_iff_exists.mp hsome
    exact ⟨d.id, h.registered port d hd⟩
  · rintro ⟨id, hlatest⟩
    obtain ⟨port', d, hd, rfl⟩ := h.served id id _ hlatest
    have hlatest' := h.registered port' d hd
    rw [hlatest, Option.some.injEq, RegistryMessage.register.injEq] at hlatest'
    obtain rfl := localRegistration_inj hlatest'.2
    rw [hd]
    rfl

/-- Entries change, and keep their ids. -/
theorem Tracked.refresh (h : Tracked s) {known : KeyedMap UInt16 DiscoveredBackend}
    {f : UInt16 → DiscoveredBackend → DiscoveredBackend}
    (hfind : ∀ b, known.find b = (s.knownBackends.find b).map (f b))
    (hid : ∀ b d, (f b d).id = d.id) : Tracked { s with knownBackends := known } where
  registered b d hd := by
    dsimp only at hd
    rw [hfind] at hd
    obtain ⟨d₀, hd₀, rfl⟩ := Option.map_eq_some_iff.mp hd
    rw [hid]
    exact h.registered b d₀ hd₀
  served id target r hlatest := by
    obtain ⟨b, d, hd, rfl⟩ := h.served id target r hlatest
    exact ⟨b, f b d, by rw [hfind, hd]; rfl, hid b d⟩
  issued := h.issued
  distinct := h.distinct

theorem registeredIds_unregister (calls : List RegistryMessage) (id : BackendId) :
    registeredIds (calls ++ [.unregister id]) = registeredIds calls := by
  rw [registeredIds, List.filterMap_append]
  exact List.append_nil _

theorem registeredIds_register (calls : List RegistryMessage) (id : BackendId) (r : Registration) :
    registeredIds (calls ++ [.register id r]) = registeredIds calls ++ [id] := by
  rw [registeredIds, List.filterMap_append]
  rfl

theorem Tracked.remove (h : Tracked s) (port : UInt16) : Tracked (s.removeBackend port) := by
  rw [removeBackend]
  split
  · exact h
  · next known hknown =>
    have hne : ∀ b d, b ≠ port → s.knownBackends.find b = some d →
        (RegistryMessage.unregister known.id).backend ≠ d.id :=
      fun b d hb hd hid => hb (h.port_eq hd hknown hid.symm)
    refine ⟨fun b d hd => ?_, fun id target r hlatest => ?_, ?_, ?_⟩
    · dsimp only at hd ⊢
      rw [KeyedMap.find_erase] at hd
      split at hd
      · cases hd
      · next hb =>
        rw [K8sService.latest_concat, if_neg (hne b d hb hd)]
        exact h.registered b d hd
    · dsimp only at hlatest ⊢
      rw [K8sService.latest_concat] at hlatest
      split at hlatest
      · cases hlatest
      · next hid =>
        obtain ⟨b, d, hd, rfl⟩ := h.served id target r hlatest
        refine ⟨b, d, ?_, rfl⟩
        rw [KeyedMap.find_erase, if_neg, hd]
        rintro rfl
        rw [hknown] at hd
        obtain rfl := Option.some.inj hd
        exact hid rfl
    · rw [registeredIds_unregister]
      exact h.issued
    · rw [registeredIds_unregister]
      exact h.distinct

/-- A backend gets the next id. -/
theorem Tracked.add (h : Tracked s) {d : ProbedBackend} (hnew : d.port ∉ s.knownBackends.keys) :
    Tracked { s with
      knownBackends := s.knownBackends.set d.port (d.withId s.nextBackendId)
      nextBackendId := s.nextBackendId + 1
      backendsAdded := s.backendsAdded + 1
      calls := s.calls ++ [.register s.nextBackendId (localRegistration d.port)] } := by
  have hlt : ∀ b e, s.knownBackends.find b = some e → e.id < s.nextBackendId :=
    fun b e he => h.issued e.id (mem_registeredIds (h.registered b e he)).2
  refine ⟨fun b e he => ?_, fun id target r hlatest => ?_, fun id hid => ?_, ?_⟩
  · dsimp only at he ⊢
    rw [KeyedMap.find_set] at he
    rw [K8sService.latest_concat]
    split at he
    · next hb =>
      obtain rfl := Option.some.inj he
      rw [hb]
      exact if_pos rfl
    · rw [if_neg]
      · exact h.registered b e he
      · exact fun hid => absurd (hlt b e he) (not_lt_of_ge hid.le)
  · dsimp only at hlatest ⊢
    rw [K8sService.latest_concat] at hlatest
    split at hlatest
    · next hid =>
      exact ⟨d.port, _, by rw [KeyedMap.find_set, if_pos rfl], hid⟩
    · obtain ⟨b, e, he, rfl⟩ := h.served id target r hlatest
      refine ⟨b, e, ?_, rfl⟩
      rw [KeyedMap.find_set, if_neg, he]
      rintro rfl
      exact hnew (KeyedMap.mem_keys_of_find he)
  · rw [registeredIds_register] at hid
    rcases List.mem_append.mp hid with hid | hid
    · exact (h.issued id hid).trans (Int.lt_succ _)
    · exact List.mem_singleton.mp hid ▸ Int.lt_succ _
  · rw [registeredIds_register, List.nodup_append]
    refine ⟨h.distinct, List.nodup_singleton _, ?_⟩
    rintro id hid id' hid' rfl
    exact absurd (h.issued id hid) (List.mem_singleton.mp hid' ▸ lt_irrefl _)

end Tracked

/-! ## The loops -/

section Loops

variable {scan : PortScan} {s s' : LocalDiscovery} {known : KeyedMap UInt16 DiscoveredBackend}
  {port : UInt16}

theorem byPort_eq_none_iff : scan.byPort port = none ↔ scan.Misses port := by
  rw [PortScan.byPort, List.find?_eq_none]
  constructor
  · intro h d hd hport
    exact h d (List.mem_reverse.mpr hd) (decide_eq_true hport)
  · intro h d hd hport
    exact h d (List.mem_reverse.mp hd) (of_decide_eq_true hport)

/-- The entry of the port is to be removed. -/
def Expires (scan : PortScan) (known : KeyedMap UInt16 DiscoveredBackend) (port : UInt16) : Prop :=
  ∃ d, known.find port = some d ∧ scan.Misses port ∧ removalThreshold ≤ d.consecutiveFailures + 1

theorem visit_spec (scan : PortScan) (known : KeyedMap UInt16 DiscoveredBackend)
    (removed : List UInt16) (port : UInt16) :
    let r := visit scan (known, removed) port
    (∀ b, r.1.find b = if b = port then
        (known.find b).map fun d => d.refreshed (scan.byPort b) else known.find b) ∧
      r.1.size = known.size ∧ ∀ b, b ∈ r.2 ↔ b ∈ removed ∨ b = port ∧ Expires scan known b := by
  cases hfind : known.find port with
  | none =>
    rw [visit, hfind]
    refine ⟨fun b => ?_, rfl, fun b => ?_⟩
    · dsimp only
      split
      · next hb => rw [hb, hfind, Option.map_none]
      · rfl
    · refine ⟨Or.inl, fun h => h.resolve_right ?_⟩
      rintro ⟨rfl, d, hd, -⟩
      rw [hfind] at hd
      cases hd
  | some d =>
    rw [visit, hfind]
    refine ⟨fun b => ?_, ?_, fun b => ?_⟩
    · rw [KeyedMap.find_set]
      split
      · next hb => rw [hb, hfind, Option.map_some]
      · rfl
    · rw [KeyedMap.size_set, if_pos (KeyedMap.mem_keys_of_find hfind)]
    · have hexpires : (scan.byPort port = none ∧
          removalThreshold ≤ (d.refreshed (scan.byPort port)).consecutiveFailures) ↔
          Expires scan known port := by
        constructor
        · rintro ⟨hnone, hle⟩
          rw [hnone] at hle
          exact ⟨d, hfind, byPort_eq_none_iff.mp hnone, hle⟩
        · rintro ⟨d', hd', hmisses, hle⟩
          rw [hfind] at hd'
          obtain rfl := Option.some.inj hd'
          rw [byPort_eq_none_iff.mpr hmisses]
          exact ⟨rfl, hle⟩
      dsimp only
      rw [apply_ite (b ∈ ·), List.mem_append, List.mem_singleton]
      split
      · next h => exact or_congr_right ⟨fun hb => ⟨hb, hb ▸ hexpires.mp h⟩, And.left⟩
      · next h =>
        refine ⟨Or.inl, fun hmem => hmem.resolve_right ?_⟩
        rintro ⟨rfl, hb⟩
        exact h (hexpires.mpr hb)

theorem expires_congr {known' : KeyedMap UInt16 DiscoveredBackend}
    (h : known'.find port = known.find port) : Expires scan known' port ↔ Expires scan known port := by
  rw [Expires, h, Expires]

theorem refreshed_id (d : DiscoveredBackend) (found : Option ProbedBackend) :
    (d.refreshed found).id = d.id := by
  cases found <;> rfl

/-- The first loop: every entry is refreshed once, whatever the order. -/
theorem foldl_visit {order : List UInt16} (hnodup : order.Nodup)
    (known : KeyedMap UInt16 DiscoveredBackend) (removed : List UInt16) :
    let r := order.foldl (visit scan) (known, removed)
    (∀ b, r.1.find b = if b ∈ order then
        (known.find b).map fun d => d.refreshed (scan.byPort b) else known.find b) ∧
      r.1.size = known.size ∧
        ∀ b, b ∈ r.2 ↔ b ∈ removed ∨ b ∈ order ∧ Expires scan known b := by
  induction order generalizing known removed with
  | nil => simp
  | cons port order ih =>
    obtain ⟨hport, hnodup⟩ := List.nodup_cons.mp hnodup
    obtain ⟨hfind, hsize, hmem⟩ := visit_spec scan known removed port
    generalize hr : visit scan (known, removed) port = r at hfind hsize hmem
    obtain ⟨known', removed'⟩ := r
    obtain ⟨hfinds, hsizes, hmems⟩ := ih hnodup known' removed'
    rw [List.foldl_cons, hr]
    refine ⟨fun b => ?_, hsizes.trans hsize, fun b => ?_⟩
    · rw [hfinds, hfind]
      by_cases hb : b = port
      · subst hb
        simp [hport]
      · simp [hb]
    · rw [hmems, hmem, or_assoc, List.mem_cons]
      refine or_congr_right ?_
      by_cases hb : b = port
      · subst hb
        simp [hport]
      · have hsame : known'.find b = known.find b := by rw [hfind, if_neg hb]
        simp [hb, expires_congr hsame]

theorem removeBackend_spec (s : LocalDiscovery) (port : UInt16) :
    (∀ b, (s.removeBackend port).knownBackends.find b =
        if b = port then none else s.knownBackends.find b) ∧
      (s.removeBackend port).knownBackends.size ≤ s.knownBackends.size ∧
      (s.removeBackend port).nextBackendId = s.nextBackendId ∧
      ∃ new, (s.removeBackend port).calls = s.calls ++ new ∧
        ∀ id, .unregister id ∈ new ↔ ∃ d, s.knownBackends.find port = some d ∧ d.id = id := by
  rw [removeBackend]
  cases hfind : s.knownBackends.find port with
  | none =>
    refine ⟨fun b => ?_, le_rfl, rfl, [], (List.append_nil _).symm, fun id => by simp⟩
    dsimp only
    split
    · next hb => rw [hb, hfind]
    · rfl
  | some d =>
    refine ⟨fun b => ?_, KeyedMap.size_erase_le port, rfl, _, rfl, fun id => by simp [eq_comm]⟩
    exact KeyedMap.find_erase port b

/-- The second loop: the ports are unregistered and forgotten. -/
theorem foldl_removeBackend (removed : List UInt16) (s : LocalDiscovery) :
    let s' := removed.foldl removeBackend s
    (∀ b, s'.knownBackends.find b = if b ∈ removed then none else s.knownBackends.find b) ∧
      s'.knownBackends.size ≤ s.knownBackends.size ∧
      s'.nextBackendId = s.nextBackendId ∧
      ∃ new, s'.calls = s.calls ++ new ∧
        ∀ id, .unregister id ∈ new ↔
          ∃ b ∈ removed, ∃ d, s.knownBackends.find b = some d ∧ d.id = id := by
  induction removed generalizing s with
  | nil => exact ⟨fun b => rfl, le_rfl, rfl, [], (List.append_nil _).symm, fun id => by simp⟩
  | cons port removed ih =>
    obtain ⟨hfind, hsize, hnext, new, hcalls, hnew⟩ := s.removeBackend_spec port
    obtain ⟨hfinds, hsizes, hnexts, news, hcallss, hnews⟩ := ih (s.removeBackend port)
    rw [List.foldl_cons]
    refine ⟨fun b => ?_, hsizes.trans hsize, hnexts.trans hnext, new ++ news, ?_, fun id => ?_⟩
    · rw [hfinds, hfind]
      by_cases hb : b = port <;> simp [hb]
    · rw [hcallss, hcalls, List.append_assoc]
    · rw [List.mem_append, hnew, hnews]
      constructor
      · rintro (⟨d, hd, hid⟩ | ⟨b, hb, d, hd, hid⟩)
        · exact ⟨port, List.mem_cons_self, d, hd, hid⟩
        · rw [hfind] at hd
          split at hd
          · cases hd
          · exact ⟨b, List.mem_cons_of_mem _ hb, d, hd, hid⟩
      · rintro ⟨b, hb, d, hd, hid⟩
        by_cases hport : b = port
        · exact .inl ⟨d, hport ▸ hd, hid⟩
        · refine .inr ⟨b, (List.mem_cons.mp hb).resolve_left hport, d, ?_, hid⟩
          rw [hfind, if_neg hport, hd]

theorem tracked_foldl_remove (removed : List UInt16) (h : Tracked s) :
    Tracked (removed.foldl removeBackend s) := by
  induction removed generalizing s with
  | nil => exact h
  | cons port removed ih => exact ih (h.remove port)

/-- What the first two loops leave of the entry of a port. -/
def afterMisses (scan : PortScan) (b : UInt16) : Option DiscoveredBackend → Option DiscoveredBackend
  | none => none
  | some d =>
    if scan.Misses b ∧ removalThreshold ≤ d.consecutiveFailures + 1 then none
    else some (d.refreshed (scan.byPort b))

theorem removeMissing_spec (h : Tracked s) (horder : scan.order.Perm s.knownBackends.keys) :
    Tracked (s.removeMissing scan) ∧
      (∀ b, (s.removeMissing scan).knownBackends.find b =
        afterMisses scan b (s.knownBackends.find b)) ∧
      (s.removeMissing scan).knownBackends.size ≤ s.knownBackends.size ∧
      (s.removeMissing scan).nextBackendId = s.nextBackendId ∧
      ∃ new, (s.removeMissing scan).calls = s.calls ++ new ∧
        ∀ id, .unregister id ∈ new ↔ ∃ b, ∃ d, s.knownBackends.find b = some d ∧ d.id = id ∧
          scan.Misses b ∧ removalThreshold ≤ d.consecutiveFailures + 1 := by
  have hnodup : scan.order.Nodup := horder.nodup_iff.mpr s.knownBackends.nodup
  obtain ⟨hfind, hsize, hmem⟩ := @foldl_visit scan scan.order hnodup s.knownBackends []
  rw [removeMissing]
  generalize scan.order.foldl (visit scan) (s.knownBackends, []) = r at hfind hsize hmem
  have horderMem : ∀ b d, s.knownBackends.find b = some d → b ∈ scan.order :=
    fun b d hd => horder.mem_iff.mpr (KeyedMap.mem_keys_of_find hd)
  have hrefreshed : ∀ b, r.1.find b =
      (s.knownBackends.find b).map fun d => d.refreshed (scan.byPort b) := by
    intro b
    rw [hfind]
    split
    · rfl
    · next hb =>
      rw [KeyedMap.find_eq_none_iff.mpr fun hkey => hb (horder.mem_iff.mpr hkey), Option.map_none]
  have hexpires : ∀ b, b ∈ r.2 ↔ Expires scan s.knownBackends b := by
    intro b
    rw [hmem]
    constructor
    · rintro (hb | hb)
      · cases hb
      · exact hb.2
    · intro hb
      exact .inr ⟨horderMem b _ hb.choose_spec.1, hb⟩
  obtain ⟨hfinds, hsizes, hnext, new, hcalls, hnew⟩ :=
    foldl_removeBackend r.2 { s with knownBackends := r.1 }
  refine ⟨tracked_foldl_remove r.2 (h.refresh hrefreshed fun b d => refreshed_id d _), fun b => ?_,
    hsizes.trans hsize.le, hnext, new, hcalls, fun id => ?_⟩
  · rw [hfinds, hrefreshed]
    cases hd : s.knownBackends.find b with
    | none => rw [Option.map_none, ite_self, afterMisses]
    | some d =>
      have hiff : b ∈ r.2 ↔ scan.Misses b ∧ removalThreshold ≤ d.consecutiveFailures + 1 := by
        rw [hexpires, Expires, hd]
        simp
      rw [afterMisses, Option.map_some]
      split
      · next hb => rw [if_pos (hiff.mp hb)]
      · next hb => rw [if_neg fun hmisses => hb (hiff.mpr hmisses)]
  · rw [hnew]
    constructor
    · rintro ⟨b, hb, d, hd, hid⟩
      obtain ⟨d₀, hd₀, hmisses, hle⟩ := (hexpires b).mp hb
      dsimp only at hd
      rw [hrefreshed, hd₀, Option.map_some] at hd
      obtain rfl := Option.some.inj hd
      exact ⟨b, d₀, hd₀, (refreshed_id d₀ _).symm.trans hid, hmisses, hle⟩
    · rintro ⟨b, d, hd, hid, hmisses, hle⟩
      refine ⟨b, (hexpires b).mpr ⟨d, hd, hmisses, hle⟩, d.refreshed (scan.byPort b), ?_,
        (refreshed_id d _).trans hid⟩
      dsimp only
      rw [hrefreshed, hd, Option.map_some]

/-- The third loop, with the backends that are behind it. -/
structure Extends (maxBackends : ℕ) (s : LocalDiscovery) (done : List ProbedBackend)
    (s' : LocalDiscovery) : Prop where
  tracked : Tracked s'
  limit : s'.knownBackends.size ≤ effectiveLimit maxBackends
  kept : ∀ b d, s.knownBackends.find b = some d → s'.knownBackends.find b = some d
  origin : ∀ b d, s'.knownBackends.find b = some d → s.knownBackends.find b = some d ∨
    (∃ p ∈ done, p.port = b) ∧ d.consecutiveFailures = 0
  added : ∀ p ∈ done, p.port ∈ s'.knownBackends.keys ∨
    s'.knownBackends.size = effectiveLimit maxBackends
  calls : ∃ new, s'.calls = s.calls ++ new ∧ ∀ id, .unregister id ∉ new

theorem Extends.step {maxBackends : ℕ} {done : List ProbedBackend} {d : ProbedBackend}
    {s₀ : LocalDiscovery} (h : Extends maxBackends s₀ done s)
    (hstep : s.addBackend maxBackends d = some s') : Extends maxBackends s₀ (done ++ [d]) s' := by
  have horigin : ∀ b e, s.knownBackends.find b = some e → s₀.knownBackends.find b = some e ∨
      (∃ p ∈ done ++ [d], p.port = b) ∧ e.consecutiveFailures = 0 := by
    intro b e he
    refine (h.origin b e he).imp_right ?_
    rintro ⟨⟨p, hp, hport⟩, hzero⟩
    exact ⟨⟨p, List.mem_append_left _ hp, hport⟩, hzero⟩
  rw [addBackend] at hstep
  split at hstep
  · next hknown =>
    obtain rfl := Option.some.inj hstep
    refine { h with origin := horigin, added := ?_ }
    rw [List.forall_mem_append]
    exact ⟨h.added, List.forall_mem_singleton.mpr (.inl hknown)⟩
  · next hnew =>
    split at hstep
    · next hfull =>
      obtain rfl := Option.some.inj hstep
      refine ⟨⟨h.tracked.registered, h.tracked.served, h.tracked.issued, h.tracked.distinct⟩,
        h.limit, h.kept, horigin, ?_, h.calls⟩
      rw [List.forall_mem_append]
      exact ⟨h.added, List.forall_mem_singleton.mpr (.inr (le_antisymm h.limit hfull))⟩
    · next hroom =>
      split at hstep
      · cases hstep
      · obtain rfl := Option.some.inj hstep
        obtain ⟨new, hcalls, hregisters⟩ := h.calls
        refine ⟨h.tracked.add hnew, ?_, fun b e he => ?_, fun b e he => ?_, ?_,
          new ++ [.register s.nextBackendId (localRegistration d.port)], ?_, ?_⟩
        · dsimp only
          rw [KeyedMap.size_set, if_neg hnew]
          exact Nat.succ_le_of_lt (Nat.lt_of_not_le hroom)
        · dsimp only
          rw [KeyedMap.find_set, if_neg, h.kept b e he]
          rintro rfl
          exact hnew (KeyedMap.mem_keys_of_find (h.kept _ e he))
        · dsimp only at he
          rw [KeyedMap.find_set] at he
          split at he
          · next hb =>
            obtain rfl := Option.some.inj he
            exact .inr ⟨⟨d, List.mem_append_right _ List.mem_cons_self, hb.symm⟩, rfl⟩
          · exact horigin b e he
        · rw [List.forall_mem_append]
          refine ⟨fun p hp => .inl (KeyedMap.mem_keys_set.mpr (.inr ?_)),
            List.forall_mem_singleton.mpr (.inl (KeyedMap.mem_keys_set.mpr (.inl rfl)))⟩
          exact (h.added p hp).resolve_right fun hfull => hroom hfull.ge
        · dsimp only
          rw [hcalls, List.append_assoc]
        · intro id hmem
          rcases List.mem_append.mp hmem with hmem | hmem
          · exact hregisters id hmem
          · cases List.mem_singleton.mp hmem

end Loops

/-! ## Histories of scans -/

/-- How many scans in a row, up to the last one, have missed the port. -/
def misses (scans : List PortScan) (port : UInt16) : ℕ :=
  (scans.reverse.takeWhile fun scan => scan.Misses port).length

theorem misses_concat (scans : List PortScan) (scan : PortScan) (port : UInt16) :
    misses (scans ++ [scan]) port = if scan.Misses port then misses scans port + 1 else 0 := by
  rw [misses, List.reverse_append, List.reverse_singleton, List.singleton_append,
    List.takeWhile_cons]
  by_cases h : scan.Misses port <;> simp [h, misses]

theorem exists_of_lt_misses {scans : List PortScan} {port : UInt16} {n : ℕ}
    (h : n < misses scans port) :
    ∃ before scan, scans = before ++ [scan] ∧ scan.Misses port ∧ n ≤ misses before port := by
  rcases List.eq_nil_or_concat scans with rfl | ⟨before, scan, rfl⟩
  · cases h
  · rw [List.concat_eq_append] at h ⊢
    rw [misses_concat] at h
    split at h
    · next hmisses => exact ⟨before, scan, rfl, hmisses, Nat.le_of_lt_succ h⟩
    · cases h

theorem removalThreshold_le_misses_iff (scans : List PortScan) (port : UInt16) :
    removalThreshold ≤ misses scans port ↔ MissedThrice scans port := by
  constructor
  · intro h
    obtain ⟨scans, c, rfl, hc, h⟩ := exists_of_lt_misses h
    obtain ⟨scans, b, rfl, hb, h⟩ := exists_of_lt_misses h
    obtain ⟨before, a, rfl, ha, -⟩ := exists_of_lt_misses h
    exact ⟨before, a, b, c, by simp, ha, hb, hc⟩
  · rintro ⟨before, a, b, c, rfl, ha, hb, hc⟩
    have hsplit : before ++ [a, b, c] = before ++ [a] ++ [b] ++ [c] := by simp
    rw [hsplit, misses_concat, if_pos hc, misses_concat, if_pos hb, misses_concat, if_pos ha,
      removalThreshold]
    omega

/-- What holds after a history of scans. -/
structure Reconciled (maxBackends : ℕ) (scans : List PortScan) (s : LocalDiscovery) : Prop where
  tracked : Tracked s
  limit : s.knownBackends.size ≤ effectiveLimit maxBackends
  failures : ∀ port d, s.knownBackends.find port = some d →
    d.consecutiveFailures = misses scans port ∧ misses scans port < removalThreshold

section Histories

variable {maxBackends : ℕ} {scans : List PortScan} {scan : PortScan} {s s' : LocalDiscovery}

theorem reconciled_start : Reconciled maxBackends [] {} where
  tracked := tracked_start
  limit := Nat.zero_le _
  failures port d hd := by cases hd

/-- The two parts of a reconciliation. -/
theorem Reconciled.parts (h : Reconciled maxBackends scans s)
    (hstep : s.reconcile maxBackends scan = some s') :
    scan.order.Perm s.knownBackends.keys ∧
      Extends maxBackends (s.removeMissing scan) scan.discovered s' := by
  rw [reconcile] at hstep
  split at hstep
  · next horder =>
    obtain ⟨htracked, -, hsize, -⟩ := removeMissing_spec h.tracked horder
    refine ⟨horder, ?_⟩
    refine exec_induction (I := Extends maxBackends (s.removeMissing scan)) (h := [])
      (fun hadd hext => hext.step hadd) hstep ?_
    exact ⟨htracked, hsize.trans h.limit, fun _ _ hd => hd, fun _ _ hd => .inl hd, by simp,
      [], (List.append_nil _).symm, by simp⟩
  · cases hstep

theorem Reconciled.step (h : Reconciled maxBackends scans s)
    (hstep : s.reconcile maxBackends scan = some s') :
    Reconciled maxBackends (scans ++ [scan]) s' := by
  obtain ⟨horder, hextends⟩ := h.parts hstep
  obtain ⟨-, hfind, -⟩ := removeMissing_spec h.tracked horder
  refine ⟨hextends.tracked, hextends.limit, fun port d hd => ?_⟩
  rw [misses_concat]
  rcases hextends.origin port d hd with hd | ⟨⟨p, hp, hport⟩, hzero⟩
  · rw [hfind] at hd
    cases hold : s.knownBackends.find port with
    | none =>
      rw [hold] at hd
      cases hd
    | some d₀ =>
      obtain ⟨hfailures, hlt⟩ := h.failures port d₀ hold
      rw [hold, afterMisses] at hd
      split at hd
      · cases hd
      · next hstays =>
        obtain rfl := Option.some.inj hd
        by_cases hmisses : scan.Misses port
        · rw [byPort_eq_none_iff.mpr hmisses, if_pos hmisses, ← hfailures]
          exact ⟨rfl, Nat.lt_of_not_le fun hle => hstays ⟨hmisses, hle⟩⟩
        · obtain ⟨found, hfound⟩ := Option.ne_none_iff_exists'.mp
            (mt byPort_eq_none_iff.mp hmisses)
          rw [hfound, if_neg hmisses]
          exact ⟨rfl, by decide⟩
  · rw [if_neg fun hmisses => hmisses p hp hport]
    exact ⟨hzero, by decide⟩

/-- One id is taken, and as many are left as are needed. -/
theorem ids_remain {next next' last : ℤ} {n : ℕ} (hids : next + ((n + 1 : ℕ) : ℤ) ≤ last) :
    next ≠ last ∧ (next' ≤ next + 1 → next' + (n : ℤ) ≤ last) := by
  omega

/-- There are as many ids as backends found, so that the third loop comes to its end. -/
theorem exec_addBackend_isSome (discovered : List ProbedBackend) (s : LocalDiscovery)
    (hids : s.nextBackendId + discovered.length ≤ lastBackendId) :
    (exec (addBackend maxBackends) s discovered).isSome := by
  induction discovered generalizing s with
  | nil => rfl
  | cons d discovered ih =>
    have hadd : ∃ s', s.addBackend maxBackends d = some s' ∧
        s'.nextBackendId ≤ s.nextBackendId + 1 := by
      rw [addBackend, if_neg (@ids_remain _ 0 _ _ hids).1]
      split
      · exact ⟨s, rfl, Int.le_add_one le_rfl⟩
      · split
        · exact ⟨_, rfl, Int.le_add_one le_rfl⟩
        · exact ⟨_, rfl, le_rfl⟩
    obtain ⟨s', hs', hnext⟩ := hadd
    rw [exec, hs']
    exact ih s' ((ids_remain hids).2 hnext)

/-- **Local discovery.** After every history of scans, with the map iterated in any order: the
ports tracked are those with a registered backend, all registrations have had different ids, and
no more ports are tracked than the limit says. The next scan unregisters exactly the backends
whose ports the last three scans have missed; a port that is found is tracked after it, unless
the limit is reached; and it gets there as long as ids remain. -/
theorem reconcile_contract (hexec : exec (reconcile maxBackends) {} scans = some s) :
    (∀ port, (s.knownBackends.find port).isSome ↔ Registered s.calls port) ∧
      (registeredIds s.calls).Nodup ∧
      s.knownBackends.size ≤ effectiveLimit maxBackends ∧
      (∀ scan s', s.reconcile maxBackends scan = some s' →
        (∃ new, s'.calls = s.calls ++ new ∧ ∀ id, .unregister id ∈ new ↔
          ∃ port d, s.knownBackends.find port = some d ∧ d.id = id ∧
            MissedThrice (scans ++ [scan]) port) ∧
        ∀ p ∈ scan.discovered, p.port ∈ s'.knownBackends.keys ∨
          s'.knownBackends.size = effectiveLimit maxBackends) ∧
      ∀ scan : PortScan, scan.order.Perm s.knownBackends.keys →
        s.nextBackendId + scan.discovered.length ≤ lastBackendId →
          (s.reconcile maxBackends scan).isSome := by
  have hreconciled : Reconciled maxBackends scans s :=
    exec_induction (I := Reconciled maxBackends) (h := []) (fun hstep h => h.step hstep) hexec
      reconciled_start
  refine ⟨hreconciled.tracked.find_isSome_iff, hreconciled.tracked.distinct, hreconciled.limit,
    fun scan s' hstep => ⟨?_, ?_⟩, fun scan horder hids => ?_⟩
  · obtain ⟨horder, hextends⟩ := hreconciled.parts hstep
    obtain ⟨-, -, -, -, removals, hremovals, hunregisters⟩ :=
      removeMissing_spec hreconciled.tracked horder
    obtain ⟨registrations, hregistrations, hregisters⟩ := hextends.calls
    refine ⟨removals ++ registrations, ?_, fun id => ?_⟩
    · rw [hregistrations, hremovals, List.append_assoc]
    · rw [List.mem_append, or_iff_left (hregisters id), hunregisters]
      refine exists_congr fun port => exists_congr fun d => and_congr_right fun hd =>
        and_congr_right fun _ => ?_
      rw [← removalThreshold_le_misses_iff, misses_concat, (hreconciled.failures port d hd).1]
      by_cases hmisses : scan.Misses port <;> simp [hmisses, removalThreshold]
  · exact (hreconciled.parts hstep).2.added
  · obtain ⟨-, -, -, hnext, -⟩ := removeMissing_spec hreconciled.tracked horder
    rw [reconcile, if_pos horder]
    exact exec_addBackend_isSome scan.discovered _ (by rwa [hnext])

end Histories

/-- A backend comes, is missed by three scans, and returns. -/
def comeAndGone : List PortScan :=
  [⟨[{ port := 8000 }], []⟩, ⟨[], [8000]⟩, ⟨[], [8000]⟩, ⟨[], [8000]⟩, ⟨[{ port := 8000 }], []⟩]

/-- It is registered again, under an id of its own. -/
theorem reconcile_contract_comeAndGone :
    ∃ s, exec (reconcile 32) {} comeAndGone = some s ∧ Registered s.calls 8000 ∧
      registeredIds s.calls = [10000, 10001] := by
  have hsome : (exec (reconcile 32) {} comeAndGone).isSome := by decide +kernel
  refine ⟨_, exec_eq_some_getD hsome, ?_, by decide +kernel⟩
  exact ((reconcile_contract (exec_eq_some_getD hsome)).1 8000).mp (by decide +kernel)

end LocalDiscovery

end Ranvier
