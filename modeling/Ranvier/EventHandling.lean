import Ranvier.HeldIterators

/-!
# A watch event under way

The handlers of an event run side by side, and the map is between what was listed
and what is. `Underway` says how the map, the handlers that are queued or suspended
and the calls so far stand to the endpoints listed now.

* `Underway.version`, `Underway.deletion` — an event begins;
* `Underway.begin`, `Underway.resume` — its handlers start and go on;
* `Underway.settled` — when they are finished, what is tracked is what is listed.
-/

namespace Ranvier

namespace SliceMirror

/-- No uid is listed with two records. -/
def Unambiguous (eps : List K8sEndpoint) : Prop :=
  ∀ ep ∈ eps, ∀ ep' ∈ eps, ep.uid = ep'.uid → ep = ep'

instance (eps : List K8sEndpoint) : Decidable (Unambiguous eps) :=
  inferInstanceAs (Decidable (∀ ep ∈ eps, ∀ ep' ∈ eps, ep.uid = ep'.uid → ep = ep'))

variable {socketAddress : String → ℕ → Option SocketAddress} {fleet : Set String}
  {L : List K8sEndpoint}
  {get : String → Option K8sEndpoint} {queue rest : List EndpointOp} {waiting : List Suspended}
  {calls : List RegistryMessage} {ep : K8sEndpoint}

variable (socketAddress) in
/-- The last call about the endpoint's backend registered it as it is. -/
def RegisteredAs (calls : List RegistryMessage) (ep : K8sEndpoint) : Prop :=
  ∃ addr, socketAddress ep.address ep.port = some addr ∧
    K8sService.latest calls ep.toBackendId = some (.register ep.toBackendId (ep.registration addr))

/-- The last call about a backend registered it. -/
def Serves (calls : List RegistryMessage) (id : BackendId) : Prop :=
  ∃ target r, K8sService.latest calls id = some (.register target r)

variable (socketAddress fleet) in
/-- What the slices list. -/
structure WellListed (L : List K8sEndpoint) : Prop where
  unambiguous : Unambiguous L
  known : ∀ ep ∈ L, ep.uid ∈ fleet ∧ (socketAddress ep.address ep.port).isSome

/-- An event that writes: its endpoints are listed, and those it takes for new
are not tracked otherwise. -/
structure Writing (L : List K8sEndpoint) (get : String → Option K8sEndpoint)
    (queue : List EndpointOp) (waiting : List Suspended) : Prop where
  queued : ∀ op ∈ queue, ∃ ep ∈ L, op.writes = some ep
  held : iterators waiting = []
  fresh : ∀ ep, .added ep ∈ queue → get ep.uid = none ∨ get ep.uid = some ep

/-- The endpoint a handler removes. -/
def removes : EndpointOp → Option String
  | .removed uid => some uid
  | _ => none

/-- An event that removes: each of its endpoints once, and none is listed. -/
structure Removing (L : List K8sEndpoint) (queue : List EndpointOp) (waiting : List Suspended) :
    Prop where
  queued : ∀ op ∈ queue, op.writes = none
  secrets : ∀ ep, .secret ep ∉ waiting
  unlisted : ∀ uid ∈ queue.filterMap removes ++ (iterators waiting).map FlatIterator.key,
    uid ∉ L.map K8sEndpoint.uid
  once : (queue.filterMap removes ++ (iterators waiting).map FlatIterator.key).Nodup

variable (socketAddress fleet) in
/-- How the map, the handlers and the calls stand to what is listed while an event
is handled: each listed endpoint is tracked or about to be written, each tracked
one is listed or about to be written or removed; a tracked ready one is registered
as it is, or about to be, or on its way out; and nothing else is registered. -/
structure Underway (L : List K8sEndpoint) (get : String → Option K8sEndpoint)
    (queue : List EndpointOp) (waiting : List Suspended) (calls : List RegistryMessage) :
    Prop where
  keyed : ∀ uid ep, get uid = some ep → ep.uid = uid ∧ uid ∈ fleet
  present : ∀ ep ∈ L, get ep.uid = some ep ∨ ∃ op ∈ queue, op.writes = some ep
  listed : ∀ uid ep, get uid = some ep → ep ∈ L ∨
    (∃ op ∈ queue, ∃ e, op.writes = some e ∧ e.uid = uid) ∨
      uid ∈ queue.filterMap removes ++ (iterators waiting).map FlatIterator.key
  kind : Writing L get queue waiting ∨ Removing L queue waiting
  lookups : ∀ ep, .secret ep ∈ waiting → ep ∈ L ∧ ep.ready = true ∧ get ep.uid = some ep
  registered : ∀ uid ep, get uid = some ep → ep.ready = true →
    RegisteredAs socketAddress calls ep ∨ .secret ep ∈ waiting ∨
      uid ∈ (iterators waiting).map FlatIterator.key
  served : ∀ id, Serves calls id → ∃ uid ep, get uid = some ep ∧ ep.ready = true ∧
    ep.toBackendId = id
  leaving : ∀ uid ∈ (iterators waiting).map FlatIterator.key, ∀ ep, get uid = some ep →
    ¬Serves calls ep.toBackendId
  statuses : ∀ id isAlive, .setStatus id isAlive ∉ calls

theorem latest_concat_of_ne {id : BackendId} {m : RegistryMessage} (h : m.backend ≠ id) :
    K8sService.latest (calls ++ [m]) id = K8sService.latest calls id := by
  rw [K8sService.latest_concat, if_neg h]

theorem RegisteredAs.concat {m : RegistryMessage} (h : RegisteredAs socketAddress calls ep)
    (hne : m.backend ≠ ep.toBackendId) : RegisteredAs socketAddress (calls ++ [m]) ep := by
  obtain ⟨addr, haddr, hlatest⟩ := h
  exact ⟨addr, haddr, by rw [latest_concat_of_ne hne, hlatest]⟩

theorem serves_concat_of_ne {id : BackendId} {m : RegistryMessage} (h : m.backend ≠ id) :
    Serves (calls ++ [m]) id ↔ Serves calls id := by
  rw [Serves, latest_concat_of_ne h, Serves]

theorem not_serves_concat {id : BackendId} {m : RegistryMessage} (hid : m.backend = id)
    (hm : ∀ target r, m ≠ .register target r) : ¬Serves (calls ++ [m]) id := by
  rintro ⟨target, r, hlatest⟩
  rw [K8sService.latest_concat, if_pos hid, Option.some.injEq] at hlatest
  exact hm target r hlatest

/-- What is served after a call that registers nothing was served before. -/
theorem serves_of_concat {id : BackendId} {m : RegistryMessage}
    (hm : ∀ target r, m ≠ .register target r) (h : Serves (calls ++ [m]) id) :
    m.backend ≠ id ∧ Serves calls id := by
  have hne : m.backend ≠ id := fun hid => not_serves_concat hid hm h
  exact ⟨hne, (serves_concat_of_ne hne).mp h⟩

/-- Different endpoints have different ids. -/
theorem toBackendId_ne (hfleet : Set.InjOn backendIdOf fleet) {e e' : K8sEndpoint}
    (he : e.uid ∈ fleet) (he' : e'.uid ∈ fleet) (hne : e.uid ≠ e'.uid) :
    e.toBackendId ≠ e'.toBackendId := fun h => hne (hfleet he he' h)

/-- An entry of the map after `ep` was written. -/
theorem update_eq_some {uid : String} {e : K8sEndpoint} :
    Function.update get ep.uid (some ep) uid = some e ↔
      uid = ep.uid ∧ e = ep ∨ uid ≠ ep.uid ∧ get uid = some e := by
  by_cases huid : uid = ep.uid
  · subst huid
    simp [eq_comm]
  · simp [huid]

/-- An event whose next handler writes is one that writes, … -/
theorem Underway.writing {op : EndpointOp}
    (h : Underway socketAddress fleet L get (op :: rest) waiting calls)
    (hop : op.writes = some ep) : Writing L get (op :: rest) waiting := by
  refine h.kind.resolve_right fun hremoving => ?_
  have hnone := hremoving.queued op List.mem_cons_self
  rw [hop] at hnone
  cases hnone

/-- … and one whose next handler removes is one that removes. -/
theorem Underway.removing {uid : String}
    (h : Underway socketAddress fleet L get (.removed uid :: rest) waiting calls) :
    Removing L (.removed uid :: rest) waiting := by
  refine h.kind.resolve_left fun hwriting => ?_
  obtain ⟨_, _, hwrites⟩ := hwriting.queued _ List.mem_cons_self
  cases hwrites

theorem Writing.mem {op : EndpointOp} (h : Writing L get (op :: rest) waiting)
    (hop : op.writes = some ep) : ep ∈ L := by
  obtain ⟨e, he, hwrites⟩ := h.queued op List.mem_cons_self
  rw [hop, Option.some.injEq] at hwrites
  exact hwrites ▸ he

theorem Writing.notMem_removed (h : Writing L get queue waiting) (uid : String) :
    uid ∉ queue.filterMap removes ++ (iterators waiting).map FlatIterator.key := by
  intro hmem
  rcases List.mem_append.mp hmem with hmem | hmem
  · obtain ⟨op, hop, hremoves⟩ := List.mem_filterMap.mp hmem
    obtain ⟨e, -, hwrites⟩ := h.queued op hop
    cases op <;> cases hremoves
    cases hwrites
  · rw [h.held] at hmem
    cases hmem

/-- A removing event has nothing left to write. -/
theorem Removing.present (h : Removing L queue waiting) {e : K8sEndpoint}
    (hpresent : get e.uid = some e ∨ ∃ op ∈ queue, op.writes = some e) : get e.uid = some e := by
  refine hpresent.resolve_right ?_
  rintro ⟨op, hop, hwrites⟩
  rw [h.queued op hop] at hwrites
  cases hwrites

theorem Removing.listed (h : Removing L queue waiting) {uid : String} {e : K8sEndpoint}
    {leaving : List String}
    (hlisted : e ∈ L ∨ (∃ op ∈ queue, ∃ e', op.writes = some e' ∧ e'.uid = uid) ∨ uid ∈ leaving) :
    e ∈ L ∨ uid ∈ leaving := by
  rcases hlisted with hlisted | ⟨op, hop, e', hwrites, -⟩ | hout
  · exact .inl hlisted
  · rw [h.queued op hop] at hwrites
    cases hwrites
  · exact .inr hout

/-- A writing event with its next handler taken off. -/
theorem Writing.tail {op : EndpointOp} (h : Writing L get (op :: rest) waiting)
    (hL : WellListed socketAddress fleet L) (hop : op.writes = some ep) {waits : Option Suspended}
    (hwaits : iterators waits.toList = []) :
    Writing L (Function.update get ep.uid (some ep)) rest (waiting ++ waits.toList) where
  queued op' hop' := h.queued op' (List.mem_cons_of_mem _ hop')
  held := by
    rw [iterators, List.filterMap_append, List.append_eq_nil_iff]
    exact ⟨h.held, hwaits⟩
  fresh e he := by
    by_cases huid : e.uid = ep.uid
    · obtain ⟨e', he', hwrites⟩ := h.queued _ (List.mem_cons_of_mem _ he)
      obtain rfl := Option.some.inj hwrites
      obtain rfl := hL.unambiguous _ he' _ (h.mem hop) huid
      rw [Function.update_self]
      exact .inr rfl
    · rw [Function.update_of_ne huid]
      exact h.fresh e (List.mem_cons_of_mem _ he)

variable (socketAddress) in
/-- What a handler that wrote a listed endpoint has done about its backend. -/
structure Attended (ep : K8sEndpoint) (calls calls' : List RegistryMessage)
    (waits : Option Suspended) : Prop where
  held : iterators waits.toList = []
  lookup : ∀ e, .secret e ∈ waits → e = ep ∧ ep.ready = true
  registered : ep.ready = true → RegisteredAs socketAddress calls' ep ∨ .secret ep ∈ waits
  others : ∀ id ≠ ep.toBackendId, K8sService.latest calls' id = K8sService.latest calls id
  served : Serves calls' ep.toBackendId → ep.ready = true
  statuses : ∀ id isAlive, .setStatus id isAlive ∈ calls' → .setStatus id isAlive ∈ calls

/-- The next handler writes its endpoint. -/
theorem Underway.write (hfleet : Set.InjOn backendIdOf fleet)
    (hL : WellListed socketAddress fleet L) {op : EndpointOp} {waits : Option Suspended}
    {calls' : List RegistryMessage}
    (h : Underway socketAddress fleet L get (op :: rest) waiting calls)
    (hop : op.writes = some ep) (hattended : Attended socketAddress ep calls calls' waits) :
    Underway socketAddress fleet L (Function.update get ep.uid (some ep)) rest
      (waiting ++ waits.toList) calls' := by
  have hwriting := h.writing hop
  have hep := hwriting.mem hop
  have hknown := (hL.known ep hep).1
  have htail := hwriting.tail hL hop hattended.held
  refine
    { keyed := ?_, present := ?_, listed := ?_, kind := .inl htail, lookups := ?_
      registered := ?_, served := ?_, leaving := by rw [htail.held]; simp
      statuses := fun id isAlive hmem => h.statuses id isAlive (hattended.statuses id isAlive hmem) }
  · intro uid e he
    rcases update_eq_some.mp he with ⟨rfl, rfl⟩ | ⟨-, he⟩
    · exact ⟨rfl, hknown⟩
    · exact h.keyed uid e he
  · intro e he
    by_cases huid : e.uid = ep.uid
    · obtain rfl := hL.unambiguous e he ep hep huid
      exact .inl (Function.update_self ..)
    · rw [Function.update_of_ne huid]
      refine (h.present e he).imp_right ?_
      rintro ⟨op', hop', hwrites⟩
      rcases List.mem_cons.mp hop' with rfl | hop'
      · rw [hop, Option.some.injEq] at hwrites
        exact absurd (by rw [hwrites]) huid
      · exact ⟨op', hop', hwrites⟩
  · intro uid e he
    rcases update_eq_some.mp he with ⟨-, rfl⟩ | ⟨huid, he⟩
    · exact .inl hep
    · rcases h.listed uid e he with hlisted | ⟨op', hop', e', hwrites, he'⟩ | hremoves
      · exact .inl hlisted
      · rcases List.mem_cons.mp hop' with rfl | hop'
        · rw [hop, Option.some.injEq] at hwrites
          exact absurd (by rw [hwrites, he']) huid
        · exact .inr (.inl ⟨op', hop', e', hwrites, he'⟩)
      · exact absurd hremoves (hwriting.notMem_removed uid)
  · intro e he
    rcases List.mem_append.mp he with he | he
    · obtain ⟨hlisted, hready, htracked⟩ := h.lookups e he
      refine ⟨hlisted, hready, update_eq_some.mpr ?_⟩
      by_cases huid : e.uid = ep.uid
      · exact .inl ⟨huid, hL.unambiguous e hlisted ep hep huid⟩
      · exact .inr ⟨huid, htracked⟩
    · obtain ⟨rfl, hready⟩ := hattended.lookup e (Option.mem_toList.mp he)
      exact ⟨hep, hready, Function.update_self ..⟩
  · intro uid e he hready
    rcases update_eq_some.mp he with ⟨rfl, rfl⟩ | ⟨huid, he⟩
    · rcases hattended.registered hready with hreg | hreg
      · exact .inl hreg
      · exact .inr (.inl (List.mem_append_right _ (Option.mem_toList.mpr hreg)))
    · obtain ⟨hkey, hmem⟩ := h.keyed uid e he
      rcases h.registered uid e he hready with ⟨addr, haddr, hlatest⟩ | hsec | hout
      · refine .inl ⟨addr, haddr, ?_⟩
        rw [hattended.others, hlatest]
        exact toBackendId_ne hfleet (hkey ▸ hmem) hknown (hkey ▸ huid)
      · exact .inr (.inl (List.mem_append_left _ hsec))
      · exact absurd (List.mem_append_right _ hout) (hwriting.notMem_removed uid)
  · intro id hserves
    by_cases hid : id = ep.toBackendId
    · subst hid
      exact ⟨ep.uid, ep, Function.update_self .., hattended.served hserves, rfl⟩
    · obtain ⟨target, r, hlatest⟩ := hserves
      rw [hattended.others id hid] at hlatest
      obtain ⟨uid, e, he, hready, rfl⟩ := h.served id ⟨target, r, hlatest⟩
      refine ⟨uid, e, update_eq_some.mpr (.inr ⟨?_, he⟩), hready, rfl⟩
      rintro rfl
      exact hid (congrArg backendIdOf (h.keyed _ e he).1)

/-- A registration, or the lookup in front of it. -/
theorem attended_of_requests {new : List RegistryMessage} {waits : Option Suspended}
    (hready : ep.ready = true) (haddr : (socketAddress ep.address ep.port).isSome)
    (h : K8sDiscovery.Requests socketAddress ep new waits) :
    Attended socketAddress ep calls (calls ++ new) waits := by
  cases h with
  | invalid _ addr =>
    rw [addr] at haddr
    cases haddr
  | @registered addr _ parsed =>
    refine ⟨rfl, by simp, fun _ => .inl ⟨addr, parsed, ?_⟩, ?_, fun _ => hready, ?_⟩
    · rw [K8sService.latest_concat]
      exact if_pos rfl
    · intro id hid
      exact latest_concat_of_ne fun hne => hid hne.symm
    · intro id isAlive hmem
      simpa using hmem
  | secret _ =>
    refine ⟨rfl, ?_, fun _ => .inr rfl, fun _ _ => by rw [List.append_nil], fun _ => hready, ?_⟩
    · intro e he
      exact ⟨(Suspended.secret.inj (Option.some.inj he)).symm, hready⟩
    · intro id isAlive hmem
      rwa [List.append_nil] at hmem

/-- Nothing is called for an endpoint that is not ready and was not served. -/
theorem attended_of_idle (hready : ep.ready = false) (hserved : ¬Serves calls ep.toBackendId) :
    Attended socketAddress ep calls (calls ++ []) none := by
  rw [List.append_nil]
  refine ⟨rfl, by simp, ?_, fun _ _ => rfl, fun h => absurd h hserved, fun _ _ h => h⟩
  intro hr
  rw [hready] at hr
  cases hr

/-- An endpoint that turned not ready is drained. -/
theorem attended_of_drained (hready : ep.ready = false) (now : ℕ) :
    Attended socketAddress ep calls (calls ++ [.drain ep.toBackendId now]) (some .callback) := by
  refine ⟨rfl, by simp, ?_, ?_, ?_, ?_⟩
  · intro hr
    rw [hready] at hr
    cases hr
  · intro id hid
    exact latest_concat_of_ne fun hne => hid hne.symm
  · exact fun hserves => absurd hserves (not_serves_concat rfl (by simp))
  · intro id isAlive hmem
    simpa using hmem

/-- An endpoint whose record is not there, or not ready, is not served. -/
theorem Underway.not_serves (hfleet : Set.InjOn backendIdOf fleet)
    (h : Underway socketAddress fleet L get queue waiting calls) (hknown : ep.uid ∈ fleet)
    (hget : ∀ e, get ep.uid = some e → e.ready = false) : ¬Serves calls ep.toBackendId := by
  intro hserves
  obtain ⟨uid, e, he, hready, hid⟩ := h.served _ hserves
  obtain ⟨hkey, hmem⟩ := h.keyed uid e he
  have huid : e.uid = ep.uid := hfleet (hkey ▸ hmem) hknown hid
  rw [hkey] at huid
  subst huid
  rw [hget e he] at hready
  cases hready

/-- The next handler of a removing event finds nothing to remove. -/
theorem Underway.skip {uid : String}
    (h : Underway socketAddress fleet L get (.removed uid :: rest) waiting calls)
    (hget : get uid = none) : Underway socketAddress fleet L get rest waiting calls := by
  have hremoving := h.removing
  have hremoving' : Removing L rest waiting :=
    { queued := fun op hop => hremoving.queued op (List.mem_cons_of_mem _ hop)
      secrets := hremoving.secrets
      unlisted := fun u hu => hremoving.unlisted u (List.mem_cons_of_mem _ hu)
      once := (List.nodup_cons.mp hremoving.once).2 }
  refine { h with present := ?_, listed := ?_, kind := .inr hremoving' }
  · exact fun e he => .inl (hremoving.present (h.present e he))
  · intro u e he
    rcases hremoving.listed (h.listed u e he) with hlisted | hout
    · exact .inl hlisted
    · rcases List.mem_cons.mp hout with rfl | hout
      · rw [hget] at he
        cases he
      · exact .inr (.inr hout)

/-- The next handler of a removing event drains its endpoint and waits. -/
theorem Underway.remove (hfleet : Set.InjOn backendIdOf fleet) {uid : String}
    {it : FlatIterator String} {now : ℕ}
    (h : Underway socketAddress fleet L get (.removed uid :: rest) waiting calls)
    (hget : get uid = some ep) (hkey : it.key = uid) :
    Underway socketAddress fleet L get rest (waiting ++ [.drain it])
      (calls ++ [.drain ep.toBackendId now]) := by
  have hremoving := h.removing
  have hits : (iterators (waiting ++ [.drain it])).map FlatIterator.key =
      (iterators waiting).map FlatIterator.key ++ [uid] := by
    rw [iterators, List.filterMap_append, List.map_append, ← hkey]
    rfl
  -- the endpoint goes from the queue to those that wait
  have hperm : (rest.filterMap removes ++
        (iterators (waiting ++ [.drain it])).map FlatIterator.key).Perm
      ((EndpointOp.removed uid :: rest).filterMap removes ++
        (iterators waiting).map FlatIterator.key) := by
    rw [hits, ← List.append_assoc]
    exact List.perm_append_singleton uid _
  have hsecrets : ∀ e, .secret e ∉ waiting ++ [.drain it] := by
    intro e he
    rcases List.mem_append.mp he with he | he
    · exact hremoving.secrets e he
    · cases List.mem_singleton.mp he
  have hne : ∀ {u e}, get u = some e → u ≠ uid → ep.toBackendId ≠ e.toBackendId := by
    intro u e he hu
    obtain ⟨hkey', hmem'⟩ := h.keyed u e he
    obtain ⟨hkey, hmem⟩ := h.keyed uid ep hget
    refine toBackendId_ne hfleet (hkey ▸ hmem) (hkey' ▸ hmem') ?_
    rw [hkey, hkey']
    exact fun heq => hu heq.symm
  refine ⟨h.keyed, ?_, ?_, .inr ⟨?_, hsecrets, ?_, hperm.nodup_iff.mpr hremoving.once⟩, ?_, ?_, ?_,
    ?_, ?_⟩
  · exact fun e he => .inl (hremoving.present (h.present e he))
  · intro u e he
    rcases hremoving.listed (h.listed u e he) with hlisted | hout
    · exact .inl hlisted
    · exact .inr (.inr (hperm.mem_iff.mpr hout))
  · exact fun op hop => hremoving.queued op (List.mem_cons_of_mem _ hop)
  · exact fun u hu => hremoving.unlisted u (hperm.mem_iff.mp hu)
  · exact fun e he => absurd he (hsecrets e)
  · intro u e he hready
    by_cases hu : u = uid
    · refine .inr (.inr ?_)
      rw [hits, hu]
      exact List.mem_append_right _ List.mem_cons_self
    · rcases h.registered u e he hready with hreg | hsec | hout
      · exact .inl (hreg.concat (hne he hu))
      · exact absurd hsec (hremoving.secrets e)
      · refine .inr (.inr ?_)
        rw [hits]
        exact List.mem_append_left _ hout
  · intro id hserves
    exact h.served id (serves_of_concat (by simp) hserves).2
  · intro u hu e he hserves
    obtain ⟨hid, hserves⟩ := serves_of_concat (by simp) hserves
    rw [hits] at hu
    rcases List.mem_append.mp hu with hu | hu
    · exact h.leaving u hu e he hserves
    · obtain rfl := List.mem_singleton.mp hu
      rw [hget, Option.some.injEq] at he
      exact hid (by rw [← he]; rfl)
  · intro id isAlive hmem
    refine h.statuses id isAlive ?_
    simpa using hmem

/-- A handler that starts, as an event goes on. -/
theorem Underway.begin (hfleet : Set.InjOn backendIdOf fleet)
    (hL : WellListed socketAddress fleet L) {d : K8sDiscovery} {rehash : Bool} {now : ℕ}
    {op : EndpointOp} {p : Continuation}
    (h : Underway socketAddress fleet L d.endpoints.get (op :: rest) waiting calls)
    (hroom : Writing L d.endpoints.get (op :: rest) waiting → ∀ uid, d.endpoints.get uid = none →
      uid ∈ L.map K8sEndpoint.uid → d.endpoints.size < k8sMaxEndpoints)
    (hbegins : d.Begins socketAddress rehash now op p) :
    Underway socketAddress fleet L p.service.endpoints.get rest (waiting ++ p.waits.toList)
      (calls ++ p.calls) := by
  have hwrite : ∀ ep : K8sEndpoint, (d.write ep rehash).endpoints.get =
      Function.update d.endpoints.get ep.uid (some ep) := by
    intro ep
    funext uid
    rw [K8sDiscovery.write, FlatHashMap.get_set, Function.update_apply]
  have hlisted : ∀ ep, op.writes = some ep → ep ∈ L := fun ep hop => (h.writing hop).mem hop
  cases hbegins with
  | @rejected ep new full =>
    have hmem := List.mem_map_of_mem (f := K8sEndpoint.uid) (hlisted ep rfl)
    exact absurd (hroom (h.writing rfl) ep.uid new hmem) (Nat.not_lt.mpr full)
  | @added ep new waits ready requests =>
    rw [hwrite ep]
    exact h.write hfleet hL rfl
      (attended_of_requests ready (hL.known ep (hlisted ep rfl)).2 requests)
  | @addedIdle ep ready =>
    rw [hwrite ep]
    refine h.write hfleet hL rfl (attended_of_idle ready ?_)
    refine h.not_serves hfleet (hL.known ep (hlisted ep rfl)).1 fun e he => ?_
    rcases (h.writing rfl).fresh ep List.mem_cons_self with hnone | hsome
    · rw [hnone] at he
      cases he
    · rw [hsome, Option.some.injEq] at he
      exact he ▸ ready
  | @modified ep new waits ready requests =>
    rw [hwrite ep]
    exact h.write hfleet hL rfl
      (attended_of_requests ready (hL.known ep (hlisted ep rfl)).2 requests)
  | @drained ep ready wasReady =>
    rw [hwrite ep]
    exact h.write hfleet hL rfl (attended_of_drained ready now)
  | @modifiedIdle ep ready wasReady =>
    rw [hwrite ep]
    refine h.write hfleet hL rfl (attended_of_idle ready ?_)
    refine h.not_serves hfleet (hL.known ep (hlisted ep rfl)).1 fun e he => ?_
    rw [he, Option.any_some] at wasReady
    exact wasReady
  | absent untracked =>
    rw [Option.toList_none, List.append_nil, List.append_nil]
    exact h.skip untracked
  | removed tracked found => exact h.remove hfleet tracked (FlatHashMap.find_key found)

/-- Nothing but the order of the suspended handlers, and callbacks, differs. -/
theorem Underway.of_waiting {waiting' : List Suspended}
    (h : Underway socketAddress fleet L get queue waiting calls)
    (hsecrets : ∀ e, .secret e ∈ waiting' ↔ .secret e ∈ waiting)
    (hits : (iterators waiting').Perm (iterators waiting)) :
    Underway socketAddress fleet L get queue waiting' calls := by
  have hkeys := hits.map FlatIterator.key
  have hall : (queue.filterMap removes ++ (iterators waiting').map FlatIterator.key).Perm
      (queue.filterMap removes ++ (iterators waiting).map FlatIterator.key) :=
    List.Perm.append_left _ hkeys
  refine
    { h with
      listed := ?_, kind := ?_, lookups := fun e he => h.lookups e ((hsecrets e).mp he)
      registered := ?_, leaving := fun u hu => h.leaving u (hkeys.mem_iff.mp hu) }
  · intro u e he
    rcases h.listed u e he with hlisted | hop | hout
    · exact .inl hlisted
    · exact .inr (.inl hop)
    · exact .inr (.inr (hall.mem_iff.mpr hout))
  · rcases h.kind with hwriting | hremoving
    · refine .inl { hwriting with held := ?_ }
      rw [hwriting.held] at hits
      exact List.perm_nil.mp hits
    · exact .inr
        { queued := hremoving.queued
          secrets := fun e he => hremoving.secrets e ((hsecrets e).mp he)
          unlisted := fun u hu => hremoving.unlisted u (hall.mem_iff.mp hu)
          once := hall.nodup_iff.mpr hremoving.once }
  · intro u e he hready
    rcases h.registered u e he hready with hreg | hsec | hout
    · exact .inl hreg
    · exact .inr (.inl ((hsecrets e).mpr hsec))
    · exact .inr (.inr (hkeys.mem_iff.mpr hout))

/-- The secret of an endpoint is found and the endpoint registered. -/
theorem Underway.register (hfleet : Set.InjOn backendIdOf fleet)
    {addr : SocketAddress} {waiting' : List Suspended}
    (h : Underway socketAddress fleet L get queue waiting calls) (hlookup : .secret ep ∈ waiting)
    (haddr : socketAddress ep.address ep.port = some addr)
    (hsecrets : ∀ e, e ≠ ep → (.secret e ∈ waiting' ↔ .secret e ∈ waiting))
    (hsub : .secret ep ∈ waiting' → .secret ep ∈ waiting)
    (hits : iterators waiting' = iterators waiting) :
    Underway socketAddress fleet L get queue waiting'
      (calls ++ [.register ep.toBackendId (ep.registration addr)]) := by
  obtain ⟨hlisted, hready, htracked⟩ := h.lookups ep hlookup
  have hwriting : Writing L get queue waiting :=
    h.kind.resolve_right fun hremoving => hremoving.secrets ep hlookup
  have hnow : RegisteredAs socketAddress
      (calls ++ [.register ep.toBackendId (ep.registration addr)]) ep := by
    refine ⟨addr, haddr, ?_⟩
    rw [K8sService.latest_concat]
    exact if_pos rfl
  have hmem : ∀ {e}, .secret e ∈ waiting' → .secret e ∈ waiting := by
    intro e he
    by_cases hep : e = ep
    · subst hep
      exact hsub he
    · exact (hsecrets e hep).mp he
  refine ⟨h.keyed, h.present, ?_, .inl { hwriting with held := by rw [hits, hwriting.held] },
    fun e he => h.lookups e (hmem he), ?_, ?_, ?_, ?_⟩
  · rw [hits]
    exact h.listed
  · intro u e he hready'
    by_cases hid : ep.toBackendId = e.toBackendId
    · -- one backend, one endpoint
      obtain ⟨hkey, hu⟩ := h.keyed u e he
      have huid : ep.uid = e.uid := hfleet (h.keyed _ ep htracked).2 (hkey ▸ hu) hid
      rw [← hkey, ← huid, htracked, Option.some.injEq] at he
      exact .inl (he ▸ hnow)
    · rcases h.registered u e he hready' with hreg | hsec | hout
      · exact .inl (hreg.concat hid)
      · refine .inr (.inl ((hsecrets e ?_).mpr hsec))
        rintro rfl
        exact hid rfl
      · rw [hwriting.held] at hout
        cases hout
  · intro id hserves
    by_cases hid : ep.toBackendId = id
    · exact ⟨ep.uid, ep, htracked, hready, hid⟩
    · have hbefore : Serves calls id :=
        (serves_concat_of_ne (m := .register ep.toBackendId (ep.registration addr)) hid).mp hserves
      exact h.served id hbefore
  · rw [hits, hwriting.held]
    simp
  · intro id isAlive hmem
    refine h.statuses id isAlive ?_
    simpa using hmem

/-- The drain of a removed endpoint is over and its entry is erased. -/
theorem Underway.erase {it : FlatIterator String} {waiting' : List Suspended}
    (h : Underway socketAddress fleet L get queue waiting calls)
    (hsecrets : ∀ e, .secret e ∈ waiting' → .secret e ∈ waiting)
    (hits : (iterators waiting).Perm (it :: iterators waiting')) :
    Underway socketAddress fleet L (Function.update get it.key none) queue waiting' calls := by
  have hremoving : Removing L queue waiting := by
    refine h.kind.resolve_left fun hwriting => ?_
    have hmem : it ∈ iterators waiting := hits.mem_iff.mpr List.mem_cons_self
    rw [hwriting.held] at hmem
    cases hmem
  have hkeys := hits.map FlatIterator.key
  rw [List.map_cons] at hkeys
  have hall : (queue.filterMap removes ++ (iterators waiting).map FlatIterator.key).Perm
      (it.key :: (queue.filterMap removes ++ (iterators waiting').map FlatIterator.key)) :=
    (List.Perm.append_left _ hkeys).trans List.perm_middle
  have hout : it.key ∉ L.map K8sEndpoint.uid :=
    hremoving.unlisted _ (hall.mem_iff.mpr List.mem_cons_self)
  have honce := List.nodup_cons.mp (hall.nodup_iff.mp hremoving.once)
  have hgone : ∀ {u e}, Function.update get it.key none u = some e → u ≠ it.key ∧ get u = some e := by
    intro u e he
    by_cases hu : u = it.key
    · subst hu
      rw [Function.update_self] at he
      cases he
    · exact ⟨hu, by rwa [Function.update_of_ne hu] at he⟩
  refine ⟨fun u e he => h.keyed u e (hgone he).2, ?_, ?_,
    .inr ⟨hremoving.queued, fun e he => hremoving.secrets e (hsecrets e he), ?_, honce.2⟩,
    fun e he => absurd (hsecrets e he) (hremoving.secrets e), ?_, ?_, ?_, h.statuses⟩
  · intro e he
    have hne : e.uid ≠ it.key := fun heq => hout (heq ▸ List.mem_map_of_mem he)
    rw [Function.update_of_ne hne]
    exact h.present e he
  · intro u e he
    obtain ⟨hu, he⟩ := hgone he
    rcases h.listed u e he with hlisted | hop | hmem
    · exact .inl hlisted
    · exact .inr (.inl hop)
    · exact .inr (.inr ((List.mem_cons.mp (hall.mem_iff.mp hmem)).resolve_left hu))
  · exact fun u hu => hremoving.unlisted u (hall.mem_iff.mpr (List.mem_cons_of_mem _ hu))
  · intro u e he hready
    obtain ⟨hu, he⟩ := hgone he
    rcases h.registered u e he hready with hreg | hsec | hmem
    · exact .inl hreg
    · exact absurd hsec (hremoving.secrets e)
    · exact .inr (.inr ((List.mem_cons.mp (hkeys.mem_iff.mp hmem)).resolve_left hu))
  · intro id hserves
    obtain ⟨u, e, he, hready, rfl⟩ := h.served id hserves
    refine ⟨u, e, ?_, hready, rfl⟩
    rw [Function.update_of_ne]
    · exact he
    · rintro rfl
      exact h.leaving it.key (hkeys.mem_iff.mpr List.mem_cons_self) e he hserves
  · intro u hu e he
    exact h.leaving u (hkeys.mem_iff.mpr (List.mem_cons_of_mem _ hu)) e (hgone he).2

/-- A handler goes on, as an event does. -/
theorem Underway.resume (hfleet : Set.InjOn backendIdOf fleet)
    (hL : WellListed socketAddress fleet L) {d : K8sDiscovery} {i : ℕ} {secret : Option String}
    {wreck : FlatHashMap String K8sEndpoint} {t : Suspended} {p : Continuation}
    (h : Underway socketAddress fleet L d.endpoints.get queue waiting calls)
    (ht : waiting[i]? = some t) (hvalid : ∀ it ∈ iterators waiting, d.endpoints.Valid it)
    (hsecret : ∀ ep, t = .secret ep → secret.isSome)
    (hresumes : d.Resumes socketAddress wreck secret t p) :
    Underway socketAddress fleet L p.service.endpoints.get queue
      (waiting.eraseIdx i ++ p.waits.toList) (calls ++ p.calls) := by
  obtain ⟨hi, hti⟩ := List.getElem?_eq_some_iff.mp ht
  have hperm : waiting.Perm (t :: waiting.eraseIdx i) := by
    rw [← hti]
    exact (List.getElem_cons_eraseIdx_perm hi).symm
  have hmem : t ∈ waiting := List.mem_of_getElem? ht
  have hits := hperm.filterMap Suspended.iterator?
  cases hresumes with
  | @unresolved ep => exact absurd (hsecret ep rfl) (by simp)
  | @invalid ep key addr =>
    have haddr := (hL.known ep (h.lookups ep hmem).1).2
    rw [addr] at haddr
    cases haddr
  | @registered ep key addr parsed =>
    refine h.register hfleet hmem parsed ?_ (fun _ => hmem) ?_
    · intro e he
      rw [hperm.mem_iff, List.mem_append, List.mem_cons]
      constructor
      · rintro (hw | hw)
        · exact .inr hw
        · cases List.mem_singleton.mp hw
      · rintro (hw | hw)
        · exact absurd (Suspended.secret.inj hw) he
        · exact .inl hw
    · have hnone : iterators waiting = [] := by
        have hwriting := h.kind.resolve_right fun hremoving => hremoving.secrets ep hmem
        exact hwriting.held
      have hrest : iterators (waiting.eraseIdx i) = [] := by
        have hp : (iterators waiting).Perm (iterators (waiting.eraseIdx i)) := hits
        rw [hnone] at hp
        exact List.perm_nil.mp hp.symm
      rw [hnone, iterators, List.filterMap_append, List.append_eq_nil_iff]
      exact ⟨hrest, rfl⟩
  | callback =>
    rw [Option.toList_none, List.append_nil, List.append_nil]
    refine h.of_waiting (fun e => ?_) hits.symm
    rw [hperm.mem_iff, List.mem_cons]
    exact ⟨.inr, fun hw => hw.resolve_left (by simp)⟩
  | @erased _ it =>
    rw [Option.toList_none, List.append_nil, List.append_nil]
    have hget : (d.endpoints.eraseAt it wreck).get = Function.update d.endpoints.get it.key none := by
      funext uid
      rw [FlatHashMap.get_eraseAt (hvalid it (mem_iterators.mpr hmem)), Function.update_apply]
    show Underway socketAddress fleet L (d.endpoints.eraseAt it wreck).get _ _ _
    rw [hget]
    refine h.erase (fun e he => ?_) hits
    exact hperm.mem_iff.mpr (List.mem_cons_of_mem _ he)

/-- The reaper removes a backend whose drain has run out. -/
theorem Underway.reap {id target : BackendId} {now : ℕ}
    (h : Underway socketAddress fleet L get queue waiting calls)
    (hlatest : K8sService.latest calls id = some (.drain target now)) :
    Underway socketAddress fleet L get queue waiting (calls ++ [.unregister id]) := by
  refine
    { h with registered := ?_, served := ?_, leaving := ?_, statuses := ?_ }
  · intro u e he hready
    rcases h.registered u e he hready with hreg | hsec | hout
    · refine .inl (hreg.concat ?_)
      intro hid
      obtain ⟨addr, -, hreg⟩ := hreg
      rw [← show id = e.toBackendId from hid, hlatest] at hreg
      cases hreg
    · exact .inr (.inl hsec)
    · exact .inr (.inr hout)
  · intro id' hserves
    exact h.served id' (serves_of_concat (by simp) hserves).2
  · intro u hu e he hserves
    exact h.leaving u hu e he (serves_of_concat (by simp) hserves).2
  · intro id' isAlive hmem
    refine h.statuses id' isAlive ?_
    simpa using hmem

/-- Between events. -/
theorem Underway.settled (h : Underway socketAddress fleet L get [] [] calls) :
    (∀ uid ep, get uid = some ep ↔ ep ∈ L ∧ ep.uid = uid) ∧
      (∀ uid ep, get uid = some ep → ep.ready = true → RegisteredAs socketAddress calls ep) := by
  constructor
  · intro uid ep
    constructor
    · intro hget
      refine ⟨?_, (h.keyed uid ep hget).1⟩
      rcases h.listed uid ep hget with hlisted | ⟨_, hop, -⟩ | hout
      · exact hlisted
      · cases hop
      · cases hout
    · rintro ⟨hlisted, rfl⟩
      rcases h.present ep hlisted with hget | ⟨_, hop, -⟩
      · exact hget
      · cases hop
  · intro uid ep hget hready
    rcases h.registered uid ep hget hready with hreg | hsec | hout
    · exact hreg
    · cases hsec
    · cases hout

/-- An event with a new version of a slice begins. -/
theorem Underway.version {L' : List K8sEndpoint}
    (h : Underway socketAddress fleet L get [] [] calls) {discovered : List K8sEndpoint}
    (hL : WellListed socketAddress fleet L) (hsub : discovered ⊆ L')
    (hothers : ∀ ep ∈ L', ep ∈ discovered ∨ ep ∈ L)
    (hcovered : ∀ ep ∈ L, ep.uid ∈ L'.map K8sEndpoint.uid) :
    Underway socketAddress fleet L' get
      (discovered.map fun ep => if get ep.uid = none then .added ep else .modified ep) []
      calls := by
  have hwrites : ∀ ep : K8sEndpoint,
      (if get ep.uid = none then EndpointOp.added ep else .modified ep).writes = some ep := by
    intro ep
    split <;> rfl
  have hqueued : ∀ ep ∈ discovered, ∃ op ∈ discovered.map
      (fun ep => if get ep.uid = none then EndpointOp.added ep else .modified ep),
      op.writes = some ep := fun ep hep => ⟨_, List.mem_map_of_mem hep, hwrites ep⟩
  refine ⟨h.keyed, ?_, ?_, .inl ⟨?_, rfl, ?_⟩, by simp, ?_, h.served, by simp [iterators],
    h.statuses⟩
  · intro ep hep
    rcases hothers ep hep with hmem | hmem
    · exact .inr (hqueued ep hmem)
    · exact .inl ((h.settled.1 ep.uid ep).mpr ⟨hmem, rfl⟩)
  · intro uid ep hget
    obtain ⟨hlisted, rfl⟩ := (h.settled.1 uid ep).mp hget
    obtain ⟨ep', hep', huid⟩ := List.mem_map.mp (hcovered ep hlisted)
    rcases hothers ep' hep' with hmem | hmem
    · obtain ⟨op, hop, hw⟩ := hqueued ep' hmem
      exact .inr (.inl ⟨op, hop, ep', hw, huid⟩)
    · exact .inl (hL.unambiguous ep' hmem ep hlisted huid ▸ hep')
  · intro op hop
    obtain ⟨ep, hep, rfl⟩ := List.mem_map.mp hop
    exact ⟨ep, hsub hep, hwrites ep⟩
  · intro ep hop
    obtain ⟨ep', -, he⟩ := List.mem_map.mp hop
    split at he
    · next hnone =>
      obtain rfl := EndpointOp.added.inj he
      exact .inl hnone
    · cases he
  · exact fun uid ep hget hready => .inl (h.settled.2 uid ep hget hready)

/-- An event that deletes a slice begins. -/
theorem Underway.deletion {L' : List K8sEndpoint}
    (h : Underway socketAddress fleet L get [] [] calls) {discovered : List K8sEndpoint}
    (hsub : L' ⊆ L) (hothers : ∀ ep ∈ L, ep ∈ discovered ∨ ep ∈ L')
    (honce : (discovered.map K8sEndpoint.uid).Nodup)
    (hown : ∀ ep ∈ discovered, ep.uid ∉ L'.map K8sEndpoint.uid) :
    Underway socketAddress fleet L' get (discovered.map fun ep => .removed ep.uid) [] calls := by
  have hremoves : (discovered.map fun ep => EndpointOp.removed ep.uid).filterMap removes =
      discovered.map K8sEndpoint.uid := by
    rw [List.filterMap_map]
    exact congrFun List.filterMap_eq_map' discovered
  refine ⟨h.keyed, ?_, ?_, .inr ⟨?_, by simp, ?_, ?_⟩, by simp, ?_, h.served, by simp [iterators],
    h.statuses⟩
  · exact fun ep hep => .inl ((h.settled.1 ep.uid ep).mpr ⟨hsub hep, rfl⟩)
  · intro uid ep hget
    obtain ⟨hlisted, rfl⟩ := (h.settled.1 uid ep).mp hget
    rcases hothers ep hlisted with hmem | hmem
    · refine .inr (.inr (List.mem_append_left _ ?_))
      rw [hremoves]
      exact List.mem_map_of_mem hmem
    · exact .inl hmem
  · intro op hop
    obtain ⟨ep, -, rfl⟩ := List.mem_map.mp hop
    rfl
  · intro uid huid
    rw [hremoves] at huid
    rcases List.mem_append.mp huid with huid | huid
    · obtain ⟨ep, hep, rfl⟩ := List.mem_map.mp huid
      exact hown ep hep
    · cases huid
  · rw [hremoves]
    simpa [iterators] using honce
  · exact fun uid ep hget hready => .inl (h.settled.2 uid ep hget hready)

end SliceMirror

end Ranvier
