import Mathlib.Data.List.Perm.Basic
import Ranvier.Discovery

/-!
# Iterators held across a drain

A removal holds its iterator while the drain is under way. The iterator is good
when it is used if meanwhile no insertion rehashed the map and no other removal
erased the entry; a run that keeps to this (`Careful`) never erases through a bad
iterator.
-/

namespace Ranvier

/-- The endpoint a handler writes. -/
def EndpointOp.writes : EndpointOp → Option K8sEndpoint
  | .added ep => some ep
  | .modified ep => some ep
  | .removed _ => none

/-- The iterator a suspended handler holds. -/
def Suspended.iterator? : Suspended → Option (FlatIterator String)
  | .drain it => some it
  | _ => none

/-- The iterators a list of suspended handlers holds. -/
def iterators (waiting : List Suspended) : List (FlatIterator String) :=
  waiting.filterMap Suspended.iterator?

theorem mem_iterators {waiting : List Suspended} {it : FlatIterator String} :
    it ∈ iterators waiting ↔ .drain it ∈ waiting := by
  rw [iterators, List.mem_filterMap]
  constructor
  · rintro ⟨t, ht, hit⟩
    cases t with
    | drain it' =>
      obtain rfl := Option.some.inj hit
      exact ht
    | secret _ | callback => cases hit
  · exact fun h => ⟨_, h, rfl⟩

namespace K8sService

variable {socketAddress : String → ℕ → Option SocketAddress} {targetPort : ℕ}
  {s s' : K8sService}

/-- The iterators of all removals whose drain is under way. -/
def held (s : K8sService) : List (FlatIterator String) :=
  iterators s.resync.waiting ++ iterators s.watch.waiting

/-- What the other writer's handlers wait for. -/
def others (s : K8sService) : Writer → List Suspended
  | .resync => s.watch.waiting
  | .watch => s.resync.waiting

theorem held_perm (s : K8sService) (w : Writer) :
    s.held.Perm (iterators (s.batch w).waiting ++ iterators (s.others w)) := by
  cases w with
  | resync => exact .refl _
  | watch => exact List.perm_append_comm

theorem held_advance_perm (s : K8sService) (w : Writer) (queue : List EndpointOp)
    (waiting : List Suspended) (p : Continuation) :
    (s.advance w queue waiting p).held.Perm
      (iterators p.waits.toList ++ (iterators waiting ++ iterators (s.others w))) := by
  have hsplit : (s.advance w queue waiting p).held.Perm
      (iterators (waiting ++ p.waits.toList) ++ iterators (s.others w)) := by
    cases w with
    | resync => exact .refl _
    | watch => exact List.perm_append_comm
  refine hsplit.trans ?_
  rw [iterators, List.filterMap_append, List.append_assoc]
  exact List.perm_append_comm_assoc _ _ _

theorem batch_advance {w w' : Writer} {queue : List EndpointOp} {waiting : List Suspended}
    {p : Continuation} :
    ((s.advance w queue waiting p).batch w') =
      if w' = w then ⟨queue, waiting ++ p.waits.toList⟩ else s.batch w' := by
  cases w <;> cases w' <;> rfl

theorem writes_of_mem_operations {discovered : List K8sEndpoint} {op : EndpointOp}
    (h : op ∈ s.operations discovered) : op.writes ≠ none := by
  obtain ⟨ep, -, rfl⟩ := List.mem_map.mp h
  split <;> exact Option.some_ne_none ep

/-- A removal starts only while no other removal of its endpoint is under way, and
an insertion rehashes only while no removal is. -/
def Careful (s : K8sService) : K8sAction → Prop
  | .start w rehash _ =>
    match (s.batch w).queue with
    | .removed uid :: _ => ∀ it ∈ s.held, it.key ≠ uid
    | .added ep :: _ => rehash = true → s.tracked ep.uid = none → s.held = []
    | .modified ep :: _ => rehash = true → s.tracked ep.uid = none → s.held = []
    | [] => True
  | _ => True

instance (s : K8sService) (a : K8sAction) : Decidable (s.Careful a) := by
  unfold Careful
  split
  · split <;> infer_instance
  · infer_instance

theorem careful_start {w : Writer} {rehash : Bool} {now : ℕ}
    (hremoved : ∀ uid queue, (s.batch w).queue = .removed uid :: queue →
      ∀ it ∈ s.held, it.key ≠ uid)
    (hwrites : ∀ op queue, (s.batch w).queue = op :: queue → op.writes ≠ none → s.held = []) :
    s.Careful (.start w rehash now) := by
  rw [Careful]
  split
  · next uid queue hqueue => exact hremoved uid queue hqueue
  · next ep queue hqueue => exact fun _ _ => hwrites _ queue hqueue (Option.some_ne_none ep)
  · next ep queue hqueue => exact fun _ _ => hwrites _ queue hqueue (Option.some_ne_none ep)
  · trivial

/-- The held iterators are good and belong to different entries. -/
structure Steady (s : K8sService) : Prop where
  valid : ∀ it ∈ s.held, s.service.endpoints.Valid it
  distinct : (s.held.map FlatIterator.key).Nodup

theorem Steady.of_perm {l : List (FlatIterator String)} (hperm : s.held.Perm l)
    (hvalid : ∀ it ∈ l, s.service.endpoints.Valid it)
    (hdistinct : (l.map FlatIterator.key).Nodup) : s.Steady where
  valid it hit := hvalid it (hperm.mem_iff.mp hit)
  distinct := (hperm.map _).nodup_iff.mpr hdistinct

theorem Steady.same (h : s.Steady) (hheld : s'.held = s.held) (hservice : s'.service = s.service) :
    s'.Steady :=
  .of_perm (.of_eq hheld) (hservice ▸ h.valid) h.distinct

/-- A handler that leaves the held iterators good, and holds none itself. -/
theorem Steady.advance {w : Writer} {queue : List EndpointOp} {p : Continuation} (h : s.Steady)
    (hnone : iterators p.waits.toList = [])
    (hvalid : ∀ it ∈ s.held, p.service.endpoints.Valid it) :
    (s.advance w queue (s.batch w).waiting p).Steady := by
  have hperm : (s.advance w queue (s.batch w).waiting p).held.Perm s.held := by
    refine (s.held_advance_perm w queue _ p).trans ?_
    rw [hnone, List.nil_append]
    exact (s.held_perm w).symm
  exact .of_perm hperm hvalid h.distinct

theorem iterators_of_requests {ep : K8sEndpoint} {calls : List RegistryMessage}
    {waits : Option Suspended} (h : K8sDiscovery.Requests socketAddress ep calls waits) :
    iterators waits.toList = [] := by
  cases h <;> rfl

theorem iterators_of_writes {d : K8sDiscovery} {rehash : Bool} {now : ℕ} {op : EndpointOp}
    {p : Continuation} (h : d.Begins socketAddress rehash now op p) (hop : op.writes ≠ none) :
    iterators p.waits.toList = [] := by
  cases h with
  | added _ requests | modified _ requests => exact iterators_of_requests requests
  | rejected _ _ | addedIdle _ | drained _ _ | modifiedIdle _ _ | absent _ => rfl
  | removed _ _ => exact absurd rfl hop

/-- Writing an endpoint leaves the held iterators good. -/
theorem valid_write {ep : K8sEndpoint} {rehash : Bool} (h : s.Steady)
    (hcareful : rehash = true → s.tracked ep.uid = none → s.held = []) :
    ∀ it ∈ s.held, (s.service.write ep rehash).endpoints.Valid it := by
  intro it hit
  refine (h.valid it hit).set ?_
  by_contra hmoves
  rw [not_or] at hmoves
  have hnone : s.tracked ep.uid = none := Option.not_isSome_iff_eq_none.mp hmoves.2
  rw [hcareful (by simpa using hmoves.1) hnone] at hit
  cases hit

theorem Steady.start {w : Writer} {rehash : Bool} {now : ℕ} (h : s.Steady)
    (hcareful : s.Careful (.start w rehash now))
    (hstep : s.step socketAddress targetPort (.start w rehash now) = some s') : s'.Steady := by
  obtain ⟨op, queue, hqueue, rfl⟩ := step_start hstep
  have hbegins := s.service.begin_begins socketAddress rehash now op
  simp only [Careful, hqueue] at hcareful
  generalize s.service.begin socketAddress rehash now op = p at hbegins ⊢
  cases hbegins with
  | rejected _ _ | absent _ => exact h.advance rfl h.valid
  | added _ requests | modified _ requests =>
    exact h.advance (iterators_of_requests requests) (valid_write h hcareful)
  | addedIdle _ | drained _ _ | modifiedIdle _ _ => exact h.advance rfl (valid_write h hcareful)
  | @removed uid ep it owners tracked found =>
    have hperm := (s.held_advance_perm w queue (s.batch w).waiting
      ⟨{ s.service with backendIdToUid := owners }, [.drain ep.toBackendId now],
        some (.drain it)⟩).trans (List.Perm.append_left [it] (s.held_perm w).symm)
    refine .of_perm hperm ?_ ?_
    · intro it' hit'
      rcases List.mem_cons.mp hit' with rfl | hit'
      · exact FlatHashMap.valid_of_find found
      · exact h.valid it' hit'
    · rw [List.singleton_append, List.map_cons, List.nodup_cons]
      refine ⟨?_, h.distinct⟩
      rw [FlatHashMap.find_key found]
      rintro hmem
      obtain ⟨it', hit', hkey⟩ := List.mem_map.mp hmem
      exact hcareful it' hit' hkey

/-- The handler that resumes is one of those that wait. -/
theorem held_perm_eraseIdx {w : Writer} {i : ℕ} {t : Suspended}
    (ht : (s.batch w).waiting[i]? = some t) :
    s.held.Perm (t.iterator?.toList ++
      (iterators ((s.batch w).waiting.eraseIdx i) ++ iterators (s.others w))) := by
  obtain ⟨hi, rfl⟩ := List.getElem?_eq_some_iff.mp ht
  have hwaiting := (List.getElem_cons_eraseIdx_perm hi).symm.filterMap Suspended.iterator?
  refine (s.held_perm w).trans ((hwaiting.append_right _).trans ?_)
  rw [List.filterMap_cons]
  cases (s.batch w).waiting[i].iterator? <;> exact .refl _

theorem Steady.resume {w : Writer} {i : ℕ} {secret : Option String}
    {wreck : FlatHashMap String K8sEndpoint} (h : s.Steady)
    (hstep : s.step socketAddress targetPort (.resume w i secret wreck) = some s') : s'.Steady := by
  obtain ⟨t, ht, rfl⟩ := step_resume hstep
  have hresumes := s.service.resume_resumes socketAddress secret wreck t
  have hheld := held_perm_eraseIdx ht
  generalize s.service.resume socketAddress secret wreck t = p at hresumes ⊢
  have hperm := s.held_advance_perm w (s.batch w).queue ((s.batch w).waiting.eraseIdx i) p
  cases hresumes with
  | unresolved | invalid _ | registered _ | callback =>
    exact .of_perm (hperm.trans hheld.symm) h.valid h.distinct
  | @erased _ it =>
    have hdistinct := (hheld.map FlatIterator.key).nodup_iff.mp h.distinct
    rw [show (Suspended.drain it).iterator?.toList = [it] from rfl, List.singleton_append,
      List.map_cons, List.nodup_cons] at hdistinct
    refine .of_perm hperm ?_ hdistinct.2
    intro it' hit'
    have hmem : it' ∈ s.held := hheld.mem_iff.mpr (List.mem_cons_of_mem _ hit')
    have hit : it ∈ s.held := hheld.mem_iff.mpr List.mem_cons_self
    refine (h.valid it' hmem).eraseAt (h.valid it hit) ?_ wreck
    intro hkey
    exact hdistinct.1 (hkey ▸ List.mem_map_of_mem hit')

/-- **Held iterators.** A careful step keeps the held iterators good. -/
theorem Steady.step {a : K8sAction} (h : s.Steady) (hcareful : s.Careful a)
    (hstep : s.step socketAddress targetPort a = some s') : s'.Steady := by
  cases a with
  | takeList discovered =>
    obtain ⟨_, rfl⟩ := step_takeList hstep
    exact h.same rfl rfl
  | sync =>
    obtain ⟨_, _, hfinished, rfl⟩ := step_sync hstep
    exact h.same (by rw [held, held, hfinished.2]) rfl
  | scan uids =>
    obtain ⟨_, _, hfinished, _, rfl⟩ := step_scan hstep
    exact h.same (by rw [held, held, hfinished.2]) rfl
  | finish =>
    obtain ⟨_, rfl⟩ := step_finish hstep
    exact h.same rfl rfl
  | event e =>
    obtain ⟨hfinished, rfl⟩ := step_event hstep
    exact h.same (by rw [held, held, hfinished.2]) rfl
  | start w rehash now => exact h.start hcareful hstep
  | resume w i secret wreck => exact h.resume hstep
  | reap id =>
    obtain ⟨_, rfl⟩ := step_reap hstep
    exact h.same rfl rfl

end K8sService

end Ranvier
