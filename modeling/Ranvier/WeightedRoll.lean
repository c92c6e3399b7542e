import Ranvier.Availability

/-!
# The weights of a random selection

`get_random_backend` rolls a number below the total weight of a group and walks the cumulative
weights up to it, so each backend of the group should own as many rolls as it has weight.

* `bestGroup` — the backends with a weight that no other one has a better priority than;
* `rollsFor_eq_weight` — how many rolls the walk gives to a backend;
* `fairRolls_iff` — the rolls are shared out by weight, but for a group whose priority is the
  one the source reads as "no live backends", and a total that saturates.
-/

namespace Ranvier

namespace ShardRouting

/-! ## The walk -/

/-- The weights of a group, summed up. -/
def weightSum (group : List (BackendId × BackendInfo)) : ℕ := (group.map fun e => e.2.weight).sum

theorem weightSum_cons (e : BackendId × BackendInfo) (group : List (BackendId × BackendInfo)) :
    weightSum (e :: group) = e.2.weight + weightSum group := by
  rw [weightSum, List.map_cons, List.sum_cons]
  rfl

/-- A roll below the sum ends at a member. -/
theorem pickByWeight_mem_of_lt {group : List (BackendId × BackendInfo)} {roll : ℕ}
    (h : roll < weightSum group) (cumulative : ℕ) (last : BackendId) :
    pickByWeight (cumulative + roll) cumulative last group ∈ group.map Prod.fst := by
  have hne : group ≠ [] := by
    rintro rfl
    exact absurd h (Nat.not_lt_zero roll)
  exact pickByWeight_mem_of_ne_nil _ _ _ hne

/-- The first backend owns the first rolls, the others share the rest. -/
theorem pickByWeight_cons (e : BackendId × BackendInfo) (group : List (BackendId × BackendInfo))
    (cumulative roll : ℕ) (last : BackendId) :
    pickByWeight (cumulative + roll) cumulative last (e :: group) =
      if roll < e.2.weight then e.1
      else pickByWeight (cumulative + roll) (cumulative + e.2.weight) e.1 group := by
  rw [pickByWeight]
  simp only [Nat.add_lt_add_iff_left]

/-- How many of the rolls below the sum select a backend. -/
def rollsFor (id : BackendId) (cumulative : ℕ) (last : BackendId)
    (group : List (BackendId × BackendInfo)) : ℕ :=
  (List.range (weightSum group)).countP fun roll =>
    pickByWeight (cumulative + roll) cumulative last group == id

theorem rollsFor_of_not_mem {id : BackendId} {group : List (BackendId × BackendInfo)}
    (h : id ∉ group.map Prod.fst) (cumulative : ℕ) (last : BackendId) :
    rollsFor id cumulative last group = 0 := by
  refine List.countP_eq_zero.mpr fun roll hroll hpick => h ?_
  rw [← beq_iff_eq.mp hpick]
  exact pickByWeight_mem_of_lt (List.mem_range.mp hroll) cumulative last

theorem rollsFor_cons (id : BackendId) (e : BackendId × BackendInfo)
    (group : List (BackendId × BackendInfo)) (cumulative : ℕ) (last : BackendId) :
    rollsFor id cumulative last (e :: group) =
      (if e.1 = id then e.2.weight else 0) +
        rollsFor id (cumulative + e.2.weight) e.1 group := by
  rw [rollsFor, weightSum_cons, List.range_add, List.countP_append, List.countP_map]
  congr 1
  · -- the first rolls
    have hfirst : ∀ roll ∈ List.range e.2.weight,
        pickByWeight (cumulative + roll) cumulative last (e :: group) = e.1 := by
      intro roll hroll
      rw [pickByWeight_cons, if_pos (List.mem_range.mp hroll)]
    split
    · next heq =>
      refine (List.countP_eq_length.mpr fun roll hroll => ?_).trans List.length_range
      rw [hfirst roll hroll]
      exact beq_iff_eq.mpr heq
    · next hne =>
      refine List.countP_eq_zero.mpr fun roll hroll hpick => hne ?_
      rw [← hfirst roll hroll]
      exact beq_iff_eq.mp hpick
  · refine List.countP_congr fun roll _ => ?_
    have hrest : ¬ e.2.weight + roll < e.2.weight := by omega
    rw [Function.comp_apply, pickByWeight_cons, if_neg hrest, Nat.add_assoc]

/-- Each backend of a group owns as many rolls as it has weight. -/
theorem rollsFor_eq_weight {group : List (BackendId × BackendInfo)}
    (hnodup : (group.map Prod.fst).Nodup) {e : BackendId × BackendInfo} (he : e ∈ group)
    (cumulative : ℕ) (last : BackendId) : rollsFor e.1 cumulative last group = e.2.weight := by
  induction group generalizing cumulative last with
  | nil => cases he
  | cons first group ih =>
    rw [List.map_cons, List.nodup_cons] at hnodup
    rw [rollsFor_cons]
    rcases List.mem_cons.mp he with rfl | he
    · rw [if_pos rfl, rollsFor_of_not_mem hnodup.1]
      rfl
    · have hne : first.1 ≠ e.1 := by
        intro heq
        exact hnodup.1 (heq ▸ List.mem_map_of_mem he)
      rw [if_neg hne, ih hnodup.2 he, Nat.zero_add]

/-! ## The total -/

theorem foldl_totalWeight {group : List (BackendId × BackendInfo)} {total : ℕ}
    (h : total + weightSum group ≤ kMaxTotalWeight) :
    group.foldl
      (fun total e =>
        if kMaxTotalWeight - e.2.weight < total then kMaxTotalWeight else total + e.2.weight)
      total = total + weightSum group := by
  induction group generalizing total with
  | nil => rfl
  | cons e group ih =>
    rw [weightSum_cons] at h ⊢
    rw [List.foldl_cons, if_neg (by omega), ih (by omega), Nat.add_assoc]

theorem foldl_totalWeight_le {group : List (BackendId × BackendInfo)} {total : ℕ}
    (htotal : total ≤ kMaxTotalWeight) (hgroup : ∀ e ∈ group, e.2.weight ≤ kMaxTotalWeight) :
    group.foldl
      (fun total e =>
        if kMaxTotalWeight - e.2.weight < total then kMaxTotalWeight else total + e.2.weight)
      total ≤ kMaxTotalWeight := by
  induction group generalizing total with
  | nil => exact htotal
  | cons e group ih =>
    have hrest : ∀ e' ∈ group, e'.2.weight ≤ kMaxTotalWeight := fun e' he' =>
      hgroup e' (List.mem_cons_of_mem _ he')
    have hfirst := hgroup e List.mem_cons_self
    rw [List.foldl_cons]
    split
    · exact ih le_rfl hrest
    · exact ih (by omega) hrest

/-- The total is the sum unless it saturates. -/
theorem totalWeight_eq_iff {group : List (BackendId × BackendInfo)}
    (h : ∀ e ∈ group, e.2.weight < 2 ^ 32) :
    totalWeight group = weightSum group ↔ weightSum group ≤ kMaxTotalWeight := by
  have hmax : 2 ^ 32 ≤ kMaxTotalWeight := by decide
  constructor
  · intro heq
    rw [← heq]
    exact foldl_totalWeight_le (Nat.zero_le _) fun e he => ((h e he).trans_le hmax).le
  · intro hle
    refine (foldl_totalWeight (by omega)).trans (Nat.zero_add _)

/-! ## The best group -/

section Best

variable (s : ShardRouting)

/-- The live backends that the role filter leaves and that have a weight. -/
def weighted : List (BackendId × BackendInfo) :=
  (roleFiltered s.getLiveBackendInfos).filter fun e => decide (0 < e.2.weight)

/-- Those of the best priority: no other one has a lower number. -/
def bestGroup : List (BackendId × BackendInfo) :=
  s.weighted.filter fun e => s.weighted.all fun other => decide (e.2.priority ≤ other.2.priority)

/-- The rolls are shared out by weight: there are as many as the group has weight, each selects
a backend of the group, and each backend is selected by as many as it has weight. -/
structure FairRolls : Prop where
  rolls : totalWeight s.priorityGroup = weightSum s.bestGroup
  inside : ∀ roll < weightSum s.bestGroup, ∃ e ∈ s.bestGroup, s.getRandomBackend roll = some e.1
  share : ∀ e ∈ s.bestGroup,
    ((List.range (weightSum s.bestGroup)).countP fun roll =>
      s.getRandomBackend roll == some e.1) = e.2.weight

variable {s}

theorem mem_weighted {e : BackendId × BackendInfo} :
    e ∈ s.weighted ↔ e ∈ roleFiltered s.getLiveBackendInfos ∧ 0 < e.2.weight := by
  rw [weighted, List.mem_filter, decide_eq_true_eq]

theorem mem_bestGroup {e : BackendId × BackendInfo} :
    e ∈ s.bestGroup ↔ e ∈ s.weighted ∧ ∀ other ∈ s.weighted, e.2.priority ≤ other.2.priority := by
  rw [bestGroup, List.mem_filter, List.all_eq_true]
  simp only [decide_eq_true_eq]

/-- The group the source takes is the best one, if its priority is below the sentinel. -/
theorem priorityGroup_eq_bestGroup {e : BackendId × BackendInfo} (he : e ∈ s.bestGroup)
    (hprio : e.2.priority < 2 ^ 32 - 1) : s.priorityGroup = s.bestGroup := by
  obtain ⟨-, hmin, hall⟩ := foldl_minPriority (roleFiltered s.getLiveBackendInfos) (2 ^ 32 - 1)
  rw [← minPriority] at hmin hall
  have hweighted := mem_weighted.mp (mem_bestGroup.mp he).1
  have hle := hall e hweighted.1 hweighted.2
  have hne : minPriority (roleFiltered s.getLiveBackendInfos) ≠ 2 ^ 32 - 1 := by omega
  obtain ⟨low, hlow, hlowWeight, hlowPrio⟩ := hmin.resolve_left hne
  rw [priorityGroup, bestGroup, weighted, List.filter_filter, if_neg hne]
  refine List.filter_congr fun x hx => ?_
  rw [Bool.eq_iff_iff]
  simp only [Bool.and_eq_true, beq_iff_eq, decide_eq_true_eq, List.all_eq_true, List.mem_filter,
    ne_eq]
  constructor
  · rintro ⟨hxPrio, hxWeight⟩
    refine ⟨fun other hother => ?_, Nat.pos_of_ne_zero hxWeight⟩
    rw [hxPrio]
    exact hall other hother.1 hother.2
  · rintro ⟨hbest, hxWeight⟩
    refine ⟨le_antisymm ?_ (hall x hx hxWeight), hxWeight.ne'⟩
    rw [← hlowPrio]
    exact hbest low ⟨hlow, hlowWeight⟩

/-- With the priority that is the sentinel, no group is found. -/
theorem priorityGroup_eq_nil {e : BackendId × BackendInfo} (he : e ∈ s.bestGroup)
    (hprio : ¬ e.2.priority < 2 ^ 32 - 1) : s.priorityGroup = [] := by
  by_contra hne
  obtain ⟨low, hlow, hweight, hlowPrio⟩ := priorityGroup_ne_nil_iff.mp hne
  have hle := (mem_bestGroup.mp he).2 low (mem_weighted.mpr ⟨hlow, hweight⟩)
  omega

theorem map_fst_filterMap_sublist (ids : List BackendId) :
    ((ids.filterMap fun id => (s.backends id).map fun info => (id, info)).map Prod.fst).Sublist
      ids := by
  induction ids with
  | nil => exact List.Sublist.refl _
  | cons id ids ih =>
    rw [List.filterMap_cons]
    cases s.backends id with
    | none => exact ih.cons id
    | some info => exact ih.cons_cons id

theorem bestGroup_nodup : (s.bestGroup.map Prod.fst).Nodup := by
  have hids : (s.getLiveBackendInfos.map Prod.fst).Sublist s.backendIds :=
    (map_fst_filterMap_sublist _).trans List.filter_sublist
  have hrole : (roleFiltered s.getLiveBackendInfos).Sublist s.getLiveBackendInfos := by
    rw [roleFiltered]
    split
    · exact List.Sublist.refl _
    · exact List.filter_sublist
  have hgroup : s.bestGroup.Sublist (roleFiltered s.getLiveBackendInfos) :=
    List.filter_sublist.trans List.filter_sublist
  exact s.backendIds_nodup.sublist (((hgroup.trans hrole).map Prod.fst).trans hids)

theorem weightSum_bestGroup_pos (h : s.bestGroup ≠ []) : 0 < weightSum s.bestGroup := by
  obtain ⟨e, he⟩ := List.exists_mem_of_ne_nil _ h
  refine List.sum_pos_iff_exists_pos_nat.mpr ⟨e.2.weight, List.mem_map_of_mem he, ?_⟩
  exact (mem_weighted.mp (mem_bestGroup.mp he).1).2

/-- A roll goes straight to the walk. -/
theorem getRandomBackend_eq (hgroup : s.priorityGroup = s.bestGroup)
    (htotal : totalWeight s.bestGroup = weightSum s.bestGroup) {roll : ℕ}
    (hroll : roll < weightSum s.bestGroup) :
    s.getRandomBackend roll = some (pickByWeight (0 + roll) 0 0 s.bestGroup) := by
  have hne : ¬ weightSum s.bestGroup = 0 := by omega
  rw [getRandomBackend, hgroup, htotal, if_neg hne, Nat.mod_eq_of_lt hroll, Nat.zero_add]

/-- **Random selection** shares out the rolls by weight exactly when the best priority is below
the largest `uint32_t` and the total weight does not saturate. -/
theorem fairRolls_iff (hne : s.bestGroup ≠ [])
    (hweights : ∀ e ∈ s.bestGroup, e.2.weight < 2 ^ 32) :
    s.FairRolls ↔ (∀ e ∈ s.bestGroup, e.2.priority < 2 ^ 32 - 1) ∧
      weightSum s.bestGroup ≤ kMaxTotalWeight := by
  obtain ⟨e, he⟩ := List.exists_mem_of_ne_nil _ hne
  constructor
  · intro hfair
    have hprio : ∀ e ∈ s.bestGroup, e.2.priority < 2 ^ 32 - 1 := by
      intro e he
      by_contra hsentinel
      have hrolls := hfair.rolls
      rw [priorityGroup_eq_nil he hsentinel] at hrolls
      exact (weightSum_bestGroup_pos hne).ne hrolls
    refine ⟨hprio, (totalWeight_eq_iff hweights).mp ?_⟩
    rw [← hfair.rolls, priorityGroup_eq_bestGroup he (hprio e he)]
  · rintro ⟨hprio, hmax⟩
    have hgroup := priorityGroup_eq_bestGroup he (hprio e he)
    have htotal := (totalWeight_eq_iff hweights).mpr hmax
    refine ⟨by rw [hgroup, htotal], fun roll hroll => ?_, fun e he => ?_⟩
    · obtain ⟨picked, hpicked, hid⟩ := List.mem_map.mp (pickByWeight_mem_of_lt hroll 0 0)
      exact ⟨picked, hpicked, by rw [getRandomBackend_eq hgroup htotal hroll, hid]⟩
    · rw [← rollsFor_eq_weight bestGroup_nodup he 0 0]
      refine List.countP_congr fun roll hroll => ?_
      rw [getRandomBackend_eq hgroup htotal (List.mem_range.mp hroll), Option.some_beq_some]

end Best

/-- Three backends, the last of a worse priority. -/
def threeWeights : ShardRouting :=
  fleet [(1, { addr := 101, weight := 2 }), (2, { addr := 102, weight := 3 }),
    (3, { addr := 103, priority := 1 })] (by decide)
    { blockAlignment := defaultPrefixConfig.blockAlignment }

theorem fairRolls_iff_threeWeights :
    threeWeights.bestGroup.map Prod.fst = [1, 2] ∧ threeWeights.FairRolls := by
  have hne : threeWeights.bestGroup ≠ [] := by decide +kernel
  have hweights : ∀ e ∈ threeWeights.bestGroup, e.2.weight < 2 ^ 32 := by decide +kernel
  exact ⟨by decide +kernel, (fairRolls_iff hne hweights).mpr (by decide +kernel)⟩

/-- One backend, of the priority that stands for "none". -/
def lastPriority : ShardRouting :=
  fleet [(1, { addr := 101, priority := 2 ^ 32 - 1 })] (by decide)
    { blockAlignment := defaultPrefixConfig.blockAlignment }

/-- It is the best group, and no roll selects it. -/
theorem lastPriority_never_rolled :
    lastPriority.bestGroup.map Prod.fst = [1] ∧ weightSum lastPriority.bestGroup = 100 ∧
      (∀ roll, lastPriority.getRandomBackend roll = none) ∧ ¬ lastPriority.FairRolls := by
  have hnone : ∀ roll, lastPriority.getRandomBackend roll = none := by
    intro roll
    have hnil : lastPriority.priorityGroup = [] := by decide +kernel
    rw [getRandomBackend, hnil]
    rfl
  refine ⟨by decide +kernel, by decide +kernel, hnone, fun hfair => ?_⟩
  obtain ⟨e, -, he⟩ := hfair.inside 0 (by decide +kernel)
  rw [hnone] at he
  cases he

end ShardRouting

end Ranvier
