import Ranvier.Availability

/-!
# Bounded load

`bounded_load_select` keeps the primary bucket below the cap and otherwise looks for the
least loaded backend, and `compute_load_allowance` charges the primary of the scorer for its
load. Both compute the cap, in two places.

* `selectKey` — what the scan orders by: load, then probe rank;
* `boundedLoadSelect_contract` — which backend is selected, and when the hinge opens.
-/

namespace Ranvier

namespace ShardRouting

section Select

variable (s : ShardRouting) (now : ℕ) (prefixHash : UInt64) (ids : List BackendId) (cost : ℚ)

/-- The loads of the candidates. -/
def candidateLoads : List ℕ := ids.map fun id => s.getCapacityAdjustedLoad now id cost

/-- The index of the primary backend. -/
def primaryIndex : ℕ := jumpConsistentHash prefixHash ids.length

/-- The load of the candidate at an index. -/
def loadAt (i : ℕ) : ℕ := (s.candidateLoads now ids cost).getD i 0

/-- What the divert scan orders by, the best first. -/
def selectKey (i : ℕ) : ℕ ×ₗ ℕ :=
  toLex (s.loadAt now ids cost i, probeRank prefixHash ids.length i)

/-- The index the divert scan ends at. -/
def divertIndex : ℕ :=
  scanBest (fun i best =>
    i ≠ best && (s.loadAt now ids cost i < s.loadAt now ids cost best ||
      s.loadAt now ids cost i == s.loadAt now ids cost best &&
        probeRank prefixHash ids.length i < probeRank prefixHash ids.length best))
    (primaryIndex prefixHash ids) (List.range ids.length)

variable {s now prefixHash ids cost}

theorem loadAt_eq {i : ℕ} (hi : i < ids.length) :
    s.loadAt now ids cost i = s.getCapacityAdjustedLoad now (ids.getD i 0) cost := by
  rw [loadAt, candidateLoads, List.getD_eq_getElem?_getD, List.getD_eq_getElem?_getD,
    List.getElem?_map, List.getElem?_eq_getElem hi]
  rfl

theorem primaryIndex_lt (h : ids ≠ []) : primaryIndex prefixHash ids < ids.length :=
  jumpConsistentHash_lt prefixHash (List.length_pos_of_ne_nil h)

/-- The first probe goes to the primary. -/
theorem probeRank_primary (h : ids ≠ []) :
    probeRank prefixHash ids.length (primaryIndex prefixHash ids) = 0 := by
  obtain ⟨n, hn⟩ := Nat.exists_eq_add_of_le' (List.length_pos_of_ne_nil h)
  have hzero : prefixHash + UInt64.ofNat 0 = prefixHash := UInt64.add_zero prefixHash
  rw [probeRank, primaryIndex, hn, List.range_succ_eq_map, List.find?_cons, hzero]
  simp

theorem wins_iff (i best : ℕ) :
    (i ≠ best && (s.loadAt now ids cost i < s.loadAt now ids cost best ||
      s.loadAt now ids cost i == s.loadAt now ids cost best &&
        probeRank prefixHash ids.length i < probeRank prefixHash ids.length best)) = true ↔
      s.selectKey now prefixHash ids cost i < s.selectKey now prefixHash ids cost best := by
  rw [selectKey, selectKey, Prod.Lex.toLex_lt_toLex]
  simp only [Bool.and_eq_true, Bool.or_eq_true, decide_eq_true_eq, beq_iff_eq, ne_eq]
  constructor
  · exact And.right
  · intro hlt
    refine ⟨?_, hlt⟩
    rintro rfl
    simp at hlt

theorem divertIndex_lt (h : ids ≠ []) : s.divertIndex now prefixHash ids cost < ids.length :=
  scanBest_lt _ (primaryIndex_lt h) fun _ hi => List.mem_range.mp hi

theorem selectKey_divert_le {i : ℕ} (hi : i < ids.length) :
    s.selectKey now prefixHash ids cost (s.divertIndex now prefixHash ids cost) ≤
      s.selectKey now prefixHash ids cost i :=
  scanBest_key_le _ (s.selectKey now prefixHash ids cost) wins_iff _ _ i
    (List.mem_cons_of_mem _ (List.mem_range.mpr hi))

/-- Unless the scan stays at the primary, the index it ends at has a smaller key than the
primary and than all positions before it. -/
theorem selectKey_divert_first (h : ids ≠ []) :
    s.divertIndex now prefixHash ids cost = primaryIndex prefixHash ids ∨
      (s.selectKey now prefixHash ids cost (s.divertIndex now prefixHash ids cost) <
          s.selectKey now prefixHash ids cost (primaryIndex prefixHash ids) ∧
        ∀ i < s.divertIndex now prefixHash ids cost,
          s.selectKey now prefixHash ids cost (s.divertIndex now prefixHash ids cost) <
            s.selectKey now prefixHash ids cost i) := by
  rcases scanBest_first _ (s.selectKey now prefixHash ids cost) wins_iff
    (primaryIndex prefixHash ids) (List.range ids.length) with hstay | ⟨pre, post, hsplit, hless⟩
  · exact Or.inl hstay
  · refine Or.inr ⟨hless _ List.mem_cons_self, fun i hi => hless i (List.mem_cons_of_mem _ ?_)⟩
    -- the positions are scanned in their order
    have hmem : i ∈ List.range ids.length :=
      List.mem_range.mpr (hi.trans (divertIndex_lt h))
    have hlater : ∀ j ∈ post, s.divertIndex now prefixHash ids cost < j := by
      intro j hj
      have hsorted := @List.pairwise_lt_range ids.length
      rw [hsplit] at hsorted
      exact (List.pairwise_cons.mp (List.pairwise_append.mp hsorted).2.1).1 j hj
    rw [hsplit] at hmem
    rcases List.mem_append.mp hmem with hpre | hrest
    · exact hpre
    · rcases List.mem_cons.mp hrest with rfl | hpost
      · exact absurd hi (lt_irrefl _)
      · exact absurd (hlater i hpost) hi.not_gt

theorem boundedLoadSelect_eq (epsilon : ℚ) (hlen : 2 ≤ ids.length)
    (haware : s.config.loadAwareRouting = true) :
    s.boundedLoadSelect now prefixHash ids epsilon cost =
      if s.loadAt now ids cost (primaryIndex prefixHash ids) <
          loadCap (s.candidateLoads now ids cost) epsilon then
        ids.getD (primaryIndex prefixHash ids) 0
      else ids.getD (s.divertIndex now prefixHash ids cost) 0 := by
  match ids, hlen with
  | a :: b :: rest, _ =>
    simp only [boundedLoadSelect, haware, divertIndex, loadAt, candidateLoads, primaryIndex,
      Bool.not_true, Bool.false_eq_true, if_false]
    rfl

/-- The scan leaves the primary when another backend carries less. -/
theorem loadAt_divert_lt {i : ℕ} (hi : i < ids.length)
    (hless : s.loadAt now ids cost i < s.loadAt now ids cost (primaryIndex prefixHash ids)) :
    s.loadAt now ids cost (s.divertIndex now prefixHash ids cost) <
      s.loadAt now ids cost (primaryIndex prefixHash ids) := by
  have hle : s.selectKey now prefixHash ids cost (s.divertIndex now prefixHash ids cost) ≤
      s.selectKey now prefixHash ids cost i := selectKey_divert_le hi
  rw [selectKey, selectKey, Prod.Lex.toLex_le_toLex] at hle
  rcases hle with hlt | ⟨heq, -⟩
  · exact hlt.trans hless
  · exact heq.trans_lt hless

theorem divertIndex_eq_primary (h : ids ≠ [])
    (hall : ∀ i < ids.length, s.loadAt now ids cost (primaryIndex prefixHash ids) ≤
      s.loadAt now ids cost i) :
    s.divertIndex now prefixHash ids cost = primaryIndex prefixHash ids := by
  rcases selectKey_divert_first h with heq | ⟨hlt, -⟩
  · exact heq
  · rw [selectKey, selectKey, Prod.Lex.toLex_lt_toLex, probeRank_primary h] at hlt
    rcases hlt with hlt | ⟨-, hlt⟩
    · exact absurd (hall _ (divertIndex_lt h)) hlt.not_ge
    · exact absurd hlt (Nat.not_lt_zero _)

variable (s now prefixHash ids cost) in
/-- The primary is below the cap, or nothing is colder. -/
def PrimaryStays (epsilon : ℚ) : Prop :=
  s.loadAt now ids cost (primaryIndex prefixHash ids) <
      loadCap (s.candidateLoads now ids cost) epsilon ∨
    ∀ i < ids.length,
      s.loadAt now ids cost (primaryIndex prefixHash ids) ≤ s.loadAt now ids cost i

theorem boundedLoadSelect_eq_primary_iff (epsilon : ℚ) (hlen : 2 ≤ ids.length)
    (haware : s.config.loadAwareRouting = true) :
    s.boundedLoadSelect now prefixHash ids epsilon cost =
        ids.getD (primaryIndex prefixHash ids) 0 ↔
      s.PrimaryStays now prefixHash ids cost epsilon := by
  have h : ids ≠ [] := List.ne_nil_of_length_pos (by omega)
  rw [boundedLoadSelect_eq epsilon hlen haware]
  split
  · next hcap => exact iff_of_true rfl (Or.inl hcap)
  · next hcap =>
    constructor
    · intro hsame
      refine Or.inr fun i hi => not_lt.mp fun hless => ?_
      -- one backend has one load
      have hlt := loadAt_divert_lt hi hless
      rw [loadAt_eq (divertIndex_lt h), loadAt_eq (primaryIndex_lt h), hsame] at hlt
      exact lt_irrefl _ hlt
    · rintro (hlt | hall)
      · exact absurd hlt hcap
      · rw [divertIndex_eq_primary h hall]

/-- No candidate comes before the one the scan moves to. -/
theorem divertIndex_least (h : ids ≠ [])
    (hmove : s.divertIndex now prefixHash ids cost ≠ primaryIndex prefixHash ids)
    {j : ℕ} (hj : j < ids.length) :
    let best := s.divertIndex now prefixHash ids cost
    s.loadAt now ids cost best < s.loadAt now ids cost j ∨
      s.loadAt now ids cost best = s.loadAt now ids cost j ∧
        (probeRank prefixHash ids.length best < probeRank prefixHash ids.length j ∨
          probeRank prefixHash ids.length best = probeRank prefixHash ids.length j ∧
            best ≤ j) := by
  intro best
  obtain ⟨-, hfirst⟩ := (selectKey_divert_first h).resolve_left hmove
  rcases (selectKey_divert_le hj).lt_or_eq with hlt | heq
  · rw [selectKey, selectKey, Prod.Lex.toLex_lt_toLex] at hlt
    rcases hlt with hload | ⟨hload, hrank⟩
    · exact Or.inl hload
    · exact Or.inr ⟨hload, Or.inl hrank⟩
  · have hle : best ≤ j := not_lt.mp fun hlt => (hfirst j hlt).ne heq
    rw [selectKey, selectKey, toLex_inj, Prod.mk.injEq] at heq
    exact Or.inr ⟨heq.1, Or.inr ⟨heq.2, hle⟩⟩

/-- The allowance is one below the cap. -/
theorem loadHinge_pos_iff (h : ids ≠ []) (load : ℕ) :
    0 < loadHinge load
        (s.computeLoadAllowance .BOUNDED_LOAD (s.candidateLoads now ids cost)) ↔
      loadCap (s.candidateLoads now ids cost) s.config.boundedLoadEpsilon ≤ load := by
  have hloads : s.candidateLoads now ids cost ≠ [] := by
    rwa [candidateLoads, ne_eq, List.map_eq_nil_iff]
  rw [computeLoadAllowance, if_neg hloads]
  rw [loadHinge]
  have hsub :
      (loadCap (s.candidateLoads now ids cost) s.config.boundedLoadEpsilon : ℚ) - 1 < load ↔
        loadCap (s.candidateLoads now ids cost) s.config.boundedLoadEpsilon ≤ load := by
    rw [sub_lt_iff_lt_add, ← Nat.cast_one, ← Nat.cast_add, Nat.cast_lt, Nat.lt_succ_iff]
  rw [← hsub]
  split
  · next hopen => exact iff_of_true (sub_pos.mpr hopen) hopen
  · next hclosed => exact iff_of_false (lt_irrefl _) hclosed

/-- Bounded load keeps the primary below the cap and in a cluster where nothing is colder, and
otherwise takes the least loaded backend, ties in probe order and then in list order; the
hinge of the scorer opens at the same cap. -/
theorem boundedLoadSelect_contract (epsilon : ℚ) (hlen : 2 ≤ ids.length)
    (haware : s.config.loadAwareRouting = true) :
    (s.boundedLoadSelect now prefixHash ids epsilon cost =
        ids.getD (primaryIndex prefixHash ids) 0 ↔
      s.PrimaryStays now prefixHash ids cost epsilon) ∧
      (¬ s.PrimaryStays now prefixHash ids cost epsilon → ∃ best < ids.length,
        s.boundedLoadSelect now prefixHash ids epsilon cost = ids.getD best 0 ∧
          ∀ j < ids.length, s.loadAt now ids cost best < s.loadAt now ids cost j ∨
            s.loadAt now ids cost best = s.loadAt now ids cost j ∧
              (probeRank prefixHash ids.length best < probeRank prefixHash ids.length j ∨
                probeRank prefixHash ids.length best = probeRank prefixHash ids.length j ∧
                  best ≤ j)) ∧
      (0 < loadHinge (s.loadAt now ids cost (primaryIndex prefixHash ids))
          (s.computeLoadAllowance .BOUNDED_LOAD (s.candidateLoads now ids cost)) ↔
        loadCap (s.candidateLoads now ids cost) s.config.boundedLoadEpsilon ≤
          s.loadAt now ids cost (primaryIndex prefixHash ids)) := by
  have h : ids ≠ [] := List.ne_nil_of_length_pos (by omega)
  refine ⟨boundedLoadSelect_eq_primary_iff epsilon hlen haware, fun hmove => ?_,
    loadHinge_pos_iff h _⟩
  obtain ⟨hcap, hcold⟩ := not_or.mp hmove
  push Not at hcold
  obtain ⟨i, hi, hless⟩ := hcold
  have hne : s.divertIndex now prefixHash ids cost ≠ primaryIndex prefixHash ids := by
    intro heq
    have hlt := loadAt_divert_lt hi hless
    rw [heq] at hlt
    exact lt_irrefl _ hlt
  refine ⟨s.divertIndex now prefixHash ids cost, divertIndex_lt h, ?_, fun j hj =>
    divertIndex_least h hne hj⟩
  exact (boundedLoadSelect_eq epsilon hlen haware).trans (if_neg hcap)

end Select

/-- Two backends, the first of which carries all requests. -/
def busyAndIdle : ShardRouting :=
  fleet [(1, { addr := 101, activeRequests := 4 }), (2, { addr := 102 })] (by decide)
    { blockAlignment := defaultPrefixConfig.blockAlignment, boundedLoadEpsilon := 1 / 4 }

/-- A hash of the busy backend goes to the idle one, and the hinge opens. -/
theorem boundedLoadSelect_contract_busy :
    busyAndIdle.boundedLoadSelect 0 4 [1, 2] (1 / 4) 0 = 2 ∧
      (0 < loadHinge (busyAndIdle.loadAt 0 [1, 2] 0 (primaryIndex 4 [1, 2]))
          (busyAndIdle.computeLoadAllowance .BOUNDED_LOAD (busyAndIdle.candidateLoads 0 [1, 2] 0)) ↔
        loadCap (busyAndIdle.candidateLoads 0 [1, 2] 0) busyAndIdle.config.boundedLoadEpsilon ≤
          busyAndIdle.loadAt 0 [1, 2] 0 (primaryIndex 4 [1, 2])) :=
  ⟨by decide +kernel, (boundedLoadSelect_contract (1 / 4) (by decide) rfl).2.2⟩

end ShardRouting

end Ranvier
