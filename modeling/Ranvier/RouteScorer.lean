import Mathlib.Algebra.Order.Ring.Rat
import Mathlib.Data.List.Nodup
import Mathlib.Data.Prod.Lex
import Mathlib.Data.Rat.Defs
import Ranvier.Scan
import Ranvier.Types

/-!
# The route scorer

One ranking over the candidates decides twice: the **placement** by the stable
terms (what route learning pins), the **dispatch** by these and the transient
penalties (where this request goes). The source's `double`s are taken exactly.
-/

namespace Ranvier

/-- `ScoringWeights`; `slo_weight` is not read by any term. -/
structure ScoringWeights : Type where
  prefixWeight : ℚ := 0
  loadWeight : ℚ := 1
  residencyWeight : ℚ := 0
  costWeight : ℚ := 1
  priceWeight : ℚ := 1
  deriving DecidableEq

/-- `kHolderRankVerified`. -/
def kHolderRankVerified : ℕ := 0

/-- `kHolderRankDesignated`. -/
def kHolderRankDesignated : ℕ := 1

/-- `kHolderRankNone`. -/
def kHolderRankNone : ℕ := 2

/-- `std::numeric_limits<uint32_t>::max()`: no rank. -/
def noProbeRank : ℕ := 2 ^ 32 - 1

/-- `ScoreCandidate`. -/
structure ScoreCandidate : Type where
  id : BackendId := 0
  isAnchor : Bool := false
  affinity : ℚ := 0
  load : ℚ := 0
  loadAllowance : ℚ := 0
  costHinge : ℚ := 0
  costPressure : ℚ := 0
  priceAdvantage : ℚ := 0
  priceTiebreakLoad : ℚ := 0
  probeRank : ℕ := noProbeRank
  holderRank : ℕ := kHolderRankNone
  deriving DecidableEq

/-- `ScoreDecision`. -/
structure ScoreDecision : Type where
  placement : ℕ := 0
  dispatch : ℕ := 0
  loadDiverted : Bool := false
  costDiverted : Bool := false
  deriving DecidableEq, Repr

/-- `load_hinge`. -/
def loadHinge (load allowance : ℚ) : ℚ := if allowance < load then load - allowance else 0

/-- `placement_score`. -/
def placementScore (c : ScoreCandidate) (w : ScoringWeights) : ℚ :=
  w.prefixWeight * c.affinity + w.priceWeight * c.priceAdvantage

/-- `dispatch_score`. -/
def dispatchScore (c : ScoreCandidate) (w : ScoringWeights) (loadTermEnabled : Bool) : ℚ :=
  let s := placementScore c w
  let s := if loadTermEnabled then s - w.loadWeight * loadHinge c.load c.loadAllowance else s
  s - w.costWeight * c.costHinge

section Select

variable (candidates : List ScoreCandidate) (weights : ScoringWeights) (loadTermEnabled : Bool)

/-- The test of the placement loop. -/
def placementWins (i best : ℕ) : Bool :=
  let c := candidates.getD i {}
  let b := candidates.getD best {}
  let s := placementScore c weights
  let bestScore := placementScore b weights
  if bestScore < s then true
  else if s = bestScore then
    if c.isAnchor ≠ b.isAnchor then c.isAnchor
    else if c.priceTiebreakLoad ≠ b.priceTiebreakLoad then
      c.priceTiebreakLoad < b.priceTiebreakLoad
    else c.id < b.id
  else false

/-- `p_load_penalty`. -/
def loadPenalty (p : ScoreCandidate) : ℚ :=
  if loadTermEnabled then weights.loadWeight * loadHinge p.load p.loadAllowance else 0

/-- `p_cost_penalty`. -/
def costPenalty (p : ScoreCandidate) : ℚ := weights.costWeight * p.costHinge

/-- The test of the dispatch loop; `clean` is whether the placement winner
forfeited nothing. -/
def dispatchWins (placement : ℕ) (clean : Bool) (i best : ℕ) : Bool :=
  let c := candidates.getD i {}
  let b := candidates.getD best {}
  let s := dispatchScore c weights loadTermEnabled
  let bestScore := dispatchScore b weights loadTermEnabled
  if bestScore < s then true
  else if s = bestScore then
    let cPref := clean && i == placement
    let bPref := clean && best == placement
    if cPref ≠ bPref then cPref
    else if c.holderRank ≠ b.holderRank then c.holderRank < b.holderRank
    else if c.costPressure ≠ b.costPressure then c.costPressure < b.costPressure
    else if c.load ≠ b.load then c.load < b.load
    else if c.probeRank ≠ b.probeRank then c.probeRank < b.probeRank
    else c.id < b.id
  else false

/-- `score_and_select`. -/
def scoreAndSelect : ScoreDecision :=
  if candidates.length = 0 then {}
  else
    let rest := List.range' 1 (candidates.length - 1)
    let placement := scanBest (placementWins candidates weights) 0 rest
    let p := candidates.getD placement {}
    let clean := loadPenalty weights loadTermEnabled p = 0 ∧ costPenalty weights p = 0
    let dispatch := scanBest (dispatchWins candidates weights loadTermEnabled placement clean) 0 rest
    let diverted := dispatch ≠ placement
    { placement := placement
      dispatch := dispatch
      loadDiverted := diverted ∧ 0 < loadPenalty weights loadTermEnabled p
      costDiverted := diverted ∧ 0 < costPenalty weights p }

variable {candidates weights loadTermEnabled}

/-- Both winners are candidates. -/
theorem scoreAndSelect_lt (h : candidates ≠ []) :
    (scoreAndSelect candidates weights loadTermEnabled).placement < candidates.length ∧
      (scoreAndSelect candidates weights loadTermEnabled).dispatch < candidates.length := by
  have hpos : 0 < candidates.length := List.length_pos_of_ne_nil h
  rw [scoreAndSelect, if_neg (by omega)]
  exact ⟨scanBest_lt _ hpos fun _ => lt_of_mem_scanned,
    scanBest_lt _ hpos fun _ => lt_of_mem_scanned⟩

/-! ## The two orders -/

variable (weights loadTermEnabled) in
/-- What the placement loop orders by, the best first. -/
def placementKey (c : ScoreCandidate) : ℚ ×ₗ Bool ×ₗ ℚ ×ₗ BackendId :=
  toLex (-placementScore c weights, toLex (!c.isAnchor, toLex (c.priceTiebreakLoad, c.id)))

variable (weights loadTermEnabled) in
/-- What the dispatch loop orders by, the best first. -/
def dispatchKey (preferred : Bool) (c : ScoreCandidate) :
    ℚ ×ₗ Bool ×ₗ ℕ ×ₗ ℚ ×ₗ ℚ ×ₗ ℕ ×ₗ BackendId :=
  toLex (-dispatchScore c weights loadTermEnabled, toLex (!preferred, toLex (c.holderRank,
    toLex (c.costPressure, toLex (c.load, toLex (c.probeRank, c.id))))))

variable (weights loadTermEnabled) in
/-- The candidate forfeits nothing. -/
def isClean (p : ScoreCandidate) : Bool :=
  loadPenalty weights loadTermEnabled p = 0 ∧ costPenalty weights p = 0

/-- A loop's comparison of scores, larger first, as one step of a lexicographic order. -/
theorem score_lt_iff {score other : ℚ} {tie : Bool} {p : Prop} (h : tie = true ↔ p) :
    (if other < score then true else if score = other then tie else false) = true ↔
      -score < -other ∨ -score = -other ∧ p := by
  rw [neg_lt_neg_iff, neg_inj]
  split
  · next hlt => simp [hlt]
  · next hlt =>
    split
    · next heq => simp [heq, h]
    · next hne => simp [hlt, hne]

/-- The same for a tie key, smaller first. -/
theorem tie_lt_iff {β : Type*} [LinearOrder β] {x y : β} {tie : Bool} {p : Prop}
    (h : tie = true ↔ p) :
    (if x ≠ y then decide (x < y) else tie) = true ↔ x < y ∨ x = y ∧ p := by
  split
  · next hne => simp [hne]
  · next heq => simp [not_not.mp heq, h]

/-- The same for a flag, set first. -/
theorem flag_lt_iff {x y : Bool} {tie : Bool} {p : Prop} (h : tie = true ↔ p) :
    (if x ≠ y then x else tie) = true ↔ (!x) < (!y) ∨ (!x) = (!y) ∧ p := by
  cases x <;> cases y <;> simp [h]

theorem placementWins_iff {i best : ℕ} :
    placementWins candidates weights i best = true ↔
      placementKey weights (candidates.getD i {}) < placementKey weights (candidates.getD best {}) := by
  simp only [placementWins, placementKey, Prod.Lex.toLex_lt_toLex]
  exact score_lt_iff (flag_lt_iff (tie_lt_iff decide_eq_true_iff))

theorem dispatchWins_iff {placement i best : ℕ} {clean : Bool} :
    dispatchWins candidates weights loadTermEnabled placement clean i best = true ↔
      dispatchKey weights loadTermEnabled (clean && i == placement) (candidates.getD i {}) <
        dispatchKey weights loadTermEnabled (clean && best == placement) (candidates.getD best {}) := by
  simp only [dispatchWins, dispatchKey, Prod.Lex.toLex_lt_toLex]
  exact score_lt_iff (flag_lt_iff (tie_lt_iff (tie_lt_iff (tie_lt_iff
    (tie_lt_iff decide_eq_true_iff)))))

/-- Nothing is before the placement in the order of the placement loop. -/
theorem scoreAndSelect_placement_le {i : ℕ} (hi : i < candidates.length) :
    placementKey weights
        (candidates.getD (scoreAndSelect candidates weights loadTermEnabled).placement {}) ≤
      placementKey weights (candidates.getD i {}) := by
  rw [scoreAndSelect, if_neg (by omega)]
  exact scanBest_key_le _ (fun i => placementKey weights (candidates.getD i {}))
    (fun _ _ => placementWins_iff) 0 _ i (mem_scanned hi)

/-- The clean placement is preferred at equal scores. -/
def prefers (candidates : List ScoreCandidate) (weights : ScoringWeights) (loadTermEnabled : Bool)
    (i : ℕ) : Bool :=
  let placement := (scoreAndSelect candidates weights loadTermEnabled).placement
  isClean weights loadTermEnabled (candidates.getD placement {}) && i == placement

/-- Nothing is before the dispatch in the order of the dispatch loop. -/
theorem scoreAndSelect_dispatch_le {i : ℕ} (hi : i < candidates.length) :
    let dispatch := (scoreAndSelect candidates weights loadTermEnabled).dispatch
    dispatchKey weights loadTermEnabled (prefers candidates weights loadTermEnabled dispatch)
        (candidates.getD dispatch {}) ≤
      dispatchKey weights loadTermEnabled (prefers candidates weights loadTermEnabled i)
        (candidates.getD i {}) := by
  have hscan := scanBest_key_le
    (dispatchWins candidates weights loadTermEnabled
      (scoreAndSelect candidates weights loadTermEnabled).placement
      (isClean weights loadTermEnabled (candidates.getD
        (scoreAndSelect candidates weights loadTermEnabled).placement {})))
    (fun i => dispatchKey weights loadTermEnabled
      (prefers candidates weights loadTermEnabled i) (candidates.getD i {}))
    (fun _ _ => dispatchWins_iff) 0 _ i (mem_scanned hi)
  have hdispatch : (scoreAndSelect candidates weights loadTermEnabled).dispatch =
      scanBest (dispatchWins candidates weights loadTermEnabled
        (scoreAndSelect candidates weights loadTermEnabled).placement
        (isClean weights loadTermEnabled (candidates.getD
          (scoreAndSelect candidates weights loadTermEnabled).placement {}))) 0
        (List.range' 1 (candidates.length - 1)) := by
    simp only [scoreAndSelect, if_neg (show ¬candidates.length = 0 by omega), isClean]
  dsimp only
  rw [hdispatch]
  exact hscan

/-! ## Every order of the candidates

With distinct ids no two candidates tie to the end of either order, so each loop
has one best candidate, whichever way the candidates are listed. -/

/-- The candidate at `decision.placement`. -/
def placed (candidates : List ScoreCandidate) (weights : ScoringWeights) (loadTermEnabled : Bool) :
    Option ScoreCandidate :=
  candidates[(scoreAndSelect candidates weights loadTermEnabled).placement]?

/-- The candidate at `decision.dispatch`. -/
def dispatched (candidates : List ScoreCandidate) (weights : ScoringWeights)
    (loadTermEnabled : Bool) : Option ScoreCandidate :=
  candidates[(scoreAndSelect candidates weights loadTermEnabled).dispatch]?

variable (candidates weights) in
/-- `p` comes strictly first in the tie order of the placement. -/
def FirstPlaced (p : ScoreCandidate) : Prop :=
  p ∈ candidates ∧ ∀ c ∈ candidates, c ≠ p → placementKey weights p < placementKey weights c

variable (candidates weights loadTermEnabled) in
/-- `d` comes strictly first in the tie order of the dispatch, where a clean
placement winner `p` is preferred at equal scores. -/
def FirstDispatched (p d : ScoreCandidate) : Prop :=
  d ∈ candidates ∧ ∀ c ∈ candidates, c ≠ d →
    dispatchKey weights loadTermEnabled (isClean weights loadTermEnabled p && decide (d = p)) d <
      dispatchKey weights loadTermEnabled (isClean weights loadTermEnabled p && decide (c = p)) c

theorem id_of_placementKey_eq {c d : ScoreCandidate}
    (h : placementKey weights c = placementKey weights d) : c.id = d.id :=
  congrArg (fun key => (ofLex (ofLex (ofLex key).2).2).2) h

theorem id_of_dispatchKey_eq {c d : ScoreCandidate} {x y : Bool}
    (h : dispatchKey weights loadTermEnabled x c = dispatchKey weights loadTermEnabled y d) :
    c.id = d.id :=
  congrArg (fun key => (ofLex (ofLex (ofLex (ofLex (ofLex (ofLex key).2).2).2).2).2).2) h

theorem eq_of_id_eq (hids : (candidates.map ScoreCandidate.id).Nodup) {c d : ScoreCandidate}
    (hc : c ∈ candidates) (hd : d ∈ candidates) (h : c.id = d.id) : c = d :=
  List.inj_on_of_nodup_map hids hc hd h

/-- Positions of distinct candidates are told apart by what stands there. -/
theorem getElem?_eq_iff (hids : (candidates.map ScoreCandidate.id).Nodup) {i j : ℕ}
    {c d : ScoreCandidate} (hi : candidates[i]? = some c) (hj : candidates[j]? = some d) :
    i = j ↔ c = d := by
  have hnodup : candidates.Nodup := List.Nodup.of_map _ hids
  obtain ⟨hlt, rfl⟩ := List.getElem?_eq_some_iff.mp hi
  obtain ⟨hlt', rfl⟩ := List.getElem?_eq_some_iff.mp hj
  exact (hnodup.getElem_inj_iff).symm

theorem getD_of_getElem? {i : ℕ} {c : ScoreCandidate} (hi : candidates[i]? = some c) :
    candidates.getD i {} = c := by
  rw [List.getD_eq_getElem?_getD, hi]
  rfl

theorem placed_first (hids : (candidates.map ScoreCandidate.id).Nodup) {p : ScoreCandidate}
    (hp : placed candidates weights loadTermEnabled = some p) :
    FirstPlaced candidates weights p := by
  have hmem : p ∈ candidates := List.mem_of_getElem? hp
  refine ⟨hmem, fun c hc hne => ?_⟩
  obtain ⟨i, hlt, hi⟩ := List.mem_iff_getElem.mp hc
  have hle : placementKey weights
      (candidates.getD (scoreAndSelect candidates weights loadTermEnabled).placement {}) ≤
        placementKey weights (candidates.getD i {}) := scoreAndSelect_placement_le hlt
  rw [getD_of_getElem? hp, getD_of_getElem? (List.getElem?_eq_some_iff.mpr ⟨hlt, hi⟩)] at hle
  refine lt_of_le_of_ne hle fun heq => hne ?_
  exact eq_of_id_eq hids hc hmem (id_of_placementKey_eq heq).symm

theorem prefers_eq (hids : (candidates.map ScoreCandidate.id).Nodup) {i : ℕ}
    {p c : ScoreCandidate} (hp : placed candidates weights loadTermEnabled = some p)
    (hi : candidates[i]? = some c) :
    prefers candidates weights loadTermEnabled i =
      (isClean weights loadTermEnabled p && decide (c = p)) := by
  have hiff := getElem?_eq_iff hids hi hp
  simp only [prefers, getD_of_getElem? hp, beq_eq_decide, hiff]

theorem dispatched_first (hids : (candidates.map ScoreCandidate.id).Nodup)
    {p d : ScoreCandidate} (hp : placed candidates weights loadTermEnabled = some p)
    (hd : dispatched candidates weights loadTermEnabled = some d) :
    FirstDispatched candidates weights loadTermEnabled p d := by
  have hmem : d ∈ candidates := List.mem_of_getElem? hd
  refine ⟨hmem, fun c hc hne => ?_⟩
  obtain ⟨i, hlt, hi⟩ := List.mem_iff_getElem.mp hc
  have hi' := List.getElem?_eq_some_iff.mpr ⟨hlt, hi⟩
  have hle : dispatchKey weights loadTermEnabled
      (prefers candidates weights loadTermEnabled
        (scoreAndSelect candidates weights loadTermEnabled).dispatch)
      (candidates.getD (scoreAndSelect candidates weights loadTermEnabled).dispatch {}) ≤
        dispatchKey weights loadTermEnabled (prefers candidates weights loadTermEnabled i)
          (candidates.getD i {}) := scoreAndSelect_dispatch_le hlt
  rw [getD_of_getElem? hd, getD_of_getElem? hi', prefers_eq hids hp hd,
    prefers_eq hids hp hi'] at hle
  refine lt_of_le_of_ne hle fun heq => hne ?_
  exact eq_of_id_eq hids hc hmem (id_of_dispatchKey_eq heq).symm

/-- At most one candidate is strictly first. -/
theorem FirstPlaced.unique {p q : ScoreCandidate} (hp : FirstPlaced candidates weights p)
    (hq : FirstPlaced candidates weights q) : p = q := by
  by_contra hne
  exact lt_asymm (hp.2 q hq.1 (Ne.symm hne)) (hq.2 p hp.1 hne)

theorem FirstDispatched.unique {p d e : ScoreCandidate}
    (hd : FirstDispatched candidates weights loadTermEnabled p d)
    (he : FirstDispatched candidates weights loadTermEnabled p e) : d = e := by
  by_contra hne
  exact lt_asymm (hd.2 e he.1 (Ne.symm hne)) (he.2 d hd.1 hne)

variable (weights loadTermEnabled) in
theorem exists_placed_dispatched (h : candidates ≠ []) :
    ∃ p d, placed candidates weights loadTermEnabled = some p ∧
      dispatched candidates weights loadTermEnabled = some d := by
  have hlt := @scoreAndSelect_lt candidates weights loadTermEnabled h
  exact ⟨_, _, List.getElem?_eq_getElem hlt.1, List.getElem?_eq_getElem hlt.2⟩

theorem FirstPlaced.of_perm {other : List ScoreCandidate} {p : ScoreCandidate}
    (hperm : other.Perm candidates) (hp : FirstPlaced other weights p) :
    FirstPlaced candidates weights p :=
  ⟨hperm.mem_iff.mp hp.1, fun c hc => hp.2 c (hperm.mem_iff.mpr hc)⟩

theorem FirstDispatched.of_perm {other : List ScoreCandidate} {p d : ScoreCandidate}
    (hperm : other.Perm candidates) (hd : FirstDispatched other weights loadTermEnabled p d) :
    FirstDispatched candidates weights loadTermEnabled p d :=
  ⟨hperm.mem_iff.mp hd.1, fun c hc => hd.2 c (hperm.mem_iff.mpr hc)⟩

/-- **The order of the candidates does not matter.** With distinct ids the two
winners are the strictly first candidates of the two tie orders, and every listing
of the same candidates selects the same two. -/
theorem scoreAndSelect_order_free (hids : (candidates.map ScoreCandidate.id).Nodup) :
    (candidates ≠ [] → ∃ p d, placed candidates weights loadTermEnabled = some p ∧
      dispatched candidates weights loadTermEnabled = some d ∧
      FirstPlaced candidates weights p ∧
      FirstDispatched candidates weights loadTermEnabled p d) ∧
    ∀ other, other.Perm candidates →
      placed other weights loadTermEnabled = placed candidates weights loadTermEnabled ∧
      dispatched other weights loadTermEnabled =
        dispatched candidates weights loadTermEnabled := by
  constructor
  · intro hne
    obtain ⟨p, d, hp, hd⟩ := exists_placed_dispatched weights loadTermEnabled hne
    exact ⟨p, d, hp, hd, placed_first hids hp, dispatched_first hids hp hd⟩
  · intro other hperm
    by_cases hnil : candidates = []
    · rw [hnil] at hperm
      rw [hperm.eq_nil, hnil]
      exact ⟨rfl, rfl⟩
    have hids' : (other.map ScoreCandidate.id).Nodup :=
      (hperm.map ScoreCandidate.id).nodup_iff.mpr hids
    have hnil' : other ≠ [] := by
      rintro rfl
      exact hnil hperm.symm.eq_nil
    obtain ⟨p, d, hp, hd⟩ := exists_placed_dispatched weights loadTermEnabled hnil
    obtain ⟨p', d', hp', hd'⟩ := exists_placed_dispatched weights loadTermEnabled hnil'
    -- the dispatch order depends on the placement winner, so the placements come first
    have hpp : p' = p :=
      ((placed_first hids' hp').of_perm hperm).unique (placed_first hids hp)
    subst hpp
    have hdd : d' = d :=
      ((dispatched_first hids' hp' hd').of_perm hperm).unique (dispatched_first hids hp hd)
    subst hdd
    exact ⟨hp'.trans hp.symm, hd'.trans hd.symm⟩

/-! ## Diverts

The penalties are all that the dispatch takes off the placement's score, and a placement
without penalties wins every tie, so nothing else can move a request away from it. -/

theorem dispatchScore_eq (c : ScoreCandidate) :
    dispatchScore c weights loadTermEnabled =
      placementScore c weights - loadPenalty weights loadTermEnabled c - costPenalty weights c := by
  unfold dispatchScore loadPenalty costPenalty
  cases loadTermEnabled with
  | false => simp
  | true => simp

theorem loadHinge_nonneg (load allowance : ℚ) : 0 ≤ loadHinge load allowance := by
  rw [loadHinge]
  split
  · next hopen => exact (sub_pos.mpr hopen).le
  · exact le_refl 0

theorem loadPenalty_nonneg (h : 0 ≤ weights.loadWeight) (c : ScoreCandidate) :
    0 ≤ loadPenalty weights loadTermEnabled c := by
  rw [loadPenalty]
  split
  · exact mul_nonneg h (loadHinge_nonneg _ _)
  · exact le_refl 0

theorem costPenalty_nonneg (h : 0 ≤ weights.costWeight) {c : ScoreCandidate}
    (hc : 0 ≤ c.costHinge) : 0 ≤ costPenalty weights c :=
  mul_nonneg h hc

/-- No candidate has a better placement score than the placement. -/
theorem placementScore_le {i : ℕ} (hi : i < candidates.length) :
    placementScore (candidates.getD i {}) weights ≤
      placementScore
        (candidates.getD (scoreAndSelect candidates weights loadTermEnabled).placement {})
        weights := by
  have hle := @scoreAndSelect_placement_le candidates weights loadTermEnabled i hi
  rw [placementKey, placementKey, Prod.Lex.toLex_le_toLex] at hle
  rcases hle with hlt | ⟨heq, -⟩
  · exact (neg_lt_neg_iff.mp hlt).le
  · exact (neg_inj.mp heq).ge

/-- A clean placement is dispatched to. -/
theorem dispatch_eq_of_clean (hload : 0 ≤ weights.loadWeight) (hcost : 0 ≤ weights.costWeight)
    (hhinges : ∀ c ∈ candidates, 0 ≤ c.costHinge)
    (hclean : isClean weights loadTermEnabled (candidates.getD
      (scoreAndSelect candidates weights loadTermEnabled).placement {}) = true) :
    (scoreAndSelect candidates weights loadTermEnabled).dispatch =
      (scoreAndSelect candidates weights loadTermEnabled).placement := by
  by_cases hnil : candidates = []
  · rw [hnil]
    rfl
  obtain ⟨hplace, hdisp⟩ := @scoreAndSelect_lt candidates weights loadTermEnabled hnil
  have hbest := @placementScore_le candidates weights loadTermEnabled _ hdisp
  have hle := @scoreAndSelect_dispatch_le candidates weights loadTermEnabled _ hplace
  have hhinge := hhinges _ (getD_mem {} hdisp)
  simp only [prefers, hclean, Bool.true_and, beq_self_eq_true] at hle
  generalize scoreAndSelect candidates weights loadTermEnabled = decision at *
  obtain ⟨hzero, hzero'⟩ := of_decide_eq_true hclean
  by_contra hne
  rw [beq_eq_false_iff_ne.mpr hne, dispatchKey, dispatchKey, Prod.Lex.toLex_le_toLex] at hle
  rcases hle with hlt | ⟨-, hle⟩
  · -- the dispatch would have to score better, but it has no better placement score
    rw [neg_lt_neg_iff, dispatchScore_eq, dispatchScore_eq, hzero, hzero'] at hlt
    have hnonneg : 0 ≤ loadPenalty weights loadTermEnabled (candidates.getD decision.dispatch {}) :=
      loadPenalty_nonneg hload _
    have hnonneg' := costPenalty_nonneg hcost hhinge
    rw [sub_zero, sub_zero] at hlt
    exact absurd hlt (not_lt.mpr
      ((sub_le_self _ hnonneg').trans ((sub_le_self _ hnonneg).trans hbest)))
  · rw [Prod.Lex.toLex_le_toLex] at hle
    rcases hle with hlt | ⟨heq, -⟩
    · exact absurd hlt (by simp)
    · cases heq

/-- The marks of a divert tell what the placement was charged with. -/
theorem diverted_iff (h : (scoreAndSelect candidates weights loadTermEnabled).dispatch ≠
      (scoreAndSelect candidates weights loadTermEnabled).placement) :
    let decision := scoreAndSelect candidates weights loadTermEnabled
    let p := candidates.getD decision.placement {}
    (decision.loadDiverted = true ↔ 0 < loadPenalty weights loadTermEnabled p) ∧
      (decision.costDiverted = true ↔ 0 < costPenalty weights p) := by
  unfold scoreAndSelect at h ⊢
  split at h
  · exact absurd rfl h
  · next hne =>
    simp only [if_neg hne] at h ⊢
    rw [decide_eq_true_iff, decide_eq_true_iff]
    exact ⟨and_iff_right h, and_iff_right h⟩

/-- **Diverts.** A placement whose hinges are closed is dispatched to, and a dispatch to
another backend is marked as a divert by load or by cost. -/
theorem dispatch_diverts (hload : 0 ≤ weights.loadWeight) (hcost : 0 ≤ weights.costWeight)
    (hhinges : ∀ c ∈ candidates, 0 ≤ c.costHinge) :
    let decision := scoreAndSelect candidates weights loadTermEnabled
    let p := candidates.getD decision.placement {}
    ((loadTermEnabled = true → loadHinge p.load p.loadAllowance = 0) → p.costHinge = 0 →
        decision.dispatch = decision.placement) ∧
      (decision.dispatch ≠ decision.placement →
        decision.loadDiverted = true ∨ decision.costDiverted = true) := by
  have hclean := @dispatch_eq_of_clean candidates weights loadTermEnabled hload hcost hhinges
  dsimp only
  constructor
  · intro hclosed hcostClosed
    refine hclean (decide_eq_true ⟨?_, ?_⟩)
    · rw [loadPenalty]
      split
      · next henabled => rw [hclosed henabled, mul_zero]
      · rfl
    · rw [costPenalty, hcostClosed, mul_zero]
  · intro hdiverted
    have hnil : candidates ≠ [] := by
      rintro rfl
      exact hdiverted rfl
    have hhinge := hhinges _ (getD_mem {}
      (@scoreAndSelect_lt candidates weights loadTermEnabled hnil).1)
    obtain ⟨hbyLoad, hbyCost⟩ := diverted_iff hdiverted
    rw [hbyLoad, hbyCost]
    by_contra hnone
    rw [not_or, not_lt, not_lt] at hnone
    exact hdiverted (hclean (decide_eq_true
      ⟨hnone.1.antisymm (loadPenalty_nonneg hload _),
        hnone.2.antisymm (costPenalty_nonneg hcost hhinge)⟩))

end Select

/-- Three backends of equal score, one of them the anchor and over its allowance. -/
def tiedCandidates : List ScoreCandidate :=
  [{ id := 7, load := 3, loadAllowance := 4 }, { id := 2, load := 3, loadAllowance := 4 },
    { id := 5, isAnchor := true, load := 9, loadAllowance := 4 }]

theorem scoreAndSelect_order_free_tied :
    (tiedCandidates.map ScoreCandidate.id).Nodup ∧
      (placed tiedCandidates {} true).map ScoreCandidate.id = some 5 ∧
      (dispatched tiedCandidates {} true).map ScoreCandidate.id = some 2 ∧
      ∀ other, other.Perm tiedCandidates →
        placed other {} true = placed tiedCandidates {} true ∧
        dispatched other {} true = dispatched tiedCandidates {} true := by
  have hids : (tiedCandidates.map ScoreCandidate.id).Nodup := by decide
  exact ⟨hids, by decide +kernel, by decide +kernel, (scoreAndSelect_order_free hids).2⟩

/-- The tied backends again: the anchor is placed and over its allowance, and the divert is
marked as one by load. -/
theorem dispatch_diverts_tied :
    (scoreAndSelect tiedCandidates {} true).dispatch ≠
        (scoreAndSelect tiedCandidates {} true).placement ∧
      ((scoreAndSelect tiedCandidates {} true).loadDiverted = true ∨
        (scoreAndSelect tiedCandidates {} true).costDiverted = true) := by
  have hdiverted : (scoreAndSelect tiedCandidates {} true).dispatch ≠
      (scoreAndSelect tiedCandidates {} true).placement := by decide +kernel
  have hhinges : ∀ c ∈ tiedCandidates, 0 ≤ c.costHinge := by decide +kernel
  exact ⟨hdiverted, (dispatch_diverts (by decide +kernel) (by decide +kernel) hhinges).2 hdiverted⟩

end Ranvier
