import Ranvier.MissTargets

/-!
# The cold backend

When a hit is downgraded, the candidates of the miss leave the cache-cold backend out.
The dispatch set is built anew: it applies the roles and forgets the cold backend, so
loads, costs and prices may bring the request back to it.

* `PlacedFirst`, `DispatchedFirst` — what the two loops of the scoring pass choose;
* `priceGain`, `loadLoss`, `costLoss`, `Beats` — the same order, written out for a miss;
* `Spared` — the cold backend is out of the placement's reach, and another backend beats
  it by load, cost and price;
* `cold_avoided_iff` — the cold backend is avoided exactly then.
-/

namespace Ranvier

namespace ShardRouting

variable {s : ShardRouting} {req : RouteRequest} {c : Circumstances}

/-! ## The two loops on a miss -/

section Cold

variable (s req c) (a : Anchor)

/-- A term of the score is active. -/
def termed : Bool := s.loadTerm a || s.costTerm req || s.priceTerm a

/-- The candidate's place in the order of the placement loop. -/
def placementRank (id : BackendId) : ℚ ×ₗ Bool ×ₗ ℚ ×ₗ BackendId :=
  placementKey (s.resolveScoringWeights a.selected) (s.scoreCandidate req c a id)

/-- Nothing in the dispatch set is before the backend in the placement. -/
def PlacedFirst (id : BackendId) : Prop :=
  id ∈ s.dispatchIds a ∧
    ∀ other ∈ s.dispatchIds a, s.placementRank req c a id ≤ s.placementRank req c a other

/-- The backend is placed and forfeits nothing: the dispatch prefers it at equal
scores. -/
def Preferred (id : BackendId) : Prop :=
  s.PlacedFirst req c a id ∧
    isClean (s.resolveScoringWeights a.selected) (s.loadTerm a) (s.scoreCandidate req c a id) = true

/-- The score of a backend in the dispatch: what it saves less its penalties for load
and cost. -/
def dispatchScoreOf (id : BackendId) : ℚ :=
  dispatchScore (s.scoreCandidate req c a id) (s.resolveScoringWeights a.selected) (s.loadTerm a)

/-- Of two backends of a miss the first is dispatched to before the second: by its
score, else if the second is not preferred by cost pressure, load and id. -/
def Outranks (id other : BackendId) : Prop :=
  s.dispatchScoreOf req c a other < s.dispatchScoreOf req c a id ∨
    s.dispatchScoreOf req c a id = s.dispatchScoreOf req c a other ∧
      ¬s.Preferred req c a other ∧
      toLex ((s.scoreCandidate req c a id).costPressure, toLex
          ((s.scoreCandidate req c a id).load, id)) <
        toLex ((s.scoreCandidate req c a other).costPressure, toLex
          ((s.scoreCandidate req c a other).load, other))

/-- A term is active, and the backend outranks the rest of the dispatch set. -/
structure DispatchedFirst (id : BackendId) : Prop where
  isTermed : s.termed req a = true
  candidate : id ∈ s.dispatchIds a
  first : ∀ other ∈ s.dispatchIds a, other ≠ id → s.Outranks req c a id other

variable {s req c a}

theorem dispatchIds_nodup : (s.dispatchIds a).Nodup := s.getLiveBackends_nodup.filter _

/-- The candidate at a position of the dispatch set. -/
theorem getD_scored {i : ℕ} (hi : i < (s.dispatchIds a).length) (d : ScoreCandidate) :
    ((s.dispatchIds a).map (s.scoreCandidate req c a)).getD i d =
      s.scoreCandidate req c a (s.dispatchIds a)[i] := by
  rw [List.getD_eq_getElem?_getD, List.getElem?_map, List.getElem?_eq_getElem hi]
  rfl

/-- Two backends have the same place only if they are the same. -/
theorem placementRank_injective {id other : BackendId}
    (h : s.placementRank req c a id = s.placementRank req c a other) : id = other := by
  have hid := congrArg (fun key => (ofLex (ofLex (ofLex key).2).2).2) h
  exact hid

/-- The position the placement loop chooses. -/
theorem placedFirst_iff {i : ℕ} (hi : i < (s.dispatchIds a).length) :
    s.PlacedFirst req c a (s.dispatchIds a)[i] ↔
      i = (scoreAndSelect ((s.dispatchIds a).map (s.scoreCandidate req c a))
        (s.resolveScoringWeights a.selected) (s.loadTerm a)).placement := by
  have hne : (s.dispatchIds a).map (s.scoreCandidate req c a) ≠ [] := by
    rw [Ne, List.map_eq_nil_iff]
    exact List.ne_nil_of_length_pos (by omega)
  have hlt := (@scoreAndSelect_lt _ (s.resolveScoringWeights a.selected) (s.loadTerm a) hne).1
  rw [List.length_map] at hlt
  have hplaced : s.PlacedFirst req c a (s.dispatchIds a)[(scoreAndSelect
      ((s.dispatchIds a).map (s.scoreCandidate req c a))
      (s.resolveScoringWeights a.selected) (s.loadTerm a)).placement] := by
    refine ⟨List.getElem_mem _, fun other hother => ?_⟩
    obtain ⟨k, hk, rfl⟩ := List.getElem_of_mem hother
    have hle := @scoreAndSelect_placement_le
      ((s.dispatchIds a).map (s.scoreCandidate req c a)) (s.resolveScoringWeights a.selected)
      (s.loadTerm a) k (by rwa [List.length_map])
    rwa [getD_scored hlt, getD_scored hk] at hle
  constructor
  · intro hfirst
    have hrank := le_antisymm (hfirst.2 _ hplaced.1) (hplaced.2 _ hfirst.1)
    exact dispatchIds_nodup.getElem_inj_iff.mp (placementRank_injective hrank)
  · intro heq
    simp only [heq]
    exact hplaced

/-- The loop's preference is that of the backend at the position. -/
theorem prefers_iff {i : ℕ} (hi : i < (s.dispatchIds a).length) :
    prefers ((s.dispatchIds a).map (s.scoreCandidate req c a))
        (s.resolveScoringWeights a.selected) (s.loadTerm a) i = true ↔
      s.Preferred req c a (s.dispatchIds a)[i] := by
  rw [prefers, Preferred, placedFirst_iff hi, Bool.and_eq_true, beq_iff_eq, and_comm]
  refine and_congr_right fun heq => ?_
  rw [← heq, getD_scored hi]

theorem dispatchKey_injective {id other : BackendId} {w : ScoringWeights} {l p q : Bool}
    (h : dispatchKey w l p (s.scoreCandidate req c a id) =
      dispatchKey w l q (s.scoreCandidate req c a other)) : id = other := by
  have hid := congrArg (fun key =>
    (ofLex (ofLex (ofLex (ofLex (ofLex (ofLex key).2).2).2).2).2).2) h
  exact hid

/-- The order of the dispatch, for a backend that is not preferred. No candidate of a
miss has a rank. -/
theorem dispatchKey_lt_iff {id other : BackendId} {preferred : Bool}
    (h : preferred = true ↔ s.Preferred req c a other) :
    dispatchKey (s.resolveScoringWeights a.selected) (s.loadTerm a) false
        (s.scoreCandidate req c a id) <
      dispatchKey (s.resolveScoringWeights a.selected) (s.loadTerm a) preferred
        (s.scoreCandidate req c a other) ↔
      s.Outranks req c a id other := by
  have hholder : (s.scoreCandidate req c a id).holderRank =
      (s.scoreCandidate req c a other).holderRank := rfl
  have hprobe : (s.scoreCandidate req c a id).probeRank =
      (s.scoreCandidate req c a other).probeRank := rfl
  have hid : (s.scoreCandidate req c a id).id = id := rfl
  have hother : (s.scoreCandidate req c a other).id = other := rfl
  simp only [dispatchKey, Outranks, dispatchScoreOf, Prod.Lex.toLex_lt_toLex, neg_lt_neg_iff,
    neg_inj, hholder, hprobe, hid, hother, lt_irrefl, false_or, true_and, ← h]
  cases preferred <;> simp

section Decided

variable (hmiss : a.artHit = false) (ha : a.selected ∈ s.getLiveBackends)
include hmiss ha

/-- What the two loops decide on a miss: the placement is placed first, and nothing is
before the target in the order of the dispatch. -/
theorem scoringPass_decides (htermed : s.termed req a = true) :
    ∃ placed target, target ∈ s.dispatchIds a ∧
      (s.scoringPass req c a).originalSelected = placed ∧
      (s.scoringPass req c a).backendId = some target ∧
      s.PlacedFirst req c a placed ∧
      ∀ other ∈ s.dispatchIds a, ∃ preferred otherPreferred : Bool,
        (preferred = true ↔ s.Preferred req c a target) ∧
        (otherPreferred = true ↔ s.Preferred req c a other) ∧
        dispatchKey (s.resolveScoringWeights a.selected) (s.loadTerm a) preferred
            (s.scoreCandidate req c a target) ≤
          dispatchKey (s.resolveScoringWeights a.selected) (s.loadTerm a) otherPreferred
            (s.scoreCandidate req c a other) := by
  have hne : (s.dispatchIds a).map (s.scoreCandidate req c a) ≠ [] := by
    rw [Ne, List.map_eq_nil_iff]
    exact List.ne_nil_of_mem (List.mem_filter.mpr ⟨ha, by simp⟩)
  obtain ⟨hp, hd⟩ := @scoreAndSelect_lt _ (s.resolveScoringWeights a.selected) (s.loadTerm a) hne
  rw [List.length_map] at hp hd
  have hscored : ¬(!s.loadTerm a && !s.costTerm req && !s.priceTerm a) = true := by
    rw [termed] at htermed
    revert htermed
    cases s.loadTerm a <;> cases s.costTerm req <;> cases s.priceTerm a <;> decide
  refine ⟨_, _, List.getElem_mem hd, ?_, ?_, (placedFirst_iff hp).mpr rfl, fun other hother => ?_⟩
  · rw [scoringPass]
    dsimp only
    rw [if_neg hscored, scored_of_miss hmiss, getD_scored hp]
    rfl
  · rw [scoringPass]
    dsimp only
    rw [if_neg hscored, scored_of_miss hmiss, getD_scored hd]
    rfl
  · obtain ⟨k, hk, rfl⟩ := List.getElem_of_mem hother
    refine ⟨_, _, prefers_iff hd, prefers_iff hk, ?_⟩
    have hle := @scoreAndSelect_dispatch_le
      ((s.dispatchIds a).map (s.scoreCandidate req c a)) (s.resolveScoringWeights a.selected)
      (s.loadTerm a) k (by rwa [List.length_map])
    dsimp only at hle
    rwa [getD_scored hd, getD_scored hk] at hle

/-- A backend that is not placed first is the target exactly when it outranks the rest
of the dispatch set. -/
theorem backendId_eq_iff {id : BackendId} (htermed : s.termed req a = true)
    (hplaced : ¬s.PlacedFirst req c a id) :
    (s.scoringPass req c a).backendId = some id ↔ s.DispatchedFirst req c a id := by
  obtain ⟨placed, target, htarget, -, hdispatch, -, hfirst⟩ :=
    @scoringPass_decides s req c a hmiss ha htermed
  have hunpreferred : ¬s.Preferred req c a id := fun h => hplaced h.1
  rw [hdispatch]
  constructor
  · intro heq
    obtain rfl := Option.some.inj heq
    refine ⟨htermed, htarget, fun other hother hne => ?_⟩
    obtain ⟨preferred, otherPreferred, hpreferred, hother, hle⟩ := hfirst other hother
    have hfalse : preferred = false := by
      rw [← Bool.not_eq_true, hpreferred]
      exact hunpreferred
    rw [hfalse] at hle
    refine (dispatchKey_lt_iff hother).mp (lt_of_le_of_ne hle fun heq => hne ?_)
    exact (dispatchKey_injective heq).symm
  · intro h
    by_contra hne
    have hother : target ≠ id := fun heq => hne (by rw [heq])
    obtain ⟨preferred, otherPreferred, hpreferred, hid, hle⟩ := hfirst id h.candidate
    have hfalse : otherPreferred = false := by
      rw [← Bool.not_eq_true, hid]
      exact hunpreferred
    rw [hfalse] at hle
    exact absurd ((dispatchKey_lt_iff hpreferred).mpr (h.first target htarget hother))
      (not_lt.mpr hle)

end Decided

variable (s req c a) in
/-- The placement is this backend: the anchor's seat when no term is active. -/
def Seats (id : BackendId) : Prop :=
  if s.termed req a = true then s.PlacedFirst req c a id else a.selected = id

/-- A miss avoids a backend exactly when neither the placement nor the dispatch puts it
first. -/
theorem scoringPass_avoids_iff (hmiss : a.artHit = false) (ha : a.selected ∈ s.getLiveBackends)
    {id : BackendId} :
    (s.scoringPass req c a).backendId ≠ some id ∧ (s.scoringPass req c a).originalSelected ≠ id ↔
      ¬s.Seats req c a id ∧ ¬s.DispatchedFirst req c a id := by
  rw [Seats]
  cases htermed : s.termed req a with
  | false =>
    have hfast : (!s.loadTerm a && !s.costTerm req && !s.priceTerm a) = true := by
      rw [termed] at htermed
      revert htermed
      cases s.loadTerm a <;> cases s.costTerm req <;> cases s.priceTerm a <;> decide
    have hpass : s.scoringPass req c a =
        { backendId := some a.selected, artHit := a.artHit, originalSelected := a.selected } := by
      rw [scoringPass]
      dsimp only
      rw [if_pos hfast]
    have hnot : ¬s.DispatchedFirst req c a id := fun h => by
      rw [h.isTermed] at htermed
      cases htermed
    simp [hpass, hnot]
  | true =>
    obtain ⟨placed, target, -, hplacement, -, hplaced, -⟩ :=
      @scoringPass_decides s req c a hmiss ha htermed
    have hseat : s.PlacedFirst req c a id ↔ placed = id := by
      refine ⟨fun h => ?_, fun h => h ▸ hplaced⟩
      exact placementRank_injective (le_antisymm (hplaced.2 _ h.1) (h.2 _ hplaced.1))
    rw [hplacement, if_pos rfl, hseat]
    by_cases heq : placed = id
    · exact ⟨fun h => absurd heq h.2, fun h => absurd heq h.1⟩
    · rw [Ne, backendId_eq_iff hmiss ha htermed (fun h => heq (hseat.mp h))]
      exact and_comm

/-! ## Prices, loads and costs -/

section Terms

variable (s req c) (a : Anchor)

/-- What a backend that is cheaper than the anchor gains on a miss. -/
def priceGain (id : BackendId) : ℚ :=
  if s.priceTerm a then
    (s.resolveScoringWeights a.selected).priceWeight * s.priceAdvantage c a id
  else 0

/-- What a backend loses by its load beyond the allowance. -/
def loadLoss (id : BackendId) : ℚ :=
  if s.loadTerm a then
    (s.resolveScoringWeights a.selected).loadWeight *
      loadHinge (s.dispatchLoad req c id) (s.allowance req c a)
  else 0

/-- What it loses by its spent budget. -/
def costLoss (id : BackendId) : ℚ :=
  if s.costTerm req then
    (s.resolveScoringWeights a.selected).costWeight * s.costHinge req a id
  else 0

/-- The gain less the losses. -/
def balance (id : BackendId) : ℚ :=
  s.priceGain c a id - s.loadLoss req c a id - s.costLoss req a id

/-- The load that decides between backends of the same gain, if prices count. -/
def priceTieLoad (id : BackendId) : ℚ :=
  if s.priceTerm a then s.getCompositeBackendLoad c.now id else 0

/-- The cost pressure that decides between backends of the same balance, if costs count. -/
def costTiePressure (id : BackendId) : ℚ := if s.costTerm req then s.costPressure id else 0

/-- Of two backends the first is placed before the second: by its gain, else if it is the
anchor, else by load and id. -/
def PlacedBefore (id other : BackendId) : Prop :=
  s.priceGain c a other < s.priceGain c a id ∨
    s.priceGain c a id = s.priceGain c a other ∧
      (id = a.selected ∨ other ≠ a.selected ∧
        toLex (s.priceTieLoad c a id, id) < toLex (s.priceTieLoad c a other, other))

/-- The backend loses nothing, and is placed before the rest of the dispatch set. -/
structure Favoured (id : BackendId) : Prop where
  loadFree : s.loadLoss req c a id = 0
  costFree : s.costLoss req a id = 0
  placed : ∀ other ∈ s.dispatchIds a, other ≠ id → s.PlacedBefore c a id other

/-- Of two backends the first is dispatched to before the second: by its balance, else if
it is favoured or by cost pressure, load and id. -/
def Beats (id other : BackendId) : Prop :=
  s.balance req c a other < s.balance req c a id ∨
    s.balance req c a id = s.balance req c a other ∧
      (s.Favoured req c a id ∨
        toLex (s.costTiePressure req id, toLex ((s.dispatchLoad req c id : ℚ), id)) <
          toLex (s.costTiePressure req other, toLex ((s.dispatchLoad req c other : ℚ), other)))

variable {s req c a} {id other : BackendId}

theorem placementScore_of_miss (hmiss : a.artHit = false) (id : BackendId) :
    placementScore (s.scoreCandidate req c a id) (s.resolveScoringWeights a.selected) =
      s.priceGain c a id := by
  have haffinity : s.anchorAffinity a = 0 := by
    rw [anchorAffinity, hmiss]
    rfl
  simp only [placementScore, scoreCandidate, haffinity, ite_self, mul_zero, zero_add, priceGain]
  split
  · rfl
  · exact mul_zero _

theorem costPenalty_eq (id : BackendId) :
    costPenalty (s.resolveScoringWeights a.selected) (s.scoreCandidate req c a id) =
      s.costLoss req a id := by
  rw [costPenalty, costLoss, scoreCandidate]
  dsimp only
  split
  · rfl
  · exact mul_zero _

theorem dispatchScoreOf_of_miss (hmiss : a.artHit = false) (id : BackendId) :
    s.dispatchScoreOf req c a id = s.balance req c a id := by
  rw [dispatchScoreOf, dispatchScore, placementScore_of_miss hmiss, ← costPenalty, costPenalty_eq,
    balance, loadLoss]
  split
  · rfl
  · rw [sub_zero]

theorem placementRank_lt_iff (hmiss : a.artHit = false) (hne : other ≠ id) :
    s.placementRank req c a id < s.placementRank req c a other ↔ s.PlacedBefore c a id other := by
  rw [placementRank, placementRank, placementKey, placementKey, placementScore_of_miss hmiss,
    placementScore_of_miss hmiss, Prod.Lex.toLex_lt_toLex, neg_lt_neg_iff, neg_inj, PlacedBefore]
  refine or_congr_right (and_congr_right fun _ => ?_)
  rw [Prod.Lex.toLex_lt_toLex]
  simp only [scoreCandidate, priceTieLoad]
  by_cases hid : id = a.selected <;> by_cases hother : other = a.selected
  · exact absurd (hother.trans hid.symm) hne
  · simp [hid, hother]
  · simp [hid, hother]
  · simp [hid, hother]

/-- Being placed first, written out. -/
theorem placedFirst_iff_before (hmiss : a.artHit = false) (hid : id ∈ s.dispatchIds a) :
    s.PlacedFirst req c a id ↔
      ∀ other ∈ s.dispatchIds a, other ≠ id → s.PlacedBefore c a id other := by
  rw [PlacedFirst, and_iff_right hid]
  refine forall₂_congr fun other _ => ?_
  constructor
  · intro hle hne
    exact (placementRank_lt_iff hmiss hne).mp
      (lt_of_le_of_ne hle fun heq => hne (placementRank_injective heq).symm)
  · intro hbefore
    by_cases heq : other = id
    · rw [heq]
    · exact ((placementRank_lt_iff hmiss heq).mpr (hbefore heq)).le

theorem preferred_iff (hmiss : a.artHit = false) (hid : id ∈ s.dispatchIds a) :
    s.Preferred req c a id ↔ s.Favoured req c a id := by
  have hclean : isClean (s.resolveScoringWeights a.selected) (s.loadTerm a)
      (s.scoreCandidate req c a id) = true ↔
        s.loadLoss req c a id = 0 ∧ s.costLoss req a id = 0 := by
    rw [isClean, decide_eq_true_iff, costPenalty_eq]
    rfl
  rw [Preferred, placedFirst_iff_before hmiss hid, hclean]
  exact ⟨fun h => ⟨h.2.1, h.2.2, h.1⟩, fun h => ⟨h.placed, h.loadFree, h.costFree⟩⟩

/-- A backend of the dispatch set outranks another one unless that one beats it. -/
theorem not_outranks_iff (hmiss : a.artHit = false) (hother : other ∈ s.dispatchIds a)
    (hne : other ≠ id) : ¬s.Outranks req c a id other ↔ s.Beats req c a other id := by
  rw [Outranks, Beats, dispatchScoreOf_of_miss hmiss, dispatchScoreOf_of_miss hmiss,
    preferred_iff hmiss hother]
  -- the keys that break the tie differ, since the ids do
  have htie : ¬toLex (s.costTiePressure req id, toLex ((s.dispatchLoad req c id : ℚ), id)) <
      toLex (s.costTiePressure req other, toLex ((s.dispatchLoad req c other : ℚ), other)) ↔
        toLex (s.costTiePressure req other, toLex ((s.dispatchLoad req c other : ℚ), other)) <
          toLex (s.costTiePressure req id, toLex ((s.dispatchLoad req c id : ℚ), id)) := by
    rw [not_lt]
    refine ⟨fun hle => lt_of_le_of_ne hle fun heq => hne ?_, le_of_lt⟩
    exact congrArg (fun key => (ofLex (ofLex key).2).2) heq
  rw [← htie]
  change ¬(_ ∨ _ ∧ _ ∧ toLex (s.costTiePressure req id, toLex ((s.dispatchLoad req c id : ℚ), id)) <
    toLex (s.costTiePressure req other, toLex ((s.dispatchLoad req c other : ℚ), other))) ↔ _
  generalize (toLex (s.costTiePressure req id, toLex ((s.dispatchLoad req c id : ℚ), id)) <
    toLex (s.costTiePressure req other, toLex ((s.dispatchLoad req c other : ℚ), other))) = tie
  generalize s.Favoured req c a other = favoured
  rcases lt_trichotomy (s.balance req c a id) (s.balance req c a other) with hlt | heq | hlt
  · simp [hlt, hlt.not_gt, hlt.ne]
  · rw [heq]
    simp only [lt_irrefl, false_or, true_and]
    tauto
  · simp [hlt, hlt.not_gt, hlt.ne]

theorem priceGain_eq_zero (h : id = a.selected ∨ id = a.residencyCold) :
    s.priceGain c a id = 0 := by
  have hadvantage : s.priceAdvantage c a id = 0 := if_pos (h.imp_right .inl)
  rw [priceGain, hadvantage, mul_zero, ite_self]

/-- The cold backend is not placed: the anchor is another one, which keeps its seat against
it, or a cheaper backend takes the seat. -/
theorem not_seats_iff (hmiss : a.artHit = false) (ha : a.selected ∈ s.getLiveBackends) :
    ¬s.Seats req c a a.residencyCold ↔ a.selected ≠ a.residencyCold ∨
      s.termed req a = true ∧ ∃ other ∈ s.dispatchIds a, 0 < s.priceGain c a other := by
  have hanchor : a.selected ∈ s.dispatchIds a := List.mem_filter.mpr ⟨ha, by simp⟩
  have hcold : s.priceGain c a a.residencyCold = 0 := priceGain_eq_zero (.inr rfl)
  rw [Seats]
  cases htermed : s.termed req a with
  | false => simp
  | true =>
    rw [if_pos rfl, and_iff_right rfl]
    by_cases hne : a.selected = a.residencyCold
    · have hmem : a.residencyCold ∈ s.dispatchIds a := hne ▸ hanchor
      rw [placedFirst_iff_before hmiss hmem]
      simp only [PlacedBefore, hcold, hne, true_or, and_true]
      constructor
      · intro hnot
        push Not at hnot
        obtain ⟨other, hother, -, hle, hneq⟩ := hnot
        exact .inr ⟨other, hother, lt_of_le_of_ne hle hneq⟩
      · rintro (hself | ⟨other, hother, hpos⟩) hfirst
        · exact hself rfl
        · refine absurd (hfirst other hother ?_) (by simp [hpos.not_gt, hpos.ne])
          rintro rfl
          exact absurd hcold hpos.ne'
    · refine iff_of_true (fun hfirst => ?_) (.inl hne)
      have hbefore : s.PlacedBefore c a a.selected a.residencyCold :=
        .inr ⟨by rw [hcold, priceGain_eq_zero (.inl rfl)], .inl rfl⟩
      exact absurd ((placementRank_lt_iff hmiss (Ne.symm hne)).mpr hbefore)
        (not_lt.mpr (hfirst.2 _ hanchor))

end Terms

end Cold

variable (s) in
/-- The exclusion of the cold backend is void: its id is zero, which stands for "none",
and there is no decode pool to make the filter run. -/
def ExclusionVoid (cold : BackendId) : Prop :=
  cold = 0 ∧ ∀ id ∈ s.getLiveBackends, s.roleEligible id = true

theorem not_mem_missCandidates {cold : BackendId} (h : ¬s.ExclusionVoid cold) :
    cold ∉ (s.missCandidates cold).1 := by
  have hfilter : cold ≠ 0 ∨ (s.getLiveBackends.any fun id => !s.roleEligible id) = true := by
    by_contra hnot
    obtain ⟨hzero, hroles⟩ := not_or.mp hnot
    refine h ⟨not_not.mp hzero, fun id hid => ?_⟩
    by_contra hrole
    exact hroles (List.any_eq_true.mpr ⟨id, hid, by simpa using hrole⟩)
  rw [missCandidates]
  dsimp only
  rw [if_pos hfilter]
  split
  · exact fun hmem => by simpa using (List.mem_filter.mp hmem).2
  · exact fun hmem => by simpa using (List.mem_filter.mp hmem).2

section Downgrade

variable {cold : BackendId} (h : s.Downgraded req c cold)
include h

theorem Downgraded.artAnswer_eq :
    s.artAnswer req c =
      { residency := s.gossipedResidency c cold, residencyCold := cold } := by
  rw [artAnswer_of_live h.learned h.live, h.unvouched]
  dsimp only
  rw [if_pos ⟨⟨h.reported, h.below⟩, h.others⟩]

theorem Downgraded.anchor_eq :
    s.anchor req c =
      { selected := s.missSelect req c (s.missCandidates cold).1
        artHit := false
        residency := s.gossipedResidency c cold
        residencyCold := cold
        roleValve := (s.missCandidates cold).2 } := by
  rw [anchor_of_miss (by rw [h.artAnswer_eq]), h.artAnswer_eq]

theorem Downgraded.selected_mem :
    (s.anchor req c).selected ∈ (s.missCandidates cold).1 := by
  rw [h.anchor_eq]
  refine missSelect_mem fun hnil => ?_
  have hmany := h.others
  rw [(missCandidates_eq_nil (List.ne_nil_of_mem h.live) hnil).1] at hmany
  exact absurd hmany (lt_irrefl _)

end Downgrade

variable (s c) in
/-- What the scoring pass starts from when the hit on `cold` is downgraded and the miss
placement picks `home`. -/
def coldAnchor (cold home : BackendId) : Anchor where
  selected := home
  artHit := false
  residency := s.gossipedResidency c cold
  residencyCold := cold
  roleValve := (s.missCandidates cold).2

variable (s req c) in
/-- When the cold backend is avoided, for a miss that starts from `a`.

* It is not placed: its exclusion is in force, or the miss placement picks another
  backend, or a cheaper one takes its seat.
* It is not dispatched to: no load, cost or price counts, or it is not in the dispatch
  set, or another backend of that set beats it. -/
structure Spared (a : Anchor) (cold : BackendId) : Prop where
  seat : ¬s.ExclusionVoid cold ∨ a.selected ≠ cold ∨
    s.termed req a = true ∧ ∃ other ∈ s.dispatchIds a, 0 < s.priceGain c a other
  beaten : s.termed req a = false ∨ cold ∉ s.dispatchIds a ∨
    ∃ other ∈ s.dispatchIds a, other ≠ cold ∧ s.Beats req c a other cold

theorem not_dispatchedFirst_iff {a : Anchor} {cold : BackendId} (hmiss : a.artHit = false) :
    ¬s.DispatchedFirst req c a cold ↔ s.termed req a = false ∨ cold ∉ s.dispatchIds a ∨
      ∃ other ∈ s.dispatchIds a, other ≠ cold ∧ s.Beats req c a other cold := by
  constructor
  · intro hnot
    by_contra hall
    push Not at hall
    obtain ⟨htermed, hmem, hbeaten⟩ := hall
    refine hnot ⟨by simpa using htermed, hmem, fun other hother hne => ?_⟩
    by_contra houtranks
    exact hbeaten other hother hne ((not_outranks_iff hmiss hother hne).mp houtranks)
  · rintro (htermed | hmem | ⟨other, hother, hne, hbeats⟩) hfirst
    · rw [hfirst.isTermed] at htermed
      cases htermed
    · exact hmem hfirst.candidate
    · exact (not_outranks_iff hmiss hother hne).mpr hbeats (hfirst.first other hother hne)

/-- **The cold backend.** Take a request whose hit is downgraded, and let `home` be the
backend that the miss placement (the hash strategy's function, or the least loaded
placement) picks for it among the candidates. The request avoids the cache-cold backend,
in its placement and in its dispatch, exactly when the exclusion of the cold backend is in
force (or it loses its seat otherwise) and loads, costs and prices do not put it before the
rest of the dispatch set, in which it is a candidate like the others. -/
theorem cold_avoided_iff (s : ShardRouting) (req : RouteRequest) (c : Circumstances)
    {cold home : BackendId} (hlen : s.routingPrefixLen req ≠ 0) (h : s.Downgraded req c cold)
    (hhome : s.missSelect req c (s.missCandidates cold).1 = home) :
    (s.getBackendForPrefix req c).backendId ≠ some cold ∧
        (s.getBackendForPrefix req c).originalSelected ≠ cold ↔
      s.Spared req c (s.coldAnchor c cold home) cold := by
  have hanchor : s.anchor req c = s.coldAnchor c cold home := by
    rw [h.anchor_eq, hhome, coldAnchor]
  have hpass : s.getBackendForPrefix req c = s.scoringPass req c (s.coldAnchor c cold home) := by
    rw [getBackendForPrefix, ← hanchor]
    split
    · next hnil => exact absurd hnil (List.ne_nil_of_mem h.live)
    · rw [if_neg hlen]
  have hmem : home ∈ (s.missCandidates cold).1 := by
    have hselected := h.selected_mem
    rwa [hanchor] at hselected
  have hlive : home ∈ s.getLiveBackends := missCandidates_subset hmem
  -- an exclusion that is in force keeps the cold backend from being picked
  have hpicked : ¬s.ExclusionVoid cold → home ≠ cold := by
    rintro hvoid rfl
    exact not_mem_missCandidates hvoid hmem
  have hseats := @not_seats_iff s req c (s.coldAnchor c cold home) rfl hlive
  rw [hpass, scoringPass_avoids_iff rfl hlive, not_dispatchedFirst_iff rfl]
  constructor
  · rintro ⟨hseat, hbeaten⟩
    exact ⟨.inr (hseats.mp hseat), hbeaten⟩
  · rintro ⟨hvoid | hseat, hbeaten⟩
    · exact ⟨hseats.mpr (.inl (hpicked hvoid)), hbeaten⟩
    · exact ⟨hseats.mpr hseat, hbeaten⟩

theorem downgraded_unified :
    (unifiedAndDecode 1 (1 / 20)).Downgraded { tokens := [5] } (ordinary 0 0) 1 := by
  have hlive := getLiveBackends_unifiedAndDecode 1 (1 / 20)
  refine ⟨by decide +kernel, by rw [hlive]; decide, by decide +kernel, by decide +kernel,
    by decide +kernel, by rw [hlive]; decide⟩

theorem cold_avoided_unified :
    (unifiedAndDecode 1 (1 / 20)).Downgraded { tokens := [5] } (ordinary 0 0) 1 ∧
      ((unifiedAndDecode 1 (1 / 20)).getBackendForPrefix { tokens := [5] }
        (ordinary 0 0)).backendId ≠ some 1 ∧
      ((unifiedAndDecode 1 (1 / 20)).getBackendForPrefix { tokens := [5] }
        (ordinary 0 0)).originalSelected ≠ 1 := by
  have hhome : (unifiedAndDecode 1 (1 / 20)).missSelect { tokens := [5] } (ordinary 0 0)
      ((unifiedAndDecode 1 (1 / 20)).missCandidates 1).1 = 2 := by
    rw [missCandidates, getLiveBackends_unifiedAndDecode]
    decide +kernel
  refine ⟨downgraded_unified,
    (cold_avoided_iff _ _ _ (by decide) downgraded_unified hhome).mpr ⟨.inl ?_, .inl ?_⟩⟩
  · rintro ⟨hzero, -⟩
    exact absurd hzero (by decide)
  · rw [termed, priceTerm, getLiveBackends_unifiedAndDecode]
    decide

/-- Two unified backends, the second one with its cost budget spent; the route of the
token 5 learned for the first one, which is cold. -/
def coldAndSpent : ShardRouting :=
  { fleet [(1, { addr := 101 }), (2, { addr := 102, currentCostBudget := 10000 })] (by decide)
      { blockAlignment := ⟨1, Nat.one_pos⟩
        loadAwareRouting := false
        costRoutingEnabled := true } with
    kv := { emptyShard with
      tree := some ((RadixTree.create ⟨1, Nat.one_pos⟩ 0).insert 0 [5] 1 .LOCAL) }
    residencyCache := fun id => if id = 1 then some (1 / 20, 0) else none }

/-- The hit on the first backend is downgraded, the second one is placed, and its spent
budget sends the request back to the first. -/
theorem cold_dispatched_to :
    coldAndSpent.Downgraded { tokens := [5], estimatedCost := 1000 } (ordinary 0 0) 1 ∧
      (coldAndSpent.getBackendForPrefix { tokens := [5], estimatedCost := 1000 }
        (ordinary 0 0)).backendId = some 1 := by
  have hlive : coldAndSpent.getLiveBackends = [1, 2] := by
    rw [getLiveBackends_of_pairwise]
    · rfl
    · change List.Pairwise _ [1, 2]
      decide
  have hcold : coldAndSpent.Downgraded { tokens := [5], estimatedCost := 1000 } (ordinary 0 0) 1 :=
    ⟨by decide +kernel, by rw [hlive]; decide, by decide +kernel, by decide +kernel,
      by decide +kernel, by rw [hlive]; decide⟩
  have hmiss : coldAndSpent.missCandidates 1 = ([2], false) := by
    rw [missCandidates, hlive]
    decide
  have hanchor : coldAndSpent.anchor { tokens := [5], estimatedCost := 1000 } (ordinary 0 0) =
      { selected := 2, artHit := false, residency := 1 / 20, residencyCold := 1 } := by
    rw [hcold.anchor_eq, hmiss]
    decide +kernel
  have hids : coldAndSpent.dispatchIds
      { selected := 2, artHit := false, residency := 1 / 20, residencyCold := 1 } = [1, 2] := by
    rw [dispatchIds, hlive]
    decide
  have hplaced : ¬coldAndSpent.Seats { tokens := [5], estimatedCost := 1000 } (ordinary 0 0)
      { selected := 2, artHit := false, residency := 1 / 20, residencyCold := 1 } 1 := by
    exact (@not_seats_iff coldAndSpent _ _ ⟨2, false, 1 / 20, 1, false⟩ rfl
      (by rw [hlive]; decide)).mpr (.inl (by decide))
  have htermed : coldAndSpent.termed { tokens := [5], estimatedCost := 1000 }
      { selected := 2, artHit := false, residency := 1 / 20, residencyCold := 1 } = true := by
    decide
  rw [Seats, if_pos htermed] at hplaced
  refine ⟨hcold, ?_⟩
  rw [getBackendForPrefix, hlive, hanchor]
  dsimp only
  rw [if_neg (by decide), backendId_eq_iff rfl (by rw [hlive]; decide) htermed hplaced]
  refine ⟨htermed, by rw [hids]; decide, fun other hother hne => .inl ?_⟩
  rw [hids] at hother
  obtain rfl : other = 2 := by simpa [hne] using hother
  simp only [dispatchScoreOf, dispatchScore, scoreCandidate, costHinge, hids]
  decide +kernel

end ShardRouting

end Ranvier
