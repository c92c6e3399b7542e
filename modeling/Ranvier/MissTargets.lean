import Ranvier.Availability

/-!
# Where a miss may go

Two exclusions meet when a request is no hit: the decode pools, which serve only
what is theirs by affinity, and the cache-cold backend of a downgraded hit. The
miss filter applies both, and its valve waives the first but not the second:
`decode_target` — a request goes to a decode pool by affinity, or when the live
backends of other roles are given up for cold.
-/

namespace Ranvier

namespace ShardRouting

variable {s : ShardRouting} {req : RouteRequest} {c : Circumstances}

/-! ## The dispatch set -/

/-- The ranks of the holders leave the ids alone. -/
theorem mem_rankHolders {holders : List BackendId} {cands : List ScoreCandidate}
    {cand : ScoreCandidate} (h : cand ∈ s.rankHolders c holders cands) :
    ∃ r ∈ cands, cand.id = r.id := by
  have hmarked : ∀ r ∈ markHolders holders cands, ∃ r' ∈ cands, r.id = r'.id := by
    intro r hr
    obtain ⟨r', hr', rfl⟩ := List.mem_map.mp hr
    refine ⟨r', hr', ?_⟩
    split <;> rfl
  rw [rankHolders] at h
  split at h
  · split at h
    · obtain ⟨i, hi, rfl⟩ := List.mem_mapIdx.mp h
      obtain ⟨r, hr, hid⟩ := hmarked _ (List.getElem_mem hi)
      refine ⟨r, hr, ?_⟩
      rw [← hid]
      split <;> rfl
    · obtain ⟨r', hr', rfl⟩ := List.mem_map.mp h
      obtain ⟨r, hr, hid⟩ := hmarked r' (List.mem_filter.mp hr').1
      refine ⟨r, hr, ?_⟩
      rw [← hid]
      split <;> rfl
  · exact hmarked cand h

/-- Every scored candidate is one of the dispatch set. -/
theorem id_mem_dispatchIds {a : Anchor} {cand : ScoreCandidate} (h : cand ∈ s.scored req c a) :
    cand.id ∈ s.dispatchIds a := by
  have hbase : ∀ r ∈ (s.dispatchIds a).map (s.scoreCandidate req c a), r.id ∈ s.dispatchIds a := by
    intro r hr
    obtain ⟨id, hid, rfl⟩ := List.mem_map.mp hr
    exact hid
  have hprobed : ∀ r ∈ withProbeRanks (s.requestHash req)
      ((s.dispatchIds a).map (s.scoreCandidate req c a)), r.id ∈ s.dispatchIds a := by
    intro r hr
    obtain ⟨i, hi, rfl⟩ := List.mem_mapIdx.mp hr
    have hid := hbase _ (List.getElem_mem hi)
    split
    · exact hid
    · exact hid
  rw [scored] at h
  dsimp only at h
  split at h
  · split at h
    · obtain ⟨probed, hmem, hid⟩ := mem_rankHolders h
      rw [hid]
      exact hprobed probed hmem
    · exact hprobed cand h
  · exact hbase cand h

theorem scored_of_miss {a : Anchor} (h : a.artHit = false) :
    s.scored req c a = (s.dispatchIds a).map (s.scoreCandidate req c a) := by
  rw [scored]
  dsimp only
  rw [if_neg]
  rintro ⟨-, -, hhit, -⟩
  rw [h] at hhit
  cases hhit

/-- The target is the anchor or one of the dispatch set. -/
theorem scoringPass_target {a : Anchor} (ha : a.selected ∈ s.getLiveBackends) {id : BackendId}
    (h : (s.scoringPass req c a).backendId = some id) :
    id = a.selected ∨ id ∈ s.dispatchIds a := by
  rw [scoringPass] at h
  dsimp only at h
  split at h
  · exact .inl (Option.some.inj h).symm
  · have hseated : s.Seated (s.scored req c a) := seated_scored ha
    have hne : s.scored req c a ≠ [] := by
      obtain ⟨cand, hcand, -⟩ := hseated.anchored
      exact List.ne_nil_of_mem hcand
    obtain rfl := Option.some.inj h
    exact .inr (id_mem_dispatchIds (getD_mem _ (scoreAndSelect_lt hne).2))

/-! ## Decode pools -/

/-- While the valve is closed, the candidates of a miss are of other roles. -/
theorem roleEligible_of_mem_missCandidates {cold id : BackendId}
    (hvalve : (s.missCandidates cold).2 = false) (h : id ∈ (s.missCandidates cold).1) :
    s.roleEligible id = true := by
  rw [missCandidates] at hvalve h
  dsimp only at hvalve h
  split at hvalve
  · next hfilter =>
    rw [if_pos hfilter] at h
    split at hvalve
    · cases hvalve
    · next hne =>
      rw [if_neg hne] at h
      have hkept := (List.mem_filter.mp h).2
      cases hrole : s.roleEligible id with
      | true => rfl
      | false =>
        have hany : (s.getLiveBackends.any fun id => !s.roleEligible id) = true :=
          List.any_eq_true.mpr ⟨id, (List.mem_filter.mp h).1, by rw [hrole]; rfl⟩
        simp [hany, hrole] at hkept
  · next hfilter =>
    rw [if_neg hfilter] at h
    cases hrole : s.roleEligible id with
    | true => rfl
    | false =>
      refine absurd (.inr ?_) hfilter
      exact List.any_eq_true.mpr ⟨id, h, by rw [hrole]; rfl⟩

/-- The valve opens when the live backends of other roles are given up for cold. -/
theorem eq_cold_of_roleValve {cold id : BackendId} (hvalve : (s.missCandidates cold).2 = true)
    (hid : id ∈ s.getLiveBackends) (hrole : s.roleEligible id = true) : id = cold := by
  rw [missCandidates] at hvalve
  dsimp only at hvalve
  split at hvalve
  · split at hvalve
    · next hnil =>
      by_contra hother
      refine List.ne_nil_of_mem (List.mem_filter.mpr ⟨hid, ?_⟩) hnil
      simp [hother, hrole]
    · cases hvalve
  · cases hvalve

/-- The valve opens whenever the filter leaves nothing. -/
theorem missCandidates_ne_nil {cold : BackendId} (hlive : s.getLiveBackends ≠ [])
    (hvalve : (s.missCandidates cold).2 = false) : (s.missCandidates cold).1 ≠ [] := by
  rw [missCandidates] at hvalve ⊢
  dsimp only at hvalve ⊢
  split at hvalve
  · next hfilter =>
    rw [if_pos hfilter]
    split at hvalve
    · cases hvalve
    · next hne =>
      rw [if_neg hne]
      exact hne
  · next hfilter =>
    rw [if_neg hfilter]
    exact hlive

theorem anchor_of_miss (h : (s.artAnswer req c).hit = none) :
    s.anchor req c =
      { selected :=
          s.missSelect req c (s.missCandidates (s.artAnswer req c).residencyCold).1
        artHit := false
        residency := (s.artAnswer req c).residency
        residencyCold := (s.artAnswer req c).residencyCold
        roleValve := (s.missCandidates (s.artAnswer req c).residencyCold).2 } := by
  rw [anchor, h]

/-- A miss goes to a decode pool only when the others are given up for cold. -/
theorem decode_target_of_miss {target : BackendId} (hlive : s.getLiveBackends ≠ [])
    (hhit : (s.artAnswer req c).hit = none)
    (htarget : (s.scoringPass req c (s.anchor req c)).backendId = some target)
    (hrole : s.roleEligible target = false) {other : BackendId}
    (hother : other ∈ s.getLiveBackends) (heligible : s.roleEligible other = true) :
    other = (s.artAnswer req c).residencyCold := by
  rw [anchor_of_miss hhit] at htarget
  cases hvalve : (s.missCandidates (s.artAnswer req c).residencyCold).2 with
  | true => exact eq_cold_of_roleValve hvalve hother heligible
  | false =>
    -- the anchor is a candidate, and beside it only other roles are in the dispatch set
    have hmem := @missSelect_mem s req c _ (missCandidates_ne_nil hlive hvalve)
    have hselected := roleEligible_of_mem_missCandidates hvalve hmem
    have hanswer : s.roleEligible target = true := by
      rcases scoringPass_target (missCandidates_subset hmem) htarget with heq | hid
      · rw [heq]
        exact hselected
      · have hkept := (List.mem_filter.mp hid).2
        rw [hvalve, Bool.or_false] at hkept
        rcases Bool.or_eq_true_iff.mp hkept with heq | heligible
        · rw [eq_of_beq heq]
          exact hselected
        · exact heligible
    rw [hrole] at hanswer
    cases hanswer

/-- A hit goes to a decode pool only when it is the learned backend. -/
theorem decode_target_of_hit {target hit : BackendId} (hhit : (s.artAnswer req c).hit = some hit)
    (hmem : hit ∈ s.getLiveBackends)
    (hserves : s.learnedBackend req c = some hit ∨ s.roleEligible hit = true)
    (htarget : (s.scoringPass req c (s.anchor req c)).backendId = some target)
    (hrole : s.roleEligible target = false) :
    s.learnedBackend req c = some target ∧ s.Live target := by
  have hanchor : s.anchor req c =
      { selected := hit, artHit := true, residency := (s.artAnswer req c).residency } := by
    rw [anchor, hhit]
  rw [hanchor] at htarget
  have heq : target = hit := by
    rcases scoringPass_target hmem htarget with heq | hid
    · exact heq
    · have hkept := (List.mem_filter.mp hid).2
      rw [hrole, Bool.or_false, Bool.or_false] at hkept
      exact eq_of_beq hkept
  rw [heq] at hrole ⊢
  rw [hrole] at hserves
  exact ⟨hserves.resolve_right (by decide), (s.mem_getLiveBackends.mp hmem).2⟩

/-- **Decode pools.** A request goes to a decode pool only if that is the live backend
of the matched route, or every live backend of another role is the cache-cold one of
a downgraded hit or has the id zero. -/
theorem decode_target (s : ShardRouting) (req : RouteRequest) (c : Circumstances)
    {target : BackendId} {info : BackendInfo}
    (htarget : (s.getBackendForPrefix req c).backendId = some target)
    (hinfo : s.backends target = some info) (hdecode : info.poolRole = .DECODE) :
    s.learnedBackend req c = some target ∧ s.Live target ∨
      ∀ other ∈ s.getLiveBackends, s.roleEligible other = true →
        other = 0 ∨ s.Downgraded req c other := by
  have hrole : s.roleEligible target = false := by
    rw [roleEligible, hinfo]
    simpa using hdecode
  rw [getBackendForPrefix] at htarget
  split at htarget
  · cases htarget
  · next first rest hlive =>
    have hne : s.getLiveBackends ≠ [] := by rw [hlive]; exact List.cons_ne_nil _ _
    split at htarget
    · -- nothing to route on: a decode pool is taken only when there is nothing else
      refine .inr fun other hother heligible => ?_
      rw [hlive] at hother
      obtain ⟨fallback, hfind⟩ := Option.isSome_iff_exists.mp
        (List.find?_isSome.mpr ⟨other, hother, heligible⟩)
      rw [hfind] at htarget
      obtain rfl := Option.some.inj htarget
      have hfallback := List.find?_some hfind
      rw [Option.getD_some] at hrole
      rw [hfallback] at hrole
      cases hrole
    · rcases @artAnswer_inv s req c with
        ⟨hart, -⟩ | ⟨hit, hhit, hmem, -, hserves⟩ | ⟨cold, hcold, hart⟩
      · refine .inr fun other hother heligible => .inl ?_
        have := decode_target_of_miss hne (by rw [hart]) htarget hrole hother heligible
        rw [this, hart]
      · exact .inl (decode_target_of_hit hhit hmem hserves htarget hrole)
      · refine .inr fun other hother heligible => .inr ?_
        have := decode_target_of_miss hne (by rw [hart]) htarget hrole hother heligible
        rw [hart] at this
        rw [this]
        exact hcold

/-- A unified backend 1 and a decode pool 2, the route of the token 5 learned for
`home`, whose residency is reported. -/
def unifiedAndDecode (home : BackendId) (residency : ℚ) : ShardRouting :=
  { fleet [(1, { addr := 101 }), (2, { addr := 102, poolRole := .DECODE })] (by decide)
      { blockAlignment := ⟨1, Nat.one_pos⟩, loadAwareRouting := false } with
    kv := { emptyShard with
      tree := some ((RadixTree.create ⟨1, Nat.one_pos⟩ 0).insert 0 [5] home .LOCAL) }
    residencyCache := fun id => if id = home then some (residency, 0) else none }

theorem getLiveBackends_unifiedAndDecode (home : BackendId) (residency : ℚ) :
    (unifiedAndDecode home residency).getLiveBackends = [1, 2] := by
  rw [getLiveBackends_of_pairwise]
  · rfl
  · change List.Pairwise _ [1, 2]
    decide

/-- With the route learned for the decode pool, the request goes there. -/
theorem decode_target_learned :
    ((unifiedAndDecode 2 1).getBackendForPrefix { tokens := [5] } (ordinary 0 0)).backendId =
        some 2 ∧
      ((unifiedAndDecode 2 1).learnedBackend { tokens := [5] } (ordinary 0 0) = some 2 ∧
          (unifiedAndDecode 2 1).Live 2 ∨
        ∀ other ∈ (unifiedAndDecode 2 1).getLiveBackends,
          (unifiedAndDecode 2 1).roleEligible other = true →
            other = 0 ∨
              (unifiedAndDecode 2 1).Downgraded { tokens := [5] } (ordinary 0 0) other) := by
  have hlive := getLiveBackends_unifiedAndDecode 2 1
  have hart := @artAnswer_of_live (unifiedAndDecode 2 1) { tokens := [5] } (ordinary 0 0) 2
    (by decide +kernel) (by rw [hlive]; decide)
  rw [hlive] at hart
  have htarget : ((unifiedAndDecode 2 1).getBackendForPrefix { tokens := [5] }
      (ordinary 0 0)).backendId = some 2 := by
    rw [getBackendForPrefix, hlive, anchor, hart]
    decide +kernel
  exact ⟨htarget, decode_target _ _ _ htarget rfl rfl⟩

/-- The hit on the unified backend is downgraded, and the decode pool is all that is
left: the request goes there although it is neither the matched backend nor a
holder, and a backend of another role is live. -/
theorem decode_target_for_cold :
    ((unifiedAndDecode 1 (1 / 20)).getBackendForPrefix { tokens := [5] } (ordinary 0 0)).backendId =
        some 2 ∧
      (unifiedAndDecode 1 (1 / 20)).roleEligible 2 = false ∧
      (unifiedAndDecode 1 (1 / 20)).learnedBackend { tokens := [5] } (ordinary 0 0) = some 1 ∧
      2 ∉ (unifiedAndDecode 1 (1 / 20)).requestHolders { tokens := [5] } (ordinary 0 0) 1 ∧
      1 ∈ (unifiedAndDecode 1 (1 / 20)).getLiveBackends ∧
      (unifiedAndDecode 1 (1 / 20)).roleEligible 1 = true := by
  have hlive := getLiveBackends_unifiedAndDecode 1 (1 / 20)
  have hart := @artAnswer_of_live (unifiedAndDecode 1 (1 / 20)) { tokens := [5] } (ordinary 0 0) 1
    (by decide +kernel) (by rw [hlive]; decide)
  rw [hlive] at hart
  refine ⟨?_, by decide +kernel, by decide +kernel, ?_, by rw [hlive]; decide, by decide +kernel⟩
  · rw [getBackendForPrefix, hlive, anchor, hart, missCandidates, hlive]
    decide +kernel
  · rw [requestHolders, hlive]
    decide +kernel

end ShardRouting

end Ranvier
