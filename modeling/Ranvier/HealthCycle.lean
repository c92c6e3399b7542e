import Mathlib.Algebra.Order.Field.Rat
import Mathlib.Logic.Function.Basic
import Ranvier.KeyedMap
import Ranvier.Run
import Ranvier.Types

/-!
# GPU load scores

The cycle of `HealthService::run_loop` as far as GPU load scores are concerned: it
scrapes the registered backends, stores what succeeded, and sends the scores of all
stored metrics to every shard, where `get_cached_gpu_load` trusts them for
`gpu_load_cache_ttl` after their arrival. Scrapes end in any order, each shard is
reached at a time of its own, and routing reads its shard's cache at any time.

Stored metrics survive a failed or suppressed scrape, and the cache only knows when
the last broadcast arrived. So a score is as fresh as the claim on it only if every
broadcast carries metrics of its own cycle (`Refreshed`).

* `gpu_scores_fresh` — in runs of such broadcasts every score that routing uses is at
  most a cycle older than the time-to-live;
* `stale_broadcast` — from any other broadcast on, a score can be used that is older.
-/

namespace Ranvier

/-- `VLLMMetrics`, as far as the load score reads it. -/
structure VLLMMetrics : Type where
  numRequestsRunning : ℕ := 0
  numRequestsWaiting : ℕ := 0
  gpuCacheUsagePercent : ℚ := 0
  scrapedAt : ℕ := 0
  valid : Bool := false
  deriving DecidableEq, Repr

/-- `effective_cache_pressure`. -/
def VLLMMetrics.effectiveCachePressure (m : VLLMMetrics) (compressionRatio : ℚ) : ℚ :=
  m.gpuCacheUsagePercent / max compressionRatio 1

/-- `load_score`; the request counts are 32-bit. -/
def VLLMMetrics.loadScore (m : VLLMMetrics) (compressionRatio : ℚ) : ℚ :=
  if m.valid then
    let queued : ℕ := (m.numRequestsRunning + m.numRequestsWaiting) % 2 ^ 32
    let slots : ℕ := (m.numRequestsRunning + 1) % 2 ^ 32
    let requestPressure : ℚ := if 0 < queued then (queued : ℚ) / slots else 0
    min (7 / 10 * min (requestPressure / 3) 1 +
      3 / 10 * m.effectiveCachePressure compressionRatio) 1
  else 0

/-- A broadcast score. The shards get the score only; the time of the scrape it stems
from is kept for the statements. -/
structure GpuScore : Type where
  score : ℚ
  scrapedAt : ℕ
  deriving DecidableEq, Repr

/-- `ShardLocalState::GpuLoadCache`. -/
structure GpuLoadCache : Type where
  scores : KeyedMap BackendId GpuScore := {}
  updatedAt : ℕ := 0

/-- `get_cached_gpu_load`; the code's `-1.0` is `none`. -/
def GpuLoadCache.getCachedGpuLoad (cache : GpuLoadCache) (ttl now : ℕ) (id : BackendId) :
    Option GpuScore :=
  if ttl < now - cache.updatedAt then none else cache.scores.find id

/-- `HealthService::MAX_TRACKED_BACKENDS` and `GpuLoadCache::MAX_ENTRIES`. -/
def maxTrackedBackends : ℕ := 256

/-- `SCRAPE_FAILURE_SUPPRESSION_THRESHOLD`. -/
def scrapeFailureSuppressionThreshold : ℕ := 3

/-- The loop of `broadcast_gpu_load` on a shard. -/
def fillScores (scores : List (BackendId × GpuScore)) : KeyedMap BackendId GpuScore :=
  scores.foldl (fun m e => if maxTrackedBackends ≤ m.size then m else m.set e.1 e.2) {}

/-- Where the loop is. -/
inductive CyclePhase : Type
  | sleeping
  /-- backends whose scrape has not started, and those being scraped -/
  | scraping (todo inflight : List BackendId)
  | broadcasting (scores : List (BackendId × GpuScore))
  deriving DecidableEq, Repr

/-- The health service and the caches of the shards, by shard number. -/
structure HealthRun : Type where
  enableVllmMetrics : Bool := true
  now : ℕ := 0
  phase : CyclePhase := .sleeping
  cycleStart : ℕ := 0
  metrics : KeyedMap BackendId VLLMMetrics := {}
  failures : KeyedMap BackendId ℕ := {}
  ratios : KeyedMap BackendId ℚ := {}
  caches : ℕ → GpuLoadCache := fun _ => {}
  /-- the successful scrapes so far -/
  scrapes : List (BackendId × ℕ) := []

inductive HealthAction : Type
  | tick (d : ℕ)
  /-- a cycle with the backends that have an address -/
  | beginCycle (ids : List BackendId)
  /-- `scrape_one_backend` up to its suspension -/
  | startScrape (id : BackendId) (isVllm : Bool)
  /-- its end, with what was scraped -/
  | endScrape (id : BackendId) (result : Option VLLMMetrics)
  /-- the scores are put together -/
  | broadcast
  /-- they reach a shard -/
  | arrive (shard : ℕ)
  | endBroadcast
  /-- `set_backend_compression_ratio` -/
  | setRatio (id : BackendId) (ratio : ℚ)
  deriving DecidableEq, Repr

namespace HealthRun

variable (s : HealthRun)

/-- `is_scrape_suppressed`. -/
def isScrapeSuppressed (id : BackendId) : Bool :=
  match s.failures.find id with
  | none => false
  | some count => scrapeFailureSuppressionThreshold ≤ count

/-- `record_scrape_failure`. -/
def recordScrapeFailure (id : BackendId) : HealthRun :=
  match s.failures.find id with
  | none =>
    if maxTrackedBackends ≤ s.failures.size then s
    else { s with failures := s.failures.set id 1 }
  | some count => { s with failures := s.failures.set id ((count + 1) % 2 ^ 32) }

/-- `record_scrape_success`. -/
def recordScrapeSuccess (id : BackendId) : HealthRun :=
  { s with failures := s.failures.erase id }

/-- `store_vllm_metrics`. -/
def storeVllmMetrics (id : BackendId) (m : VLLMMetrics) : HealthRun :=
  if maxTrackedBackends ≤ s.metrics.size ∧ id ∉ s.metrics.keys then s
  else { s with metrics := s.metrics.set id m }

/-- The failures of backends that are no longer registered are forgotten. -/
def pruneFailures (ids : List BackendId) : HealthRun :=
  { s with
    failures := (s.failures.keys.filter fun id => id ∉ ids).foldl KeyedMap.erase s.failures }

/-- The compression ratio the scores are computed with. -/
def ratioOf (id : BackendId) : ℚ := (s.ratios.find id).getD 1

/-- The scores of the stored metrics. -/
def loadScores : List (BackendId × GpuScore) :=
  (s.metrics.entries.filter fun e => e.2.valid).map fun e =>
    (e.1, ⟨e.2.loadScore (s.ratioOf e.1), e.2.scrapedAt⟩)

/-- One step. Until its broadcast has arrived, a cycle takes at most `cycle`. -/
def step (cycle : ℕ) : HealthAction → Option HealthRun
  | .tick d =>
    if s.phase = .sleeping ∨ s.now + d ≤ s.cycleStart + cycle then
      some { s with now := s.now + d }
    else none
  | .beginCycle ids =>
    if s.phase = .sleeping then
      if s.enableVllmMetrics then
        some { s.pruneFailures ids with cycleStart := s.now, phase := .scraping ids [] }
      else some s
    else none
  | .startScrape id isVllm =>
    match s.phase with
    | .scraping todo inflight =>
      if id ∈ todo then
        if isVllm = true ∧ s.isScrapeSuppressed id = false then
          some { s with phase := .scraping (todo.erase id) (id :: inflight) }
        else some { s with phase := .scraping (todo.erase id) inflight }
      else none
    | _ => none
  | .endScrape id result =>
    match s.phase with
    | .scraping todo inflight =>
      if id ∈ inflight then
        match result with
        | some m =>
          let m := { m with scrapedAt := s.now, valid := true }
          some { (s.storeVllmMetrics id m).recordScrapeSuccess id with
            phase := .scraping todo (inflight.erase id), scrapes := s.scrapes ++ [(id, s.now)] }
        | none =>
          some { s.recordScrapeFailure id with phase := .scraping todo (inflight.erase id) }
      else none
    | _ => none
  | .broadcast =>
    if s.phase = .scraping [] [] then
      some { s with
        phase := if s.loadScores = [] then .sleeping else .broadcasting s.loadScores }
    else none
  | .arrive shard =>
    match s.phase with
    | .broadcasting scores =>
      some { s with caches := Function.update s.caches shard ⟨fillScores scores, s.now⟩ }
    | _ => none
  | .endBroadcast =>
    match s.phase with
    | .broadcasting _ => some { s with phase := .sleeping }
    | _ => none
  | .setRatio id ratio =>
    if maxTrackedBackends ≤ s.ratios.size ∧ id ∉ s.ratios.keys then some s
    else some { s with ratios := s.ratios.set id (max ratio 1) }

/-! ## Freshness -/

/-- Every score that routing uses on any shard, whatever the time-to-live is, stems from
a scrape of that backend that ended at most `cycle` before the time-to-live. -/
def Fresh (cycle : ℕ) : Prop :=
  ∀ shard ttl id g, (s.caches shard).getCachedGpuLoad ttl s.now id = some g →
    (id, g.scrapedAt) ∈ s.scrapes ∧ s.now ≤ g.scrapedAt + ttl + cycle

/-- The condition on a broadcast: all metrics that are stored were scraped in its
cycle. -/
def Refreshed : HealthAction → Prop
  | .broadcast => ∀ e ∈ s.metrics.entries, e.2.valid = true → s.cycleStart ≤ e.2.scrapedAt
  | _ => True

instance instDecidableRefreshed : (a : HealthAction) → Decidable (s.Refreshed a)
  | .broadcast => inferInstanceAs
      (Decidable (∀ e ∈ s.metrics.entries, e.2.valid = true → s.cycleStart ≤ e.2.scrapedAt))
  | .tick _ => .isTrue trivial
  | .beginCycle _ => .isTrue trivial
  | .startScrape _ _ => .isTrue trivial
  | .endScrape _ _ => .isTrue trivial
  | .arrive _ => .isTrue trivial
  | .endBroadcast => .isTrue trivial
  | .setRatio _ _ => .isTrue trivial

end HealthRun

/-- What a shard keeps was broadcast. -/
theorem mem_of_find_fillScores {scores : List (BackendId × GpuScore)} {id : BackendId}
    {g : GpuScore} (h : (fillScores scores).find id = some g) : (id, g) ∈ scores := by
  induction scores using List.reverseRecOn with
  | nil => cases h
  | append_singleton scores e ih =>
    rw [fillScores, List.foldl_append] at h
    change KeyedMap.find (if maxTrackedBackends ≤ (fillScores scores).size then fillScores scores
      else (fillScores scores).set e.1 e.2) id = some g at h
    split at h
    · exact List.mem_append_left _ (ih h)
    · rw [KeyedMap.find_set] at h
      split at h
      · next heq =>
        obtain rfl := Option.some.inj h
        rw [heq]
        exact List.mem_append_right _ (List.mem_singleton_self e)
      · exact List.mem_append_left _ (ih h)

namespace HealthRun

variable {s s' : HealthRun} {cycle : ℕ} {refreshed : Prop}

/-- Where the metrics come from and, in a run of `refreshed` broadcasts, where the scores
do and how old those of the caches were when they arrived. -/
structure Timely (cycle : ℕ) (refreshed : Prop) (s : HealthRun) : Prop where
  stored : ∀ e ∈ s.metrics.entries, (e.1, e.2.scrapedAt) ∈ s.scrapes
  tracked : s.metrics.size ≤ maxTrackedBackends
  running : s.phase ≠ .sleeping → s.now ≤ s.cycleStart + cycle
  sent : refreshed → ∀ scores, s.phase = .broadcasting scores →
    ∀ e ∈ scores, (e.1, e.2.scrapedAt) ∈ s.scrapes ∧ s.cycleStart ≤ e.2.scrapedAt
  cached : refreshed → ∀ shard id g, (s.caches shard).scores.find id = some g →
    (id, g.scrapedAt) ∈ s.scrapes ∧ (s.caches shard).updatedAt ≤ g.scrapedAt + cycle

theorem Timely.fresh (h : Timely cycle True s) : s.Fresh cycle := by
  intro shard ttl id g hget
  rw [GpuLoadCache.getCachedGpuLoad] at hget
  split at hget
  · cases hget
  · next hage =>
    obtain ⟨hscraped, hupdated⟩ := h.cached trivial shard id g hget
    exact ⟨hscraped, by omega⟩

theorem timely_start (enabled : Bool) :
    Timely cycle refreshed { enableVllmMetrics := enabled } := by
  refine ⟨?_, Nat.zero_le _, ?_, ?_, ?_⟩
  · intro e he
    cases he
  · intro hphase
    exact absurd rfl hphase
  · intro _ scores hphase
    cases hphase
  · intro _ shard id g hfind
    cases hfind

/-- A recorded failure changes the failures only. -/
theorem recordScrapeFailure_eq (s : HealthRun) (id : BackendId) :
    ∃ failures, s.recordScrapeFailure id = { s with failures := failures } := by
  unfold recordScrapeFailure
  split
  · split
    · exact ⟨s.failures, rfl⟩
    · exact ⟨_, rfl⟩
  · exact ⟨_, rfl⟩

/-- Stored metrics are old ones or the new one. -/
theorem storeVllmMetrics_eq (s : HealthRun) (id : BackendId) (m : VLLMMetrics) :
    ∃ metrics, s.storeVllmMetrics id m = { s with metrics := metrics } ∧
      (∀ e ∈ metrics.entries, e ∈ s.metrics.entries ∨ e = (id, m)) ∧
      (s.metrics.size ≤ maxTrackedBackends → metrics.size ≤ maxTrackedBackends) := by
  unfold storeVllmMetrics
  split
  · exact ⟨s.metrics, rfl, fun e he => Or.inl he, fun hsize => hsize⟩
  next hroom =>
  refine ⟨_, rfl, fun e he => ?_, fun hsize => ?_⟩
  · have hfind := KeyedMap.find_of_mem he
    rw [KeyedMap.find_set] at hfind
    split at hfind
    · next heq =>
      obtain rfl : m = e.2 := Option.some.inj hfind
      exact Or.inr (by rw [← heq])
    · exact Or.inl (KeyedMap.mem_of_find hfind)
  · rw [KeyedMap.size_set]
    split
    · exact hsize
    · next hnew =>
      by_contra hlt
      exact hroom ⟨by omega, hnew⟩

/-- A step that keeps the caches and the time within the cycle. -/
theorem Timely.scraping (h : Timely cycle refreshed s) {todo inflight : List BackendId}
    (hphase : s.phase ≠ .sleeping) {metrics : KeyedMap BackendId VLLMMetrics}
    {failures : KeyedMap BackendId ℕ} {scrapes : List (BackendId × ℕ)}
    (hold : ∀ e ∈ s.scrapes, e ∈ scrapes)
    (hmetrics : ∀ e ∈ metrics.entries, (e.1, e.2.scrapedAt) ∈ scrapes)
    (hsize : metrics.size ≤ maxTrackedBackends) :
    Timely cycle refreshed
      { s with
        phase := .scraping todo inflight
        metrics := metrics
        failures := failures
        scrapes := scrapes } := by
  refine ⟨hmetrics, hsize, fun _ => h.running hphase, fun _ scores hscores => ?_,
    fun href shard id g hfind => ?_⟩
  · cases hscores
  · exact ⟨hold _ (h.cached href shard id g hfind).1, (h.cached href shard id g hfind).2⟩

theorem mem_loadScores {e : BackendId × GpuScore} :
    e ∈ s.loadScores ↔ ∃ m, (e.1, m) ∈ s.metrics.entries ∧ m.valid = true ∧
      e.2 = ⟨m.loadScore (s.ratioOf e.1), m.scrapedAt⟩ := by
  unfold loadScores
  constructor
  · intro he
    obtain ⟨x, hx, rfl⟩ := List.mem_map.mp he
    obtain ⟨hmem, hvalid⟩ := List.mem_filter.mp hx
    exact ⟨x.2, hmem, hvalid, rfl⟩
  · rintro ⟨m, hmem, hvalid, heq⟩
    refine List.mem_map.mpr ⟨(e.1, m), List.mem_filter.mpr ⟨hmem, hvalid⟩, ?_⟩
    rw [← heq]

/-- The scores are put together from metrics of this cycle. -/
theorem Timely.broadcast (h : Timely cycle refreshed s) (hphase : s.phase = .scraping [] [])
    (hrefreshed : refreshed → s.Refreshed .broadcast) :
    Timely cycle refreshed { s with
      phase := if s.loadScores = [] then .sleeping else .broadcasting s.loadScores } := by
  refine ⟨h.stored, h.tracked, fun _ => h.running (by rw [hphase]; simp),
    fun href scores hscores => ?_, h.cached⟩
  dsimp only at hscores
  split at hscores
  · cases hscores
  · obtain rfl := CyclePhase.broadcasting.inj hscores
    intro e he
    obtain ⟨m, hmem, hvalid, heq⟩ := mem_loadScores.mp he
    rw [heq]
    exact ⟨h.stored _ hmem, hrefreshed href _ hmem hvalid⟩

/-- What a scrape leaves, whether it answered or not. -/
theorem Timely.endScrape (h : Timely cycle refreshed s) {id : BackendId}
    {result : Option VLLMMetrics} (hstep : s.step cycle (.endScrape id result) = some s') :
    Timely cycle refreshed s' := by
  simp only [HealthRun.step] at hstep
  split at hstep
  · next todo inflight hphase =>
    have hne : s.phase ≠ .sleeping := by simp [hphase]
    split at hstep
    · split at hstep
      · next m =>
        obtain ⟨metrics, heq, hmem, hsize⟩ :=
          s.storeVllmMetrics_eq id { m with scrapedAt := s.now, valid := true }
        rw [heq] at hstep
        obtain rfl := Option.some.inj hstep
        refine h.scraping hne (fun e he => List.mem_append_left _ he) (fun e he => ?_)
          (hsize h.tracked)
        rcases hmem e he with hold | rfl
        · exact List.mem_append_left _ (h.stored e hold)
        · exact List.mem_append_right _ (List.mem_singleton_self _)
      · obtain ⟨failures, heq⟩ := s.recordScrapeFailure_eq id
        rw [heq] at hstep
        obtain rfl := Option.some.inj hstep
        exact h.scraping hne (fun e he => he) h.stored h.tracked
    · cases hstep
  · cases hstep

/-- A shard gets the scores, still within the cycle that they are of. -/
theorem Timely.arrive (h : Timely cycle refreshed s) {scores : List (BackendId × GpuScore)}
    (hphase : s.phase = .broadcasting scores) (shard : ℕ) :
    Timely cycle refreshed
      { s with caches := Function.update s.caches shard ⟨fillScores scores, s.now⟩ } := by
  refine ⟨h.stored, h.tracked, h.running, h.sent, fun href shard' id g hfind => ?_⟩
  dsimp only at hfind ⊢
  by_cases hshard : shard' = shard
  · rw [hshard, Function.update_self] at hfind ⊢
    obtain ⟨hscraped, hcycle⟩ := h.sent href scores hphase _ (mem_of_find_fillScores hfind)
    have hnow := h.running (by simp [hphase])
    refine ⟨hscraped, ?_⟩
    dsimp only at hcycle ⊢
    omega
  · rw [Function.update_of_ne hshard] at hfind ⊢
    exact h.cached href shard' id g hfind

theorem Timely.step (h : Timely cycle refreshed s) {a : HealthAction}
    (hrefreshed : refreshed → s.Refreshed a) (hstep : s.step cycle a = some s') :
    Timely cycle refreshed s' := by
  cases a with
  | tick d =>
    simp only [HealthRun.step] at hstep
    split at hstep
    · next hguard =>
      obtain rfl := Option.some.inj hstep
      refine ⟨h.stored, h.tracked, fun hphase => ?_, h.sent, h.cached⟩
      exact hguard.resolve_left hphase
    · cases hstep
  | beginCycle ids =>
    simp only [HealthRun.step] at hstep
    split at hstep
    · split at hstep
      · obtain rfl := Option.some.inj hstep
        refine ⟨h.stored, h.tracked, fun _ => Nat.le_add_right _ _, fun _ scores hscores => ?_,
          h.cached⟩
        cases hscores
      · obtain rfl := Option.some.inj hstep
        exact h
    · cases hstep
  | startScrape id isVllm =>
    simp only [HealthRun.step] at hstep
    split at hstep
    · next todo inflight hphase =>
      have hne : s.phase ≠ .sleeping := by simp [hphase]
      split at hstep
      · split at hstep
        · obtain rfl := Option.some.inj hstep
          exact h.scraping hne (fun e he => he) h.stored h.tracked
        · obtain rfl := Option.some.inj hstep
          exact h.scraping hne (fun e he => he) h.stored h.tracked
      · cases hstep
    · cases hstep
  | endScrape id result => exact h.endScrape hstep
  | broadcast =>
    simp only [HealthRun.step] at hstep
    split at hstep
    · next hphase =>
      obtain rfl := Option.some.inj hstep
      exact h.broadcast hphase hrefreshed
    · cases hstep
  | arrive shard =>
    simp only [HealthRun.step] at hstep
    split at hstep
    · next scores hphase =>
      obtain rfl := Option.some.inj hstep
      exact h.arrive hphase shard
    · cases hstep
  | endBroadcast =>
    simp only [HealthRun.step] at hstep
    split at hstep
    · obtain rfl := Option.some.inj hstep
      refine ⟨h.stored, h.tracked, fun hphase => absurd rfl hphase, fun _ scores hscores => ?_,
        h.cached⟩
      cases hscores
    · cases hstep
  | setRatio id ratio =>
    simp only [HealthRun.step] at hstep
    split at hstep
    · obtain rfl := Option.some.inj hstep
      exact h
    · obtain rfl := Option.some.inj hstep
      exact ⟨h.stored, h.tracked, h.running, h.sent, h.cached⟩

/-- What holds of every run, whatever it broadcasts. -/
theorem timely_run {enabled : Bool} {as : List HealthAction}
    (hrun : exec (HealthRun.step · cycle) { enableVllmMetrics := enabled } as = some s) :
    Timely cycle False s := by
  refine exec_induction (I := fun _ s => Timely cycle False s) ?_ (h := []) hrun
    (timely_start enabled)
  intro h s a s' hstep htimely
  exact htimely.step False.elim hstep

end HealthRun

/-! ## Broadcasts of older metrics -/

theorem fillScores_snoc (scores : List (BackendId × GpuScore)) (e : BackendId × GpuScore) :
    fillScores (scores ++ [e]) =
      if maxTrackedBackends ≤ (fillScores scores).size then fillScores scores
      else (fillScores scores).set e.1 e.2 := by
  rw [fillScores, List.foldl_append]
  rfl

theorem size_fillScores_le (scores : List (BackendId × GpuScore)) :
    (fillScores scores).size ≤ scores.length := by
  induction scores using List.reverseRecOn with
  | nil => exact Nat.zero_le _
  | append_singleton scores e ih =>
    rw [fillScores_snoc, List.length_append, List.length_singleton]
    split
    · omega
    · rw [KeyedMap.size_set]
      split <;> omega

/-- A shard keeps all of a broadcast that fits. -/
theorem find_fillScores {scores : List (BackendId × GpuScore)}
    (hnodup : (scores.map Prod.fst).Nodup) (hfits : scores.length ≤ maxTrackedBackends)
    {id : BackendId} {g : GpuScore} (hmem : (id, g) ∈ scores) :
    (fillScores scores).find id = some g := by
  induction scores using List.reverseRecOn with
  | nil => cases hmem
  | append_singleton scores e ih =>
    rw [List.length_append, List.length_singleton] at hfits
    rw [List.map_append, List.nodup_append] at hnodup
    have hroom : ¬maxTrackedBackends ≤ (fillScores scores).size := by
      have := size_fillScores_le scores
      omega
    rw [fillScores_snoc, if_neg hroom, KeyedMap.find_set]
    rcases List.mem_append.mp hmem with hold | hnew
    · have hne : id ≠ e.1 :=
        hnodup.2.2 id (List.mem_map.mpr ⟨_, hold, rfl⟩) e.1 (by simp)
      rw [if_neg hne]
      exact ih hnodup.1 (by omega) hold
    · rw [← List.mem_singleton.mp hnew, if_pos rfl]

namespace HealthRun

/-- From a broadcast of older metrics on, if the cycle takes as long as it may, a score
can be used that is older than the time-to-live and one cycle. -/
theorem stale_broadcast (h : Timely cycle refreshed s) (hphase : s.phase = .scraping [] [])
    (hstale : ¬s.Refreshed .broadcast) :
    ∃ as s', exec (HealthRun.step · cycle) s (.broadcast :: as) = some s' ∧ ¬s'.Fresh cycle := by
  simp only [Refreshed, not_forall] at hstale
  obtain ⟨⟨id, m⟩, hmem, hvalid, hlate⟩ := hstale
  let g : GpuScore := ⟨m.loadScore (s.ratioOf id), m.scrapedAt⟩
  have hsent : (id, g) ∈ s.loadScores := mem_loadScores.mpr ⟨m, hmem, hvalid, rfl⟩
  have hnow := h.running (by simp [hphase])
  have hnonempty : s.loadScores ≠ [] := List.ne_nil_of_mem hsent
  have hkeys : (s.loadScores.map Prod.fst).Nodup := by
    have hsub := (List.filter_sublist (p := fun e => e.2.valid) (l := s.metrics.entries)).map
      Prod.fst
    rw [loadScores, List.map_map]
    exact s.metrics.nodup.sublist hsub
  have hfits : s.loadScores.length ≤ maxTrackedBackends := by
    rw [loadScores, List.length_map]
    exact le_trans (List.length_filter_le _ _) h.tracked
  have hfound := find_fillScores hkeys hfits hsent
  refine ⟨[.tick (s.cycleStart + cycle - s.now), .arrive 0, .endBroadcast],
    { s with
      now := s.cycleStart + cycle
      phase := .sleeping
      caches := Function.update s.caches 0 ⟨fillScores s.loadScores, s.cycleStart + cycle⟩ },
    ?_, fun hfresh => ?_⟩
  · have htick : s.now + (s.cycleStart + cycle - s.now) = s.cycleStart + cycle := by omega
    simp [exec, HealthRun.step, hphase, hnonempty, htick]
  · obtain ⟨-, hle⟩ := hfresh 0 0 id g (by
      simp [GpuLoadCache.getCachedGpuLoad, hfound])
    dsimp only [g] at hle hlate
    omega

end HealthRun

/-- In every run of cycles of at most `cycle` in which each broadcast carries metrics of
its own cycle only, whatever scrapes fail: every score that routing uses stems from a
scrape of that backend that ended no longer ago than the time-to-live and one cycle. And
any other broadcast can be followed by the use of an older score. -/
theorem gpu_scores_fresh {cycle : ℕ} {enabled : Bool} {as : List HealthAction} {s : HealthRun}
    (hrun : exec (HealthRun.step · cycle) { enableVllmMetrics := enabled } as = some s) :
    (Meets (HealthRun.step · cycle) HealthRun.Refreshed { enableVllmMetrics := enabled } as →
      s.Fresh cycle) ∧
    (s.phase = .scraping [] [] → ¬s.Refreshed .broadcast →
      ∃ bs s', exec (HealthRun.step · cycle) { enableVllmMetrics := enabled }
        (as ++ .broadcast :: bs) = some s' ∧ ¬s'.Fresh cycle) := by
  constructor
  · intro hrefreshed
    refine HealthRun.Timely.fresh ?_
    refine exec_invariant (I := fun _ s => HealthRun.Timely cycle True s) ?_ (h := []) hrefreshed
      hrun (HealthRun.timely_start enabled)
    intro h s a s' hok hstep htimely
    exact htimely.step (fun _ => hok) hstep
  · intro hphase hstale
    obtain ⟨bs, s', hexec, hnot⟩ :=
      HealthRun.stale_broadcast (HealthRun.timely_run hrun) hphase hstale
    exact ⟨bs, s', (exec_append hrun).trans hexec, hnot⟩

/-- A cycle that scrapes backend 1 successfully one second after its start. -/
def scrapedCycle : List HealthAction :=
  [.beginCycle [1], .startScrape 1 true, .tick 1,
    .endScrape 1 (some { numRequestsRunning := 3, numRequestsWaiting := 5 }), .broadcast,
    .arrive 0, .endBroadcast, .tick 4]

/-- A cycle whose scrape of backend 1 fails. -/
def failedCycle : List HealthAction :=
  [.beginCycle [1], .startScrape 1 true, .endScrape 1 none, .broadcast, .arrive 0, .endBroadcast,
    .tick 5]

/-- A cycle that skips the scrape of backend 1. -/
def suppressedCycle : List HealthAction :=
  [.beginCycle [1], .startScrape 1 true, .broadcast, .arrive 0, .endBroadcast, .tick 5]

/-- The state after a run of cycles of five seconds. -/
def healthEnd (as : List HealthAction) : HealthRun :=
  (exec (HealthRun.step · 5) {} as).getD {}

theorem gpu_scores_fresh_scrapedCycle :
    (healthEnd (scrapedCycle ++ scrapedCycle)).Fresh 5 ∧
      ((healthEnd (scrapedCycle ++ scrapedCycle)).caches 0).getCachedGpuLoad 30 10 1 ≠ none := by
  have hsome : (exec (HealthRun.step · 5) {} (scrapedCycle ++ scrapedCycle)).isSome := by
    decide +kernel
  have hrun := exec_eq_some_getD hsome
  refine ⟨(@gpu_scores_fresh 5 true _ _ hrun).1 ?_, ?_⟩
  · decide +kernel
  · decide +kernel

/-- One successful scrape, three failures, then suppression. -/
def suppressedRun : List HealthAction :=
  scrapedCycle ++ failedCycle ++ failedCycle ++ failedCycle ++ suppressedCycle ++
    suppressedCycle ++ suppressedCycle ++ suppressedCycle ++ suppressedCycle

/-- With a time-to-live of 30 and cycles of five seconds, routing uses a score of a scrape
that ended 44 seconds ago. -/
theorem suppressed_score_used :
    (exec (HealthRun.step · 5) {} suppressedRun).isSome ∧
      ((healthEnd suppressedRun).caches 0).getCachedGpuLoad 30 (healthEnd suppressedRun).now 1 =
        some ⟨7 / 15, 1⟩ ∧
      (healthEnd suppressedRun).now = 45 ∧ ¬(healthEnd suppressedRun).Fresh 5 := by
  have hget : ((healthEnd suppressedRun).caches 0).getCachedGpuLoad 30
      (healthEnd suppressedRun).now 1 = some ⟨7 / 15, 1⟩ := by decide +kernel
  have hnow : (healthEnd suppressedRun).now = 45 := by decide +kernel
  refine ⟨by decide +kernel, hget, hnow, fun hfresh => ?_⟩
  obtain ⟨-, hle⟩ := hfresh 0 30 1 _ hget
  rw [hnow] at hle
  exact absurd hle (by decide)

end Ranvier
