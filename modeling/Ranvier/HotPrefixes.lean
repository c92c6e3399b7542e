import Mathlib.Algebra.Group.Action.Defs
import Mathlib.Algebra.Order.BigOperators.Group.List
import Mathlib.Data.List.Sort
import Mathlib.Tactic.Ring
import Ranvier.StreamSummary

/-!
# Hot prefixes of all shards

Every shard summarises its own stream of prefixes in `K` slots. At the end of a window the
summaries are merged: the counts of each prefix are added up and the `K` largest sums stay. What
a shard does not track is lost to the merge, however often the shard has seen it.

* `mergeHotPrefixes` — the merge, with any sort that brings the counts into order;
* `mul_requestCount_le` — a prefix that is cut off has a small sum;
* `mergeHotPrefixes_retains` — the prefixes that are certain to be among the `K`.
-/

namespace Ranvier

/-! ## Sorting -/

/-- `std::sort` by a number, largest first. Elements with the same number come in any order. -/
structure DescendingSort {γ : Type} (number : γ → ℕ) : Type where
  sort : List γ → List γ
  perm : ∀ l, (sort l).Perm l
  descending : ∀ l, (sort l).Pairwise fun a b => number b ≤ number a

namespace DescendingSort

variable {γ : Type} {number : γ → ℕ}

/-- A stable one. -/
def stable : DescendingSort number where
  sort l := l.insertionSort fun a b => number b ≤ number a
  perm l := List.perm_insertionSort _ l
  descending l := by
    have htotal : Std.Total fun a b : γ => number b ≤ number a :=
      ⟨fun a b => Nat.le_total (number b) (number a)⟩
    have htrans : IsTrans γ fun a b => number b ≤ number a :=
      ⟨fun _ _ _ hab hbc => hbc.trans hab⟩
    exact List.pairwise_insertionSort _ l

/-- What does not come among the first `k` has `k` others before it. -/
theorem mul_number_le (s : DescendingSort number) {l : List γ} {a : γ} {k : ℕ} (ha : a ∈ l)
    (hcut : a ∉ (s.sort l).take k) : (k + 1) * number a ≤ (l.map number).sum := by
  have hsum : ((s.sort l).map number).sum = (l.map number).sum := ((s.perm l).map number).sum_eq
  have hmem : a ∈ s.sort l := (s.perm l).mem_iff.mpr ha
  have hdescending := s.descending l
  rw [← hsum]
  generalize s.sort l = sorted at hcut hmem hdescending
  rw [← List.take_append_drop k sorted] at hmem hdescending
  have hdrop : a ∈ sorted.drop k := (List.mem_append.mp hmem).resolve_left hcut
  have hbefore : ∀ b ∈ sorted.take k, number a ≤ number b :=
    fun b hb => (List.pairwise_append.mp hdescending).2.2 b hb a hdrop
  have hlength : (sorted.take k).length = k := by
    have hpos := List.length_pos_of_mem hdrop
    rw [List.length_drop] at hpos
    rw [List.length_take]
    omega
  have hfirst : k * number a ≤ ((sorted.take k).map number).sum := by
    have hcard := List.card_nsmul_le_sum ((sorted.take k).map number) (number a)
      (List.forall_mem_map.mpr hbefore)
    rwa [List.length_map, hlength, smul_eq_mul] at hcard
  have hlast : number a ≤ ((sorted.drop k).map number).sum :=
    List.le_sum_of_mem (List.mem_map_of_mem hdrop)
  calc (k + 1) * number a = k * number a + number a := by ring
    _ ≤ ((sorted.take k).map number).sum + ((sorted.drop k).map number).sum :=
      Nat.add_le_add hfirst hlast
    _ = (sorted.map number).sum := by
      rw [← List.sum_append, ← List.map_append, List.take_append_drop]

end DescendingSort

/-! ## The merge -/

/-- `HotPrefixEntry`. -/
structure HotPrefixEntry : Type where
  prefixFp : UInt64
  requestCount : ℕ
  deriving DecidableEq, Repr

/-- `HotPrefixWindow`. -/
structure HotPrefixWindow : Type where
  entries : List HotPrefixEntry
  totalTouches : ℕ
  deriving DecidableEq, Repr

/-- `MergedHotPrefixes`. -/
structure MergedHotPrefixes : Type where
  top : List HotPrefixEntry
  totalTouches : ℕ
  deriving DecidableEq, Repr

/-- `snapshot_hot_prefixes`: what it returns of the summary. -/
def snapshotHotPrefixes (sort : DescendingSort SummaryEntry.count) (s : StreamSummary) :
    HotPrefixWindow where
  entries := (sort.sort s.slots).map fun e => ⟨e.key, e.count⟩
  totalTouches := s.total

/-- `summed[e.prefix_fp] += e.request_count`. -/
def addCount (summed : KeyedMap UInt64 ℕ) (e : HotPrefixEntry) : KeyedMap UInt64 ℕ :=
  summed.set e.prefixFp ((summed.find e.prefixFp).getD 0 + e.requestCount)

/-- The sums, one per prefix. -/
def sumCounts (perShard : List HotPrefixWindow) : KeyedMap UInt64 ℕ :=
  perShard.foldl (fun summed w => w.entries.foldl addCount summed) {}

/-- `merge_hot_prefixes`. The order in which the map is iterated is up to the sort as well. -/
def mergeHotPrefixes (sort : DescendingSort HotPrefixEntry.requestCount)
    (perShard : List HotPrefixWindow) (k : ℕ) : MergedHotPrefixes where
  top := (sort.sort ((sumCounts perShard).entries.map fun e => ⟨e.1, e.2⟩)).take k
  totalTouches := perShard.foldl (fun total w => total + w.totalTouches) 0

/-! ## Sums -/

/-- The counts that some entries have for a prefix, together. -/
def countOf (fp : UInt64) (entries : List HotPrefixEntry) : ℕ :=
  ((entries.filter fun e => e.prefixFp = fp).map HotPrefixEntry.requestCount).sum

/-- The counts of some entries, together. -/
def requestCounts (entries : List HotPrefixEntry) : ℕ :=
  (entries.map HotPrefixEntry.requestCount).sum

theorem countOf_cons (fp : UInt64) (e : HotPrefixEntry) (entries : List HotPrefixEntry) :
    countOf fp (e :: entries) =
      (if e.prefixFp = fp then e.requestCount else 0) + countOf fp entries := by
  by_cases h : e.prefixFp = fp
  · simp [countOf, h]
  · simp [countOf, h]

theorem find_addCount (summed : KeyedMap UInt64 ℕ) (e : HotPrefixEntry) (fp : UInt64) :
    ((addCount summed e).find fp).getD 0 =
      (summed.find fp).getD 0 + if e.prefixFp = fp then e.requestCount else 0 := by
  rw [addCount, KeyedMap.find_set]
  by_cases h : fp = e.prefixFp
  · rw [if_pos h, if_pos h.symm, h, Option.getD_some]
  · rw [if_neg h, if_neg (Ne.symm h), Nat.add_zero]

theorem find_addCounts (entries : List HotPrefixEntry) (summed : KeyedMap UInt64 ℕ) (fp : UInt64) :
    ((entries.foldl addCount summed).find fp).getD 0 =
      (summed.find fp).getD 0 + countOf fp entries := by
  induction entries generalizing summed with
  | nil => simp [countOf]
  | cons e entries ih =>
    rw [List.foldl_cons, ih, find_addCount, countOf_cons]
    omega

/-- The sum of a prefix. -/
theorem find_sumCounts (perShard : List HotPrefixWindow) (fp : UInt64) :
    ((sumCounts perShard).find fp).getD 0 = (perShard.map fun w => countOf fp w.entries).sum := by
  have hfold : ∀ summed : KeyedMap UInt64 ℕ,
      ((perShard.foldl (fun summed w => w.entries.foldl addCount summed) summed).find fp).getD 0 =
        (summed.find fp).getD 0 + (perShard.map fun w => countOf fp w.entries).sum := by
    induction perShard with
    | nil => simp
    | cons w perShard ih =>
      intro summed
      rw [List.foldl_cons, ih, find_addCounts, List.map_cons, List.sum_cons]
      omega
  rw [sumCounts, hfold]
  exact Nat.zero_add _

theorem total_addCount (summed : KeyedMap UInt64 ℕ) (e : HotPrefixEntry) :
    (addCount summed e).total id = summed.total id + e.requestCount := by
  rw [addCount]
  cases h : summed.find e.prefixFp with
  | none =>
    rw [KeyedMap.total_set_new (KeyedMap.find_eq_none_iff.mp h), Option.getD_none, Nat.zero_add]
    rfl
  | some count =>
    have hset := KeyedMap.total_set (w := id) h (count + e.requestCount)
    rw [Option.getD_some]
    simp only [id_eq] at hset
    omega

theorem total_addCounts (entries : List HotPrefixEntry) (summed : KeyedMap UInt64 ℕ) :
    (entries.foldl addCount summed).total id = summed.total id + requestCounts entries := by
  induction entries generalizing summed with
  | nil => rfl
  | cons e entries ih =>
    rw [List.foldl_cons, ih, total_addCount, requestCounts, requestCounts, List.map_cons,
      List.sum_cons]
    omega

/-- All sums together. -/
theorem total_sumCounts (perShard : List HotPrefixWindow) :
    (sumCounts perShard).total id = (perShard.map fun w => requestCounts w.entries).sum := by
  have hfold : ∀ summed : KeyedMap UInt64 ℕ,
      (perShard.foldl (fun summed w => w.entries.foldl addCount summed) summed).total id =
        summed.total id + (perShard.map fun w => requestCounts w.entries).sum := by
    induction perShard with
    | nil => simp
    | cons w perShard ih =>
      intro summed
      rw [List.foldl_cons, ih, total_addCounts, List.map_cons, List.sum_cons]
      omega
  rw [sumCounts, hfold]
  exact Nat.zero_add _

theorem total_eq_sum (summed : KeyedMap UInt64 ℕ) :
    summed.total id = requestCounts (summed.entries.map fun e => ⟨e.1, e.2⟩) := by
  rw [KeyedMap.total]
  induction summed.entries with
  | nil => rfl
  | cons e entries ih =>
    rw [weightOf, ih]
    rfl

/-- **A prefix that is cut off.** Its sum, `k + 1` times, is at most all sums together. -/
theorem mul_requestCount_le {sort : DescendingSort HotPrefixEntry.requestCount}
    {perShard : List HotPrefixWindow} {k : ℕ} {fp : UInt64}
    (hcut : ∀ e ∈ (mergeHotPrefixes sort perShard k).top, e.prefixFp ≠ fp) :
    (k + 1) * (perShard.map fun w => countOf fp w.entries).sum ≤
      (perShard.map fun w => requestCounts w.entries).sum := by
  rw [← find_sumCounts, ← total_sumCounts, total_eq_sum]
  cases hfind : (sumCounts perShard).find fp with
  | none =>
    rw [Option.getD_none, Nat.mul_zero]
    exact Nat.zero_le _
  | some count =>
    have hmem : (⟨fp, count⟩ : HotPrefixEntry) ∈
        (sumCounts perShard).entries.map fun e => ⟨e.1, e.2⟩ :=
      List.mem_map.mpr ⟨(fp, count), KeyedMap.mem_of_find hfind, rfl⟩
    exact sort.mul_number_le hmem fun htop => hcut _ htop rfl

/-! ## The shards -/

/-- The hot prefixes of all shards, each of which has seen a stream of its own. -/
def hotPrefixes (sort : DescendingSort SummaryEntry.count)
    (sortMerged : DescendingSort HotPrefixEntry.requestCount) (k : ℕ)
    (streams : List (List UInt64)) : MergedHotPrefixes :=
  mergeHotPrefixes sortMerged
    (streams.map fun stream => snapshotHotPrefixes sort (StreamSummary.ofStream k stream)) k

/-- All touches. -/
def touches (streams : List (List UInt64)) : ℕ := (streams.map List.length).sum

/-- How often a prefix was touched. -/
def frequency (fp : UInt64) (streams : List (List UInt64)) : ℕ :=
  (streams.map fun stream => stream.count fp).sum

/-- The prefix has a slot in the summary of the stream. -/
def tracks (k : ℕ) (fp : UInt64) (stream : List UInt64) : Bool :=
  (StreamSummary.ofStream k stream).slots.any fun e => e.key = fp

/-- How often it was touched on the shards that track it. -/
def trackedFrequency (k : ℕ) (fp : UInt64) (streams : List (List UInt64)) : ℕ :=
  frequency fp (streams.filter (tracks k fp))

section Shard

variable {sort : DescendingSort SummaryEntry.count} {k : ℕ} {stream : List UInt64} {fp : UInt64}

theorem countSum_eq_sum (slots : List SummaryEntry) :
    countSum slots = (slots.map SummaryEntry.count).sum := by
  induction slots with
  | nil => rfl
  | cons e slots ih => rw [countSum, ih, List.map_cons, List.sum_cons]

/-- The counts of a shard sum to its touches. -/
theorem requestCounts_snapshot :
    requestCounts (snapshotHotPrefixes sort (StreamSummary.ofStream k stream)).entries =
      stream.length := by
  have hperm := (sort.perm (StreamSummary.ofStream k stream).slots).map SummaryEntry.count
  rw [← (ofStream_summarizes k stream).sum, countSum_eq_sum, ← hperm.sum_eq, requestCounts,
    snapshotHotPrefixes, List.map_map]
  rfl

/-- A count is never too small. -/
theorem count_le_countOf_snapshot (h : tracks k fp stream) :
    stream.count fp ≤
      countOf fp (snapshotHotPrefixes sort (StreamSummary.ofStream k stream)).entries := by
  obtain ⟨e, he, hkey⟩ := List.any_eq_true.mp h
  obtain rfl := of_decide_eq_true hkey
  refine ((ofStream_summarizes k stream).upper e he).trans (List.le_sum_of_mem ?_)
  have hentry : (⟨e.key, e.count⟩ : HotPrefixEntry) ∈
      (snapshotHotPrefixes sort (StreamSummary.ofStream k stream)).entries :=
    List.mem_map.mpr ⟨e, (sort.perm _).mem_iff.mpr he, rfl⟩
  exact List.mem_map.mpr ⟨_, List.mem_filter.mpr ⟨hentry, decide_eq_true rfl⟩, rfl⟩

/-- What a shard does not track is rare there. -/
theorem mul_count_le_of_not_tracks (hk : 1 ≤ k) (h : tracks k fp stream = false) :
    k * stream.count fp ≤ stream.length := by
  have hsummary := ofStream_summarizes k stream
  have hfind : (StreamSummary.ofStream k stream).index.find fp = none := by
    cases hfind : (StreamSummary.ofStream k stream).index.find fp with
    | none => rfl
    | some i =>
      obtain ⟨e, he, hkey⟩ := (hsummary.indexed fp i).mp hfind
      have hno := List.any_eq_false.mp h e (List.mem_of_getElem? he)
      exact absurd (decide_eq_true hkey) hno
  have hle := hsummary.mul_count_le hfind
  rwa [capacity_ofStream, if_neg (Nat.one_le_iff_ne_zero.mp hk), hsummary.total] at hle

end Shard

section Shards

variable {sort : DescendingSort SummaryEntry.count}
  {sortMerged : DescendingSort HotPrefixEntry.requestCount} {k : ℕ} {streams : List (List UInt64)}
  {fp : UInt64}

/-- The merge has at least the frequency on the shards that track the prefix. -/
theorem trackedFrequency_le :
    trackedFrequency k fp streams ≤ (streams.map fun stream =>
      countOf fp (snapshotHotPrefixes sort (StreamSummary.ofStream k stream)).entries).sum := by
  induction streams with
  | nil => exact Nat.le_refl 0
  | cons stream streams ih =>
    rw [List.map_cons, List.sum_cons]
    rw [trackedFrequency] at ih ⊢
    cases h : tracks k fp stream with
    | true =>
      rw [List.filter_cons_of_pos h, frequency, List.map_cons, List.sum_cons]
      exact Nat.add_le_add (count_le_countOf_snapshot h) ih
    | false =>
      rw [List.filter_cons_of_neg (by simp [h])]
      exact ih.trans (Nat.le_add_left _ _)

/-- The frequency, split by whether a shard tracks the prefix. -/
theorem mul_frequency_le (hk : 1 ≤ k) :
    k * frequency fp streams + trackedFrequency k fp streams ≤
      touches streams + k * trackedFrequency k fp streams := by
  induction streams with
  | nil => exact Nat.le_refl _
  | cons stream streams ih =>
    rw [trackedFrequency] at ih ⊢
    rw [frequency, touches, List.map_cons, List.map_cons, List.sum_cons, List.sum_cons, Nat.mul_add]
    rw [frequency, touches] at ih
    cases h : tracks k fp stream with
    | true =>
      have hcount : stream.count fp ≤ stream.length := List.count_le_length
      rw [List.filter_cons_of_pos h, frequency, List.map_cons, List.sum_cons, Nat.mul_add]
      rw [frequency] at ih
      omega
    | false =>
      have hrare := mul_count_le_of_not_tracks hk h
      rw [List.filter_cons_of_neg (by simp [h])]
      omega

theorem mem_top_of_trackedFrequency
    (h : touches streams < (k + 1) * trackedFrequency k fp streams) :
    ∃ e ∈ (hotPrefixes sort sortMerged k streams).top, e.prefixFp = fp := by
  by_contra hcut
  have hcut : ∀ e ∈ (hotPrefixes sort sortMerged k streams).top, e.prefixFp ≠ fp :=
    fun e he hfp => hcut ⟨e, he, hfp⟩
  have hle := mul_requestCount_le hcut
  rw [List.map_map, List.map_map] at hle
  have htotal : (streams.map fun stream => requestCounts
      (snapshotHotPrefixes sort (StreamSummary.ofStream k stream)).entries).sum =
      touches streams := by
    rw [touches, List.map_congr_left fun stream _ => requestCounts_snapshot]
  have hmul := Nat.mul_le_mul_left (k + 1) (@trackedFrequency_le sort k streams fp)
  exact absurd (h.trans_le (hmul.trans (hle.trans_eq htotal))) (Nat.lt_irrefl _)

/-- A prefix that is frequent enough is frequent on the shards that track it. -/
theorem lt_mul_trackedFrequency (hk : 1 ≤ k)
    (h : 2 * touches streams < (k + 1) * frequency fp streams) :
    touches streams < (k + 1) * trackedFrequency k fp streams := by
  obtain ⟨j, rfl⟩ := Nat.exists_eq_add_of_le' hk
  by_contra hnot
  have hrare : (j + 2) * trackedFrequency (j + 1) fp streams ≤ touches streams := Nat.not_lt.mp hnot
  have hsplit := @mul_frequency_le (j + 1) streams fp hk
  have hfrequency : (j + 1) * frequency fp streams ≤
      touches streams + j * trackedFrequency (j + 1) fp streams := by
    rw [Nat.succ_mul j (trackedFrequency (j + 1) fp streams)] at hsplit
    omega
  have hall : (j + 1) * ((j + 2) * frequency fp streams) ≤ (j + 1) * (2 * touches streams) :=
    calc (j + 1) * ((j + 2) * frequency fp streams)
        = (j + 2) * ((j + 1) * frequency fp streams) := by ring
      _ ≤ (j + 2) * (touches streams + j * trackedFrequency (j + 1) fp streams) :=
        Nat.mul_le_mul_left _ hfrequency
      _ = (j + 2) * touches streams + j * ((j + 2) * trackedFrequency (j + 1) fp streams) := by ring
      _ ≤ (j + 2) * touches streams + j * touches streams :=
        Nat.add_le_add_left (Nat.mul_le_mul_left j hrare) _
      _ = (j + 1) * (2 * touches streams) := by ring
  exact absurd h (Nat.not_lt.mpr (Nat.le_of_mul_le_mul_left hall (Nat.succ_pos j)))

/-- **What the merge retains.** For every number of slots, every number of shards and all streams:
a prefix is among the `k` of the merge if more than one touch in `k + 1` was a touch of it on a
shard that tracks it, and also if more than two touches in `k + 1` were touches of it anywhere. -/
theorem mergeHotPrefixes_retains (hk : 1 ≤ k)
    (h : touches streams < (k + 1) * trackedFrequency k fp streams ∨
      2 * touches streams < (k + 1) * frequency fp streams) :
    ∃ e ∈ (hotPrefixes sort sortMerged k streams).top, e.prefixFp = fp := by
  rcases h with htracked | hfrequent
  · exact mem_top_of_trackedFrequency htracked
  · exact mem_top_of_trackedFrequency (lt_mul_trackedFrequency hk hfrequent)

end Shards

/-- One of two shards has lost the prefix 1, which has five of seven touches. -/
theorem mergeHotPrefixes_retains_evicted :
    tracks 2 1 [1, 2, 3] = false ∧
      ∃ e ∈ (hotPrefixes .stable .stable 2 [[1, 1, 1, 1], [1, 2, 3]]).top, e.prefixFp = 1 :=
  ⟨by decide, mergeHotPrefixes_retains (by decide) (.inr (by decide))⟩

/-- More than half of the touches are of the prefix 1, and it is not among the two prefixes that
are left: the first shard has seen it three times and does not track it. -/
theorem halfOfTouches_cut :
    let streams : List (List UInt64) := [[1, 1, 1, 2, 2, 2, 3], [1, 1]]
    touches streams < 2 * frequency 1 streams ∧
      (hotPrefixes .stable .stable 2 streams).top = [⟨3, 4⟩, ⟨2, 3⟩] := by
  decide

end Ranvier
