import Ranvier.KeyedMap
import Ranvier.Scan

/-!
# The hot-prefix summary

`StreamSummary` counts the keys of a stream in a fixed number of slots. A key
without a slot takes over the slot with the smallest count, and that count becomes
the new entry's error bound. The 64-bit counters are taken unbounded.

`Summarizes s stream` is what every `touch` keeps. Its last field carries the
guarantee: a key without a slot has been seen at most as often as the smallest
count says, because the smallest count never goes down.
-/

namespace Ranvier

/-- `StreamSummary::Entry`. -/
structure SummaryEntry : Type where
  key : UInt64 := 0
  /-- upper bound on the key's true frequency -/
  count : ℕ := 0
  /-- how far the count may be too large -/
  error : ℕ := 0
  deriving DecidableEq, Repr

/-- The counts of the slots together. -/
def countSum : List SummaryEntry → ℕ
  | [] => 0
  | e :: slots => e.count + countSum slots

/-- `StreamSummary`. -/
structure StreamSummary : Type where
  capacity : ℕ
  total : ℕ := 0
  slots : List SummaryEntry := []
  /-- key to slot position -/
  index : KeyedMap UInt64 ℕ := {}

/-- `min_slot`. -/
def minSlot (slots : List SummaryEntry) : ℕ :=
  scanBest (fun i best => (slots.getD i {}).count < (slots.getD best {}).count) 0
    (List.range' 1 (slots.length - 1))

namespace StreamSummary

/-- The constructor: a capacity of zero is taken as one. -/
def create (capacity : ℕ) : StreamSummary where
  capacity := if capacity = 0 then 1 else capacity

/-- `touch`. -/
def touch (s : StreamSummary) (key : UInt64) : StreamSummary :=
  match s.index.find key with
  | some i =>
    { s with
      total := s.total + 1
      slots := s.slots.modify i fun e => { e with count := e.count + 1 } }
  | none =>
    if s.slots.length < s.capacity then
      { s with
        total := s.total + 1
        index := s.index.set key s.slots.length
        slots := s.slots ++ [⟨key, 1, 0⟩] }
    else
      let victim := minSlot s.slots
      { s with
        total := s.total + 1
        index := (s.index.erase (s.slots.getD victim {}).key).set key victim
        slots := s.slots.modify victim fun e => ⟨key, e.count + 1, e.count⟩ }

/-- The summary of a stream of keys. -/
def ofStream (capacity : ℕ) (stream : List UInt64) : StreamSummary :=
  stream.foldl touch (create capacity)

end StreamSummary

/-! ## Slots -/

theorem countSum_append_one (slots : List SummaryEntry) (e : SummaryEntry) :
    countSum (slots ++ [e]) = countSum slots + e.count := by
  induction slots with
  | nil => simp [countSum]
  | cons d slots ih =>
    rw [List.cons_append, countSum, countSum, ih]
    omega

theorem countSum_modify {slots : List SummaryEntry} {i : ℕ} {e : SummaryEntry}
    (h : slots[i]? = some e) (f : SummaryEntry → SummaryEntry) :
    countSum (slots.modify i f) + e.count = countSum slots + (f e).count := by
  induction slots generalizing i with
  | nil => cases h
  | cons d slots ih =>
    cases i with
    | zero =>
      obtain rfl := Option.some.inj h
      rw [List.modify_zero_cons, countSum, countSum]
      omega
    | succ i =>
      have hrest := ih h
      rw [List.modify_succ_cons, countSum, countSum]
      omega

/-- Where every count is at least `f`, there are at most `countSum / f` slots. -/
theorem length_mul_le_countSum {slots : List SummaryEntry} {f : ℕ}
    (h : ∀ e ∈ slots, f ≤ e.count) : slots.length * f ≤ countSum slots := by
  induction slots with
  | nil => simp [countSum]
  | cons d slots ih =>
    have hd := h d List.mem_cons_self
    have hrest := ih fun e he => h e (List.mem_cons_of_mem _ he)
    rw [List.length_cons, Nat.succ_mul, countSum]
    omega

/-- The victim of an eviction has the smallest count. -/
theorem minSlot_spec {slots : List SummaryEntry} (h : 0 < slots.length) :
    ∃ e, slots[minSlot slots]? = some e ∧ slots.getD (minSlot slots) {} = e ∧
      ∀ d ∈ slots, e.count ≤ d.count := by
  have hlt : minSlot slots < slots.length := scanBest_lt _ h fun _ => lt_of_mem_scanned
  have hget : slots[minSlot slots]? = some slots[minSlot slots] := List.getElem?_eq_getElem hlt
  have hgetD : slots.getD (minSlot slots) {} = slots[minSlot slots] := by
    rw [List.getD_eq_getElem?_getD, hget]
    rfl
  refine ⟨_, hget, hgetD, fun d hd => ?_⟩
  obtain ⟨j, hj, rfl⟩ := List.mem_iff_getElem.mp hd
  have hle := scanBest_key_le
    (fun i best => decide ((slots.getD i {}).count < (slots.getD best {}).count))
    (fun i => (slots.getD i {}).count) (fun _ _ => decide_eq_true_iff) 0 _ j (mem_scanned hj)
  rw [← hgetD]
  refine le_trans hle ?_
  rw [List.getD_eq_getElem?_getD, List.getElem?_eq_getElem hj]
  exact le_refl _

/-! ## What a touch keeps -/

/-- The summary `s` after the stream `stream`. -/
structure Summarizes (s : StreamSummary) (stream : List UInt64) : Prop where
  room : 0 < s.capacity
  bounded : s.slots.length ≤ s.capacity
  /-- the index finds exactly the slots -/
  indexed : ∀ k i, s.index.find k = some i ↔ ∃ e, s.slots[i]? = some e ∧ e.key = k
  total : s.total = stream.length
  sum : countSum s.slots = stream.length
  /-- a count is never too small … -/
  upper : ∀ e ∈ s.slots, stream.count e.key ≤ e.count
  /-- … and too large by the error at most -/
  lower : ∀ e ∈ s.slots, e.count ≤ stream.count e.key + e.error
  /-- while there is a free slot, a key without one has not been seen -/
  unseen : ∀ k, s.index.find k = none → s.slots.length < s.capacity → stream.count k = 0
  /-- a key without a slot has been seen at most as often as any count says -/
  missed : ∀ k, s.index.find k = none → ∀ e ∈ s.slots, stream.count k ≤ e.count

theorem create_summarizes (capacity : ℕ) : Summarizes (StreamSummary.create capacity) [] where
  room := by
    rw [StreamSummary.create]
    dsimp only
    split <;> omega
  bounded := Nat.zero_le _
  indexed k i := by
    constructor
    · intro h
      cases h
    · rintro ⟨e, he, -⟩
      cases he
  total := rfl
  sum := rfl
  upper e he := by cases he
  lower e he := by cases he
  unseen _ _ _ := rfl
  missed _ _ e he := by cases he

section Touch

variable {s : StreamSummary} {stream : List UInt64} {key : UInt64}

theorem count_snoc (stream : List UInt64) (key k : UInt64) :
    (stream ++ [key]).count k = stream.count k + if k = key then 1 else 0 := by
  by_cases hk : k = key
  · subst hk
    simp
  · simp [hk, Ne.symm hk]

/-- What stands in a slot after one slot was changed. -/
theorem mem_modify {slots : List SummaryEntry} {i : ℕ} {f : SummaryEntry → SummaryEntry}
    {d : SummaryEntry} (hd : d ∈ slots.modify i f) :
    (∃ e, slots[i]? = some e ∧ d = f e) ∨ ∃ j, j ≠ i ∧ slots[j]? = some d := by
  obtain ⟨j, hj⟩ := List.mem_iff_getElem?.mp hd
  rw [List.getElem?_modify] at hj
  obtain ⟨e, he, hed⟩ := Option.map_eq_some_iff.mp hj
  by_cases hij : i = j
  · rw [if_pos hij] at hed
    exact Or.inl ⟨e, hij ▸ he, hed.symm⟩
  · rw [if_neg hij] at hed
    subst hed
    exact Or.inr ⟨j, Ne.symm hij, he⟩

theorem Summarizes.find_of_getElem? (h : Summarizes s stream) {i : ℕ} {e : SummaryEntry}
    (he : s.slots[i]? = some e) : s.index.find e.key = some i :=
  (h.indexed _ _).mpr ⟨e, he, rfl⟩

theorem Summarizes.key_ne (h : Summarizes s stream) (hfind : s.index.find key = none) :
    ∀ d ∈ s.slots, d.key ≠ key := by
  intro d hd hkey
  obtain ⟨j, hj⟩ := List.mem_iff_getElem?.mp hd
  have hfound := h.find_of_getElem? hj
  rw [hkey, hfind] at hfound
  cases hfound

/-- The index finds exactly the slots. -/
def Indexes (index : KeyedMap UInt64 ℕ) (slots : List SummaryEntry) : Prop :=
  ∀ k i, index.find k = some i ↔ ∃ e, slots[i]? = some e ∧ e.key = k

/-- A new key in a new slot. -/
theorem Indexes.concat {index : KeyedMap UInt64 ℕ} {slots : List SummaryEntry}
    (h : Indexes index slots) {d : SummaryEntry} (hother : ∀ e ∈ slots, e.key ≠ d.key) :
    Indexes (index.set d.key slots.length) (slots ++ [d]) := by
  intro k j
  rw [KeyedMap.find_set]
  by_cases hk : k = d.key
  · subst hk
    rw [if_pos rfl, Option.some.injEq]
    constructor
    · rintro rfl
      exact ⟨_, List.getElem?_concat_length, rfl⟩
    · rintro ⟨e, he, hkey⟩
      -- the key has no other slot
      rcases Nat.lt_trichotomy j slots.length with hlt | heq | hgt
      · rw [List.getElem?_append_left hlt] at he
        exact absurd hkey (hother e (List.mem_of_getElem? he))
      · exact heq.symm
      · rw [List.getElem?_eq_none (by simp; omega)] at he
        cases he
  · rw [if_neg hk, h]
    constructor
    · rintro ⟨e, he, hkey⟩
      have hlt := (List.getElem?_eq_some_iff.mp he).1
      exact ⟨e, by rw [List.getElem?_append_left hlt]; exact he, hkey⟩
    · rintro ⟨e, he, hkey⟩
      rcases Nat.lt_or_ge j slots.length with hlt | hge
      · rw [List.getElem?_append_left hlt] at he
        exact ⟨e, he, hkey⟩
      · rw [List.getElem?_append_right hge] at he
        rw [List.mem_singleton.mp (List.mem_of_getElem? he)] at hkey
        exact absurd hkey.symm hk

/-- A slot that changes hands: its old key leaves the index and the new one enters. -/
theorem Indexes.takeOver {index : KeyedMap UInt64 ℕ} {slots : List SummaryEntry}
    (h : Indexes index slots) {v : ℕ} {e : SummaryEntry} (he : slots[v]? = some e)
    {f : SummaryEntry → SummaryEntry} (hkey : (f e).key = key)
    (hother : ∀ d ∈ slots, d.key ≠ key) :
    Indexes ((index.erase e.key).set key v) (slots.modify v f) := by
  intro k j
  rw [KeyedMap.find_set, KeyedMap.find_erase]
  by_cases hvj : v = j
  · subst hvj
    have hslot : (slots.modify v f)[v]? = some (f e) := by
      rw [List.getElem?_modify_eq, he]
      rfl
    rw [hslot]
    by_cases hk : k = key
    · rw [if_pos hk]
      exact iff_of_true rfl ⟨f e, rfl, hkey.trans hk.symm⟩
    · rw [if_neg hk]
      refine iff_of_false (fun hfound => ?_) ?_
      · split at hfound
        · cases hfound
        · next hne =>
          obtain ⟨e', he', rfl⟩ := (h _ _).mp hfound
          obtain rfl := Option.some.inj (he.symm.trans he')
          exact hne rfl
      · rintro ⟨e', he', rfl⟩
        obtain rfl := Option.some.inj he'
        exact hk hkey
  · rw [List.getElem?_modify_ne f slots hvj]
    by_cases hk : k = key
    · rw [if_pos hk, Option.some.injEq, hk]
      refine iff_of_false hvj ?_
      rintro ⟨d, hd, hdkey⟩
      exact hother d (List.mem_of_getElem? hd) hdkey
    · rw [if_neg hk, ← h]
      split
      · next hke =>
        have hfound := (h e.key v).mpr ⟨e, he, rfl⟩
        rw [hke, hfound, Option.some.injEq]
        exact iff_of_false (fun hnone => by cases hnone) hvj
      · rfl

/-- The next key of the stream goes to a slot: the counts of the others still fit, so only the
count of that slot has to be looked at. -/
theorem Summarizes.counts_modify (h : Summarizes s stream) {i : ℕ} {e : SummaryEntry}
    (he : s.slots[i]? = some e) {f : SummaryEntry → SummaryEntry} (hkey : (f e).key = key)
    (hother : ∀ {j : ℕ} {d : SummaryEntry}, j ≠ i → s.slots[j]? = some d → d.key ≠ key)
    (hupper : stream.count key + 1 ≤ (f e).count)
    (hlower : (f e).count ≤ stream.count key + 1 + (f e).error) :
    ∀ d ∈ s.slots.modify i f, (stream ++ [key]).count d.key ≤ d.count ∧
      d.count ≤ (stream ++ [key]).count d.key + d.error := by
  intro d hd
  rw [count_snoc]
  obtain ⟨e', he', rfl⟩ | ⟨j, hj, hd⟩ := mem_modify hd
  · obtain rfl := Option.some.inj (he.symm.trans he')
    rw [hkey, if_pos rfl]
    exact ⟨hupper, hlower⟩
  · rw [if_neg (hother hj hd)]
    have hmem := List.mem_of_getElem? hd
    exact ⟨h.upper d hmem, h.lower d hmem⟩

/-- A key that has a slot. -/
theorem Summarizes.touch_hit (h : Summarizes s stream) {i : ℕ}
    (hfind : s.index.find key = some i) : Summarizes (s.touch key) (stream ++ [key]) := by
  obtain ⟨e, he, rfl⟩ := (h.indexed _ _).mp hfind
  have htouch : s.touch e.key = { s with
      total := s.total + 1
      slots := s.slots.modify i fun e => { e with count := e.count + 1 } } := by
    rw [StreamSummary.touch, hfind]
  have hother : ∀ {j : ℕ} {d : SummaryEntry}, j ≠ i → s.slots[j]? = some d → d.key ≠ e.key := by
    intro j d hj hd hkey
    have hfound := h.find_of_getElem? hd
    rw [hkey, hfind] at hfound
    exact hj (Option.some.inj hfound).symm
  have hmem : e ∈ s.slots := List.mem_of_getElem? he
  have hcounts := h.counts_modify he (f := fun e => { e with count := e.count + 1 }) rfl hother
    (Nat.succ_le_succ (h.upper e hmem)) (by have := h.lower e hmem; dsimp only; omega)
  rw [htouch]
  exact
    { room := h.room
      bounded := by
        rw [List.length_modify]
        exact h.bounded
      indexed := by
        intro k j
        rw [h.indexed, List.getElem?_modify]
        by_cases hij : i = j
        · subst hij
          simp [he]
        · simp [hij]
      total := by rw [h.total, List.length_append, List.length_singleton]
      sum := by
        have hsum := countSum_modify he fun e => { e with count := e.count + 1 }
        have hold := h.sum
        rw [List.length_append, List.length_singleton]
        dsimp only at hsum ⊢
        omega
      upper := fun d hd => (hcounts d hd).1
      lower := fun d hd => (hcounts d hd).2
      unseen := by
        intro k hk hroom
        have hne : k ≠ e.key := by
          rintro rfl
          rw [hfind] at hk
          cases hk
        rw [List.length_modify] at hroom
        rw [count_snoc, if_neg hne, h.unseen k hk hroom]
      missed := by
        intro k hk d hd
        have hne : k ≠ e.key := by
          rintro rfl
          rw [hfind] at hk
          cases hk
        rw [count_snoc, if_neg hne]
        obtain ⟨e', he', rfl⟩ | ⟨j, -, hd⟩ := mem_modify hd
        · obtain rfl := Option.some.inj (he.symm.trans he')
          exact Nat.le_succ_of_le (h.missed k hk e hmem)
        · exact h.missed k hk d (List.mem_of_getElem? hd) }

/-- A new key while there is a free slot. -/
theorem Summarizes.touch_fill (h : Summarizes s stream) (hfind : s.index.find key = none)
    (hroom : s.slots.length < s.capacity) : Summarizes (s.touch key) (stream ++ [key]) := by
  have htouch : s.touch key = { s with
      total := s.total + 1
      index := s.index.set key s.slots.length
      slots := s.slots ++ [⟨key, 1, 0⟩] } := by
    rw [StreamSummary.touch, hfind]
    exact if_pos hroom
  have hother := h.key_ne hfind
  have hzero := h.unseen key hfind hroom
  have hkeep : ∀ {k : UInt64}, (s.index.set key s.slots.length).find k = none →
      k ≠ key ∧ s.index.find k = none := by
    intro k hk
    rw [KeyedMap.find_set] at hk
    split at hk
    · cases hk
    · next hne => exact ⟨hne, hk⟩
  rw [htouch]
  exact
    { room := h.room
      bounded := by
        rw [List.length_append, List.length_singleton]
        exact hroom
      indexed := Indexes.concat (d := ⟨key, 1, 0⟩) h.indexed hother
      total := by rw [h.total, List.length_append, List.length_singleton]
      sum := by
        rw [countSum_append_one, h.sum, List.length_append, List.length_singleton]
      upper := by
        intro d hd
        rw [count_snoc]
        rcases List.mem_append.mp hd with hd | hd
        · rw [if_neg (hother d hd)]
          exact h.upper d hd
        · rw [List.mem_singleton.mp hd]
          dsimp only
          rw [hzero, if_pos rfl]
      lower := by
        intro d hd
        rw [count_snoc]
        rcases List.mem_append.mp hd with hd | hd
        · rw [if_neg (hother d hd)]
          exact h.lower d hd
        · rw [List.mem_singleton.mp hd]
          dsimp only
          rw [hzero, if_pos rfl]
      unseen := by
        intro k hk _
        obtain ⟨hne, hold⟩ := hkeep hk
        rw [count_snoc, if_neg hne, h.unseen k hold hroom]
      missed := by
        intro k hk d _
        obtain ⟨hne, hold⟩ := hkeep hk
        rw [count_snoc, if_neg hne, h.unseen k hold hroom]
        exact Nat.zero_le _ }

/-- A new key while all slots are taken: the smallest count is taken over. -/
theorem Summarizes.touch_evict (h : Summarizes s stream) (hfind : s.index.find key = none)
    (hfull : ¬s.slots.length < s.capacity) : Summarizes (s.touch key) (stream ++ [key]) := by
  have hroom := h.room
  have hpos : 0 < s.slots.length := by omega
  obtain ⟨e, he, hgetD, hmin⟩ := minSlot_spec hpos
  generalize hv : minSlot s.slots = v at he hgetD
  have htouch : s.touch key = { s with
      total := s.total + 1
      index := (s.index.erase e.key).set key v
      slots := s.slots.modify v fun e => ⟨key, e.count + 1, e.count⟩ } := by
    rw [StreamSummary.touch, hfind, ← hgetD, ← hv]
    exact if_neg hfull
  have hmem : e ∈ s.slots := List.mem_of_getElem? he
  have hother := h.key_ne hfind
  -- the new key was missed so far, so the smallest count bounds its frequency
  have hseen := h.missed key hfind e hmem
  have hcounts := h.counts_modify he (f := fun e => ⟨key, e.count + 1, e.count⟩) rfl
    (fun _ hd => hother _ (List.mem_of_getElem? hd)) (Nat.succ_le_succ hseen) (by dsimp only; omega)
  have hkeep : ∀ {k : UInt64}, ((s.index.erase e.key).set key v).find k = none →
      k ≠ key ∧ stream.count k ≤ e.count := by
    intro k hk
    rw [KeyedMap.find_set, KeyedMap.find_erase] at hk
    split at hk
    · cases hk
    · next hne =>
      refine ⟨hne, ?_⟩
      split at hk
      · next heq =>
        rw [heq]
        exact h.upper e hmem
      · exact h.missed k hk e hmem
  rw [htouch]
  exact
    { room := h.room
      bounded := by
        rw [List.length_modify]
        exact h.bounded
      indexed := Indexes.takeOver h.indexed he rfl hother
      total := by rw [h.total, List.length_append, List.length_singleton]
      sum := by
        have hsum := countSum_modify he fun e => ⟨key, e.count + 1, e.count⟩
        have hold := h.sum
        rw [List.length_append, List.length_singleton]
        dsimp only at hsum ⊢
        omega
      upper := fun d hd => (hcounts d hd).1
      lower := fun d hd => (hcounts d hd).2
      unseen := by
        intro k _ hlt
        rw [List.length_modify] at hlt
        exact absurd hlt hfull
      missed := by
        intro k hk d hd
        obtain ⟨hne, hle⟩ := hkeep hk
        rw [count_snoc, if_neg hne]
        obtain ⟨e', he', rfl⟩ | ⟨j, -, hd⟩ := mem_modify hd
        · obtain rfl := Option.some.inj (he.symm.trans he')
          exact Nat.le_succ_of_le hle
        · exact le_trans hle (hmin d (List.mem_of_getElem? hd)) }

theorem Summarizes.touch (h : Summarizes s stream) (key : UInt64) :
    Summarizes (s.touch key) (stream ++ [key]) := by
  cases hfind : s.index.find key with
  | some i => exact h.touch_hit hfind
  | none =>
    by_cases hroom : s.slots.length < s.capacity
    · exact h.touch_fill hfind hroom
    · exact h.touch_evict hfind hroom

end Touch

theorem ofStream_summarizes (capacity : ℕ) (stream : List UInt64) :
    Summarizes (StreamSummary.ofStream capacity stream) stream := by
  induction stream using List.reverseRecOn with
  | nil => exact create_summarizes capacity
  | append_singleton stream key ih =>
    have hsnoc : StreamSummary.ofStream capacity (stream ++ [key]) =
        (StreamSummary.ofStream capacity stream).touch key := by
      rw [StreamSummary.ofStream, List.foldl_append]
      rfl
    rw [hsnoc]
    exact ih.touch key

/-! ## The guarantee -/

section Guarantee

variable {s : StreamSummary} {stream : List UInt64}

theorem Summarizes.nodup (h : Summarizes s stream) : (s.slots.map SummaryEntry.key).Nodup := by
  refine List.pairwise_map.mpr (List.pairwise_iff_getElem.mpr fun i j hi hj hij hkey => ?_)
  have hfi := h.find_of_getElem? (List.getElem?_eq_getElem hi)
  have hfj := h.find_of_getElem? (List.getElem?_eq_getElem hj)
  rw [hkey, hfj] at hfi
  have := Option.some.inj hfi
  omega

/-- A key without a slot has been seen in at most one touch of `capacity`. -/
theorem Summarizes.mul_count_le (h : Summarizes s stream) {key : UInt64}
    (hkey : s.index.find key = none) : s.capacity * stream.count key ≤ s.total := by
  have hbounded := h.bounded
  by_cases hroom : s.slots.length < s.capacity
  · rw [h.unseen key hkey hroom, Nat.mul_zero]
    exact Nat.zero_le _
  · -- all counts are at least the key's frequency, and they sum to the stream length
    have hle := length_mul_le_countSum (h.missed key hkey)
    have hlength : s.slots.length = s.capacity := by omega
    rwa [h.sum, ← h.total, hlength] at hle

/-- A key seen more often than `total / capacity` has a slot. -/
theorem Summarizes.retained (h : Summarizes s stream) {key : UInt64}
    (hkey : s.total / s.capacity < stream.count key) : ∃ e ∈ s.slots, e.key = key := by
  cases hfind : s.index.find key with
  | some i =>
    obtain ⟨e, he, hk⟩ := (h.indexed _ _).mp hfind
    exact ⟨e, List.mem_of_getElem? he, hk⟩
  | none =>
    have hle := h.mul_count_le hfind
    rw [Nat.mul_comm, ← Nat.le_div_iff_mul_le h.room] at hle
    exact absurd hkey (Nat.not_lt.mpr hle)

end Guarantee

theorem capacity_ofStream (capacity : ℕ) (stream : List UInt64) :
    (StreamSummary.ofStream capacity stream).capacity = if capacity = 0 then 1 else capacity := by
  induction stream using List.reverseRecOn with
  | nil => rfl
  | append_singleton stream key ih =>
    rw [StreamSummary.ofStream, List.foldl_append]
    refine Eq.trans ?_ ih
    rw [List.foldl_cons, List.foldl_nil, StreamSummary.touch]
    split
    · rfl
    · split <;> rfl

/-- **The summary.** After any stream, at most `capacity` distinct keys are tracked,
the counts sum to the stream length, a tracked key's frequency is between
`count - error` and `count`, and every key seen more often than `total / capacity`
is tracked. -/
theorem ofStream_contract (capacity : ℕ) (hcapacity : 1 ≤ capacity) (stream : List UInt64) :
    let s := StreamSummary.ofStream capacity stream
    s.slots.length ≤ capacity ∧ (s.slots.map SummaryEntry.key).Nodup ∧
      s.total = stream.length ∧ countSum s.slots = stream.length ∧
      (∀ e ∈ s.slots, e.count - e.error ≤ stream.count e.key ∧ stream.count e.key ≤ e.count) ∧
      ∀ key, s.total / capacity < stream.count key → ∃ e ∈ s.slots, e.key = key := by
  have h := ofStream_summarizes capacity stream
  have hcap : (StreamSummary.ofStream capacity stream).capacity = capacity := by
    rw [capacity_ofStream, if_neg (by omega)]
  have hbounded := h.bounded
  have hretained := fun key => @Summarizes.retained _ _ h key
  rw [hcap] at hbounded hretained
  refine ⟨hbounded, h.nodup, h.total, h.sum, fun e he => ⟨?_, h.upper e he⟩, hretained⟩
  have := h.lower e he
  omega

/-- Two slots, five touches: key 1 is evicted, key 2 is retained. -/
theorem ofStream_contract_evicting :
    let s := StreamSummary.ofStream 2 [1, 2, 2, 3, 2]
    s.slots = [⟨3, 2, 1⟩, ⟨2, 3, 0⟩] ∧ s.total / 2 < [1, 2, 2, 3, 2].count (2 : UInt64) ∧
      ∃ e ∈ s.slots, e.key = 2 := by
  have hkey : (StreamSummary.ofStream 2 [1, 2, 2, 3, 2]).total / 2 <
      [1, 2, 2, 3, 2].count (2 : UInt64) := by decide
  refine ⟨by decide, hkey, ?_⟩
  exact (ofStream_contract 2 (by decide) [1, 2, 2, 3, 2]).2.2.2.2.2 2 hkey

end Ranvier
