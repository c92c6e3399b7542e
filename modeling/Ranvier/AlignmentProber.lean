import Ranvier.AlignmentProbe
import Ranvier.KeyedMap
import Ranvier.Run

/-!
# The alignment prober

`alignment_prober.cpp`: once a health cycle, shard 0 drops what it knows of the backends that
left the registry and probes those whose verdict is not current, four at a time. A verdict that
changes is broadcast to every shard, where a misaligned backend is quarantined. A probe that
fails leaves the verdict as it is and is tried again 1, 2, 4 and then every 8 cycles later.

* `record`, `published`, `setNativeAlignmentLocal` — a probe's outcome, and what a shard is told;
* `step` — the prober and the shards, with probes that end in any order and broadcasts that reach
  the shards in any order;
* `summary` — what the history of a backend says about it;
* `prober_contract` — between cycles every shard shows the last verdict of every backend, and at
  any time one that was the last some time ago.

A probe's outcome and the state of the streams are inputs. The broadcasts are taken to succeed.
-/

namespace Ranvier

namespace AlignmentProber

open AlignmentProbe (Result Verdict)

/-! ## Verdicts on the shards -/

/-- `MAX_TRACKED_BACKENDS`. -/
def maxTrackedBackends : ℕ := 256

/-- `MAX_CONCURRENT_PROBES`. -/
def maxConcurrentProbes : ℕ := 4

/-- `MAX_BACKOFF_CYCLES`. -/
def maxBackoffCycles : ℕ := 8

/-- `NativeKvState::MAX_BACKENDS`. -/
def maxBackends : ℕ := 256

/-- `NativeAlignment`. -/
inductive NativeAlignment : Type where
  | PENDING
  | ALIGNED
  | MISALIGNED
  | UNSUPPORTED
  deriving DecidableEq, Repr

/-- `NativeAlignmentState`. -/
structure NativeAlignmentState : Type where
  verdict : NativeAlignment := .PENDING
  firstDivergence : ℕ := 0
  quarantined : Bool := false
  deriving DecidableEq, Repr

/-- The map `alignment` of a shard. -/
abbrev AlignmentMap : Type := KeyedMap BackendId NativeAlignmentState

/-- `set_native_alignment_local`. -/
def setNativeAlignmentLocal (m : AlignmentMap) (id : BackendId) (s : NativeAlignmentState) :
    AlignmentMap :=
  if s.verdict = .PENDING ∧ s.quarantined = false then m.erase id
  else if m.find id = none ∧ maxBackends ≤ m.size then m
  else m.set id s

/-- `native_alignment`. -/
def nativeAlignment (m : AlignmentMap) (id : BackendId) : NativeAlignmentState :=
  (m.find id).getD {}

/-! ## Outcomes -/

/-- `BackendState`. -/
structure BackendState : Type where
  hasVerdict : Bool := false
  epoch : ℕ := 0
  result : Result := {}
  consecutiveFailures : ℕ := 0
  nextAttemptCycle : ℕ := 0
  deriving DecidableEq, Repr

/-- The map `_state`. -/
abbrev StateMap : Type := KeyedMap BackendId BackendState

/-- `Candidate`, without its address. -/
structure Candidate : Type where
  id : BackendId
  epoch : ℕ
  deriving DecidableEq, Repr

/-- The wait after a number of failures in a row. -/
def backoff (failures : ℕ) : ℕ := min (2 ^ min (failures - 1) 3) maxBackoffCycles

/-- The entry of a backend after an outcome, and whether what the shards act on changed. -/
def BackendState.after (st : BackendState) (cycle : ℕ) (c : Candidate) (r : Result) :
    BackendState × Bool :=
  if r.verdict = .FAILED then
    ({ st with
        consecutiveFailures := st.consecutiveFailures + 1
        nextAttemptCycle := cycle + backoff (st.consecutiveFailures + 1) }, false)
  else
    ({ hasVerdict := true, epoch := c.epoch, result := r },
      !st.hasVerdict || st.result.verdict ≠ r.verdict ||
        st.result.firstDivergence ≠ r.firstDivergence)

/-- `record`; nothing if the backend is not tracked and no other can be. -/
def record (state : StateMap) (cycle : ℕ) (c : Candidate) (r : Result) :
    Option (StateMap × Bool) :=
  match state.find c.id with
  | none =>
    if maxTrackedBackends ≤ state.size then none
    else
      let out := BackendState.after {} cycle c r
      some (state.set c.id out.1, out.2)
  | some st =>
    let out := st.after cycle c r
    some (state.set c.id out.1, out.2)

/-- What a verdict is on the shards. -/
def shown (quarantine : Bool) : Option Result → NativeAlignmentState
  | none => {}
  | some r =>
    match r.verdict with
    | .ALIGNED => { verdict := .ALIGNED }
    | .MISALIGNED =>
      { verdict := .MISALIGNED
        firstDivergence := min r.firstDivergence (2 ^ 32 - 1)
        quarantined := quarantine }
    | .UNSUPPORTED => { verdict := .UNSUPPORTED }
    | .FAILED => {}

/-- The verdict held for a backend, if there is one. -/
def verdictOf (st : Option BackendState) : Option Result :=
  match st with
  | none => none
  | some st => if st.hasVerdict then some st.result else none

/-- What `publish` broadcasts. -/
def published (quarantine : Bool) (state : StateMap) (id : BackendId) : NativeAlignmentState :=
  shown quarantine (verdictOf (state.find id))

/-! ## Cycles -/

/-- `NativeStreamProbeState`. -/
structure Stream : Type where
  fresh : Bool
  completeEpoch : ℕ
  deriving DecidableEq, Repr

/-- A backend to be probed in this cycle. -/
def dueOf (state : StateMap) (cycle : ℕ) (streams : BackendId → Stream) (id : BackendId) :
    Option Candidate :=
  let stream := streams id
  if !stream.fresh then none
  else
    match state.find id with
    | none => some ⟨id, stream.completeEpoch⟩
    | some st =>
      if st.hasVerdict ∧ st.epoch = stream.completeEpoch ∧ st.consecutiveFailures = 0 then none
      else if 0 < st.consecutiveFailures ∧ cycle < st.nextAttemptCycle then none
      else some ⟨id, stream.completeEpoch⟩

/-- A broadcast and the shards it has yet to reach. -/
structure Publication (n : ℕ) : Type where
  id : BackendId
  value : NativeAlignmentState
  remaining : List (Fin n)

/-- How far `run_cycle` is. -/
inductive Phase : Type where
  | idle
  | clearing (backends : List BackendId)
  | probing (waiting inFlight : List Candidate)

/-- What happened to the entries of `_state`: an entry was dropped, or an outcome recorded, with
the cycle and the epoch of its probe. -/
inductive Event : Type where
  | pruned (id : BackendId)
  | recorded (id : BackendId) (cycle epoch : ℕ) (r : Result)

/-- The prober and the shards. The history, latest event first, is kept by the model. -/
structure System (n : ℕ) : Type where
  state : StateMap := {}
  cycle : ℕ := 0
  phase : Phase := .idle
  publishing : List (Publication n) := []
  shards : Fin n → AlignmentMap := fun _ => {}
  history : List Event := []

/-- What can happen. -/
inductive Action (n : ℕ) : Type where
  /-- `run_cycle` begins, with the registered backends -/
  | startCycle (backends : List BackendId)
  /-- a broadcast reaches a shard -/
  | deliver (k : ℕ) (shard : Fin n)
  /-- a broadcast has reached every shard -/
  | delivered (k : ℕ)
  /-- the due backends are collected; the router's own tokens may not be there -/
  | collectDue (streams : BackendId → Stream) (ready : Bool)
  | startProbe
  /-- a probe ends -/
  | finishProbe (k : ℕ) (r : Result)
  /-- `run_cycle` returns -/
  | endCycle

variable {n : ℕ}

/-- Shard 0 calls `set_native_alignment_global`. -/
def Publication.start (quarantine : Bool) (state : StateMap) (id : BackendId) : Publication n :=
  ⟨id, published quarantine state id, List.finRange n⟩

/-- The prober and the shards, step by step. The backends come from a map, so none is listed
twice. -/
def step (quarantine : Bool) (s : System n) : Action n → Option (System n)
  | .startCycle backends =>
    match s.phase with
    | .idle =>
      if backends.Nodup then
        let gone := s.state.keys.filter fun id => id ∉ backends
        let cleared := gone.filter fun id => (verdictOf (s.state.find id)).isSome
        let state := gone.foldl KeyedMap.erase s.state
        some { s with
          state := state
          cycle := s.cycle + 1
          phase := .clearing backends
          publishing := cleared.map (Publication.start quarantine state)
          history := gone.map .pruned ++ s.history }
      else none
    | _ => none
  | .deliver k shard =>
    match s.publishing[k]? with
    | none => none
    | some p =>
      if shard ∈ p.remaining then
        some { s with
          publishing := s.publishing.set k { p with remaining := p.remaining.erase shard }
          shards := Function.update s.shards shard
            (setNativeAlignmentLocal (s.shards shard) p.id p.value) }
      else none
  | .delivered k =>
    match s.publishing[k]? with
    | none => none
    | some p =>
      if p.remaining = [] then some { s with publishing := s.publishing.eraseIdx k } else none
  | .collectDue streams ready =>
    match s.phase, s.publishing with
    | .clearing backends, [] =>
      let due := backends.filterMap (dueOf s.state s.cycle streams)
      if due = [] ∨ ready = false then some { s with phase := .idle }
      else some { s with phase := .probing due [] }
    | _, _ => none
  | .startProbe =>
    match s.phase with
    | .probing (c :: waiting) inFlight =>
      if inFlight.length + s.publishing.length < maxConcurrentProbes then
        some { s with phase := .probing waiting (c :: inFlight) }
      else none
    | _ => none
  | .finishProbe k r =>
    match s.phase with
    | .probing waiting inFlight =>
      match inFlight[k]? with
      | none => none
      | some c =>
        let s := { s with phase := .probing waiting (inFlight.eraseIdx k) }
        match record s.state s.cycle c r with
        | none => some s
        | some (state, changed) =>
          some { s with
            state := state
            publishing :=
              if changed then Publication.start quarantine state c.id :: s.publishing
              else s.publishing
            history := .recorded c.id s.cycle c.epoch r :: s.history }
    | _ => none
  | .endCycle =>
    match s.phase, s.publishing with
    | .probing [] [], [] => some { s with phase := .idle }
    | _, _ => none

/-! ## What the history says -/

/-- What is known of a backend. -/
structure Summary : Type where
  /-- the last verdict -/
  verdict : Option Result := none
  /-- the epoch it is for -/
  epoch : ℕ := 0
  /-- the failures since -/
  failures : ℕ := 0
  /-- the cycle from which on the next probe may be made after a failure -/
  retryAt : ℕ := 0
  deriving DecidableEq, Repr

/-- The outcomes of a backend's probes since it was last dropped. -/
def summary (id : BackendId) : List Event → Summary
  | [] => {}
  | .pruned j :: h => if j = id then {} else summary id h
  | .recorded j cycle epoch r :: h =>
    if j = id then
      if r.verdict = .FAILED then
        { summary id h with
          failures := (summary id h).failures + 1
          retryAt := cycle + backoff ((summary id h).failures + 1) }
      else { verdict := some r, epoch := epoch }
    else summary id h

/-- The entry of a backend as a summary. -/
def BackendState.summary (st : BackendState) : Summary where
  verdict := if st.hasVerdict then some st.result else none
  epoch := st.epoch
  failures := st.consecutiveFailures
  retryAt := st.nextAttemptCycle

/-! ## The invariant -/

/-- A probe may be made: the wait after a failure is over, and the last verdict, if the backend
has not failed since, is for another epoch. -/
structure Due (cycle : ℕ) (known : Summary) (epoch : ℕ) : Prop where
  rested : 0 < known.failures → known.retryAt ≤ cycle
  renewed : known.failures = 0 → known.verdict ≠ none → known.epoch ≠ epoch

/-- Every probe in the history was due. -/
def AllDue : List Event → Prop
  | [] => True
  | .pruned _ :: h => AllDue h
  | .recorded id cycle epoch _ :: h => Due cycle (summary id h) epoch ∧ AllDue h

/-- The probes of the cycle that have not ended. -/
def Phase.candidates : Phase → List Candidate
  | .probing waiting inFlight => waiting ++ inFlight
  | _ => []

/-- The probes that run. -/
def Phase.inFlight : Phase → List Candidate
  | .probing _ inFlight => inFlight
  | _ => []

/-- The invariant of the prober and the shards. -/
structure Sound (quarantine : Bool) (s : System n) : Prop where
  /-- the entries say what the history says -/
  tracked : ∀ id, ((s.state.find id).map BackendState.summary).getD {} = summary id s.history
  bounded : s.state.size ≤ maxTrackedBackends
  due : ∀ c ∈ s.phase.candidates, Due s.cycle (summary c.id s.history) c.epoch
  allDue : AllDue s.history
  running : s.phase.inFlight.length + s.publishing.length ≤ maxConcurrentProbes ∨
    ∃ backends, s.phase = .clearing backends
  /-- a backend is probed or published once at a time -/
  distinct : (s.phase.candidates.map Candidate.id ++ s.publishing.map Publication.id).Nodup
  /-- nothing changes about a backend that is being published -/
  valued : ∀ p ∈ s.publishing, p.value = shown quarantine (summary p.id s.history).verdict
  /-- verdicts are not cleared and given at the same time -/
  apart : ((∃ backends, s.phase = .clearing backends) ∧ ∀ p ∈ s.publishing, p.value = {}) ∨
    ∀ p ∈ s.publishing, p.id ∈ s.state.keys
  idle : s.phase = .idle → s.publishing = []
  listed : ∀ backends, s.phase = .clearing backends → backends.Nodup
  /-- a shard that no broadcast is under way to is up to date -/
  shows : ∀ i id, (∀ p ∈ s.publishing, p.id = id → i ∉ p.remaining) →
    nativeAlignment (s.shards i) id = shown quarantine (summary id s.history).verdict
  /-- and any other one was -/
  past : ∀ i id, ∃ older, older <:+ s.history ∧
    nativeAlignment (s.shards i) id = shown quarantine (summary id older).verdict
  told : ∀ i id v, (s.shards i).find id = some v → v ≠ {}

/-! ## Lists and maps -/

theorem split_at_index {α : Type} {l : List α} {k : ℕ} {x : α} (h : l[k]? = some x) :
    ∃ front back, l = front ++ x :: back ∧ (∀ y, l.set k y = front ++ y :: back) ∧
      l.eraseIdx k = front ++ back := by
  obtain ⟨hk, rfl⟩ := List.getElem?_eq_some_iff.mp h
  refine ⟨l.take k, l.drop (k + 1), ?_, fun y => ?_, List.eraseIdx_eq_take_drop_succ l k⟩
  · rw [← List.drop_eq_getElem_cons hk, List.take_append_drop]
  · rw [List.set_eq_take_append_cons_drop, if_pos hk]

theorem find_foldl_erase {γ : Type} (ids : List BackendId) (m : KeyedMap BackendId γ)
    (b : BackendId) :
    (ids.foldl KeyedMap.erase m).find b = if b ∈ ids then none else m.find b := by
  induction ids generalizing m with
  | nil => simp
  | cons id ids ih =>
    rw [List.foldl_cons, ih, KeyedMap.find_erase]
    by_cases hb : b = id <;> simp [hb]

theorem size_foldl_erase {γ : Type} (ids : List BackendId) (m : KeyedMap BackendId γ) :
    (ids.foldl KeyedMap.erase m).size ≤ m.size := by
  induction ids generalizing m with
  | nil => exact le_rfl
  | cons id ids ih => exact (ih _).trans (KeyedMap.size_erase_le id)

/-! ## Verdicts -/

/-- A shard keeps no entry exactly for what is not known. -/
theorem shown_cases (quarantine : Bool) (v : Option Result) :
    shown quarantine v = {} ∨ (shown quarantine v).verdict ≠ .PENDING := by
  cases v with
  | none => exact .inl rfl
  | some r =>
    rw [shown]
    split
    · exact .inr nofun
    · exact .inr nofun
    · exact .inr nofun
    · exact .inl rfl

theorem setNativeAlignmentLocal_eq {m : AlignmentMap} {id : BackendId} {quarantine : Bool}
    {v : Option Result}
    (hroom : shown quarantine v = {} ∨ m.find id ≠ none ∨ m.size < maxBackends) :
    setNativeAlignmentLocal m id (shown quarantine v) =
      if shown quarantine v = {} then m.erase id else m.set id (shown quarantine v) := by
  rw [setNativeAlignmentLocal]
  rcases shown_cases quarantine v with hnone | hsome
  · rw [if_pos hnone, hnone, if_pos ⟨rfl, rfl⟩]
  · have hne : shown quarantine v ≠ {} := by
      intro h
      rw [h] at hsome
      exact hsome rfl
    rw [if_neg fun h => hsome h.1, if_neg, if_neg hne]
    rintro ⟨hfind, hfull⟩
    rcases hroom with hroom | hroom | hroom
    · exact hne hroom
    · exact hroom hfind
    · omega

theorem nativeAlignment_set {m : AlignmentMap} {id : BackendId} {quarantine : Bool}
    {v : Option Result}
    (hroom : shown quarantine v = {} ∨ m.find id ≠ none ∨ m.size < maxBackends) (b : BackendId) :
    nativeAlignment (setNativeAlignmentLocal m id (shown quarantine v)) b =
      if b = id then shown quarantine v else nativeAlignment m b := by
  rw [setNativeAlignmentLocal_eq hroom, nativeAlignment]
  by_cases hnone : shown quarantine v = {}
  · rw [if_pos hnone, KeyedMap.find_erase]
    split_ifs
    · exact hnone.symm
    · rfl
  · rw [if_neg hnone, KeyedMap.find_set]
    split_ifs
    · rfl
    · rfl

/-! ## What an outcome changes -/

theorem summary_pruned {id : BackendId} {gone : List BackendId} (h : List Event) :
    summary id (gone.map .pruned ++ h) = if id ∈ gone then {} else summary id h := by
  induction gone with
  | nil => simp
  | cons j gone ih =>
    rw [List.map_cons, List.cons_append, summary, ih]
    by_cases hj : j = id
    · simp [hj]
    · simp [hj, Ne.symm hj]

theorem summary_recorded_ne {id j : BackendId} (hj : j ≠ id) (cycle epoch : ℕ) (r : Result)
    (h : List Event) : summary id (.recorded j cycle epoch r :: h) = summary id h := by
  rw [summary, if_neg hj]

/-- The new entry is the new summary. -/
theorem after_summary {st : BackendState} {c : Candidate} {h : List Event}
    (hst : st.summary = summary c.id h) (cycle : ℕ) (r : Result) :
    (st.after cycle c r).1.summary = summary c.id (.recorded c.id cycle c.epoch r :: h) := by
  rw [summary, if_pos rfl, ← hst, BackendState.after]
  split_ifs
  · rfl
  · rfl

/-- If an outcome changes nothing for the shards, they show the same. -/
theorem after_unchanged {st : BackendState} {c : Candidate} {cycle : ℕ} {r : Result}
    (quarantine : Bool) (h : (st.after cycle c r).2 = false) :
    shown quarantine (st.after cycle c r).1.summary.verdict =
      shown quarantine st.summary.verdict := by
  rw [BackendState.after] at h ⊢
  split_ifs at h ⊢ with hfailed
  · rfl
  · simp only [Bool.or_eq_false_iff, Bool.not_eq_false', decide_eq_false_iff_not, not_not,
      ne_eq] at h
    obtain ⟨⟨hhas, hverdict⟩, hdiv⟩ := h
    simp only [BackendState.summary, hhas, if_true, shown, hverdict, hdiv]

/-- What `record` does, in terms of the entry. -/
theorem record_cases {state : StateMap} {cycle : ℕ} {c : Candidate} {r : Result}
    {state' : StateMap} {changed : Bool} (h : record state cycle c r = some (state', changed)) :
    ∃ st : BackendState, ((state.find c.id).map BackendState.summary).getD {} = st.summary ∧
      state' = state.set c.id (st.after cycle c r).1 ∧ changed = (st.after cycle c r).2 ∧
      (state.find c.id = none → state.size < maxTrackedBackends) := by
  rw [record] at h
  cases hfind : state.find c.id with
  | none =>
    rw [hfind] at h
    dsimp only at h
    split_ifs at h with hfull
    obtain ⟨rfl, rfl⟩ := Prod.mk.inj (Option.some.inj h)
    exact ⟨{}, rfl, rfl, rfl, fun _ => Nat.lt_of_not_le hfull⟩
  | some st =>
    rw [hfind] at h
    obtain ⟨rfl, rfl⟩ := Prod.mk.inj (Option.some.inj h)
    exact ⟨st, rfl, rfl, rfl, fun hnone => by cases hnone⟩

/-! ## Steps -/

section Steps

variable {quarantine : Bool} {s s' : System n}

theorem Sound.verdictOf_eq (hs : Sound quarantine s) (id : BackendId) :
    verdictOf (s.state.find id) = (summary id s.history).verdict := by
  rw [← hs.tracked]
  cases s.state.find id with
  | none => rfl
  | some st => rfl

/-- A backend with a verdict is tracked. -/
theorem Sound.mem_keys (hs : Sound quarantine s) {id : BackendId}
    (h : shown quarantine (summary id s.history).verdict ≠ {}) : id ∈ s.state.keys := by
  rw [← hs.verdictOf_eq] at h
  rw [← KeyedMap.find_isSome_iff]
  cases hfind : s.state.find id with
  | none =>
    rw [hfind] at h
    exact absurd rfl h
  | some st => rfl

theorem allDue_pruned {gone : List BackendId} {h : List Event} (hdue : AllDue h) :
    AllDue (gone.map .pruned ++ h) := by
  induction gone with
  | nil => exact hdue
  | cons id gone ih => exact ih

theorem sound_startCycle (hs : Sound quarantine s) {backends : List BackendId}
    (h : step quarantine s (.startCycle backends) = some s') : Sound quarantine s' := by
  rw [step] at h
  split at h
  case h_2 => cases h
  case h_1 hphase =>
  split_ifs at h with hnodup
  obtain rfl := Option.some.inj h
  have hnone := hs.idle hphase
  generalize hgone : (s.state.keys.filter fun id => id ∉ backends) = gone
  have hsub : gone.Sublist s.state.keys := hgone ▸ List.filter_sublist
  have hstart : ∀ p ∈ (gone.filter fun id => (verdictOf (s.state.find id)).isSome).map
      (Publication.start quarantine (gone.foldl KeyedMap.erase s.state) (n := n)),
      p.id ∈ gone ∧ p.value = {} := by
    intro p hp
    obtain ⟨id, hid, rfl⟩ := List.mem_map.mp hp
    have hmem := List.mem_of_mem_filter hid
    refine ⟨hmem, ?_⟩
    rw [Publication.start, published, find_foldl_erase, if_pos hmem]
    rfl
  exact {
    tracked := by
      intro id
      dsimp only
      rw [find_foldl_erase, summary_pruned]
      split_ifs
      · rfl
      · exact hs.tracked id
    bounded := (size_foldl_erase _ _).trans hs.bounded
    due := fun c hc => by cases hc
    allDue := allDue_pruned hs.allDue
    running := .inr ⟨_, rfl⟩
    distinct := by
      dsimp only [Phase.candidates]
      rw [List.map_nil, List.nil_append, List.map_map]
      exact (s.state.nodup.sublist hsub).filter _ |>.map fun _ _ h => h
    valued := by
      intro p hp
      obtain ⟨hid, hvalue⟩ := hstart p hp
      rw [hvalue, summary_pruned, if_pos hid]
      rfl
    apart := .inl ⟨⟨_, rfl⟩, fun p hp => (hstart p hp).2⟩
    idle := fun h => by cases h
    listed := by
      intro b hb
      cases hb
      exact hnodup
    shows := by
      intro i id hreached
      have hold := hs.shows i id fun p hp => by
        rw [hnone] at hp
        cases hp
      dsimp only
      rw [hold, summary_pruned]
      split_ifs with hid
      · -- a verdict that was dropped is being cleared
        cases hverdict : (summary id s.history).verdict with
        | none => rfl
        | some r =>
          rw [← hs.verdictOf_eq] at hverdict
          have hcleared : id ∈ gone.filter fun id => (verdictOf (s.state.find id)).isSome :=
            List.mem_filter.mpr ⟨hid, by rw [hverdict]; rfl⟩
          exact absurd (List.mem_finRange i)
            (hreached _ (List.mem_map_of_mem hcleared) rfl)
      · rfl
    past := by
      intro i id
      obtain ⟨older, holder, heq⟩ := hs.past i id
      exact ⟨older, holder.trans (List.suffix_append _ _), heq⟩
    told := hs.told }

/-- **A broadcast finds room**: a shard has no entry for a backend that is not tracked, unless
its verdict is being cleared. -/
theorem Sound.room (hs : Sound quarantine s) {p : Publication n} (hp : p ∈ s.publishing)
    (i : Fin n) : p.value = {} ∨ (s.shards i).find p.id ≠ none ∨
      (s.shards i).size < maxBackends := by
  rcases hs.apart with ⟨-, hcleared⟩ | hkept
  · exact .inl (hcleared p hp)
  refine .inr ?_
  by_cases hfind : (s.shards i).find p.id = none
  · refine .inr ?_
    have hsub : (s.shards i).keys ⊆ s.state.keys.erase p.id := by
      intro id hid
      have hne : id ≠ p.id := by
        rintro rfl
        exact KeyedMap.find_eq_none_iff.mp hfind hid
      refine (List.mem_erase_of_ne hne).mpr ?_
      by_cases hreached : ∀ p' ∈ s.publishing, p'.id = id → i ∉ p'.remaining
      · apply hs.mem_keys
        rw [← hs.shows i id hreached, nativeAlignment]
        obtain ⟨v, hv⟩ := Option.isSome_iff_exists.mp (KeyedMap.find_isSome_iff.mpr hid)
        rw [hv]
        exact hs.told i id v hv
      · push Not at hreached
        obtain ⟨p', hp', rfl, -⟩ := hreached
        exact hkept p' hp'
    have hle := ((s.shards i).nodup.subperm hsub).length_le
    have hpos : 0 < s.state.keys.length := List.length_pos_of_mem (hkept p hp)
    have hbound := hs.bounded
    have hmax : maxTrackedBackends = maxBackends := rfl
    rw [List.length_erase_of_mem (hkept p hp)] at hle
    rw [KeyedMap.length_keys] at hpos hle
    have hkeys : (keysOf (s.shards i).entries).length = (s.shards i).size :=
      KeyedMap.length_keys _
    omega
  · exact .inl hfind

section Deliver

variable {p : Publication n} {front back : List (Publication n)} {i : Fin n}

/-- A broadcast of the new list is one of the old, perhaps with more shards to reach. -/
theorem mem_delivered {p' : Publication n}
    (hp' : p' ∈ front ++ { p with remaining := p.remaining.erase i } :: back) :
    ∃ p'' ∈ front ++ p :: back, p''.id = p'.id ∧ p''.value = p'.value := by
  rcases List.mem_append.mp hp' with hmem | hmem
  · exact ⟨p', List.mem_append_left _ hmem, rfl, rfl⟩
  · rcases List.mem_cons.mp hmem with rfl | hmem
    · exact ⟨p, List.mem_append_right _ (List.mem_cons_self ..), rfl, rfl⟩
    · exact ⟨p', List.mem_append_right _ (List.mem_cons_of_mem _ hmem), rfl, rfl⟩

/-- No broadcast is under way to a shard if none is after another delivery. -/
theorem reached_of_delivered {j : Fin n} {id : BackendId} (hji : ¬(j = i ∧ id = p.id))
    (hreached : ∀ p' ∈ front ++ { p with remaining := p.remaining.erase i } :: back,
      p'.id = id → j ∉ p'.remaining) :
    ∀ p' ∈ front ++ p :: back, p'.id = id → j ∉ p'.remaining := by
  intro p' hp' hid
  rcases List.mem_append.mp hp' with hmem | hmem
  · exact hreached p' (List.mem_append_left _ hmem) hid
  · rcases List.mem_cons.mp hmem with rfl | hmem
    · have hne : j ≠ i := fun hj => hji ⟨hj, hid.symm⟩
      have hout := hreached _ (List.mem_append_right _ (List.mem_cons_self ..)) hid
      exact fun hin => hout ((List.mem_erase_of_ne hne).mpr hin)
    · exact hreached p' (List.mem_append_right _ (List.mem_cons_of_mem _ hmem)) hid

variable {shards : Fin n → AlignmentMap} {id : BackendId} {value : NativeAlignmentState}
  {v : Option Result}

/-- What the shards show behind a delivery. -/
theorem nativeAlignment_deliver (hvalue : value = shown quarantine v)
    (hroom : value = {} ∨ (shards i).find id ≠ none ∨ (shards i).size < maxBackends)
    (j : Fin n) (b : BackendId) :
    nativeAlignment (Function.update shards i (setNativeAlignmentLocal (shards i) id value) j) b =
      if j = i ∧ b = id then value else nativeAlignment (shards j) b := by
  subst hvalue
  by_cases hj : j = i
  · subst hj
    rw [Function.update_self, nativeAlignment_set hroom]
    simp only [true_and]
  · rw [Function.update_of_ne hj, if_neg fun h => hj h.1]

/-- A delivery leaves no entry that says nothing. -/
theorem told_deliver (htold : ∀ j b w, (shards j).find b = some w → w ≠ {})
    (hvalue : value = shown quarantine v)
    (hroom : value = {} ∨ (shards i).find id ≠ none ∨ (shards i).size < maxBackends)
    (j : Fin n) (b : BackendId) (w : NativeAlignmentState)
    (hw : (Function.update shards i (setNativeAlignmentLocal (shards i) id value) j).find b =
      some w) : w ≠ {} := by
  subst hvalue
  by_cases hj : j = i
  · subst hj
    rw [Function.update_self, setNativeAlignmentLocal_eq hroom] at hw
    split_ifs at hw with hnone
    · rw [KeyedMap.find_erase] at hw
      split_ifs at hw
      exact htold j b w hw
    · rw [KeyedMap.find_set] at hw
      split_ifs at hw
      · obtain rfl := Option.some.inj hw
        exact hnone
      · exact htold j b w hw
  · rw [Function.update_of_ne hj] at hw
    exact htold j b w hw

end Deliver

theorem sound_deliver (hs : Sound quarantine s) {k : ℕ} {i : Fin n}
    (h : step quarantine s (.deliver k i) = some s') : Sound quarantine s' := by
  rw [step] at h
  split at h
  case h_1 => cases h
  case h_2 p hk =>
  split_ifs at h with hi
  obtain rfl := Option.some.inj h
  obtain ⟨front, back, hsplit, hset, -⟩ := split_at_index hk
  have hp : p ∈ s.publishing := List.mem_of_getElem? hk
  have hvalue := hs.valued p hp
  have hroom := hs.room hp i
  rw [hset]
  exact {
    tracked := hs.tracked
    bounded := hs.bounded
    due := hs.due
    allDue := hs.allDue
    running := by
      have hrunning := hs.running
      rw [hsplit] at hrunning
      simpa only [List.length_append, List.length_cons] using hrunning
    distinct := by
      have hdistinct := hs.distinct
      rw [hsplit] at hdistinct
      simpa only [List.map_append, List.map_cons] using hdistinct
    valued := by
      intro p' hp'
      obtain ⟨p'', hp'', hid, hval⟩ := mem_delivered hp'
      rw [← hval, ← hid]
      exact hs.valued p'' (hsplit ▸ hp'')
    apart := by
      refine hs.apart.imp (fun h => ⟨h.1, fun p' hp' => ?_⟩) fun h p' hp' => ?_
      · obtain ⟨p'', hp'', -, hval⟩ := mem_delivered hp'
        rw [← hval]
        exact h.2 p'' (hsplit ▸ hp'')
      · obtain ⟨p'', hp'', hid, -⟩ := mem_delivered hp'
        rw [← hid]
        exact h p'' (hsplit ▸ hp'')
    idle := by
      intro hidle
      rw [hs.idle hidle] at hp
      cases hp
    listed := hs.listed
    shows := by
      intro j id hreached
      dsimp only
      rw [nativeAlignment_deliver hvalue hroom]
      split_ifs with hji
      · rw [hji.2, hvalue]
      · exact hs.shows j id (hsplit ▸ reached_of_delivered hji hreached)
    past := by
      intro j id
      dsimp only
      rw [nativeAlignment_deliver hvalue hroom]
      split_ifs with hji
      · exact ⟨s.history, List.suffix_rfl, by rw [hji.2, hvalue]⟩
      · exact hs.past j id
    told := told_deliver hs.told hvalue hroom }

/-- The prober goes on to another phase, or drops broadcasts that have reached every shard. -/
theorem Sound.advance (hs : Sound quarantine s) {phase : Phase}
    {publishing : List (Publication n)}
    (hdue : ∀ c ∈ phase.candidates, Due s.cycle (summary c.id s.history) c.epoch)
    (hrunning : phase.inFlight.length + publishing.length ≤ maxConcurrentProbes ∨
      ∃ backends, phase = .clearing backends)
    (hdistinct : (phase.candidates.map Candidate.id ++ publishing.map Publication.id).Nodup)
    (hsub : ∀ p ∈ publishing, p ∈ s.publishing)
    (hphase : publishing ≠ [] → ∀ backends, s.phase = .clearing backends →
      phase = .clearing backends)
    (hidle : phase = .idle → publishing = [])
    (hlisted : ∀ backends, phase = .clearing backends → s.phase = .clearing backends)
    (hreached : ∀ p ∈ s.publishing, p ∉ publishing → p.remaining = []) :
    Sound quarantine { s with phase := phase, publishing := publishing } where
  tracked := hs.tracked
  bounded := hs.bounded
  due := hdue
  allDue := hs.allDue
  running := hrunning
  distinct := hdistinct
  valued p hp := hs.valued p (hsub p hp)
  apart := by
    dsimp only
    rcases hs.apart with ⟨⟨backends, hclearing⟩, hcleared⟩ | hkept
    · by_cases hnone : publishing = []
      · refine .inr fun p hp => ?_
        rw [hnone] at hp
        cases hp
      · exact .inl ⟨⟨backends, hphase hnone backends hclearing⟩,
          fun p hp => hcleared p (hsub p hp)⟩
    · exact .inr fun p hp => hkept p (hsub p hp)
  idle := hidle
  listed backends h := hs.listed backends (hlisted backends h)
  shows i id h := by
    refine hs.shows i id fun p hp hid => ?_
    by_cases hmem : p ∈ publishing
    · exact h p hmem hid
    · rw [hreached p hp hmem]
      exact List.not_mem_nil
  past := hs.past
  told := hs.told

/-- The cycle is over. -/
theorem Sound.rest (hs : Sound quarantine s) (hnone : s.publishing = []) :
    Sound quarantine { s with phase := .idle } := by
  have hsound := @Sound.advance n quarantine s hs .idle [] (fun c hc => by cases hc)
    (.inl (Nat.zero_le _)) List.nodup_nil (fun p hp => by cases hp) (fun h => absurd rfl h)
    (fun _ => rfl) (fun _ h => by cases h) fun p hp _ => by
      rw [hnone] at hp
      cases hp
  rwa [← hnone] at hsound

theorem sound_delivered (hs : Sound quarantine s) {k : ℕ}
    (h : step quarantine s (.delivered k) = some s') : Sound quarantine s' := by
  rw [step] at h
  split at h
  case h_1 => cases h
  case h_2 p hk =>
  split_ifs at h with hdone
  obtain rfl := Option.some.inj h
  obtain ⟨front, back, hsplit, -, herase⟩ := split_at_index hk
  have hsublist : (s.publishing.eraseIdx k).Sublist s.publishing := List.eraseIdx_sublist ..
  have hlen := hsublist.length_le
  refine hs.advance hs.due ?_ ?_ (fun p hp => hsublist.subset hp) (fun _ _ h => h) ?_
    (fun _ h => h) ?_
  · exact hs.running.imp (fun h => by omega) id
  · exact hs.distinct.sublist ((List.Sublist.refl _).append (hsublist.map _))
  · intro hidle
    rw [hs.idle hidle]
    rfl
  · intro p' hp' hout
    rw [hsplit] at hp'
    rw [herase] at hout
    rcases List.mem_append.mp hp' with hmem | hmem
    · exact absurd (List.mem_append_left _ hmem) hout
    · rcases List.mem_cons.mp hmem with rfl | hmem
      · exact hdone
      · exact absurd (List.mem_append_right _ hmem) hout

theorem dueOf_id {state : StateMap} {cycle : ℕ} {streams : BackendId → Stream} {id : BackendId}
    {c : Candidate} (h : dueOf state cycle streams id = some c) : c.id = id := by
  rw [dueOf] at h
  split_ifs at h
  split at h
  · obtain rfl := Option.some.inj h
    rfl
  · split_ifs at h
    obtain rfl := Option.some.inj h
    rfl

/-- A backend that is collected is due. -/
theorem Sound.due_of (hs : Sound quarantine s) {streams : BackendId → Stream} {id : BackendId}
    {c : Candidate} (h : dueOf s.state s.cycle streams id = some c) :
    Due s.cycle (summary c.id s.history) c.epoch := by
  have hid := dueOf_id h
  have htracked := hs.tracked id
  rw [hid, ← htracked]
  rw [dueOf] at h
  split_ifs at h
  split at h
  · next hfind =>
    rw [hfind]
    exact ⟨fun hpos => absurd hpos (Nat.lt_irrefl 0), fun _ hne => absurd rfl hne⟩
  · next st hfind =>
    rw [hfind]
    split_ifs at h with hcurrent hwaiting
    obtain rfl := Option.some.inj h
    refine ⟨fun hpos => ?_, fun hzero hne hepoch => hcurrent ⟨?_, hepoch, hzero⟩⟩
    · exact Nat.le_of_not_lt fun hlt => hwaiting ⟨hpos, hlt⟩
    · cases hhas : st.hasVerdict with
      | true => rfl
      | false =>
        refine absurd ?_ hne
        simp only [Option.map_some, Option.getD_some, BackendState.summary, hhas]
        rfl

theorem map_id_filterMap_dueOf {state : StateMap} {cycle : ℕ} {streams : BackendId → Stream}
    (backends : List BackendId) :
    ((backends.filterMap (dueOf state cycle streams)).map Candidate.id).Sublist backends := by
  induction backends with
  | nil => exact List.Sublist.refl _
  | cons id backends ih =>
    cases hdue : dueOf state cycle streams id with
    | none =>
      rw [List.filterMap_cons_none hdue]
      exact ih.cons _
    | some c =>
      rw [List.filterMap_cons_some hdue, List.map_cons, dueOf_id hdue]
      exact ih.cons_cons _

theorem sound_collectDue (hs : Sound quarantine s) {streams : BackendId → Stream} {ready : Bool}
    (h : step quarantine s (.collectDue streams ready) = some s') : Sound quarantine s' := by
  rw [step] at h
  split at h
  case h_2 => cases h
  case h_1 backends hphase hnone =>
  dsimp only at h
  split_ifs at h
  · obtain rfl := Option.some.inj h
    exact hs.rest hnone
  · obtain rfl := Option.some.inj h
    have hsound := @Sound.advance n quarantine s hs
      (.probing (backends.filterMap (dueOf s.state s.cycle streams)) []) [] ?_
      (.inl (Nat.zero_le _)) ?_ (fun p hp => by cases hp) (fun h => absurd rfl h)
      (fun _ => rfl) (fun _ h => by cases h) fun p hp _ => by
        rw [hnone] at hp
        cases hp
    · rwa [← hnone] at hsound
    · intro c hc
      rw [Phase.candidates, List.append_nil] at hc
      obtain ⟨id, -, hdue⟩ := List.mem_filterMap.mp hc
      exact hs.due_of hdue
    · rw [Phase.candidates, List.append_nil, List.map_nil, List.append_nil]
      exact (hs.listed backends hphase).sublist (map_id_filterMap_dueOf backends)

theorem sound_startProbe (hs : Sound quarantine s)
    (h : step quarantine s .startProbe = some s') : Sound quarantine s' := by
  rw [step] at h
  split at h
  case h_2 => cases h
  case h_1 c waiting inFlight hphase =>
  split_ifs at h with hroom
  obtain rfl := Option.some.inj h
  have hperm : (waiting ++ c :: inFlight).Perm (c :: waiting ++ inFlight) :=
    List.perm_middle
  have hdue := hs.due
  have hdistinct := hs.distinct
  rw [hphase] at hdue hdistinct
  refine hs.advance (fun d hd => hdue d (hperm.mem_iff.mp hd)) (.inl ?_) ?_ (fun p hp => hp) ?_ ?_
    (fun _ h => by cases h) fun p hp hout => absurd hp hout
  · dsimp only [Phase.inFlight]
    rw [List.length_cons]
    omega
  · exact (((hperm.map Candidate.id).append_right _).nodup_iff).mpr hdistinct
  · intro _ backends hclearing
    rw [hphase] at hclearing
    cases hclearing
  · intro hidle
    cases hidle

theorem sound_endCycle (hs : Sound quarantine s) (h : step quarantine s .endCycle = some s') :
    Sound quarantine s' := by
  rw [step] at h
  split at h
  case h_2 => cases h
  case h_1 hphase hnone =>
  obtain rfl := Option.some.inj h
  exact hs.rest hnone

/-- A probe that runs, beside the others: nobody else probes or publishes its backend. -/
structure Ending (s : System n) (c : Candidate) (waiting rest : List Candidate) : Prop where
  due : ∀ d ∈ c :: (waiting ++ rest), Due s.cycle (summary d.id s.history) d.epoch
  distinct : (c.id :: ((waiting ++ rest).map Candidate.id ++
    s.publishing.map Publication.id)).Nodup
  running : rest.length + s.publishing.length + 1 ≤ maxConcurrentProbes
  kept : ∀ p ∈ s.publishing, p.id ∈ s.state.keys

theorem Sound.ending (hs : Sound quarantine s) {waiting inFlight : List Candidate} {k : ℕ}
    {c : Candidate} (hphase : s.phase = .probing waiting inFlight) (hk : inFlight[k]? = some c) :
    Ending s c waiting (inFlight.eraseIdx k) := by
  obtain ⟨front, back, hsplit, -, herase⟩ := split_at_index hk
  rw [herase]
  have hperm : (waiting ++ inFlight).Perm (c :: (waiting ++ (front ++ back))) := by
    rw [hsplit, ← List.append_assoc, ← List.append_assoc]
    exact List.perm_middle
  have hdue := hs.due
  have hdistinct := hs.distinct
  have hrunning := hs.running
  have hapart := hs.apart
  rw [hphase] at hdue hdistinct hrunning hapart
  refine ⟨fun d hd => hdue d (hperm.mem_iff.mpr hd),
    (((hperm.map Candidate.id).append_right _).nodup_iff).mp hdistinct, ?_, ?_⟩
  · have hlength : inFlight.length = (front ++ back).length + 1 := by
      rw [hsplit, List.length_append, List.length_append, List.length_cons]
      omega
    rcases hrunning with hrunning | ⟨_, hclearing⟩
    · dsimp only [Phase.inFlight] at hrunning
      omega
    · cases hclearing
  · rcases hapart with ⟨⟨_, hclearing⟩, -⟩ | hkept
    · cases hclearing
    · exact hkept

section Ended

variable {c : Candidate} {waiting rest : List Candidate} {r : Result}

theorem Ending.ne_waiting (he : Ending s c waiting rest) {d : Candidate}
    (hd : d ∈ waiting ++ rest) : d.id ≠ c.id := by
  intro heq
  exact (List.nodup_cons.mp he.distinct).1
    (List.mem_append_left _ (heq ▸ List.mem_map_of_mem hd))

theorem Ending.ne_published (he : Ending s c waiting rest) {p : Publication n}
    (hp : p ∈ s.publishing) : p.id ≠ c.id := by
  intro heq
  exact (List.nodup_cons.mp he.distinct).1
    (List.mem_append_right _ (heq ▸ List.mem_map_of_mem hp))

/-- The outcome is not recorded: the probe is over, and that is all. -/
theorem Sound.unrecorded (hs : Sound quarantine s) (he : Ending s c waiting rest)
    {inFlight : List Candidate} (hphase : s.phase = .probing waiting inFlight) :
    Sound quarantine { s with phase := .probing waiting rest } := by
  refine hs.advance (fun d hd => he.due d (List.mem_cons_of_mem _ hd)) (.inl ?_)
    (List.nodup_cons.mp he.distinct).2 (fun p hp => hp) ?_ (fun hidle => by cases hidle)
    (fun _ h => by cases h) fun p hp hout => absurd hp hout
  · have hrunning := he.running
    dsimp only [Phase.inFlight]
    omega
  · intro _ backends hclearing
    rw [hphase] at hclearing
    cases hclearing

/-- Behind an outcome that is recorded the shards are up to date, or the new verdict is on its
way to each of them. -/
theorem Sound.shows_recorded (hs : Sound quarantine s) {st : BackendState}
    (hst : summary c.id s.history = st.summary) {publishing : List (Publication n)}
    (hold : ∀ p ∈ s.publishing, p ∈ publishing)
    (hnew : (st.after s.cycle c r).2 = true →
      ∃ p ∈ publishing, p.id = c.id ∧ p.remaining = List.finRange n)
    {i : Fin n} {id : BackendId} (hreached : ∀ p ∈ publishing, p.id = id → i ∉ p.remaining) :
    nativeAlignment (s.shards i) id =
      shown quarantine (summary id (.recorded c.id s.cycle c.epoch r :: s.history)).verdict := by
  rw [hs.shows i id fun p hp => hreached p (hold p hp)]
  by_cases hid : id = c.id
  · subst hid
    cases hchanged : (st.after s.cycle c r).2 with
    | false => rw [← after_summary hst.symm, after_unchanged quarantine hchanged, hst]
    | true =>
      obtain ⟨p, hp, hpid, hall⟩ := hnew hchanged
      refine absurd (List.mem_finRange i) ?_
      rw [← hall]
      exact hreached p hp hpid
  · rw [summary_recorded_ne (Ne.symm hid)]

/-- A broadcast under way is the one just started, if there is one, or was under way. -/
theorem mem_of_started {changed : Bool} {started p : Publication n} {under : List (Publication n)}
    (hp : p ∈ if changed then started :: under else under) : p = started ∨ p ∈ under := by
  split_ifs at hp
  · exact List.mem_cons.mp hp
  · exact .inr hp

/-- **An outcome is recorded.** It changes what is known of its own backend. -/
theorem Sound.recorded (hs : Sound quarantine s) (he : Ending s c waiting rest)
    {state : StateMap} {changed : Bool}
    (hrecord : record s.state s.cycle c r = some (state, changed)) :
    Sound quarantine { s with
      state := state
      phase := .probing waiting rest
      publishing :=
        if changed then Publication.start quarantine state c.id :: s.publishing else s.publishing
      history := .recorded c.id s.cycle c.epoch r :: s.history } := by
  obtain ⟨st, hst, rfl, rfl, hroom⟩ := record_cases hrecord
  rw [hs.tracked] at hst
  have hafter := after_summary hst.symm s.cycle r
  have hsame : ∀ id, id ≠ c.id →
      summary id (.recorded c.id s.cycle c.epoch r :: s.history) = summary id s.history :=
    fun id hid => summary_recorded_ne (Ne.symm hid) _ _ _ _
  have hvalue : published quarantine (s.state.set c.id (st.after s.cycle c r).1) c.id =
      shown quarantine
        (summary c.id (.recorded c.id s.cycle c.epoch r :: s.history)).verdict := by
    rw [published, KeyedMap.find_set, if_pos rfl, ← hafter]
    rfl
  have hrunning := he.running
  exact {
    tracked := by
      intro id
      dsimp only
      rw [KeyedMap.find_set]
      split_ifs with hid
      · rw [hid]
        exact hafter
      · rw [hsame id hid]
        exact hs.tracked id
    bounded := by
      dsimp only
      rw [KeyedMap.size_set]
      split_ifs with hkey
      · exact hs.bounded
      · exact hroom (KeyedMap.find_eq_none_iff.mpr hkey)
    due := by
      intro d hd
      dsimp only
      rw [hsame d.id (he.ne_waiting hd)]
      exact he.due d (List.mem_cons_of_mem _ hd)
    allDue := ⟨he.due c (List.mem_cons_self ..), hs.allDue⟩
    running := by
      refine .inl ?_
      dsimp only [Phase.inFlight]
      split_ifs
      · rw [List.length_cons]
        omega
      · omega
    distinct := by
      dsimp only [Phase.candidates]
      split_ifs
      · exact (List.perm_middle.nodup_iff).mpr he.distinct
      · exact (List.nodup_cons.mp he.distinct).2
    valued := by
      intro p hp
      rcases mem_of_started hp with rfl | hp
      · exact hvalue
      · dsimp only
        rw [hsame p.id (he.ne_published hp)]
        exact hs.valued p hp
    apart := by
      refine .inr fun p hp => ?_
      dsimp only
      rw [KeyedMap.mem_keys_set]
      rcases mem_of_started hp with rfl | hp
      · exact .inl rfl
      · exact .inr (he.kept p hp)
    idle := fun hidle => by cases hidle
    listed := fun _ h => by cases h
    shows := by
      intro i id hreached
      refine hs.shows_recorded hst (fun p hp => ?_) (fun hchanged => ?_) hreached
      · dsimp only
        split_ifs
        · exact List.mem_cons_of_mem _ hp
        · exact hp
      · dsimp only
        rw [if_pos hchanged]
        exact ⟨_, List.mem_cons_self .., rfl, rfl⟩
    past := by
      intro i id
      obtain ⟨older, holder, heq⟩ := hs.past i id
      exact ⟨older, holder.trans (List.suffix_cons _ _), heq⟩
    told := hs.told }

end Ended

/-- **A probe ends.** -/
theorem sound_finishProbe (hs : Sound quarantine s) {k : ℕ} {r : Result}
    (h : step quarantine s (.finishProbe k r) = some s') : Sound quarantine s' := by
  rw [step] at h
  split at h
  case h_2 => cases h
  case h_1 waiting inFlight hphase =>
  split at h
  · cases h
  next c hk =>
  have he := hs.ending hphase hk
  dsimp only at h
  split at h
  · obtain rfl := Option.some.inj h
    exact hs.unrecorded he hphase
  · next state changed hrecord =>
    obtain rfl := Option.some.inj h
    exact hs.recorded he hrecord

theorem sound_step (hs : Sound quarantine s) {a : Action n}
    (h : step quarantine s a = some s') : Sound quarantine s' := by
  cases a with
  | startCycle backends => exact sound_startCycle hs h
  | deliver k i => exact sound_deliver hs h
  | delivered k => exact sound_delivered hs h
  | collectDue streams ready => exact sound_collectDue hs h
  | startProbe => exact sound_startProbe hs h
  | finishProbe k r => exact sound_finishProbe hs h
  | endCycle => exact sound_endCycle hs h

theorem sound_started : Sound quarantine ({} : System n) where
  tracked _ := rfl
  bounded := Nat.zero_le _
  due c hc := by cases hc
  allDue := trivial
  running := .inl (Nat.zero_le _)
  distinct := List.nodup_nil
  valued p hp := by cases hp
  apart := .inr fun p hp => by cases hp
  idle _ := rfl
  listed _ h := by cases h
  shows _ _ _ := rfl
  past _ _ := ⟨[], List.suffix_rfl, rfl⟩
  told _ _ _ h := by cases h

/-! ## The contract -/

/-- What routing and the operators can rely on. -/
structure Contract (quarantine : Bool) (s : System n) : Prop where
  /-- between cycles every shard shows the last verdict on every backend since it was listed -/
  current : s.phase = .idle → ∀ i id,
    nativeAlignment (s.shards i) id = shown quarantine (summary id s.history).verdict
  /-- at any time a shard shows a verdict that was the last one at some time -/
  genuine : ∀ i id, ∃ older, older <:+ s.history ∧
    nativeAlignment (s.shards i) id = shown quarantine (summary id older).verdict
  /-- a backend is probed only if its last verdict is for another epoch or it has failed since,
  and after a failure only when the wait is over -/
  due : ∀ newer older id cycle epoch r,
    s.history = newer ++ .recorded id cycle epoch r :: older →
      Due cycle (summary id older) epoch
  /-- one probe or broadcast of a backend at a time, and four in all -/
  alone : (s.phase.candidates.map Candidate.id ++ s.publishing.map Publication.id).Nodup ∧
    (s.phase.inFlight = [] ∨
      s.phase.inFlight.length + s.publishing.length ≤ maxConcurrentProbes)
  /-- the prober's table is bounded, and a broadcast always finds room on a shard -/
  bounded : s.state.size ≤ maxTrackedBackends ∧ ∀ p ∈ s.publishing, ∀ i,
    nativeAlignment (setNativeAlignmentLocal (s.shards i) p.id p.value) p.id = p.value

theorem AllDue.of_split {newer older : List Event} {id : BackendId} {cycle epoch : ℕ} {r : Result}
    (h : AllDue (newer ++ .recorded id cycle epoch r :: older)) :
    Due cycle (summary id older) epoch := by
  induction newer with
  | nil => exact h.1
  | cons e newer ih =>
    cases e with
    | pruned j => exact ih h
    | recorded j cycle' epoch' r' => exact ih h.2

theorem Sound.contract (hs : Sound quarantine s) : Contract quarantine s where
  current hidle i id := hs.shows i id fun p hp => by
    rw [hs.idle hidle] at hp
    cases hp
  genuine := hs.past
  due newer older id cycle epoch r h := by
    have hall := hs.allDue
    rw [h] at hall
    exact hall.of_split
  alone := by
    refine ⟨hs.distinct, ?_⟩
    rcases hs.running with hrunning | ⟨backends, hclearing⟩
    · exact .inr hrunning
    · rw [hclearing]
      exact .inl rfl
  bounded := by
    refine ⟨hs.bounded, fun p hp i => ?_⟩
    have hroom := hs.room hp i
    rw [hs.valued p hp] at hroom ⊢
    rw [nativeAlignment_set hroom, if_pos rfl]

end Steps

end AlignmentProber

end Ranvier
