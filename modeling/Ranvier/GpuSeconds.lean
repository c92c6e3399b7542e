import Mathlib.Algebra.BigOperators.Intervals
import Mathlib.Algebra.Order.Field.Rat
import Mathlib.Data.List.Sort
import Mathlib.Tactic.Linarith
import Mathlib.Tactic.Ring
import Ranvier.Registry

/-!
# GPU-seconds

Every shard accounts for the GPUs that a backend has presented while it was alive: it keeps what
has been accumulated, and where the current segment began. A registration, a change of health
and a change of the count end the segment at the time they were stamped with, which is before
they have crossed to the shard.

* `GpuShard.apply` — one transition on one shard;
* `gpuSeconds` — the count, integrated over the time since the last registration in which the
  backend was not marked dead;
* `exposed_eq_gpuSeconds` — what a shard exposes is this integral, as long as transitions reach
  it in the order in which they were issued.

The model is of one backend; transitions of others do not concern its record. Times are in
nanoseconds, and a tick stands for the nanosecond that begins with it.
-/

namespace Ranvier

/-- There is a shard 0. -/
local instance (priority := 2000) neZero_gpuShards (n : ℕ) : NeZero (n + 1) :=
  ⟨Nat.succ_ne_zero n⟩

/-- What is broadcast about the backend, with the time at which it was issued. -/
inductive GpuEvent : Type where
  | register (now : ℕ)
  | setStatus (isAlive : Bool) (now : ℕ)
  | setGpuCount (gpuCount : ℚ) (now : ℕ)
  deriving DecidableEq, Repr

/-- The time it was stamped with. -/
def GpuEvent.stamp : GpuEvent → ℕ
  | .register now => now
  | .setStatus _ now => now
  | .setGpuCount _ now => now

/-- The fields of `BackendInfo` that the accounting uses. -/
structure GpuInfo : Type where
  accumulatedGpuSeconds : ℚ := 0
  gpuCount : ℚ := 1
  gpuSecondsSegmentStart : ℕ
  gpuSecondsLive : Bool
  deriving DecidableEq, Repr

/-- A shard: the record of the backend if it is registered, whether it is in the dead set, and
what the shard has been told so far. -/
structure GpuShard : Type where
  info : Option GpuInfo := none
  dead : Bool := false
  log : List GpuEvent := []
  deriving DecidableEq, Repr

/-- `duration<double>(to - from).count()`. -/
def secondsBetween (start stop : ℕ) : ℚ := ((stop : ℚ) - start) / 1000000000

/-- `gpu_seconds_with_in_progress`. -/
def gpuSecondsWithInProgress (accumulated : ℚ) (live : Bool) (gpuCount seconds : ℚ) : ℚ :=
  if live = true ∧ 0 < gpuCount ∧ 0 < seconds then accumulated + gpuCount * seconds
  else accumulated

namespace GpuInfo

/-- The accumulator with the segment that ends now. -/
def finalized (i : GpuInfo) (now : ℕ) : ℚ :=
  gpuSecondsWithInProgress i.accumulatedGpuSeconds i.gpuSecondsLive i.gpuCount
    (secondsBetween i.gpuSecondsSegmentStart now)

/-- `set_backend_gpu_count_global`, on one shard. -/
def setGpuCount (i : GpuInfo) (gpuCount : ℚ) (now : ℕ) : GpuInfo where
  accumulatedGpuSeconds := i.finalized now
  gpuCount := gpuCount
  gpuSecondsSegmentStart := now
  gpuSecondsLive := i.gpuSecondsLive

/-- `set_backend_status_global`, on one shard. -/
def setStatus (i : GpuInfo) (isAlive : Bool) (now : ℕ) : GpuInfo :=
  if isAlive then { i with gpuSecondsLive := true, gpuSecondsSegmentStart := now }
  else
    { i with
      accumulatedGpuSeconds := i.finalized now
      gpuSecondsLive := false
      gpuSecondsSegmentStart := now }

end GpuInfo

namespace GpuShard

/-- A transition, on one shard. -/
def apply (e : GpuEvent) (s : GpuShard) : GpuShard :=
  match e with
  | .register now =>
    { s with
      info := some { gpuSecondsSegmentStart := now, gpuSecondsLive := !s.dead }
      log := s.log ++ [e] }
  | .setStatus isAlive now =>
    { info := s.info.map fun i => i.setStatus isAlive now
      dead := !isAlive
      log := s.log ++ [e] }
  | .setGpuCount gpuCount now =>
    { s with
      info := s.info.map fun i => i.setGpuCount gpuCount now
      log := s.log ++ [e] }

/-- `get_backend_gpu_seconds`. It only reads. -/
def getBackendGpuSeconds (s : GpuShard) (now : ℕ) : ℚ :=
  match s.info with
  | none => 0
  | some i =>
    gpuSecondsWithInProgress i.accumulatedGpuSeconds i.gpuSecondsLive i.gpuCount
      (if i.gpuSecondsLive then secondsBetween i.gpuSecondsSegmentStart now else 0)

/-- A shard that has been told these transitions, in this order. -/
def replay (log : List GpuEvent) : GpuShard := log.foldl (fun s e => apply e s) {}

end GpuShard

/-! ## What is to be accounted for -/

/-- The declared count of a backend and its health. -/
structure GpuStatus : Type where
  gpuCount : ℚ := 1
  dead : Bool := false
  deriving DecidableEq, Repr

/-- What a transition means: a registration starts with one GPU. -/
def GpuStatus.after (v : GpuStatus) : GpuEvent → GpuStatus
  | .register _ => { v with gpuCount := 1 }
  | .setStatus isAlive _ => { v with dead := !isAlive }
  | .setGpuCount gpuCount _ => { v with gpuCount := gpuCount }

/-- The status after transitions. -/
def statusAfter (events : List GpuEvent) : GpuStatus := events.foldl GpuStatus.after {}

/-- The GPUs that count. -/
def GpuStatus.rate (v : GpuStatus) : ℚ := if v.dead then 0 else v.gpuCount

/-- The transitions in the order of their stamps; those of one instant stay as they are. -/
def inOrder (events : List GpuEvent) : List GpuEvent :=
  events.insertionSort fun e e' => e.stamp ≤ e'.stamp

/-- When the backend was last registered. -/
def lastRegistration (events : List GpuEvent) : Option ℕ :=
  events.foldl (fun last e => match e with
    | .register now => some now
    | _ => last) none

/-- The rate at an instant. -/
def rateAt (events : List GpuEvent) (t : ℕ) : ℚ :=
  (statusAfter (events.filter fun e => e.stamp ≤ t)).rate

/-- The count in GPU-seconds, integrated over the time since the last registration in which the
backend was not marked dead. -/
def gpuSeconds (events : List GpuEvent) (now : ℕ) : ℚ :=
  match lastRegistration (inOrder events) with
  | none => 0
  | some start => (∑ t ∈ Finset.Ico start now, rateAt (inOrder events) t) / 1000000000

/-! ## One shard -/

/-- A transition that is one: a status is new, and a count is positive, as the configuration
requires. -/
def GpuEvent.Fits (dead : Bool) : GpuEvent → Prop
  | .register _ => True
  | .setStatus isAlive _ => isAlive = dead
  | .setGpuCount gpuCount _ => 0 < gpuCount

/-- Transitions that come in the order of their stamps. -/
inductive Steady : List GpuEvent → Prop
  | nil : Steady []
  | snoc {log : List GpuEvent} {e : GpuEvent} (before : Steady log)
      (inOrder : ∀ e' ∈ log, e'.stamp ≤ e.stamp) (fits : e.Fits (statusAfter log).dead) :
      Steady (log ++ [e])

theorem Steady.pairwise {log : List GpuEvent} (h : Steady log) :
    log.Pairwise fun e e' => e.stamp ≤ e'.stamp := by
  induction h with
  | nil => exact List.Pairwise.nil
  | snoc _ horder _ ih =>
    refine List.pairwise_append.mpr ⟨ih, List.pairwise_singleton _ _, ?_⟩
    intro e he e' he'
    obtain rfl := List.mem_singleton.mp he'
    exact horder e he

section Snoc

variable {log : List GpuEvent} {e : GpuEvent}

theorem statusAfter_snoc : statusAfter (log ++ [e]) = (statusAfter log).after e :=
  List.foldl_concat ..

theorem replay_snoc : GpuShard.replay (log ++ [e]) = GpuShard.apply e (GpuShard.replay log) :=
  List.foldl_concat ..

/-- Before the last transition its effect is not there. -/
theorem rateAt_snoc_of_lt {t : ℕ} (ht : t < e.stamp) : rateAt (log ++ [e]) t = rateAt log t := by
  rw [rateAt, rateAt, List.filter_append, List.filter_cons_of_neg (by simpa using ht)]
  simp

theorem rateAt_snoc_of_le {t : ℕ} (horder : ∀ e' ∈ log, e'.stamp ≤ e.stamp) (ht : e.stamp ≤ t) :
    rateAt (log ++ [e]) t = ((statusAfter log).after e).rate := by
  have hall : (log ++ [e]).filter (fun e => e.stamp ≤ t) = log ++ [e] := by
    refine List.filter_eq_self.mpr fun e' he' => decide_eq_true ?_
    rcases List.mem_append.mp he' with he' | he'
    · exact (horder e' he').trans ht
    · exact List.mem_singleton.mp he' ▸ ht
  rw [rateAt, hall, statusAfter_snoc]

/-- The integral, cut at the last transition. -/
theorem sum_rateAt_snoc {start now : ℕ} (horder : ∀ e' ∈ log, e'.stamp ≤ e.stamp)
    (hstart : start ≤ e.stamp) (hnow : e.stamp ≤ now) :
    ∑ t ∈ Finset.Ico start now, rateAt (log ++ [e]) t =
      ∑ t ∈ Finset.Ico start e.stamp, rateAt log t +
        ((now : ℚ) - e.stamp) * ((statusAfter log).after e).rate := by
  rw [← Finset.sum_Ico_consecutive _ hstart hnow]
  congr 1
  · exact Finset.sum_congr rfl fun t ht => rateAt_snoc_of_lt (Finset.mem_Ico.mp ht).2
  · rw [Finset.sum_congr rfl fun t ht => rateAt_snoc_of_le horder (Finset.mem_Ico.mp ht).1,
      Finset.sum_const, Nat.card_Ico, nsmul_eq_mul, Nat.cast_sub hnow]

end Snoc

/-- With a positive count a segment counts exactly if it is live. -/
theorem gpuSecondsWithInProgress_eq {accumulated gpuCount seconds : ℚ} {live : Bool}
    (hcount : 0 < gpuCount) (hseconds : 0 ≤ seconds) :
    gpuSecondsWithInProgress accumulated live gpuCount seconds =
      accumulated + seconds * (if live then gpuCount else 0) := by
  rw [gpuSecondsWithInProgress]
  cases live with
  | false => simp
  | true =>
    rcases hseconds.eq_or_lt with hzero | hpos
    · simp [← hzero]
    · rw [if_pos ⟨rfl, hcount, hpos⟩, if_pos rfl, mul_comm]

/-- The record of a shard that was told the transitions, if it is right: whenever the segment is
ended from now on, the accumulator has the integral. -/
structure Accounted (log : List GpuEvent) (start : ℕ) (i : GpuInfo) : Prop where
  gpuCount : i.gpuCount = (statusAfter log).gpuCount
  positive : 0 < i.gpuCount
  live : i.gpuSecondsLive = !(statusAfter log).dead
  started : ∃ e ∈ log, start ≤ e.stamp
  segment : ∃ e ∈ log, i.gpuSecondsSegmentStart ≤ e.stamp
  finalized : ∀ now, (∀ e ∈ log, e.stamp ≤ now) →
    i.finalized now = (∑ t ∈ Finset.Ico start now, rateAt log t) / 1000000000

section Transitions

variable {log : List GpuEvent} {e : GpuEvent} {start : ℕ} {i i' : GpuInfo}

theorem secondsBetween_nonneg {start stop : ℕ} (h : start ≤ stop) :
    0 ≤ secondsBetween start stop := by
  have hcast : (start : ℚ) ≤ stop := Nat.cast_le.mpr h
  rw [secondsBetween]
  exact div_nonneg (sub_nonneg.mpr hcast) (by norm_num)

/-- A segment that begins with the last transition. -/
theorem Accounted.of_segment (horder : ∀ e' ∈ log, e'.stamp ≤ e.stamp) (hstart : start ≤ e.stamp)
    (hcount : i'.gpuCount = ((statusAfter log).after e).gpuCount) (hpositive : 0 < i'.gpuCount)
    (hlive : i'.gpuSecondsLive = !((statusAfter log).after e).dead)
    (hsegment : i'.gpuSecondsSegmentStart = e.stamp)
    (haccumulated : i'.accumulatedGpuSeconds =
      (∑ t ∈ Finset.Ico start e.stamp, rateAt log t) / 1000000000) :
    Accounted (log ++ [e]) start i' := by
  have hmem : e ∈ log ++ [e] := List.mem_append_right log (List.mem_singleton_self e)
  refine ⟨hcount.trans (congrArg _ statusAfter_snoc.symm), hpositive,
    hlive.trans (congrArg (fun v => !GpuStatus.dead v) statusAfter_snoc.symm), ⟨e, hmem, hstart⟩,
    ⟨e, hmem, hsegment.le⟩, ?_⟩
  intro now hnow
  have hle : e.stamp ≤ now := hnow e hmem
  have hrate : (if i'.gpuSecondsLive then i'.gpuCount else 0) =
      ((statusAfter log).after e).rate := by
    rw [hlive, hcount, GpuStatus.rate]
    cases ((statusAfter log).after e).dead <;> rfl
  rw [GpuInfo.finalized, gpuSecondsWithInProgress_eq hpositive
      (secondsBetween_nonneg (hsegment ▸ hle)), hrate, hsegment, haccumulated,
    sum_rateAt_snoc horder hstart hle, secondsBetween]
  ring

theorem Accounted.register {dead : Bool} {now : ℕ}
    (horder : ∀ e' ∈ log, e'.stamp ≤ (GpuEvent.register now).stamp)
    (hdead : dead = (statusAfter log).dead) :
    Accounted (log ++ [.register now]) now
      { gpuSecondsSegmentStart := now, gpuSecondsLive := !dead } := by
  refine Accounted.of_segment horder le_rfl rfl one_pos (hdead ▸ rfl) rfl ?_
  simp [GpuEvent.stamp]

theorem Accounted.setGpuCount {gpuCount : ℚ} {now : ℕ} (h : Accounted log start i)
    (horder : ∀ e' ∈ log, e'.stamp ≤ (GpuEvent.setGpuCount gpuCount now).stamp)
    (hpositive : 0 < gpuCount) :
    Accounted (log ++ [.setGpuCount gpuCount now]) start (i.setGpuCount gpuCount now) := by
  obtain ⟨e', he', hstart⟩ := h.started
  exact Accounted.of_segment horder (hstart.trans (horder e' he')) rfl hpositive h.live rfl
    (h.finalized now horder)

theorem Accounted.setStatus {isAlive : Bool} {now : ℕ} (h : Accounted log start i)
    (horder : ∀ e' ∈ log, e'.stamp ≤ (GpuEvent.setStatus isAlive now).stamp)
    (hnew : isAlive = (statusAfter log).dead) :
    Accounted (log ++ [.setStatus isAlive now]) start (i.setStatus isAlive now) := by
  obtain ⟨e', he', hstart⟩ := h.started
  have hstart : start ≤ (GpuEvent.setStatus isAlive now).stamp := hstart.trans (horder e' he')
  cases isAlive with
  | false =>
    exact Accounted.of_segment horder hstart h.gpuCount h.positive rfl rfl (h.finalized now horder)
  | true =>
    refine Accounted.of_segment horder hstart h.gpuCount h.positive rfl rfl ?_
    -- the backend was dead, so there is no segment to end
    have hlive : i.gpuSecondsLive = false := by
      rw [h.live, ← hnew]
      rfl
    have hfinalized := h.finalized now horder
    rw [GpuInfo.finalized, gpuSecondsWithInProgress, hlive, if_neg (by simp)] at hfinalized
    exact hfinalized

end Transitions

/-- Every transition that fits keeps the record right. -/
theorem Steady.accounted {log : List GpuEvent} (h : Steady log) :
    (GpuShard.replay log).dead = (statusAfter log).dead ∧
      match (GpuShard.replay log).info, lastRegistration log with
      | none, none => True
      | some i, some start => Accounted log start i
      | _, _ => False := by
  induction h with
  | nil => exact ⟨rfl, trivial⟩
  | @snoc log e _ horder hfits ih =>
    have hlast : lastRegistration (log ++ [e]) =
        match e with
        | .register now => some now
        | _ => lastRegistration log := by
      rw [lastRegistration, List.foldl_concat]
      cases e <;> rfl
    obtain ⟨hdead, hinfo⟩ := ih
    rw [replay_snoc, statusAfter_snoc, hlast]
    generalize GpuShard.replay log = s at hdead hinfo ⊢
    cases e with
    | register now => exact ⟨hdead, Accounted.register horder hdead⟩
    | setStatus isAlive now =>
      refine ⟨rfl, ?_⟩
      dsimp only [GpuShard.apply]
      cases hs : s.info <;> cases hl : lastRegistration log <;> rw [hs, hl] at hinfo
      · trivial
      · exact hinfo
      · exact hinfo
      · exact hinfo.setStatus horder hfits
    | setGpuCount gpuCount now =>
      refine ⟨hdead, ?_⟩
      dsimp only [GpuShard.apply]
      cases hs : s.info <;> cases hl : lastRegistration log <;> rw [hs, hl] at hinfo
      · trivial
      · exact hinfo
      · exact hinfo
      · exact hinfo.setGpuCount horder hfits

theorem GpuInfo.exposed_eq_finalized (i : GpuInfo) (now : ℕ) :
    gpuSecondsWithInProgress i.accumulatedGpuSeconds i.gpuSecondsLive i.gpuCount
      (if i.gpuSecondsLive then secondsBetween i.gpuSecondsSegmentStart now else 0) =
      i.finalized now := by
  rw [GpuInfo.finalized]
  cases hlive : i.gpuSecondsLive with
  | true => rfl
  | false => simp [gpuSecondsWithInProgress]

/-- What a shard exposes that was told its transitions in order. -/
theorem Steady.getBackendGpuSeconds {log : List GpuEvent} (h : Steady log) {now : ℕ}
    (hnow : ∀ e ∈ log, e.stamp ≤ now) :
    (GpuShard.replay log).getBackendGpuSeconds now = gpuSeconds log now := by
  have hinOrder : inOrder log = log := h.pairwise.insertionSort_eq
  obtain ⟨-, hinfo⟩ := h.accounted
  rw [GpuShard.getBackendGpuSeconds, gpuSeconds, hinOrder]
  cases hs : (GpuShard.replay log).info <;> cases hl : lastRegistration log <;>
    rw [hs, hl] at hinfo
  · exact hinfo.elim
  · exact hinfo.elim
  · next i start =>
    dsimp only
    rw [i.exposed_eq_finalized, hinfo.finalized now hnow]

/-! ## All shards -/

/-- The shards and what is in flight between them, the clock, and all transitions so far. -/
structure GpuCluster (n : ℕ) : Type where
  net : Network (Fin (n + 1)) GpuShard GpuEvent
  clock : ℕ := 0
  issued : List GpuEvent := []

/-- What happens: registrations come from any shard, changes of the health and of the count from
shard 0. -/
inductive GpuAction (n : ℕ) : Type where
  | tick (duration : ℕ)
  | register (shard : Fin (n + 1))
  | setStatus (isAlive : Bool)
  | setGpuCount (gpuCount : ℚ)
  | deliver (sender receiver : Fin (n + 1))
  | scrape (shard : Fin (n + 1))
  deriving DecidableEq

namespace GpuCluster

variable {n : ℕ}

/-- Nothing has happened yet. -/
def booted (n : ℕ) : GpuCluster n where
  net := { state := fun _ => {}, inFlight := fun _ _ => [], self_empty := fun _ => rfl }

/-- A shard applies a transition and submits it to the others. -/
def issue (c : GpuCluster n) (shard : Fin (n + 1)) (e : GpuEvent) : GpuCluster n :=
  { c with net := c.net.issue GpuShard.apply shard e, issued := c.issued ++ [e] }

/-- One action. A transition is stamped when it is issued; a status that is no change to shard 0
is none, and a count that is not positive is refused with the configuration. -/
def step (c : GpuCluster n) : GpuAction n → Option (GpuCluster n)
  | .tick duration => some { c with clock := c.clock + duration }
  | .register shard => some (c.issue shard (.register c.clock))
  | .setStatus isAlive =>
    if isAlive = (c.net.state 0).dead then some (c.issue 0 (.setStatus isAlive c.clock)) else some c
  | .setGpuCount gpuCount =>
    if 0 < gpuCount then some (c.issue 0 (.setGpuCount gpuCount c.clock)) else none
  | .deliver sender receiver =>
    match c.net.deliver GpuShard.apply sender receiver with
    | some net => some { c with net := net }
    | none => none
  | .scrape _ => some c

/-- What arrives was issued after everything that the shard has been told. -/
def ArrivesInOrder (c : GpuCluster n) : GpuAction n → Prop
  | .deliver sender receiver =>
    ∀ e ∈ (c.net.inFlight sender receiver).head?,
      ((c.net.state receiver).log ++ [e]).Sublist c.issued
  | _ => True

instance (c : GpuCluster n) (a : GpuAction n) : Decidable (ArrivesInOrder c a) :=
  match a with
  | .deliver sender receiver =>
    inferInstanceAs (Decidable (∀ e ∈ (c.net.inFlight sender receiver).head?,
      ((c.net.state receiver).log ++ [e]).Sublist c.issued))
  | .tick _ | .register _ | .setStatus _ | .setGpuCount _ | .scrape _ => .isTrue trivial

/-! ### What the shards are told -/

/-- Whether the backend is dead after a transition. -/
def deadAfter (dead : Bool) : GpuEvent → Bool
  | .setStatus isAlive _ => !isAlive
  | _ => dead

theorem dead_apply (e : GpuEvent) (s : GpuShard) :
    (GpuShard.apply e s).dead = deadAfter s.dead e := by
  cases e <;> rfl

theorem log_apply (e : GpuEvent) (s : GpuShard) : (GpuShard.apply e s).log = s.log ++ [e] := by
  cases e <;> rfl

/-- Transitions in flight from shard 0 fit, one after the other, and lead to what shard 0 has. -/
def Pending : Bool → List GpuEvent → Bool → Prop
  | dead, [], last => dead = last
  | dead, e :: events, last => e.Fits dead ∧ Pending (deadAfter dead e) events last

theorem Pending.snoc {dead last : Bool} {events : List GpuEvent} {e : GpuEvent}
    (h : Pending dead events last) (hfits : e.Fits last) :
    Pending dead (events ++ [e]) (deadAfter last e) := by
  induction events generalizing dead with
  | nil =>
    obtain rfl : dead = last := h
    exact ⟨hfits, rfl⟩
  | cons e' events ih => exact ⟨h.1, ih h.2⟩

/-- The state of a cluster whose shards were told everything in order. -/
structure Sound (c : GpuCluster n) : Prop where
  replayed : ∀ i, c.net.state i = GpuShard.replay (c.net.state i).log
  steady : ∀ i, Steady (c.net.state i).log
  told : ∀ i, (c.net.state i).log.Sublist c.issued
  sorted : c.issued.Pairwise fun e e' => e.stamp ≤ e'.stamp
  past : ∀ e ∈ c.issued, e.stamp ≤ c.clock
  registrations : ∀ k ≠ 0, ∀ i, ∀ e ∈ c.net.inFlight k i, ∃ now, e = .register now
  pending : ∀ i, Pending (c.net.state i).dead (c.net.inFlight 0 i) (c.net.state 0).dead

theorem sound_booted : Sound (booted n) where
  replayed _ := rfl
  steady _ := .nil
  told _ := .slnil
  sorted := .nil
  past _ he := by cases he
  registrations _ _ _ _ he := by cases he
  pending _ := rfl

variable {c c' : GpuCluster n}

theorem Sound.dead_eq (h : Sound c) (i : Fin (n + 1)) :
    (c.net.state i).dead = (statusAfter (c.net.state i).log).dead := by
  have hdead := (h.steady i).accounted.1
  rwa [← h.replayed i] at hdead

/-- A shard that is told one more transition, in order. -/
theorem Sound.apply (h : Sound c) {i : Fin (n + 1)} {e : GpuEvent}
    (horder : ∀ e' ∈ (c.net.state i).log, e'.stamp ≤ e.stamp)
    (hfits : e.Fits (c.net.state i).dead) :
    GpuShard.apply e (c.net.state i) =
        GpuShard.replay (GpuShard.apply e (c.net.state i)).log ∧
      Steady (GpuShard.apply e (c.net.state i)).log := by
  rw [log_apply, replay_snoc, ← h.replayed i]
  exact ⟨rfl, .snoc (h.steady i) horder (h.dead_eq i ▸ hfits)⟩

/-- The shards, after one of them was told one more transition of those issued by then. -/
theorem Sound.update (h : Sound c) {shard : Fin (n + 1)} {e : GpuEvent} {issued : List GpuEvent}
    (hfits : e.Fits (c.net.state shard).dead) (hissued : c.issued.Sublist issued)
    (hsorted : issued.Pairwise fun e e' => e.stamp ≤ e'.stamp)
    (hlog : ((c.net.state shard).log ++ [e]).Sublist issued) (i : Fin (n + 1)) :
    let s := Function.update c.net.state shard (GpuShard.apply e (c.net.state shard)) i
    s = GpuShard.replay s.log ∧ Steady s.log ∧ s.log.Sublist issued := by
  have hlast : ∀ e' ∈ (c.net.state shard).log, e'.stamp ≤ e.stamp := fun e' he' =>
    (List.pairwise_append.mp (hsorted.sublist hlog)).2.2 e' he' e (List.mem_singleton_self e)
  by_cases hi : i = shard
  · subst hi
    rw [Function.update_self]
    exact ⟨(h.apply hlast hfits).1, (h.apply hlast hfits).2, log_apply e _ ▸ hlog⟩
  · rw [Function.update_of_ne hi]
    exact ⟨h.replayed i, h.steady i, (h.told i).trans hissued⟩

/-- A registration says nothing about the health. -/
theorem dead_update_register (state : Fin (n + 1) → GpuShard) (shard : Fin (n + 1)) (now : ℕ)
    (i : Fin (n + 1)) :
    (Function.update state shard (GpuShard.apply (.register now) (state shard)) i).dead =
      (state i).dead := by
  by_cases hi : i = shard
  · subst hi
    rw [Function.update_self]
    rfl
  · rw [Function.update_of_ne hi]

/-- What a shard submits joins what leads to what shard 0 has. -/
theorem Sound.pending_issue (h : Sound c) {shard : Fin (n + 1)} {e : GpuEvent}
    (hfits : e.Fits (c.net.state shard).dead) (hkind : shard = 0 ∨ e = .register c.clock)
    (i : Fin (n + 1)) :
    let state := Function.update c.net.state shard (GpuShard.apply e (c.net.state shard))
    Pending (state i).dead
      (if 0 = shard ∧ i ≠ shard then c.net.inFlight 0 i ++ [e] else c.net.inFlight 0 i)
      (state 0).dead := by
  intro state
  by_cases hzero : shard = 0
  · subst hzero
    rw [show state 0 = _ from Function.update_self .., dead_apply]
    by_cases hi : i = 0
    · subst hi
      rw [show state 0 = _ from Function.update_self .., dead_apply, if_neg (fun h => h.2 rfl),
        c.net.self_empty]
      rfl
    · rw [show state i = _ from Function.update_of_ne hi .., if_pos ⟨rfl, hi⟩]
      exact (h.pending i).snoc hfits
  · obtain rfl : e = .register c.clock := hkind.resolve_left hzero
    have hdead : ∀ i, (state i).dead = (c.net.state i).dead :=
      dead_update_register c.net.state shard c.clock
    rw [hdead, hdead, if_neg (fun h => hzero h.1.symm)]
    exact h.pending i

/-- A shard issues a transition; only shard 0 issues others than registrations. -/
theorem Sound.issue (h : Sound c) {shard : Fin (n + 1)} {e : GpuEvent} (hstamp : e.stamp = c.clock)
    (hfits : e.Fits (c.net.state shard).dead) (hkind : shard = 0 ∨ e = .register c.clock) :
    Sound (c.issue shard e) := by
  have hlast : ∀ e' ∈ c.issued, e'.stamp ≤ e.stamp := fun e' he' => hstamp ▸ h.past e' he'
  have hsorted : (c.issued ++ [e]).Pairwise fun e e' => e.stamp ≤ e'.stamp := by
    refine List.pairwise_append.mpr ⟨h.sorted, List.pairwise_singleton _ _, ?_⟩
    intro e' he' e'' he''
    obtain rfl := List.mem_singleton.mp he''
    exact hlast e' he'
  have hstates := h.update hfits (List.sublist_append_left c.issued [e]) hsorted
    ((h.told shard).append_right [e])
  refine ⟨fun i => (hstates i).1, fun i => (hstates i).2.1, fun i => (hstates i).2.2, hsorted,
    ?_, ?_, h.pending_issue hfits hkind⟩
  · rw [show (c.issue shard e).issued = c.issued ++ [e] from rfl, List.forall_mem_append]
    exact ⟨h.past, List.forall_mem_singleton.mpr hstamp.le⟩
  · intro k hk i
    have hflight : (c.issue shard e).net.inFlight k i =
        if k = shard ∧ i ≠ shard then c.net.inFlight k i ++ [e] else c.net.inFlight k i := rfl
    rw [hflight]
    split
    · next hshard =>
      have hregister : e = .register c.clock := hkind.resolve_left (hshard.1 ▸ hk)
      rw [List.forall_mem_append]
      exact ⟨h.registrations k hk i, List.forall_mem_singleton.mpr ⟨_, hregister⟩⟩
    · exact h.registrations k hk i

/-- What arrives is a new status, if it is one. -/
theorem Sound.fits_head (h : Sound c) {sender receiver : Fin (n + 1)} {e : GpuEvent}
    {rest : List GpuEvent} (hhead : c.net.inFlight sender receiver = e :: rest) :
    e.Fits (c.net.state receiver).dead := by
  by_cases hsender : sender = 0
  · subst hsender
    have hpending := h.pending receiver
    rw [hhead] at hpending
    exact hpending.1
  · obtain ⟨now, rfl⟩ :=
      h.registrations sender hsender receiver e (hhead ▸ List.mem_cons_self)
    trivial

/-- What is in flight from shard 0 still leads to what shard 0 has. -/
theorem Sound.pending_deliver (h : Sound c) {sender receiver : Fin (n + 1)} {e : GpuEvent}
    {rest : List GpuEvent} (hhead : c.net.inFlight sender receiver = e :: rest) (i : Fin (n + 1)) :
    let state := Function.update c.net.state receiver (GpuShard.apply e (c.net.state receiver))
    Pending (state i).dead
      (if 0 = sender ∧ i = receiver then (c.net.inFlight 0 i).tail else c.net.inFlight 0 i)
      (state 0).dead := by
  intro state
  by_cases hsender : sender = 0
  · subst hsender
    have hreceiver : receiver ≠ 0 := by
      rintro rfl
      rw [c.net.self_empty] at hhead
      cases hhead
    have hzero : state 0 = c.net.state 0 := Function.update_of_ne hreceiver.symm _ _
    rw [hzero]
    by_cases hi : i = receiver
    · subst hi
      have hpending := h.pending i
      rw [hhead] at hpending
      rw [if_pos ⟨rfl, rfl⟩, hhead, show state i = _ from Function.update_self .., dead_apply]
      exact hpending.2
    · rw [if_neg fun h => hi h.2, show state i = _ from Function.update_of_ne hi ..]
      exact h.pending i
  · obtain ⟨now, rfl⟩ := h.registrations sender hsender receiver e (hhead ▸ List.mem_cons_self)
    have hdead : ∀ i, (state i).dead = (c.net.state i).dead :=
      dead_update_register c.net.state receiver now
    rw [hdead, hdead, if_neg fun h => hsender h.1.symm]
    exact h.pending i

theorem Sound.deliver (h : Sound c) {sender receiver : Fin (n + 1)}
    {net : Network (Fin (n + 1)) GpuShard GpuEvent}
    (hok : ArrivesInOrder c (.deliver sender receiver))
    (hdeliver : c.net.deliver GpuShard.apply sender receiver = some net) :
    Sound { c with net := net } := by
  rw [Network.deliver] at hdeliver
  split at hdeliver
  · cases hdeliver
  · next e rest hhead =>
    have hstates := h.update (h.fits_head hhead) (List.Sublist.refl c.issued) h.sorted
      (hok e (by rw [hhead]; rfl))
    obtain rfl := Option.some.inj hdeliver
    refine ⟨fun i => (hstates i).1, fun i => (hstates i).2.1, fun i => (hstates i).2.2, h.sorted,
      h.past, ?_, h.pending_deliver hhead⟩
    intro k hk i e' he'
    refine h.registrations k hk i e' ?_
    dsimp only at he'
    split at he'
    · exact List.mem_of_mem_tail he'
    · exact he'

theorem Sound.tick (h : Sound c) (duration : ℕ) :
    Sound { c with clock := c.clock + duration } where
  replayed := h.replayed
  steady := h.steady
  told := h.told
  sorted := h.sorted
  past e he := (h.past e he).trans (Nat.le_add_right _ _)
  registrations := h.registrations
  pending := h.pending

theorem Sound.step {a : GpuAction n} (h : Sound c) (hok : ArrivesInOrder c a)
    (hstep : c.step a = some c') : Sound c' := by
  cases a with
  | tick duration =>
    obtain rfl := Option.some.inj hstep
    exact h.tick duration
  | register shard =>
    obtain rfl := Option.some.inj hstep
    exact h.issue rfl trivial (.inr rfl)
  | setStatus isAlive =>
    rw [GpuCluster.step] at hstep
    split at hstep
    · next hnew =>
      obtain rfl := Option.some.inj hstep
      exact h.issue rfl hnew (.inl rfl)
    · obtain rfl := Option.some.inj hstep
      exact h
  | setGpuCount gpuCount =>
    rw [GpuCluster.step] at hstep
    split at hstep
    · next hpositive =>
      obtain rfl := Option.some.inj hstep
      exact h.issue rfl hpositive (.inl rfl)
    · cases hstep
  | deliver sender receiver =>
    rw [GpuCluster.step] at hstep
    split at hstep
    · next net hdeliver =>
      obtain rfl := Option.some.inj hstep
      exact h.deliver hok hdeliver
    · cases hstep
  | scrape shard =>
    obtain rfl := Option.some.inj hstep
    exact h

/-- Every transition has been told to each shard or is on its way to it. -/
def Complete (c : GpuCluster n) : Prop :=
  ∀ i, (c.net.state i).log.length + ∑ k, (c.net.inFlight k i).length = c.issued.length

theorem Complete.issue (h : Complete c) (shard : Fin (n + 1)) (e : GpuEvent) :
    Complete (c.issue shard e) := by
  intro i
  have hissued : (c.issue shard e).issued.length = c.issued.length + 1 := List.length_append
  have hflight : ∀ k, ((c.issue shard e).net.inFlight k i).length =
      (c.net.inFlight k i).length + if k = shard then (if i = shard then 0 else 1) else 0 := by
    intro k
    simp only [GpuCluster.issue, Network.issue]
    by_cases hk : k = shard <;> by_cases hi : i = shard <;> simp [hk, hi]
  have hlog : ((c.issue shard e).net.state i).log.length =
      (c.net.state i).log.length + if i = shard then 1 else 0 := by
    simp only [GpuCluster.issue, Network.issue]
    by_cases hi : i = shard
    · subst hi
      rw [Function.update_self, log_apply, List.length_append, if_pos rfl]
      rfl
    · rw [Function.update_of_ne hi, if_neg hi]
      rfl
  have hi := h i
  rw [hissued, hlog, Finset.sum_congr rfl fun k _ => hflight k, Finset.sum_add_distrib,
    Finset.sum_ite_eq' Finset.univ shard, if_pos (Finset.mem_univ shard)]
  split <;> omega

theorem Complete.deliver (h : Complete c) {sender receiver : Fin (n + 1)}
    {net : Network (Fin (n + 1)) GpuShard GpuEvent}
    (hdeliver : c.net.deliver GpuShard.apply sender receiver = some net) :
    Complete { c with net := net } := by
  rw [Network.deliver] at hdeliver
  split at hdeliver
  · cases hdeliver
  · next e rest hhead =>
    obtain rfl := Option.some.inj hdeliver
    intro i
    dsimp only
    by_cases hi : i = receiver
    · subst hi
      have hflight : ∀ k, (c.net.inFlight k i).length =
          (if k = sender ∧ i = i then (c.net.inFlight k i).tail else c.net.inFlight k i).length +
            if k = sender then 1 else 0 := by
        intro k
        by_cases hk : k = sender
        · subst hk
          simp [hhead]
        · simp [hk]
      have hi := h i
      rw [Finset.sum_congr rfl fun k _ => hflight k, Finset.sum_add_distrib,
        Finset.sum_ite_eq' Finset.univ sender, if_pos (Finset.mem_univ sender)] at hi
      rw [Function.update_self, log_apply, List.length_append, List.length_singleton]
      omega
    · have hsame : ∀ k, (if k = sender ∧ i = receiver then (c.net.inFlight k i).tail
          else c.net.inFlight k i) = c.net.inFlight k i := fun k => if_neg fun h => hi h.2
      rw [Function.update_of_ne hi, Finset.sum_congr rfl fun k _ => congrArg List.length (hsame k)]
      exact h i

theorem Complete.step {a : GpuAction n} (h : Complete c) (hstep : c.step a = some c') :
    Complete c' := by
  cases a with
  | tick | scrape =>
    obtain rfl := Option.some.inj hstep
    exact h
  | register shard =>
    obtain rfl := Option.some.inj hstep
    exact h.issue shard (.register c.clock)
  | setStatus isAlive =>
    rw [GpuCluster.step] at hstep
    split at hstep <;> obtain rfl := Option.some.inj hstep
    · exact h.issue 0 (.setStatus isAlive c.clock)
    · exact h
  | setGpuCount gpuCount =>
    rw [GpuCluster.step] at hstep
    split at hstep
    · obtain rfl := Option.some.inj hstep
      exact h.issue 0 (.setGpuCount gpuCount c.clock)
    · cases hstep
  | deliver sender receiver =>
    rw [GpuCluster.step] at hstep
    split at hstep
    · next net hdeliver =>
      obtain rfl := Option.some.inj hstep
      exact h.deliver hdeliver
    · cases hstep

/-- What a shard has been told when nothing is in flight. -/
theorem Sound.log_eq_issued (h : Sound c) (hcomplete : Complete c) (hquiet : c.net.Quiet)
    (i : Fin (n + 1)) : (c.net.state i).log = c.issued := by
  refine (h.told i).eq_of_length ?_
  have hi := hcomplete i
  rwa [Finset.sum_eq_zero fun k _ => by rw [hquiet k i, List.length_nil], Nat.add_zero] at hi

/-- **GPU-seconds are exact where transitions arrive in order.** After any registrations from any
shards, changes of the health and of the count from shard 0, deliveries, scrapes and ticks of
the clock: if nothing was delivered to a shard that had been told of something issued later, and
nothing is in flight any more, every shard exposes the integral over all transitions. -/
theorem exposed_eq_gpuSeconds {run : List (GpuAction n)}
    (hexec : exec step (booted n) run = some c) (horder : Meets step ArrivesInOrder (booted n) run)
    (hquiet : c.net.Quiet) (i : Fin (n + 1)) :
    (c.net.state i).getBackendGpuSeconds c.clock = gpuSeconds c.issued c.clock := by
  have hinv : Sound c ∧ Complete c := by
    refine exec_invariant (I := fun _ c => Sound c ∧ Complete c) ?_ (h := []) horder hexec ?_
    · intro _ _ _ _ hok hstep hinv
      exact ⟨hinv.1.step hok hstep, hinv.2.step hstep⟩
    · exact ⟨sound_booted, fun i => by simp [booted]⟩
  obtain ⟨hsound, hcomplete⟩ := hinv
  have hlog := hsound.log_eq_issued hcomplete hquiet i
  have hsteady := hsound.steady i
  rw [hsound.replayed i, hlog]
  rw [hlog] at hsteady
  exact hsteady.getBackendGpuSeconds hsound.past

/-- The first of two shards. -/
def firstShard : Fin (1 + 1) := (Fin.last 0).castSucc

/-- The other one. -/
def otherShard : Fin (1 + 1) := Fin.last 1

/-- A registration, a change of the count and a DOWN, each told to everyone before the next. -/
def toldInOrder : List (GpuAction 1) :=
  [.tick 5, .register otherShard, .deliver otherShard firstShard, .tick 10, .setGpuCount 8,
    .deliver firstShard otherShard, .scrape firstShard, .tick 10, .setStatus false,
    .deliver firstShard otherShard, .tick 40]

/-- One GPU for ten nanoseconds, then eight for ten more. -/
theorem exposed_eq_gpuSeconds_toldInOrder :
    ∃ c, exec step (booted 1) toldInOrder = some c ∧
      (c.net.state otherShard).getBackendGpuSeconds c.clock = gpuSeconds c.issued c.clock ∧
      gpuSeconds c.issued c.clock = 90 / 1000000000 := by
  have hsome : (exec step (booted 1) toldInOrder).isSome := by decide
  refine ⟨_, exec_eq_some_getD hsome, ?_, by decide +kernel⟩
  refine exposed_eq_gpuSeconds (exec_eq_some_getD hsome) (by decide) ?_ otherShard
  unfold Network.Quiet
  decide

/-- Shard 1 registers the backend anew, while a count that was declared before is on its way. -/
def toldTooLate : List (GpuAction 1) :=
  [.register firstShard, .deliver firstShard otherShard, .tick 3, .setGpuCount 8, .tick 2,
    .register otherShard, .deliver firstShard otherShard, .deliver otherShard firstShard, .tick 5]

/-- It then counts eight GPUs since before the registration. There is one, for five
nanoseconds. -/
theorem toldTooLate_exposed :
    ∃ c, exec step (booted 1) toldTooLate = some c ∧ c.net.Quiet ∧
      gpuSeconds c.issued c.clock = 5 / 1000000000 ∧
      (c.net.state firstShard).getBackendGpuSeconds c.clock = 5 / 1000000000 ∧
      (c.net.state otherShard).getBackendGpuSeconds c.clock = 56 / 1000000000 := by
  have hsome : (exec step (booted 1) toldTooLate).isSome := by decide
  refine ⟨_, exec_eq_some_getD hsome, ?_, by decide +kernel, by decide +kernel, by decide +kernel⟩
  unfold Network.Quiet
  decide

end GpuCluster

end Ranvier
