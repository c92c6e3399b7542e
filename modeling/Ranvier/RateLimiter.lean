import Mathlib.Algebra.Order.Field.Rat
import Mathlib.Data.Nat.Cast.Order.Basic
import Ranvier.KeyedMap
import Ranvier.Run
import Ranvier.TokenBuckets
import Ranvier.Types

/-!
# The rate limiter

`BasicRateLimiter::allow` and the service's `cleanup_async`, which goes over the
buckets with an iterator and yields after each `kYieldInterval` of them. Times are
seconds, taken exactly, and the clock never goes back.

A client whose bucket is dropped gets a full one with the next request. What makes
this harmless is the idle limit: `refill_covers_burst` — an ideal bucket of the same
rate and burst (at least one each) is full again by the time the code drops the
real one. So every request the limiter charges to a bucket can be charged to the
ideal bucket too (`Shadowed`), and that one admits `burst + rate * T` in time `T`.

What is not harmless is a request that creates a bucket while a pass is suspended: the
insertion may rehash the table, and the pass goes on with an iterator that is no
longer good.

* `LimiterState`, `LimiterState.step` — the limiter of a shard with its cleanup pass;
* `limiter_window_bound` — the **rate limit**, in every run in which no bucket created
  while a pass is suspended makes the table rehash;
* `limiter_window_exceeded` — a run in which one does.
-/

namespace Ranvier

/-- `RateLimiterConfig`; the cleanup interval only says when a pass starts. -/
structure RateLimiterConfig : Type where
  enabled : Bool := false
  requestsPerSecond : ℕ := 100
  burstSize : ℕ := 50
  deriving DecidableEq, Repr

/-- `BasicTokenBucket`. -/
structure TokenBucket : Type where
  tokens : ℚ
  lastRefill : ℚ
  deriving DecidableEq, Repr

/-- `BasicRateLimiter`. -/
structure RateLimiter : Type where
  config : RateLimiterConfig
  buckets : KeyedMap String TokenBucket := {}
  overflowCount : ℕ := 0
  bucketsCleanedTotal : ℕ := 0

/-- `MAX_BUCKETS`. -/
def maxBuckets : ℕ := 100000

/-- `duration_cast<seconds>`: towards zero. -/
def truncSeconds (d : ℚ) : ℤ := if 0 ≤ d then d.floor else d.ceil

namespace RateLimiter

variable (l : RateLimiter)

/-- The request is let through because no bucket may be created for it. -/
def refusedByCap (clientIp : String) : Bool :=
  (l.buckets.find clientIp).isNone && decide (maxBuckets ≤ l.buckets.size)

/-- The request creates a bucket. -/
def creates (clientIp : String) : Bool :=
  l.config.enabled && (l.buckets.find clientIp).isNone && decide (l.buckets.size < maxBuckets)

/-- The bucket filled up to `now`. -/
def refilled (bucket : TokenBucket) (now : ℚ) : ℚ :=
  min (l.config.burstSize : ℚ)
    (bucket.tokens + (now - bucket.lastRefill) * l.config.requestsPerSecond)

/-- `allow`. The clock is read at `now` and, when a bucket is created, once more at
`created`. -/
def allow (clientIp : String) (now created : ℚ) : Bool × RateLimiter :=
  if !l.config.enabled then (true, l)
  else
    match l.buckets.find clientIp with
    | none =>
      if maxBuckets ≤ l.buckets.size then
        (true, { l with overflowCount := l.overflowCount + 1 })
      else
        -- the first request is always allowed
        (true, { l with buckets := l.buckets.set clientIp ⟨l.config.burstSize - 1, created⟩ })
    | some bucket =>
      let tokens := l.refilled bucket now
      if 1 ≤ tokens then
        (true, { l with buckets := l.buckets.set clientIp ⟨tokens - 1, now⟩ })
      else (false, { l with buckets := l.buckets.set clientIp ⟨tokens, now⟩ })

/-- `max_idle` of `cleanup_async`, in seconds. -/
def maxIdle : ℕ :=
  max (l.config.burstSize / max l.config.requestsPerSecond 1 * 2) 60

/-- One round of the loop of `cleanup_async`, whose clock was read at `now`: the
limiter, and whether the bucket was removed. -/
def cleanupOne (now : ℚ) (clientIp : String) : RateLimiter × Bool :=
  match l.buckets.find clientIp with
  | none => (l, false)
  | some bucket =>
    if (l.maxIdle : ℤ) < truncSeconds (now - bucket.lastRefill) then
      ({ l with buckets := l.buckets.erase clientIp }, true)
    else (l, false)

end RateLimiter

/-! ## Requests and cleanup passes -/

/-- A request and what it was answered. -/
structure LimiterAnswer : Type where
  client : String
  time : ℚ
  allowed : Bool
  /-- let through because no bucket could be created -/
  overCap : Bool
  deriving DecidableEq, Repr

/-- A `cleanup_async` under way. -/
structure CleanupPass : Type where
  /-- its clock reading -/
  now : ℚ
  removed : ℕ := 0
  iterations : ℕ := 0
  /-- the client whose entry its iterator points to; none at the end -/
  next : Option String
  /-- it waits in `maybe_yield` -/
  suspended : Bool := false
  /-- the table has not been rehashed since -/
  valid : Bool := true
  deriving DecidableEq, Repr

/-- The limiter of a shard with the pass in progress. -/
structure LimiterState : Type where
  limiter : RateLimiter
  /-- the last clock reading -/
  clock : ℚ
  pass : Option CleanupPass := none
  answers : List LimiterAnswer := []

/-- What happens on the shard. A hash map has an order of its own and may rehash when it
gets a new entry, so where an iterator goes and the rehashes come with the action;
`wreck` is the table that a pass leaves behind that goes on with a bad iterator. -/
inductive LimiterAction : Type where
  | request (client : String) (now created : ℚ) (rehash : Bool)
  | startCleanup (now : ℚ) (first : Option String)
  | visit (next : Option String) (yields : Bool)
  | resume (wreck : KeyedMap String TokenBucket)
  | finishCleanup

namespace LimiterState

/-- The iterator is at an entry of the table or at its end. -/
def PointsInto (l : RateLimiter) (it : Option String) : Prop :=
  ∀ client ∈ it, (l.buckets.find client).isSome

instance (l : RateLimiter) (it : Option String) : Decidable (PointsInto l it) :=
  inferInstanceAs (Decidable (∀ client ∈ it, (l.buckets.find client).isSome))

/-- No pass has the reactor: there is none, or it is suspended. -/
def ReactorFree (s : LimiterState) : Prop := ∀ pass ∈ s.pass, pass.suspended = true

instance (s : LimiterState) : Decidable s.ReactorFree :=
  inferInstanceAs (Decidable (∀ pass ∈ s.pass, pass.suspended = true))

/-- One step; the clock never goes back, and the timer is armed again only when a
pass is over. -/
def step (s : LimiterState) : LimiterAction → Option LimiterState
  | .request client now created rehash =>
    if s.ReactorFree ∧ s.clock ≤ now ∧ now ≤ created then
      let r := s.limiter.allow client now created
      some {
        limiter := r.2
        clock := created
        -- only `emplace` can rehash
        pass := if s.limiter.creates client && rehash then
            s.pass.map fun pass => { pass with valid := false }
          else s.pass
        answers := s.answers ++ [⟨client, now, r.1, s.limiter.refusedByCap client⟩] }
    else none
  | .startCleanup now first =>
    if s.pass = none ∧ s.clock ≤ now ∧ PointsInto s.limiter first ∧
        (first = none → s.limiter.buckets.size = 0) then
      some { s with clock := now, pass := some { now := now, next := first } }
    else none
  | .visit next yields =>
    match s.pass with
    | none => none
    | some pass =>
      match pass.next with
      | none => none
      | some client =>
        let r := s.limiter.cleanupOne pass.now client
        if pass.suspended = false ∧ PointsInto r.1 next ∧ next ≠ some client ∧
            (yields = true → (pass.iterations + 1) % kYieldInterval = 0) then
          some { s with
            limiter := r.1
            pass := some { pass with
              removed := if r.2 then pass.removed + 1 else pass.removed
              iterations := pass.iterations + 1
              next := next
              suspended := yields } }
        else none
  | .resume wreck =>
    match s.pass with
    | none => none
    | some pass =>
      if pass.suspended = false then none
      else if pass.valid then some { s with pass := some { pass with suspended := false } }
      else some { s with limiter := { s.limiter with buckets := wreck }, pass := none }
  | .finishCleanup =>
    match s.pass with
    | none => none
    | some pass =>
      if pass.suspended = false ∧ pass.next = none then
        some { s with
          limiter := { s.limiter with
            bucketsCleanedTotal := s.limiter.bucketsCleanedTotal + pass.removed }
          pass := none }
      else none

/-- No bucket created while a pass is suspended makes the table rehash. -/
def Unmoved (s : LimiterState) : LimiterAction → Prop
  | .request client _ _ rehash => s.limiter.creates client → rehash = true → s.pass = none
  | _ => True

instance (s : LimiterState) (a : LimiterAction) : Decidable (s.Unmoved a) := by
  unfold Unmoved
  split <;> infer_instance

/-- The service at start. -/
def start (config : RateLimiterConfig) (now : ℚ) : LimiterState where
  limiter := { config := config }
  clock := now

/-- When the requests of a client were allowed that were charged to a bucket. -/
def chargedTimes (s : LimiterState) (client : String) : List ℚ :=
  (s.answers.filter fun a => decide (a.client = client) && a.allowed && !a.overCap).map
    LimiterAnswer.time

end LimiterState

/-! ## The ideal bucket -/

/-- The rate of the ideal bucket. -/
def RateLimiterConfig.idealRate (config : RateLimiterConfig) : ℚ :=
  max (config.requestsPerSecond : ℚ) 1

/-- Its burst. -/
def RateLimiterConfig.idealBurst (config : RateLimiterConfig) : ℚ := max (config.burstSize : ℚ) 1

section Ideal

variable (config : RateLimiterConfig)

theorem one_le_idealRate : 1 ≤ config.idealRate := le_max_right _ _

theorem one_le_idealBurst : 1 ≤ config.idealBurst := le_max_right _ _

/-- **The idle limit.** In more than `max_idle` whole seconds an ideal bucket fills. -/
theorem refill_covers_burst (l : RateLimiter) :
    l.config.idealBurst ≤ l.config.idealRate * ((l.maxIdle : ℚ) + 1) := by
  have hr : 0 < max l.config.requestsPerSecond 1 := by omega
  -- `burst < (burst / rate + 1) * rate`, and both quotients are doubled or raised to 60
  have hdiv := Nat.lt_div_mul_add hr (a := l.config.burstSize)
  have hidle : l.config.burstSize / max l.config.requestsPerSecond 1 + 1 ≤ l.maxIdle + 1 := by
    rw [RateLimiter.maxIdle]
    omega
  have hmul := Nat.mul_le_mul_right (max l.config.requestsPerSecond 1) hidle
  have hnat : max l.config.burstSize 1 ≤
      max l.config.requestsPerSecond 1 * (l.maxIdle + 1) := by
    rw [Nat.mul_comm (max l.config.requestsPerSecond 1)]
    have hone : 1 ≤ (l.maxIdle + 1) * max l.config.requestsPerSecond 1 :=
      Nat.mul_pos (by omega) hr
    rw [Nat.add_mul, Nat.one_mul] at hmul
    omega
  rw [RateLimiterConfig.idealBurst, RateLimiterConfig.idealRate]
  exact_mod_cast hnat

end Ideal

/-- The bucket of a client never holds more than the ideal bucket; a client without
one may have a full one. -/
structure Shadowed (config : RateLimiterConfig) (bucket : Option TokenBucket) (clock : ℚ)
    (ideal : Bucket ℚ) : Prop where
  nonneg : 0 ≤ ideal.level
  le_burst : ideal.level ≤ config.idealBurst
  time_le : ideal.time ≤ clock
  held : ∀ b, bucket = some b → ideal.time ≤ b.lastRefill ∧ b.lastRefill ≤ clock ∧
    b.tokens ≤ ideal.levelAt config.idealRate config.idealBurst b.lastRefill
  full : bucket = none →
    ideal.levelAt config.idealRate config.idealBurst clock = config.idealBurst

namespace Shadowed

variable {config : RateLimiterConfig} {bucket : Option TokenBucket} {clock now created : ℚ}
  {ideal : Bucket ℚ}

theorem idealRate_nonneg : 0 ≤ config.idealRate := le_trans zero_le_one (one_le_idealRate config)

theorem later (h : Shadowed config bucket clock ideal) {clock' : ℚ} (hle : clock ≤ clock') :
    Shadowed config bucket clock' ideal where
  nonneg := h.nonneg
  le_burst := h.le_burst
  time_le := le_trans h.time_le hle
  held b hb := by
    obtain ⟨htime, hclock, htokens⟩ := h.held b hb
    exact ⟨htime, le_trans hclock hle, htokens⟩
  full hb := by
    have hmono : ideal.levelAt config.idealRate config.idealBurst clock ≤
        ideal.levelAt config.idealRate config.idealBurst clock' :=
      Bucket.levelAt_mono idealRate_nonneg hle
    rw [h.full hb] at hmono
    exact le_antisymm Bucket.levelAt_le_burst hmono

/-- After a token was taken at `now`: a bucket that holds at most what the ideal one
holds at its refill. -/
theorem taken (hone : 1 ≤ ideal.levelAt config.idealRate config.idealBurst now)
    {b : TokenBucket} (hnow : now ≤ b.lastRefill) (hclock : b.lastRefill ≤ clock)
    (htokens : b.tokens ≤ ideal.levelAt config.idealRate config.idealBurst now - 1) :
    Shadowed config (some b) clock (ideal.take config.idealRate config.idealBurst now) := by
  obtain ⟨hnonneg, hburst⟩ := Bucket.take_level_le hone
  refine ⟨hnonneg, hburst, ?_, fun b' hb' => ?_, fun h => by cases h⟩
  · rw [Bucket.take_time]
    exact le_trans hnow hclock
  · obtain rfl := Option.some.inj hb'
    rw [Bucket.take_time]
    rw [← Bucket.take_level] at htokens
    exact ⟨hnow, hclock, le_trans htokens (Bucket.level_le_levelAt idealRate_nonneg hburst hnow)⟩

/-- A new client is allowed, and the ideal bucket is full. -/
theorem create (h : Shadowed config none clock ideal) (hnow : clock ≤ now)
    (hcreated : now ≤ created) :
    1 ≤ ideal.levelAt config.idealRate config.idealBurst now ∧
      Shadowed config (some ⟨config.burstSize - 1, created⟩) created
        (ideal.take config.idealRate config.idealBurst now) := by
  have hfull := (h.later hnow).full rfl
  have hone : 1 ≤ ideal.levelAt config.idealRate config.idealBurst now := by
    rw [hfull]
    exact one_le_idealBurst config
  have hburst : (config.burstSize : ℚ) ≤ config.idealBurst := le_max_left _ _
  refine ⟨hone, taken hone hcreated le_rfl ?_⟩
  rw [hfull]
  dsimp only
  linarith

/-- The refilled bucket holds at most what the ideal one holds. -/
theorem refilled_le (l : RateLimiter) {b : TokenBucket}
    (h : Shadowed l.config (some b) clock ideal) (hnow : clock ≤ now) :
    l.refilled b now ≤ ideal.levelAt l.config.idealRate l.config.idealBurst now := by
  obtain ⟨-, hclock, htokens⟩ := h.held b rfl
  have helapsed : 0 ≤ now - b.lastRefill := by linarith
  have hrate : (l.config.requestsPerSecond : ℚ) ≤ l.config.idealRate := le_max_left _ _
  have hburst : (l.config.burstSize : ℚ) ≤ l.config.idealBurst := le_max_left _ _
  have hmul : (now - b.lastRefill) * l.config.requestsPerSecond ≤
      l.config.idealRate * (now - b.lastRefill) := by
    rw [mul_comm]
    exact mul_le_mul_of_nonneg_right hrate helapsed
  calc l.refilled b now
      ≤ min l.config.idealBurst
          (ideal.levelAt l.config.idealRate l.config.idealBurst b.lastRefill +
            l.config.idealRate * (now - b.lastRefill)) :=
        min_le_min hburst (add_le_add htokens hmul)
    _ ≤ ideal.levelAt l.config.idealRate l.config.idealBurst now := Bucket.levelAt_add_le

/-- A refused request leaves the ideal bucket alone. -/
theorem refuse (l : RateLimiter) {b : TokenBucket} (h : Shadowed l.config (some b) clock ideal)
    (hnow : clock ≤ now) : Shadowed l.config (some ⟨l.refilled b now, now⟩) now ideal where
  nonneg := h.nonneg
  le_burst := h.le_burst
  time_le := le_trans h.time_le hnow
  held b' hb' := by
    obtain rfl := Option.some.inj hb'
    exact ⟨le_trans h.time_le hnow, le_rfl, refilled_le l h hnow⟩
  full hb' := by cases hb'

theorem lt_of_lt_truncSeconds {n : ℕ} {d : ℚ} (h : (n : ℤ) < truncSeconds d) : (n : ℚ) + 1 ≤ d := by
  rw [truncSeconds] at h
  split at h
  · have hle := Rat.le_floor_iff.mp (Int.add_one_le_of_lt h)
    exact_mod_cast hle
  · next hneg =>
    -- a negative duration is not over any limit
    have hceil : d.ceil ≤ 0 := by
      rw [Rat.ceil_le_iff]
      exact_mod_cast (not_le.mp hneg).le
    omega

/-- A bucket that is dropped has been idle long enough for the ideal one to fill. -/
theorem drop (l : RateLimiter) {b : TokenBucket} (h : Shadowed l.config (some b) clock ideal)
    (hnow : now ≤ clock)
    (hidle : (l.maxIdle : ℤ) < truncSeconds (now - b.lastRefill)) :
    Shadowed l.config none clock ideal where
  nonneg := h.nonneg
  le_burst := h.le_burst
  time_le := h.time_le
  held b' hb' := by cases hb'
  full _ := by
    obtain ⟨htime, -, -⟩ := h.held b rfl
    have hlong := lt_of_lt_truncSeconds hidle
    refine Bucket.levelAt_eq_burst h.nonneg (le_trans (refill_covers_burst l) ?_)
    exact mul_le_mul_of_nonneg_left (by linarith) idealRate_nonneg

end Shadowed

/-! ## Every run -/

namespace LimiterState

/-- What every step keeps, from a service started at `begun`. -/
structure Inv (config : RateLimiterConfig) (begun : ℚ) (s : LimiterState) : Prop where
  config_eq : s.limiter.config = config
  /-- a pass in progress read the clock before … -/
  pass_le : ∀ pass ∈ s.pass, pass.now ≤ s.clock
  /-- … and its iterator is good -/
  valid : ∀ pass ∈ s.pass, pass.valid = true
  /-- the charged requests of a client can be charged to an ideal bucket … -/
  conforms : ∀ client, Bucket.Conforms config.idealRate config.idealBurst
    ⟨config.idealBurst, begun⟩ (s.chargedTimes client)
  /-- … that is never behind the real one -/
  shadowed : ∀ client, Shadowed config (s.limiter.buckets.find client) s.clock
    (Bucket.after config.idealRate config.idealBurst ⟨config.idealBurst, begun⟩
      (s.chargedTimes client))

variable {config : RateLimiterConfig} {begun : ℚ} {s s' : LimiterState}

theorem start_inv (config : RateLimiterConfig) (begun : ℚ) :
    Inv config begun (start config begun) where
  config_eq := rfl
  pass_le _ h := by cases h
  valid _ h := by cases h
  conforms _ := trivial
  shadowed _ :=
    { nonneg := le_trans zero_le_one (one_le_idealBurst config)
      le_burst := le_rfl
      time_le := le_rfl
      held := fun b hb => by cases hb
      full := fun _ => Bucket.levelAt_time le_rfl }

theorem chargedTimes_snoc (s : LimiterState) (a : LimiterAnswer) (l : RateLimiter) (clock : ℚ)
    (client : String) :
    chargedTimes { s with limiter := l, clock := clock, answers := s.answers ++ [a] } client =
      s.chargedTimes client ++
        if a.client = client ∧ a.allowed = true ∧ a.overCap = false then [a.time] else [] := by
  simp only [chargedTimes, List.filter_append, List.map_append]
  congr 1
  by_cases ha : a.client = client ∧ a.allowed = true ∧ a.overCap = false
  · rw [if_pos ha, List.filter_cons_of_pos (by simp [ha.1, ha.2.1, ha.2.2])]
    rfl
  · rw [if_neg ha, List.filter_cons_of_neg]
    · rfl
    · intro hall
      rw [Bool.and_eq_true, Bool.and_eq_true, decide_eq_true_iff, Bool.not_eq_true'] at hall
      exact ha ⟨hall.1.1, hall.1.2, hall.2⟩

/-- How one request may end. -/
inductive Charged (l : RateLimiter) (client : String) (now created : ℚ) : Prop where
  /-- no bucket may be created -/
  | capped (h : l.refusedByCap client = true)
      (hallow : l.allow client now created =
        (true, { l with overflowCount := l.overflowCount + 1 }))
  /-- the first request of a client -/
  | opened (h : l.refusedByCap client = false) (hfind : l.buckets.find client = none)
      (hallow : l.allow client now created =
        (true, { l with
          buckets := l.buckets.set client ⟨l.config.burstSize - 1, created⟩ }))
  /-- a token was left -/
  | charged (h : l.refusedByCap client = false) (b : TokenBucket)
      (hfind : l.buckets.find client = some b) (hone : 1 ≤ l.refilled b now)
      (hallow : l.allow client now created =
        (true, { l with buckets := l.buckets.set client ⟨l.refilled b now - 1, now⟩ }))
  /-- none was left -/
  | refused (b : TokenBucket) (hfind : l.buckets.find client = some b)
      (hallow : l.allow client now created =
        (false, { l with buckets := l.buckets.set client ⟨l.refilled b now, now⟩ }))

theorem allow_cases {l : RateLimiter} (henabled : l.config.enabled = true) (client : String)
    (now created : ℚ) : Charged l client now created := by
  have hon : ¬(!l.config.enabled) = true := by simp [henabled]
  cases hfind : l.buckets.find client with
  | none =>
    by_cases hcap : maxBuckets ≤ l.buckets.size
    · refine .capped (by simp [RateLimiter.refusedByCap, hfind, hcap]) ?_
      rw [RateLimiter.allow, if_neg hon, hfind]
      exact if_pos hcap
    · refine .opened (by simp [RateLimiter.refusedByCap, hcap]) hfind ?_
      rw [RateLimiter.allow, if_neg hon, hfind]
      exact if_neg hcap
  | some b =>
    by_cases hone : 1 ≤ l.refilled b now
    · refine .charged (by simp [RateLimiter.refusedByCap, hfind]) b hfind hone ?_
      rw [RateLimiter.allow, if_neg hon, hfind]
      exact if_pos hone
    · refine .refused b hfind ?_
      rw [RateLimiter.allow, if_neg hon, hfind]
      exact if_neg hone

/-- A request concerns its own client: the others keep their buckets and charges. -/
theorem Inv.answered (h : Inv config begun s) {client : String} {created : ℚ} {l : RateLimiter}
    {a : LimiterAnswer} (times : List ℚ) (hclock : s.clock ≤ created)
    (hconfig : l.config = config) (ha : a.client = client)
    (hother : ∀ c, c ≠ client → l.buckets.find c = s.limiter.buckets.find c)
    (htimes : (s.chargedTimes client ++
      if a.allowed = true ∧ a.overCap = false then [a.time] else []) = times)
    (hconforms : Bucket.Conforms config.idealRate config.idealBurst ⟨config.idealBurst, begun⟩
      times)
    (hshadowed : Shadowed config (l.buckets.find client) created
      (Bucket.after config.idealRate config.idealBurst ⟨config.idealBurst, begun⟩ times)) :
    Inv config begun { s with limiter := l, clock := created, answers := s.answers ++ [a] } := by
  have hself : ∀ c, chargedTimes
      { s with limiter := l, clock := created, answers := s.answers ++ [a] } c =
        if c = client then times else s.chargedTimes c := by
    intro c
    rw [chargedTimes_snoc, ha]
    by_cases hc : c = client
    · subst hc
      rw [if_pos rfl, ← htimes]
      simp only [true_and]
    · rw [if_neg hc, if_neg (fun hall => hc hall.1.symm), List.append_nil]
  refine ⟨hconfig, fun pass hpass => ?_, h.valid, fun c => ?_, fun c => ?_⟩
  · exact le_trans (h.pass_le pass hpass) hclock
  · rw [hself]
    split
    · exact hconforms
    · exact h.conforms c
  · rw [hself]
    split
    · next hc =>
      subst hc
      exact hshadowed
    · next hc =>
      rw [hother c hc]
      exact (h.shadowed c).later hclock

theorem Inv.request (h : Inv config begun s) (henabled : config.enabled = true)
    (client : String) {now created : ℚ} (hnow : s.clock ≤ now) (hcreated : now ≤ created) :
    Inv config begun { s with
      limiter := (s.limiter.allow client now created).2
      clock := created
      answers := s.answers ++ [⟨client, now, (s.limiter.allow client now created).1,
        s.limiter.refusedByCap client⟩] } := by
  have hclock := le_trans hnow hcreated
  have hconfig := h.config_eq
  have hshadow := h.shadowed client
  -- a token taken at `now` extends the charges, none leaves them
  have htaken : ∀ (hone : 1 ≤ (Bucket.after config.idealRate config.idealBurst
      ⟨config.idealBurst, begun⟩ (s.chargedTimes client)).levelAt config.idealRate
        config.idealBurst now),
      Bucket.Conforms config.idealRate config.idealBurst ⟨config.idealBurst, begun⟩
        (s.chargedTimes client ++ [now]) := by
    intro hone
    rw [Bucket.conforms_snoc]
    exact ⟨h.conforms client, le_trans hshadow.time_le hnow, hone⟩
  obtain ⟨hcap, hallow⟩ | ⟨hcap, hfind, hallow⟩ | ⟨hcap, b, hfind, hone, hallow⟩ |
    ⟨b, hfind, hallow⟩ := allow_cases (hconfig ▸ henabled) client now created
  · rw [hallow, hcap]
    refine h.answered (s.chargedTimes client) hclock hconfig rfl (fun _ _ => rfl) ?_
      (h.conforms client) (hshadow.later hclock)
    simp
  · rw [hfind] at hshadow
    obtain ⟨hfull, hnew⟩ := hshadow.create hnow hcreated
    rw [hallow, hcap]
    refine h.answered (s.chargedTimes client ++ [now]) hclock hconfig rfl (fun c hc => ?_) ?_
      (htaken hfull) ?_
    · rw [KeyedMap.find_set, if_neg hc]
    · simp
    · rw [KeyedMap.find_set, if_pos rfl, Bucket.after_snoc, hconfig]
      exact hnew
  · rw [hfind, ← hconfig] at hshadow
    have hle := Shadowed.refilled_le s.limiter hshadow hnow
    rw [hconfig] at hle
    have hlevel := le_trans hone hle
    rw [hallow, hcap]
    refine h.answered (s.chargedTimes client ++ [now]) hclock hconfig rfl (fun c hc => ?_) ?_
      (htaken hlevel) ?_
    · rw [KeyedMap.find_set, if_neg hc]
    · simp
    · rw [KeyedMap.find_set, if_pos rfl, Bucket.after_snoc]
      exact Shadowed.taken hlevel le_rfl hcreated (sub_le_sub_right hle 1)
  · rw [hfind, ← hconfig] at hshadow
    have hrefuse := Shadowed.refuse s.limiter hshadow hnow
    rw [hconfig] at hrefuse
    rw [hallow]
    refine h.answered (s.chargedTimes client) hclock hconfig rfl (fun c hc => ?_) ?_
      (h.conforms client) ?_
    · rw [KeyedMap.find_set, if_neg hc]
    · simp
    · rw [KeyedMap.find_set, if_pos rfl]
      exact hrefuse.later hcreated

/-- A visited bucket is kept or dropped. -/
theorem Inv.shadowed_cleanupOne (h : Inv config begun s) {now : ℚ} (hnow : now ≤ s.clock)
    (client c : String) :
    Shadowed config ((s.limiter.cleanupOne now client).1.buckets.find c) s.clock
      (Bucket.after config.idealRate config.idealBurst ⟨config.idealBurst, begun⟩
        (s.chargedTimes c)) := by
  have hshadow := h.shadowed c
  rw [RateLimiter.cleanupOne]
  split
  · exact hshadow
  · next b hfind =>
    split
    · next hidle =>
      dsimp only
      rw [KeyedMap.find_erase]
      split
      · next hc =>
        subst hc
        rw [hfind, ← h.config_eq] at hshadow
        rw [← h.config_eq]
        exact Shadowed.drop s.limiter hshadow hnow hidle
      · exact hshadow
    · exact hshadow

theorem cleanupOne_config (l : RateLimiter) (now : ℚ) (client : String) :
    (l.cleanupOne now client).1.config = l.config := by
  rw [RateLimiter.cleanupOne]
  split
  · rfl
  · split <;> rfl

/-- A pass goes on: no charge changes. -/
theorem Inv.passing (h : Inv config begun s) {l : RateLimiter} {pass : Option CleanupPass}
    (hconfig : l.config = config) (hle : ∀ p ∈ pass, p.now ≤ s.clock)
    (hvalid : ∀ p ∈ pass, p.valid = true)
    (hshadowed : ∀ c, Shadowed config (l.buckets.find c) s.clock
      (Bucket.after config.idealRate config.idealBurst ⟨config.idealBurst, begun⟩
        (s.chargedTimes c))) :
    Inv config begun { s with limiter := l, pass := pass } :=
  ⟨hconfig, hle, hvalid, h.conforms, hshadowed⟩

/-- No bucket is created that moves the entry of a suspended pass. -/
theorem pass_of_unmoved {client : String} {now created : ℚ} {rehash : Bool}
    (hok : s.Unmoved (.request client now created rehash)) :
    (if s.limiter.creates client && rehash then
      s.pass.map fun pass => { pass with valid := false } else s.pass) = s.pass := by
  split
  · next hmoves =>
    obtain ⟨hcreates, hrehash⟩ := Bool.and_eq_true_iff.mp hmoves
    rw [hok hcreates hrehash]
    rfl
  · rfl

theorem Inv.step (henabled : config.enabled = true) {a : LimiterAction} (hok : s.Unmoved a)
    (hstep : s.step a = some s') (h : Inv config begun s) : Inv config begun s' := by
  cases a with
  | request client now created rehash =>
    rw [LimiterState.step] at hstep
    split at hstep
    · next hclock =>
      rw [pass_of_unmoved hok] at hstep
      obtain rfl := Option.some.inj hstep
      exact h.request henabled client hclock.2.1 hclock.2.2
    · cases hstep
  | startCleanup now first =>
    rw [LimiterState.step] at hstep
    split at hstep
    · next hclock =>
      obtain rfl := Option.some.inj hstep
      refine ⟨h.config_eq, fun pass hpass => ?_, fun pass hpass => ?_, h.conforms,
        fun c => (h.shadowed c).later hclock.2.1⟩
      · obtain rfl := Option.some.inj hpass
        exact le_rfl
      · obtain rfl := Option.some.inj hpass
        rfl
    · cases hstep
  | visit next yields =>
    rw [LimiterState.step] at hstep
    split at hstep
    · cases hstep
    · next pass hpass =>
      split at hstep
      · cases hstep
      · next client hclient =>
        dsimp only at hstep
        split at hstep
        · obtain rfl := Option.some.inj hstep
          have hnow := h.pass_le pass hpass
          refine h.passing ((cleanupOne_config _ _ _).trans h.config_eq) (fun p hp => ?_)
            (fun p hp => ?_) (h.shadowed_cleanupOne hnow client)
          · obtain rfl := Option.some.inj hp
            exact hnow
          · obtain rfl := Option.some.inj hp
            exact h.valid pass hpass
        · cases hstep
  | resume wreck =>
    rw [LimiterState.step] at hstep
    split at hstep
    · cases hstep
    · next pass hpass =>
      -- the iterator is good, so the table is not wrecked
      rw [if_pos (h.valid pass hpass)] at hstep
      split at hstep
      · cases hstep
      · obtain rfl := Option.some.inj hstep
        refine h.passing h.config_eq (fun p hp => ?_) (fun p hp => ?_) h.shadowed
        · obtain rfl := Option.some.inj hp
          exact h.pass_le pass hpass
        · obtain rfl := Option.some.inj hp
          exact h.valid pass hpass
  | finishCleanup =>
    rw [LimiterState.step] at hstep
    split at hstep
    · cases hstep
    · split at hstep
      · obtain rfl := Option.some.inj hstep
        exact h.passing h.config_eq nofun nofun h.shadowed
      · cases hstep

end LimiterState

/-- **The rate limit.** In every run of requests and cleanup passes in which no bucket
created while a pass is suspended makes the table rehash, the requests of one client that
were allowed and charged to a bucket in a window of length `T` are at most
`max(burst, 1) + max(rate, 1) * T`. -/
theorem limiter_window_bound (config : RateLimiterConfig) (henabled : config.enabled = true)
    (begun : ℚ) (actions : List LimiterAction) (s : LimiterState)
    (hmeets : Meets LimiterState.step LimiterState.Unmoved (LimiterState.start config begun)
      actions)
    (hrun : exec LimiterState.step (LimiterState.start config begun) actions = some s)
    (client : String) (a T : ℚ) (hT : 0 ≤ T) :
    ((s.answers.filter fun x => decide (x.client = client) && x.allowed && !x.overCap &&
      decide (a ≤ x.time ∧ x.time ≤ a + T)).length : ℚ) ≤
        max (config.burstSize : ℚ) 1 + max (config.requestsPerSecond : ℚ) 1 * T := by
  have hinv : LimiterState.Inv config begun s :=
    exec_invariant (I := fun _ s => LimiterState.Inv config begun s) (h := [])
      (fun hok hstep hinv => hinv.step henabled hok hstep) hmeets hrun
      (LimiterState.start_inv config begun)
  have hwindow := (hinv.conforms client).window_le Shadowed.idealRate_nonneg
    (le_trans zero_le_one (one_le_idealBurst config)) a hT
  have hcount : (s.answers.filter fun x => decide (x.client = client) && x.allowed && !x.overCap &&
      decide (a ≤ x.time ∧ x.time ≤ a + T)).length =
        ((s.chargedTimes client).filter fun t => decide (a ≤ t ∧ t ≤ a + T)).length := by
    rw [LimiterState.chargedTimes, List.filter_map, List.length_map, List.filter_filter]
    congr 1
    refine List.filter_congr fun x _ => ?_
    rw [Bool.and_comm]
    rfl
  rw [hcount]
  exact hwindow

/-- A client that comes once and another that stays: the pass drops the bucket of the
first, which then gets a full one. -/
def oneLeaves : List LimiterAction :=
  [.request "10.0.0.1" 0 0 false, .request "10.0.0.2" 60 60 false,
    .startCleanup 62 (some "10.0.0.1"), .visit (some "10.0.0.2") false, .visit none false,
    .finishCleanup, .request "10.0.0.1" 62 62 false, .request "10.0.0.1" (125 / 2) (125 / 2) false]

theorem limiter_window_bound_oneLeaves :
    ∃ s, exec LimiterState.step (LimiterState.start ⟨true, 1, 1⟩ 0) oneLeaves = some s ∧
      s.limiter.bucketsCleanedTotal = 1 ∧
      s.answers.map LimiterAnswer.allowed = [true, true, true, false] ∧
      ((s.answers.filter fun x => decide (x.client = "10.0.0.1") && x.allowed && !x.overCap &&
        decide ((0 : ℚ) ≤ x.time ∧ x.time ≤ 0 + 63)).length : ℚ) ≤
          max ((1 : ℕ) : ℚ) 1 + max ((1 : ℕ) : ℚ) 1 * 63 := by
  have hsome : (exec LimiterState.step (LimiterState.start ⟨true, 1, 1⟩ 0) oneLeaves).isSome := by
    decide +kernel
  have hrun := exec_eq_some_getD hsome
  exact ⟨_, hrun, by decide +kernel, by decide +kernel,
    limiter_window_bound _ rfl 0 _ _ (by decide +kernel) hrun "10.0.0.1" 0 63 (by decide)⟩

/-! ## A rehash while a pass is suspended -/

/-- The clients of one network. -/
def clientAddress (n : ℕ) : String := "fd00::" ++ Nat.repr n

theorem clientAddress_injective : Function.Injective clientAddress := by
  intro m n h
  have hrepr := congrArg String.toList ((String.append_right_inj _).mp h)
  rw [Nat.toList_repr, Nat.toList_repr] at hrepr
  rw [← Nat.ofDigitChars_ten_toDigits (n := m), hrepr, Nat.ofDigitChars_ten_toDigits]

/-- One request a second, one at a time. -/
def onePerSecond : RateLimiterConfig := ⟨true, 1, 1⟩

/-- The bucket of a client after its first request. -/
def firstBucket : TokenBucket := ⟨(onePerSecond.burstSize : ℚ) - 1, 0⟩

/-- The first `n` clients have sent a request each. -/
def crowded : ℕ → LimiterState
  | 0 => .start onePerSecond 0
  | n + 1 =>
    { limiter := { (crowded n).limiter with
        buckets := (crowded n).limiter.buckets.set (clientAddress n) firstBucket }
      clock := 0
      pass := (crowded n).pass
      answers := (crowded n).answers ++ [⟨clientAddress n, 0, true, false⟩] }

theorem crowded_find (n m : ℕ) :
    (crowded n).limiter.buckets.find (clientAddress m) =
      if m < n then some firstBucket else none := by
  induction n with
  | zero => rfl
  | succ n ih =>
    rw [crowded]
    dsimp only
    rw [KeyedMap.find_set, ih]
    simp only [clientAddress_injective.eq_iff]
    split_ifs <;> first | rfl | omega

theorem crowded_find_new (n : ℕ) : (crowded n).limiter.buckets.find (clientAddress n) = none := by
  rw [crowded_find, if_neg (Nat.lt_irrefl n)]

theorem crowded_size (n : ℕ) : (crowded n).limiter.buckets.size = n := by
  induction n with
  | zero => rfl
  | succ n ih =>
    rw [crowded]
    dsimp only
    rw [KeyedMap.size_set, if_neg (KeyedMap.find_eq_none_iff.mp (crowded_find_new n)), ih]

theorem crowded_config (n : ℕ) : (crowded n).limiter.config = onePerSecond := by
  induction n with
  | zero => rfl
  | succ n ih => exact ih

theorem crowded_pass (n : ℕ) : (crowded n).pass = none := by
  induction n with
  | zero => rfl
  | succ n ih => exact ih

theorem crowded_clock (n : ℕ) : (crowded n).clock = 0 := by
  cases n <;> rfl

theorem crowded_answered {n : ℕ} (h : 0 < n) :
    ⟨clientAddress 0, 0, true, false⟩ ∈ (crowded n).answers := by
  induction n with
  | zero => cases h
  | succ n ih =>
    rw [crowded]
    rcases Nat.eq_zero_or_pos n with rfl | hpos
    · exact List.mem_append_right _ List.mem_cons_self
    · exact List.mem_append_left _ (ih hpos)

/-- A new client's request. -/
theorem crowded_allow {n : ℕ} (h : n < maxBuckets) :
    (crowded n).limiter.allow (clientAddress n) 0 0 = (true, (crowded (n + 1)).limiter) ∧
      (crowded n).limiter.refusedByCap (clientAddress n) = false ∧
      (crowded n).limiter.creates (clientAddress n) = true := by
  have hroom : ¬maxBuckets ≤ (crowded n).limiter.buckets.size := by
    rw [crowded_size]
    omega
  have hon : ¬(!(crowded n).limiter.config.enabled) = true := by
    rw [crowded_config]
    decide
  have hbucket : (⟨((crowded n).limiter.config.burstSize : ℚ) - 1, 0⟩ : TokenBucket) =
      firstBucket := by
    rw [crowded_config]
    rfl
  refine ⟨?_, ?_, ?_⟩
  · rw [RateLimiter.allow, if_neg hon, crowded_find_new]
    dsimp only
    rw [if_neg hroom, hbucket]
    rfl
  · simp [RateLimiter.refusedByCap, hroom]
  · simp [RateLimiter.creates, crowded_config, crowded_find_new, onePerSecond, not_le.mp hroom]

theorem crowded_reached {n : ℕ} (h : n ≤ maxBuckets) :
    exec LimiterState.step (.start onePerSecond 0)
      ((List.range n).map fun i => .request (clientAddress i) 0 0 false) = some (crowded n) := by
  induction n with
  | zero => rfl
  | succ n ih =>
    rw [List.range_succ, List.map_append, exec_append (ih (by omega))]
    obtain ⟨hallow, hcap, -⟩ := crowded_allow (Nat.lt_of_succ_le h)
    have hfree : (crowded n).ReactorFree := by
      rw [LimiterState.ReactorFree, crowded_pass]
      exact nofun
    have hstep : (crowded n).step (.request (clientAddress n) 0 0 false) =
        some (crowded (n + 1)) := by
      rw [LimiterState.step, if_pos ⟨hfree, (crowded_clock n).le, le_rfl⟩, hallow, hcap,
        Bool.and_false]
      rfl
    rw [List.map_singleton, exec, hstep]
    rfl

/-- A pass over the buckets of `n` clients before its visit `k`. -/
def sweeping (n k : ℕ) (suspended valid : Bool) : LimiterState :=
  { crowded n with
    pass := some { now := 0, iterations := k, next := some (clientAddress k), suspended, valid } }

theorem crowded_pointsInto {n k : ℕ} (h : k < n) :
    LimiterState.PointsInto (crowded n).limiter (some (clientAddress k)) := by
  intro client hclient
  obtain rfl := Option.some.inj hclient
  rw [crowded_find, if_pos h]
  rfl

theorem sweeping_start {n : ℕ} (h : 0 < n) :
    (crowded n).step (.startCleanup 0 (some (clientAddress 0))) =
      some (sweeping n 0 false true) := by
  rw [LimiterState.step,
    if_pos ⟨crowded_pass n, (crowded_clock n).le, crowded_pointsInto h, nofun⟩, sweeping,
    crowded_clock]

/-- No bucket has been idle. -/
theorem sweeping_step {n k : ℕ} (h : k + 1 < n) {yields : Bool}
    (hyields : yields = true → (k + 1) % kYieldInterval = 0) :
    (sweeping n k false true).step (.visit (some (clientAddress (k + 1))) yields) =
      some (sweeping n (k + 1) yields true) := by
  have hkept : (crowded n).limiter.cleanupOne 0 (clientAddress k) =
      ((crowded n).limiter, false) := by
    rw [RateLimiter.cleanupOne, crowded_find, if_pos (by omega)]
    refine if_neg ?_
    rw [RateLimiter.maxIdle, crowded_config]
    decide +kernel
  have hne : some (clientAddress (k + 1)) ≠ some (clientAddress k) := by
    rw [Ne, Option.some.injEq, clientAddress_injective.eq_iff]
    omega
  rw [LimiterState.step]
  dsimp only [sweeping]
  rw [hkept]
  exact if_pos ⟨rfl, crowded_pointsInto h, hne, hyields⟩

theorem sweeping_reached {n k : ℕ} (h : k < n) :
    exec LimiterState.step (sweeping n 0 false true)
      ((List.range k).map fun i => .visit (some (clientAddress (i + 1))) false) =
        some (sweeping n k false true) := by
  induction k with
  | zero => rfl
  | succ k ih =>
    rw [List.range_succ, List.map_append, exec_append (ih (by omega)), List.map_singleton, exec,
      sweeping_step h (fun hyields => Bool.noConfusion hyields)]
    rfl

/-- The bucket of a new client moves the entry that the pass waits at. -/
theorem sweeping_rehash {n k : ℕ} (h : n < maxBuckets) :
    (sweeping n k true true).step (.request (clientAddress n) 0 0 true) =
      some (sweeping (n + 1) k true false) := by
  obtain ⟨hallow, hcap, hcreates⟩ := crowded_allow h
  have hfree : (sweeping n k true true).ReactorFree := by
    intro pass hpass
    obtain rfl := Option.some.inj hpass
    rfl
  have hmoves : ((sweeping n k true true).limiter.creates (clientAddress n) && true) = true := by
    rw [Bool.and_true]
    exact hcreates
  rw [LimiterState.step, if_pos ⟨hfree, (crowded_clock n).le, le_rfl⟩, if_pos hmoves]
  dsimp only [sweeping]
  rw [hallow, hcap]
  rfl

/-- The table is lost, and with it the bucket of the first client. -/
theorem sweeping_wrecked (n k : ℕ) :
    (exec LimiterState.step (sweeping n k true false)
        [.resume {}, .request (clientAddress 0) 0 0 false]).map LimiterState.answers =
      some ((crowded n).answers ++ [⟨clientAddress 0, 0, true, false⟩]) := by
  have hon : ¬(!(crowded n).limiter.config.enabled) = true := by
    rw [crowded_config]
    decide
  have hresume : (sweeping n k true false).step (.resume {}) =
      some { crowded n with
        limiter := { (crowded n).limiter with buckets := {} }
        pass := none } := rfl
  have hallow : (({ (crowded n).limiter with buckets := {} } : RateLimiter).allow
      (clientAddress 0) 0 0).1 = true := by
    rw [RateLimiter.allow, if_neg hon]
    rfl
  have hfree : LimiterState.ReactorFree { crowded n with
      limiter := { (crowded n).limiter with buckets := {} }
      pass := none } := by
    intro pass hpass
    cases hpass
  rw [exec, hresume]
  dsimp only
  rw [exec, LimiterState.step, if_pos ⟨hfree, (crowded_clock n).le, le_rfl⟩]
  dsimp only [exec, Option.map_some]
  rw [hallow]
  rfl

/-- The requests of `n` clients, the first visits of a pass until it yields, another client
whose bucket makes the table rehash, and the first client once more. -/
def rehashedRun (n : ℕ) : List LimiterAction :=
  (List.range n).map (fun i => LimiterAction.request (clientAddress i) 0 0 false) ++
    (LimiterAction.startCleanup 0 (some (clientAddress 0)) ::
      ((List.range 127).map (fun i => LimiterAction.visit (some (clientAddress (i + 1))) false) ++
        [LimiterAction.visit (some (clientAddress 128)) true, .request (clientAddress n) 0 0 true,
          .resume {}, .request (clientAddress 0) 0 0 false]))

theorem rehashedRun_answers {n : ℕ} (h : 128 < n) (hcap : n < maxBuckets) :
    (exec LimiterState.step (.start onePerSecond 0) (rehashedRun n)).map LimiterState.answers =
      some ((crowded (n + 1)).answers ++ [⟨clientAddress 0, 0, true, false⟩]) := by
  rw [rehashedRun, exec_append (crowded_reached hcap.le), exec, sweeping_start (by omega)]
  dsimp only
  rw [exec_append (sweeping_reached (by omega)), exec, sweeping_step h (fun _ => rfl)]
  dsimp only
  rw [exec, sweeping_rehash hcap]
  exact sweeping_wrecked (n + 1) 128

/-- What is in a list and comes once more is there twice. -/
theorem two_le_length_filter {α : Type} {p : α → Bool} {l : List α} {x : α} (hx : x ∈ l)
    (hp : p x = true) : 2 ≤ ((l ++ [x]).filter p).length := by
  have hpos := List.length_pos_of_mem (List.mem_filter.mpr ⟨hx, hp⟩)
  rw [List.filter_append, List.length_append, List.filter_cons_of_pos hp, List.length_cons]
  omega

/-- 257 clients send a request each; a cleanup pass yields after 128 buckets, and the next
client's bucket makes the table grow (libstdc++ goes from 257 to 541 slots there). The pass
goes on with an iterator that is no longer good; if the first client's bucket is lost by
this, its second request within no time is allowed. -/
theorem limiter_window_exceeded :
    ¬∀ (config : RateLimiterConfig) (begun : ℚ) (actions : List LimiterAction) (s : LimiterState),
      config.enabled = true →
      exec LimiterState.step (LimiterState.start config begun) actions = some s →
      ∀ (client : String) (a T : ℚ), 0 ≤ T →
        ((s.answers.filter fun x => decide (x.client = client) && x.allowed && !x.overCap &&
          decide (a ≤ x.time ∧ x.time ≤ a + T)).length : ℚ) ≤
            max (config.burstSize : ℚ) 1 + max (config.requestsPerSecond : ℚ) 1 * T := by
  intro hclaim
  obtain ⟨s, hrun, hanswers⟩ := Option.map_eq_some_iff.mp
    (@rehashedRun_answers 257 (by decide) (by decide))
  have hle := hclaim onePerSecond 0 (rehashedRun 257) s rfl hrun (clientAddress 0) 0 0 le_rfl
  rw [hanswers] at hle
  have htwo := two_le_length_filter (p := fun x : LimiterAnswer =>
    decide (x.client = clientAddress 0) && x.allowed && !x.overCap &&
      decide ((0 : ℚ) ≤ x.time ∧ x.time ≤ 0 + 0)) (@crowded_answered (257 + 1) (by decide))
    (by simp)
  have hone := hle.trans_eq (by norm_num [onePerSecond] : _ = ((1 : ℕ) : ℚ))
  exact absurd (Nat.cast_le.mp hone) (Nat.not_le.mpr htwo)

end Ranvier
