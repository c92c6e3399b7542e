import Mathlib.Data.Finset.Sort
import Ranvier.CircuitBreaker
import Ranvier.Routing
import Ranvier.Run

/-!
# Where a request is directed to

A request takes its backend at three places: from routing, from
`get_fallback_backend` when the circuit of the routed backend is open, and from
`get_fallback_backend` again after each failed connection attempt. Between two
attempts the request is suspended and the rest of the shard runs, so the shard's
state, the breaker and the configuration may be anything when it goes on.

Routing selects among the live backends. `get_fallback_backend` goes through all
registered ones and asks only their circuits: the first admitted one is taken,
draining or dead or not.

What the request learns, its guards and its metrics are left out.
-/

namespace Ranvier

/-- `MAX_FALLBACK_ATTEMPTS`. -/
def maxFallbackAttempts : ℕ := 3

/-- The part of the controller's configuration that is read here. -/
structure ControllerConfig : Type where
  /-- `circuit_breaker.fallback_enabled` -/
  fallbackEnabled : Bool := true
  /-- `retry.max_retries` -/
  maxRetries : ℕ := 3
  deriving DecidableEq, Repr

/-- The part of `ProxyContext` that the connection phase uses. -/
structure ConnectContext : Type where
  currentBackend : BackendId
  currentAddr : SocketAddress
  fallbackEnabled : Bool
  maxRetries : ℕ
  fallbackAttempts : ℕ := 0
  retryAttempt : ℕ := 0
  deriving DecidableEq, Repr

/-- How far a request is. -/
inductive DispatchPhase : Type where
  | arrived
  /-- answered with an error before any connection -/
  | rejected (error : String)
  | connecting (ctx : ConnectContext)
  | connected (ctx : ConnectContext)
  | connectionFailed (ctx : ConnectContext)
  deriving DecidableEq, Repr

/-- A request on its shard. -/
structure Dispatch : Type where
  shard : ShardRouting
  breaker : CircuitBreaker := {}
  config : ControllerConfig := {}
  phase : DispatchPhase := .arrived
  /-- the backends it was directed to, each with the shard's state at its choice -/
  directed : List (ShardRouting × BackendId) := []

/-- What can happen to a request; clock readings come with the action. -/
inductive DispatchAction : Type where
  /-- the rest of the shard ran while the request was suspended -/
  | meanwhile (shard : ShardRouting) (breaker : CircuitBreaker) (config : ControllerConfig)
  | route (req : RouteRequest) (c : Circumstances)
  /-- the deadline is seen at the head of the connection loop -/
  | deadline (now : ℕ)
  | attemptSucceeded
  | attemptFailed (now : ℕ)

/-- The loop of `get_fallback_backend`. -/
def firstAllowed (now : ℕ) (failedId : BackendId) :
    List BackendId → CircuitBreaker → CircuitBreaker × Option BackendId
  | [], breaker => (breaker, none)
  | id :: ids, breaker =>
    if id ≠ failedId then
      let asked := breaker.allowRequest now id
      if asked.2 then (asked.1, some id) else firstAllowed now failedId ids asked.1
    else firstAllowed now failedId ids breaker

namespace Dispatch

variable (d : Dispatch)

/-- `get_fallback_backend`. -/
def getFallbackBackend (now : ℕ) (failedId : BackendId) : CircuitBreaker × Option BackendId :=
  if !d.config.fallbackEnabled then (d.breaker, none)
  else firstAllowed now failedId d.shard.getAllBackendIds d.breaker

/-- The request goes to the backend at this address. -/
def direct (ctx : ConnectContext) : Dispatch :=
  { d with
    phase := .connecting ctx
    directed := d.directed ++ [(d.shard, ctx.currentBackend)] }

/-- `handle_proxy` once the target is known. -/
def startConnecting (target : BackendId) : Dispatch :=
  match d.shard.getBackendAddress target with
  | none => { d with phase := .rejected "Backend IP not found" }
  | some addr =>
    d.direct
      { currentBackend := target
        currentAddr := addr
        fallbackEnabled := d.config.fallbackEnabled
        maxRetries := d.config.maxRetries }

/-- `handle_proxy` from the routing decision to the connection phase. -/
def handleProxy (req : RouteRequest) (c : Circumstances) : Dispatch :=
  let result := d.shard.routeRequest req c
  match result.backendId with
  | none => { d with phase := .rejected (result.errorMessage ++ "!") }
  | some target =>
    let asked := d.breaker.allowRequest c.now target
    let d := { d with breaker := asked.1 }
    if asked.2 then d.startConnecting target
    else
      let fallback := d.getFallbackBackend c.now target
      let d := { d with breaker := fallback.1 }
      match fallback.2 with
      | none => { d with phase := .rejected "All backends unavailable (circuit breaker open)" }
      | some id => d.startConnecting id

/-- The connect fallback: the breaker after it, and the target with its address. -/
def connectFallback (ctx : ConnectContext) (now : ℕ) :
    CircuitBreaker × Option (BackendId × SocketAddress) :=
  if ctx.fallbackEnabled && ctx.fallbackAttempts < maxFallbackAttempts then
    let fallback := d.getFallbackBackend now ctx.currentBackend
    (fallback.1, fallback.2.bind fun id => (d.shard.getBackendAddress id).map fun addr => (id, addr))
  else (d.breaker, none)

/-- The same backend again after the backoff, or the end of the phase. -/
def retryOrFail (ctx : ConnectContext) : Dispatch :=
  if ctx.retryAttempt < ctx.maxRetries then
    { d with phase := .connecting { ctx with retryAttempt := ctx.retryAttempt + 1 } }
  else { d with phase := .connectionFailed ctx }

/-- A failed attempt in `establish_backend_connection`. -/
def attemptFailed (ctx : ConnectContext) (now : ℕ) : Dispatch :=
  let d := { d with breaker := d.breaker.recordFailure now ctx.currentBackend }
  if d.breaker.getState ctx.currentBackend = .OPEN then { d with phase := .connectionFailed ctx }
  else
    let fallback := d.connectFallback ctx now
    let d := { d with breaker := fallback.1 }
    match fallback.2 with
    | some (id, addr) =>
      d.direct
        { ctx with
          currentBackend := id
          currentAddr := addr
          fallbackAttempts := ctx.fallbackAttempts + 1 }
    | none => d.retryOrFail ctx

/-- One action, if the request is where it can happen. -/
def step : DispatchAction → Option Dispatch
  | .meanwhile shard breaker config =>
    some { d with shard := shard, breaker := breaker, config := config }
  | .route req c =>
    match d.phase with
    | .arrived => some (d.handleProxy req c)
    | _ => none
  | .deadline now =>
    match d.phase with
    | .connecting ctx =>
      some { d with
        breaker := d.breaker.recordFailure now ctx.currentBackend
        phase := .connectionFailed ctx }
    | _ => none
  | .attemptSucceeded =>
    match d.phase with
    | .connecting ctx => some { d with phase := .connected ctx }
    | _ => none
  | .attemptFailed now =>
    match d.phase with
    | .connecting ctx => some (d.attemptFailed ctx now)
    | _ => none

/-! ## Which fallback is taken -/

/-- `get_fallback_backend` may take the backend: it is another one and its circuit
admits requests. -/
def Eligible (now : ℕ) (failedId id : BackendId) : Prop :=
  id ≠ failedId ∧ d.breaker.admits now id = true

/-- Registered, but draining or marked dead. -/
def Unfit (s : ShardRouting) (id : BackendId) : Prop :=
  ∃ info, s.backends id = some info ∧ (info.isDraining = true ∨ id ∈ s.deadBackends)

/-- No unfit backend is ahead of all others the fallback may take: each has an
eligible one before it in the order of registration. -/
def UnfitBehind (now : ℕ) (failedId : BackendId) : Prop :=
  ∀ before id behind, d.shard.backendIds = before ++ id :: behind → d.Eligible now failedId id →
    Unfit d.shard id → ∃ earlier ∈ before, d.Eligible now failedId earlier

/-- What a step needs to direct the request to a live backend: routing has a
candidate, and where the step looks for a fallback, the unfit are behind. -/
def LooksAtLive : DispatchAction → Prop
  | .route req c =>
    ¬d.shard.ReadsBehindEnd req c ∧
      ∀ target, (d.shard.routeRequest req c).backendId = some target →
        d.breaker.admits c.now target = false → d.config.fallbackEnabled = true →
          d.UnfitBehind c.now target
  | .attemptFailed now =>
    ∀ ctx, d.phase = .connecting ctx →
      (d.breaker.recordFailure now ctx.currentBackend).getState ctx.currentBackend ≠ .OPEN →
        ctx.fallbackEnabled = true → ctx.fallbackAttempts < maxFallbackAttempts →
          d.config.fallbackEnabled = true → d.UnfitBehind now ctx.currentBackend
  | _ => True

variable {d}

/-- The loop takes the first backend that is eligible before it: a circuit that
refuses is left as it was. -/
theorem firstAllowed_snd {now : ℕ} {failedId : BackendId} {ids : List BackendId}
    {b : CircuitBreaker} :
    (firstAllowed now failedId ids b).2 =
      ids.find? fun id => id ≠ failedId && b.admits now id := by
  induction ids with
  | nil => rfl
  | cons id ids ih =>
    rw [firstAllowed]
    by_cases hid : id = failedId
    · rw [if_neg (not_not.mpr hid), ih]
      simp [hid]
    · rw [if_pos hid]
      cases hadmits : b.admits now id with
      | true =>
        have hasked := @CircuitBreaker.allowRequest_snd b now id
        rw [hadmits] at hasked
        simp [hasked, hid, hadmits]
      | false =>
        simp [CircuitBreaker.allowRequest_of_not_admits hadmits, ih, hid, hadmits]

/-- The fallback is the first eligible backend in the order of registration. -/
theorem getFallbackBackend_eq_some {now : ℕ} {failedId id : BackendId}
    (h : (d.getFallbackBackend now failedId).2 = some id) :
    d.config.fallbackEnabled = true ∧ d.Eligible now failedId id ∧
      ∃ before behind, d.shard.backendIds = before ++ id :: behind ∧
        ∀ earlier ∈ before, ¬d.Eligible now failedId earlier := by
  rw [getFallbackBackend] at h
  split at h
  · cases h
  · next henabled =>
    rw [firstAllowed_snd] at h
    obtain ⟨hid, before, behind, hsplit, hbefore⟩ := List.find?_eq_some_iff_append.mp h
    refine ⟨by simpa using henabled, by simpa [Eligible] using hid, before, behind, hsplit, ?_⟩
    rintro earlier hearlier ⟨hother, hadmits⟩
    simpa [hother, hadmits] using hbefore earlier hearlier

theorem live_of_not_unfit {s : ShardRouting} {id : BackendId} {addr : SocketAddress}
    (haddr : s.getBackendAddress id = some addr) (h : ¬Unfit s id) : s.Live id := by
  obtain ⟨info, hinfo, -⟩ := Option.map_eq_some_iff.mp haddr
  refine ⟨fun hdead => h ⟨info, hinfo, .inr hdead⟩, info, hinfo, ?_⟩
  by_contra hdraining
  exact h ⟨info, hinfo, .inl (by simpa using hdraining)⟩

theorem getFallbackBackend_live {now : ℕ} {failedId id : BackendId} {addr : SocketAddress}
    (hfit : d.config.fallbackEnabled = true → d.UnfitBehind now failedId)
    (h : (d.getFallbackBackend now failedId).2 = some id)
    (haddr : d.shard.getBackendAddress id = some addr) : d.shard.Live id := by
  obtain ⟨henabled, heligible, before, behind, hsplit, hfirst⟩ := getFallbackBackend_eq_some h
  refine live_of_not_unfit haddr fun hunfit => ?_
  obtain ⟨earlier, hearlier, hmay⟩ := hfit henabled before id behind hsplit heligible hunfit
  exact hfirst earlier hearlier hmay

/-- Writing to the failed backend's circuit changes nothing for the others. -/
theorem unfitBehind_of_agreeExcept {now : ℕ} {failedId : BackendId} {b : CircuitBreaker}
    (hagree : CircuitBreaker.AgreeExcept failedId d.breaker b) (h : d.UnfitBehind now failedId) :
    ({ d with breaker := b } : Dispatch).UnfitBehind now failedId := by
  have heligible : ∀ id, ({ d with breaker := b } : Dispatch).Eligible now failedId id ↔
      d.Eligible now failedId id := by
    intro id
    refine and_congr_right fun hid => ?_
    rw [hagree.admits_eq hid]
  intro before id behind hsplit hid hunfit
  obtain ⟨earlier, hearlier, hmay⟩ := h before id behind hsplit ((heligible id).mp hid) hunfit
  exact ⟨earlier, hearlier, (heligible earlier).mpr hmay⟩

/-! ## Runs -/

/-- Each backend so far was live in the state it was chosen in. -/
def DirectedLive (d : Dispatch) : Prop := ∀ e ∈ d.directed, e.1.Live e.2

theorem DirectedLive.direct {ctx : ConnectContext} (h : d.DirectedLive)
    (hlive : d.shard.Live ctx.currentBackend) : (d.direct ctx).DirectedLive := by
  intro e he
  rcases List.mem_append.mp he with hold | hnew
  · exact h e hold
  · obtain rfl := List.mem_singleton.mp hnew
    exact hlive

theorem DirectedLive.startConnecting {target : BackendId} (h : d.DirectedLive)
    (hlive : ∀ addr, d.shard.getBackendAddress target = some addr → d.shard.Live target) :
    (d.startConnecting target).DirectedLive := by
  rw [Dispatch.startConnecting]
  split
  · exact h
  · next addr haddr => exact h.direct (hlive addr haddr)

theorem DirectedLive.handleProxy {req : RouteRequest} {c : Circumstances} (h : d.DirectedLive)
    (hok : d.LooksAtLive (.route req c)) : (d.handleProxy req c).DirectedLive := by
  obtain ⟨hread, hfallback⟩ := hok
  rw [Dispatch.handleProxy]
  dsimp only
  split
  · exact h
  · next target htarget =>
    split
    · have hold : ({ d with breaker := (d.breaker.allowRequest c.now target).1 } :
          Dispatch).DirectedLive := h
      exact hold.startConnecting fun _ _ => ShardRouting.routeRequest_live hread htarget
    · next hrefused =>
      split
      · exact h
      · next id hid =>
        -- the refusal left the breaker as it was
        have hadmits : d.breaker.admits c.now target = false := by
          rw [← CircuitBreaker.allowRequest_snd]
          simpa using hrefused
        rw [CircuitBreaker.allowRequest_of_not_admits hadmits] at hid ⊢
        have hlive : ∀ addr, d.shard.getBackendAddress id = some addr → d.shard.Live id :=
          fun addr haddr => getFallbackBackend_live (hfallback target htarget hadmits) hid haddr
        exact DirectedLive.startConnecting h hlive

theorem DirectedLive.attemptFailed {ctx : ConnectContext} {now : ℕ} (h : d.DirectedLive)
    (hphase : d.phase = .connecting ctx) (hok : d.LooksAtLive (.attemptFailed now)) :
    (d.attemptFailed ctx now).DirectedLive := by
  rw [Dispatch.attemptFailed]
  dsimp only
  split
  · exact h
  · next hopen =>
    split
    · next id addr hfallback =>
      have hlive : d.shard.Live id := by
        rw [connectFallback] at hfallback
        split at hfallback
        · next hmay =>
          obtain ⟨henabled, hattempts⟩ := Bool.and_eq_true_iff.mp hmay
          obtain ⟨id', hid', htarget⟩ := Option.bind_eq_some_iff.mp hfallback
          obtain ⟨addr', haddr', heq⟩ := Option.map_eq_some_iff.mp htarget
          obtain ⟨rfl, rfl⟩ := Prod.mk.inj heq
          -- the failure was recorded first, in the circuit of the failed backend only
          have hbehind : d.config.fallbackEnabled = true →
              Dispatch.UnfitBehind
                { d with breaker := d.breaker.recordFailure now ctx.currentBackend } now
                ctx.currentBackend := fun hconfig =>
            unfitBehind_of_agreeExcept CircuitBreaker.agreeExcept_recordFailure
              (hok ctx hphase hopen henabled (of_decide_eq_true hattempts) hconfig)
          have hfound := getFallbackBackend_live hbehind hid' haddr'
          exact hfound
        · cases hfallback
      exact DirectedLive.direct h hlive
    · rw [retryOrFail]
      split
      · exact h
      · exact h

/-- One step keeps the request's backends live at their choice. -/
theorem DirectedLive.step {d' : Dispatch} {a : DispatchAction} (h : d.DirectedLive)
    (hok : d.LooksAtLive a) (hstep : d.step a = some d') : d'.DirectedLive := by
  -- only routing and a failed attempt direct the request anywhere
  cases a with
  | meanwhile shard breaker config =>
    obtain rfl := Option.some.inj hstep
    exact h
  | route req c =>
    rw [Dispatch.step] at hstep
    split at hstep
    · obtain rfl := Option.some.inj hstep
      exact h.handleProxy hok
    · cases hstep
  | deadline now =>
    rw [Dispatch.step] at hstep
    split at hstep
    · obtain rfl := Option.some.inj hstep
      exact h
    · cases hstep
  | attemptSucceeded =>
    rw [Dispatch.step] at hstep
    split at hstep
    · obtain rfl := Option.some.inj hstep
      exact h
    · cases hstep
  | attemptFailed now =>
    rw [Dispatch.step] at hstep
    split at hstep
    · next ctx hphase =>
      obtain rfl := Option.some.inj hstep
      exact h.attemptFailed hphase hok
    · cases hstep

/-- **A request is directed to live backends** in every run in which each search
for a fallback finds the draining and the dead backends behind an eligible one,
and routing never reads behind the end of its candidates. -/
theorem directed_live {d d' : Dispatch} {as : List DispatchAction} (hnew : d.directed = [])
    (hmeets : Meets step LooksAtLive d as) (hexec : exec step d as = some d') :
    ∀ e ∈ d'.directed, e.1.Live e.2 := by
  have hstart : d.DirectedLive := by
    intro e he
    rw [hnew] at he
    cases he
  exact exec_invariant (I := fun _ d => d.DirectedLive) (h := [])
    (fun hok hstep hinv => hinv.step hok hstep) hmeets hexec hstart

/-- Two backends under weighted random routing, the second one draining or not. -/
def twoBackends (draining : Bool) : ShardRouting where
  kv := emptyShard
  quarantined := ∅
  backends := fun id =>
    if id = 1 then some { addr := 101 }
    else if id = 2 then some { addr := 102, isDraining := draining }
    else none
  backendIds := [1, 2]
  backendIds_nodup := by decide
  deadBackends := ∅
  config := { blockAlignment := ⟨1, Nat.one_pos⟩, routingMode := .RANDOM }
  failOpenActive := false
  crossShardLoad := fun _ => none
  gpuLoadCache := {}
  cacheHeadroomCache := {}
  residencyCache := fun _ => none
  scoringWeightsOverrides := fun _ => none

/-- The routing of a request on which the generator rolls zero. -/
def routeRollZero : DispatchAction :=
  .route { tokens := [] }
    { now := 0
      roll := 0
      listing := fun ids => ids.sort (· ≤ ·)
      listing_coe := fun _ => Finset.sort_eq _ _
      behindEnd := 0 }

/-- Where a run directs the request, and whether the backend was live then. -/
def targets (start : Dispatch) (as : List DispatchAction) : Option (List (BackendId × Bool)) :=
  (exec step start as).map fun d => d.directed.map fun e => (e.2, e.1.isLive e.2)

/-- Neither of two backends that are not draining is unfit. -/
theorem not_unfit_twoBackends {id : BackendId} : ¬Unfit (twoBackends false) id := by
  rintro ⟨info, hinfo, hdraining | hdead⟩
  · rw [twoBackends] at hinfo
    dsimp only at hinfo
    split at hinfo
    · obtain rfl := Option.some.inj hinfo
      cases hdraining
    · split at hinfo
      · obtain rfl := Option.some.inj hinfo
        cases hdraining
      · cases hinfo
  · exact absurd hdead (Finset.notMem_empty id)

theorem directed_live_two_backends :
    targets { shard := twoBackends false } [routeRollZero, .attemptFailed 1] =
        some [(1, true), (2, true)] ∧
      ∀ d', exec step { shard := twoBackends false } [routeRollZero, .attemptFailed 1] = some d' →
        ∀ e ∈ d'.directed, e.1.Live e.2 := by
  have hmeets : Meets step LooksAtLive { shard := twoBackends false }
      [routeRollZero, .attemptFailed 1] := by
    refine ⟨⟨?_, ?_⟩, ?_⟩
    · rintro ⟨-, hmode, -⟩
      cases hmode
    · intro target _ hadmits
      cases hadmits
    · refine ⟨?_, ?_⟩
      · intro ctx _ _ _ _ _ before id behind _ _ hunfit
        exact absurd hunfit not_unfit_twoBackends
      · split <;> trivial
  exact ⟨by decide, fun d' hexec => directed_live rfl hmeets hexec⟩

/-- While the attempt at backend 1 is under way backend 2 is drained; the attempt
fails, and the request goes to backend 2. -/
theorem fallback_to_draining :
    ¬∀ (d d' : Dispatch) (as : List DispatchAction), d.directed = [] → exec step d as = some d' →
      ∀ e ∈ d'.directed, e.1.Live e.2 := by
  intro hclaim
  have hrun : targets { shard := twoBackends false }
      [routeRollZero, .meanwhile (twoBackends true) {} {}, .attemptFailed 1] =
        some [(1, true), (2, false)] := by
    decide
  obtain ⟨d', hexec, hdirected⟩ := Option.map_eq_some_iff.mp hrun
  have hmem : (2, false) ∈ d'.directed.map fun e => (e.2, e.1.isLive e.2) := by
    rw [hdirected]
    exact List.mem_cons_of_mem _ List.mem_cons_self
  obtain ⟨e, he, htarget⟩ := List.mem_map.mp hmem
  have hlive := e.1.isLive_iff.mpr (hclaim _ d' _ rfl hexec e he)
  rw [(Prod.mk.inj htarget).2] at hlive
  cases hlive

end Dispatch

end Ranvier
