import Ranvier.Dispatch
import Ranvier.Registry

/-!
# The connection phase

`establish_backend_connection` tries the request's backend, and after each failed attempt
another backend, or the same one after a backoff. Its counters are 32-bit. While an
attempt or a backoff is under way the rest of the shard runs, so what the loop sees in a
turn (the clock, the circuits, the registered backends, the configuration) comes with
the turn. The lengths of the backoffs, the body's token ids and the learn target have no
influence on the loop and are left out.

* `Connecting.turn` — one turn of the loop;
* `Excused` — nothing was left to fall back on;
* `connection_phase` — the phase fails early only if it is excused, unless an attempt
  leaves its circuit OPEN; the attempts are bounded, unless `max_retries` is the largest
  32-bit number.
-/

namespace Ranvier

/-! ## Registered backends have addresses -/

/-- Every listed backend has a record. -/
def ShardRouting.Listed (s : ShardRouting) : Prop :=
  ∀ id ∈ s.backendIds, (s.backends id).isSome = true

section Listed

variable {s : ShardRegistry}

theorem listed_updateBackend {target : BackendId} {f : BackendInfo → BackendInfo}
    (h : s.Listed) : (s.updateBackend target f).Listed := by
  intro id hid
  have hold := h id hid
  by_cases heq : id = target
  · subst heq
    simpa [ShardRegistry.updateBackend] using hold
  · simpa [ShardRegistry.updateBackend, Function.update_of_ne heq] using hold

/-- The registry keeps the list and the map in step. -/
theorem listed_apply (m : RegistryMessage) (h : s.Listed) : (m.apply s).Listed := by
  cases m with
  | register target r =>
    intro id hid
    by_cases heq : id = target
    · subst heq
      simp [RegistryMessage.apply, ShardRegistry.registerBackend]
    · have hold : id ∈ s.backendIds := by
        simp only [RegistryMessage.apply, ShardRegistry.registerBackend] at hid
        split at hid
        · exact hid
        · simpa [heq] using hid
      simpa [RegistryMessage.apply, ShardRegistry.registerBackend, Function.update_of_ne heq]
        using h id hold
  | unregister target =>
    intro id hid
    have hne : id ≠ target := fun heq => by
      subst heq
      exact (List.Nodup.not_mem_erase s.backendIds_nodup) hid
    have hold := h id (List.mem_of_mem_erase hid)
    simpa [RegistryMessage.apply, ShardRegistry.unregisterBackend, Function.update_of_ne hne]
      using hold
  | drain target now => exact listed_updateBackend h
  | setStatus target isAlive => exact h

theorem listed_guard (a : ShardRegistry.GuardAction) (h : s.Listed) : (s.guard a).Listed := by
  cases a with
  | beginRequest id => exact listed_updateBackend h
  | endRequest id => exact listed_updateBackend h
  | reserveCost id cost =>
    rw [ShardRegistry.guard]
    split
    · exact listed_updateBackend h
    · exact h
  | releaseCost id cost => exact listed_updateBackend h

end Listed

/-! ## The loop -/

/-- How the loop was left. -/
inductive ConnectExit : Type where
  | connected
  | deadline
  | circuitOpen
  | retriesSpent
  deriving DecidableEq, Repr

/-- The part of `ProxyContext` that the loop uses, and what it has done so far. -/
structure Connecting : Type where
  currentBackend : BackendId
  currentAddr : SocketAddress
  requestDeadline : ℤ
  fallbackEnabled : Bool
  maxRetries : UInt32
  retryAttempt : UInt32 := 0
  fallbackAttempts : UInt32 := 0
  connectionFailed : Bool := false
  /-- the backend of each connection attempt -/
  attempted : List BackendId := []
  /-- the backend of each attempt that failed -/
  failedAttempts : List BackendId := []
  /-- the argument of each call of `record_failure` -/
  recordedFailures : List BackendId := []
  exit : Option ConnectExit := none
  deriving DecidableEq, Repr

/-- What the loop sees in one turn: the clock when it looks for the deadline, and, once
the attempt has ended, its outcome and the shard as it is then. -/
structure ConnectTurn : Type where
  headTime : ℤ
  connected : Bool
  now : ℕ
  shard : ShardRouting
  listed : shard.Listed
  breaker : CircuitBreaker
  config : ControllerConfig

namespace Connecting

/-- The counters as numbers. -/
def toContext (c : Connecting) : ConnectContext where
  currentBackend := c.currentBackend
  currentAddr := c.currentAddr
  fallbackEnabled := c.fallbackEnabled
  maxRetries := c.maxRetries.toNat
  fallbackAttempts := c.fallbackAttempts.toNat
  retryAttempt := c.retryAttempt.toNat

/-- The backend to fall back on, with its address. -/
def fallback (c : Connecting) (t : ConnectTurn) (breaker : CircuitBreaker) :
    Option (BackendId × SocketAddress) :=
  (Dispatch.connectFallback { shard := t.shard, breaker := breaker, config := t.config }
    c.toContext t.now).2

/-- The end of the loop's body, and the condition of the loop. -/
def retryOrGiveUp (c : Connecting) : Connecting :=
  let c := if c.retryAttempt < c.maxRetries then c else { c with connectionFailed := true }
  let c := { c with retryAttempt := c.retryAttempt + 1 }
  if c.retryAttempt ≤ c.maxRetries then c else { c with exit := some .retriesSpent }

/-- The current backend is tried. -/
def attempting (c : Connecting) : Connecting :=
  { c with attempted := c.attempted ++ [c.currentBackend] }

/-- An attempt has failed, and the failure is recorded. -/
def noteFailure (c : Connecting) : Connecting :=
  { c with
    failedAttempts := c.failedAttempts ++ [c.currentBackend]
    recordedFailures := c.recordedFailures ++ [c.currentBackend] }

/-- The request is pointed at another backend. -/
def fallBackTo (c : Connecting) (id : BackendId) (addr : SocketAddress) : Connecting :=
  { c with
    currentBackend := id
    currentAddr := addr
    fallbackAttempts := c.fallbackAttempts + 1 }

/-- What follows a failed attempt. -/
def attemptFailed (c : Connecting) (t : ConnectTurn) : Connecting :=
  let breaker := t.breaker.recordFailure t.now c.currentBackend
  let c := c.noteFailure
  -- "Short-circuit retries if circuit breaker opened for this backend"
  if breaker.getState c.currentBackend = .OPEN then
    { c with connectionFailed := true, exit := some .circuitOpen }
  else
    match c.fallback t breaker with
    | some (id, addr) => c.fallBackTo id addr
    | none => c.retryOrGiveUp

/-- One turn of the loop in `establish_backend_connection`, unless it was left. -/
def turn (c : Connecting) (t : ConnectTurn) : Option Connecting :=
  if c.exit = none then
    some (
      if c.requestDeadline ≤ t.headTime then
        { c with
          connectionFailed := true
          recordedFailures := c.recordedFailures ++ [c.currentBackend]
          exit := some .deadline }
      else
        let c := c.attempting
        if t.connected then { c with connectionFailed := false, exit := some .connected }
        else c.attemptFailed t)
  else none

/-- The loop has not begun. -/
structure Fresh (c : Connecting) : Prop where
  retryAttempt : c.retryAttempt = 0
  fallbackAttempts : c.fallbackAttempts = 0
  attempted : c.attempted = []
  failedAttempts : c.failedAttempts = []
  recordedFailures : c.recordedFailures = []
  exit : c.exit = none

/-! ## What is claimed of a turn -/

/-- Fallback is disabled, or the limit is used up, or no circuit of another backend
admits a request. -/
def Excused (c : Connecting) (t : ConnectTurn) : Prop :=
  c.fallbackEnabled = false ∨ t.config.fallbackEnabled = false ∨
    maxFallbackAttempts ≤ c.fallbackAttempts.toNat ∨
    ∀ id ∈ t.shard.getAllBackendIds, id ≠ c.currentBackend → t.breaker.admits t.now id = false

/-- If the turn ends the phase in failure, and not for the deadline, it is excused. -/
def FailsExcused (c : Connecting) (t : ConnectTurn) : Prop :=
  ∀ c', c.turn t = some c' → c'.connectionFailed = true → c'.exit ≠ none →
    c'.exit ≠ some .deadline → c.Excused t

/-- A failure more leaves the circuit of the turn's backend OPEN. -/
def LeavesOpen (c : Connecting) (t : ConnectTurn) : Prop :=
  (t.breaker.recordFailure t.now c.currentBackend).getState c.currentBackend = .OPEN

/-- If the turn's attempt fails and that leaves the circuit OPEN, the turn is excused. -/
def OpensExcused (c : Connecting) (t : ConnectTurn) : Prop :=
  c.exit = none → t.headTime < c.requestDeadline → t.connected = false → c.LeavesOpen t →
    c.Excused t

variable {c c' start : Connecting} {t : ConnectTurn} {ts : List ConnectTurn}

/-! ## One turn -/

/-- Without a backend to fall back on the turn is excused. -/
theorem excused_of_fallback
    (h : c.fallback t (t.breaker.recordFailure t.now c.currentBackend) = none) : c.Excused t := by
  rw [fallback, Dispatch.connectFallback] at h
  split at h
  · dsimp only at h
    rw [Dispatch.getFallbackBackend] at h
    split at h
    · next hconfig => exact .inr (.inl (by simpa using hconfig))
    · rw [Dispatch.firstAllowed_snd] at h
      refine .inr (.inr (.inr fun id hid hother => ?_))
      by_contra hadmits
      -- some backend is admitted, and it has an address
      rw [Bool.not_eq_false] at hadmits
      have hagree := @CircuitBreaker.agreeExcept_recordFailure t.breaker t.now c.currentBackend
      rw [← hagree.admits_eq hother] at hadmits
      cases hfound : t.shard.getAllBackendIds.find? fun id => id ≠ c.currentBackend &&
          (t.breaker.recordFailure t.now c.currentBackend).admits t.now id with
      | none => simpa [hother, hadmits] using List.find?_eq_none.mp hfound id hid
      | some found =>
        obtain ⟨info, hinfo⟩ :=
          Option.isSome_iff_exists.mp (t.listed found (List.mem_of_find?_eq_some hfound))
        have htarget : ((t.shard.getAllBackendIds.find? fun id => id ≠ c.currentBackend &&
            (t.breaker.recordFailure t.now c.currentBackend).admits t.now id).bind fun id =>
              (t.shard.getBackendAddress id).map fun addr => (id, addr)) = none := h
        rw [hfound, Option.bind_some, ShardRouting.getBackendAddress, hinfo] at htarget
        cases htarget
  · next hmay =>
    rw [Bool.and_eq_true, not_and_or] at hmay
    rcases hmay with henabled | hattempts
    · exact .inl (by simpa [toContext] using henabled)
    · exact .inr (.inr (.inl (Nat.le_of_not_lt fun hlt => hattempts (decide_eq_true hlt))))

/-- What a turn can do to the loop. -/
inductive TurnOutcome (c : Connecting) (t : ConnectTurn) : Connecting → Prop where
  | deadline (htime : c.requestDeadline ≤ t.headTime) :
    TurnOutcome c t { c with
      connectionFailed := true
      recordedFailures := c.recordedFailures ++ [c.currentBackend]
      exit := some .deadline }
  | connected (htime : t.headTime < c.requestDeadline) (h : t.connected = true) :
    TurnOutcome c t { c.attempting with connectionFailed := false, exit := some .connected }
  | circuitOpen (htime : t.headTime < c.requestDeadline) (h : t.connected = false)
      (hopen : c.LeavesOpen t) :
    TurnOutcome c t { c.attempting.noteFailure with
      connectionFailed := true
      exit := some .circuitOpen }
  | fallback {id : BackendId} {addr : SocketAddress} (hattempts : c.fallbackAttempts.toNat < 3) :
    TurnOutcome c t (c.attempting.noteFailure.fallBackTo id addr)
  | retry (hexcused : c.Excused t) :
    TurnOutcome c t c.attempting.noteFailure.retryOrGiveUp

theorem fallback_spec {id : BackendId} {addr : SocketAddress} {b : CircuitBreaker}
    (h : c.fallback t b = some (id, addr)) : c.fallbackAttempts.toNat < 3 := by
  rw [fallback, Dispatch.connectFallback] at h
  split at h
  · next hmay => exact of_decide_eq_true (Bool.and_eq_true_iff.mp hmay).2
  · cases h

theorem turn_of_failed (hexit : c.exit = none) (htime : t.headTime < c.requestDeadline)
    (hfailed : t.connected = false) : c.turn t = some (c.attempting.attemptFailed t) := by
  rw [turn, if_pos hexit, if_neg (not_le.mpr htime), hfailed]
  rfl

theorem turn_outcome (h : c.turn t = some c') : c.exit = none ∧ TurnOutcome c t c' := by
  rw [turn] at h
  split at h
  · next hexit =>
    refine ⟨hexit, ?_⟩
    obtain rfl := Option.some.inj h
    split
    · next htime => exact .deadline htime
    · next htime =>
      rw [not_le] at htime
      dsimp only
      split
      · next hconnected => exact .connected htime hconnected
      · next hconnected =>
        rw [attemptFailed]
        split
        · next hopen => exact .circuitOpen htime (by simpa using hconnected) hopen
        · split
          · next id addr hfallback => exact .fallback (fallback_spec hfallback)
          · next hfallback => exact .retry (excused_of_fallback hfallback)
  · cases h

/-- **One turn**, seen from both sides. -/
theorem failsExcused_iff : c.FailsExcused t ↔ c.OpensExcused t := by
  constructor
  · intro hfails hexit htime hfailed hopen
    have hattempt : c.attempting.attemptFailed t = { c.attempting.noteFailure with
        connectionFailed := true
        exit := some .circuitOpen } := if_pos hopen
    have hturn := turn_of_failed hexit htime hfailed
    rw [hattempt] at hturn
    exact hfails _ hturn rfl (by simp) (by simp)
  · intro hopens c' hturn hfailed hleft hdeadline
    obtain ⟨hexit, hout⟩ := turn_outcome hturn
    cases hout with
    | deadline htime => exact absurd rfl hdeadline
    | connected htime h => cases hfailed
    | circuitOpen htime h hopen => exact hopens hexit htime h hopen
    | fallback hattempts => exact absurd hexit hleft
    | retry hexcused => exact hexcused

/-! ## The number of attempts -/

/-- The attempts so far are counted by the two counters; the last one may have left the
loop. -/
structure Counted (start c : Connecting) : Prop where
  maxRetries : c.maxRetries = start.maxRetries
  retries : c.exit = none → c.retryAttempt.toNat ≤ start.maxRetries.toNat
  fallbacks : c.fallbackAttempts.toNat ≤ 3
  attempts : c.exit = none →
    c.attempted.length = c.retryAttempt.toNat + c.fallbackAttempts.toNat
  total : c.attempted.length ≤ 1 + start.maxRetries.toNat + 3

theorem counted_fresh (h : start.Fresh) : Counted start start := by
  refine ⟨rfl, ?_, ?_, ?_, ?_⟩
  · simp [h.retryAttempt]
  · simp [h.fallbackAttempts]
  · simp [h.attempted, h.retryAttempt, h.fallbackAttempts]
  · simp [h.attempted]

/-- The end of the loop's body counts, and leaves the rest alone. -/
theorem retryOrGiveUp_spec (c : Connecting) :
    ∃ failed, c.retryOrGiveUp =
      { c with
        retryAttempt := c.retryAttempt + 1
        connectionFailed := failed
        exit := if c.retryAttempt + 1 ≤ c.maxRetries then c.exit else some .retriesSpent } := by
  rw [retryOrGiveUp]
  split_ifs with hleft hloop hloop
  · exact ⟨_, rfl⟩
  · exact ⟨_, rfl⟩
  · exact ⟨_, rfl⟩
  · exact ⟨_, rfl⟩

/-- A 32-bit counter below a limit that is not the largest number. -/
theorem toNat_succ_of_le {n limit : UInt32} (hlimit : limit.toNat ≠ 2 ^ 32 - 1)
    (h : n.toNat ≤ limit.toNat) : (n + 1).toNat = n.toNat + 1 := by
  have hlt := limit.toNat_lt
  rw [UInt32.toNat_add]
  change (n.toNat + 1) % 2 ^ 32 = n.toNat + 1
  omega

/-- One turn. -/
theorem Counted.turn (hlimit : start.maxRetries.toNat ≠ 2 ^ 32 - 1) (h : Counted start c)
    (hturn : c.turn t = some c') : Counted start c' := by
  obtain ⟨hexit, hout⟩ := turn_outcome hturn
  have hretries := h.retries hexit
  have hfallbacks := h.fallbacks
  have hattempts := h.attempts hexit
  have hone : c.attempting.noteFailure.attempted.length = c.attempted.length + 1 :=
    List.length_append
  cases hout with
  | deadline htime => exact ⟨h.maxRetries, nofun, hfallbacks, nofun, h.total⟩
  | connected htime hconnected =>
    refine ⟨h.maxRetries, nofun, hfallbacks, nofun, ?_⟩
    exact hone.trans_le (by omega)
  | circuitOpen htime hfailed hopen =>
    refine ⟨h.maxRetries, nofun, hfallbacks, nofun, ?_⟩
    exact hone.trans_le (by omega)
  | fallback hroom =>
    have hnext : (c.fallbackAttempts + 1).toNat = c.fallbackAttempts.toNat + 1 := by
      rw [UInt32.toNat_add]
      change (c.fallbackAttempts.toNat + 1) % 2 ^ 32 = _
      omega
    refine ⟨h.maxRetries, fun _ => hretries, ?_, fun _ => ?_, ?_⟩
    · change (c.fallbackAttempts + 1).toNat ≤ 3
      omega
    · change c.attempting.noteFailure.attempted.length =
        c.retryAttempt.toNat + (c.fallbackAttempts + 1).toNat
      omega
    · exact hone.trans_le (by omega)
  | retry hexcused =>
    obtain ⟨failed, hspec⟩ := retryOrGiveUp_spec c.attempting.noteFailure
    rw [hspec]
    have hnext := toNat_succ_of_le hlimit hretries
    refine ⟨h.maxRetries, fun hexit' => ?_, hfallbacks, fun _ => ?_, ?_⟩
    · by_cases hloop : c.retryAttempt + 1 ≤ c.maxRetries
      · rw [← h.maxRetries]
        exact UInt32.le_iff_toNat_le.mp hloop
      · cases (if_neg hloop).symm.trans hexit'
    · change c.attempting.noteFailure.attempted.length =
        (c.retryAttempt + 1).toNat + c.fallbackAttempts.toNat
      omega
    · exact hone.trans_le (by omega)

theorem counted_run (hlimit : start.maxRetries.toNat ≠ 2 ^ 32 - 1) (hfresh : start.Fresh)
    (hexec : exec turn start ts = some c) : Counted start c :=
  exec_induction (I := fun _ => Counted start) (h := [])
    (fun hturn h => h.turn hlimit hturn) hexec (counted_fresh hfresh)

/-! ## Attempts without end -/

/-- A turn in which nothing works: the attempt fails, the breaker is off, and so is the
fallback. -/
def idleTurn (headTime : ℤ) : ConnectTurn where
  headTime := headTime
  connected := false
  now := 0
  shard := Dispatch.twoBackends false
  listed := by
    intro id hid
    simp only [Dispatch.twoBackends, List.mem_cons, List.not_mem_nil, or_false] at hid
    rcases hid with rfl | rfl
    · rfl
    · rfl
  breaker := { config := { enabled := false } }
  config := { fallbackEnabled := false }

theorem turn_idleTurn {headTime : ℤ} (hexit : c.exit = none)
    (htime : headTime < c.requestDeadline) :
    c.turn (idleTurn headTime) = some c.attempting.noteFailure.retryOrGiveUp := by
  have hfallback : ∀ b, c.attempting.noteFailure.fallback (idleTurn headTime) b = none := by
    intro b
    rw [fallback, Dispatch.connectFallback]
    split
    · rfl
    · rfl
  have hattempt : c.attempting.attemptFailed (idleTurn headTime) =
      c.attempting.noteFailure.retryOrGiveUp := by
    -- A breaker that is off reads as closed.
    have hclosed : ((idleTurn headTime).breaker.recordFailure (idleTurn headTime).now
        c.attempting.currentBackend).getState c.attempting.noteFailure.currentBackend ≠ .OPEN := by
      intro hopen
      cases hopen
    rw [attemptFailed, if_neg hclosed, hfallback]
  rw [turn_of_failed hexit htime rfl, hattempt]

/-- With the largest `max_retries` the counter never gets past it. -/
theorem idle_run (hmax : start.maxRetries.toNat = 2 ^ 32 - 1) (hfresh : start.Fresh) (n : ℕ) :
    ∃ c, exec turn start (List.replicate n (idleTurn (start.requestDeadline - 1))) = some c ∧
      c.exit = none ∧ c.attempted.length = n ∧ c.maxRetries = start.maxRetries ∧
      c.requestDeadline = start.requestDeadline := by
  induction n with
  | zero => exact ⟨start, rfl, hfresh.exit, by rw [hfresh.attempted]; rfl, rfl, rfl⟩
  | succ n ih =>
    obtain ⟨c, hexec, hexit, hlength, hretries, hdeadline⟩ := ih
    have htime : start.requestDeadline - 1 < c.requestDeadline := by omega
    have hturn := turn_idleTurn hexit htime
    obtain ⟨failed, hspec⟩ := retryOrGiveUp_spec c.attempting.noteFailure
    have hloop : c.retryAttempt + 1 ≤ c.maxRetries := by
      have hlt := (c.retryAttempt + 1).toNat_lt
      rw [UInt32.le_iff_toNat_le, hretries, hmax]
      omega
    refine ⟨c.attempting.noteFailure.retryOrGiveUp, ?_, ?_, ?_, ?_, ?_⟩
    · rw [List.replicate_succ', exec_append hexec, exec, hturn]
      rfl
    · rw [hspec]
      exact (if_pos hloop).trans hexit
    · rw [hspec]
      exact List.length_append.trans (by rw [hlength]; rfl)
    · rw [hspec]
      exact hretries
    · rw [hspec]
      exact hdeadline

/-! ## Main result -/

/-- **The connection phase.** In a run of the loop, each turn that ends the phase in
failure (and not for the deadline) is excused, if and only if each failed attempt that
leaves its circuit OPEN is. And all runs make at most `1 + max_retries + 3` attempts, if
and only if `max_retries` is not the largest 32-bit number. -/
theorem connection_phase (hfresh : start.Fresh) :
    (∀ ts, Meets turn FailsExcused start ts ↔ Meets turn OpensExcused start ts) ∧
      ((∀ ts c, exec turn start ts = some c →
        c.attempted.length ≤ 1 + start.maxRetries.toNat + maxFallbackAttempts) ↔
          start.maxRetries.toNat ≠ 2 ^ 32 - 1) := by
  refine ⟨fun ts => ?_, ?_, ?_⟩
  · have hsame : FailsExcused = OpensExcused := by
      funext c t
      exact propext failsExcused_iff
    rw [hsame]
  · intro hbound hmax
    obtain ⟨c, hexec, -, hlength, -, -⟩ := idle_run hmax hfresh (2 ^ 32 + 4)
    have hle := hbound _ c hexec
    rw [hlength, hmax, maxFallbackAttempts] at hle
    omega
  · intro hlimit ts c hexec
    exact (counted_run hlimit hfresh hexec).total

/-- A request for backend 1 with the default settings. -/
def toBackendOne : Connecting where
  currentBackend := 1
  currentAddr := 101
  requestDeadline := 300
  fallbackEnabled := true
  maxRetries := 3

/-- The attempt fails at time 1, and backend 1 has failed four times before. -/
def fifthFailure : ConnectTurn where
  headTime := 0
  connected := false
  now := 1
  shard := Dispatch.twoBackends false
  listed := (idleTurn 0).listed
  breaker := (List.replicate 4 1).foldl (fun b id => b.recordFailure 0 id) {}
  config := {}

theorem fresh_toBackendOne : toBackendOne.Fresh := ⟨rfl, rfl, rfl, rfl, rfl, rfl⟩

theorem connection_phase_first_failure :
    toBackendOne.Fresh ∧ ∀ ts c, exec turn toBackendOne ts = some c → c.attempted.length ≤ 7 :=
  ⟨fresh_toBackendOne, (connection_phase fresh_toBackendOne).2.mpr (by decide)⟩

/-- The failure opens the circuit, and the phase is over although backend 2 is there to
fall back on. -/
theorem open_circuit_skips_fallback :
    ¬∀ (start : Connecting) (ts : List ConnectTurn), start.Fresh →
      Meets turn FailsExcused start ts := by
  intro hclaim
  obtain ⟨hfails, -⟩ := hclaim toBackendOne [fifthFailure] fresh_toBackendOne
  have hopen : toBackendOne.LeavesOpen fifthFailure := by
    rw [LeavesOpen]
    decide
  have hexcused := failsExcused_iff.mp hfails rfl (by decide) rfl hopen
  rcases hexcused with hoff | hoff | hspent | hnone
  · cases hoff
  · cases hoff
  · exact absurd hspent (by decide)
  · have hrefused := hnone 2 (by decide) (by decide)
    revert hrefused
    decide

end Connecting

end Ranvier
