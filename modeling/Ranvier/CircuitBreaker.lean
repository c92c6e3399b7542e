import Mathlib.Data.List.AList
import Ranvier.Types

/-!
# The circuit breaker

One circuit per backend: CLOSED lets requests through, OPEN blocks them until
the recovery timeout has passed, HALF_OPEN lets them through to test recovery.
`allow_request` is asked and also writes: it makes the circuit of a backend it
sees for the first time and half-opens one whose timeout has passed. What it
answers is a predicate of the state before (`admits`), and it writes only to the
circuit it is asked about.
-/

namespace Ranvier

/-- `CircuitState`. -/
inductive CircuitState : Type where
  | CLOSED
  | OPEN
  | HALF_OPEN
  deriving DecidableEq, Repr

/-- `BackendCircuit`. -/
structure BackendCircuit : Type where
  state : CircuitState := .CLOSED
  failureCount : ℕ := 0
  successCount : ℕ := 0
  lastFailureTime : ℕ := 0
  openedAt : ℕ := 0
  deriving DecidableEq, Repr

/-- `CircuitBreaker::Config`. -/
structure CircuitConfig : Type where
  failureThreshold : ℕ := 5
  successThreshold : ℕ := 2
  recoveryTimeout : ℕ := 30
  enabled : Bool := true
  deriving DecidableEq, Repr

/-- `MAX_CIRCUITS`. -/
def maxCircuits : ℕ := 10000

/-- `CircuitBreaker`. -/
structure CircuitBreaker : Type where
  config : CircuitConfig := {}
  circuits : AList (fun _ : BackendId => BackendCircuit) := ∅
  circuitsOverflow : ℕ := 0

namespace CircuitBreaker

/-- Write one circuit. -/
def put (b : CircuitBreaker) (id : BackendId) (circuit : BackendCircuit) : CircuitBreaker :=
  { b with circuits := b.circuits.insert id circuit }

/-- Refuse to track one more circuit. -/
def overflow (b : CircuitBreaker) : CircuitBreaker :=
  { b with circuitsOverflow := b.circuitsOverflow + 1 }

/-- `allow_request`. -/
def allowRequest (b : CircuitBreaker) (now : ℕ) (id : BackendId) : CircuitBreaker × Bool :=
  if !b.config.enabled then (b, true)
  else
    match b.circuits.lookup id with
    | none =>
      if maxCircuits ≤ b.circuits.keys.length then (b.overflow, true) else (b.put id {}, true)
    | some circuit =>
      match circuit.state with
      | .CLOSED => (b, true)
      | .OPEN =>
        if circuit.openedAt + b.config.recoveryTimeout ≤ now then
          (b.put id { circuit with state := .HALF_OPEN, successCount := 0 }, true)
        else (b, false)
      | .HALF_OPEN => (b, true)

/-- A failure seen by a circuit. -/
def BackendCircuit.failed (config : CircuitConfig) (now : ℕ) (circuit : BackendCircuit) :
    BackendCircuit :=
  let circuit :=
    { circuit with failureCount := circuit.failureCount + 1, lastFailureTime := now }
  match circuit.state with
  | .CLOSED =>
    if config.failureThreshold ≤ circuit.failureCount then
      { circuit with state := .OPEN, openedAt := now }
    else circuit
  | .HALF_OPEN => { circuit with state := .OPEN, openedAt := now, successCount := 0 }
  | .OPEN => circuit

/-- `record_failure`. -/
def recordFailure (b : CircuitBreaker) (now : ℕ) (id : BackendId) : CircuitBreaker :=
  if !b.config.enabled then b
  else
    match b.circuits.lookup id with
    | none =>
      if maxCircuits ≤ b.circuits.keys.length then b.overflow
      else b.put id (BackendCircuit.failed b.config now {})
    | some circuit => b.put id (BackendCircuit.failed b.config now circuit)

/-- A success seen by a circuit. -/
def BackendCircuit.succeeded (config : CircuitConfig) (circuit : BackendCircuit) :
    BackendCircuit :=
  match circuit.state with
  | .CLOSED => { circuit with failureCount := 0 }
  | .HALF_OPEN =>
    let circuit := { circuit with successCount := circuit.successCount + 1 }
    if config.successThreshold ≤ circuit.successCount then
      { circuit with state := .CLOSED, failureCount := 0, successCount := 0 }
    else circuit
  -- "Shouldn't happen, but reset if we somehow got a success"
  | .OPEN => { circuit with state := .CLOSED, failureCount := 0 }

/-- `record_success`: no circuit is made for a success. -/
def recordSuccess (b : CircuitBreaker) (id : BackendId) : CircuitBreaker :=
  if !b.config.enabled then b
  else
    match b.circuits.lookup id with
    | none => b
    | some circuit => b.put id (BackendCircuit.succeeded b.config circuit)

/-- `get_state`. -/
def getState (b : CircuitBreaker) (id : BackendId) : CircuitState :=
  match b.circuits.lookup id with
  | none => .CLOSED
  | some circuit => circuit.state

/-! ## What a circuit admits -/

/-- The answer of `allow_request`. -/
def admits (b : CircuitBreaker) (now : ℕ) (id : BackendId) : Bool :=
  !b.config.enabled ||
    match b.circuits.lookup id with
    | none => true
    | some circuit =>
      circuit.state ≠ .OPEN || circuit.openedAt + b.config.recoveryTimeout ≤ now

/-- The two breakers differ at most in one circuit. -/
structure AgreeExcept (id : BackendId) (b b' : CircuitBreaker) : Prop where
  config : b'.config = b.config
  lookup : ∀ other, other ≠ id → b'.circuits.lookup other = b.circuits.lookup other

variable {b b' : CircuitBreaker} {now : ℕ} {id other : BackendId}

theorem AgreeExcept.refl : AgreeExcept id b b := ⟨rfl, fun _ _ => rfl⟩

theorem agreeExcept_put {circuit : BackendCircuit} : AgreeExcept id b (b.put id circuit) :=
  ⟨rfl, fun _ hother => AList.lookup_insert_ne hother⟩

theorem agreeExcept_overflow : AgreeExcept id b b.overflow := ⟨rfl, fun _ _ => rfl⟩

theorem AgreeExcept.admits_eq (h : AgreeExcept id b b') (hother : other ≠ id) :
    b'.admits now other = b.admits now other := by
  rw [admits, admits, h.config, h.lookup other hother]

/-- `allow_request` answers by the state before it. -/
theorem allowRequest_snd : (b.allowRequest now id).2 = b.admits now id := by
  rw [allowRequest, admits]
  cases b.config.enabled with
  | false => rfl
  | true =>
    cases b.circuits.lookup id with
    | none =>
      dsimp only
      split
      · next h => cases h
      · split <;> rfl
    | some circuit =>
      cases hstate : circuit.state with
      | CLOSED => simp [hstate]
      | HALF_OPEN => simp [hstate]
      | OPEN =>
        by_cases htime : circuit.openedAt + b.config.recoveryTimeout ≤ now
        · simp [hstate, htime]
        · simp [hstate, htime]

theorem agreeExcept_recordFailure : AgreeExcept id b (b.recordFailure now id) := by
  rw [recordFailure]
  split
  · exact .refl
  · split
    · split
      · exact agreeExcept_overflow
      · exact agreeExcept_put
    · exact agreeExcept_put

theorem agreeExcept_allowRequest : AgreeExcept id b (b.allowRequest now id).1 := by
  rw [allowRequest]
  split
  · exact .refl
  · split
    · split
      · exact agreeExcept_overflow
      · exact agreeExcept_put
    · split
      · exact .refl
      · split
        · exact agreeExcept_put
        · exact .refl
      · exact .refl

theorem agreeExcept_recordSuccess : AgreeExcept id b (b.recordSuccess id) := by
  rw [recordSuccess]
  split
  · exact .refl
  · split
    · exact .refl
    · exact agreeExcept_put

/-- A refusal leaves no trace. -/
theorem allowRequest_of_not_admits (h : b.admits now id = false) :
    b.allowRequest now id = (b, false) := by
  rw [admits, Bool.or_eq_false_iff] at h
  obtain ⟨henabled, hcircuit⟩ := h
  rw [allowRequest, henabled]
  cases hlookup : b.circuits.lookup id with
  | none =>
    rw [hlookup] at hcircuit
    cases hcircuit
  | some circuit =>
    rw [hlookup] at hcircuit
    obtain ⟨hstate, htime⟩ := Bool.or_eq_false_iff.mp hcircuit
    have hopen : circuit.state = .OPEN := by simpa using hstate
    have hearly : ¬circuit.openedAt + b.config.recoveryTimeout ≤ now := by simpa using htime
    simp [hopen, hearly]

end CircuitBreaker

end Ranvier
