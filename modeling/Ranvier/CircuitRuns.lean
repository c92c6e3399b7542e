import Ranvier.CircuitBreaker

/-!
# Runs of the circuit breaker

Requests are admitted, and their outcomes are recorded, in any order: the outcome of a
request that was let through before the circuit opened may arrive long after. A run is a
list of calls, each with the reading of the clock it makes.

* `BlocksWhileOpen` — an opened circuit refuses until the recovery timeout has passed;
* `ClosesThroughHalfOpen` — an open circuit closes only by way of HALF_OPEN, and enough
  successes recorded there;
* `circuit_recovers_iff` — both hold of a run if and only if no success is recorded for
  the backend while its circuit is OPEN;
* `late_success_closes` — such a success need not be an answer to a probe.
-/

namespace Ranvier

/-- A call of a request, with what it reads from the clock. -/
inductive CircuitAction : Type where
  | allowRequest (now : ℕ) (id : BackendId)
  | recordSuccess (id : BackendId)
  | recordFailure (now : ℕ) (id : BackendId)
  deriving DecidableEq, Repr

namespace CircuitBreaker

/-- One call. -/
def act (b : CircuitBreaker) : CircuitAction → CircuitBreaker
  | .allowRequest now id => (b.allowRequest now id).1
  | .recordSuccess id => b.recordSuccess id
  | .recordFailure now id => b.recordFailure now id

/-- A run. -/
def actAll (b : CircuitBreaker) (as : List CircuitAction) : CircuitBreaker :=
  as.foldl act b

/-- In the run `as`, once a failure has opened the circuit of `id` at time `t`, every
request is refused as long as no reading of the clock has reached `t` plus the recovery
timeout. -/
def BlocksWhileOpen (b : CircuitBreaker) (id : BackendId) (as : List CircuitAction) : Prop :=
  ∀ before t between now after,
    as = before ++ CircuitAction.recordFailure t id ::
      (between ++ CircuitAction.allowRequest now id :: after) →
    (b.actAll before).getState id ≠ .OPEN →
    (b.actAll (before ++ [CircuitAction.recordFailure t id])).getState id = .OPEN →
    (∀ r, CircuitAction.allowRequest r id ∈ between → r < t + b.config.recoveryTimeout) →
    now < t + b.config.recoveryTimeout →
      ((b.actAll (before ++ CircuitAction.recordFailure t id :: between)).allowRequest now
        id).2 = false

/-- A stretch of the run that ends in CLOSED goes through HALF_OPEN: it has a part `probe`
throughout which the circuit is HALF_OPEN, that ends in CLOSED, and in which enough
successes are recorded. -/
def Recovers (b : CircuitBreaker) (id : BackendId) (stretch : List CircuitAction) : Prop :=
  ∃ wait probe rest, stretch = wait ++ (probe ++ rest) ∧
    (∀ p, p <+: probe → p ≠ probe → (b.actAll (wait ++ p)).getState id = .HALF_OPEN) ∧
    (b.actAll (wait ++ probe)).getState id = .CLOSED ∧ probe ≠ [] ∧
    b.config.successThreshold ≤ probe.count (.recordSuccess id)

/-- In the run `as`, the circuit of `id` gets from OPEN to CLOSED only through HALF_OPEN. -/
def ClosesThroughHalfOpen (b : CircuitBreaker) (id : BackendId) (as : List CircuitAction) :
    Prop :=
  ∀ before stretch after, as = before ++ (stretch ++ after) →
    (b.actAll before).getState id = .OPEN →
    (b.actAll (before ++ stretch)).getState id = .CLOSED →
      (b.actAll before).Recovers id stretch

/-- In the run `as`, no success is recorded for `id` while its circuit is OPEN. -/
def NoLateSuccess (b : CircuitBreaker) (id : BackendId) (as : List CircuitAction) : Prop :=
  ∀ before after, as = before ++ .recordSuccess id :: after →
    b.config.enabled = true → (b.actAll before).getState id ≠ .OPEN

variable {b : CircuitBreaker} {id : BackendId} {a : CircuitAction} {as : List CircuitAction}
  {circuit : BackendCircuit}

/-! ## One call -/

@[simp] theorem act_config : (b.act a).config = b.config := by
  cases a with
  | allowRequest now id => exact agreeExcept_allowRequest.config
  | recordSuccess id => exact agreeExcept_recordSuccess.config
  | recordFailure now id => exact agreeExcept_recordFailure.config

@[simp] theorem actAll_config : (b.actAll as).config = b.config := by
  induction as generalizing b with
  | nil => rfl
  | cons a as ih => exact ih.trans act_config

theorem actAll_append {bs : List CircuitAction} : b.actAll (as ++ bs) = (b.actAll as).actAll bs :=
  List.foldl_append

theorem getState_of_lookup (h : b.circuits.lookup id = some circuit) :
    b.getState id = circuit.state := by
  rw [getState, h]

theorem lookup_put : (b.put id circuit).circuits.lookup id = some circuit :=
  AList.lookup_insert _

theorem lookup_recordFailure {now : ℕ} (henabled : b.config.enabled = true)
    (hlookup : b.circuits.lookup id = some circuit) :
    (b.recordFailure now id).circuits.lookup id =
      some (BackendCircuit.failed b.config now circuit) := by
  simp only [recordFailure, henabled, hlookup]
  exact lookup_put

/-- The backend a call is about. -/
def CircuitAction.about : CircuitAction → BackendId
  | .allowRequest _ id | .recordSuccess id | .recordFailure _ id => id

theorem lookup_act_of_ne (h : id ≠ CircuitAction.about a) :
    (b.act a).circuits.lookup id = b.circuits.lookup id := by
  cases a with
  | allowRequest now other => exact agreeExcept_allowRequest.lookup id h
  | recordSuccess other => exact agreeExcept_recordSuccess.lookup id h
  | recordFailure now other => exact agreeExcept_recordFailure.lookup id h

/-- What a call does to an OPEN circuit, late successes apart. -/
theorem act_open (hlookup : b.circuits.lookup id = some circuit) (hopen : circuit.state = .OPEN)
    (hearly : a = .recordSuccess id → b.config.enabled = false) :
    (∃ circuit', (b.act a).circuits.lookup id = some circuit' ∧ circuit'.state = .OPEN ∧
      circuit'.openedAt = circuit.openedAt) ∨
    ∃ circuit' now, (b.act a).circuits.lookup id = some circuit' ∧ circuit'.state = .HALF_OPEN ∧
      circuit'.successCount = 0 ∧ a = .allowRequest now id ∧
      circuit.openedAt + b.config.recoveryTimeout ≤ now := by
  by_cases habout : id = CircuitAction.about a
  · cases henabled : b.config.enabled with
    | false =>
      refine .inl ⟨circuit, ?_, hopen, rfl⟩
      cases a <;> simp [act, allowRequest, recordSuccess, recordFailure, henabled, hlookup]
    | true =>
      cases a with
      | allowRequest now other =>
        obtain rfl : id = other := habout
        by_cases htime : circuit.openedAt + b.config.recoveryTimeout ≤ now
        · refine .inr ⟨{ circuit with state := .HALF_OPEN, successCount := 0 }, now, ?_, rfl, rfl,
            rfl, htime⟩
          simp only [act, allowRequest, henabled, hlookup, hopen, if_pos htime]
          exact lookup_put
        · refine .inl ⟨circuit, ?_, hopen, rfl⟩
          simp only [act, allowRequest, henabled, hlookup, hopen, if_neg htime]
          exact hlookup
      | recordSuccess other =>
        obtain rfl : id = other := habout
        rw [hearly rfl] at henabled
        cases henabled
      | recordFailure now other =>
        obtain rfl : id = other := habout
        refine .inl ⟨_, lookup_recordFailure henabled hlookup, ?_, ?_⟩
        · simp only [BackendCircuit.failed, hopen]
        · simp only [BackendCircuit.failed, hopen]
  · exact .inl ⟨circuit, (lookup_act_of_ne habout).trans hlookup, hopen, rfl⟩

/-- What a call does to a HALF_OPEN circuit. -/
theorem act_halfOpen (hlookup : b.circuits.lookup id = some circuit)
    (hhalf : circuit.state = .HALF_OPEN) :
    (∃ circuit', (b.act a).circuits.lookup id = some circuit' ∧ circuit'.state = .HALF_OPEN ∧
      circuit'.successCount ≤ circuit.successCount + [a].count (.recordSuccess id)) ∨
    (∃ circuit', (b.act a).circuits.lookup id = some circuit' ∧ circuit'.state = .OPEN) ∨
    ∃ circuit', (b.act a).circuits.lookup id = some circuit' ∧ circuit'.state = .CLOSED ∧
      a = .recordSuccess id ∧ b.config.successThreshold ≤ circuit.successCount + 1 := by
  by_cases habout : id = CircuitAction.about a
  · cases henabled : b.config.enabled with
    | false =>
      refine .inl ⟨circuit, ?_, hhalf, Nat.le_add_right _ _⟩
      cases a <;> simp [act, allowRequest, recordSuccess, recordFailure, henabled, hlookup]
    | true =>
      cases a with
      | allowRequest now other =>
        obtain rfl : id = other := habout
        refine .inl ⟨circuit, ?_, hhalf, Nat.le_add_right _ _⟩
        simp only [act, allowRequest, henabled, hlookup, hhalf]
        exact hlookup
      | recordSuccess other =>
        obtain rfl : id = other := habout
        have hafter : (b.act (.recordSuccess id)).circuits.lookup id =
            some (BackendCircuit.succeeded b.config circuit) := by
          simp only [act, recordSuccess, henabled, hlookup]
          exact lookup_put
        by_cases henough : b.config.successThreshold ≤ circuit.successCount + 1
        · refine .inr (.inr ⟨_, hafter, ?_, rfl, henough⟩)
          simp only [BackendCircuit.succeeded, hhalf, if_pos henough]
        · refine .inl ⟨_, hafter, ?_, ?_⟩
          · simp only [BackendCircuit.succeeded, hhalf, if_neg henough]
          · simp [BackendCircuit.succeeded, hhalf, if_neg henough]
      | recordFailure now other =>
        obtain rfl : id = other := habout
        refine .inr (.inl ⟨_, lookup_recordFailure henabled hlookup, ?_⟩)
        simp only [BackendCircuit.failed, hhalf]
  · exact .inl ⟨circuit, (lookup_act_of_ne habout).trans hlookup, hhalf, Nat.le_add_right _ _⟩

/-! ## From OPEN to CLOSED -/

theorem getState_eq (h : b.getState id ≠ .CLOSED) :
    ∃ circuit, b.circuits.lookup id = some circuit ∧ circuit.state = b.getState id := by
  cases hlookup : b.circuits.lookup id with
  | none => exact absurd (by rw [getState, hlookup]) h
  | some circuit => exact ⟨circuit, rfl, (getState_of_lookup hlookup).symm⟩

theorem NoLateSuccess.head (h : NoLateSuccess b id (a :: as)) (hopen : b.getState id = .OPEN) :
    a = .recordSuccess id → b.config.enabled = false := by
  rintro rfl
  by_contra henabled
  exact h [] as rfl (by simpa using henabled) hopen

theorem NoLateSuccess.tail (h : NoLateSuccess b id (a :: as)) : NoLateSuccess (b.act a) id as := by
  rintro before after rfl henabled
  exact h (a :: before) after rfl (by simpa using henabled)

theorem NoLateSuccess.suffix {bs : List CircuitAction} (h : NoLateSuccess b id (as ++ bs)) :
    NoLateSuccess (b.actAll as) id bs := by
  rintro before after rfl henabled
  rw [← actAll_append]
  exact h (as ++ before) after (List.append_assoc _ _ _).symm (by simpa using henabled)

theorem NoLateSuccess.prefix {bs : List CircuitAction} (h : NoLateSuccess b id (as ++ bs)) :
    NoLateSuccess b id as := by
  rintro before after rfl henabled
  exact h before (after ++ bs) (by rw [List.append_assoc, List.cons_append]) henabled

/-- A call in front of a recovery. -/
theorem Recovers.cons (h : (b.act a).Recovers id as) : b.Recovers id (a :: as) := by
  obtain ⟨wait, probe, rest, rfl, hhalf, hclosed, hne, hcount⟩ := h
  exact ⟨a :: wait, probe, rest, rfl, hhalf, hclosed, hne, by rwa [act_config] at hcount⟩

/-- A recovery under way: the circuit is HALF_OPEN and has counted `n` successes. -/
def RecoversFrom (b : CircuitBreaker) (id : BackendId) (n : ℕ) (stretch : List CircuitAction) :
    Prop :=
  ∃ probe rest, stretch = probe ++ rest ∧
    (∀ p, p <+: probe → p ≠ probe → (b.actAll p).getState id = .HALF_OPEN) ∧
    (b.actAll probe).getState id = .CLOSED ∧ probe ≠ [] ∧
    b.config.successThreshold ≤ n + probe.count (.recordSuccess id)

/-- A call that leaves the circuit HALF_OPEN is part of the probe. -/
theorem RecoversFrom.cons {n m : ℕ} (h : (b.act a).RecoversFrom id m as)
    (hstate : b.getState id = .HALF_OPEN) (hm : m ≤ n + [a].count (.recordSuccess id)) :
    b.RecoversFrom id n (a :: as) := by
  obtain ⟨probe, rest, rfl, hhalf, hclosed, hne, hcount⟩ := h
  refine ⟨a :: probe, rest, rfl, ?_, hclosed, List.cons_ne_nil _ _, ?_⟩
  · intro p hp hproper
    cases p with
    | nil => exact hstate
    | cons a' p =>
      obtain ⟨rfl, htail⟩ := List.cons_prefix_cons.mp hp
      exact hhalf p htail fun heq => hproper (by rw [heq])
  · rw [act_config] at hcount
    rw [List.count_singleton] at hm
    rw [List.count_cons]
    omega

/-- Both stretches, by induction on the calls: one that starts in OPEN, and one that
starts in HALF_OPEN and either closes from there or is opened once more. -/
theorem recovers_of_closed (hlate : NoLateSuccess b id as)
    (hclosed : (b.actAll as).getState id = .CLOSED) :
    (b.getState id = .OPEN → b.Recovers id as) ∧
      ∀ circuit, b.circuits.lookup id = some circuit → circuit.state = .HALF_OPEN →
        b.RecoversFrom id circuit.successCount as ∨ b.Recovers id as := by
  induction as generalizing b with
  | nil =>
    constructor
    · intro hopen
      cases hopen.symm.trans hclosed
    · intro circuit hlookup hhalf
      cases hhalf.symm.trans ((getState_of_lookup hlookup).symm.trans hclosed)
  | cons a as ih =>
    obtain ⟨ihopen, ihhalf⟩ := ih hlate.tail hclosed
    constructor
    · intro hopen
      obtain ⟨circuit, hlookup, hstate⟩ := getState_eq (by rw [hopen]; decide)
      rcases act_open hlookup (hstate.trans hopen) (hlate.head hopen) with
        ⟨circuit', hlookup', hopen', -⟩ | ⟨circuit', now, hlookup', hhalf', hzero, -, -⟩
      · exact (ihopen ((getState_of_lookup hlookup').trans hopen')).cons
      · rcases ihhalf circuit' hlookup' hhalf' with hprobe | hagain
        · obtain ⟨probe, rest, rfl, hhalf, hclosed, hne, hcount⟩ := hprobe
          rw [hzero, Nat.zero_add, act_config] at hcount
          exact ⟨[a], probe, rest, rfl, hhalf, hclosed, hne, hcount⟩
        · exact hagain.cons
    · intro circuit hlookup hhalf
      have hstate := (getState_of_lookup hlookup).trans hhalf
      rcases act_halfOpen (a := a) hlookup hhalf with ⟨circuit', hlookup', hhalf', hcount⟩ |
        ⟨circuit', hlookup', hopen'⟩ | ⟨circuit', hlookup', hclosed', rfl, henough⟩
      · rcases ihhalf circuit' hlookup' hhalf' with hprobe | hagain
        · exact .inl (hprobe.cons hstate hcount)
        · exact .inr hagain.cons
      · exact .inr (ihopen ((getState_of_lookup hlookup').trans hopen')).cons
      · refine .inl ⟨[.recordSuccess id], as, rfl, ?_, ?_, List.cons_ne_nil _ _, ?_⟩
        · intro p hp hproper
          obtain rfl : p = [] := by
            rcases List.prefix_cons_iff.mp hp with rfl | ⟨p', rfl, hp'⟩
            · rfl
            · exact absurd (by rw [List.prefix_nil.mp hp']) hproper
          exact hstate
        · exact (getState_of_lookup hlookup').trans hclosed'
        · simpa using henough

/-- As long as no reading of the clock reaches the end of the timeout, an OPEN circuit
stays as it is. -/
theorem stays_open (hlate : NoLateSuccess b id as) (hlookup : b.circuits.lookup id = some circuit)
    (hopen : circuit.state = .OPEN)
    (hearly : ∀ r, .allowRequest r id ∈ as → r < circuit.openedAt + b.config.recoveryTimeout) :
    ∃ circuit', (b.actAll as).circuits.lookup id = some circuit' ∧ circuit'.state = .OPEN ∧
      circuit'.openedAt = circuit.openedAt := by
  induction as generalizing b circuit with
  | nil => exact ⟨circuit, hlookup, hopen, rfl⟩
  | cons a as ih =>
    have hstate := (getState_of_lookup hlookup).trans hopen
    rcases act_open hlookup hopen (hlate.head hstate) with
      ⟨circuit', hlookup', hopen', hopened⟩ | ⟨circuit', now, -, -, -, rfl, htime⟩
    · obtain ⟨last, hlast, hlastOpen, hlastOpened⟩ := ih hlate.tail hlookup' hopen'
        (fun r hr => by
          rw [hopened, act_config]
          exact hearly r (List.mem_cons_of_mem _ hr))
      exact ⟨last, hlast, hlastOpen, hlastOpened.trans hopened⟩
    · have := hearly now List.mem_cons_self
      omega

/-- A failure that opens a circuit notes the time. -/
theorem openedAt_of_opening {t : ℕ} (hbefore : b.getState id ≠ .OPEN)
    (hafter : (b.recordFailure t id).getState id = .OPEN) :
    b.config.enabled = true ∧ ∃ circuit, (b.recordFailure t id).circuits.lookup id = some circuit ∧
      circuit.state = .OPEN ∧ circuit.openedAt = t := by
  have henabled : b.config.enabled = true := by
    by_contra hdisabled
    rw [recordFailure, if_pos (by simpa using hdisabled)] at hafter
    exact hbefore hafter
  obtain ⟨circuit', hlookup', hstate'⟩ := getState_eq (by rw [hafter]; decide)
  rw [hafter] at hstate'
  refine ⟨henabled, circuit', hlookup', hstate', ?_⟩
  -- the circuit that failed, or a new one
  have hfailed : ∃ circuit : BackendCircuit, circuit.state ≠ .OPEN ∧
      circuit' = BackendCircuit.failed b.config t circuit := by
    cases hlookup : b.circuits.lookup id with
    | some circuit =>
      rw [lookup_recordFailure henabled hlookup] at hlookup'
      refine ⟨circuit, ?_, (Option.some.inj hlookup').symm⟩
      rwa [getState_of_lookup hlookup] at hbefore
    | none =>
      simp only [recordFailure, henabled, hlookup] at hlookup'
      split at hlookup'
      · next hfalse => cases hfalse
      · split at hlookup'
        · rw [overflow, hlookup] at hlookup'
          cases hlookup'
        · rw [lookup_put] at hlookup'
          exact ⟨{}, by decide, (Option.some.inj hlookup').symm⟩
  obtain ⟨circuit, hstate, rfl⟩ := hfailed
  cases hcircuit : circuit.state with
  | OPEN => exact absurd hcircuit hstate
  | HALF_OPEN => simp only [BackendCircuit.failed, hcircuit]
  | CLOSED =>
    simp only [BackendCircuit.failed, hcircuit] at hstate' ⊢
    split at hstate'
    · next hfull => rw [if_pos hfull]
    · cases hstate'

/-! ## Runs -/

theorem blocksWhileOpen (h : NoLateSuccess b id as) : b.BlocksWhileOpen id as := by
  rintro before t between now after rfl hbefore hopening hearly hnow
  have hlast : b.actAll (before ++ [.recordFailure t id]) =
      (b.actAll before).recordFailure t id := by
    rw [actAll_append]
    rfl
  rw [hlast] at hopening
  obtain ⟨henabled, circuit, hlookup, hopen, rfl⟩ := openedAt_of_opening hbefore hopening
  have hlate : NoLateSuccess (b.actAll (before ++ [.recordFailure circuit.openedAt id])) id
      between := by
    have hsplit : NoLateSuccess b id ((before ++ [.recordFailure circuit.openedAt id]) ++
        (between ++ .allowRequest now id :: after)) := by
      simpa using h
    exact hsplit.suffix.prefix
  rw [hlast] at hlate
  have hconfig : ((b.actAll before).recordFailure circuit.openedAt id).config = b.config := by
    rw [← hlast, actAll_config]
  obtain ⟨circuit', hlookup', hopen', hopened⟩ :=
    stays_open hlate hlookup hopen (by rwa [hconfig])
  have hrun : b.actAll (before ++ .recordFailure circuit.openedAt id :: between) =
      ((b.actAll before).recordFailure circuit.openedAt id).actAll between := by
    rw [actAll_append]
    rfl
  rw [hrun, allowRequest_snd, admits, hlookup', actAll_config, hconfig]
  rw [actAll_config] at henabled
  simp [henabled, hopen', hopened, hnow]

theorem closesThroughHalfOpen (h : NoLateSuccess b id as) : b.ClosesThroughHalfOpen id as := by
  rintro before stretch after rfl hopen hclosed
  rw [actAll_append] at hclosed
  exact (recovers_of_closed h.suffix.prefix hclosed).1 hopen

/-- One call does not take a circuit from OPEN through HALF_OPEN to CLOSED. -/
theorem not_recovers_at_once (hopen : b.getState id = .OPEN) : ¬b.Recovers id [a] := by
  rintro ⟨wait, probe, rest, hsplit, hhalf, -, hne, -⟩
  have hwait : wait = [] := by
    cases wait with
    | nil => rfl
    | cons a' wait =>
      obtain ⟨-, hnil⟩ := List.cons.inj hsplit
      exact absurd (List.append_eq_nil_iff.mp (List.append_eq_nil_iff.mp hnil.symm).2).1 hne
  subst hwait
  have hstart := hhalf [] List.nil_prefix (Ne.symm hne)
  cases hopen.symm.trans hstart

/-- **Recovery.** In a run of requests that ask and report in any order, an opened circuit
blocks until the recovery timeout has passed, and closes only through HALF_OPEN with
`success_threshold` recorded successes, if and only if no success is recorded for the
backend while its circuit is OPEN. -/
theorem circuit_recovers_iff (b : CircuitBreaker) (id : BackendId) (as : List CircuitAction) :
    (b.BlocksWhileOpen id as ∧ b.ClosesThroughHalfOpen id as) ↔ b.NoLateSuccess id as := by
  refine ⟨?_, fun h => ⟨blocksWhileOpen h, closesThroughHalfOpen h⟩⟩
  rintro ⟨-, hcloses⟩ before after rfl henabled hopen
  obtain ⟨circuit, hlookup, hstate⟩ := getState_eq (by rw [hopen]; decide)
  have hclosed : (b.actAll (before ++ [.recordSuccess id])).getState id = .CLOSED := by
    rw [actAll_append]
    change ((b.actAll before).recordSuccess id).getState id = .CLOSED
    rw [recordSuccess, if_neg (by simpa using henabled), hlookup]
    rw [getState_of_lookup lookup_put, BackendCircuit.succeeded, hstate, hopen]
  exact not_recovers_at_once hopen (hcloses before [.recordSuccess id] after rfl hopen hclosed)

/-- Six requests are let through, five of them fail, and then the sixth succeeds. -/
def lateSuccess : List CircuitAction :=
  List.replicate 6 (CircuitAction.allowRequest 0 7) ++
    List.replicate 5 (CircuitAction.recordFailure 1 7) ++
    [CircuitAction.recordSuccess 7, .allowRequest 2 7]

/-- With the default settings the circuit opens at time 1, for 30 seconds. The answer to a
request from before closes it, and at time 2 the next request is let through. -/
theorem late_success_closes :
    ¬({} : CircuitBreaker).BlocksWhileOpen 7 lateSuccess ∧
      ¬({} : CircuitBreaker).ClosesThroughHalfOpen 7 lateSuccess := by
  constructor
  · intro hblocks
    have hrefused := hblocks
      (List.replicate 6 (.allowRequest 0 7) ++ List.replicate 4 (.recordFailure 1 7)) 1
      [.recordSuccess 7] 2 [] rfl (by decide) (by decide) (by simp) (by decide)
    revert hrefused
    decide
  · intro hcloses
    refine not_recovers_at_once ?_ (hcloses
      (List.replicate 6 (.allowRequest 0 7) ++ List.replicate 5 (.recordFailure 1 7))
      [.recordSuccess 7] [.allowRequest 2 7] rfl (by decide) (by decide))
    decide

end CircuitBreaker

end Ranvier
