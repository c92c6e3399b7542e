import Ranvier.ConnectLoop
import Ranvier.ProxyOutcome

/-!
# Recorded failures and failed contacts

A request records failures in the circuit breaker at several places, each time against
the backend it points at: in the connection loop after a failed attempt and when the
deadline is seen at its head, while sending and reading, for the stale retry, and at
completion if the request timed out.

* `RequestRun` — a request from its first connection attempt on;
* `Tally` — what the turns of one response add to both counts;
* `failures_covered_iff` — when the failures recorded against each backend are at most
  the attempts, sends and reads that failed there.
-/

namespace Ranvier

/-! ## What failed -/

/-- The read of the turn failed. A deadline seen before the read, and the end of file,
are no failed reads. -/
def Turn.readFails : Turn → Bool
  | .connectionError _ => true
  | .timeout => true
  | .exception => true
  | .deadline => false
  | .read _ _ => false

/-- The send failed. A deadline seen before it is no failed send. -/
def SendOutcome.fails : SendOutcome → Bool
  | .connectionError => true
  | .exception => true
  | .deadline => false
  | .sent => false

/-- The reads that failed. -/
def failedReads (turns : List Turn) : ℕ := turns.countP Turn.readFails

namespace ProxyRequest

/-- What fails in the retry: the fresh connection, the send, reads. -/
def failedInRetry (r : ProxyRequest) : ℕ :=
  if r.fresh then
    r.secondSend.fails.toNat + if r.secondSend = .sent then failedReads r.second else 0
  else 1

/-- The sends, reads and fresh connections that failed behind the connection phase. -/
def failedContacts (r : ProxyRequest) : ℕ :=
  if r.connected then
    r.firstSend.fails.toNat +
      if r.firstSend = .sent then
        failedReads r.first + if r.retriesStale then r.failedInRetry else 0
      else 0
  else 0

end ProxyRequest

/-- The failures a request recorded behind the connection phase. -/
def Outcome.recordedFailures (o : Outcome) : ℕ := o.stream.effects.count .circuitFailure

/-- A request: the connection loop as far as it got and, once that was left, the rest. -/
structure RequestRun : Type where
  start : Connecting
  fresh : start.Fresh
  turns : List ConnectTurn
  loop : Connecting
  ran : exec Connecting.turn start turns = some loop
  request : ProxyRequest
  outcome : Outcome
  answered : loop.exit ≠ none →
    request.connected = !loop.connectionFailed ∧ request.handleProxy = some outcome

namespace RequestRun

/-- The failures recorded against a backend. -/
def recordedAgainst (run : RequestRun) (id : BackendId) : ℕ :=
  run.loop.recordedFailures.count id +
    if run.loop.exit ≠ none ∧ id = run.loop.currentBackend then run.outcome.recordedFailures else 0

/-- The connection attempts, sends and reads to a backend that failed. -/
def failedAt (run : RequestRun) (id : BackendId) : ℕ :=
  run.loop.failedAttempts.count id +
    if run.loop.exit ≠ none ∧ id = run.loop.currentBackend then run.request.failedContacts else 0

end RequestRun

/-- Behind the connection phase no failure is recorded without one: the deadline is not
what ends the first response, and a stale retry gets no connection or ends with an
exception. -/
def ProxyRequest.Blameless (r : ProxyRequest) : Prop :=
  (r.Streams → r.first.getLast? ≠ some .deadline) ∧
    (r.Retries → r.fresh = false ∨ r.secondSend = .exception ∨
      r.secondSend = .sent ∧ r.second.getLast? = some .exception)

/-! ## One response -/

section Response

variable {s₀ s s' : Streaming} {t : Turn} {turns : List Turn} {resent : Option (List UInt8)}
  {write : ClientWrite}

/-- The failures recorded so far. -/
def Streaming.failures (s : Streaming) : ℕ := s.effects.count .circuitFailure

/-- What a turn lets the request record, at once or at completion. -/
def Turn.recorded : Turn → ℕ
  | .deadline => 1
  | .timeout => 1
  | .connectionError _ => 1
  | .exception => 0
  | .read _ _ => 0

/-- The failures to be recorded at completion. -/
def Streaming.due (s : Streaming) : ℕ :=
  if s.exit = some .broke ∧ s.ctx.clientDisconnected = false ∧ s.ctx.timedOut = true then 1 else 0

/-- The turns of a response and what the request has recorded. All but the last turn are
reads that did not fail. -/
structure Tally (s₀ : Streaming) (turns : List Turn) (s : Streaming) : Prop where
  running : s.exit = none → s.ctx.timedOut = false ∧ s.ctx.clientDisconnected = false ∧
    s.failures = s₀.failures ∧ failedReads turns = 0
  recorded : s.failures + s.due = s₀.failures + (turns.getLast?.map Turn.recorded).getD 0
  failed : failedReads turns = (turns.getLast?.map fun t => t.readFails.toNat).getD 0
  clean : s.exit = some .broke → s.ctx.Flagless → s.failures = s₀.failures ∧ failedReads turns = 0

theorem tally_start (htimed : s₀.ctx.timedOut = false)
    (hclient : s₀.ctx.clientDisconnected = false) :
    Tally s₀ [] { s₀ with parser := {}, exit := none } :=
  ⟨fun _ => ⟨htimed, hclient, rfl, rfl⟩, rfl, rfl, nofun⟩

theorem failedReads_concat :
    failedReads (turns ++ [t]) = failedReads turns + t.readFails.toNat := by
  rw [failedReads, List.countP_append, failedReads]
  cases h : t.readFails with
  | false => simp [h]
  | true => simp [h]

/-- A chunk records no failure, and sets no time-out. -/
theorem handleChunk_failures (s : Streaming) (chunk : List UInt8) (write : ClientWrite) :
    (handleChunk s chunk write).failures = s.failures ∧
      (handleChunk s chunk write).ctx.timedOut = s.ctx.timedOut ∧
      ((handleChunk s chunk write).exit = none →
        (handleChunk s chunk write).ctx.clientDisconnected = s.ctx.clientDisconnected) := by
  simp only [handleChunk, handleResult, writeClientError, stopIfDone, writeData, noteResult,
    Streaming.failures]
  grind

/-- **One turn** of a response. -/
theorem Tally.turn (h : Tally s₀ turns s) (hturn : streamTurn s t = some s') :
    Tally s₀ (turns ++ [t]) s' := by
  have hexit : s.exit = none := by
    by_contra hleft
    simp [streamTurn, hleft] at hturn
  obtain ⟨htimed, hclient, hsame, hnone⟩ := h.running hexit
  have hfailed : failedReads (turns ++ [t]) = t.readFails.toNat := by
    rw [failedReads_concat, hnone, Nat.zero_add]
  have hlast : failedReads (turns ++ [t]) =
      ((turns ++ [t]).getLast?.map fun t => t.readFails.toNat).getD 0 := by
    rw [hfailed, List.getLast?_concat]
    rfl
  have hrecorded : ((turns ++ [t]).getLast?.map Turn.recorded).getD 0 = t.recorded := by
    rw [List.getLast?_concat]
    rfl
  simp only [streamTurn, hexit, if_true] at hturn
  cases t with
  | deadline | timeout =>
    obtain rfl := Option.some.inj hturn
    refine ⟨fun hgoes => ?_, ?_, hlast, fun _ hless => ?_⟩
    · cases hgoes
    · rw [hrecorded, ← hsame]
      simp [Streaming.failures, Streaming.due, hclient, Turn.recorded]
    · cases hless
  | connectionError thrown =>
    obtain rfl := Option.some.inj hturn
    have hflagged : ¬ProxyContext.Flagless { s.ctx with connectionError := true } := by
      simp [ProxyContext.Flagless, ProxyContext.flags]
    refine ⟨fun hgoes => ?_, ?_, hlast, fun _ hless => absurd hless hflagged⟩
    · cases hgoes
    · rw [hrecorded, ← hsame]
      simp [Streaming.failures, Streaming.due, htimed, Turn.recorded]
  | exception =>
    obtain rfl := Option.some.inj hturn
    refine ⟨fun hgoes => ?_, ?_, hlast, fun hbroke => ?_⟩
    · cases hgoes
    · rw [hrecorded, ← hsame]
      simp [Streaming.failures, Streaming.due, Turn.recorded]
    · cases hbroke
  | read chunk write =>
    have hread : s'.failures = s.failures ∧ s'.ctx.timedOut = s.ctx.timedOut ∧
        (s'.exit = none → s'.ctx.clientDisconnected = s.ctx.clientDisconnected) := by
      cases chunk with
      | nil =>
        obtain rfl := Option.some.inj hturn
        exact ⟨rfl, rfl, fun _ => rfl⟩
      | cons b chunk =>
        obtain rfl := Option.some.inj hturn
        exact handleChunk_failures s (b :: chunk) write
    obtain ⟨hkept, htimed', hclient'⟩ := hread
    refine ⟨fun hgoes => ?_, ?_, hlast, fun _ _ => ?_⟩
    · exact ⟨htimed'.trans htimed, (hclient' hgoes).trans hclient, hkept.trans hsame, hfailed⟩
    · rw [hrecorded, hkept, hsame]
      simp [Streaming.due, htimed', htimed, Turn.recorded]
    · exact ⟨hkept.trans hsame, hfailed⟩

/-- **Every response.** -/
theorem tally_stream (htimed : s₀.ctx.timedOut = false)
    (hclient : s₀.ctx.clientDisconnected = false)
    (hexec : streamBackendResponse s₀ turns = some s) : Tally s₀ turns s :=
  exec_induction (h := []) (I := Tally s₀) (fun hturn h => h.turn hturn) hexec
    (tally_start htimed hclient)

/-- What a completion records. -/
theorem complete_recorded :
    (complete s resent write).recordedFailures = s.failures +
      if s.ctx.clientDisconnected = false ∧ s.ctx.timedOut = true then 1 else 0 := by
  simp only [complete, completionStatus, writeClientError, Outcome.recordedFailures,
    Streaming.failures]
  grind

theorem afterStream_recorded :
    (afterStream s resent write).recordedFailures = s.failures + s.due := by
  rw [afterStream, Streaming.due]
  split
  · next hexit => simp [hexit, Outcome.recordedFailures, Streaming.failures]
  · next hexit =>
    simp [hexit, failStreaming, Outcome.recordedFailures, Streaming.failures]
  · next hexit =>
    rw [complete_recorded]
    simp [hexit]

/-- A response that the request ends with. -/
theorem response_counts (hexec : streamBackendResponse s₀ turns = some s)
    (htimed : s₀.ctx.timedOut = false) (hclient : s₀.ctx.clientDisconnected = false) :
    (afterStream s resent write).recordedFailures =
        s₀.failures + (turns.getLast?.map Turn.recorded).getD 0 ∧
      failedReads turns = (turns.getLast?.map fun t => t.readFails.toNat).getD 0 := by
  have htally := tally_stream htimed hclient hexec
  rw [afterStream_recorded]
  exact ⟨htally.recorded, htally.failed⟩

end Response

/-! ## The request -/

section Request

variable {r : ProxyRequest} {o : Outcome}

theorem recorded_le_failed_iff (turns : List Turn) :
    (turns.getLast?.map Turn.recorded).getD 0 ≤
        (turns.getLast?.map fun t => t.readFails.toNat).getD 0 ↔
      turns.getLast? ≠ some .deadline := by
  cases turns.getLast? with
  | none => simp
  | some t => cases t <;> simp [Turn.recorded, Turn.readFails]

theorem recorded_lt_failed_iff (turns : List Turn) :
    1 + (turns.getLast?.map Turn.recorded).getD 0 ≤
        (turns.getLast?.map fun t => t.readFails.toNat).getD 0 ↔
      turns.getLast? = some .exception := by
  cases turns.getLast? with
  | none => simp
  | some t => cases t <;> simp [Turn.recorded, Turn.readFails]

/-- The retry, and what it records besides the failure of the first response. -/
theorem staleRetry_covered_iff {s : Streaming} (hless : s.ctx.Flagless) (hzero : s.failures = 0)
    (h : r.staleRetry s = some o) :
    o.recordedFailures ≤ r.failedInRetry ↔
      r.fresh = false ∨ r.secondSend = .exception ∨
        r.secondSend = .sent ∧ r.second.getLast? = some .exception := by
  simp only [ProxyContext.Flagless, ProxyContext.flags, Prod.mk.injEq] at hless
  obtain ⟨htimed, -, hclient, -⟩ := hless
  rw [Streaming.failures] at hzero
  rw [ProxyRequest.failedInRetry]
  cases hfresh : r.fresh with
  | false =>
    simp only [ProxyRequest.staleRetry, hfresh] at h
    obtain rfl := Option.some.inj h
    rw [complete_recorded]
    simp [Streaming.failures, hzero, htimed]
  | true =>
    cases hsend : r.secondSend with
    | deadline =>
      simp only [ProxyRequest.staleRetry, hfresh, if_true, hsend, sendBackendRequest] at h
      obtain rfl := Option.some.inj h
      rw [complete_recorded]
      simp [Streaming.failures, hzero, hclient, SendOutcome.fails]
    | connectionError =>
      simp only [ProxyRequest.staleRetry, hfresh, if_true, hsend, sendBackendRequest] at h
      obtain rfl := Option.some.inj h
      rw [complete_recorded]
      simp [Streaming.failures, hzero, SendOutcome.fails]
    | exception =>
      simp only [ProxyRequest.staleRetry, hfresh, if_true, hsend, sendBackendRequest] at h
      obtain rfl := Option.some.inj h
      simp [Outcome.recordedFailures, hzero, SendOutcome.fails]
    | sent =>
      simp only [ProxyRequest.staleRetry, hfresh, if_true, hsend, sendBackendRequest] at h
      split at h
      · next s' hstream =>
        obtain rfl := Option.some.inj h
        obtain ⟨hrecorded, hfailed⟩ := response_counts hstream rfl hclient
        rw [hrecorded, if_pos rfl, if_pos rfl, hfailed]
        have hone : (s.effects ++ [Effect.recordStaleConnectionRetry, .circuitFailure]).count
            .circuitFailure = 1 := by
          simp [hzero]
        rw [Streaming.failures, hone]
        simpa [SendOutcome.fails] using recorded_lt_failed_iff r.second
      · cases h

/-- Behind the connection phase. -/
theorem request_covered_iff (h : r.handleProxy = some o) :
    o.recordedFailures ≤ r.failedContacts ↔ r.Blameless := by
  by_cases hs : r.Streams
  · obtain ⟨hconnected, hsent⟩ := hs
    have hcontacts : r.failedContacts =
        failedReads r.first + if r.retriesStale then r.failedInRetry else 0 := by
      simp [ProxyRequest.failedContacts, hconnected, hsent, SendOutcome.fails]
    obtain ⟨s, hstream, ⟨hret, hbroke, hless, hretry⟩ | ⟨hret, rfl⟩⟩ :=
      ProxyRequest.handleProxy_of_streams ⟨hconnected, hsent⟩ h
    · -- the first response recorded nothing, and no read of it failed
      have htally := tally_stream rfl rfl hstream
      obtain ⟨hzero, hreads⟩ := htally.clean hbroke hless
      have hdeadline : r.first.getLast? ≠ some .deadline := by
        intro hlast
        have hdue : s.due = 0 := by
          have htimed : s.ctx.timedOut = false := congrArg Prod.fst hless
          simp [Streaming.due, htimed]
        have hrecorded := htally.recorded
        rw [hzero, hdue, hlast] at hrecorded
        simp [Turn.recorded] at hrecorded
      rw [hcontacts, hreads, Nat.zero_add,
        if_pos ((ProxyRequest.retriesStale_iff hret.1 hstream).mpr hret),
        staleRetry_covered_iff hless hzero hretry]
      simp [ProxyRequest.Blameless, hdeadline, hret]
    · obtain ⟨hrecorded, hfailed⟩ := response_counts hstream rfl rfl
      have hno : ¬r.retriesStale = true := fun hstale =>
        hret ((ProxyRequest.retriesStale_iff ⟨hconnected, hsent⟩ hstream).mp hstale)
      rw [hrecorded, hcontacts, if_neg hno, hfailed]
      have hzero : r.start.failures = 0 := rfl
      rw [hzero, Nat.zero_add, Nat.add_zero, recorded_le_failed_iff]
      simp [ProxyRequest.Blameless, hret, ProxyRequest.Streams, hconnected, hsent]
  · have hvacuous : r.Blameless :=
      ⟨fun h => absurd h hs, fun h => absurd h.1 hs⟩
    refine iff_of_true ?_ hvacuous
    rw [ProxyRequest.handleProxy.eq_def] at h
    split at h
    · next hconnected =>
      cases hsend : r.firstSend with
      | sent => exact absurd ⟨hconnected, hsend⟩ hs
      | deadline =>
        simp only [hsend] at h
        obtain rfl := Option.some.inj h
        exact Nat.zero_le _
      | connectionError =>
        simp only [hsend] at h
        obtain rfl := Option.some.inj h
        simp [ProxyRequest.failedContacts, hconnected, hsend, SendOutcome.fails,
          failBeforeStreaming, writeClientError, sendBackendRequest, ProxyRequest.start,
          Outcome.recordedFailures]
      | exception =>
        simp only [hsend] at h
        obtain rfl := Option.some.inj h
        exact Nat.zero_le _
    · obtain rfl := Option.some.inj h
      exact Nat.zero_le _

end Request

/-! ## The connection phase -/

namespace Connecting

/-- In the connection loop only the deadline is recorded without a failed attempt. -/
structure Tallied (c : Connecting) : Prop where
  recorded : c.recordedFailures =
    c.failedAttempts ++ if c.exit = some .deadline then [c.currentBackend] else []
  failed : c.exit = some .deadline → c.connectionFailed = true

theorem Tallied.turn {c c' : Connecting} {t : ConnectTurn} (h : c.Tallied)
    (hturn : c.turn t = some c') : c'.Tallied := by
  obtain ⟨hexit, hout⟩ := turn_outcome hturn
  have hsame : c.recordedFailures = c.failedAttempts := by
    rw [h.recorded, hexit]
    simp
  cases hout with
  | deadline htime => exact ⟨by simp [hsame], fun _ => rfl⟩
  | connected htime hconnected => exact ⟨by simp [attempting, hsame], nofun⟩
  | circuitOpen htime hfailed hopen => exact ⟨by simp [noteFailure, attempting, hsame], nofun⟩
  | fallback hroom =>
    refine ⟨by simp [fallBackTo, noteFailure, attempting, hsame, hexit], fun hdeadline => ?_⟩
    cases hexit.symm.trans hdeadline
  | retry hexcused =>
    obtain ⟨failed, hspec⟩ := retryOrGiveUp_spec c.attempting.noteFailure
    have hnot : c.attempting.noteFailure.retryOrGiveUp.exit ≠ some .deadline := by
      rw [hspec]
      change (if _ then c.exit else _) ≠ _
      rw [hexit]
      split
      · nofun
      · nofun
    refine ⟨?_, fun hdeadline => absurd hdeadline hnot⟩
    rw [if_neg hnot, hspec]
    simp [noteFailure, attempting, hsame]

theorem tallied_fresh {start : Connecting} (h : start.Fresh) : start.Tallied := by
  refine ⟨?_, fun hdeadline => ?_⟩
  · simp [h.recordedFailures, h.failedAttempts, h.exit]
  · cases h.exit.symm.trans hdeadline

theorem tallied_run {start c : Connecting} {ts : List ConnectTurn} (hfresh : start.Fresh)
    (hexec : exec Connecting.turn start ts = some c) : c.Tallied :=
  exec_induction (I := fun _ => Tallied) (h := []) (fun hturn h => h.turn hturn) hexec
    (tallied_fresh hfresh)

end Connecting

/-! ## Main result -/

/-- **Recorded failures.** In a run of a request, the failures recorded against each backend
are at most the connection attempts, sends and reads to it that failed, if and only if the
connection loop was not left for the deadline, the first response does not end with the
deadline, and a stale retry gets no connection or ends with an exception. -/
theorem failures_covered_iff (run : RequestRun) :
    (∀ id, run.recordedAgainst id ≤ run.failedAt id) ↔
      run.loop.exit ≠ some .deadline ∧ (run.loop.exit ≠ none → run.request.Blameless) := by
  have htallied := Connecting.tallied_run run.fresh run.ran
  by_cases hdeadline : run.loop.exit = some .deadline
  · -- nothing was contacted in that turn, and nothing is after it
    have hleft : run.loop.exit ≠ none := by
      rw [hdeadline]
      nofun
    have hconnected : run.request.connected = false := by
      rw [(run.answered hleft).1, htallied.failed hdeadline]
      rfl
    have hrecorded := htallied.recorded
    rw [if_pos hdeadline] at hrecorded
    refine iff_of_false (fun hcovered => ?_) fun h => h.1 hdeadline
    have hcurrent := hcovered run.loop.currentBackend
    rw [RequestRun.recordedAgainst, RequestRun.failedAt, hrecorded, List.count_append,
      List.count_singleton_self, if_pos ⟨hleft, rfl⟩, if_pos ⟨hleft, rfl⟩,
      ProxyRequest.failedContacts, hconnected] at hcurrent
    simp at hcurrent
    omega
  · have hrecorded := htallied.recorded
    rw [if_neg hdeadline, List.append_nil] at hrecorded
    simp only [RequestRun.recordedAgainst, RequestRun.failedAt, hrecorded,
      Nat.add_le_add_iff_left, hdeadline, ne_eq, not_false_eq_true, true_and]
    by_cases hleft : run.loop.exit = none
    · simp [hleft]
    · rw [← request_covered_iff (run.answered hleft).2]
      constructor
      · intro hcovered _
        simpa [hleft] using hcovered run.loop.currentBackend
      · intro hcovered id
        split
        · exact hcovered hleft
        · exact Nat.le_refl 0

/-- An attempt at time 0 that fails, with nothing counted in the breaker. -/
def firstFailure : ConnectTurn :=
  { Connecting.fifthFailure with breaker := {} }

/-- A request for backend 1 that falls back to backend 2 and then sees its deadline. -/
def lateFallback : RequestRun where
  start := Connecting.toBackendOne
  fresh := Connecting.fresh_toBackendOne
  turns := [firstFailure, { firstFailure with headTime := 300 }]
  loop :=
    { Connecting.toBackendOne with
      currentBackend := 2
      currentAddr := 102
      fallbackAttempts := 1
      connectionFailed := true
      attempted := [1]
      failedAttempts := [1]
      recordedFailures := [1, 2]
      exit := some .deadline }
  ran := by decide
  request := ⟨1, true, false, .sent, [], true, .sent, [], .ok⟩
  outcome := failBeforeStreaming {} "Backend connection failed after retries" .ok
  answered := fun _ => ⟨rfl, rfl⟩

/-- Backend 2 was never contacted, and a failure is recorded against it. -/
theorem failure_without_contact :
    2 ∉ lateFallback.loop.attempted ∧
      ¬∀ (run : RequestRun) (id : BackendId), run.recordedAgainst id ≤ run.failedAt id := by
  refine ⟨by decide, fun hclaim => ?_⟩
  have hcovered := hclaim lateFallback 2
  revert hcovered
  decide

end Ranvier
