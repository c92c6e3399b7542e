import Ranvier.ProxyOutcome

/-!
# How the body writer of a request is left

`handle_proxy` hands the rest of its work to the writer of the reply's body. It connects,
sends, streams and perhaps retries, and only behind all that is the block that hands the
request's attribution row to the persistence layer and its usage event to the sink. Some
of its ends come before that block.

* `WriterEnd`, `ProxyRequest.writerEnd` — its ends;
* `attribution_isSome_iff` — the terminal block is reached just if it completes;
* `recorded_once_iff` — when each consumer gets exactly one record.
-/

namespace Ranvier

/-- Where the body writer is left. -/
inductive WriterEnd : Type where
  /-- no connection to any backend -/
  | connectionFailed
  /-- the first send saw the deadline or a connection error -/
  | sendFailed
  /-- an exception from the first send -/
  | sendThrew
  /-- an exception from the first response -/
  | streamThrew
  /-- an exception from the send of the stale retry -/
  | retrySendThrew
  /-- an exception from the response to the stale retry -/
  | retryStreamThrew
  | completed
  deriving DecidableEq, Repr

/-- How the loop over a response is left, if it is. -/
def responseExit (turns : List Turn) : Option LoopExit :=
  (streamBackendResponse {} turns).bind Streaming.exit

namespace ProxyRequest

/-- Where the stale retry leaves the body writer. -/
def retryEnd (r : ProxyRequest) : Option WriterEnd :=
  if r.fresh then
    match r.secondSend with
    | .deadline => some .completed
    | .connectionError => some .completed
    | .exception => some .retrySendThrew
    | .sent => (responseExit r.second).map fun
      | .threw => .retryStreamThrew
      | .broke => .completed
  else some .completed

/-- Where the body writer is left; nowhere as long as it streams. -/
def writerEnd (r : ProxyRequest) : Option WriterEnd :=
  if r.connected then
    match r.firstSend with
    | .deadline => some .sendFailed
    | .connectionError => some .sendFailed
    | .exception => some .sendThrew
    | .sent =>
      if r.retriesStale then r.retryEnd
      else (responseExit r.first).map fun
        | .threw => .streamThrew
        | .broke => .completed
  else some .connectionFailed

/-- Nothing throws or fails before the terminal block: the request is connected and sent,
its response is read without an exception, and so is that of a stale retry, if there is
one that gets a connection. -/
def RunsThrough (r : ProxyRequest) : Prop :=
  r.connected = true ∧ r.firstSend = .sent ∧
    if r.retriesStale then
      r.fresh = false ∨ r.secondSend ≠ .exception ∧
        (r.secondSend = .sent → responseExit r.second = some .broke)
    else responseExit r.first = some .broke

end ProxyRequest

/-! ## The terminal block -/

/-- Who is there to be handed a record. -/
structure Consumers : Type where
  persistence : Bool
  usageSink : Bool
  deriving DecidableEq, Repr

/-- The statuses in the rows handed to the persistence layer. -/
def Outcome.logRequests (o : Outcome) (consumers : Consumers) : List ℕ :=
  if consumers.persistence then o.attribution.toList else []

/-- The statuses in the events handed to the usage sink. -/
def Outcome.usageEvents (o : Outcome) (consumers : Consumers) : List ℕ :=
  if consumers.usageSink then o.attribution.toList else []

/-! ## The exits of a response -/

section Exits

variable {s s' t t' : Streaming} {turns : List Turn} {a : Turn}

/-- Nothing but the parser decides about the rest of a response. -/
structure SameCourse (s t : Streaming) : Prop where
  parser : s.parser = t.parser
  exit : s.exit = t.exit

theorem SameCourse.writeData (h : SameCourse s t) (data : List UInt8) (write : ClientWrite) :
    SameCourse (writeData s data write) (writeData t data write) := by
  rw [Ranvier.writeData, Ranvier.writeData]
  split
  · exact h
  · cases write with
    | ok => exact ⟨h.parser, h.exit⟩
    | disconnected n => exact ⟨h.parser, rfl⟩
    | failed n => exact ⟨h.parser, rfl⟩

theorem SameCourse.stopIfDone (h : SameCourse s t) (done : Bool) :
    SameCourse (stopIfDone s done) (stopIfDone t done) := by
  rw [Ranvier.stopIfDone, Ranvier.stopIfDone, h.exit]
  split
  · exact ⟨h.parser, rfl⟩
  · exact h

theorem SameCourse.handleResult (h : SameCourse s t) (res : ParserResult) (write : ClientWrite) :
    SameCourse (handleResult s res write) (handleResult t res write) := by
  rw [Ranvier.handleResult, Ranvier.handleResult]
  split
  · exact ⟨h.parser, rfl⟩
  · have hnoted : SameCourse (noteResult s res) (noteResult t res) := ⟨h.parser, h.exit⟩
    exact (hnoted.writeData res.data write).stopIfDone res.done

theorem SameCourse.handleChunk (h : SameCourse s t) (chunk : List UInt8) (write : ClientWrite) :
    SameCourse (handleChunk s chunk write) (handleChunk t chunk write) := by
  rw [Ranvier.handleChunk, Ranvier.handleChunk]
  dsimp only
  rw [h.parser]
  refine SameCourse.handleResult ?_ _ _
  exact ⟨rfl, h.exit⟩

/-- **One turn** of two responses in step. -/
theorem SameCourse.turn (h : SameCourse s t) (hturn : streamTurn s a = some s') :
    ∃ t', streamTurn t a = some t' ∧ SameCourse s' t' := by
  have hgoes : s.exit = none := by
    by_contra hleft
    simp [streamTurn, hleft] at hturn
  have hgoes' : t.exit = none := h.exit.symm.trans hgoes
  simp only [streamTurn, hgoes, hgoes', if_true] at hturn ⊢
  refine ⟨_, rfl, ?_⟩
  obtain rfl := Option.some.inj hturn
  cases a with
  | read chunk write =>
    cases chunk with
    | nil => exact ⟨h.parser, rfl⟩
    | cons b chunk => exact h.handleChunk (b :: chunk) write
  | _ => exact ⟨h.parser, rfl⟩

theorem SameCourse.exec (h : SameCourse s t) (hexec : exec streamTurn s turns = some s') :
    ∃ t', Ranvier.exec streamTurn t turns = some t' ∧ SameCourse s' t' := by
  induction turns generalizing s t with
  | nil =>
    obtain rfl := Option.some.inj hexec
    exact ⟨t, rfl, h⟩
  | cons a turns ih =>
    obtain ⟨next, hturn, hrest⟩ := exec_cons hexec
    obtain ⟨next', hturn', hnext⟩ := h.turn hturn
    obtain ⟨t', hexec', hlast⟩ := ih hnext hrest
    refine ⟨t', ?_, hlast⟩
    rw [Ranvier.exec, hturn']
    exact hexec'

/-- The way a response is left is a matter of its turns. -/
theorem responseExit_eq (hexec : streamBackendResponse s turns = some s') :
    responseExit turns = s'.exit := by
  have hstart : SameCourse { s with parser := {}, exit := none }
      { ({} : Streaming) with parser := {}, exit := none } := ⟨rfl, rfl⟩
  obtain ⟨t', hexec', hsame⟩ := hstart.exec hexec
  rw [responseExit, streamBackendResponse, hexec', Option.bind_some, hsame.exit]

end Exits

/-! ## Where the terminal block is reached -/

section Terminal

variable {r : ProxyRequest} {o : Outcome}

theorem afterStream_attribution {s : Streaming} {resent : Option (List UInt8)}
    {write : ClientWrite} :
    (afterStream s resent write).attribution.isSome = true ↔ s.exit = some .broke := by
  rw [afterStream]
  split
  · next hexit => simp [hexit]
  · next hexit => simp [hexit, failStreaming]
  · next hexit => simp [hexit, complete]

/-- The terminal block of the retry. -/
theorem staleRetry_attribution {s : Streaming} (h : r.staleRetry s = some o) :
    o.attribution.isSome = true ↔ r.fresh = false ∨ r.secondSend ≠ .exception ∧
      (r.secondSend = .sent → responseExit r.second = some .broke) := by
  cases hfresh : r.fresh with
  | false =>
    simp only [ProxyRequest.staleRetry, hfresh] at h
    obtain rfl := Option.some.inj h
    simp [complete]
  | true =>
    cases hsend : r.secondSend with
    | deadline =>
      simp only [ProxyRequest.staleRetry, hfresh, if_true, hsend] at h
      obtain rfl := Option.some.inj h
      simp [complete]
    | connectionError =>
      simp only [ProxyRequest.staleRetry, hfresh, if_true, hsend] at h
      obtain rfl := Option.some.inj h
      simp [complete]
    | exception =>
      simp only [ProxyRequest.staleRetry, hfresh, if_true, hsend] at h
      obtain rfl := Option.some.inj h
      simp
    | sent =>
      simp only [ProxyRequest.staleRetry, hfresh, if_true, hsend] at h
      split at h
      · next s' hstream =>
        obtain rfl := Option.some.inj h
        rw [afterStream_attribution, responseExit_eq hstream]
        simp
      · cases h

/-- The terminal block is reached just if the request runs through. -/
theorem attribution_isSome_iff (h : r.handleProxy = some o) :
    o.attribution.isSome = true ↔ r.RunsThrough := by
  by_cases hs : r.Streams
  · obtain ⟨s, hstream, ⟨hret, -, -, hretry⟩ | ⟨hret, rfl⟩⟩ :=
      ProxyRequest.handleProxy_of_streams hs h
    · rw [staleRetry_attribution hretry, ProxyRequest.RunsThrough,
        if_pos ((ProxyRequest.retriesStale_iff hs hstream).mpr hret)]
      simp [hs.1, hs.2]
    · have hno : ¬r.retriesStale = true := fun hstale =>
        hret ((ProxyRequest.retriesStale_iff hs hstream).mp hstale)
      rw [afterStream_attribution, ProxyRequest.RunsThrough, if_neg hno, responseExit_eq hstream]
      simp [hs.1, hs.2]
  · have hnot : ¬r.RunsThrough := fun hruns => hs ⟨hruns.1, hruns.2.1⟩
    refine iff_of_false ?_ hnot
    have hnone : o.attribution = none := by
      rw [ProxyRequest.handleProxy.eq_def] at h
      split at h
      · next hconnected =>
        cases hsend : r.firstSend with
        | sent => exact absurd ⟨hconnected, hsend⟩ hs
        | _ =>
          simp only [hsend] at h
          obtain rfl := Option.some.inj h
          rfl
      · obtain rfl := Option.some.inj h
        rfl
    rw [hnone]
    exact Bool.false_ne_true

/-- The body writer completes just if the request runs through. -/
theorem writerEnd_completed_iff : r.writerEnd = some .completed ↔ r.RunsThrough := by
  rw [ProxyRequest.writerEnd, ProxyRequest.RunsThrough, ProxyRequest.retryEnd]
  cases r.connected with
  | false => simp
  | true =>
    cases r.firstSend with
    | deadline => simp
    | connectionError => simp
    | exception => simp
    | sent =>
      cases r.retriesStale with
      | false =>
        cases responseExit r.first with
        | none => simp
        | some exit => cases exit <;> simp
      | true =>
        cases r.fresh with
        | false => simp
        | true =>
          cases r.secondSend with
          | deadline => simp
          | connectionError => simp
          | exception => simp
          | sent =>
            cases responseExit r.second with
            | none => simp
            | some exit => cases exit <;> simp

/-- Each consumer that is there gets exactly one record. -/
def RecordedOnce (o : Outcome) (consumers : Consumers) : Prop :=
  (consumers.persistence = true → (o.logRequests consumers).length = 1) ∧
    (consumers.usageSink = true → (o.usageEvents consumers).length = 1)

/-- **Attribution.** Of a request that has come to its end, the persistence layer, if
present, gets exactly one row and the usage sink, if installed, exactly one event, if and
only if the request ran through to the terminal block, or neither is there. -/
theorem recorded_once_iff (h : r.handleProxy = some o) (consumers : Consumers) :
    RecordedOnce o consumers ↔
      r.RunsThrough ∨ consumers.persistence = false ∧ consumers.usageSink = false := by
  rw [← attribution_isSome_iff h, RecordedOnce, Outcome.logRequests, Outcome.usageEvents]
  obtain ⟨persistence, usageSink⟩ := consumers
  cases o.attribution with
  | none => cases persistence <;> cases usageSink <;> simp
  | some code => cases persistence <;> cases usageSink <;> simp

/-- Both consumers are there. -/
def bothConsumers : Consumers := ⟨true, true⟩

theorem recorded_once_iff_stale : RecordedOnce staleRequest.outcome bothConsumers := by
  have hrun : staleRequest.handleProxy = some staleRequest.outcome := by decide
  refine (recorded_once_iff hrun bothConsumers).mpr (.inl ⟨rfl, rfl, ?_⟩)
  rw [if_pos (by decide)]
  exact .inr ⟨by decide, fun _ => by decide⟩

/-- No connection could be made. -/
def unconnectedRequest : ProxyRequest := { plainRequest [] [] with connected := false }

/-- The request fails before anything is recorded. -/
theorem failed_request_not_recorded :
    ¬∀ (r : ProxyRequest) (o : Outcome) (e : WriterEnd) (consumers : Consumers),
      r.handleProxy = some o → r.writerEnd = some e → RecordedOnce o consumers := by
  intro hclaim
  have honce := hclaim unconnectedRequest _ .connectionFailed bothConsumers rfl rfl
  have hrow := honce.1 rfl
  revert hrow
  decide

end Terminal

end Ranvier
