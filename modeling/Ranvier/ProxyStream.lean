import Ranvier.Run
import Ranvier.StreamParser

/-!
# A proxied request from its send to its completion

`stream_backend_response` reads from the backend, parses, writes the body to the
client and leaves its loop on one of many occasions; the code behind it in
`handle_proxy` looks at the flags in the request's context and at a byte counter
to decide on the stale-connection retry, the counters and the attribution row.

What the clock, the backend connection and the client do in one turn of the loop
is a `Turn`; a run of the loop is a list of turns. Route learning, token usage
and latency histograms have no influence on any of this and are left out.
-/

namespace Ranvier

/-! ## Context and effects -/

/-- The part of `ProxyContext` that the streaming phases use. -/
structure ProxyContext : Type where
  clientExpectsStreaming : Bool := true
  timedOut : Bool := false
  connectionFailed : Bool := false
  connectionError : Bool := false
  clientDisconnected : Bool := false
  streamClosed : Bool := false
  backendStatusCode : ℕ := 0
  bytesWrittenToClient : ℕ := 0
  chunksReceived : ℕ := 0
  staleRetryAttempt : ℕ := 0
  deriving DecidableEq, Repr

/-- `TelemetryOutcome::Kind`. -/
inductive TelemetryKind : Type where
  | SUCCESS
  | FAILURE
  | TIMEOUT
  | CONNECTION_ERROR
  deriving DecidableEq, Repr

/-- What a request reports to the counters, the circuit breaker and telemetry. -/
inductive Effect : Type where
  | recordSuccess
  | recordFailure
  | recordTimeout
  | recordConnectionError
  | recordStaleConnectionRetry
  | recordApiKeySuccess
  | recordApiKeyFailure
  | recordApiKeyTimeout
  | circuitSuccess
  | circuitFailure
  | telemetryOutcome (kind : TelemetryKind)
  deriving DecidableEq, Repr

/-- How the loop was left. -/
inductive LoopExit : Type where
  | broke
  | threw
  deriving DecidableEq, Repr

/-- The state of the streaming loop. -/
structure Streaming : Type where
  ctx : ProxyContext := {}
  parser : StreamParser := {}
  bundleValid : Bool := true
  clientOut : List UInt8 := []
  effects : List Effect := []
  exit : Option LoopExit := none
  deriving DecidableEq, Repr

/-! ## Client -/

/-- How a write to the client ends: a failing one may have sent a part. -/
inductive ClientWrite : Type where
  | ok
  | disconnected (sent : ℕ)
  | failed (sent : ℕ)
  deriving DecidableEq, Repr

/-- The bytes that reach the client. -/
def ClientWrite.sent : ClientWrite → List UInt8 → List UInt8
  | .ok, bytes => bytes
  | .disconnected n, bytes => bytes.take n
  | .failed n, bytes => bytes.take n

/-- The text of `write_client_error`. -/
def clientErrorText (isStreaming : Bool) (errorMsg : String) : List UInt8 :=
  if isStreaming then ascii "data: \x7b\"error\": \"" ++ ascii errorMsg ++ ascii "\"\x7d\n\n"
  else ascii "\x7b\"error\": \"" ++ ascii errorMsg ++ ascii "\"\x7d"

/-- `write_client_error`: a failing write is logged and ignored. -/
def writeClientError (s : Streaming) (errorMsg : String) (write : ClientWrite) : Streaming :=
  { s with
    clientOut := s.clientOut ++ write.sent (clientErrorText s.ctx.clientExpectsStreaming errorMsg) }

/-! ## Loop -/

/-- What happens in one turn of the loop. An empty chunk is the end of file. A
failing read is either handled on its future or caught (`thrown`). -/
inductive Turn : Type where
  | deadline
  | connectionError (thrown : Bool)
  | timeout
  | exception
  | read (chunk : List UInt8) (write : ClientWrite)
  deriving DecidableEq, Repr

/-- The client write of a turn. -/
def writeData (s : Streaming) (data : List UInt8) (write : ClientWrite) : Streaming :=
  if data = [] then s
  else
    let s := { s with clientOut := s.clientOut ++ write.sent data }
    match write with
    | .ok =>
      { s with ctx := { s.ctx with
          bytesWrittenToClient := s.ctx.bytesWrittenToClient + data.length } }
    | .disconnected _ =>
      { s with
        bundleValid := false
        ctx := { s.ctx with clientDisconnected := true }
        exit := some .broke }
    | .failed _ => { s with ctx := { s.ctx with streamClosed := true }, exit := some .threw }

/-- What the loop takes from a result before it writes the data. -/
def noteResult (s : Streaming) (res : ParserResult) : Streaming :=
  { s with
    bundleValid := s.bundleValid && !res.connectionClose
    ctx := { s.ctx with
      backendStatusCode :=
        if res.backendStatusCode ≠ 0 ∧ s.ctx.backendStatusCode = 0 then res.backendStatusCode
        else s.ctx.backendStatusCode }
    effects := if res.headerSnoopSuccess then s.effects ++ [.circuitSuccess] else s.effects }

/-- The end of the loop body. -/
def stopIfDone (s : Streaming) (done : Bool) : Streaming :=
  if s.exit = none ∧ done then { s with exit := some .broke } else s

/-- What the loop does with a result of the parser. -/
def handleResult (s : Streaming) (res : ParserResult) (write : ClientWrite) : Streaming :=
  if res.hasError then
    let s := { s with bundleValid := false, effects := s.effects ++ [.recordFailure] }
    { writeClientError s ("Backend response parsing error: " ++ res.errorMessage) write with
      exit := some .broke }
  else stopIfDone (writeData (noteResult s res) res.data write) res.done

/-- A turn that read a chunk. -/
def handleChunk (s : Streaming) (chunk : List UInt8) (write : ClientWrite) : Streaming :=
  let s := { s with ctx := { s.ctx with chunksReceived := s.ctx.chunksReceived + 1 } }
  let pushed := s.parser.push chunk
  handleResult { s with parser := pushed.1 } pushed.2 write

/-- One turn of `stream_backend_response`. -/
def streamTurn (s : Streaming) (t : Turn) : Option Streaming :=
  if s.exit = none then
    some (match t with
    | .deadline =>
      { s with bundleValid := false, ctx := { s.ctx with timedOut := true }, exit := some .broke }
    | .connectionError thrown =>
      { s with
        bundleValid := s.bundleValid && !thrown
        ctx := { s.ctx with connectionError := true }
        effects := s.effects ++ [.circuitFailure]
        exit := some .broke }
    | .timeout =>
      { s with bundleValid := false, ctx := { s.ctx with timedOut := true }, exit := some .broke }
    | .exception => { s with ctx := { s.ctx with streamClosed := true }, exit := some .threw }
    | .read [] _ => { s with bundleValid := false, exit := some .broke }
    | .read (b :: chunk) write => handleChunk s (b :: chunk) write)
  else none

/-- `stream_backend_response`, with a parser of its own, as far as the turns go;
nothing if there are turns after the loop was left. -/
def streamBackendResponse (s : Streaming) (turns : List Turn) : Option Streaming :=
  exec streamTurn { s with parser := {}, exit := none } turns

/-! ## Request -/

/-- How `send_backend_request` ends. -/
inductive SendOutcome : Type where
  | deadline
  | sent
  | connectionError
  | exception
  deriving DecidableEq, Repr

/-- What `send_backend_request` does to the context. -/
def sendBackendRequest (s : Streaming) : SendOutcome → Streaming
  | .deadline => { s with bundleValid := false, ctx := { s.ctx with timedOut := true } }
  | .sent => s
  | .connectionError =>
    { s with
      bundleValid := false
      ctx := { s.ctx with connectionError := true }
      effects := s.effects ++ [.circuitFailure, .recordConnectionError] }
  | .exception => s

/-- `should_retry_stale_connection`. -/
def shouldRetryStaleConnection (ctx : ProxyContext) (maxStaleRetries : ℕ) : Bool :=
  if maxStaleRetries = 0 then false
  else if ctx.timedOut then false
  else if ctx.connectionError then false
  else if ctx.clientDisconnected then false
  else if ctx.connectionFailed then false
  else if 0 < ctx.bytesWrittenToClient then false
  else if maxStaleRetries ≤ ctx.staleRetryAttempt then false
  else true

/-- A request: its configuration and what its surroundings do. `connected` is
whether `establish_backend_connection` succeeded, `fresh` whether the retry got
a connection, `finalWrite` the client write at completion. -/
structure ProxyRequest : Type where
  maxStaleRetries : ℕ
  clientExpectsStreaming : Bool
  connected : Bool
  firstSend : SendOutcome
  first : List Turn
  fresh : Bool
  secondSend : SendOutcome
  second : List Turn
  finalWrite : ClientWrite
  deriving DecidableEq, Repr

/-- How far a request got. `resent` is what the client had been sent when the
request went to the backend a second time, `attribution` the status in the
attribution row: a request that is still streaming, fails before streaming or
ends with an exception has none. -/
structure Outcome : Type where
  stream : Streaming
  resent : Option (List UInt8) := none
  attribution : Option ℕ := none
  deriving DecidableEq, Repr

/-- The request could not be connected or sent. -/
def failBeforeStreaming (s : Streaming) (errorMsg : String) (write : ClientWrite) : Outcome :=
  let effect := if s.ctx.timedOut then .recordTimeout else .recordFailure
  { stream := writeClientError { s with effects := s.effects ++ [effect] } errorMsg write }

/-- Completion status: counters and the error text for the client. -/
def completionStatus (s : Streaming) (write : ClientWrite) : Streaming :=
  if s.ctx.clientDisconnected then { s with effects := s.effects ++ [.recordApiKeyFailure] }
  else if s.ctx.timedOut then
    writeClientError
      { s with effects := s.effects ++ [.circuitFailure, .recordTimeout, .recordApiKeyTimeout] }
      "Request timed out" write
  else if s.ctx.connectionError then
    writeClientError
      { s with effects := s.effects ++ [.recordConnectionError, .recordApiKeyFailure] }
      "Backend connection lost" write
  else if s.ctx.connectionFailed then
    writeClientError { s with effects := s.effects ++ [.recordFailure, .recordApiKeyFailure] }
      "Backend connection failed" write
  else { s with effects := s.effects ++ [.recordSuccess, .recordApiKeySuccess] }

/-- The outcome reported to telemetry. -/
def telemetryKind (ctx : ProxyContext) : TelemetryKind :=
  if ctx.clientDisconnected then .FAILURE
  else if ctx.timedOut then .TIMEOUT
  else if ctx.connectionError ∨ ctx.connectionFailed then .CONNECTION_ERROR
  else .SUCCESS

/-- The status in the attribution row. -/
def attributionStatus (ctx : ProxyContext) : ℕ :=
  if ctx.clientDisconnected then 499
  else if ctx.timedOut then 504
  else if ctx.connectionError ∨ ctx.connectionFailed then 502
  else if ctx.backendStatusCode ≠ 0 then ctx.backendStatusCode
  else 200

/-- Phases 4 and 5. -/
def complete (s : Streaming) (resent : Option (List UInt8)) (write : ClientWrite) : Outcome :=
  let s' := completionStatus s write
  { stream := { s' with effects := s'.effects ++ [.telemetryOutcome (telemetryKind s.ctx)] }
    resent := resent
    attribution := some (attributionStatus s.ctx) }

/-- An exception left the streaming loop: counted as a failure and rethrown. -/
def failStreaming (s : Streaming) (resent : Option (List UInt8)) : Outcome :=
  { stream := { s with effects := s.effects ++ [.recordFailure] }, resent := resent }

/-- What follows the loop when there is no retry. -/
def afterStream (s : Streaming) (resent : Option (List UInt8)) (write : ClientWrite) : Outcome :=
  match s.exit with
  | none => { stream := s, resent := resent }
  | some .threw => failStreaming s resent
  | some .broke => complete s resent write

namespace ProxyRequest

/-- The context before the first stream. -/
def start (r : ProxyRequest) : Streaming :=
  { ctx := { clientExpectsStreaming := r.clientExpectsStreaming } }

/-- The retry on a fresh connection. -/
def staleRetry (r : ProxyRequest) (s : Streaming) : Option Outcome :=
  let s := { s with
    bundleValid := false
    ctx := { s.ctx with staleRetryAttempt := s.ctx.staleRetryAttempt + 1 }
    effects := s.effects ++ [Effect.recordStaleConnectionRetry, Effect.circuitFailure] }
  if r.fresh then
    let s := { s with
      bundleValid := true
      ctx := { s.ctx with
        connectionError := false
        timedOut := false
        streamClosed := false
        chunksReceived := 0
        backendStatusCode := 0 } }
    let sent := sendBackendRequest s r.secondSend
    match r.secondSend with
    | .deadline => some (complete sent none r.finalWrite)
    | .connectionError => some (complete sent (some s.clientOut) r.finalWrite)
    | .exception => some { stream := sent, resent := some s.clientOut }
    | .sent =>
      match streamBackendResponse sent r.second with
      | some s' => some (afterStream s' (some s.clientOut) r.finalWrite)
      | none => none
  else
    some (complete { s with ctx := { s.ctx with connectionFailed := true } } none r.finalWrite)

/-- The body writer of `handle_proxy` for a request. -/
def handleProxy (r : ProxyRequest) : Option Outcome :=
  if r.connected then
    let sent := sendBackendRequest r.start r.firstSend
    match r.firstSend with
    | .deadline => some (failBeforeStreaming sent "Request timed out" r.finalWrite)
    | .connectionError =>
      some (failBeforeStreaming sent "Backend connection lost during request" r.finalWrite)
    | .exception => some { stream := sent }
    | .sent =>
      match streamBackendResponse sent r.first with
      | some s =>
        if s.exit = some .broke ∧ shouldRetryStaleConnection s.ctx r.maxStaleRetries then
          r.staleRetry s
        else some (afterStream s none r.finalWrite)
      | none => none
  else
    some (failBeforeStreaming r.start "Backend connection failed after retries" r.finalWrite)

end ProxyRequest

end Ranvier
