import Ranvier.ChunkedStream
import Ranvier.ProxyStream

/-!
# What a request's ending says about its response

The loop of `stream_backend_response` is left with a flag set, or without one:
at the end of file, at a parse error, at the end of a parsed response. The code
behind it takes the absence of flags for success and, if no body byte was
written, for a stale connection.

* `Running`, `Ended` — the **invariant** of the loop and what its last turn adds;
* `resent_iff` — when the request goes to the backend a second time;
* `resend_sound_iff` — when that is justified;
* `truncated_not_success_iff` — when an incomplete response is not counted as a
  success.
-/

namespace Ranvier

/-! ## Responses as the backend sends them -/

/-- The chunk that a turn hands to the parser. -/
def Turn.chunk? : Turn → Option (List UInt8)
  | .read (b :: chunk) _ => some (b :: chunk)
  | _ => none

/-- The chunks read in the turns. -/
def chunksRead (turns : List Turn) : List (List UInt8) := turns.filterMap Turn.chunk?

/-- The bytes read in the turns. -/
def received (turns : List Turn) : List UInt8 := (chunksRead turns).flatten

/-- What the parser says to the chunks. -/
def answers (turns : List Turn) : List ParserResult := ({} : StreamParser).pushAll (chunksRead turns)

/-- A chunked body up to its terminal line. -/
def HasTerminalChunk (rest : List UInt8) : Prop :=
  ∃ (chunks : List BodyChunk) (lastLine tail : List UInt8),
    rest = chunks.flatMap BodyChunk.bytes ++ (lastLine ++ crlf ++ tail) ∧
    (∀ c ∈ chunks, ChunkLine c.data.length c.line ∧ c.data ≠ []) ∧ ChunkLine 0 lastLine

/-- The header block and what follows its blank line. -/
def splitHeaders (bytes : List UInt8) : Option (List UInt8 × List UInt8) :=
  (findSub crlfcrlf bytes).map fun i => (bytes.take i, bytes.drop (i + 4))

/-- The framing a header block declares. -/
def framing (headers : List UInt8) : HeaderScan := (scanLines (headerLines headers) {}).1

/-- The header block has a Content-Length line. -/
def declaresLength (headers : List UInt8) : Bool :=
  (headerLines headers).any fun line => icaseStartsWith line kContentLength

/-- The bytes are a complete response: its terminal chunk or its declared length
is there, or it ends with the connection. -/
def CompleteResponse (closed : Prop) (bytes : List UInt8) : Prop :=
  ∃ headers rest, splitHeaders bytes = some (headers, rest) ∧
    if (framing headers).isChunked then HasTerminalChunk rest
    else if declaresLength headers then (framing headers).contentLength ≤ rest.length
    else closed

/-- The bytes stop short of the end that their header block declares. -/
def EndMissing (bytes : List UInt8) : Prop :=
  ∃ headers rest, splitHeaders bytes = some (headers, rest) ∧
    if (framing headers).isChunked then ¬HasTerminalChunk rest
    else rest.length < (framing headers).contentLength

/-- The turns end with the end of file. -/
def EndsInEof (turns : List Turn) : Prop := ∃ write, turns.getLast? = some (.read [] write)

/-- The turns end with a connection that broke. -/
def EndsInReset (turns : List Turn) : Prop :=
  ∃ thrown, turns.getLast? = some (.connectionError thrown)

/-- The parser refuses the bytes. -/
def Unparsable (turns : List Turn) : Prop := ∃ res ∈ answers turns, res.hasError = true

/-- The parser reports the end of the response. -/
def ParsedToEnd (turns : List Turn) : Prop := ∃ res ∈ answers turns, res.done = true

/-- The reads come to an end. -/
def Concluded (turns : List Turn) : Prop :=
  EndsInEof turns ∨ Unparsable turns ∨ ParsedToEnd turns

/-- The body bytes in the answers; what an answer with an error carries is
dropped. -/
def delivered (turns : List Turn) : List UInt8 :=
  (answers turns).flatMap fun res => if res.hasError then [] else res.data

/-- The reads come to an end, and there was no body byte in any. -/
def Quiet (turns : List Turn) : Prop := Concluded turns ∧ delivered turns = []

/-- Some of what is written reaches the client. -/
def ClientWrite.reaches : ClientWrite → Bool
  | .ok => true
  | .disconnected n => 0 < n
  | .failed n => 0 < n

/-- The parser refuses the last read, and the text that says so reaches the
client. -/
def ErrorReached (turns : List Turn) : Prop :=
  Unparsable turns ∧ ∃ chunk write, turns.getLast? = some (.read chunk write) ∧ write.reaches

/-! ## One turn -/

section Turns

/-- The flags in the context that a completion looks at. -/
def ProxyContext.flags (ctx : ProxyContext) : Bool × Bool × Bool × Bool :=
  (ctx.timedOut, ctx.connectionError, ctx.clientDisconnected, ctx.connectionFailed)

/-- No flag is set. -/
def ProxyContext.Flagless (ctx : ProxyContext) : Prop := ctx.flags = (false, false, false, false)

/-- The parser after the chunks. -/
def parserAfter (chunks : List (List UInt8)) : StreamParser :=
  chunks.foldl (fun p chunk => (p.push chunk).1) {}

theorem pushAll_concat (p : StreamParser) (chunks : List (List UInt8)) (chunk : List UInt8) :
    p.pushAll (chunks ++ [chunk]) = p.pushAll chunks ++
      [((chunks.foldl (fun p chunk => (p.push chunk).1) p).push chunk).2] := by
  induction chunks generalizing p with
  | nil => rfl
  | cons c chunks ih => rw [List.cons_append, StreamParser.pushAll, ih]; rfl

variable {turns : List Turn} {chunk : List UInt8} {write : ClientWrite} {t : Turn}

theorem chunksRead_concat_some (h : t.chunk? = some chunk) :
    chunksRead (turns ++ [t]) = chunksRead turns ++ [chunk] := by
  rw [chunksRead, List.filterMap_append, List.filterMap_cons_some h]
  rfl

theorem answers_concat_some (h : t.chunk? = some chunk) :
    answers (turns ++ [t]) = answers turns ++ [((parserAfter (chunksRead turns)).push chunk).2] := by
  rw [answers, chunksRead_concat_some h, pushAll_concat]
  rfl

theorem answers_concat_none (h : t.chunk? = none) : answers (turns ++ [t]) = answers turns := by
  rw [answers, chunksRead, List.filterMap_append, List.filterMap_cons_none h, List.filterMap_nil,
    List.append_nil]
  rfl

theorem unparsable_concat_some (h : t.chunk? = some chunk) :
    Unparsable (turns ++ [t]) ↔
      Unparsable turns ∨ ((parserAfter (chunksRead turns)).push chunk).2.hasError = true := by
  rw [Unparsable, answers_concat_some h]
  simp [Unparsable, or_and_right, exists_or]

theorem parsedToEnd_concat_some (h : t.chunk? = some chunk) :
    ParsedToEnd (turns ++ [t]) ↔
      ParsedToEnd turns ∨ ((parserAfter (chunksRead turns)).push chunk).2.done = true := by
  rw [ParsedToEnd, answers_concat_some h]
  simp [ParsedToEnd, or_and_right, exists_or]

theorem unparsable_concat_none (h : t.chunk? = none) :
    Unparsable (turns ++ [t]) ↔ Unparsable turns := by
  rw [Unparsable, answers_concat_none h, Unparsable]

theorem parsedToEnd_concat_none (h : t.chunk? = none) :
    ParsedToEnd (turns ++ [t]) ↔ ParsedToEnd turns := by
  rw [ParsedToEnd, answers_concat_none h, ParsedToEnd]

theorem delivered_concat_some (h : t.chunk? = some chunk) :
    delivered (turns ++ [t]) = delivered turns ++
      if ((parserAfter (chunksRead turns)).push chunk).2.hasError then []
      else ((parserAfter (chunksRead turns)).push chunk).2.data := by
  rw [delivered, answers_concat_some h, List.flatMap_append, delivered, List.flatMap_singleton]

theorem delivered_concat_none (h : t.chunk? = none) :
    delivered (turns ++ [t]) = delivered turns := by
  rw [delivered, answers_concat_none h, delivered]

theorem endsInEof_concat : EndsInEof (turns ++ [t]) ↔ ∃ write, t = .read [] write := by
  simp [EndsInEof]

theorem not_endsInReset_concat_read : ¬EndsInReset (turns ++ [Turn.read chunk write]) := by
  simp [EndsInReset]

theorem errorReached_concat_read :
    ErrorReached (turns ++ [Turn.read chunk write]) ↔
      Unparsable (turns ++ [Turn.read chunk write]) ∧ write.reaches := by
  simp [ErrorReached]

/-- Something of a non-empty text reaches the client if the write does. -/
theorem sent_ne_nil {bytes : List UInt8} (hne : bytes ≠ []) :
    write.sent bytes ≠ [] ↔ write.reaches := by
  cases write with
  | ok => simp [ClientWrite.sent, ClientWrite.reaches, hne]
  | disconnected n => simp [ClientWrite.sent, ClientWrite.reaches, hne, Nat.pos_iff_ne_zero]
  | failed n => simp [ClientWrite.sent, ClientWrite.reaches, hne, Nat.pos_iff_ne_zero]

theorem clientErrorText_ne_nil (isStreaming : Bool) (errorMsg : String) :
    clientErrorText isStreaming errorMsg ≠ [] := by
  have hopen : ascii "data: \x7b\"error\": \"" ≠ [] := by decide
  have hopen' : ascii "\x7b\"error\": \"" ≠ [] := by decide
  cases isStreaming with
  | true => simp [clientErrorText, hopen]
  | false => simp [clientErrorText, hopen']

/-- What the loop keeps: no flag changes, and the client has got what the parser
delivered, with `extra` behind it. -/
structure Kept (s₀ : Streaming) (turns : List Turn) (extra : List UInt8) (s : Streaming) :
    Prop where
  flags : s.ctx.flags = s₀.ctx.flags
  attempt : s.ctx.staleRetryAttempt = s₀.ctx.staleRetryAttempt
  bytes : s.ctx.bytesWrittenToClient = s₀.ctx.bytesWrittenToClient + (delivered turns).length
  clientOut : s.clientOut = s₀.clientOut ++ delivered turns ++ extra

/-- The loop goes on. -/
structure Running (s₀ : Streaming) (turns : List Turn) (s : Streaming) : Prop where
  exit : s.exit = none
  kept : Kept s₀ turns [] s
  parser : s.parser = parserAfter (chunksRead turns)
  goesOn : ¬Concluded turns

/-- Where the turns lead: the loop goes on, is left with a flag or an exception,
or is left without (`clean`), where `extra` is the text about a parse error. -/
inductive StreamOutcome (s₀ : Streaming) (turns : List Turn) (s : Streaming) : Prop where
  | running : Running s₀ turns s → StreamOutcome s₀ turns s
  | flagged : s.exit = some .broke → ¬s.ctx.Flagless → ¬Quiet turns → ¬EndsInEof turns →
      ¬Unparsable turns → StreamOutcome s₀ turns s
  | threw : s.exit = some .threw → ¬Quiet turns → ¬EndsInEof turns → ¬Unparsable turns →
      StreamOutcome s₀ turns s
  | clean (extra : List UInt8) : s.exit = some .broke → Kept s₀ turns extra s →
      Concluded turns → ¬EndsInReset turns → (extra ≠ [] ↔ ErrorReached turns) →
      StreamOutcome s₀ turns s

variable {s₀ s s' : Streaming}

theorem Running.parsable (hrun : Running s₀ turns s) : ¬Unparsable turns :=
  fun h => hrun.goesOn (.inr (.inl h))

/-- The end of a turn without a parse error. -/
theorem stopIfDone_outcome {done : Bool} (hexit : s.exit = none) (hkept : Kept s₀ turns [] s)
    (hparser : s.parser = parserAfter (chunksRead turns)) (hparsable : ¬Unparsable turns)
    (hreset : ¬EndsInReset turns) (hend : Concluded turns ↔ done = true) :
    StreamOutcome s₀ turns (stopIfDone s done) := by
  cases done with
  | false =>
    rw [stopIfDone, if_neg (by simp)]
    exact .running ⟨hexit, hkept, hparser, by simpa using hend⟩
  | true =>
    rw [stopIfDone, if_pos ⟨hexit, rfl⟩]
    refine .clean [] rfl ⟨hkept.flags, hkept.attempt, hkept.bytes, hkept.clientOut⟩ (hend.mpr rfl)
      hreset ?_
    simp [ErrorReached, hparsable]

/-- The client write of a turn, and the end of the turn. -/
theorem writeData_outcome (past : List Turn) {data : List UInt8} {done : Bool}
    (hexit : s.exit = none) (hkept : Kept s₀ past [] s)
    (hparser : s.parser = parserAfter (chunksRead turns)) (hparsable : ¬Unparsable turns)
    (hnoEof : ¬EndsInEof turns) (hreset : ¬EndsInReset turns)
    (hend : Concluded turns ↔ done = true)
    (hdel : delivered turns = delivered past ++ data) :
    StreamOutcome s₀ turns (stopIfDone (writeData s data write) done) := by
  obtain ⟨hflags, hattempt, hbytes, hout⟩ := hkept
  rw [List.append_nil] at hout
  by_cases hdata : data = []
  · rw [hdata, List.append_nil] at hdel
    rw [writeData, if_pos hdata]
    refine stopIfDone_outcome hexit ⟨hflags, hattempt, ?_, ?_⟩ hparser hparsable hreset hend
    · rw [hbytes, hdel]
    · rw [hout, hdel, List.append_nil]
  · -- something is written, so the turn is not a quiet one
    have hquiet : ¬Quiet turns := by
      rintro ⟨-, hnil⟩
      rw [hdel, List.append_eq_nil_iff] at hnil
      exact hdata hnil.2
    rw [writeData, if_neg hdata]
    cases write with
    | ok =>
      refine stopIfDone_outcome hexit ?_ hparser hparsable hreset hend
      refine ⟨hflags, hattempt, ?_, ?_⟩
      · change s.ctx.bytesWrittenToClient + data.length = _
        rw [hbytes, hdel, List.length_append, Nat.add_assoc]
      · change s.clientOut ++ data = _
        rw [hout, hdel, List.append_nil, List.append_assoc]
    | disconnected n =>
      exact .flagged rfl (by simp [stopIfDone, ProxyContext.Flagless, ProxyContext.flags]) hquiet
        hnoEof hparsable
    | failed n => exact .threw rfl hquiet hnoEof hparsable

/-- A chunk the parser accepts. -/
theorem handleChunk_outcome (hrun : Running s₀ turns s) {b : UInt8}
    (hok : (s.parser.push (b :: chunk)).2.hasError = false) :
    StreamOutcome s₀ (turns ++ [.read (b :: chunk) write]) (handleChunk s (b :: chunk) write) := by
  have hparsable : ¬Unparsable (turns ++ [.read (b :: chunk) write]) := by
    rw [unparsable_concat_some rfl, ← hrun.parser, hok]
    simpa using hrun.parsable
  have hnoEof : ¬EndsInEof (turns ++ [.read (b :: chunk) write]) := by
    rw [endsInEof_concat]
    simp
  have hend : Concluded (turns ++ [.read (b :: chunk) write]) ↔
      (s.parser.push (b :: chunk)).2.done = true := by
    have hnotDone : ¬ParsedToEnd turns := fun h => hrun.goesOn (.inr (.inr h))
    rw [Concluded, parsedToEnd_concat_some rfl, ← hrun.parser]
    simp [hnoEof, hparsable, hnotDone]
  rw [handleChunk, handleResult, if_neg (by simp [hok])]
  refine writeData_outcome turns hrun.exit ?_ ?_ hparsable hnoEof not_endsInReset_concat_read hend ?_
  · exact ⟨hrun.kept.flags, hrun.kept.attempt, hrun.kept.bytes, hrun.kept.clientOut⟩
  · rw [chunksRead_concat_some rfl, parserAfter, List.foldl_concat, ← parserAfter, ← hrun.parser]
    rfl
  · rw [delivered_concat_some rfl, ← hrun.parser, hok]
    rfl

/-- A chunk the parser refuses: the text about it is not counted. -/
theorem handleChunk_error (hrun : Running s₀ turns s) {b : UInt8}
    (herr : (s.parser.push (b :: chunk)).2.hasError = true) :
    StreamOutcome s₀ (turns ++ [.read (b :: chunk) write]) (handleChunk s (b :: chunk) write) := by
  have hunparsable : Unparsable (turns ++ [.read (b :: chunk) write]) := by
    rw [unparsable_concat_some rfl, ← hrun.parser]
    exact .inr herr
  have hdel : delivered (turns ++ [.read (b :: chunk) write]) = delivered turns := by
    rw [delivered_concat_some rfl, ← hrun.parser, herr, if_pos rfl, List.append_nil]
  have hout := hrun.kept.clientOut
  rw [List.append_nil] at hout
  rw [handleChunk, handleResult, if_pos herr]
  refine .clean (write.sent (clientErrorText s.ctx.clientExpectsStreaming
      ("Backend response parsing error: " ++ (s.parser.push (b :: chunk)).2.errorMessage)))
    rfl ⟨hrun.kept.flags, hrun.kept.attempt, ?_, ?_⟩ (.inr (.inl hunparsable))
    not_endsInReset_concat_read ?_
  · rw [hdel]
    exact hrun.kept.bytes
  · rw [hdel, ← hout]
    rfl
  · rw [sent_ne_nil (clientErrorText_ne_nil _ _), errorReached_concat_read]
    simp [hunparsable]

/-- The end of file: the parser is not asked, and nothing is flagged. -/
theorem eof_outcome (hrun : Running s₀ turns s) :
    StreamOutcome s₀ (turns ++ [.read [] write])
      { s with bundleValid := false, exit := some .broke } := by
  have hparsable : ¬Unparsable (turns ++ [.read [] write]) := by
    rw [unparsable_concat_none rfl]
    exact hrun.parsable
  refine .clean [] rfl ⟨hrun.kept.flags, hrun.kept.attempt, ?_, ?_⟩
    (.inl (endsInEof_concat.mpr ⟨write, rfl⟩)) not_endsInReset_concat_read ?_
  · rw [delivered_concat_none rfl]
    exact hrun.kept.bytes
  · rw [delivered_concat_none rfl]
    exact hrun.kept.clientOut
  · simp [ErrorReached, hparsable]

/-- A turn without a read does not conclude the reads. -/
theorem Running.no_read (hrun : Running s₀ turns s) (h : ∀ chunk write, t ≠ .read chunk write) :
    ¬Concluded (turns ++ [t]) := by
  have hnone : t.chunk? = none := by
    cases t with
    | read chunk write => exact absurd rfl (h chunk write)
    | _ => rfl
  have hnoEof : ¬EndsInEof (turns ++ [t]) := by
    intro heof
    obtain ⟨write, ht⟩ := endsInEof_concat.mp heof
    exact h [] write ht
  rw [Concluded, unparsable_concat_none hnone, parsedToEnd_concat_none hnone]
  rintro (heof | hrest)
  · exact hnoEof heof
  · exact hrun.goesOn (.inr hrest)

/-- **One turn** of a loop that goes on. -/
theorem Running.turn (hrun : Running s₀ turns s) (hturn : streamTurn s t = some s') :
    StreamOutcome s₀ (turns ++ [t]) s' := by
  simp only [streamTurn, hrun.exit, if_true] at hturn
  have hflagged (h : ∀ chunk write, t ≠ .read chunk write) (hexit : s'.exit = some .broke)
      (hflags : ¬s'.ctx.Flagless) : StreamOutcome s₀ (turns ++ [t]) s' := by
    have hgoes := hrun.no_read h
    exact .flagged hexit hflags (fun hq => hgoes hq.1) (fun he => hgoes (.inl he))
      fun hu => hgoes (.inr (.inl hu))
  cases t with
  | deadline =>
    obtain rfl := Option.some.inj hturn
    exact hflagged (by simp) rfl (by simp [ProxyContext.Flagless, ProxyContext.flags])
  | connectionError thrown =>
    obtain rfl := Option.some.inj hturn
    exact hflagged (by simp) rfl (by simp [ProxyContext.Flagless, ProxyContext.flags])
  | timeout =>
    obtain rfl := Option.some.inj hturn
    exact hflagged (by simp) rfl (by simp [ProxyContext.Flagless, ProxyContext.flags])
  | exception =>
    obtain rfl := Option.some.inj hturn
    have hgoes := hrun.no_read (t := .exception) (by simp)
    exact .threw rfl (fun hq => hgoes hq.1) (fun he => hgoes (.inl he))
      fun hu => hgoes (.inr (.inl hu))
  | read chunk write =>
    cases chunk with
    | nil =>
      obtain rfl := Option.some.inj hturn
      exact eof_outcome hrun
    | cons b chunk =>
      obtain rfl := Option.some.inj hturn
      cases herr : (s.parser.push (b :: chunk)).2.hasError with
      | false => exact handleChunk_outcome hrun herr
      | true => exact handleChunk_error hrun herr

/-- A loop that takes another turn was not left. -/
theorem StreamOutcome.running_of_turn (hout : StreamOutcome s₀ turns s)
    (hturn : streamTurn s t = some s') : Running s₀ turns s := by
  cases hout with
  | running hrun => exact hrun
  | flagged hexit _ _ _ _ => simp [streamTurn, hexit] at hturn
  | threw hexit _ _ _ => simp [streamTurn, hexit] at hturn
  | clean _ hexit _ _ _ _ => simp [streamTurn, hexit] at hturn

theorem streamOutcome_start (s₀ : Streaming) :
    StreamOutcome s₀ [] { s₀ with parser := {}, exit := none } := by
  refine .running ⟨rfl, ⟨rfl, rfl, rfl, ?_⟩, rfl, ?_⟩
  · simp [delivered, answers, chunksRead, StreamParser.pushAll]
  · simp [Concluded, EndsInEof, Unparsable, ParsedToEnd, answers, chunksRead, StreamParser.pushAll]

/-- **Every run of the loop.** -/
theorem stream_outcome (hexec : streamBackendResponse s₀ turns = some s) :
    StreamOutcome s₀ turns s := by
  refine exec_induction (h := []) (I := StreamOutcome s₀) ?_ hexec (streamOutcome_start s₀)
  intro past s a s' hturn hout
  exact (hout.running_of_turn hturn).turn hturn

theorem shouldRetry_iff {ctx : ProxyContext} {n : ℕ} :
    shouldRetryStaleConnection ctx n = true ↔
      n ≠ 0 ∧ ctx.Flagless ∧ ctx.bytesWrittenToClient = 0 ∧ ctx.staleRetryAttempt < n := by
  simp only [shouldRetryStaleConnection, ProxyContext.Flagless, ProxyContext.flags, Prod.mk.injEq]
  grind

/-- The loop ends for a retry just if its turns were quiet. -/
theorem retries_iff (hflagless : s₀.ctx.Flagless) (hbytes : s₀.ctx.bytesWrittenToClient = 0)
    (hattempt : s₀.ctx.staleRetryAttempt = 0) {n : ℕ}
    (hexec : streamBackendResponse s₀ turns = some s) :
    (s.exit = some .broke ∧ shouldRetryStaleConnection s.ctx n = true) ↔ n ≠ 0 ∧ Quiet turns := by
  rw [shouldRetry_iff]
  cases stream_outcome hexec with
  | running hrun =>
    have hquiet : ¬Quiet turns := fun hq => hrun.goesOn hq.1
    simp [hrun.exit, hquiet]
  | flagged _ hflags hquiet _ _ => simp [hflags, hquiet]
  | threw hexit hquiet _ _ => simp [hexit, hquiet]
  | clean extra hexit hkept hend _ _ =>
    have hless : s.ctx.Flagless := hkept.flags.trans hflagless
    have hnil : s.ctx.bytesWrittenToClient = 0 ↔ delivered turns = [] := by
      rw [hkept.bytes, hbytes, Nat.zero_add, List.length_eq_zero_iff]
    rw [hkept.attempt, hattempt, hnil, Quiet]
    constructor
    · rintro ⟨-, hn, -, hdel, -⟩
      exact ⟨hn, hend, hdel⟩
    · rintro ⟨hn, -, hdel⟩
      exact ⟨hexit, hn, hless, hdel, Nat.pos_of_ne_zero hn⟩

/-- After quiet turns the client has something just if it is the text about a
parse error. -/
theorem quiet_clientOut (hout : s₀.clientOut = []) (hquiet : Quiet turns)
    (hexec : streamBackendResponse s₀ turns = some s) : s.clientOut ≠ [] ↔ ErrorReached turns := by
  cases stream_outcome hexec with
  | running hrun => exact absurd hquiet.1 hrun.goesOn
  | flagged _ _ hnot _ _ => exact absurd hquiet hnot
  | threw _ hnot _ _ => exact absurd hquiet hnot
  | clean extra _ hkept _ _ hextra =>
    rw [hkept.clientOut, hout, hquiet.2]
    exact hextra

/-- The end of file and a parse error leave the loop without a flag. -/
theorem clean_of_unfinished (hflagless : s₀.ctx.Flagless)
    (hexec : streamBackendResponse s₀ turns = some s) (h : EndsInEof turns ∨ Unparsable turns) :
    s.exit = some .broke ∧ s.ctx.Flagless := by
  cases stream_outcome hexec with
  | running hrun => exact absurd (h.imp_right .inl) hrun.goesOn
  | flagged _ _ _ heof hpars => exact absurd h (not_or.mpr ⟨heof, hpars⟩)
  | threw _ _ heof hpars => exact absurd h (not_or.mpr ⟨heof, hpars⟩)
  | clean _ hexit hkept _ _ _ => exact ⟨hexit, hkept.flags.trans hflagless⟩

/-- A broken connection leaves it with one. -/
theorem flagged_of_reset (hexec : streamBackendResponse s₀ turns = some s)
    (h : EndsInReset turns) : ¬(s.exit = some .broke ∧ s.ctx.Flagless) := by
  cases stream_outcome hexec with
  | running hrun => simp [hrun.exit]
  | flagged _ hflags _ _ _ => simp [hflags]
  | threw hexit _ _ _ => simp [hexit]
  | clean _ _ _ _ hreset _ => exact absurd h hreset

end Turns

/-! ## Completion -/

section Completion

variable {s s₀ s' : Streaming} {t : Turn} {turns : List Turn} {resent : Option (List UInt8)}
  {write : ClientWrite}

/-- No success has been counted. -/
def NoSuccess (s : Streaming) : Prop := Effect.recordSuccess ∉ s.effects

theorem streamTurn_noSuccess (hno : NoSuccess s) (hturn : streamTurn s t = some s') :
    NoSuccess s' := by
  rw [NoSuccess] at hno ⊢
  have hchunk (chunk : List UInt8) (write : ClientWrite) :
      Effect.recordSuccess ∉ (handleChunk s chunk write).effects := by
    simp only [handleChunk, handleResult, writeClientError, stopIfDone, writeData, noteResult]
    grind
  rw [streamTurn.eq_def] at hturn
  split at hturn
  · obtain rfl := Option.some.inj hturn
    split <;> simp [hno, hchunk]
  · cases hturn

theorem streamBackendResponse_noSuccess (hno : NoSuccess s₀)
    (hexec : streamBackendResponse s₀ turns = some s) : NoSuccess s :=
  exec_induction (h := []) (I := fun _ => NoSuccess) (fun hturn hno => streamTurn_noSuccess hno hturn)
    hexec hno

/-- The request is not recorded as a success, nor its row with a 2xx status. -/
def NotASuccess (o : Outcome) : Prop :=
  Effect.recordSuccess ∉ o.stream.effects ∧ ∀ code ∈ o.attribution, ¬(200 ≤ code ∧ code < 300)

/-- Without a flag, a completion is a success; with one it is not. -/
theorem complete_notASuccess_iff (hno : NoSuccess s) :
    NotASuccess (complete s resent write) ↔ ¬s.ctx.Flagless := by
  rw [NoSuccess] at hno
  simp only [NotASuccess, complete, completionStatus, attributionStatus, writeClientError,
    ProxyContext.Flagless, ProxyContext.flags, Prod.mk.injEq, Option.mem_some_iff, forall_eq']
  grind

theorem afterStream_notASuccess_iff (hno : NoSuccess s) :
    NotASuccess (afterStream s resent write) ↔ ¬(s.exit = some .broke ∧ s.ctx.Flagless) := by
  rw [afterStream]
  split
  · next hexit =>
    have : NotASuccess { stream := s, resent := resent } := ⟨hno, by simp⟩
    simp [hexit, this]
  · next hexit =>
    have : NotASuccess (failStreaming s resent) := by
      refine ⟨?_, by simp [failStreaming]⟩
      rw [NoSuccess] at hno
      simp [failStreaming, hno]
    simp [hexit, this]
  · next hexit =>
    rw [complete_notASuccess_iff hno]
    simp [hexit]

theorem afterStream_resent : (afterStream s resent write).resent = resent := by
  rw [afterStream]
  split
  · rfl
  · rfl
  · rfl

end Completion

/-! ## Requests -/

section Requests

variable {r : ProxyRequest} {o : Outcome} {turns : List Turn} {s : Streaming}

namespace ProxyRequest

/-- The request reaches the streaming phase. -/
def Streams (r : ProxyRequest) : Prop := r.connected = true ∧ r.firstSend = .sent

/-- The first response is taken for a stale connection. -/
def Retries (r : ProxyRequest) : Prop := r.Streams ∧ r.maxStaleRetries ≠ 0 ∧ Quiet r.first

/-- The retry sends the request. -/
def Resends (r : ProxyRequest) : Prop := r.Retries ∧ r.fresh = true ∧ r.secondSend ≠ .deadline

/-- The retry streams a response. -/
def Restreams (r : ProxyRequest) : Prop := r.Retries ∧ r.fresh = true ∧ r.secondSend = .sent

/-- The turns of the response that the request ends with. -/
def Answer (r : ProxyRequest) (turns : List Turn) : Prop :=
  (r.Restreams → turns = r.second) ∧ (¬r.Restreams → turns = r.first)

/-- The request goes on to the stale retry. -/
def retriesStale (r : ProxyRequest) : Bool :=
  match streamBackendResponse r.start r.first with
  | some s => s.exit = some .broke && shouldRetryStaleConnection s.ctx r.maxStaleRetries
  | none => false

theorem start_flagless (r : ProxyRequest) : r.start.ctx.Flagless := rfl

theorem retriesStale_iff (hs : r.Streams) {s : Streaming}
    (hstream : streamBackendResponse r.start r.first = some s) :
    r.retriesStale = true ↔ r.Retries := by
  have hretries := retries_iff (n := r.maxStaleRetries) r.start_flagless rfl rfl hstream
  rw [retriesStale, hstream]
  simp only [Bool.and_eq_true, decide_eq_true_eq, hretries]
  simp [Retries, hs]

/-- Before streaming nothing is sent twice, counted as a success or attributed. -/
theorem handleProxy_of_not_streams (hs : ¬r.Streams) (h : r.handleProxy = some o) :
    o.resent = none ∧ NotASuccess o := by
  have hfail (s : Streaming) (msg : String) (write : ClientWrite) (hno : NoSuccess s) :
      (failBeforeStreaming s msg write).resent = none ∧
        NotASuccess (failBeforeStreaming s msg write) := by
    refine ⟨rfl, ?_, by simp [failBeforeStreaming]⟩
    rw [NoSuccess] at hno
    simp only [failBeforeStreaming, writeClientError]
    grind
  rw [handleProxy.eq_def] at h
  split at h
  · next hconn =>
    cases hsend : r.firstSend with
    | sent => exact absurd ⟨hconn, hsend⟩ hs
    | deadline =>
      simp only [hsend] at h
      obtain rfl := Option.some.inj h
      exact hfail _ _ _ (by simp [NoSuccess, sendBackendRequest, start])
    | connectionError =>
      simp only [hsend] at h
      obtain rfl := Option.some.inj h
      exact hfail _ _ _ (by simp [NoSuccess, sendBackendRequest, start])
    | exception =>
      simp only [hsend] at h
      obtain rfl := Option.some.inj h
      exact ⟨rfl, by simp [NotASuccess, sendBackendRequest, start]⟩
  · obtain rfl := Option.some.inj h
    exact hfail _ _ _ (by simp [NoSuccess, start])

/-- The first stream, and what follows it. -/
theorem handleProxy_of_streams (hs : r.Streams) (h : r.handleProxy = some o) :
    ∃ s, streamBackendResponse r.start r.first = some s ∧
      (r.Retries ∧ s.exit = some .broke ∧ s.ctx.Flagless ∧ r.staleRetry s = some o ∨
        ¬r.Retries ∧ o = afterStream s none r.finalWrite) := by
  obtain ⟨hconn, hsend⟩ := hs
  simp only [handleProxy, hconn, if_true, hsend, sendBackendRequest] at h
  cases hstream : streamBackendResponse r.start r.first with
  | none => simp [hstream] at h
  | some s =>
    have hretries := retries_iff (n := r.maxStaleRetries) r.start_flagless rfl rfl hstream
    simp only [hstream] at h
    refine ⟨s, rfl, ?_⟩
    split at h
    · next hretry =>
      obtain ⟨hn, hquiet⟩ := hretries.mp hretry
      exact .inl ⟨⟨⟨hconn, hsend⟩, hn, hquiet⟩, hretry.1, (shouldRetry_iff.mp hretry.2).2.1, h⟩
    · next hretry =>
      refine .inr ⟨?_, (Option.some.inj h).symm⟩
      rintro ⟨-, hn, hquiet⟩
      exact hretry (hretries.mpr ⟨hn, hquiet⟩)

/-- The retry: what the client had when the request was sent again, and the
stream it leads to, if it does. -/
theorem staleRetry_cases (hno : NoSuccess s) (hflagless : s.ctx.Flagless) (hret : r.Retries)
    (h : r.staleRetry s = some o) :
    (∀ out, o.resent = some out ↔ r.Resends ∧ out = s.clientOut) ∧
      (¬r.Restreams → NotASuccess o) ∧
      (r.Restreams → ∃ s₀ s' resent, NoSuccess s₀ ∧ s₀.ctx.Flagless ∧
        streamBackendResponse s₀ r.second = some s' ∧ o = afterStream s' resent r.finalWrite) := by
  simp only [ProxyContext.Flagless, ProxyContext.flags, Prod.mk.injEq] at hflagless
  obtain ⟨-, -, hclient, hfailed⟩ := hflagless
  rw [NoSuccess] at hno
  cases hfresh : r.fresh with
  | false =>
    -- no fresh connection: nothing is sent again
    have hstop : ¬r.Resends ∧ ¬r.Restreams := by simp [Resends, Restreams, hfresh]
    simp only [staleRetry, hfresh] at h
    obtain rfl := Option.some.inj h
    refine ⟨by simp [complete, hstop], fun _ => ?_, fun hre => absurd hre hstop.2⟩
    rw [complete_notASuccess_iff (by simp [NoSuccess, hno])]
    simp [ProxyContext.Flagless, ProxyContext.flags]
  | true =>
    cases hsend : r.secondSend with
    | deadline =>
      have hstop : ¬r.Resends ∧ ¬r.Restreams := by simp [Resends, Restreams, hsend]
      simp only [staleRetry, hfresh, if_true, hsend, sendBackendRequest] at h
      obtain rfl := Option.some.inj h
      refine ⟨by simp [complete, hstop], fun _ => ?_, fun hre => absurd hre hstop.2⟩
      rw [complete_notASuccess_iff (by simp [NoSuccess, hno])]
      simp [ProxyContext.Flagless, ProxyContext.flags]
    | connectionError =>
      -- sent again, but the send fails: no second stream
      have hgo : r.Resends ∧ ¬r.Restreams := by simp [Resends, Restreams, hsend, hret, hfresh]
      simp only [staleRetry, hfresh, if_true, hsend, sendBackendRequest] at h
      obtain rfl := Option.some.inj h
      refine ⟨by simp [complete, hgo, eq_comm], fun _ => ?_, fun hre => absurd hre hgo.2⟩
      rw [complete_notASuccess_iff (by simp [NoSuccess, hno])]
      simp [ProxyContext.Flagless, ProxyContext.flags]
    | exception =>
      have hgo : r.Resends ∧ ¬r.Restreams := by simp [Resends, Restreams, hsend, hret, hfresh]
      simp only [staleRetry, hfresh, if_true, hsend, sendBackendRequest] at h
      obtain rfl := Option.some.inj h
      exact ⟨by simp [hgo, eq_comm], fun _ => by simp [NotASuccess, hno], fun hre => absurd hre hgo.2⟩
    | sent =>
      have hgo : r.Resends ∧ r.Restreams := by simp [Resends, Restreams, hsend, hret, hfresh]
      simp only [staleRetry, hfresh, if_true, hsend, sendBackendRequest] at h
      split at h
      · next s' hstream =>
        obtain rfl := Option.some.inj h
        refine ⟨by simp [afterStream_resent, hgo, eq_comm], fun hre => absurd hgo.2 hre, fun _ => ?_⟩
        exact ⟨_, s', _, by simp [NoSuccess, hno],
          by simp [ProxyContext.Flagless, ProxyContext.flags, hclient, hfailed], hstream, rfl⟩
      · cases h

/-! ## Main results -/

/-- When the request goes to the backend a second time, and what the client has
been sent by then. -/
theorem resent_iff (h : r.handleProxy = some o) {out : List UInt8} :
    o.resent = some out ↔ r.Resends ∧
      ∃ s, streamBackendResponse r.start r.first = some s ∧ out = s.clientOut := by
  by_cases hs : r.Streams
  · obtain ⟨s, hstream, ⟨hret, -, hless, hretry⟩ | ⟨hret, rfl⟩⟩ := handleProxy_of_streams hs h
    · have hno : NoSuccess s := streamBackendResponse_noSuccess (by simp [NoSuccess, start]) hstream
      rw [(staleRetry_cases hno hless hret hretry).1 out]
      simp [hstream]
    · simp [afterStream_resent, Resends, hret]
  · have hnone := (handleProxy_of_not_streams hs h).1
    simp [hnone, Resends, Retries, hs]

/-- The turns of a response that the request ends with lead to its outcome. -/
theorem answer_stream (hs : r.Streams) (hfail : ¬(r.Retries ∧ ¬r.Restreams)) (hans : r.Answer turns)
    (h : r.handleProxy = some o) :
    ∃ s₀ s resent, NoSuccess s₀ ∧ s₀.ctx.Flagless ∧ streamBackendResponse s₀ turns = some s ∧
      o = afterStream s resent r.finalWrite := by
  have hno₀ : NoSuccess r.start := by simp [NoSuccess, start]
  obtain ⟨s, hstream, ⟨hret, -, hless, hretry⟩ | ⟨hret, rfl⟩⟩ := handleProxy_of_streams hs h
  · have hre : r.Restreams := by
      by_contra hre
      exact hfail ⟨hret, hre⟩
    obtain rfl := hans.1 hre
    exact (staleRetry_cases (streamBackendResponse_noSuccess hno₀ hstream) hless hret hretry).2.2 hre
  · obtain rfl := hans.2 fun hre => hret hre.1
    exact ⟨r.start, s, none, hno₀, r.start_flagless, hstream, rfl⟩

/-- A retry that streams nothing is not a success. -/
theorem failed_retry_notASuccess (hret : r.Retries) (hre : ¬r.Restreams)
    (h : r.handleProxy = some o) : NotASuccess o := by
  obtain ⟨s, hstream, ⟨-, -, hless, hretry⟩ | ⟨hno, -⟩⟩ := handleProxy_of_streams hret.1 h
  · have hno : NoSuccess s := streamBackendResponse_noSuccess (by simp [NoSuccess, start]) hstream
    exact (staleRetry_cases hno hless hret hretry).2.1 hre
  · exact absurd hret hno

end ProxyRequest

/-- When the request is sent again nothing has been written to the client, and
what the first send brought is no complete response. -/
def ResendJustified (r : ProxyRequest) (o : Outcome) : Prop :=
  ∀ out, o.resent = some out →
    out = [] ∧ ¬CompleteResponse (EndsInEof r.first) (received r.first)

/-- **The stale-connection retry.** The request is sent again without need just
if the first answer was refused by the parser, with the text about it written to
the client, or was a complete response without a body. -/
theorem resend_justified_iff (h : r.handleProxy = some o) :
    ResendJustified r o ↔
      ¬(r.Resends ∧ (ErrorReached r.first ∨
        CompleteResponse (EndsInEof r.first) (received r.first))) := by
  have hquiet (s : Streaming) (hres : r.Resends)
      (hstream : streamBackendResponse r.start r.first = some s) :
      s.clientOut ≠ [] ↔ ErrorReached r.first := quiet_clientOut rfl hres.1.2.2 hstream
  constructor
  · rintro hj ⟨hres, hbad⟩
    obtain ⟨s, hstream, -⟩ := ProxyRequest.handleProxy_of_streams hres.1.1 h
    obtain ⟨hnil, hinc⟩ := hj s.clientOut ((ProxyRequest.resent_iff h).mpr ⟨hres, s, hstream, rfl⟩)
    rcases hbad with herr | hcomp
    · exact (hquiet s hres hstream).mpr herr hnil
    · exact hinc hcomp
  · intro hgood out hout
    obtain ⟨hres, s, hstream, rfl⟩ := (ProxyRequest.resent_iff h).mp hout
    constructor
    · by_contra hne
      exact hgood ⟨hres, .inl ((hquiet s hres hstream).mp hne)⟩
    · intro hcomp
      exact hgood ⟨hres, .inr hcomp⟩

/-- A request with the default configuration, on connections that work. -/
def plainRequest (first second : List Turn) : ProxyRequest where
  maxStaleRetries := 1
  clientExpectsStreaming := true
  connected := true
  firstSend := .sent
  first := first
  fresh := true
  secondSend := .sent
  second := second
  finalWrite := .ok

/-- A response with the body `hello`. -/
def helloTurns : List Turn :=
  [.read (ascii "HTTP/1.1 200 OK\r\nContent-Length: 5\r\n\r\nhello") .ok]

/-- How a finished request ended. -/
def ProxyRequest.outcome (r : ProxyRequest) : Outcome := r.handleProxy.getD { stream := {} }

/-- The pooled connection turns out to be dead. -/
def staleRequest : ProxyRequest := plainRequest [.read [] .ok] helloTurns

theorem resend_justified_iff_stale :
    staleRequest.outcome.resent = some [] ∧ ResendJustified staleRequest staleRequest.outcome := by
  have hrun : staleRequest.handleProxy = some staleRequest.outcome := by decide
  refine ⟨by decide, (resend_justified_iff hrun).mpr ?_⟩
  rintro ⟨-, ⟨⟨res, hres, -⟩, -⟩ | ⟨headers, rest, hsplit, -⟩⟩
  · have hnone : answers staleRequest.first = [] := by decide
    rw [hnone] at hres
    cases hres
  · have hnone : splitHeaders (received staleRequest.first) = none := by decide
    rw [hnone] at hsplit
    cases hsplit

/-- The backend answers with a chunked response that has an empty body. -/
def emptyBodyRequest : ProxyRequest :=
  plainRequest
    [.read (ascii "HTTP/1.1 200 OK\r\nTransfer-Encoding: chunked\r\n\r\n0\r\n\r\n") .ok] helloTurns

/-- A complete response with an empty body is asked for twice. -/
theorem resend_not_justified : ¬∀ r o, r.handleProxy = some o → ResendJustified r o := by
  intro hall
  have hrun : emptyBodyRequest.handleProxy = some emptyBodyRequest.outcome := by decide
  have hresent : emptyBodyRequest.outcome.resent = some [] := by decide
  refine (hall _ _ hrun [] hresent).2 ?_
  refine ⟨ascii "HTTP/1.1 200 OK\r\nTransfer-Encoding: chunked", ascii "0\r\n\r\n",
    by decide, ?_⟩
  rw [if_pos (by decide)]
  exact ⟨[], ascii "0", crlf, by decide, by simp, (helloResponse []).lastLine_ok.toChunkLine⟩

/-- The connection is closed before the declared end of the response, by an end
of file or a reset. -/
def ClosedEarly (turns : List Turn) : Prop :=
  (EndsInEof turns ∨ EndsInReset turns) ∧ EndMissing (received turns)

/-- **Truncated responses.** A response that is cut off or does not parse is
kept from counting as a success just if it was cut off by a reset, or the retry
that followed it failed. -/
theorem truncated_not_success_iff (h : r.handleProxy = some o) (hans : r.Answer turns) :
    (ClosedEarly turns ∨ Unparsable turns → NotASuccess o) ↔
      ¬(r.Streams ∧ ¬(r.Retries ∧ ¬r.Restreams) ∧
        (EndsInEof turns ∧ EndMissing (received turns) ∨ Unparsable turns)) := by
  constructor
  · rintro hprop ⟨hs, hfail, hbad⟩
    obtain ⟨s₀, s, resent, hno, hless, hstream, rfl⟩ := ProxyRequest.answer_stream hs hfail hans h
    have hclaim : ClosedEarly turns ∨ Unparsable turns := by
      rcases hbad with ⟨heof, hmissing⟩ | hpars
      · exact .inl ⟨.inl heof, hmissing⟩
      · exact .inr hpars
    have hclean := clean_of_unfinished hless hstream (hbad.imp_left And.left)
    exact (afterStream_notASuccess_iff (streamBackendResponse_noSuccess hno hstream)).mp
      (hprop hclaim) hclean
  · intro hgood hclaim
    by_cases hs : r.Streams
    · by_cases hfail : r.Retries ∧ ¬r.Restreams
      · exact ProxyRequest.failed_retry_notASuccess hfail.1 hfail.2 h
      · obtain ⟨s₀, s, resent, hno, hless, hstream, rfl⟩ :=
          ProxyRequest.answer_stream hs hfail hans h
        have hreset : EndsInReset turns := by
          rcases hclaim with ⟨heof | hreset, hmissing⟩ | hpars
          · exact absurd ⟨hs, hfail, .inl ⟨heof, hmissing⟩⟩ hgood
          · exact hreset
          · exact absurd ⟨hs, hfail, .inr hpars⟩ hgood
        exact (afterStream_notASuccess_iff (streamBackendResponse_noSuccess hno hstream)).mpr
          (flagged_of_reset hstream hreset)
    · exact (ProxyRequest.handleProxy_of_not_streams hs h).2

/-- The first half of a response of ten bytes. -/
def halfResponse : Turn := .read (ascii "HTTP/1.1 200 OK\r\nContent-Length: 10\r\n\r\nhello") .ok

theorem endMissing_half :
    EndMissing (ascii "HTTP/1.1 200 OK\r\nContent-Length: 10\r\n\r\nhello") := by
  refine ⟨ascii "HTTP/1.1 200 OK\r\nContent-Length: 10", ascii "hello", by decide, ?_⟩
  rw [if_neg (by decide)]
  decide

/-- The connection is reset in the middle of the body. -/
def resetRequest : ProxyRequest := plainRequest [halfResponse, .connectionError false] []

theorem truncated_not_success_iff_reset :
    ClosedEarly resetRequest.first ∧ NotASuccess resetRequest.outcome := by
  have hrun : resetRequest.handleProxy = some resetRequest.outcome := by decide
  have hclosed : ClosedEarly resetRequest.first := by
    refine ⟨.inr ⟨false, rfl⟩, ?_⟩
    have hreceived : received resetRequest.first =
        ascii "HTTP/1.1 200 OK\r\nContent-Length: 10\r\n\r\nhello" := by decide
    rw [hreceived]
    exact endMissing_half
  have hgoes : ¬Concluded resetRequest.first := by
    have hpars : ∀ res ∈ answers resetRequest.first, res.hasError = false ∧ res.done = false := by
      decide
    rintro (⟨write, hend⟩ | ⟨res, hres, herr⟩ | ⟨res, hres, hdone⟩)
    · cases hend
    · simp [(hpars res hres).1] at herr
    · simp [(hpars res hres).2] at hdone
  have hanswer : resetRequest.Answer resetRequest.first :=
    ⟨fun hre => absurd hre.1.2.2.1 hgoes, fun _ => rfl⟩
  refine ⟨hclosed, (truncated_not_success_iff hrun hanswer).mpr ?_ (.inl hclosed)⟩
  rintro ⟨-, -, ⟨hend, -⟩ | hend⟩
  · exact hgoes (.inl hend)
  · exact hgoes (.inr (.inl hend))

/-- The response and that to the retry are cut off by the end of file. -/
def halfRequest : ProxyRequest :=
  plainRequest [halfResponse, .read [] .ok] [halfResponse, .read [] .ok]

theorem truncated_is_success :
    ¬∀ (r : ProxyRequest) (o : Outcome) (turns : List Turn), r.handleProxy = some o →
      r.Answer turns → ClosedEarly turns ∨ Unparsable turns → NotASuccess o := by
  intro hall
  have hrun : halfRequest.handleProxy = some halfRequest.outcome := by decide
  have hreceived : received halfRequest.second =
      ascii "HTTP/1.1 200 OK\r\nContent-Length: 10\r\n\r\nhello" := by decide
  have hmissing : EndMissing (received halfRequest.second) := by
    rw [hreceived]
    exact endMissing_half
  have hbad := hall halfRequest _ halfRequest.second hrun ⟨fun _ => rfl, fun _ => rfl⟩
    (.inl ⟨.inl ⟨.ok, rfl⟩, hmissing⟩)
  have hsuccess : Effect.recordSuccess ∈ halfRequest.outcome.stream.effects := by decide
  exact hbad.1 hsuccess

end Requests

end Ranvier
