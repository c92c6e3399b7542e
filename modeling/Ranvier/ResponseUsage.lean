import Ranvier.BodyWriter
import Ranvier.ContentStream

/-!
# The token usage a backend reports

For billing, the loop over a response looks for the backend's own token counts. It looks
at the body bytes of each push by themselves, with a scan for two keys and the numbers
behind them; the last push with both decides.

* `parseResponseUsage` — the scan, `recordedUsage` — what a response leaves recorded;
* `AgreesOn` — however a body arrives, what is recorded is what the scan of the whole of
  it finds;
* `agreesOn_iff` — that is so only of bodies in which there is nothing to be found;
* `recordedUsage_of_within` — the responses of which it is so.
-/

namespace Ranvier

/-! ## The scan -/

structure ResponseUsage : Type where
  promptTokens : ℕ
  completionTokens : ℕ
  deriving DecidableEq, Repr

/-- The bytes that may stand between a key and its number. -/
def isUsageSeparator (b : UInt8) : Bool := b = 32 || b = 9 || b = 10 || b = 13 || b = 58

def isDecimalDigit (b : UInt8) : Bool := 48 ≤ b && b ≤ 57

/-- The number right behind a key, if there is one and it fits in an `int64_t`. -/
def uintBehindKey (s : List UInt8) : Option ℕ :=
  let digits := (s.dropWhile isUsageSeparator).takeWhile isDecimalDigit
  if digits = [] then none else (fromChars 10 (2 ^ 63) digits).map Prod.fst

/-- The loop of `find_uint_after_key`; each turn moves behind an occurrence of the key. -/
def findUintLoop (quotedKey : List UInt8) : ℕ → List UInt8 → Option ℕ → Option ℕ
  | 0, _, result => result
  | fuel + 1, s, result =>
    match findSub quotedKey s with
    | none => result
    | some pos =>
      let behind := s.drop (pos + quotedKey.length)
      findUintLoop quotedKey fuel behind ((uintBehindKey behind).or result)

def findUintAfterKey (s quotedKey : List UInt8) : Option ℕ :=
  findUintLoop quotedKey s.length s none

/-- `"\"completion_tokens\""`. -/
def completionKey : List UInt8 := ascii "\"completion_tokens\""

/-- `"\"prompt_tokens\""`. -/
def promptKey : List UInt8 := ascii "\"prompt_tokens\""

theorem completionKey_ne_nil : completionKey ≠ [] := by decide

theorem promptKey_ne_nil : promptKey ≠ [] := by decide

def parseResponseUsage (data : List UInt8) : Option ResponseUsage :=
  match findUintAfterKey data completionKey with
  | none => none
  | some completion =>
    match findUintAfterKey data promptKey with
    | some prompt => some ⟨prompt, completion⟩
    | none => none

/-! ## What a response leaves recorded -/

/-- What the loop over a response does with the result of a push: last seen wins, and a
result with an error is not looked at. -/
def snoopUsage (seen : Option ResponseUsage) (res : ParserResult) : Option ResponseUsage :=
  if res.hasError then seen else (parseResponseUsage res.data).or seen

/-- The usage in the request's context behind the loop over its response. -/
def recordedUsage (turns : List Turn) : Option ResponseUsage :=
  (answers turns).foldl snoopUsage none

/-- A complete response, streamed to its end without an error, whose body is `body`. -/
structure Carries (turns : List Turn) (body : List UInt8) : Prop where
  exit : responseExit turns = some .broke
  complete : CompleteResponse (EndsInEof turns) (received turns)
  parsed : ¬Unparsable turns
  delivered : delivered turns = body

/-- However the body is framed and cut, what is recorded is what the scan of the whole
body finds. -/
def AgreesOn (body : List UInt8) : Prop :=
  ∀ turns, Carries turns body → recordedUsage turns = parseResponseUsage body

/-- There is no usage in the body, nor in a part of it that one push may deliver. -/
def UsageFree (body : List UInt8) : Prop :=
  parseResponseUsage body = none ∧
    ∀ part, part <:+: body → part.length ≤ maxAccumulatorSize → parseResponseUsage part = none

/-- A byte that ends the number behind a key, or what stands before it. -/
def endsNumber (b : UInt8) : Bool := !isUsageSeparator b && !isDecimalDigit b

/-- Every occurrence of the key in the whole text lies in its middle part, with a byte
behind it there that ends its number. -/
def KeptWhole (key before middle after : List UInt8) : Prop :=
  ∀ u v, before ++ middle ++ after = u ++ key ++ v →
    ∃ w z, u = before ++ w ∧ middle = w ++ key ++ z ∧ z.any endsNumber = true

/-- One push delivers both keys and their numbers, wherever they occur. -/
def UsageInOnePush (turns : List Turn) : Prop :=
  ∃ before res after, answers turns = before ++ res :: after ∧
    ∀ key ∈ [completionKey, promptKey],
      KeptWhole key (before.flatMap ParserResult.data) res.data (after.flatMap ParserResult.data)

/-! ## What one push delivers -/

section Deliveries

variable {p : StreamParser} {res : ParserResult} {pushes : List (List UInt8)}

/-- A step leaves the accumulator as it is and delivers no more than it consumes. -/
structure DeliversWithin (p : StreamParser) (res : ParserResult) (r : ParseStep) : Prop where
  accum : r.2.1.accum = p.accum
  readPos : r.2.1.readPos = p.readPos
  data : r.2.2.data.length + (p.unreadView.length - r.1.getD 0) ≤
    res.data.length + p.unreadView.length

variable {r : ParseStep}

/-- A step that delivers nothing. -/
theorem deliversWithin_of_data (haccum : r.2.1.accum = p.accum) (hpos : r.2.1.readPos = p.readPos)
    (hdata : r.2.2.data = res.data) : DeliversWithin p res r where
  accum := haccum
  readPos := hpos
  data := by
    rw [hdata]
    omega

theorem parseHeaders_delivers : DeliversWithin p res (p.parseHeaders res) := by
  rw [StreamParser.parseHeaders]
  split
  · split
    · exact deliversWithin_of_data rfl rfl rfl
    · exact deliversWithin_of_data rfl rfl rfl
  · dsimp only
    split
    · exact deliversWithin_of_data rfl rfl rfl
    · split
      · exact deliversWithin_of_data rfl rfl rfl
      · split
        · exact deliversWithin_of_data rfl rfl rfl
        · exact deliversWithin_of_data rfl rfl rfl

theorem parseChunkSize_delivers : DeliversWithin p res (p.parseChunkSize res) := by
  rw [StreamParser.parseChunkSize]
  split
  · split
    · exact deliversWithin_of_data rfl rfl rfl
    · exact deliversWithin_of_data rfl rfl rfl
  · split
    · exact deliversWithin_of_data rfl rfl rfl
    · split
      · exact deliversWithin_of_data rfl rfl rfl
      · split
        · exact deliversWithin_of_data rfl rfl rfl
        · exact deliversWithin_of_data rfl rfl rfl

theorem parseStep_delivers : DeliversWithin p res (p.parseStep res) := by
  have hnothing : DeliversWithin p res (some 0, p, res) := deliversWithin_of_data rfl rfl rfl
  rw [StreamParser.parseStep]
  cases p.state with
  | Headers => exact parseHeaders_delivers
  | ChunkSize => exact parseChunkSize_delivers
  | ChunkData =>
    change DeliversWithin p res (p.parseChunkData res)
    rw [StreamParser.parseChunkData]
    split
    · exact hnothing
    · refine ⟨rfl, rfl, ?_⟩
      rw [List.length_append, List.length_take]
      simp only [Option.getD_some]
      omega
  | ContentBody =>
    change DeliversWithin p res (p.parseContentBody res)
    rw [StreamParser.parseContentBody]
    split
    · split
      · exact hnothing
      · refine ⟨rfl, rfl, ?_⟩
        rw [List.length_append, List.length_take]
        simp only [Option.getD_some]
        omega
    · refine ⟨rfl, rfl, ?_⟩
      rw [List.length_append]
      simp only [Option.getD_some]
      omega
  | Error => exact hnothing

theorem parseLoop_delivers (fuel : ℕ) :
    (StreamParser.parseLoop fuel p res).2.data.length ≤ res.data.length + p.unreadView.length := by
  induction fuel generalizing p res with
  | zero => exact Nat.le_add_right _ _
  | succ fuel ih =>
    rw [StreamParser.parseLoop]
    split
    · have hstep := @parseStep_delivers p res
      split
      · next p' res' heq =>
        rw [heq] at hstep
        have hdata := hstep.data
        simp only [Option.getD_none] at hdata
        dsimp only
        omega
      · next p' res' heq =>
        rw [heq] at hstep
        have hdata := hstep.data
        simp only [Option.getD_some] at hdata
        dsimp only
        omega
      · next n p' res' heq =>
        rw [heq] at hstep
        have hdata := hstep.data
        simp only [Option.getD_some] at hdata
        dsimp only
        split
        · dsimp only
          omega
        · refine le_trans ih ?_
          have haccum : p'.accum = p.accum := hstep.accum
          have hpos : p'.readPos = p.readPos := hstep.readPos
          rw [unreadView_advance haccum hpos, List.length_drop]
          exact hdata
    · exact Nat.le_add_right _ _

/-- One push delivers no more than the accumulator may hold. -/
theorem push_data_length (chunk : List UInt8) :
    (p.push chunk).2.data.length ≤ maxAccumulatorSize := by
  rw [StreamParser.push]
  split
  · exact Nat.zero_le _
  · split
    · exact Nat.zero_le _
    · split
      · exact Nat.zero_le _
      · next hsize =>
        refine le_trans (parseLoop_delivers _) ?_
        rw [StreamParser.unreadView, List.length_drop, List.length_append]
        simp only [List.length_nil]
        omega

theorem pushAll_data_length (h : res ∈ p.pushAll pushes) :
    res.data.length ≤ maxAccumulatorSize := by
  induction pushes generalizing p with
  | nil => cases h
  | cons chunk pushes ih =>
    obtain rfl | h := List.mem_cons.mp h
    · exact push_data_length chunk
    · exact ih h

end Deliveries

/-! ## Responses that end with the connection -/

/-- A header block without a length. -/
def bareHeaders : List UInt8 := ascii "HTTP/1.1 200 OK\r\n\r\n"

/-- The response with a bare header block and a body that is read in the given pieces. -/
def readInPieces (pieces : List (List UInt8)) : List Turn :=
  Turn.read bareHeaders .ok :: (pieces.map fun piece => Turn.read piece .ok) ++
    [Turn.read [] .ok]

/-- The parser between two such pieces. -/
def passingOn : StreamParser := { state := .ContentBody }

/-- What the parser says to the bare header block. -/
def headersAnswer : ParserResult := { headerSnoopSuccess := true, backendStatusCode := 200 }

section Pieces

variable {pieces : List (List UInt8)} {piece : List UInt8}

theorem push_bareHeaders : ({} : StreamParser).push bareHeaders = (passingOn, headersAnswer) := by
  decide

/-- Behind bare headers, the parser passes on what it is given. -/
theorem push_passingOn (hne : piece ≠ []) (hlen : piece.length ≤ maxAccumulatorSize) :
    passingOn.push piece = (passingOn, { data := piece }) := by
  have hroom : passingOn.accum.length + piece.length ≤ maxAccumulatorSize := by
    rw [passingOn, List.length_nil, Nat.zero_add]
    exact hlen
  obtain ⟨k, hk⟩ := Nat.exists_eq_succ_of_ne_zero (List.length_pos_of_ne_nil hne).ne'
  have hpos : 0 < piece.length := List.length_pos_of_ne_nil hne
  have hhalf : piece.length < 2 * piece.length := by omega
  have hstep : ({ state := .ContentBody, accum := piece } : StreamParser).parseStep {} =
      (some (k + 1), { state := .ContentBody, accum := piece }, { data := piece }) := by
    change (some piece.length, _, _) = _
    rw [hk]
    rfl
  have hloop : StreamParser.parseLoop piece.length { state := .ContentBody, accum := piece } {} =
      ({ state := .ContentBody, accum := piece, readPos := piece.length }, { data := piece }) := by
    rw [hk, parseLoop_go (by exact hpos) (by simp) hstep rfl, parseLoop_empty]
    · rw [Nat.zero_add]
    · rw [StreamParser.unreadView, Nat.zero_add, ← Nat.succ_eq_add_one, ← hk]
      exact List.drop_length
  have hpush := push_eq (by decide) hne hroom
  change passingOn.push piece =
    ((StreamParser.parseLoop piece.length { state := .ContentBody, accum := piece } {}).1
        |>.compactIfNeeded,
      (StreamParser.parseLoop piece.length { state := .ContentBody, accum := piece } {}).2) at hpush
  rw [hpush, hloop, StreamParser.compactIfNeeded, if_pos ⟨hpos, hpos, hhalf⟩, StreamParser.unreadView,
    List.drop_length]
  rfl

theorem pushAll_passingOn
    (hpieces : ∀ piece ∈ pieces, piece ≠ [] ∧ piece.length ≤ maxAccumulatorSize) :
    passingOn.pushAll pieces = pieces.map fun piece => { data := piece } := by
  induction pieces with
  | nil => rfl
  | cons piece pieces ih =>
    obtain ⟨hne, hlen⟩ := hpieces piece List.mem_cons_self
    rw [StreamParser.pushAll, push_passingOn hne hlen, List.map_cons,
      ih fun piece hmem => hpieces piece (List.mem_cons_of_mem _ hmem)]

theorem chunksRead_pieces (hpieces : ∀ piece ∈ pieces, piece ≠ []) :
    chunksRead (readInPieces pieces) = bareHeaders :: pieces := by
  have hread : (pieces.map fun piece => Turn.read piece .ok).filterMap Turn.chunk? = pieces := by
    induction pieces with
    | nil => rfl
    | cons piece pieces ih =>
      obtain ⟨b, rest, rfl⟩ := List.exists_cons_of_ne_nil (hpieces piece List.mem_cons_self)
      rw [List.map_cons, List.filterMap_cons_some (rfl : Turn.chunk? _ = some (b :: rest)),
        ih fun piece hmem => hpieces piece (List.mem_cons_of_mem _ hmem)]
  have hheaders : Turn.chunk? (.read bareHeaders .ok) = some bareHeaders := by decide
  rw [chunksRead, readInPieces, List.filterMap_append, List.filterMap_cons_some hheaders, hread]
  exact List.append_nil _

/-- Pieces of a size that the parser takes. -/
def Readable (pieces : List (List UInt8)) : Prop :=
  ∀ piece ∈ pieces, piece ≠ [] ∧ piece.length ≤ maxAccumulatorSize

instance (pieces : List (List UInt8)) : Decidable (Readable pieces) :=
  inferInstanceAs (Decidable (∀ piece ∈ pieces, piece ≠ [] ∧ piece.length ≤ maxAccumulatorSize))

theorem answers_pieces (h : Readable pieces) :
    answers (readInPieces pieces) = headersAnswer :: pieces.map fun piece => { data := piece } := by
  rw [answers, chunksRead_pieces fun piece hmem => (h piece hmem).1, StreamParser.pushAll,
    push_bareHeaders, pushAll_passingOn h]

theorem received_pieces (h : Readable pieces) :
    received (readInPieces pieces) = bareHeaders ++ pieces.flatten := by
  rw [received, chunksRead_pieces fun piece hmem => (h piece hmem).1, List.flatten_cons]

/-- The loop goes on behind a read that the parser takes. -/
theorem streamTurn_read {s : Streaming} {q : StreamParser} {res : ParserResult} (hne : piece ≠ [])
    (hexit : s.exit = none) (hpush : s.parser.push piece = (q, res)) (herr : res.hasError = false)
    (hdone : res.done = false) :
    ∃ s', streamTurn s (.read piece .ok) = some s' ∧ s'.parser = q ∧ s'.exit = none := by
  obtain ⟨b, rest, rfl⟩ := List.exists_cons_of_ne_nil hne
  rw [streamTurn, if_pos hexit]
  refine ⟨_, rfl, ?_⟩
  simp only [handleChunk, hpush, handleResult, herr, writeData, noteResult, stopIfDone, hdone,
    Bool.false_eq_true, if_false, and_false]
  split <;> simp [hexit]

theorem exec_pieces {s : Streaming} (hparser : s.parser = passingOn) (hexit : s.exit = none)
    (h : Readable pieces) :
    ∃ s', exec streamTurn s (pieces.map fun piece => .read piece .ok) = some s' ∧
      s'.exit = none := by
  induction pieces generalizing s with
  | nil => exact ⟨s, rfl, hexit⟩
  | cons piece pieces ih =>
    obtain ⟨hne, hlen⟩ := h piece List.mem_cons_self
    have hpush : s.parser.push piece = (passingOn, { data := piece }) := by
      rw [hparser, push_passingOn hne hlen]
    obtain ⟨next, hturn, hparser', hexit'⟩ := streamTurn_read hne hexit hpush rfl rfl
    obtain ⟨s', hrest, hlast⟩ :=
      ih hparser' hexit' fun piece hmem => h piece (List.mem_cons_of_mem _ hmem)
    refine ⟨s', ?_, hlast⟩
    rw [List.map_cons, exec, hturn]
    exact hrest

theorem responseExit_pieces (h : Readable pieces) :
    responseExit (readInPieces pieces) = some .broke := by
  obtain ⟨s, hheaders, hparser, hexit⟩ :=
    @streamTurn_read bareHeaders {} _ _ (by decide) rfl push_bareHeaders rfl rfl
  obtain ⟨s', hpieces, hexit'⟩ := exec_pieces hparser hexit h
  have hexec : exec streamTurn {} (readInPieces pieces) =
      some { s' with bundleValid := false, exit := some .broke } := by
    rw [readInPieces, List.cons_append, exec, hheaders]
    refine (exec_append hpieces).trans ?_
    rw [exec, streamTurn, if_pos hexit']
    rfl
  rw [responseExit, streamBackendResponse]
  exact congrArg (Option.bind · Streaming.exit) hexec

theorem endsInEof_pieces : EndsInEof (readInPieces pieces) :=
  ⟨.ok, by rw [readInPieces, List.getLast?_concat]⟩

/-- Such a response is complete. -/
theorem carries_pieces (h : Readable pieces) : Carries (readInPieces pieces) pieces.flatten where
  exit := responseExit_pieces h
  complete := by
    have hfind : findSub crlfcrlf (bareHeaders ++ pieces.flatten) = some 15 :=
      findSub_append crlfcrlf_ne_nil (by decide)
    refine ⟨bareHeaders.take 15, pieces.flatten, ?_, ?_⟩
    · have hlen : bareHeaders.length = 15 + 4 := by decide
      rw [splitHeaders, received_pieces h, hfind, Option.map_some, ← hlen, List.drop_left,
        List.take_append_of_le_length (by omega)]
    · rw [if_neg (by decide), if_neg (by decide)]
      exact endsInEof_pieces
  parsed := by
    rintro ⟨res, hmem, herr⟩
    rw [answers_pieces h] at hmem
    obtain rfl | hmem := List.mem_cons.mp hmem
    · cases herr
    · obtain ⟨piece, -, rfl⟩ := List.mem_map.mp hmem
      cases herr
  delivered := by
    rw [Ranvier.delivered, answers_pieces h, List.flatMap_cons, List.flatMap_map]
    exact List.flatMap_id'

end Pieces

/-! ## Bodies on which all responses agree -/

section Bodies

variable {turns : List Turn} {body part : List UInt8} {pieces : List (List UInt8)}
  {results : List ParserResult}

/-- The scan finds nothing in a text shorter than the key. -/
theorem parseResponseUsage_short (h : part.length < completionKey.length) :
    parseResponseUsage part = none := by
  have hnone : findSub completionKey part = none := by
    rw [findSub_eq_none_iff completionKey_ne_nil]
    intro j hpre
    have hle := hpre.length_le
    rw [List.length_drop] at hle
    omega
  have hscan : findUintAfterKey part completionKey = none := by
    rw [findUintAfterKey]
    cases part.length with
    | zero => rfl
    | succ n => rw [findUintLoop, hnone]
  rw [parseResponseUsage, hscan]

theorem foldl_snoopUsage_of_none {seen : Option ResponseUsage}
    (h : ∀ res ∈ results, parseResponseUsage res.data = none) :
    results.foldl snoopUsage seen = seen := by
  induction results generalizing seen with
  | nil => rfl
  | cons res results ih =>
    have hres : snoopUsage seen res = seen := by
      rw [snoopUsage, h res List.mem_cons_self]
      split <;> rfl
    rw [List.foldl_cons, hres, ih fun res hmem => h res (List.mem_cons_of_mem _ hmem)]

theorem Carries.no_error {res : ParserResult} (h : Carries turns body)
    (hmem : res ∈ answers turns) : res.hasError = false := by
  by_contra herr
  exact h.parsed ⟨res, hmem, by simpa using herr⟩

theorem Carries.body_eq (h : Carries turns body) :
    body = (answers turns).flatMap ParserResult.data := by
  rw [← h.delivered, Ranvier.delivered]
  refine List.flatMap_congr fun res hmem => ?_
  rw [h.no_error hmem]
  rfl

theorem data_infix_flatMap {res : ParserResult} (h : res ∈ results) :
    res.data <:+: results.flatMap ParserResult.data := by
  obtain ⟨before, after, rfl⟩ := List.append_of_mem h
  rw [List.flatMap_append, List.flatMap_cons]
  exact ⟨_, _, List.append_assoc _ _ _⟩

/-- A text in single bytes. -/
def bytewise (text : List UInt8) : List (List UInt8) := text.map fun b => [b]

theorem flatten_bytewise : (bytewise body).flatten = body := by
  induction body with
  | nil => rfl
  | cons b body ih =>
    rw [bytewise, List.map_cons, List.flatten_cons]
    exact congrArg (b :: ·) ih

theorem readable_bytewise : Readable (bytewise body) := by
  intro piece hmem
  obtain ⟨b, -, rfl⟩ := List.mem_map.mp hmem
  refine ⟨List.cons_ne_nil b [], ?_⟩
  rw [List.length_singleton]
  decide

theorem bytewise_none {piece : List UInt8} (h : piece ∈ bytewise body) :
    parseResponseUsage piece = none := by
  obtain ⟨b, -, rfl⟩ := List.mem_map.mp h
  refine parseResponseUsage_short ?_
  rw [List.length_singleton]
  decide

theorem recordedUsage_pieces (h : Readable pieces) :
    recordedUsage (readInPieces pieces) =
      (pieces.map fun piece => { data := piece }).foldl snoopUsage none := by
  rw [recordedUsage, answers_pieces h, List.foldl_cons]
  rfl

/-- A response whose usage is in one of its pieces at best. -/
theorem recordedUsage_part (before after : List UInt8) (hne : part ≠ [])
    (hlen : part.length ≤ maxAccumulatorSize) :
    ∃ turns, Carries turns (before ++ part ++ after) ∧
      recordedUsage turns = parseResponseUsage part := by
  have hreadable : Readable (bytewise before ++ [part] ++ bytewise after) := by
    intro piece hmem
    rw [List.mem_append, List.mem_append, List.mem_singleton] at hmem
    obtain (hmem | rfl) | hmem := hmem
    · exact readable_bytewise piece hmem
    · exact ⟨hne, hlen⟩
    · exact readable_bytewise piece hmem
  have hnone : ∀ text, ∀ res ∈ (bytewise text).map fun piece => ({ data := piece } : ParserResult),
      parseResponseUsage res.data = none := by
    intro text res hmem
    obtain ⟨piece, hpiece, rfl⟩ := List.mem_map.mp hmem
    exact bytewise_none hpiece
  refine ⟨readInPieces (bytewise before ++ [part] ++ bytewise after), ?_, ?_⟩
  · have hcarries := carries_pieces hreadable
    rwa [List.flatten_append, List.flatten_append, flatten_bytewise, flatten_bytewise,
      List.flatten_singleton] at hcarries
  · rw [recordedUsage_pieces hreadable, List.map_append, List.map_append, List.foldl_append,
      List.foldl_append, foldl_snoopUsage_of_none (hnone after),
      foldl_snoopUsage_of_none (hnone before)]
    exact Option.or_none

/-- **Usage.** All responses with the body leave recorded what the scan of the whole body
finds, just if there is nothing in it to be found. -/
theorem agreesOn_iff : AgreesOn body ↔ UsageFree body := by
  constructor
  · intro hagrees
    have hwhole : parseResponseUsage body = none := by
      rw [← hagrees _ (by simpa [flatten_bytewise] using carries_pieces (@readable_bytewise body)),
        recordedUsage_pieces readable_bytewise, foldl_snoopUsage_of_none]
      intro res hmem
      obtain ⟨piece, hpiece, rfl⟩ := List.mem_map.mp hmem
      exact bytewise_none hpiece
    refine ⟨hwhole, ?_⟩
    rintro part ⟨before, after, rfl⟩ hlen
    by_cases hne : part = []
    · subst hne
      exact parseResponseUsage_short (by decide)
    · obtain ⟨turns, hcarries, hrecorded⟩ := recordedUsage_part before after hne hlen
      rw [← hrecorded, hagrees turns hcarries, hwhole]
  · rintro ⟨hwhole, hparts⟩ turns hcarries
    rw [hwhole, recordedUsage, foldl_snoopUsage_of_none]
    intro res hmem
    refine hparts _ ?_ (pushAll_data_length hmem)
    rw [hcarries.body_eq]
    exact data_infix_flatMap hmem

end Bodies

/-! ## Responses whose usage is in one push -/

section OnePush

variable {key before middle after text : List UInt8} {result : Option ℕ} {fuel fuel' : ℕ}

/-- What follows a byte that ends the number is not looked at. -/
theorem uintBehindKey_ends {b : UInt8} (hb : endsNumber b = true) (z tail : List UInt8) :
    uintBehindKey (z ++ b :: tail) = uintBehindKey (z ++ [b]) := by
  rw [endsNumber, Bool.and_eq_true, Bool.not_eq_true', Bool.not_eq_true'] at hb
  have hdrop : ∀ tail, (z ++ b :: tail).dropWhile isUsageSeparator =
      z.dropWhile isUsageSeparator ++ b :: tail := by
    intro tail
    rw [List.dropWhile_append]
    split
    · next hnil => rw [List.dropWhile_cons, hb.1, List.isEmpty_iff.mp hnil]; rfl
    · rfl
  have htake : ∀ y tail,
      (y ++ b :: tail).takeWhile isDecimalDigit = y.takeWhile isDecimalDigit := by
    intro y tail
    rw [List.takeWhile_append]
    split
    · next hall =>
      rw [List.takeWhile_cons, hb.2]
      exact (List.append_nil y).trans ((List.takeWhile_prefix _).eq_of_length hall).symm
    · rfl
  simp only [uintBehindKey, hdrop, htake]

theorem uintBehindKey_append {z : List UInt8} (hends : z.any endsNumber = true) :
    uintBehindKey (z ++ after) = uintBehindKey z := by
  obtain ⟨b, hmem, hb⟩ := List.any_eq_true.mp hends
  obtain ⟨z₁, z₂, rfl⟩ := List.append_of_mem hmem
  rw [List.append_assoc, List.cons_append, uintBehindKey_ends hb, uintBehindKey_ends hb z₁ z₂]

theorem KeptWhole.tail {w z : List UInt8} (h : KeptWhole key before middle after)
    (hmiddle : middle = w ++ key ++ z) : KeptWhole key [] z after := by
  intro u v hsplit
  rw [List.nil_append] at hsplit
  have hwhole : before ++ middle ++ after = (before ++ (w ++ key ++ u)) ++ key ++ v := by
    rw [hmiddle]
    simp only [List.append_assoc] at hsplit ⊢
    rw [hsplit]
  obtain ⟨w', z', hu, hz, hends⟩ := h _ _ hwhole
  have hw : w' = w ++ key ++ u := (List.append_cancel_left hu).symm
  refine ⟨u, z', rfl, ?_, hends⟩
  rw [hw, hmiddle] at hz
  simp only [List.append_assoc] at hz ⊢
  exact List.append_cancel_left (List.append_cancel_left hz)

/-- The first occurrence in the whole text is the first in the middle part. -/
theorem findSub_middle (hkey : key ≠ []) {w z : List UInt8}
    (hfind : findSub key (before ++ middle ++ after) = some (before ++ w).length)
    (hmiddle : middle = w ++ key ++ z) : findSub key middle = some w.length := by
  obtain ⟨-, hno⟩ := (findSub_eq_some_iff hkey).mp hfind
  refine (findSub_eq_some_iff hkey).mpr ⟨?_, ?_⟩
  · rw [hmiddle, List.append_assoc, List.drop_left]
    exact List.prefix_append _ _
  · intro j hj hpre
    refine hno (before.length + j) (by rw [List.length_append]; omega) ?_
    refine prefix_drop_append ?_
    rwa [List.drop_length_add_append]

theorem findUintLoop_of_none (hnone : findSub key text = none) :
    findUintLoop key fuel text result = result := by
  cases fuel with
  | zero => rfl
  | succ fuel => rw [findUintLoop, hnone]

/-- The scan of the whole text is that of its middle part. -/
theorem findUintLoop_middle (hkey : key ≠ []) (h : KeptWhole key before middle after)
    (hfuel : (before ++ middle ++ after).length ≤ fuel) (hfuel' : middle.length ≤ fuel') :
    findUintLoop key fuel (before ++ middle ++ after) result =
      findUintLoop key fuel' middle result := by
  have hlen : 0 < key.length := List.length_pos_of_ne_nil hkey
  induction fuel generalizing before middle fuel' result with
  | zero =>
    have hnil : before ++ middle ++ after = [] := List.length_eq_zero_iff.mp (Nat.le_zero.mp hfuel)
    have hmiddle : middle = [] :=
      (List.append_eq_nil_iff.mp (List.append_eq_nil_iff.mp hnil).1).2
    have hnone : findSub key [] = none := by rw [findSub, if_neg hkey]
    rw [hmiddle, findUintLoop_of_none hnone]
    rfl
  | succ fuel ih =>
    cases hfind : findSub key (before ++ middle ++ after) with
    | none =>
      rw [findUintLoop_of_none hfind, findUintLoop_of_none]
      rw [findSub_eq_none_iff hkey] at hfind ⊢
      intro j hpre
      refine hfind (before.length + j) (prefix_drop_append ?_)
      rwa [List.drop_length_add_append]
    | some pos =>
      obtain ⟨u, v, hsplit, hpos, -⟩ := findSub_split hkey hfind
      obtain ⟨w, z, rfl, hmiddle, hends⟩ := h u v hsplit
      have hv : v = z ++ after := by
        rw [hmiddle] at hsplit
        simp only [List.append_assoc] at hsplit
        have hbehind := List.append_cancel_left (List.append_cancel_left hsplit)
        exact (List.append_cancel_left hbehind).symm
      have hfind' := findSub_middle hkey (hpos ▸ hfind) hmiddle
      have hbehind : (before ++ middle ++ after).drop (pos + key.length) = z ++ after := by
        rw [hsplit, ← hpos, ← List.length_append, List.drop_left, hv]
      have hbehind' : middle.drop (w.length + key.length) = z := by
        rw [hmiddle, ← List.length_append, List.drop_left]
      obtain ⟨fuel'', rfl⟩ : ∃ n, fuel' = n + 1 := by
        refine Nat.exists_eq_succ_of_ne_zero ?_
        have hlong := congrArg List.length hmiddle
        simp only [List.length_append] at hlong
        omega
      have hroom : ([] ++ z ++ after).length ≤ fuel := by
        have hlong := congrArg List.length hsplit
        rw [hv] at hlong
        simp only [List.length_append, List.length_nil] at hlong hfuel ⊢
        omega
      have hroom' : z.length ≤ fuel'' := by
        have hlong := congrArg List.length hmiddle
        simp only [List.length_append] at hlong
        omega
      rw [findUintLoop, findUintLoop, hfind, hfind']
      dsimp only
      rw [hbehind, hbehind', uintBehindKey_append hends]
      exact ih (h.tail hmiddle) hroom hroom'

theorem findUintAfterKey_middle (hkey : key ≠ []) (h : KeptWhole key before middle after) :
    findUintAfterKey (before ++ middle ++ after) key = findUintAfterKey middle key :=
  findUintLoop_middle hkey h (le_refl _) (le_refl _)

/-- An occurrence in the whole text does not reach beyond the middle part. -/
theorem KeptWhole.bounds {u v : List UInt8} (h : KeptWhole key before middle after)
    (hsplit : before ++ middle ++ after = u ++ key ++ v) :
    before.length ≤ u.length ∧ u.length + key.length ≤ before.length + middle.length := by
  obtain ⟨w, z, rfl, hmiddle, -⟩ := h u v hsplit
  have hlen := congrArg List.length hmiddle
  simp only [List.length_append] at hlen ⊢
  omega

/-- Where the key does not occur, the scan finds nothing. -/
theorem findUintAfterKey_of_absent (hkey : key ≠ []) (habsent : ∀ u v, text ≠ u ++ key ++ v) :
    findUintAfterKey text key = none := by
  refine findUintLoop_of_none ?_
  rw [findSub_eq_none_iff hkey]
  rintro j ⟨rest, hrest⟩
  refine habsent (text.take j) rest ?_
  rw [List.append_assoc, hrest, List.take_append_drop]

theorem KeptWhole.none_before (hkey : key ≠ []) (h : KeptWhole key before middle after)
    (hpart : text <:+: before) : findUintAfterKey text key = none := by
  refine findUintAfterKey_of_absent hkey ?_
  rintro u v rfl
  obtain ⟨x, y, rfl⟩ := hpart
  obtain ⟨hle, -⟩ := h.bounds (u := x ++ u) (v := v ++ y ++ middle ++ after) (by simp)
  have hlen : 0 < key.length := List.length_pos_of_ne_nil hkey
  simp only [List.length_append] at hle
  omega

theorem KeptWhole.none_after (hkey : key ≠ []) (h : KeptWhole key before middle after)
    (hpart : text <:+: after) : findUintAfterKey text key = none := by
  refine findUintAfterKey_of_absent hkey ?_
  rintro u v rfl
  obtain ⟨x, y, rfl⟩ := hpart
  obtain ⟨-, hle⟩ := h.bounds (u := before ++ middle ++ x ++ u) (v := v ++ y) (by simp)
  have hlen : 0 < key.length := List.length_pos_of_ne_nil hkey
  simp only [List.length_append] at hle
  omega

/-- Both scans find in the middle part what they find in the whole. -/
theorem parseResponseUsage_middle
    (h : ∀ key ∈ [completionKey, promptKey], KeptWhole key before middle after) :
    parseResponseUsage (before ++ middle ++ after) = parseResponseUsage middle := by
  have hcompletion := h completionKey (by simp)
  have hprompt := h promptKey (by simp)
  rw [parseResponseUsage, parseResponseUsage,
    findUintAfterKey_middle completionKey_ne_nil hcompletion,
    findUintAfterKey_middle promptKey_ne_nil hprompt]

theorem parseResponseUsage_of_none (h : findUintAfterKey text completionKey = none) :
    parseResponseUsage text = none := by
  rw [parseResponseUsage, h]

/-- **One push.** The keys and their numbers are all in what one push delivers. -/
theorem recordedUsage_of_onePush {turns : List Turn} {body : List UInt8}
    (hcarries : Carries turns body) (hone : UsageInOnePush turns) :
    recordedUsage turns = parseResponseUsage body := by
  obtain ⟨before, res, after, hanswers, hkept⟩ := hone
  have hcompletion := hkept completionKey (by simp)
  have hbefore : ∀ res ∈ before, parseResponseUsage res.data = none := fun res hmem =>
    parseResponseUsage_of_none
      (hcompletion.none_before completionKey_ne_nil (data_infix_flatMap hmem))
  have hafter : ∀ res ∈ after, parseResponseUsage res.data = none := fun res hmem =>
    parseResponseUsage_of_none
      (hcompletion.none_after completionKey_ne_nil (data_infix_flatMap hmem))
  have hrecorded : recordedUsage turns = parseResponseUsage res.data := by
    rw [recordedUsage, hanswers, List.foldl_append, List.foldl_cons,
      foldl_snoopUsage_of_none hbefore, foldl_snoopUsage_of_none hafter, snoopUsage,
      hcarries.no_error (by simp [hanswers])]
    exact Option.or_none
  rw [hrecorded, hcarries.body_eq, hanswers, List.flatMap_append, List.flatMap_cons,
    ← List.append_assoc, parseResponseUsage_middle hkept]

/-- **Usage.** However a body is framed and cut into pushes, what is recorded for the
request is what the scan of the whole body finds, just if neither the body nor a part of
it that a push may deliver has a usage in it. For a body that has one, it is so of the
responses of which one push delivers the keys and their numbers. -/
theorem usage_agreement (body : List UInt8) (turns : List Turn) :
    (AgreesOn body ↔ UsageFree body) ∧
      (Carries turns body → UsageInOnePush turns →
        recordedUsage turns = parseResponseUsage body) :=
  ⟨agreesOn_iff, recordedUsage_of_onePush⟩

/-- A text that ends with a byte that ends a number keeps whole what is in it. -/
theorem keptWhole_self {b : UInt8} (hlast : middle.getLast? = some b) (hb : endsNumber b = true)
    (hkeyLast : key.getLast? ≠ some b) (hkey : key ≠ []) : KeptWhole key [] middle [] := by
  intro u v hsplit
  rw [List.nil_append, List.append_nil] at hsplit
  refine ⟨u, v, rfl, hsplit, List.any_eq_true.mpr ⟨b, ?_, hb⟩⟩
  rw [hsplit] at hlast
  by_cases hv : v = []
  · rw [hv, List.append_nil, List.getLast?_append_of_ne_nil _ hkey] at hlast
    exact absurd hlast hkeyLast
  · rw [List.getLast?_append_of_ne_nil _ hv] at hlast
    exact List.mem_of_getLast? hlast

end OnePush

/-- A body with a usage. -/
def usageBody : List UInt8 :=
  ascii "\x7b\"usage\":\x7b\"prompt_tokens\":12,\"completion_tokens\":34\x7d\x7d"

/-- The body in one read. -/
theorem usage_agreement_one_push :
    Carries (readInPieces [usageBody]) usageBody ∧ UsageInOnePush (readInPieces [usageBody]) ∧
      recordedUsage (readInPieces [usageBody]) = parseResponseUsage usageBody ∧
      parseResponseUsage usageBody = some ⟨12, 34⟩ := by
  have hreadable : Readable [usageBody] := by decide
  have hcarries : Carries (readInPieces [usageBody]) usageBody := by
    have hpieces := carries_pieces hreadable
    rwa [List.flatten_singleton] at hpieces
  have hone : UsageInOnePush (readInPieces [usageBody]) := by
    refine ⟨[headersAnswer], { data := usageBody }, [], answers_pieces hreadable, ?_⟩
    intro key hmem
    have hkey : key ≠ [] ∧ key.getLast? ≠ some 125 := by
      revert key
      decide
    exact keptWhole_self (by decide) (by decide) hkey.2 hkey.1
  exact ⟨hcarries, hone, (usage_agreement _ _).2 hcarries hone, by decide⟩

/-- The same body, read up to the first digit of the second number, and the rest. -/
def cutInNumber : List (List UInt8) := [usageBody.take 50, usageBody.drop 50]

/-- Three completion tokens are recorded, of thirty-four. -/
theorem usage_cut_in_number :
    recordedUsage (readInPieces cutInNumber) = some ⟨12, 3⟩ ∧
      ¬∀ turns body, Carries turns body → recordedUsage turns = parseResponseUsage body := by
  have hreadable : Readable cutInNumber := by decide
  have hrecorded : recordedUsage (readInPieces cutInNumber) = some ⟨12, 3⟩ := by
    rw [recordedUsage_pieces hreadable]
    decide
  refine ⟨hrecorded, ?_⟩
  intro hclaim
  have hcut := hclaim _ _ (carries_pieces hreadable)
  rw [hrecorded] at hcut
  revert hcut
  decide

end Ranvier
