import Ranvier.StreamParser

/-!
# Chunked responses in any segmentation

A chunked response is a header block, chunks, a terminal chunk line and a
trailer section. However its bytes are cut into pushes, the parser delivers the
body without an error up to the push that completes the terminal line; the
trailer section is not part of what it understands.

* `ChunkedResponse` — a well-formed response, with the limits on its parts;
* `Expects` — what the parser's state says about the bytes still to come: the
  **invariant** that makes the segmentation irrelevant;
* `parseStep_outcome`, `parseLoop_progress`, `push_progress` — one step, one loop
  and one push under it, with the accumulator never above twice the unread bytes;
* `chunked_response_delivered` — every segmentation of every response.
-/

namespace Ranvier

/-! ## Well-formed responses -/

/-- The first occurrence of `pat` in `text ++ pat` is the one at the end. -/
def EndsAtFirst (pat text : List UInt8) : Prop := findSub pat (text ++ pat) = some text.length

/-- The line announces chunked encoding. -/
def AnnouncesChunked (line : List UInt8) : Prop :=
  icaseStartsWith line kTransferEncoding ∧
    icaseContains (line.drop kTransferEncoding.length) (ascii "chunked")

/-- A header block (without its blank line) that announces chunked encoding: it
has no blank line of its own, and a Content-Length, if any, is a number. -/
structure ChunkedHeaders (headers : List UInt8) : Prop where
  endsAtFirst : EndsAtFirst crlfcrlf headers
  length : (headers ++ crlfcrlf).length ≤ maxHeaderSize
  chunked : ∃ line ∈ headerLines headers, AnnouncesChunked line
  contentLength : ∀ line ∈ headerLines headers, icaseStartsWith line kContentLength →
    (contentLengthOf line).isSome

/-- A chunk-size line (without its line end) for a chunk of `n` bytes: hex
digits, blanks around them, an optional extension behind a semicolon. -/
structure ChunkLine (n : ℕ) (line : List UInt8) : Prop where
  endsAtFirst : EndsAtFirst crlf line
  form : ∃ before digits after ext, line = before ++ (digits ++ after) ++ ext ∧
    (∀ b ∈ before, isBlank b) ∧ (∀ b ∈ after, isBlank b) ∧ digits ≠ [] ∧
    (∀ b ∈ digits, (digitValue 16 b).isSome) ∧ digitsValue 16 digits = n ∧
    (ext = [] ∨ ext.head? = some 59)

/-- A size line of a length the parser takes. Lines of 32 bytes with their line
end are among these; a line of 32 bytes before it is refused if the line end
arrives cut in two. -/
structure SizeLine (n : ℕ) (line : List UInt8) : Prop extends ChunkLine n line where
  length : line.length < 32

/-- A chunk: its size line and its data. -/
structure BodyChunk : Type where
  line : List UInt8
  data : List UInt8

/-- The bytes of a chunk on the wire. -/
def BodyChunk.bytes (c : BodyChunk) : List UInt8 := c.line ++ crlf ++ (c.data ++ crlf)

/-- A chunked response with chunks of at most `maxData` bytes. The trailer
fields, if there are any, stand between the terminal line and the final line
end. -/
structure ChunkedResponse (maxData : ℕ) : Type where
  headers : List UInt8
  chunks : List BodyChunk
  lastLine : List UInt8
  trailers : List UInt8
  headers_ok : ChunkedHeaders headers
  chunks_ok : ∀ c ∈ chunks, SizeLine c.data.length c.line ∧ c.data ≠ [] ∧ c.data.length ≤ maxData
  lastLine_ok : SizeLine 0 lastLine

namespace ChunkedResponse

variable {maxData : ℕ}

/-- Chunks of the response and what follows the last of them. -/
def rest (r : ChunkedResponse maxData) (chunks : List BodyChunk) : List UInt8 :=
  chunks.flatMap BodyChunk.bytes ++ (r.lastLine ++ crlf ++ (r.trailers ++ crlf))

/-- The response on the wire. -/
def bytes (r : ChunkedResponse maxData) : List UInt8 :=
  r.headers ++ crlfcrlf ++ r.rest r.chunks

/-- The decoded body. -/
def body (r : ChunkedResponse maxData) : List UInt8 := r.chunks.flatMap BodyChunk.data

end ChunkedResponse

/-! ## Reading the parts -/

theorem crlf_ne_nil : crlf ≠ [] := by decide

theorem crlfcrlf_ne_nil : crlfcrlf ≠ [] := by decide

theorem digit_not_blank {b : UInt8} (h : (digitValue 16 b).isSome) : isBlank b = false := by
  rw [isBlank, Bool.or_eq_false_iff, decide_eq_false_iff_not, decide_eq_false_iff_not]
  constructor
  · rintro rfl
    revert h
    decide
  · rintro rfl
    revert h
    decide

theorem digit_ne_semicolon {b : UInt8} (h : (digitValue 16 b).isSome) : b ≠ 59 := by
  rintro rfl
  revert h
  decide

theorem blank_ne_semicolon {b : UInt8} (h : isBlank b) : b ≠ 59 := by
  rintro rfl
  revert h
  decide

/-- A size line is read as its number. -/
theorem ChunkLine.readChunkSize_eq {n : ℕ} {line : List UInt8} (h : ChunkLine n line)
    (hn : n < 2 ^ 64) : readChunkSize line = some n := by
  obtain ⟨before, digits, after, ext, rfl, hb, ha, hne, hdig, rfl, hext⟩ := h.form
  have hcut : (before ++ (digits ++ after) ++ ext).takeWhile (fun b => b ≠ 59) =
      before ++ (digits ++ after) := by
    have hall : ∀ b ∈ before ++ (digits ++ after), decide (b ≠ 59) = true := by
      intro b hb'
      rw [decide_eq_true_iff]
      simp only [List.mem_append] at hb'
      rcases hb' with hb' | hb' | hb'
      · exact blank_ne_semicolon (hb b hb')
      · exact digit_ne_semicolon (hdig b hb')
      · exact blank_ne_semicolon (ha b hb')
    rw [List.takeWhile_append_of_pos hall]
    cases ext with
    | nil => simp
    | cons b ext =>
      have hb59 : b = 59 := by simpa using hext
      simp [hb59]
  have htrim : trim (before ++ (digits ++ after)) = digits :=
    trim_blanks hb ha (fun b hb' => digit_not_blank (hdig b hb')) hne
  simp only [readChunkSize, hcut, htrim, fromChars_digits hne hdig hn]

theorem scanLine_chunked {line : List UInt8} (scan : HeaderScan)
    (hlen : icaseStartsWith line kContentLength → (contentLengthOf line).isSome) :
    (scanLine line scan).2 = true ∧
      (scan.isChunked = true ∨ AnnouncesChunked line → (scanLine line scan).1.isChunked = true) := by
  rw [scanLine]
  split
  · next hte =>
    split
    · exact ⟨rfl, fun _ => rfl⟩
    · next hno =>
      refine ⟨rfl, ?_⟩
      rintro (h | ⟨-, h⟩)
      · exact h
      · exact absurd h hno
  · next hte =>
    have hkeep : scan.isChunked = true ∨ AnnouncesChunked line → scan.isChunked = true := by
      rintro (h | ⟨h, -⟩)
      · exact h
      · exact absurd h hte
    split
    · exact ⟨rfl, hkeep⟩
    · split
      · next hcl =>
        obtain ⟨n, hn⟩ := Option.isSome_iff_exists.mp (hlen hcl)
        rw [hn]
        exact ⟨rfl, hkeep⟩
      · exact ⟨rfl, hkeep⟩

/-- A scan without invalid lines succeeds, and finds the encoding if some line
has it. -/
theorem scanLines_chunked {lines : List (List UInt8)} (scan : HeaderScan)
    (hlen : ∀ line ∈ lines, icaseStartsWith line kContentLength → (contentLengthOf line).isSome)
    (hchunked : scan.isChunked = true ∨ ∃ line ∈ lines, AnnouncesChunked line) :
    ∃ scan', scanLines lines scan = (scan', true) ∧ scan'.isChunked = true := by
  induction lines generalizing scan with
  | nil =>
    rcases hchunked with h | ⟨line, hline, -⟩
    · exact ⟨scan, rfl, h⟩
    · cases hline
  | cons line lines ih =>
    obtain ⟨hok, hfound⟩ := scanLine_chunked scan (hlen line List.mem_cons_self)
    have hrest : (scanLine line scan).1.isChunked = true ∨ ∃ line ∈ lines, AnnouncesChunked line := by
      rcases hchunked with h | ⟨line', hmem, h⟩
      · exact .inl (hfound (.inl h))
      · rcases List.mem_cons.mp hmem with rfl | hmem
        · exact .inl (hfound (.inr h))
        · exact .inr ⟨line', hmem, h⟩
    obtain ⟨scan', hscan', hch⟩ := ih _ (fun l hl => hlen l (List.mem_cons_of_mem _ hl)) hrest
    refine ⟨scan', ?_, hch⟩
    rw [scanLines, ← hscan']
    split
    · next heq => rw [heq]
    · next heq =>
      rw [heq] at hok
      cases hok

theorem later_ne_nil {text u later rest : List UInt8} (hshort : u.length < text.length)
    (h : u ++ later = text ++ rest) : later ≠ [] := by
  rintro rfl
  have := congrArg List.length h
  simp only [List.length_append, List.length_nil] at this
  omega

/-- **A text that arrives in parts.** Of `text ++ pat ++ rest` the part `u` has
arrived: the search for `pat` fails as long as `text ++ pat` is not complete. -/
theorem search_arrived {pat text u later rest : List UInt8} (hpat : pat ≠ [])
    (hfirst : EndsAtFirst pat text) (h : u ++ later = text ++ pat ++ rest) :
    (findSub pat u = none ∧ u.length < (text ++ pat).length ∧ later ≠ []) ∨
      ∃ u', u = text ++ pat ++ u' ∧ u' ++ later = rest := by
  have hfind : findSub pat (u ++ later) = some text.length := by
    rw [h]
    exact findSub_append hpat hfirst
  rcases Nat.lt_or_ge u.length (text ++ pat).length with hshort | hlong
  · left
    refine ⟨?_, hshort, later_ne_nil hshort h⟩
    rw [findSub_left hpat hfind, if_neg]
    rw [List.length_append] at hshort
    omega
  · right
    obtain ⟨u', rfl⟩ : text ++ pat <+: u :=
      List.prefix_of_prefix_length_le ⟨rest, h.symm⟩ (List.prefix_append u later) hlong
    exact ⟨u', rfl, List.append_cancel_left (by rwa [List.append_assoc] at h)⟩

/-! ## What the parser expects -/

section Expects

variable {maxData : ℕ} (r : ChunkedResponse maxData)

/-- The parser is in the middle of `r`: `rest` are the bytes from its read
position on, those not yet pushed included, and `body` is the part of the body
it has still to deliver. -/
inductive Expects : StreamParser → List UInt8 → List UInt8 → Prop where
  | headers {p : StreamParser} : p.state = .Headers → Expects p r.bytes r.body
  | chunkSize {p : StreamParser} {chunks : List BodyChunk} : p.state = .ChunkSize →
      chunks <:+ r.chunks → Expects p (r.rest chunks) (chunks.flatMap BodyChunk.data)
  | chunkData {p : StreamParser} {c : BodyChunk} {chunks : List BodyChunk} :
      p.state = .ChunkData → p.chunkBytesNeeded = c.data.length → c :: chunks <:+ r.chunks →
      Expects p (c.data ++ crlf ++ r.rest chunks) (c.data ++ chunks.flatMap BodyChunk.data)

/-- The terminal line is read; the trailer section is to come. -/
def AtTrailers (p : StreamParser) (rest : List UInt8) : Prop :=
  p.state = .ChunkSize ∧ rest = r.trailers ++ crlf

/-- The most bytes that can wait for the end of a header block, a size line or
the data of a chunk. -/
def maxWait (maxData : ℕ) : ℕ := max maxHeaderSize (maxData + 34)

/-- What a parsing step does to a parser that expects `body`, when `later` is
still to be pushed. -/
inductive StepOutcome (later : List UInt8) (p : StreamParser) (res : ParserResult)
    (body : List UInt8) : ParseStep → Prop where
  | wait : later ≠ [] → p.unreadView.length ≤ maxWait maxData →
      StepOutcome later p res body (some 0, p, res)
  | go {k : ℕ} {p' : StreamParser} {res' : ParserResult} {data body' : List UInt8} :
      k < p.unreadView.length → p'.accum = p.accum → p'.readPos = p.readPos →
      res'.done = res.done → res'.hasError = res.hasError → res'.data = res.data ++ data →
      body = data ++ body' → Expects r p' (p.unreadView.drop (k + 1) ++ later) body' →
      StepOutcome later p res body (some (k + 1), p', res')
  | finish {k : ℕ} {p' : StreamParser} {res' : ParserResult} :
      k < p.unreadView.length → p'.accum = p.accum → p'.readPos = p.readPos →
      res'.done = true → res'.hasError = res.hasError → res'.data = res.data →
      body = [] → AtTrailers r p' (p.unreadView.drop (k + 1) ++ later) →
      StepOutcome later p res body (some (k + 1), p', res')

variable {r} {p : StreamParser} {res : ParserResult} {later body : List UInt8}

theorem parseHeaders_outcome (hrest : p.unreadView ++ later = r.bytes) :
    StepOutcome r later p res r.body (p.parseHeaders res) := by
  have hlen := r.headers_ok.length
  rcases search_arrived crlfcrlf_ne_nil r.headers_ok.endsAtFirst hrest with
    ⟨hnone, hshort, hmore⟩ | ⟨later', hview, hlater⟩
  · have hwait : p.unreadView.length ≤ maxHeaderSize := by omega
    simp only [StreamParser.parseHeaders, hnone, if_neg (Nat.not_lt.mpr hwait)]
    exact .wait hmore (hwait.trans (le_max_left _ _))
  · obtain ⟨scan, hscan, hchunked⟩ := scanLines_chunked {}
      r.headers_ok.contentLength (.inr r.headers_ok.chunked)
    have hfind : findSub crlfcrlf p.unreadView = some r.headers.length := by
      rw [hview]
      exact findSub_append crlfcrlf_ne_nil r.headers_ok.endsAtFirst
    have htake : p.unreadView.take r.headers.length = r.headers := by
      rw [hview, List.append_assoc, List.take_left]
    have hdrop : p.unreadView.drop (r.headers.length + 4) = later' := by
      rw [hview]
      exact List.drop_left' (by simp [crlfcrlf, crlf])
    simp only [StreamParser.parseHeaders, hfind, htake, hscan, hchunked, if_true]
    refine .go ?_ rfl rfl rfl rfl (List.append_nil _).symm rfl ?_
    · rw [hview]
      simp [crlfcrlf, crlf]
    · rw [hdrop, hlater]
      exact .chunkSize rfl List.suffix_rfl

/-- A size line in front: `parse_chunk_size` waits for its end or reads it. -/
theorem parseChunkSize_eq (res : ParserResult) {n : ℕ} {line rest : List UInt8} (hline : SizeLine n line)
    (hn : n ≤ maxChunkSize) (hrest : p.unreadView ++ later = line ++ crlf ++ rest) :
    (p.parseChunkSize res = (some 0, p, res) ∧ p.unreadView.length ≤ 32 ∧ later ≠ []) ∨
      line.length + 1 < p.unreadView.length ∧
        p.unreadView.drop (line.length + 1 + 1) ++ later = rest ∧
        p.parseChunkSize res =
          if n = 0 then (some (line.length + 1 + 1), p, { res with done := true })
          else (some (line.length + 1 + 1),
            { p with chunkBytesNeeded := n, state := .ChunkData }, res) := by
  have hlen := hline.length
  -- the line end has not arrived yet, or the whole line is at hand
  rcases search_arrived crlf_ne_nil hline.endsAtFirst hrest with
    ⟨hnone, hshort, hmore⟩ | ⟨later', hview, hlater⟩
  · left
    have hwait : p.unreadView.length ≤ 32 := by
      rw [List.length_append] at hshort
      simp only [crlf, List.length_cons, List.length_nil] at hshort
      omega
    simp only [StreamParser.parseChunkSize, hnone, if_neg (Nat.not_lt.mpr hwait)]
    exact ⟨trivial, hwait, hmore⟩
  · right
    have hfind : findSub crlf p.unreadView = some line.length := by
      rw [hview]
      exact findSub_append crlf_ne_nil hline.endsAtFirst
    have htake : p.unreadView.take line.length = line := by
      rw [hview, List.append_assoc, List.take_left]
    have hread := hline.readChunkSize_eq (hn.trans_lt (by decide))
    refine ⟨?_, ?_, ?_⟩
    · rw [hview]
      simp [crlf]
    · rw [hview, List.drop_left' (by simp [crlf])]
      exact hlater
    · simp only [StreamParser.parseChunkSize, hfind, htake, hread, if_neg (Nat.not_lt.mpr hn)]

theorem parseChunkSize_outcome {chunks : List BodyChunk} (hmax : maxData ≤ maxChunkSize)
    (hstate : p.state = .ChunkSize) (hsub : chunks <:+ r.chunks)
    (hrest : p.unreadView ++ later = r.rest chunks) :
    StepOutcome r later p res (chunks.flatMap BodyChunk.data) (p.parseChunkSize res) := by
  have hwait : 32 ≤ maxWait maxData := (by decide : 32 ≤ maxHeaderSize).trans (le_max_left _ _)
  cases chunks with
  | nil =>
    rcases parseChunkSize_eq res r.lastLine_ok (Nat.zero_le _) hrest with
      ⟨hstep, hlen, hmore⟩ | ⟨hlen, hlater, hstep⟩
    · rw [hstep]
      exact .wait hmore (hlen.trans hwait)
    · rw [hstep, if_pos rfl]
      exact .finish hlen rfl rfl rfl rfl rfl rfl ⟨hstate, hlater⟩
  | cons c chunks =>
    obtain ⟨hline, hne, hdata⟩ := r.chunks_ok c (hsub.subset List.mem_cons_self)
    have hrest' : p.unreadView ++ later =
        c.line ++ crlf ++ (c.data ++ crlf ++ r.rest chunks) := by
      rw [hrest]
      simp [ChunkedResponse.rest, BodyChunk.bytes]
    rcases parseChunkSize_eq res hline (hdata.trans hmax) hrest' with
      ⟨hstep, hlen, hmore⟩ | ⟨hlen, hlater, hstep⟩
    · rw [hstep]
      exact .wait hmore (hlen.trans hwait)
    · rw [hstep, if_neg (by simpa using hne)]
      refine .go hlen rfl rfl rfl rfl (List.append_nil _).symm rfl ?_
      rw [hlater]
      exact .chunkData rfl rfl hsub

theorem parseChunkData_outcome {c : BodyChunk} {chunks : List BodyChunk}
    (hneeded : p.chunkBytesNeeded = c.data.length) (hsub : c :: chunks <:+ r.chunks)
    (hrest : p.unreadView ++ later = c.data ++ crlf ++ r.rest chunks) :
    StepOutcome r later p res (c.data ++ chunks.flatMap BodyChunk.data)
      (p.parseChunkData res) := by
  obtain ⟨-, -, hdata⟩ := r.chunks_ok c (hsub.subset List.mem_cons_self)
  have hlen : (c.data ++ crlf).length = c.data.length + 2 := by simp [crlf]
  rw [StreamParser.parseChunkData]
  split
  · next hshort =>
    refine .wait (later_ne_nil (by omega) hrest) ?_
    have := le_max_right maxHeaderSize (maxData + 34)
    rw [maxWait]
    omega
  · next hlong =>
    obtain ⟨later', hview⟩ : c.data ++ crlf <+: p.unreadView :=
      List.prefix_of_prefix_length_le ⟨_, hrest.symm⟩ (List.prefix_append _ later) (by omega)
    have htake : p.unreadView.take p.chunkBytesNeeded = c.data := by
      rw [← hview, hneeded, List.append_assoc, List.take_left]
    refine .go ?_ rfl rfl rfl rfl rfl (by rw [htake]) ?_
    · omega
    · have hdrop : p.unreadView.drop (p.chunkBytesNeeded + 1 + 1) = later' := by
        rw [← hview]
        exact List.drop_left' (by omega)
      have hlater : later' ++ later = r.rest chunks := by
        rw [← hview, List.append_assoc] at hrest
        exact List.append_cancel_left hrest
      rw [hdrop, hlater]
      exact .chunkSize rfl ((List.suffix_cons c chunks).trans hsub)

/-- **One step.** A parser in the middle of a response waits for bytes, goes on
in the middle of it, or reads its terminal line. -/
theorem parseStep_outcome (res : ParserResult) (hmax : maxData ≤ maxChunkSize)
    (hexp : Expects r p (p.unreadView ++ later) body) :
    StepOutcome r later p res body (p.parseStep res) := by
  generalize hrest : p.unreadView ++ later = rest at hexp
  rw [StreamParser.parseStep]
  cases hexp with
  | headers hstate =>
    rw [hstate]
    exact parseHeaders_outcome hrest
  | chunkSize hstate hsub =>
    rw [hstate]
    exact parseChunkSize_outcome hmax hstate hsub hrest
  | chunkData hstate hneeded hsub =>
    rw [hstate]
    exact parseChunkData_outcome hneeded hsub hrest

/-! ## Loops and pushes -/

/-- Only the state and the pending size of the parser matter for what it expects. -/
theorem Expects.congr {p' : StreamParser} {rest : List UInt8} (hexp : Expects r p rest body)
    (hstate : p'.state = p.state) (hneeded : p'.chunkBytesNeeded = p.chunkBytesNeeded) :
    Expects r p' rest body := by
  cases hexp with
  | headers h => exact .headers (hstate.trans h)
  | chunkSize h hsub => exact .chunkSize (hstate.trans h) hsub
  | chunkData h hn hsub => exact .chunkData (hstate.trans h) (hneeded.trans hn) hsub

theorem Expects.state_ne_error {rest : List UInt8} (hexp : Expects r p rest body) :
    p.state ≠ .Error := by
  cases hexp with
  | headers h => simp [h]
  | chunkSize h _ => simp [h]
  | chunkData h _ _ => simp [h]

theorem Expects.later_ne_nil (hexp : Expects r p (p.unreadView ++ later) body)
    (hnil : p.unreadView.length = 0) : later ≠ [] := by
  rintro rfl
  rw [List.append_nil, List.length_eq_zero_iff.mp hnil] at hexp
  generalize hrest : ([] : List UInt8) = rest at hexp
  cases hexp with
  | headers _ => simp [ChunkedResponse.bytes, crlfcrlf, crlf] at hrest
  | chunkSize _ _ => simp [ChunkedResponse.rest, crlf] at hrest
  | chunkData _ _ _ => simp [crlf] at hrest

variable (r) in
/-- How far the parser got, when the result held `before` to begin with: it waits
for more with a bounded number of bytes unread, or it has read the terminal line
and delivered the whole `body`. -/
inductive Progress (later before body : List UInt8) (p : StreamParser) (res : ParserResult) :
    Prop where
  | waiting {data body' : List UInt8} : later ≠ [] → res.done = false → res.hasError = false →
      res.data = before ++ data → body = data ++ body' →
      Expects r p (p.unreadView ++ later) body' → p.unreadView.length ≤ maxWait maxData →
      Progress later before body p res
  | finished : res.done = true → res.hasError = false → res.data = before ++ body →
      AtTrailers r p (p.unreadView ++ later) → Progress later before body p res

/-- The read position is in the accumulator. -/
def ReadPosOk (p : StreamParser) : Prop := p.readPos ≤ p.accum.length

/-- Data delivered earlier moves to the front. -/
theorem Progress.prepend {before data body' : List UInt8}
    (h : Progress r later (before ++ data) body' p res) :
    Progress r later before (data ++ body') p res := by
  cases h with
  | waiting hmore hdone herr hdata hbody hexp hlen =>
    refine .waiting hmore hdone herr (hdata.trans (List.append_assoc _ _ _)) ?_ hexp hlen
    rw [hbody, List.append_assoc]
  | finished hdone herr hdata htr =>
    exact .finished hdone herr (hdata.trans (List.append_assoc _ _ _)) htr

theorem unreadView_advance {p' : StreamParser} {k : ℕ} (haccum : p'.accum = p.accum)
    (hpos : p'.readPos = p.readPos) :
    { p' with readPos := p'.readPos + k }.unreadView = p.unreadView.drop k := by
  rw [StreamParser.unreadView, StreamParser.unreadView, List.drop_drop, haccum, hpos]

theorem readPosOk_advance {p' : StreamParser} {k : ℕ} (haccum : p'.accum = p.accum)
    (hread : p'.readPos = p.readPos) (hk : k < p.unreadView.length) :
    ReadPosOk { p' with readPos := p'.readPos + (k + 1) } := by
  rw [StreamParser.unreadView, List.length_drop] at hk
  change p'.readPos + (k + 1) ≤ p'.accum.length
  rw [haccum, hread]
  omega

/-- **The loop.** With fuel for the unread bytes it ends waiting or finished. -/
theorem parseLoop_progress (res : ParserResult) (hmax : maxData ≤ maxChunkSize) {fuel : ℕ}
    (hfuel : p.unreadView.length ≤ fuel) (hpos : ReadPosOk p)
    (hexp : Expects r p (p.unreadView ++ later) body)
    (hdone : res.done = false) (herr : res.hasError = false) :
    ReadPosOk (StreamParser.parseLoop fuel p res).1 ∧
      Progress r later res.data body (StreamParser.parseLoop fuel p res).1
        (StreamParser.parseLoop fuel p res).2 := by
  have hstop : later ≠ [] → p.unreadView.length ≤ maxWait maxData →
      Progress r later res.data body p res := by
    intro hmore
    exact .waiting hmore hdone herr (List.append_nil _).symm rfl hexp
  induction fuel generalizing p res body with
  | zero => exact ⟨hpos, hstop (hexp.later_ne_nil (by omega)) (by omega)⟩
  | succ fuel ih =>
    rw [StreamParser.parseLoop]
    split
    · -- each step waits, goes on with the rest of the body, or finishes
      have hout := parseStep_outcome res hmax hexp
      generalize p.parseStep res = out at hout
      cases hout with
      | wait hmore hlen => exact ⟨hpos, hstop hmore hlen⟩
      | go hk haccum hread hd he hdata hbody hnext =>
        rename_i k p' res' data body'
        have hview := unreadView_advance (k := k + 1) haccum hread
        have hnext' : Expects r { p' with readPos := p'.readPos + (k + 1) }
            ({ p' with readPos := p'.readPos + (k + 1) }.unreadView ++ later) body' := by
          rw [hview]
          exact hnext.congr rfl rfl
        have hfuel' : { p' with readPos := p'.readPos + (k + 1) }.unreadView.length ≤ fuel := by
          rw [hview, List.length_drop]
          omega
        have hloop := ih res' hfuel' (readPosOk_advance haccum hread hk) hnext'
          (hd.trans hdone) (he.trans herr) fun hmore =>
            .waiting hmore (hd.trans hdone) (he.trans herr) (List.append_nil _).symm rfl hnext'
        simp only [hd, hdone]
        rw [hbody]
        refine ⟨hloop.1, Progress.prepend ?_⟩
        rw [← hdata]
        exact hloop.2
      | finish hk haccum hread hd he hdata hbody hnext =>
        rename_i k p' res'
        simp only [hd, if_true]
        refine ⟨readPosOk_advance haccum hread hk, .finished hd (he.trans herr) ?_ ⟨hnext.1, ?_⟩⟩
        · rw [hdata, hbody, List.append_nil]
        · rw [unreadView_advance (k := k + 1) haccum hread]
          exact hnext.2
    · next hstopped =>
      have hle : p.accum.length ≤ p.readPos := by
        by_contra hlt
        exact hstopped ⟨by omega, hexp.state_ne_error⟩
      have hnil : p.unreadView.length = 0 := by
        rw [StreamParser.unreadView, List.length_drop]
        omega
      exact ⟨hpos, hstop (hexp.later_ne_nil hnil) (by omega)⟩

/-- The accumulator is at most twice as long as its unread part. -/
structure Compact (p : StreamParser) : Prop where
  readPosOk : ReadPosOk p
  length_le : p.accum.length ≤ 2 * p.unreadView.length

theorem compactIfNeeded_frame (p : StreamParser) :
    p.compactIfNeeded.unreadView = p.unreadView ∧ p.compactIfNeeded.state = p.state ∧
      p.compactIfNeeded.chunkBytesNeeded = p.chunkBytesNeeded := by
  rw [StreamParser.compactIfNeeded]
  split
  · exact ⟨rfl, rfl, rfl⟩
  · exact ⟨rfl, rfl, rfl⟩

/-- `compact_if_needed` does what it is for. -/
theorem compactIfNeeded_compact (hpos : ReadPosOk p) : Compact p.compactIfNeeded := by
  have hview : p.unreadView.length = p.accum.length - p.readPos := List.length_drop
  rw [ReadPosOk] at hpos
  rw [StreamParser.compactIfNeeded]
  split
  · refine ⟨Nat.zero_le _, ?_⟩
    change p.unreadView.length ≤ 2 * p.unreadView.length
    omega
  · exact ⟨hpos, by omega⟩

theorem Progress.compactIfNeeded {before : List UInt8} (h : Progress r later before body p res) :
    Progress r later before body p.compactIfNeeded res := by
  obtain ⟨hview, hstate, hneeded⟩ := compactIfNeeded_frame p
  cases h with
  | waiting hmore hdone herr hdata hbody hexp hlen =>
    refine .waiting hmore hdone herr hdata hbody ?_ (by rwa [hview])
    rw [hview]
    exact hexp.congr hstate hneeded
  | finished hdone herr hdata htr =>
    refine .finished hdone herr hdata ⟨hstate.trans htr.1, ?_⟩
    rw [hview]
    exact htr.2

theorem push_nil (hstate : p.state ≠ .Error) : p.push [] = (p, {}) := by
  rw [StreamParser.push, if_neg hstate, if_pos rfl]

theorem push_eq {chunk : List UInt8} (hstate : p.state ≠ .Error) (hne : chunk ≠ [])
    (hroom : p.accum.length + chunk.length ≤ maxAccumulatorSize) :
    p.push chunk =
      let p' := { p with accum := p.accum ++ chunk }
      ((StreamParser.parseLoop p'.unreadView.length p' {}).1.compactIfNeeded,
        (StreamParser.parseLoop p'.unreadView.length p' {}).2) := by
  rw [StreamParser.push, if_neg hstate, if_neg hne, if_neg (Nat.not_lt.mpr hroom)]

theorem unreadView_push (hpos : ReadPosOk p) (chunk : List UInt8) :
    { p with accum := p.accum ++ chunk }.unreadView = p.unreadView ++ chunk :=
  List.drop_append_of_le_length hpos

theorem readPosOk_push (hpos : ReadPosOk p) (chunk : List UInt8) :
    ReadPosOk { p with accum := p.accum ++ chunk } := by
  change p.readPos ≤ (p.accum ++ chunk).length
  rw [List.length_append]
  exact Nat.le_add_right_of_le hpos

/-- **One push.** While the response has not ended the accumulator has room, and
the push ends waiting or finished. -/
theorem push_progress (hmax : maxData ≤ maxChunkSize) {chunk : List UInt8}
    (hroom : 2 * maxWait maxData + chunk.length ≤ maxAccumulatorSize) (hcompact : Compact p)
    (hwait : p.unreadView.length ≤ maxWait maxData) (hmore : chunk ++ later ≠ [])
    (hexp : Expects r p (p.unreadView ++ (chunk ++ later)) body) :
    Compact (p.push chunk).1 ∧ Progress r later [] body (p.push chunk).1 (p.push chunk).2 := by
  obtain ⟨hpos, hlen⟩ := hcompact
  by_cases hnil : chunk = []
  · rw [hnil, List.nil_append] at hexp hmore
    rw [hnil, push_nil hexp.state_ne_error]
    exact ⟨⟨hpos, hlen⟩, .waiting hmore rfl rfl rfl rfl hexp hwait⟩
  · rw [push_eq hexp.state_ne_error hnil (by omega)]
    have hexp' : Expects r { p with accum := p.accum ++ chunk }
        ({ p with accum := p.accum ++ chunk }.unreadView ++ later) body := by
      rw [unreadView_push hpos, List.append_assoc]
      exact hexp.congr rfl rfl
    obtain ⟨hread, hprog⟩ :=
      parseLoop_progress {} hmax le_rfl (readPosOk_push hpos chunk) hexp' rfl rfl
    exact ⟨compactIfNeeded_compact hread, hprog.compactIfNeeded⟩

/-! ## Behind the terminal line -/

theorem readPos_lt (hne : p.unreadView ≠ []) : p.readPos < p.accum.length := by
  rw [StreamParser.unreadView, Ne, List.drop_eq_nil_iff] at hne
  omega

/-- Half of the final line end: the parser waits. -/
theorem parseLoop_cr (fuel : ℕ) (hstate : p.state = .ChunkSize) (hview : p.unreadView = [13]) :
    StreamParser.parseLoop (fuel + 1) p {} = (p, {}) := by
  have hlt : p.readPos < p.accum.length := readPos_lt (by simp [hview])
  have hstep : p.parseStep {} = (some 0, p, {}) := by
    simp [StreamParser.parseStep, hstate, StreamParser.parseChunkSize, hview, findSub, crlf]
  simp [StreamParser.parseLoop, hlt, hstate, hstep]

/-- The final line end is an empty size line, which counts as a terminal line
once more. -/
theorem parseLoop_crlf (fuel : ℕ) (hstate : p.state = .ChunkSize) (hview : p.unreadView = crlf) :
    StreamParser.parseLoop (fuel + 1) p {} =
      ({ p with readPos := p.readPos + 2 }, { done := true }) := by
  have hlt : p.readPos < p.accum.length := readPos_lt (by simp [hview, crlf])
  have hread : readChunkSize [] = some 0 := by decide
  have hstep : p.parseStep {} = (some 2, p, { done := true }) := by
    simp [StreamParser.parseStep, hstate, StreamParser.parseChunkSize, hview, findSub, crlf, hread]
  simp [StreamParser.parseLoop, hlt, hstate, hstep]

theorem append_eq_crlf {u : List UInt8} (hne : u ≠ []) (h : u ++ later = crlf) :
    (u = [13] ∧ later = [10]) ∨ (u = crlf ∧ later = []) := by
  rw [crlf] at h ⊢
  match u with
  | [] => exact absurd rfl hne
  | [_] =>
    left
    simpa using h
  | _ :: _ :: _ =>
    right
    simpa [and_assoc] using h

/-- Nothing, or the final line end, is left to read. -/
structure Ended (p : StreamParser) (later : List UInt8) : Prop where
  state : p.state = .ChunkSize
  compact : Compact p
  rest : p.unreadView ++ later = crlf ∨ p.unreadView ++ later = []

theorem Ended.length_le (h : Ended p later) : p.unreadView.length + later.length ≤ 2 := by
  rw [← List.length_append]
  rcases h.rest with h | h
  · rw [h]
    decide
  · rw [h]
    decide

theorem Ended.compactIfNeeded (hstate : p.state = .ChunkSize) (hpos : ReadPosOk p)
    (hrest : p.unreadView ++ later = crlf ∨ p.unreadView ++ later = []) :
    Ended p.compactIfNeeded later := by
  obtain ⟨hview, hst, -⟩ := compactIfNeeded_frame p
  refine ⟨hst.trans hstate, compactIfNeeded_compact hpos, ?_⟩
  rwa [hview]

/-- A push behind the terminal line of a response without trailer fields. -/
theorem push_ended {chunk : List UInt8} (h : Ended p (chunk ++ later)) :
    Ended (p.push chunk).1 later ∧ (p.push chunk).2.hasError = false ∧
      (p.push chunk).2.data = [] := by
  have hlen := h.length_le
  obtain ⟨hstate, ⟨hpos, hcomp⟩, hrest⟩ := h
  rw [List.length_append] at hlen
  have hroom : p.accum.length + chunk.length ≤ maxAccumulatorSize := by
    rw [maxAccumulatorSize]
    omega
  by_cases hne : chunk = []
  · rw [hne, List.nil_append] at hrest
    rw [hne, push_nil (by simp [hstate])]
    exact ⟨⟨hstate, ⟨hpos, hcomp⟩, hrest⟩, rfl, rfl⟩
  · rw [push_eq (by simp [hstate]) hne hroom]
    have hview := unreadView_push hpos chunk
    have hpos' := readPosOk_push hpos chunk
    have hstate' : { p with accum := p.accum ++ chunk }.state = .ChunkSize := hstate
    have hne' : { p with accum := p.accum ++ chunk }.unreadView ≠ [] := by
      rw [hview]
      exact List.append_ne_nil_of_right_ne_nil _ hne
    rw [← List.append_assoc, ← hview] at hrest
    generalize { p with accum := p.accum ++ chunk } = p' at hpos' hstate' hne' hrest ⊢
    have hrest' : p'.unreadView ++ later = crlf := by
      rcases hrest with h | h
      · exact h
      · exact absurd (List.append_eq_nil_iff.mp h).1 hne'
    -- half of the final line end, or all of it
    rcases append_eq_crlf hne' hrest' with ⟨hcr, hlater⟩ | ⟨hcrlf, hlater⟩
    · simp only [hcr, List.length_singleton, parseLoop_cr 0 hstate' hcr]
      refine ⟨.compactIfNeeded hstate' hpos' (.inl hrest'), trivial, trivial⟩
    · have hlen2 : p'.unreadView.length = 1 + 1 := by
        rw [hcrlf]
        rfl
      simp only [hlen2, parseLoop_crlf 1 hstate' hcrlf]
      refine ⟨.compactIfNeeded hstate' (readPosOk_advance rfl rfl (k := 1) (by omega)) ?_, trivial, trivial⟩
      rw [unreadView_advance rfl rfl, hcrlf, hlater]
      exact .inr rfl

theorem pushAll_ended {pushes : List (List UInt8)} (h : Ended p pushes.flatten) :
    ∀ res ∈ p.pushAll pushes, res.hasError = false ∧ res.data = [] := by
  induction pushes generalizing p with
  | nil => simp [StreamParser.pushAll]
  | cons chunk pushes ih =>
    obtain ⟨hnext, herr, hdata⟩ := push_ended h
    intro res hres
    rw [StreamParser.pushAll, List.mem_cons] at hres
    rcases hres with rfl | hres
    · exact ⟨herr, hdata⟩
    · exact ih hnext res hres

end Expects

/-! ## Whole responses -/

section Delivered

variable {maxData : ℕ} {r : ChunkedResponse maxData} {p : StreamParser} {body : List UInt8}

/-- The results deliver `body`: without error up to a first result that reports
the end. -/
structure Delivers (body : List UInt8) (before : List ParserResult) (last : ParserResult) :
    Prop where
  before_ok : ∀ res ∈ before, res.done = false ∧ res.hasError = false
  last_done : last.done = true
  last_ok : last.hasError = false
  data : before.flatMap ParserResult.data ++ last.data = body

/-- **Every run.** A parser in the middle of the response delivers the rest of
the body, whatever the pushes. -/
theorem pushAll_delivers {maxPush : ℕ} {pushes : List (List UInt8)} (hmax : maxData ≤ maxChunkSize)
    (hroom : 2 * maxWait maxData + maxPush ≤ maxAccumulatorSize)
    (hpush : ∀ chunk ∈ pushes, chunk.length ≤ maxPush) (hcompact : Compact p)
    (hwait : p.unreadView.length ≤ maxWait maxData) (hmore : pushes.flatten ≠ [])
    (hexp : Expects r p (p.unreadView ++ pushes.flatten) body) :
    ∃ before last after, p.pushAll pushes = before ++ last :: after ∧ Delivers body before last ∧
      (r.trailers = [] → ∀ res ∈ after, res.hasError = false ∧ res.data = []) := by
  induction pushes generalizing p body with
  | nil => exact absurd rfl hmore
  | cons chunk pushes ih =>
    have hchunk : chunk.length ≤ maxPush := hpush chunk List.mem_cons_self
    rw [List.flatten_cons] at hmore hexp
    -- the push waits for more, or it is the one that finishes
    obtain ⟨hcompact', hprog⟩ := push_progress hmax (by omega) hcompact hwait hmore hexp
    cases hprog with
    | waiting hmore' hdone herr hdata hbody hexp' hwait' =>
      obtain ⟨before, last, after, hall, hdel, hafter⟩ :=
        ih (fun c hc => hpush c (List.mem_cons_of_mem _ hc)) hcompact' hwait' hmore' hexp'
      refine ⟨(p.push chunk).2 :: before, last, after, ?_, ?_, hafter⟩
      · rw [StreamParser.pushAll, hall, List.cons_append]
      · refine ⟨?_, hdel.last_done, hdel.last_ok, ?_⟩
        · intro res hres
          rcases List.mem_cons.mp hres with rfl | hres
          · exact ⟨hdone, herr⟩
          · exact hdel.before_ok res hres
        · rw [List.flatMap_cons, List.append_assoc, hdel.data, hdata, hbody, List.nil_append]
    | finished hdone herr hdata htr =>
      refine ⟨[], _, _, rfl, ⟨by simp, hdone, herr, hdata⟩, ?_⟩
      intro hno
      refine pushAll_ended ⟨htr.1, hcompact', .inl ?_⟩
      rw [htr.2, hno, List.nil_append]

theorem Delivers.results_data {before after : List ParserResult} {last : ParserResult}
    (h : Delivers body before last) (hafter : ∀ res ∈ after, res.hasError = false ∧ res.data = []) :
    (∀ res ∈ before ++ last :: after, res.hasError = false) ∧
      (before ++ last :: after).flatMap ParserResult.data = body := by
  constructor
  · intro res hres
    rcases List.mem_append.mp hres with hres | hres
    · exact (h.before_ok res hres).2
    · rcases List.mem_cons.mp hres with rfl | hres
      · exact h.last_ok
      · exact (hafter res hres).1
  · have hnil : after.flatMap ParserResult.data = [] :=
      List.flatMap_eq_nil_iff.mpr fun res hres => (hafter res hres).2
    rw [List.flatMap_append, List.flatMap_cons, hnil, List.append_nil]
    exact h.data

/-- **Any segmentation.** However the bytes of a chunked response are cut into
pushes, up to the push that completes the terminal line no error is reported and
the body is delivered; without trailer fields that is so for all pushes. -/
theorem chunked_response_delivered (r : ChunkedResponse maxData) (maxPush : ℕ)
    {pushes : List (List UInt8)}
    (hroom : 2 * max maxHeaderSize (maxData + 34) + maxPush ≤ maxAccumulatorSize)
    (hpush : ∀ chunk ∈ pushes, chunk.length ≤ maxPush) (hbytes : pushes.flatten = r.bytes) :
    (∃ before last after, ({} : StreamParser).pushAll pushes = before ++ last :: after ∧
        Delivers r.body before last) ∧
      (r.trailers = [] →
        (∀ res ∈ ({} : StreamParser).pushAll pushes, res.hasError = false) ∧
          (({} : StreamParser).pushAll pushes).flatMap ParserResult.data = r.body) := by
  have hmax : maxData ≤ maxChunkSize := by
    have := le_max_right maxHeaderSize (maxData + 34)
    rw [maxAccumulatorSize] at hroom
    rw [maxChunkSize]
    omega
  have hne : pushes.flatten ≠ [] := by
    rw [hbytes]
    simp [ChunkedResponse.bytes, crlfcrlf, crlf]
  have hexp : Expects r {} (({} : StreamParser).unreadView ++ pushes.flatten) r.body := by
    rw [hbytes]
    exact .headers rfl
  obtain ⟨before, last, after, hall, hdel, hafter⟩ :=
    pushAll_delivers hmax hroom hpush ⟨le_rfl, le_rfl⟩ (Nat.zero_le _) hne hexp
  refine ⟨⟨before, last, after, hall, hdel⟩, ?_⟩
  intro hno
  rw [hall]
  exact hdel.results_data (hafter hno)

end Delivered

/-- A response with the body `hello` in one chunk. -/
def helloResponse (trailers : List UInt8) : ChunkedResponse 5 where
  headers := ascii "HTTP/1.1 200 OK\r\nTransfer-Encoding: chunked"
  chunks := [⟨ascii "5", ascii "hello"⟩]
  lastLine := ascii "0"
  trailers := trailers
  headers_ok := by
    refine ⟨?_, ?_, ?_, ?_⟩
    · unfold EndsAtFirst
      decide
    · decide
    · unfold AnnouncesChunked
      decide
    · decide
  chunks_ok := by
    simp only [List.mem_singleton, forall_eq]
    refine ⟨⟨⟨?_, ?_⟩, by decide⟩, by decide, by decide⟩
    · unfold EndsAtFirst
      decide
    · exact ⟨[], ascii "5", [], [], by decide, by simp, by simp, by decide,
        by decide +kernel, by decide, .inl rfl⟩
  lastLine_ok := by
    refine ⟨⟨?_, ?_⟩, by decide⟩
    · unfold EndsAtFirst
      decide
    · exact ⟨[], ascii "0", [], [], by decide, by simp, by simp, by decide,
        by decide +kernel, by decide, .inl rfl⟩

/-- Its bytes without trailer fields, cut in the middle of the header block, of
the data and of the final line end. -/
def helloPushes : List (List UInt8) :=
  [ascii "HTTP/1.1 200 OK\r\nTransfer-", ascii "Encoding: chunked\r\n\r\n5\r\nhe", [],
    ascii "llo\r\n0\r\n\r", ascii "\n"]

theorem chunked_response_delivered_hello :
    (∀ res ∈ ({} : StreamParser).pushAll helloPushes, res.hasError = false) ∧
      (({} : StreamParser).pushAll helloPushes).flatMap ParserResult.data = ascii "hello" :=
  (chunked_response_delivered (helloResponse []) 32
    (by decide) (by decide) (by decide)).2 rfl

/-- A trailer field in a push of its own is read as a size line. -/
theorem trailer_field_is_an_error :
    ¬∀ (maxData maxPush : ℕ) (r : ChunkedResponse maxData) (pushes : List (List UInt8)),
      2 * max maxHeaderSize (maxData + 34) + maxPush ≤ maxAccumulatorSize →
      (∀ chunk ∈ pushes, chunk.length ≤ maxPush) → pushes.flatten = r.bytes →
      (∀ res ∈ ({} : StreamParser).pushAll pushes, res.hasError = false) ∧
        (({} : StreamParser).pushAll pushes).flatMap ParserResult.data = r.body := by
  intro h
  have herr := (h 5 64 (helloResponse (ascii "Expires: 0\r\n"))
    [ascii "HTTP/1.1 200 OK\r\nTransfer-Encoding: chunked\r\n\r\n5\r\nhello\r\n0\r\n",
      ascii "Expires: 0\r\n\r\n"] (by decide) (by decide) (by decide)).1
  revert herr
  decide

end Ranvier
