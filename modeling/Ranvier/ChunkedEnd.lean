import Ranvier.ContentStream
import Ranvier.ProxyOutcome

/-!
# Where a chunked response ends

For any bytes whose header block announces chunked encoding, well formed or not:
when the parser reports the end, it has read a header block, whole chunks and a
size line that reads as zero, and it does so in the push that completes this
line. The line end behind the trailer section is not part of what it waits for.

* `ChunkedFront` — a response up to and with its terminal line;
* `Position` — where in such bytes the parser is: the **invariant**;
* `NeedsMore` — the bytes at hand are not enough for the next step;
* `parseStep_at`, `parseLoop_at`, `push_at` — one step, one loop and one push;
* `chunked_done_at_terminal_line` — every run, and the streaming loop on top.
-/

namespace Ranvier

/-! ## Framing -/

/-- Whole chunks as the parser takes them: a size line, data of that size and two
bytes it does not look at. -/
inductive Chunks : List UInt8 → Prop where
  | nil : Chunks []
  | concat {chunks line data behind : List UInt8} : Chunks chunks → EndsAtFirst crlf line →
      readChunkSize line = some data.length → data ≠ [] → behind.length = 2 →
      Chunks (chunks ++ (line ++ crlf ++ (data ++ behind)))

/-- The bytes of a chunked response up to and with its terminal line. -/
structure ChunkedFront (headers line front : List UInt8) : Prop where
  lineEnds : EndsAtFirst crlf line
  zero : readChunkSize line = some 0
  form : ∃ chunks, Chunks chunks ∧ front = headers ++ crlfcrlf ++ (chunks ++ (line ++ crlf))

/-- The line has a size, and is not just blanks and an extension. -/
def ExplicitSize (line : List UInt8) : Prop := trim (line.takeWhile fun b => b ≠ 59) ≠ []

/-- The bytes behind the terminal line hold the end of the trailer section: the
final line end, at once or behind trailer fields. -/
def HasFinalCrlf (bytes : List UInt8) : Prop := (findSub crlfcrlf (crlf ++ bytes)).isSome

/-- The whole of a chunked response is among the bytes. -/
def MessageRead (headers bytes : List UInt8) : Prop :=
  ∃ line front rest, ChunkedFront headers line front ∧ bytes = front ++ rest ∧
    ExplicitSize line ∧ HasFinalCrlf rest

/-- A header block (without its blank line) that announces chunked encoding. -/
structure AnnouncedChunked (headers : List UInt8) : Prop where
  endsAtFirst : EndsAtFirst crlfcrlf headers
  chunked : ∃ line ∈ headerLines headers, AnnouncesChunked line

/-! ## Steps -/

section Steps

variable {headers bytes later rest : List UInt8} {p : StreamParser} {res : ParserResult}

/-- Where a parser is that was given `bytes` and has `view` to read. -/
inductive Position (headers bytes : List UInt8) (state : ParserState) (needed : ℕ)
    (view : List UInt8) : Prop where
  | headers : state = .Headers → view = bytes → Position headers bytes state needed view
  | chunkSize {chunks : List UInt8} : state = .ChunkSize → Chunks chunks →
      bytes = headers ++ crlfcrlf ++ (chunks ++ view) → Position headers bytes state needed view
  | chunkData {chunks line : List UInt8} : state = .ChunkData → Chunks chunks →
      EndsAtFirst crlf line → readChunkSize line = some needed → 0 < needed →
      bytes = headers ++ crlfcrlf ++ (chunks ++ (line ++ crlf ++ view)) →
      Position headers bytes state needed view
  | error : state = .Error → Position headers bytes state needed view

/-- The parser's own position. -/
def StreamParser.At (headers bytes : List UInt8) (p : StreamParser) : Prop :=
  Position headers bytes p.state p.chunkBytesNeeded p.unreadView

/-- The next step needs more than the bytes at hand. -/
def NeedsMore (p : StreamParser) : Prop :=
  match p.state with
  | .Headers => findSub crlfcrlf p.unreadView = none
  | .ChunkSize => findSub crlf p.unreadView = none
  | .ChunkData => p.unreadView.length < p.chunkBytesNeeded + 2
  | .ContentBody => True
  | .Error => True

/-- What a step does to a parser in a chunked response. -/
inductive StepAt (headers bytes : List UInt8) (p : StreamParser) (res : ParserResult) :
    ParseStep → Prop where
  | wait : NeedsMore p → StepAt headers bytes p res (some 0, p, res)
  | fail {p' : StreamParser} {res' : ParserResult} : p'.accum = p.accum →
      p'.readPos = p.readPos → res'.done = res.done → StepAt headers bytes p res (none, p', res')
  | go {k : ℕ} {p' : StreamParser} {res' : ParserResult} : k < p.unreadView.length →
      p'.accum = p.accum → p'.readPos = p.readPos → res'.done = res.done →
      Position headers bytes p'.state p'.chunkBytesNeeded (p.unreadView.drop (k + 1)) →
      StepAt headers bytes p res (some (k + 1), p', res')
  | finish {k : ℕ} {p' : StreamParser} {res' : ParserResult} {line front : List UInt8} :
      k < p.unreadView.length → p'.accum = p.accum → p'.readPos = p.readPos → res'.done = true →
      ChunkedFront headers line front → bytes = front ++ p.unreadView.drop (k + 1) →
      StepAt headers bytes p res (some (k + 1), p', res')

/-- A successful scan has found the encoding if some line has it. -/
theorem scanLines_announced {lines : List (List UInt8)} {scan scan' : HeaderScan}
    (hscan : scanLines lines scan = (scan', true))
    (hchunked : scan.isChunked = true ∨ ∃ line ∈ lines, AnnouncesChunked line) :
    scan'.isChunked = true := by
  induction lines generalizing scan with
  | nil =>
    obtain rfl : scan = scan' := (Prod.mk.inj hscan).1
    rcases hchunked with h | ⟨line, hline, -⟩
    · exact h
    · cases hline
  | cons line lines ih =>
    rw [scanLines] at hscan
    split at hscan
    · next scan₁ heq =>
      refine ih hscan ?_
      have hlen : icaseStartsWith line kContentLength → (contentLengthOf line).isSome := by
        intro hcl
        by_contra hnone
        rw [Option.not_isSome_iff_eq_none] at hnone
        rw [scanLine_contentLength scan hcl, hnone] at heq
        cases heq
      obtain ⟨-, hfound⟩ := scanLine_chunked scan hlen
      rw [heq] at hfound
      rcases hchunked with h | ⟨l, hl, h⟩
      · exact .inl (hfound (.inl h))
      · rcases List.mem_cons.mp hl with rfl | hl
        · exact .inl (hfound (.inr h))
        · exact .inr ⟨l, hl, h⟩
    · cases (Prod.mk.inj hscan).2

theorem parseHeaders_at (hann : AnnouncedChunked headers) (hstate : p.state = .Headers)
    (hview : p.unreadView = bytes) (hstream : bytes ++ later = headers ++ crlfcrlf ++ rest) :
    StepAt headers bytes p res (p.parseHeaders res) := by
  rw [StreamParser.parseHeaders, hview]
  -- the blank line has not arrived yet, or the whole block is at hand
  rcases search_arrived crlfcrlf_ne_nil hann.endsAtFirst hstream with
    ⟨hnone, -, -⟩ | ⟨rest', hbytes, -⟩
  · rw [hnone]
    dsimp only
    split
    · exact .fail rfl rfl rfl
    · refine .wait ?_
      rw [NeedsMore, hstate, hview]
      exact hnone
  · have hfind : findSub crlfcrlf bytes = some headers.length := by
      rw [hbytes]
      exact findSub_append crlfcrlf_ne_nil hann.endsAtFirst
    have htake : bytes.take headers.length = headers := by
      rw [hbytes, List.append_assoc, List.take_left]
    have hdrop : bytes.drop (headers.length + 4) = rest' := by
      rw [hbytes]
      exact List.drop_left' (by simp [crlfcrlf, crlf])
    simp only [hfind, htake]
    split
    · exact .fail rfl rfl rfl
    · next scan hscan =>
      simp only [scanLines_announced hscan (.inr hann.chunked), if_true]
      refine .go ?_ rfl rfl rfl (.chunkSize rfl .nil ?_)
      · rw [hview, hbytes]
        simp [crlfcrlf, crlf]
      · rw [hview, List.nil_append, hdrop]
        exact hbytes

theorem parseChunkSize_at {chunks : List UInt8} (hstate : p.state = .ChunkSize)
    (hchunks : Chunks chunks) (hbytes : bytes = headers ++ crlfcrlf ++ (chunks ++ p.unreadView)) :
    StepAt headers bytes p res (p.parseChunkSize res) := by
  rw [StreamParser.parseChunkSize]
  split
  · next hnone =>
    split
    · exact .fail rfl rfl rfl
    · refine .wait ?_
      rw [NeedsMore, hstate]
      exact hnone
  · next lineEnd hfind =>
    -- a whole size line is at hand
    obtain ⟨line, behind, hview, rfl, hends⟩ := findSub_split crlf_ne_nil hfind
    have htake : p.unreadView.take line.length = line := by
      rw [hview, List.append_assoc, List.take_left]
    have hdrop : p.unreadView.drop (line.length + 1 + 1) = behind := by
      rw [hview]
      exact List.drop_left' (by simp [crlf])
    have hlt : line.length + 1 < p.unreadView.length := by
      rw [hview]
      simp [crlf]
    rw [htake]
    split
    · exact .fail rfl rfl rfl
    · next size hsize =>
      split
      · exact .fail rfl rfl rfl
      split
      · next hzero =>
        rw [hzero] at hsize
        refine .finish hlt rfl rfl rfl ⟨hends, hsize, chunks, hchunks, rfl⟩ ?_
        rw [hdrop, hbytes, hview]
        simp only [List.append_assoc]
      · next hpos =>
        refine .go hlt rfl rfl rfl
          (.chunkData rfl hchunks hends hsize (Nat.pos_of_ne_zero hpos) ?_)
        rw [hdrop, ← hview]
        exact hbytes

theorem parseChunkData_at {chunks line : List UInt8} (hstate : p.state = .ChunkData)
    (hchunks : Chunks chunks) (hends : EndsAtFirst crlf line)
    (hsize : readChunkSize line = some p.chunkBytesNeeded) (hpos : 0 < p.chunkBytesNeeded)
    (hbytes : bytes = headers ++ crlfcrlf ++ (chunks ++ (line ++ crlf ++ p.unreadView))) :
    StepAt headers bytes p res (p.parseChunkData res) := by
  rw [StreamParser.parseChunkData]
  split
  · next hshort =>
    refine .wait ?_
    rw [NeedsMore, hstate]
    exact hshort
  · next hlong =>
    have hdata : (p.unreadView.take p.chunkBytesNeeded).length = p.chunkBytesNeeded :=
      List.length_take_of_le (by omega)
    have hbehind : ((p.unreadView.drop p.chunkBytesNeeded).take 2).length = 2 := by
      rw [List.length_take, List.length_drop]
      omega
    have hne : p.unreadView.take p.chunkBytesNeeded ≠ [] := by
      intro hnil
      rw [hnil, List.length_nil] at hdata
      omega
    refine .go (by omega) rfl rfl rfl
      (.chunkSize rfl (.concat hchunks hends (by rw [hdata]; exact hsize) hne hbehind) ?_)
    rw [hbytes]
    -- what is at hand: the data, the two bytes behind it, the rest
    have hview : p.unreadView = p.unreadView.take p.chunkBytesNeeded ++
        ((p.unreadView.drop p.chunkBytesNeeded).take 2 ++
          p.unreadView.drop (p.chunkBytesNeeded + 1 + 1)) := by
      rw [Nat.add_assoc, ← List.drop_drop, List.take_append_drop, List.take_append_drop]
    nth_rewrite 1 [hview]
    simp only [List.append_assoc]

/-- **One step** in a chunked response. -/
theorem parseStep_at (res : ParserResult) (hann : AnnouncedChunked headers)
    (hat : p.At headers bytes) (hstate : p.state ≠ .Error)
    (hstream : bytes ++ later = headers ++ crlfcrlf ++ rest) :
    StepAt headers bytes p res (p.parseStep res) := by
  rw [StreamParser.parseStep]
  cases hat with
  | headers h hview =>
    rw [h]
    exact parseHeaders_at hann h hview hstream
  | chunkSize h hchunks hbytes =>
    rw [h]
    exact parseChunkSize_at h hchunks hbytes
  | chunkData h hchunks hends hsize hpos hbytes =>
    rw [h]
    exact parseChunkData_at h hchunks hends hsize hpos hbytes
  | error h => exact absurd h hstate

theorem parseHeaders_consumes {p' : StreamParser} {res' : ParserResult} {k : ℕ}
    (h : p.parseHeaders res = (some (k + 1), p', res')) :
    ∃ i, findSub crlfcrlf p.unreadView = some i ∧ k + 1 = i + crlfcrlf.length := by
  rw [StreamParser.parseHeaders] at h
  split at h
  · split at h
    · cases h
    · cases h
  · next headerEnd hfind =>
    refine ⟨headerEnd, hfind, ?_⟩
    dsimp only at h
    split at h
    · cases h
    · split at h
      · exact (Option.some.inj (Prod.mk.inj h).1).symm
      · split at h
        · cases h
        · exact (Option.some.inj (Prod.mk.inj h).1).symm

theorem parseChunkSize_consumes {p' : StreamParser} {res' : ParserResult} {k : ℕ}
    (h : p.parseChunkSize res = (some (k + 1), p', res')) :
    ∃ i, findSub crlf p.unreadView = some i ∧ k + 1 = i + crlf.length := by
  rw [StreamParser.parseChunkSize] at h
  split at h
  · split at h
    · cases h
    · cases h
  · next lineEnd hfind =>
    refine ⟨lineEnd, hfind, ?_⟩
    split at h
    · cases h
    · split at h
      · cases h
      · split at h
        · exact (Option.some.inj (Prod.mk.inj h).1).symm
        · exact (Option.some.inj (Prod.mk.inj h).1).symm

/-- A parser that needed more than it had reads beyond that in its next step. -/
theorem parseStep_beyond {p' : StreamParser} {res' : ParserResult} {k : ℕ} {chunk : List UInt8}
    (hpos : ReadPosOk p) (hneeds : NeedsMore p) (hbody : p.state ≠ .ContentBody)
    (hstep : { p with accum := p.accum ++ chunk }.parseStep res = (some (k + 1), p', res')) :
    p.unreadView.length < k + 1 := by
  have hview := unreadView_push hpos chunk
  rw [NeedsMore] at hneeds
  rw [StreamParser.parseStep] at hstep
  -- the hit in the longer text is not in the part that was there
  have hbeyond {pat : List UInt8} {i : ℕ} (hpat : pat ≠ [])
      (hnone : findSub pat p.unreadView = none)
      (hfind : findSub pat { p with accum := p.accum ++ chunk }.unreadView = some i) :
      p.unreadView.length < i + pat.length := by
    rw [hview] at hfind
    have hleft := findSub_left hpat hfind
    rw [hnone] at hleft
    split_ifs at hleft with hlen
    exact Nat.not_le.mp hlen
  cases hstate : p.state with
  | Headers =>
    simp only [hstate] at hneeds hstep
    obtain ⟨i, hfind, hk⟩ := parseHeaders_consumes hstep
    rw [hk]
    exact hbeyond crlfcrlf_ne_nil hneeds hfind
  | ChunkSize =>
    simp only [hstate] at hneeds hstep
    obtain ⟨i, hfind, hk⟩ := parseChunkSize_consumes hstep
    rw [hk]
    exact hbeyond crlf_ne_nil hneeds hfind
  | ChunkData =>
    simp only [hstate] at hneeds hstep
    rw [StreamParser.parseChunkData] at hstep
    split at hstep
    · cases hstep
    · have hk : p.chunkBytesNeeded + 2 = k + 1 := Option.some.inj (Prod.mk.inj hstep).1
      omega
  | ContentBody => exact absurd hstate hbody
  | Error =>
    simp only [hstate] at hstep
    cases hstep

/-! ## Loops and pushes -/

/-- How a loop or a push ends in a chunked response: it goes on, has failed, or
has read a terminal line and left less than `m` bytes. -/
inductive EndsAt (headers bytes : List UInt8) (m : ℕ) (p : StreamParser) (res : ParserResult) :
    Prop where
  | waiting : res.done = false → p.At headers bytes → NeedsMore p →
      EndsAt headers bytes m p res
  | finished {line front : List UInt8} : res.done = true → ChunkedFront headers line front →
      bytes = front ++ p.unreadView → p.unreadView.length < m → EndsAt headers bytes m p res

theorem needsMore_of_nil (hat : p.At headers bytes) (hnil : p.unreadView = []) :
    NeedsMore p := by
  rw [NeedsMore, hnil]
  cases hat with
  | headers h _ =>
    rw [h]
    rfl
  | chunkSize h _ _ =>
    rw [h]
    rfl
  | chunkData h _ _ _ _ _ =>
    rw [h]
    exact Nat.succ_pos _
  | error h =>
    rw [h]
    trivial

/-- **The loop**, when its first step leaves less than `m` bytes. -/
theorem parseLoop_at (res : ParserResult) (hann : AnnouncedChunked headers)
    (hstream : bytes ++ later = headers ++ crlfcrlf ++ rest) {fuel m : ℕ}
    (hfuel : p.unreadView.length ≤ fuel) (hpos : ReadPosOk p) (hat : p.At headers bytes)
    (hdone : res.done = false)
    (hfirst : ∀ k p' res', p.parseStep res = (some (k + 1), p', res') →
      p.unreadView.length < m + (k + 1)) :
    ReadPosOk (StreamParser.parseLoop fuel p res).1 ∧
      EndsAt headers bytes m (StreamParser.parseLoop fuel p res).1
        (StreamParser.parseLoop fuel p res).2 := by
  induction fuel generalizing p res with
  | zero =>
    -- out of fuel only with nothing left to read
    have hnil : p.unreadView = [] := List.length_eq_zero_iff.mp (by omega)
    exact ⟨hpos, .waiting hdone hat (needsMore_of_nil hat hnil)⟩
  | succ fuel ih =>
    rw [StreamParser.parseLoop]
    split
    · next hgo =>
      have hstep := parseStep_at res hann hat hgo.2 hstream
      generalize hout : p.parseStep res = out at hstep
      cases hstep with
      | wait hneeds => exact ⟨hpos, .waiting hdone hat hneeds⟩
      | fail haccum hread hd =>
        refine ⟨?_, .waiting (hd.trans hdone) (.error rfl) trivial⟩
        change _ ≤ _
        rw [haccum, hread]
        exact hpos
      | go hk haccum hread hd hnext =>
        rename_i k p' res'
        -- a step reads at least one byte, so later steps leave less than `m` as well
        have hview := unreadView_advance (k := k + 1) haccum hread
        have hlen := hfirst k p' res' hout
        simp only [hd, hdone]
        refine ih res' ?_ (readPosOk_advance haccum hread hk) ?_ (hd.trans hdone) ?_
        · rw [hview, List.length_drop]
          omega
        · rw [StreamParser.At, hview]
          exact hnext
        · intro k' _ _ _
          rw [hview, List.length_drop]
          omega
      | finish hk haccum hread hd hfront hbytes =>
        rename_i k p' res' line front
        have hview := unreadView_advance (k := k + 1) haccum hread
        have hlen := hfirst k p' res' hout
        simp only [hd, if_true]
        refine ⟨readPosOk_advance haccum hread hk, .finished hd hfront ?_ ?_⟩
        · rw [hview]
          exact hbytes
        · rw [hview, List.length_drop]
          omega
    · next hstopped =>
      refine ⟨hpos, .waiting hdone hat ?_⟩
      by_cases herr : p.state = .Error
      · rw [NeedsMore, herr]
        trivial
      · refine needsMore_of_nil hat (List.drop_eq_nil_of_le ?_)
        by_contra hlt
        exact hstopped ⟨Nat.not_le.mp hlt, herr⟩

theorem StreamParser.At.push {chunk : List UInt8} (hat : p.At headers bytes) (hpos : ReadPosOk p) :
    { p with accum := p.accum ++ chunk }.At headers (bytes ++ chunk) := by
  rw [StreamParser.At, unreadView_push hpos]
  cases hat with
  | headers h hview => exact .headers h (by rw [hview])
  | chunkSize h hchunks hbytes =>
    refine .chunkSize h hchunks ?_
    rw [hbytes]
    simp only [List.append_assoc]
  | chunkData h hchunks hends hsize hn hbytes =>
    refine .chunkData h hchunks hends hsize hn ?_
    rw [hbytes]
    simp only [List.append_assoc]
  | error h => exact .error h

theorem StreamParser.At.state_ne (hat : p.At headers bytes) : p.state ≠ .ContentBody := by
  cases hat with
  | headers h _ => simp [h]
  | chunkSize h _ _ => simp [h]
  | chunkData h _ _ _ _ _ => simp [h]
  | error h => simp [h]

theorem EndsAt.compactIfNeeded {m : ℕ} (h : EndsAt headers bytes m p res) :
    EndsAt headers bytes m p.compactIfNeeded res := by
  obtain ⟨hview, hstate, hneeded⟩ := compactIfNeeded_frame p
  cases h with
  | waiting hdone hat hneeds =>
    refine .waiting hdone ?_ ?_
    · rwa [StreamParser.At, hview, hstate, hneeded]
    · rwa [NeedsMore, hview, hstate, hneeded]
  | finished hdone hfront hbytes hlen =>
    refine .finished hdone hfront ?_ ?_
    · rwa [hview]
    · rwa [hview]

/-- **One push.** If it ends the response, less than its own bytes are left. -/
theorem push_at {chunk : List UInt8} (hann : AnnouncedChunked headers)
    (hstream : bytes ++ chunk ++ later = headers ++ crlfcrlf ++ rest) (hpos : ReadPosOk p)
    (hat : p.At headers bytes) (hneeds : NeedsMore p) :
    ReadPosOk (p.push chunk).1 ∧
      EndsAt headers (bytes ++ chunk) chunk.length (p.push chunk).1 (p.push chunk).2 := by
  by_cases herr : p.state = .Error
  · rw [StreamParser.push, if_pos herr]
    exact ⟨hpos, .waiting rfl (.error herr) hneeds⟩
  by_cases hnil : chunk = []
  · rw [hnil, push_nil herr, List.append_nil]
    exact ⟨hpos, .waiting rfl hat hneeds⟩
  by_cases hroom : p.accum.length + chunk.length ≤ maxAccumulatorSize
  · rw [push_eq herr hnil hroom]
    have hview := unreadView_push hpos chunk
    obtain ⟨hread, hends⟩ := parseLoop_at (m := chunk.length) {} hann hstream le_rfl
      (readPosOk_push hpos chunk) (hat.push hpos) rfl (by
        intro k p' res' hstep
        have := parseStep_beyond hpos hneeds hat.state_ne hstep
        rw [hview, List.length_append]
        omega)
    exact ⟨(compactIfNeeded_compact hread).readPosOk, hends.compactIfNeeded⟩
  · rw [StreamParser.push, if_neg herr, if_neg hnil, if_pos (Nat.not_le.mp hroom)]
    exact ⟨hpos, .waiting rfl (.error rfl) trivial⟩

end Steps

/-! ## Runs -/

section Runs

variable {headers bytes rest : List UInt8} {p : StreamParser} {pushes : List (List UInt8)}
  {before after : List ParserResult} {last : ParserResult}

/-- **Every run.** The first push that reports the end completes a terminal line. -/
theorem pushAll_done (hann : AnnouncedChunked headers)
    (hstream : bytes ++ pushes.flatten = headers ++ crlfcrlf ++ rest) (hpos : ReadPosOk p)
    (hat : p.At headers bytes) (hneeds : NeedsMore p)
    (hall : p.pushAll pushes = before ++ last :: after)
    (hbefore : ∀ res ∈ before, res.done = false) (hlast : last.done = true) :
    ∃ line front left, ChunkedFront headers line front ∧
      (bytes ++ (pushes.take before.length).flatten).length < front.length ∧
      bytes ++ (pushes.take (before.length + 1)).flatten = front ++ left ∧
      ((pushes.take (before.length + 1)).foldl (fun p chunk => (p.push chunk).1) p).unreadView =
        left := by
  induction pushes generalizing p bytes before with
  | nil => cases before <;> cases hall
  | cons chunk pushes ih =>
    rw [List.flatten_cons, ← List.append_assoc] at hstream
    obtain ⟨hpos', hends⟩ := push_at hann hstream hpos hat hneeds
    rw [StreamParser.pushAll] at hall
    cases before with
    | nil =>
      -- this push is the one that reports the end
      have hres : (p.push chunk).2 = last := (List.cons.inj hall).1
      cases hends with
      | waiting hdone _ _ =>
        rw [hres, hlast] at hdone
        cases hdone
      | finished hdone hfront hbytes hlen =>
        refine ⟨_, _, _, hfront, ?_, ?_, rfl⟩
        · have := congrArg List.length hbytes
          simp only [List.length_append] at this
          simp only [List.length_nil, List.take_zero, List.flatten_nil, List.append_nil]
          omega
        · simpa using hbytes
    | cons res before =>
      -- this push only waits: the run goes on behind it
      obtain ⟨hres, hall⟩ := List.cons.inj hall
      cases hends with
      | waiting _ hat' hneeds' =>
        obtain ⟨line, front, left, hfront, hlen, hsplit, hleft⟩ := ih hstream hpos' hat' hneeds' hall
          fun r hr => hbefore r (List.mem_cons_of_mem _ hr)
        refine ⟨line, front, left, hfront, ?_, ?_, ?_⟩
        · rw [List.length_cons, List.take_succ_cons, List.flatten_cons, ← List.append_assoc]
          exact hlen
        · rw [List.length_cons, List.take_succ_cons, List.flatten_cons, ← List.append_assoc]
          exact hsplit
        · rw [List.length_cons, List.take_succ_cons, List.foldl_cons]
          exact hleft
      | finished hdone _ _ _ =>
        have := hbefore res List.mem_cons_self
        rw [← hres, hdone] at this
        cases this

theorem length_pushAll (p : StreamParser) (pushes : List (List UInt8)) :
    (p.pushAll pushes).length = pushes.length := by
  induction pushes generalizing p with
  | nil => rfl
  | cons chunk pushes ih => rw [StreamParser.pushAll, List.length_cons, ih, List.length_cons]

/-- A run of the streaming loop ends with the turn whose chunk ends the response. -/
theorem stream_done_last {s₀ s : Streaming} {turns : List Turn}
    (hexec : streamBackendResponse s₀ turns = some s) :
    ∀ res ∈ (answers turns).dropLast, res.done = false := by
  refine (exec_induction (h := []) (I := fun turns s => StreamOutcome s₀ turns s ∧
    ∀ res ∈ (answers turns).dropLast, res.done = false) ?_ hexec ⟨streamOutcome_start s₀, ?_⟩).2
  · rintro past s t s' hturn ⟨hout, hpast⟩
    have hrun := hout.running_of_turn hturn
    refine ⟨hrun.turn hturn, ?_⟩
    cases hchunk : t.chunk? with
    | none =>
      rw [answers_concat_none hchunk]
      exact hpast
    | some chunk =>
      rw [answers_concat_some hchunk, List.dropLast_concat]
      intro res hres
      rw [Bool.eq_false_iff]
      intro hdone
      exact hrun.goesOn (.inr (.inr ⟨res, hres, hdone⟩))
  · simp [answers, chunksRead, StreamParser.pushAll]

/-- **The end of a chunked response.** The first push that reports the end of a
chunked response completes a size line that reads as zero behind whole chunks;
what is left unread is what this push brought behind that line. The whole message
has been read if the line states its size and the final line end came along. The
streaming loop reads nothing more. -/
theorem chunked_done_at_terminal_line (hann : AnnouncedChunked headers)
    (hstream : pushes.flatten = headers ++ crlfcrlf ++ rest)
    (hall : ({} : StreamParser).pushAll pushes = before ++ last :: after)
    (hbefore : ∀ res ∈ before, res.done = false) (hlast : last.done = true) :
    (∃ line front left, ChunkedFront headers line front ∧
      (pushes.take before.length).flatten.length < front.length ∧
      (pushes.take (before.length + 1)).flatten = front ++ left ∧
      (parserAfter (pushes.take (before.length + 1))).unreadView = left ∧
      (ExplicitSize line → HasFinalCrlf left →
        MessageRead headers (pushes.take (before.length + 1)).flatten)) ∧
    ∀ s₀ turns s, streamBackendResponse s₀ turns = some s → chunksRead turns = pushes →
      received turns = (pushes.take (before.length + 1)).flatten := by
  obtain ⟨line, front, left, hfront, hlen, hsplit, hleft⟩ :=
    pushAll_done (p := {}) hann (show [] ++ pushes.flatten = _ from hstream) (Nat.zero_le _)
      (.headers rfl rfl) rfl hall hbefore hlast
  refine ⟨⟨line, front, left, hfront, hlen, hsplit, hleft, ?_⟩, ?_⟩
  · intro hexplicit hfinal
    exact ⟨line, front, left, hfront, hsplit, hexplicit, hfinal⟩
  · intro s₀ turns s hexec hpushes
    -- the loop stops at the first answer that reports the end
    have hdone := stream_done_last hexec
    rw [answers, hpushes, hall] at hdone
    have hafter : after = [] := by
      by_contra hne
      have hmem : last ∈ (before ++ last :: after).dropLast := by
        rw [List.dropLast_append_of_ne_nil (List.cons_ne_nil _ _), List.dropLast_cons_of_ne_nil hne]
        simp
      rw [hdone last hmem] at hlast
      cases hlast
    have hcount := congrArg List.length hall
    rw [hafter, length_pushAll, List.length_append, List.length_singleton] at hcount
    rw [received, hpushes, List.take_of_length_le hcount.le]

/-- A whole message has a second blank line, unless a chunk brings one. -/
theorem MessageRead.findSub_isSome (h : MessageRead headers bytes) :
    (findSub crlfcrlf (bytes.drop (headers.length + 4))).isSome := by
  obtain ⟨line, front, rest, ⟨-, -, chunks, -, rfl⟩, rfl, -, hfinal⟩ := h
  obtain ⟨i, hi⟩ := Option.isSome_iff_exists.mp hfinal
  obtain ⟨hpre, -⟩ := (findSub_eq_some_iff crlfcrlf_ne_nil).mp hi
  have hdrop : (headers ++ crlfcrlf ++ (chunks ++ (line ++ crlf)) ++ rest).drop
      (headers.length + 4) = chunks ++ line ++ (crlf ++ rest) := by
    rw [List.append_assoc, List.drop_left' (by simp [crlfcrlf, crlf])]
    simp only [List.append_assoc]
  rw [hdrop, Option.isSome_iff_ne_none, Ne, findSub_eq_none_iff crlfcrlf_ne_nil, not_forall]
  refine ⟨(chunks ++ line).length + i, not_not.mpr ?_⟩
  rw [← List.drop_drop, List.drop_left]
  exact hpre

end Runs

/-- A header block that announces chunked encoding. -/
theorem okHeaders_announced :
    AnnouncedChunked (ascii "HTTP/1.1 200 OK\r\nTransfer-Encoding: chunked") := by
  refine ⟨?_, ?_⟩
  · unfold EndsAtFirst
    decide
  · unfold AnnouncesChunked
    decide

/-- The terminal line is completed by the fourth push. -/
theorem chunked_done_hello :
    ∃ line front left,
      ChunkedFront (ascii "HTTP/1.1 200 OK\r\nTransfer-Encoding: chunked") line front ∧
      (helloPushes.take 3).flatten.length < front.length ∧
      (helloPushes.take 4).flatten = front ++ left ∧
      (parserAfter (helloPushes.take 4)).unreadView = left := by
  have hall : ({} : StreamParser).pushAll helloPushes =
      ([{}, { headerSnoopSuccess := true, backendStatusCode := 200 }, {}] : List ParserResult) ++
        { data := ascii "hello", done := true } :: [{ done := true }] := by
    decide
  have hstream : helloPushes.flatten =
      ascii "HTTP/1.1 200 OK\r\nTransfer-Encoding: chunked" ++ crlfcrlf ++
        ascii "5\r\nhello\r\n0\r\n\r\n" := by
    decide
  obtain ⟨⟨line, front, left, hfront, hlen, hsplit, hleft, -⟩, -⟩ :=
    chunked_done_at_terminal_line okHeaders_announced hstream hall (by decide) rfl
  exact ⟨line, front, left, hfront, hlen, hsplit, hleft⟩

/-- A response cut in front of its final line end. -/
def cutResponse : List UInt8 :=
  ascii "HTTP/1.1 200 OK\r\nTransfer-Encoding: chunked\r\n\r\n5\r\nhello\r\n0\r\n"

/-- The end is reported without the final line end, and the connection goes back
to the pool with it unread. -/
theorem final_crlf_unread :
    (¬∀ (headers rest : List UInt8) (pushes : List (List UInt8)) (before after : List ParserResult)
      (last : ParserResult), AnnouncedChunked headers →
      pushes.flatten = headers ++ crlfcrlf ++ rest →
      ({} : StreamParser).pushAll pushes = before ++ last :: after →
      (∀ res ∈ before, res.done = false) → last.done = true →
      MessageRead headers (pushes.take (before.length + 1)).flatten) ∧
    ∃ s, streamBackendResponse {} [.read cutResponse .ok] = some s ∧
      s.exit = some .broke ∧ s.ctx.Flagless ∧ s.bundleValid = true := by
  constructor
  · intro h
    have hread := h _ (ascii "5\r\nhello\r\n0\r\n\r\n") [cutResponse, crlf] []
      [{ done := true }]
      { data := ascii "hello", done := true, headerSnoopSuccess := true, backendStatusCode := 200 }
      okHeaders_announced (by decide) (by decide) (by simp) rfl
    have := hread.findSub_isSome
    revert this
    decide
  · exact ⟨_, rfl, rfl, rfl, rfl⟩

end Ranvier
