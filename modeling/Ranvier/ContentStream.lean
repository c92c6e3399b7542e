import Ranvier.ChunkedStream

/-!
# Responses with a Content-Length in any segmentation

A response with a Content-Length is a header block and a body of that many
bytes. The parser delivers the body in one piece, in the push that completes it.
A length of **zero** is also the parser's way of writing that there was no
Content-Length line: such a response never ends.

* `ContentHeaders` — a header block that announces a body of `n` bytes;
* `WithinLimits` — the sizes the parser takes, push by push;
* `ReportsEnd` — the body is delivered and its end reported in the push that
  brings the last byte of the response;
* `reportsEnd_inBody_iff`, `reportsEnd_inHeaders_iff` — the two phases of a run;
* `content_length_reported_iff` — every segmentation of every response.
-/

namespace Ranvier

/-! ## Well-formed responses -/

/-- A Content-Length line for a body of `n` bytes: decimal digits with blanks
around them. -/
structure ContentLengthLine (n : ℕ) (line : List UInt8) : Prop where
  name : icaseStartsWith line kContentLength
  form : ∃ before digits after, line.drop kContentLength.length = before ++ (digits ++ after) ∧
    (∀ b ∈ before, isBlank b) ∧ (∀ b ∈ after, isBlank b) ∧ digits ≠ [] ∧
    (∀ b ∈ digits, (digitValue 10 b).isSome) ∧ digitsValue 10 digits = n

/-- A header block (without its blank line) that announces a body of `n` bytes:
it has no blank line of its own, does not announce chunked encoding, and its
Content-Length lines, at least one, all say `n`. -/
structure ContentHeaders (n : ℕ) (headers : List UInt8) : Prop where
  endsAtFirst : EndsAtFirst crlfcrlf headers
  notChunked : ∀ line ∈ headerLines headers, ¬AnnouncesChunked line
  present : ∃ line ∈ headerLines headers, icaseStartsWith line kContentLength
  contentLength : ∀ line ∈ headerLines headers, icaseStartsWith line kContentLength →
    ContentLengthLine n line

theorem decimal_not_blank {b : UInt8} (h : (digitValue 10 b).isSome) : isBlank b = false := by
  rw [isBlank, Bool.or_eq_false_iff, decide_eq_false_iff_not, decide_eq_false_iff_not]
  constructor
  · rintro rfl
    revert h
    decide
  · rintro rfl
    revert h
    decide

theorem ContentLengthLine.contentLengthOf_eq {n : ℕ} {line : List UInt8}
    (h : ContentLengthLine n line) :
    contentLengthOf line = if n < 2 ^ 64 then some n else none := by
  obtain ⟨before, digits, after, hline, hb, ha, hne, hdig, rfl⟩ := h.form
  have htrim : trim (before ++ (digits ++ after)) = digits :=
    trim_blanks hb ha (fun b hb' => decimal_not_blank (hdig b hb')) hne
  rw [contentLengthOf, hline, htrim]
  split_ifs with hfits
  · rw [fromChars_digits hne hdig hfits]
  · rw [fromChars_digits_overflow hdig (Nat.not_lt.mp hfits)]

/-- A line has at most one of two names that are not prefixes of each other. -/
theorem icaseStartsWith_exclusive {line a b : List UInt8} (ha : icaseStartsWith line a)
    (hab : ¬a <+: b) (hba : ¬b <+: a) : ¬icaseStartsWith line b := by
  intro hb
  rw [icaseStartsWith, List.isPrefixOf_iff_prefix] at ha hb
  rcases List.prefix_or_prefix_of_prefix ha hb with h | h
  · exact hab h
  · exact hba h

/-- A Content-Length line of the scan. -/
theorem scanLine_contentLength {line : List UInt8} (scan : HeaderScan)
    (hline : icaseStartsWith line kContentLength) :
    scanLine line scan =
      match contentLengthOf line with
      | some n => ({ scan with contentLength := n }, true)
      | none => (scan, false) := by
  have hte : ¬icaseStartsWith line kTransferEncoding :=
    icaseStartsWith_exclusive hline (by decide) (by decide)
  have hconn : ¬icaseStartsWith line kConnection :=
    icaseStartsWith_exclusive hline (by decide) (by decide)
  cases hread : contentLengthOf line with
  | none => simp [scanLine, hte, hconn, hline, hread]
  | some n => simp [scanLine, hte, hconn, hline, hread]

/-- Any other line of the scan. -/
theorem scanLine_other {line : List UInt8} (scan : HeaderScan)
    (hline : ¬icaseStartsWith line kContentLength) (hch : ¬AnnouncesChunked line) :
    (scanLine line scan).2 = true ∧ (scanLine line scan).1.isChunked = scan.isChunked ∧
      (scanLine line scan).1.contentLength = scan.contentLength := by
  rw [scanLine]
  split
  · next hte =>
    rw [if_neg fun h => hch ⟨hte, h⟩]
    exact ⟨rfl, rfl, rfl⟩
  · split
    · exact ⟨rfl, rfl, rfl⟩
    · exact ⟨rfl, rfl, rfl⟩

/-- The scan of lines that say `n`. Once a line has said it the scan holds it. -/
theorem scanLines_contentLength {n : ℕ} {lines : List (List UInt8)} (scan : HeaderScan)
    (hn : n < 2 ^ 64) (hch : ∀ line ∈ lines, ¬AnnouncesChunked line)
    (hlen : ∀ line ∈ lines, icaseStartsWith line kContentLength → ContentLengthLine n line)
    (hsaid : scan.contentLength = n ∨ ∃ line ∈ lines, icaseStartsWith line kContentLength) :
    ∃ scan', scanLines lines scan = (scan', true) ∧ scan'.isChunked = scan.isChunked ∧
      scan'.contentLength = n := by
  induction lines generalizing scan with
  | nil =>
    rcases hsaid with h | ⟨line, hline, -⟩
    · exact ⟨scan, rfl, rfl, h⟩
    · cases hline
  | cons line lines ih =>
    have hch' : ∀ l ∈ lines, ¬AnnouncesChunked l := fun l hl => hch l (List.mem_cons_of_mem _ hl)
    have hlen' := fun l hl => hlen l (List.mem_cons_of_mem line hl)
    -- a line that says `n`, or one that leaves the length alone
    by_cases hline : icaseStartsWith line kContentLength
    · have hread := (hlen line List.mem_cons_self hline).contentLengthOf_eq
      rw [if_pos hn] at hread
      rw [scanLines, scanLine_contentLength scan hline, hread]
      exact ih _ hch' hlen' (.inl rfl)
    · obtain ⟨hok, hkeep, hcl⟩ := scanLine_other scan hline (hch line List.mem_cons_self)
      have hsaid' : (scanLine line scan).1.contentLength = n ∨
          ∃ line ∈ lines, icaseStartsWith line kContentLength := by
        rcases hsaid with h | ⟨l, hl, h⟩
        · exact .inl (hcl.trans h)
        · rcases List.mem_cons.mp hl with rfl | hl
          · exact absurd h hline
          · exact .inr ⟨l, hl, h⟩
      obtain ⟨scan', hscan', hkeep', hlast⟩ := ih (scanLine line scan).1 hch' hlen' hsaid'
      refine ⟨scan', ?_, hkeep'.trans hkeep, hlast⟩
      rw [scanLines]
      generalize scanLine line scan = out at hok hscan'
      obtain ⟨scan₁, flag⟩ := out
      subst hok
      exact hscan'

/-- A number that is too large for the parser's type stops the scan. -/
theorem scanLines_overflow {n : ℕ} {lines : List (List UInt8)} (scan : HeaderScan)
    (hn : ¬n < 2 ^ 64) (hch : ∀ line ∈ lines, ¬AnnouncesChunked line)
    (hlen : ∀ line ∈ lines, icaseStartsWith line kContentLength → ContentLengthLine n line)
    (hsaid : ∃ line ∈ lines, icaseStartsWith line kContentLength) :
    (scanLines lines scan).2 = false := by
  induction lines generalizing scan with
  | nil =>
    obtain ⟨line, hline, -⟩ := hsaid
    cases hline
  | cons line lines ih =>
    by_cases hline : icaseStartsWith line kContentLength
    · have hread := (hlen line List.mem_cons_self hline).contentLengthOf_eq
      rw [if_neg hn] at hread
      rw [scanLines, scanLine_contentLength scan hline, hread]
    · obtain ⟨hok, -, -⟩ := scanLine_other scan hline (hch line List.mem_cons_self)
      have hsaid' : ∃ line ∈ lines, icaseStartsWith line kContentLength := by
        obtain ⟨l, hl, h⟩ := hsaid
        rcases List.mem_cons.mp hl with rfl | hl
        · exact absurd h hline
        · exact ⟨l, hl, h⟩
      have hrest := ih (scanLine line scan).1 (fun l hl => hch l (List.mem_cons_of_mem _ hl))
        (fun l hl => hlen l (List.mem_cons_of_mem _ hl)) hsaid'
      rw [scanLines]
      generalize scanLine line scan = out at hok hrest
      obtain ⟨scan₁, flag⟩ := out
      subst hok
      exact hrest

/-! ## Steps and loops -/

section Loop

variable {p p' : StreamParser} {res res' : ParserResult} {fuel k : ℕ}

/-- A step that goes on. -/
theorem parseLoop_go (hlt : p.readPos < p.accum.length) (hstate : p.state ≠ .Error)
    (hstep : p.parseStep res = (some (k + 1), p', res')) (hdone : res'.done = false) :
    StreamParser.parseLoop (fuel + 1) p res =
      StreamParser.parseLoop fuel { p' with readPos := p'.readPos + (k + 1) } res' := by
  rw [StreamParser.parseLoop, if_pos ⟨hlt, hstate⟩, hstep]
  simp only [hdone]
  rfl

/-- A step that reports the end. -/
theorem parseLoop_done (hlt : p.readPos < p.accum.length) (hstate : p.state ≠ .Error)
    (hstep : p.parseStep res = (some (k + 1), p', res')) (hdone : res'.done = true) :
    StreamParser.parseLoop (fuel + 1) p res =
      ({ p' with readPos := p'.readPos + (k + 1) }, res') := by
  rw [StreamParser.parseLoop, if_pos ⟨hlt, hstate⟩, hstep]
  simp only [hdone, if_true]

/-- A step that needs more data. -/
theorem parseLoop_wait (hlt : p.readPos < p.accum.length) (hstate : p.state ≠ .Error)
    (hstep : p.parseStep res = (some 0, p', res')) :
    StreamParser.parseLoop (fuel + 1) p res = (p', res') := by
  rw [StreamParser.parseLoop, if_pos ⟨hlt, hstate⟩, hstep]

/-- A step that fails. -/
theorem parseLoop_error (hlt : p.readPos < p.accum.length) (hstate : p.state ≠ .Error)
    (hstep : p.parseStep res = (none, p', res')) :
    StreamParser.parseLoop (fuel + 1) p res =
      ({ p' with state := .Error }, { res' with hasError := true }) := by
  rw [StreamParser.parseLoop, if_pos ⟨hlt, hstate⟩, hstep]

/-- With nothing to read the loop stops. -/
theorem parseLoop_empty (hview : p.unreadView = []) :
    StreamParser.parseLoop fuel p res = (p, res) := by
  have hle : ¬p.readPos < p.accum.length := by
    rw [StreamParser.unreadView, List.drop_eq_nil_iff] at hview
    omega
  cases fuel with
  | zero => rfl
  | succ fuel => rw [StreamParser.parseLoop, if_neg fun h => hle h.1]

/-- The loop in the body of a known length. -/
theorem parseLoop_contentBody (hstate : p.state = .ContentBody) (hpos : 0 < p.contentLength) :
    StreamParser.parseLoop (fuel + 1) p res =
      if p.unreadView.length < p.contentLength then (p, res)
      else ({ p with readPos := p.readPos + p.contentLength },
        { res with data := res.data ++ p.unreadView.take p.contentLength, done := true }) := by
  have hne : p.state ≠ .Error := by simp [hstate]
  by_cases hnil : p.unreadView = []
  · rw [parseLoop_empty hnil, if_pos (by simp [hnil, hpos])]
  · have hlt : p.readPos < p.accum.length := readPos_lt hnil
    have hstep : p.parseStep res = p.parseContentBody res := by
      rw [StreamParser.parseStep, hstate]
    split_ifs with hshort
    · refine parseLoop_wait hlt hne (hstep.trans ?_)
      rw [StreamParser.parseContentBody, if_pos hpos, if_pos hshort]
    · obtain ⟨k, hk⟩ := Nat.exists_eq_succ_of_ne_zero hpos.ne'
      have hbody : p.parseContentBody res = (some (k + 1), p,
          { res with data := res.data ++ p.unreadView.take p.contentLength, done := true }) := by
        rw [StreamParser.parseContentBody, if_pos hpos, if_neg hshort, hk]
      rw [parseLoop_done hlt hne (hstep.trans hbody) rfl, hk]

/-- The complete header block in front: a length the parser takes moves it to
the body, any other is an error. -/
theorem parseHeaders_content (res : ParserResult) {n : ℕ} {headers rest : List UInt8}
    (h : ContentHeaders n headers)
    (hview : p.unreadView = headers ++ crlfcrlf ++ rest) :
    if n ≤ maxAccumulatorSize then
      ∃ res', p.parseHeaders res = (some (headers.length + 4),
          { p with contentLength := n, state := .ContentBody }, res') ∧
        res'.done = res.done ∧ res'.hasError = res.hasError ∧ res'.data = res.data
    else ∃ p' res', p.parseHeaders res = (none, p', res') := by
  have hfind : findSub crlfcrlf p.unreadView = some headers.length := by
    rw [hview]
    exact findSub_append crlfcrlf_ne_nil h.endsAtFirst
  have htake : p.unreadView.take headers.length = headers := by
    rw [hview, List.append_assoc, List.take_left]
  by_cases hn : n < 2 ^ 64
  · obtain ⟨scan, hscan, hch, hlen⟩ :=
      scanLines_contentLength {} hn h.notChunked h.contentLength (.inr h.present)
    have hnot : scan.isChunked = false := hch
    by_cases hmax : n ≤ maxAccumulatorSize
    · simp only [StreamParser.parseHeaders, hfind, htake, hscan, hnot, hlen, if_pos hmax,
        if_neg (Nat.not_lt.mpr hmax)]
      exact ⟨_, rfl, rfl, rfl, rfl⟩
    · simp only [StreamParser.parseHeaders, hfind, htake, hscan, hnot, hlen, if_neg hmax,
        if_pos (Nat.not_le.mp hmax)]
      exact ⟨_, _, rfl⟩
  · -- beyond 64 bits the number is refused before any limit is looked at
    have hbig : ¬n ≤ maxAccumulatorSize := by
      rw [maxAccumulatorSize]
      omega
    have hscan := scanLines_overflow {} hn h.notChunked h.contentLength h.present
    rw [if_neg hbig]
    simp only [StreamParser.parseHeaders, hfind, htake]
    generalize scanLines (headerLines headers) {} = out at hscan
    obtain ⟨scan, flag⟩ := out
    subst hscan
    exact ⟨_, _, rfl⟩

end Loop

/-! ## Runs -/

section Runs

variable {p : StreamParser} {n : ℕ} {chunk headers body : List UInt8}
  {pushes : List (List UInt8)}

/-- The pushes bring the rest of a response with this `body`, and its end is
reported in the push that brings its last byte: no error, not earlier, and
exactly the body delivered. -/
def ReportsEnd (p : StreamParser) (pushes : List (List UInt8)) (body : List UInt8) : Prop :=
  ∃ before last after, p.pushAll pushes = before ++ last :: after ∧ Delivers body before last ∧
    (pushes.drop before.length).flatten ≠ [] ∧ (pushes.drop (before.length + 1)).flatten = []

theorem not_reportsEnd_of_flatten (hnil : pushes.flatten = []) : ¬ReportsEnd p pushes body := by
  rintro ⟨before, last, after, -, -, hmore, -⟩
  refine hmore (List.flatten_eq_nil_iff.mpr ?_)
  intro l hl
  exact List.flatten_eq_nil_iff.mp hnil l (List.mem_of_mem_drop hl)

theorem not_reportsEnd_of_error (herr : (p.push chunk).2.hasError = true) :
    ¬ReportsEnd p (chunk :: pushes) body := by
  rintro ⟨before, last, after, hall, hdel, -, -⟩
  rw [StreamParser.pushAll] at hall
  cases before with
  | nil =>
    have hlast : (p.push chunk).2 = last := (List.cons.inj hall).1
    rw [hlast, hdel.last_ok] at herr
    cases herr
  | cons res before =>
    have hres : (p.push chunk).2 = res := (List.cons.inj hall).1
    rw [hres, (hdel.before_ok res List.mem_cons_self).2] at herr
    cases herr

/-- A push that delivers nothing. -/
theorem reportsEnd_cons_wait (hdone : (p.push chunk).2.done = false)
    (herr : (p.push chunk).2.hasError = false) (hdata : (p.push chunk).2.data = []) :
    ReportsEnd p (chunk :: pushes) body ↔ ReportsEnd (p.push chunk).1 pushes body := by
  constructor
  · rintro ⟨before, last, after, hall, hdel, hmore, hend⟩
    rw [StreamParser.pushAll] at hall
    cases before with
    | nil =>
      have hlast : (p.push chunk).2 = last := (List.cons.inj hall).1
      have := hdel.last_done
      rw [← hlast, hdone] at this
      cases this
    | cons res before =>
      obtain ⟨hres, hall⟩ := List.cons.inj hall
      refine ⟨before, last, after, hall, ⟨?_, hdel.last_done, hdel.last_ok, ?_⟩, hmore, hend⟩
      · intro r hr
        exact hdel.before_ok r (List.mem_cons_of_mem _ hr)
      · have := hdel.data
        rwa [List.flatMap_cons, ← hres, hdata, List.nil_append] at this
  · rintro ⟨before, last, after, hall, hdel, hmore, hend⟩
    refine ⟨(p.push chunk).2 :: before, last, after, ?_, ⟨?_, hdel.last_done, hdel.last_ok, ?_⟩,
      hmore, hend⟩
    · rw [StreamParser.pushAll, hall, List.cons_append]
    · intro res hres
      rcases List.mem_cons.mp hres with rfl | hres
      · exact ⟨hdone, herr⟩
      · exact hdel.before_ok res hres
    · rw [List.flatMap_cons, hdata, List.nil_append]
      exact hdel.data

/-- A push that brings the last byte and delivers the body. -/
theorem reportsEnd_of_last (hne : chunk ≠ []) (hnil : pushes.flatten = [])
    (hdone : (p.push chunk).2.done = true) (herr : (p.push chunk).2.hasError = false)
    (hdata : (p.push chunk).2.data = body) : ReportsEnd p (chunk :: pushes) body := by
  refine ⟨[], _, _, rfl, ⟨by simp, hdone, herr, hdata⟩, ?_, hnil⟩
  rw [List.length_nil, List.drop_zero, List.flatten_cons]
  exact List.append_ne_nil_of_left_ne_nil hne _

/-- `push` beyond the limit of the accumulator. -/
theorem push_too_large (hstate : p.state ≠ .Error) (hne : chunk ≠ [])
    (hfull : ¬p.accum.length + chunk.length ≤ maxAccumulatorSize) :
    (p.push chunk).2.hasError = true := by
  rw [StreamParser.push, if_neg hstate, if_neg hne, if_pos (Nat.not_le.mp hfull)]

/-- A parser whose accumulator need not be compacted stays as it is. -/
theorem compactIfNeeded_of_compact (h : Compact p) : p.compactIfNeeded = p := by
  obtain ⟨hpos, hlen⟩ := h
  have hview : p.unreadView.length = p.accum.length - p.readPos := List.length_drop
  rw [ReadPosOk] at hpos
  rw [StreamParser.compactIfNeeded, if_neg]
  omega

/-- A push in the body: the parser waits or delivers. -/
theorem push_inBody (hstate : p.state = .ContentBody) (hpos : 0 < p.contentLength)
    (hcompact : Compact p) (hne : chunk ≠ [])
    (hroom : p.accum.length + chunk.length ≤ maxAccumulatorSize) :
    if (p.unreadView ++ chunk).length < p.contentLength then
      p.push chunk = ({ p with accum := p.accum ++ chunk }, {}) ∧
        Compact { p with accum := p.accum ++ chunk }
    else (p.push chunk).2 =
      { data := (p.unreadView ++ chunk).take p.contentLength, done := true } := by
  have hview := unreadView_push hcompact.readPosOk chunk
  have hfuel : ∃ fuel, { p with accum := p.accum ++ chunk }.unreadView.length = fuel + 1 := by
    refine Nat.exists_eq_succ_of_ne_zero ?_
    rw [hview, List.length_append]
    have := List.length_pos_of_ne_nil hne
    omega
  obtain ⟨fuel, hfuel⟩ := hfuel
  have hpush := push_eq (by simp [hstate]) hne hroom
  simp only [hfuel] at hpush
  rw [parseLoop_contentBody (by exact hstate) (by exact hpos), hview] at hpush
  split_ifs with hwait
  · have hcompact' : Compact { p with accum := p.accum ++ chunk } := by
      refine ⟨readPosOk_push hcompact.readPosOk chunk, ?_⟩
      have := hcompact.length_le
      rw [hview]
      simp only [List.length_append]
      omega
    rw [if_pos (by exact hwait), compactIfNeeded_of_compact hcompact'] at hpush
    exact ⟨hpush, hcompact'⟩
  · rw [if_neg (by exact hwait)] at hpush
    rw [hpush]
    rfl

/-- **The body.** Read bytes are never dropped while the body is awaited, so the
rest of it has to fit behind them. -/
theorem reportsEnd_inBody_iff (hstate : p.state = .ContentBody)
    (hlen : p.contentLength = body.length) (hcompact : Compact p)
    (hshort : p.unreadView.length < body.length)
    (hrest : p.unreadView ++ pushes.flatten = body) :
    ReportsEnd p pushes body ↔ p.accum.length + pushes.flatten.length ≤ maxAccumulatorSize := by
  induction pushes generalizing p with
  | nil =>
    rw [List.flatten_nil, List.append_nil] at hrest
    rw [hrest] at hshort
    exact absurd hshort (Nat.lt_irrefl _)
  | cons chunk pushes ih =>
    have herr : p.state ≠ .Error := by simp [hstate]
    rw [List.flatten_cons] at hrest ⊢
    rw [List.length_append]
    by_cases hne : chunk = []
    · have hpush : p.push chunk = (p, {}) := by rw [hne, push_nil herr]
      rw [reportsEnd_cons_wait (by rw [hpush]) (by rw [hpush]) (by rw [hpush]), hpush]
      rw [hne, List.nil_append] at hrest
      rw [ih hstate hlen hcompact hshort hrest, hne, List.length_nil, Nat.zero_add]
    -- over the limit the push is an error; within it the parser waits or delivers
    by_cases hroom : p.accum.length + chunk.length ≤ maxAccumulatorSize
    · have hpush := push_inBody hstate (by omega) hcompact hne hroom
      rw [← List.append_assoc] at hrest
      split_ifs at hpush with hwait
      · obtain ⟨hpush, hcompact'⟩ := hpush
        rw [hlen] at hwait
        rw [reportsEnd_cons_wait (by rw [hpush]) (by rw [hpush]) (by rw [hpush]), hpush]
        have hview := unreadView_push hcompact.readPosOk chunk
        rw [ih (p := { p with accum := p.accum ++ chunk }) hstate hlen hcompact'
          (by rwa [hview]) (by rwa [hview]), List.length_append]
        omega
      · have hlens := congrArg List.length hrest
        rw [List.length_append] at hlens
        have hnil : pushes.flatten = [] := List.length_eq_zero_iff.mp (by omega)
        rw [hnil, List.append_nil] at hrest
        refine iff_of_true (reportsEnd_of_last hne hnil ?_ ?_ ?_) ?_
        · rw [hpush]
        · rw [hpush]
        · rw [hpush, hrest, hlen]
          exact List.take_length
        · rw [hnil, List.length_nil]
          omega
    · exact iff_of_false (not_reportsEnd_of_error (push_too_large herr hne hroom)) (by omega)

/-! ## The header block -/

/-- The sizes the parser takes, when `got` bytes of the response have arrived and
the header block with its blank line is `headerLen` bytes long: an incomplete
header block is at most `maxHeaderSize` bytes; what has arrived with the push
that completes it fits the accumulator, and so does the body; header block and
body have to fit together unless more than half of what has arrived by then is
header block, which is dropped in that case. -/
def WithinLimits (headerLen n : ℕ) : ℕ → List (List UInt8) → Prop
  | _, [] => True
  | got, chunk :: pushes =>
    if got + chunk.length < headerLen then
      got + chunk.length ≤ maxHeaderSize ∧ WithinLimits headerLen n (got + chunk.length) pushes
    else got + chunk.length ≤ maxAccumulatorSize ∧ n ≤ maxAccumulatorSize ∧
      (2 * headerLen ≤ got + chunk.length → headerLen + n ≤ maxAccumulatorSize)

/-- The parser is in the middle of the header block. -/
structure InHeaders (p : StreamParser) : Prop where
  state : p.state = .Headers
  readPos : p.readPos = 0

theorem InHeaders.unreadView (h : InHeaders p) : p.unreadView = p.accum := by
  rw [StreamParser.unreadView, h.readPos, List.drop_zero]

theorem InHeaders.compactIfNeeded (h : InHeaders p) : p.compactIfNeeded = p := by
  rw [StreamParser.compactIfNeeded, if_neg]
  rw [h.readPos]
  omega

/-- A push that does not complete the header block. -/
theorem push_inHeaders (h : InHeaders p) (hne : chunk ≠ [])
    (hfind : findSub crlfcrlf (p.accum ++ chunk) = none) :
    if p.accum.length + chunk.length ≤ maxHeaderSize then
      p.push chunk = ({ p with accum := p.accum ++ chunk }, {})
    else (p.push chunk).2.hasError = true := by
  have herr : p.state ≠ .Error := by simp [h.state]
  by_cases hroom : p.accum.length + chunk.length ≤ maxAccumulatorSize
  · have h' : InHeaders { p with accum := p.accum ++ chunk } := ⟨h.state, h.readPos⟩
    have hlt : { p with accum := p.accum ++ chunk }.readPos <
        { p with accum := p.accum ++ chunk }.accum.length := by
      have := List.length_pos_of_ne_nil hne
      rw [h'.readPos, List.length_append]
      omega
    have hview := h'.unreadView
    have hlen : (p.accum ++ chunk).length = p.accum.length + chunk.length := List.length_append
    have hpush := push_eq herr hne hroom
    obtain ⟨fuel, hfuel⟩ := Nat.exists_eq_succ_of_ne_zero (n := (p.accum ++ chunk).length)
      (by have := List.length_pos_of_ne_nil hne; omega)
    simp only [hview, hfuel] at hpush
    have hstep : { p with accum := p.accum ++ chunk }.parseStep {} =
        { p with accum := p.accum ++ chunk }.parseHeaders {} := by
      rw [StreamParser.parseStep, h'.state]
    rw [StreamParser.parseHeaders, hview, hfind] at hstep
    -- without a blank line the step waits, up to the header limit
    split_ifs with hwait
    · simp only [if_neg (Nat.not_lt.mpr (hlen.trans_le hwait))] at hstep
      rw [parseLoop_wait hlt (by rw [h'.state]; simp) hstep, h'.compactIfNeeded] at hpush
      exact hpush
    · simp only [if_pos (Nat.not_le.mp (hlen ▸ hwait))] at hstep
      rw [parseLoop_error hlt (by rw [h'.state]; simp) hstep] at hpush
      rw [hpush]
  · rw [if_neg]
    · exact push_too_large herr hne hroom
    · rw [maxHeaderSize]
      rw [maxAccumulatorSize] at hroom
      omega

/-- The header block of `headerLen` bytes is read and a body of `n` bytes awaited,
of which `rest` has arrived. -/
structure AtBody (headerLen n : ℕ) (rest : List UInt8) (q : StreamParser) : Prop where
  state : q.state = .ContentBody
  contentLength : q.contentLength = n
  view : q.unreadView = rest
  readPos : q.readPos = headerLen
  length : q.accum.length = headerLen + rest.length

theorem AtBody.readPosOk {headerLen : ℕ} {rest : List UInt8} (h : AtBody headerLen n rest p) :
    ReadPosOk p := by
  rw [ReadPosOk, h.readPos, h.length]
  exact Nat.le_add_right _ _

/-- The body behind the header block: compaction drops the header block if that is
more than half of what is there. -/
theorem AtBody.reportsEnd_iff {headerLen : ℕ} {rest : List UInt8}
    (h : AtBody headerLen body.length rest p) (hshort : rest.length < body.length)
    (hmax : body.length ≤ maxAccumulatorSize) (hrest : rest ++ pushes.flatten = body) :
    ReportsEnd p.compactIfNeeded pushes body ↔
      (headerLen ≤ rest.length → headerLen + body.length ≤ maxAccumulatorSize) := by
  obtain ⟨hview, hstate, -⟩ := compactIfNeeded_frame p
  have hlen : p.compactIfNeeded.contentLength = body.length := by
    rw [StreamParser.compactIfNeeded]
    split_ifs
    · exact h.contentLength
    · exact h.contentLength
  have hbody := congrArg List.length hrest
  rw [List.length_append] at hbody
  rw [h.view] at hview
  rw [reportsEnd_inBody_iff (hstate.trans h.state) hlen (compactIfNeeded_compact h.readPosOk)
    (by rwa [hview]) (by rwa [hview])]
  have hread := h.readPos
  have haccum := h.length
  rw [StreamParser.compactIfNeeded]
  split_ifs with hdrop
  · simp only [h.view]
    omega
  · rw [haccum]
    omega

/-- A push that completes the header block. -/
theorem push_headers {rest : List UInt8} (h : InHeaders p) (hch : ContentHeaders n headers)
    (hne : chunk ≠ []) (hroom : p.accum.length + chunk.length ≤ maxAccumulatorSize)
    (hall : p.accum ++ chunk = headers ++ crlfcrlf ++ rest) :
    if n ≤ maxAccumulatorSize then
      ∃ fuel q res, AtBody (headers ++ crlfcrlf).length n rest q ∧
        res.done = false ∧ res.hasError = false ∧ res.data = [] ∧
        p.push chunk =
          ((StreamParser.parseLoop (fuel + 1) q res).1.compactIfNeeded,
            (StreamParser.parseLoop (fuel + 1) q res).2)
    else (p.push chunk).2.hasError = true := by
  have h' : InHeaders { p with accum := p.accum ++ chunk } := ⟨h.state, h.readPos⟩
  have hview : { p with accum := p.accum ++ chunk }.unreadView = headers ++ crlfcrlf ++ rest :=
    h'.unreadView.trans hall
  have hlen : 2 ≤ (p.accum ++ chunk).length := by
    rw [hall]
    simp [crlfcrlf, crlf]
    omega
  have hlt : { p with accum := p.accum ++ chunk }.readPos <
      { p with accum := p.accum ++ chunk }.accum.length := by
    rw [h'.readPos]
    exact Nat.lt_of_lt_of_le Nat.two_pos hlen
  have hne' : { p with accum := p.accum ++ chunk }.state ≠ .Error := by
    rw [h'.state]
    simp
  have hpush := push_eq (by simp [h.state]) hne hroom
  obtain ⟨fuel, hfuel⟩ := Nat.exists_eq_add_of_le' hlen
  simp only [h'.unreadView, hfuel] at hpush
  have hstep : { p with accum := p.accum ++ chunk }.parseStep {} =
      { p with accum := p.accum ++ chunk }.parseHeaders {} := by
    rw [StreamParser.parseStep, h'.state]
  -- the first step reads the header block, the loop goes on with the body
  have hout := parseHeaders_content {} hch hview
  split_ifs at hout ⊢ with hmax
  · obtain ⟨res, hheaders, hdone, herr, hdata⟩ := hout
    have hH : headers.length + 4 = (headers ++ crlfcrlf).length := by simp [crlfcrlf, crlf]
    rw [parseLoop_go hlt hne' (hstep.trans hheaders) hdone] at hpush
    simp only [h.readPos, Nat.zero_add] at hpush
    refine ⟨fuel, _, res, ⟨rfl, rfl, ?_, hH, ?_⟩, hdone, herr, hdata, hpush⟩
    · rw [StreamParser.unreadView, hall]
      exact List.drop_left' hH.symm
    · rw [hall, List.length_append]
  · obtain ⟨p', res, hheaders⟩ := hout
    rw [parseLoop_error hlt hne' (hstep.trans hheaders)] at hpush
    rw [hpush]

/-- The push that completes the header block, and the pushes behind it. -/
theorem reportsEnd_headers_iff {rest : List UInt8} (h : InHeaders p)
    (hch : ContentHeaders body.length headers) (hne : chunk ≠ [])
    (hall : p.accum ++ chunk = headers ++ crlfcrlf ++ rest)
    (hrest : rest ++ pushes.flatten = body) :
    ReportsEnd p (chunk :: pushes) body ↔ 0 < body.length ∧
      (p.accum.length + chunk.length ≤ maxAccumulatorSize ∧ body.length ≤ maxAccumulatorSize ∧
        (2 * (headers ++ crlfcrlf).length ≤ p.accum.length + chunk.length →
          (headers ++ crlfcrlf).length + body.length ≤ maxAccumulatorSize)) := by
  by_cases hroom : p.accum.length + chunk.length ≤ maxAccumulatorSize
  swap
  · refine iff_of_false (not_reportsEnd_of_error (push_too_large ?_ hne hroom)) (by tauto)
    simp [h.state]
  have hpush := push_headers h hch hne hroom hall
  split_ifs at hpush with hmax
  swap
  · exact iff_of_false (not_reportsEnd_of_error hpush) (by tauto)
  obtain ⟨fuel, q, res, hat, hdone, herr, hdata, hpush⟩ := hpush
  have hlens : p.accum.length + chunk.length = (headers ++ crlfcrlf).length + rest.length := by
    rw [← List.length_append, hall, List.length_append]
  have hbody := congrArg List.length hrest
  rw [List.length_append] at hbody
  rcases Nat.eq_zero_or_pos body.length with hzero | hbpos
  · -- the parser has no way to tell this length from none at all
    refine iff_of_false ?_ (by omega)
    have hnil : pushes.flatten = [] := List.length_eq_zero_iff.mp (by omega)
    have hvnil : q.unreadView = [] := by
      rw [hat.view]
      exact List.length_eq_zero_iff.mp (by omega)
    simp only [parseLoop_empty hvnil] at hpush
    rw [reportsEnd_cons_wait (by rw [hpush, hdone]) (by rw [hpush, herr]) (by rw [hpush, hdata])]
    exact not_reportsEnd_of_flatten hnil
  simp only [parseLoop_contentBody hat.state (hat.contentLength ▸ hbpos), hat.contentLength,
    hat.view] at hpush
  split_ifs at hpush with hwait
  · rw [reportsEnd_cons_wait (by rw [hpush, hdone]) (by rw [hpush, herr]) (by rw [hpush, hdata]),
      hpush, hat.reportsEnd_iff hwait hmax hrest]
    omega
  · have hnil : pushes.flatten = [] := List.length_eq_zero_iff.mp (by omega)
    rw [hnil, List.append_nil] at hrest
    refine iff_of_true (reportsEnd_of_last hne hnil ?_ ?_ ?_) ?_
    · rw [hpush]
    · rw [hpush]
      exact herr
    · rw [hpush, hrest, hdata, List.nil_append]
      exact List.take_length
    · rw [hnil, List.length_nil] at hbody
      omega

/-- **The header block.** What has arrived of it stays in the accumulator. -/
theorem reportsEnd_inHeaders_iff (h : InHeaders p) (hch : ContentHeaders body.length headers)
    (hgot : p.accum.length ≤ maxHeaderSize)
    (hshort : p.accum.length < (headers ++ crlfcrlf).length)
    (hrest : p.accum ++ pushes.flatten = headers ++ crlfcrlf ++ body) :
    ReportsEnd p pushes body ↔ 0 < body.length ∧
      WithinLimits (headers ++ crlfcrlf).length body.length p.accum.length pushes := by
  induction pushes generalizing p with
  | nil =>
    have := later_ne_nil hshort hrest
    exact absurd rfl this
  | cons chunk pushes ih =>
    have herr : p.state ≠ .Error := by simp [h.state]
    rw [List.flatten_cons] at hrest
    rw [WithinLimits]
    by_cases hne : chunk = []
    · have hpush : p.push chunk = (p, {}) := by rw [hne, push_nil herr]
      rw [reportsEnd_cons_wait (by rw [hpush]) (by rw [hpush]) (by rw [hpush]), hpush]
      rw [hne, List.nil_append] at hrest
      rw [ih h hgot hshort hrest, hne, List.length_nil, Nat.add_zero, if_pos hshort]
      tauto
    rw [← List.append_assoc] at hrest
    have hlength : (p.accum ++ chunk).length = p.accum.length + chunk.length := List.length_append
    -- the block is still incomplete, or this push completes it
    rcases search_arrived crlfcrlf_ne_nil hch.endsAtFirst hrest with
      ⟨hnone, hlen, -⟩ | ⟨rest, hall, hbody⟩
    · rw [if_pos (hlength ▸ hlen)]
      have hpush := push_inHeaders h hne hnone
      split_ifs at hpush with hwait
      · have hnext := ih (p := { p with accum := p.accum ++ chunk }) ⟨h.state, h.readPos⟩
          (hlength.trans_le hwait) hlen hrest
        simp only [hlength] at hnext
        rw [reportsEnd_cons_wait (by rw [hpush]) (by rw [hpush]) (by rw [hpush]), hpush, hnext]
        tauto
      · exact iff_of_false (not_reportsEnd_of_error hpush) (by tauto)
    · rw [hall, List.length_append] at hlength
      rw [if_neg (by omega)]
      exact reportsEnd_headers_iff h hch hne hall hbody

/-- **Any segmentation.** A response with a body of `n` bytes, cut into pushes in
any way, is reported as ended in the push that brings its last byte, with exactly
its body delivered, just when the body is not empty and the pushes keep to the
limits. -/
theorem content_length_reported_iff (hch : ContentHeaders body.length headers)
    (hpushes : pushes.flatten = headers ++ crlfcrlf ++ body) :
    ReportsEnd {} pushes body ↔ 0 < body.length ∧
      WithinLimits (headers ++ crlfcrlf).length body.length 0 pushes := by
  refine reportsEnd_inHeaders_iff (p := {}) ⟨rfl, rfl⟩ hch (Nat.zero_le _) ?_ hpushes
  simp [crlfcrlf, crlf]

end Runs

/-- The header block of a response with the body `hello`. -/
theorem helloHeaders_ok :
    ContentHeaders (ascii "hello").length (ascii "HTTP/1.1 200 OK\r\nContent-Length: 5") := by
  refine ⟨by unfold EndsAtFirst; decide, by unfold AnnouncesChunked; decide,
    by decide, ?_⟩
  intro line hline hname
  refine ⟨hname, ascii " ", ascii "5", [], ?_, by decide +kernel, by simp, by decide,
    by decide +kernel, by decide⟩
  revert line
  decide

theorem content_length_reported_hello :
    ReportsEnd {} [ascii "HTTP/1.1 200 OK\r\nContent-", ascii "Length: 5\r\n\r\nhe", [],
      ascii "llo", []] (ascii "hello") :=
  (content_length_reported_iff helloHeaders_ok (by decide)).mpr
    ⟨by decide, by simp only [WithinLimits]; decide⟩

/-- The end of an empty body is not reported. -/
theorem empty_body_not_reported :
    ¬∀ (headers body : List UInt8) (pushes : List (List UInt8)),
      ContentHeaders body.length headers → pushes.flatten = headers ++ crlfcrlf ++ body →
      WithinLimits (headers ++ crlfcrlf).length body.length 0 pushes →
      ReportsEnd {} pushes body := by
  intro h
  have hch : ContentHeaders ([] : List UInt8).length
      (ascii "HTTP/1.1 200 OK\r\nContent-Length: 0") := by
    refine ⟨by unfold EndsAtFirst; decide, by unfold AnnouncesChunked; decide,
      by decide, ?_⟩
    intro line hline hname
    refine ⟨hname, ascii " ", ascii "0", [], ?_, by decide +kernel, by simp, by decide,
      by decide +kernel, by decide⟩
    revert line
    decide
  have hend := h _ [] [ascii "HTTP/1.1 200 OK\r\nContent-Length: 0\r\n\r\n"] hch
    (by decide) (by simp only [WithinLimits]; decide)
  rw [reportsEnd_cons_wait (by decide) (by decide) (by decide)] at hend
  exact not_reportsEnd_of_flatten rfl hend

end Ranvier
