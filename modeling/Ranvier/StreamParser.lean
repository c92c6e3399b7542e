import Ranvier.Bytes

/-!
# The streaming response parser

Backend bytes arrive in pieces of any size; `push` appends a piece to the
accumulator, parses as far as it can and returns the body bytes that became
available. Read bytes stay in the accumulator until `compactIfNeeded` drops them.

The parser's step functions return what they consumed: `none` for an error,
`some 0` when they need more data.
-/

namespace Ranvier

/-! ## Text -/

/-- The bytes of a literal. -/
def ascii (s : String) : List UInt8 := s.toList.map fun c => c.toNat.toUInt8

/-- `"\r\n"`. -/
def crlf : List UInt8 := [13, 10]

/-- `"\r\n\r\n"`. -/
def crlfcrlf : List UInt8 := crlf ++ crlf

/-- `std::tolower` on a byte. -/
def toLowerByte (b : UInt8) : UInt8 := if 65 ≤ b ∧ b ≤ 90 then b + 32 else b

/-- `icase_starts_with`; the needle is lower case. -/
def icaseStartsWith (haystack needle : List UInt8) : Bool :=
  needle.isPrefixOf (haystack.map toLowerByte)

/-- `icase_contains`; the needle is lower case. -/
def icaseContains (haystack needle : List UInt8) : Bool :=
  (findSub needle (haystack.map toLowerByte)).isSome

/-! ## State -/

/-- `StreamParserConfig::max_header_size`. -/
def maxHeaderSize : ℕ := 16 * 1024

/-- `StreamParserConfig::max_chunk_size`. -/
def maxChunkSize : ℕ := 1024 * 1024

/-- `StreamParserConfig::max_accumulator_size`. -/
def maxAccumulatorSize : ℕ := 1024 * 1024

/-- `StreamParser::State`. -/
inductive ParserState : Type where
  | Headers
  | ChunkSize
  | ChunkData
  | ContentBody
  | Error
  deriving DecidableEq, Repr

/-- `StreamParser`. -/
structure StreamParser : Type where
  state : ParserState := .Headers
  accum : List UInt8 := []
  readPos : ℕ := 0
  chunkBytesNeeded : ℕ := 0
  contentLength : ℕ := 0
  deriving DecidableEq, Repr

/-- `StreamParser::Result`. -/
structure ParserResult : Type where
  data : List UInt8 := []
  headerSnoopSuccess : Bool := false
  backendStatusCode : ℕ := 0
  done : Bool := false
  hasError : Bool := false
  connectionClose : Bool := false
  errorMessage : String := ""
  deriving DecidableEq, Repr

/-- What a parsing step returns. -/
abbrev ParseStep : Type := Option ℕ × StreamParser × ParserResult

namespace StreamParser

/-- `unread_view`. -/
def unreadView (p : StreamParser) : List UInt8 := p.accum.drop p.readPos

/-- `compact_if_needed`: once more than half of the accumulator is read, drop
that part. -/
def compactIfNeeded (p : StreamParser) : StreamParser :=
  if 0 < p.readPos ∧ 0 < p.accum.length ∧ p.accum.length < 2 * p.readPos then
    { p with accum := p.unreadView, readPos := 0 }
  else p

end StreamParser

/-! ## Headers -/

/-- The code in the status line, zero unless it is well formed. -/
def statusCode (headers : List UInt8) : ℕ :=
  let statusLine := headers.take ((findSub crlf headers).getD headers.length)
  match findSub [32] statusLine with
  | some sp =>
    if sp + 1 < statusLine.length then
      match fromChars 10 (2 ^ 31) (statusLine.drop (sp + 1)) with
      | some (code, _) => if 100 ≤ code ∧ code ≤ 599 then code else 0
      | none => 0
    else 0
  | none => 0

/-- The lines of the header block; `fuel` bounds their number. -/
def headerLinesFuel : ℕ → List UInt8 → List (List UInt8)
  | 0, _ => []
  | _ + 1, [] => []
  | fuel + 1, b :: l =>
    match findSub crlf (b :: l) with
    | none => [b :: l]
    | some lineEnd => (b :: l).take lineEnd :: headerLinesFuel fuel ((b :: l).drop (lineEnd + 2))

/-- The lines of the header block. -/
def headerLines (headers : List UInt8) : List (List UInt8) :=
  headerLinesFuel headers.length headers

/-- What the scan of the header lines collects. -/
structure HeaderScan : Type where
  isChunked : Bool := false
  sawConnectionClose : Bool := false
  sawConnectionKeepalive : Bool := false
  contentLength : ℕ := 0
  deriving DecidableEq, Repr

/-- `"transfer-encoding:"`. -/
def kTransferEncoding : List UInt8 := ascii "transfer-encoding:"

/-- `"connection:"`. -/
def kConnection : List UInt8 := ascii "connection:"

/-- `"content-length:"`. -/
def kContentLength : List UInt8 := ascii "content-length:"

/-- The number in a Content-Length line, if the whole value is one. -/
def contentLengthOf (line : List UInt8) : Option ℕ :=
  match fromChars 10 (2 ^ 64) (trim (line.drop kContentLength.length)) with
  | some (n, []) => some n
  | _ => none

/-- One line of the scan; the flag is false for an invalid Content-Length. -/
def scanLine (line : List UInt8) (scan : HeaderScan) : HeaderScan × Bool :=
  if icaseStartsWith line kTransferEncoding then
    if icaseContains (line.drop kTransferEncoding.length) (ascii "chunked") then
      ({ scan with isChunked := true }, true)
    else (scan, true)
  else if icaseStartsWith line kConnection then
    let val := line.drop kConnection.length
    ({ scan with
       sawConnectionClose := scan.sawConnectionClose || icaseContains val (ascii "close")
       sawConnectionKeepalive :=
         scan.sawConnectionKeepalive || icaseContains val (ascii "keep-alive") }, true)
  else if icaseStartsWith line kContentLength then
    match contentLengthOf line with
    | some n => ({ scan with contentLength := n }, true)
    | none => (scan, false)
  else (scan, true)

/-- The scan, up to the first invalid line. -/
def scanLines : List (List UInt8) → HeaderScan → HeaderScan × Bool
  | [], scan => (scan, true)
  | line :: lines, scan =>
    match scanLine line scan with
    | (scan, true) => scanLines lines scan
    | (scan, false) => (scan, false)

/-- `res.connection_close`. -/
def connectionCloses (headers : List UInt8) (scan : HeaderScan) : Bool :=
  scan.sawConnectionClose ||
    (icaseStartsWith headers (ascii "http/1.0") && !scan.sawConnectionKeepalive)

namespace StreamParser

/-- `parse_headers`. -/
def parseHeaders (p : StreamParser) (res : ParserResult) : ParseStep :=
  let view := p.unreadView
  match findSub crlfcrlf view with
  | none =>
    if maxHeaderSize < view.length then
      (none, p, { res with errorMessage := "Headers exceed maximum size" })
    else (some 0, p, res)
  | some headerEnd =>
    let headers := view.take headerEnd
    let code := statusCode headers
    let code := if code = 0 then res.backendStatusCode else code
    let res := { res with backendStatusCode := code, headerSnoopSuccess := code = 200 }
    match scanLines (headerLines headers) {} with
    | (scan, false) =>
      (none, { p with contentLength := scan.contentLength },
        { res with errorMessage := "Invalid Content-Length header" })
    | (scan, true) =>
      let p := { p with contentLength := scan.contentLength }
      let res := { res with
        connectionClose := res.connectionClose || connectionCloses headers scan }
      if scan.isChunked then (some (headerEnd + 4), { p with state := .ChunkSize }, res)
      else if maxAccumulatorSize < scan.contentLength then
        (none, p, { res with errorMessage := "Content-Length exceeds maximum" })
      else (some (headerEnd + 4), { p with state := .ContentBody }, res)

/-! ## Body -/

end StreamParser

/-- The number in a chunk-size line: extensions are ignored, blanks trimmed, an
empty line counts as zero. -/
def readChunkSize (line : List UInt8) : Option ℕ :=
  let sizeStr := trim (line.takeWhile fun b => b ≠ 59)
  match fromChars 16 (2 ^ 64) sizeStr with
  | some (n, []) => some n
  | _ => if sizeStr = [] then some 0 else none

namespace StreamParser

/-- `parse_chunk_size`. -/
def parseChunkSize (p : StreamParser) (res : ParserResult) : ParseStep :=
  let view := p.unreadView
  match findSub crlf view with
  | none =>
    if 32 < view.length then
      (none, p, { res with errorMessage := "Chunk size line too long" })
    else (some 0, p, res)
  | some lineEnd =>
    match readChunkSize (view.take lineEnd) with
    | none => (none, p, { res with errorMessage := "Invalid chunk size encoding" })
    | some chunkSize =>
      if maxChunkSize < chunkSize then
        (none, p, { res with errorMessage := "Chunk size exceeds maximum" })
      else if chunkSize = 0 then (some (lineEnd + 2), p, { res with done := true })
      else
        (some (lineEnd + 2), { p with chunkBytesNeeded := chunkSize, state := .ChunkData }, res)

/-- `parse_chunk_data`: the two bytes behind the data are not looked at. -/
def parseChunkData (p : StreamParser) (res : ParserResult) : ParseStep :=
  let view := p.unreadView
  let needed := p.chunkBytesNeeded + 2
  if view.length < needed then (some 0, p, res)
  else
    (some needed, { p with chunkBytesNeeded := 0, state := .ChunkSize },
      { res with data := res.data ++ view.take p.chunkBytesNeeded })

/-- `parse_content_body`. -/
def parseContentBody (p : StreamParser) (res : ParserResult) : ParseStep :=
  let view := p.unreadView
  if 0 < p.contentLength then
    if view.length < p.contentLength then (some 0, p, res)
    else
      (some p.contentLength, p,
        { res with data := res.data ++ view.take p.contentLength, done := true })
  else (some view.length, p, { res with data := res.data ++ view })

/-- The `switch` in the parse loop. -/
def parseStep (p : StreamParser) (res : ParserResult) : ParseStep :=
  match p.state with
  | .Headers => p.parseHeaders res
  | .ChunkSize => p.parseChunkSize res
  | .ChunkData => p.parseChunkData res
  | .ContentBody => p.parseContentBody res
  | .Error => (some 0, p, res)

/-- The parse loop. Every turn that goes on consumes a byte, so the number of
unread bytes bounds the turns. -/
def parseLoop : ℕ → StreamParser → ParserResult → StreamParser × ParserResult
  | 0, p, res => (p, res)
  | fuel + 1, p, res =>
    if p.readPos < p.accum.length ∧ p.state ≠ .Error then
      match p.parseStep res with
      | (none, p, res) => ({ p with state := .Error }, { res with hasError := true })
      | (some 0, p, res) => (p, res)
      | (some (n + 1), p, res) =>
        let p := { p with readPos := p.readPos + (n + 1) }
        if res.done then (p, res) else parseLoop fuel p res
    else (p, res)

/-- `push`. -/
def push (p : StreamParser) (chunk : List UInt8) : StreamParser × ParserResult :=
  if p.state = .Error then
    (p, { hasError := true, errorMessage := "Parser in error state" })
  else if chunk = [] then (p, {})
  else if maxAccumulatorSize < p.accum.length + chunk.length then
    ({ p with state := .Error }, { hasError := true, errorMessage := "Request too large" })
  else
    let p := { p with accum := p.accum ++ chunk }
    let r := parseLoop p.unreadView.length p {}
    (r.1.compactIfNeeded, r.2)

/-- The results of pushes one after another. -/
def pushAll (p : StreamParser) : List (List UInt8) → List ParserResult
  | [] => []
  | chunk :: chunks => (p.push chunk).2 :: (p.push chunk).1.pushAll chunks

end StreamParser

end Ranvier
