import Mathlib.Algebra.Group.Int.Defs
import Ranvier.ChunkedBody
import Ranvier.PrefixHash
import Ranvier.RequestText
import Ranvier.Strip

/-!
# The alignment probe

The native index answers for a request only if the router hashes the tokens the backend
stores. The probe posts a fixed conversation to the `/tokenize` of a backend, reads the answer
to its end and compares the tokens in it with the router's own, as far as routing hashes them.

* `parseHttpResponse`, `parseTokenizeResponse` — the answer;
* `routingPrefixTokens`, `classify`, `classifyResponse` — the verdict;
* `postTokenize`, `probe` — the exchange;
* `Answer` — the answers that are well formed, with their content;
* `probe_judges` — a well-formed answer is judged by its content however it is delimited and
  however it arrives, and one that is cut short is not judged;
* `aligned_iff_keys` — the verdict says whether the routing keys agree.

The JSON parser is taken as given.
-/

namespace Ranvier

namespace AlignmentProbe

/-! ## The response -/

/-- `HttpResponse`. -/
structure HttpResponse : Type where
  status : ℕ := 0
  body : List UInt8 := []
  deriving DecidableEq, Repr

/-- `detail::iequals`. -/
def iequals (a b : List UInt8) : Bool :=
  a.length = b.length && a.map toLowerByte = b.map toLowerByte

/-- The number in the status line. A minus sign, which `from_chars` would take for an `int`, is
refused here already; the code refuses the number. -/
def statusOf (statusLine : List UInt8) : Option ℕ :=
  if statusLine.take 5 ≠ ascii "HTTP/" then none
  else
    match findSub [32] statusLine with
    | none => none
    | some sp =>
      if statusLine.length < sp + 4 then none
      else
        match fromChars 10 (2 ^ 31) ((statusLine.drop (sp + 1)).take 3) with
        | some (status, []) => if status < 100 ∨ 599 < status then none else some status
        | _ => none

/-- What the header lines say about the body. -/
structure Framing : Type where
  chunked : Bool := false
  contentLength : Option ℕ := none
  deriving DecidableEq, Repr

/-- What stands behind the last comma. -/
def finalCoding (value : List UInt8) : List UInt8 :=
  trim (value.reverse.takeWhile fun b => b ≠ 44).reverse

/-- A turn of the header loop. -/
def scanHeader (f : Framing) (line : List UInt8) : Option Framing :=
  match findSub [58] line with
  | none => some f
  | some colon =>
    let name := trim (line.take colon)
    let value := trim (line.drop (colon + 1))
    if iequals name (ascii "transfer-encoding") then
      some { f with chunked := iequals (finalCoding value) (ascii "chunked") }
    else if iequals name (ascii "content-length") then
      match fromChars 10 (2 ^ 64) value with
      | some (n, []) => some { f with contentLength := some n }
      | _ => none
    else some f

/-- The body, as the headers delimit it. -/
def bodyOf (f : Framing) (wire : List UInt8) : Option (List UInt8) :=
  if f.chunked then dechunk wire
  else
    match f.contentLength with
    | some n => if wire.length < n then none else some (wire.take n)
    | none => some wire

/-- `parse_http_response`. -/
def parseHttpResponse (raw : List UInt8) : Option HttpResponse :=
  match findSub crlfcrlf raw with
  | none => none
  | some headerEnd =>
    let head := raw.take headerEnd
    let lineEnd := findSub crlf head
    let statusLine := match lineEnd with
      | none => head
      | some lineEnd => head.take lineEnd
    let headers := match lineEnd with
      | none => []
      | some lineEnd => head.drop (lineEnd + 2)
    match statusOf statusLine with
    | none => none
    | some status =>
      match (headerLines headers).foldlM scanHeader {} with
      | none => none
      | some f =>
        match bodyOf f (raw.drop (headerEnd + 4)) with
        | none => none
        | some body => some { status := status, body := body }

/-! ## The tokens -/

/-- `kMaxProbeTokens`. -/
def kMaxProbeTokens : ℕ := 8192

/-- An element of `tokens`: `IsInt64`, and within the non-negative 32-bit numbers. -/
def readId : JsonValue → Option TokenId
  | .int id =>
    if -2 ^ 63 ≤ id ∧ id < 2 ^ 63 then
      if id < 0 ∨ 2147483647 < id then none else some (Int32.ofInt id)
    else none
  | _ => none

/-- `parse_tokenize_response`. -/
def parseTokenizeResponse (parse : List UInt8 → Option JsonValue) (body : List UInt8) :
    Option (List TokenId) :=
  match parse body with
  | none => none
  | some doc =>
    match doc.arrayMember "tokens" with
    | none => none
    | some ids => if ids.isEmpty ∨ kMaxProbeTokens < ids.length then none else ids.mapM readId

/-! ## The verdict -/

/-- `Verdict`. -/
inductive Verdict : Type where
  | ALIGNED
  | MISALIGNED
  | UNSUPPORTED
  | FAILED
  deriving DecidableEq, Repr

/-- `Result`; an id of minus one is past the end. -/
structure Result : Type where
  verdict : Verdict := .FAILED
  routingPrefix : ℕ := 0
  firstDivergence : ℕ := 0
  ranvierId : ℤ := -1
  backendId : ℤ := -1
  backendTokens : ℕ := 0
  httpStatus : ℕ := 0
  deriving DecidableEq, Repr

/-- The depth up to which routing may hash, before it is aligned. -/
def routedDepth (ranvierTokens boundaryTokens prefixTokenLength indexedDepth : ℕ) : ℕ :=
  min (min (max boundaryTokens (min ranvierTokens prefixTokenLength)) ranvierTokens) indexedDepth

/-- `routing_prefix_tokens`. -/
def routingPrefixTokens (ranvierTokens boundaryTokens prefixTokenLength indexedDepth
    blockAlignment : ℕ) : ℕ :=
  let p := routedDepth ranvierTokens boundaryTokens prefixTokenLength indexedDepth
  if blockAlignment = 0 then p
  else
    let aligned := p / blockAlignment * blockAlignment
    if aligned = 0 then p else aligned

/-- The id at an index, or minus one. -/
def idAt (ids : List TokenId) (d : ℕ) : ℤ :=
  match ids[d]? with
  | some id => id.toInt
  | none => -1

/-- `classify`. -/
def classify (ranvier backend : List TokenId) (routingPrefix : ℕ) : Result :=
  if routingPrefix = 0 ∨ ranvier = [] ∨ backend = [] then
    { routingPrefix := routingPrefix, backendTokens := backend.length }
  else
    let d := matchLen ranvier backend
    { verdict := if routingPrefix ≤ d then .ALIGNED else .MISALIGNED
      routingPrefix := routingPrefix
      firstDivergence := d
      ranvierId := idAt ranvier d
      backendId := idAt backend d
      backendTokens := backend.length }

/-- `classify_response`. -/
def classifyResponse (parse : List UInt8 → Option JsonValue) (resp : Option HttpResponse)
    (ranvier : List TokenId) (routingPrefix : ℕ) : Result :=
  match resp with
  | none => { routingPrefix := routingPrefix }
  | some resp =>
    if resp.status = 404 ∨ resp.status = 405 ∨ resp.status = 501 then
      { verdict := .UNSUPPORTED, routingPrefix := routingPrefix, httpStatus := resp.status }
    else if resp.status ≠ 200 then
      { routingPrefix := routingPrefix, httpStatus := resp.status }
    else
      match parseTokenizeResponse parse resp.body with
      | none => { routingPrefix := routingPrefix, httpStatus := resp.status }
      | some ids => { classify ranvier ids routingPrefix with httpStatus := resp.status }

/-! ## The exchange -/

/-- What a read gives: bytes, none of them at the end of the stream, or an exception. -/
inductive Read : Type where
  | bytes (buf : List UInt8)
  | failed
  deriving DecidableEq, Repr

/-- The read loop of `post_tokenize`; nothing for an exception. -/
def readLoop (raw : List UInt8) : List Read → Option (List UInt8)
  | [] => some raw
  | r :: reads =>
    if kMaxResponseBytes < raw.length then some raw
    else
      match r with
      | .failed => none
      | .bytes buf => if buf = [] then some raw else readLoop (raw ++ buf) reads

/-- `post_tokenize` behind the request; nothing for an exception. -/
def postTokenize (reads : List Read) : Option (Option HttpResponse) :=
  match readLoop [] reads with
  | none => none
  | some raw => some (if kMaxResponseBytes < raw.length then none else parseHttpResponse raw)

/-- `RanvierSide`: the router's own tokens, as `ensure_ranvier_side` leaves them. -/
structure RanvierSide : Type where
  ids : List TokenId
  routingPrefix : ℕ
  nonempty : ids ≠ []
  positive : 0 < routingPrefix
  within : routingPrefix ≤ ids.length

/-- The outcome that `probe_one` records. -/
def probe (parse : List UInt8 → Option JsonValue) (side : RanvierSide) (reads : List Read) :
    Result :=
  match postTokenize reads with
  | none => { routingPrefix := side.routingPrefix }
  | some resp => classifyResponse parse resp side.ids side.routingPrefix

/-! ## Well-formed answers -/

/-- A header field: its name, and what stands behind the colon. -/
structure HeaderField : Type where
  name : List UInt8
  text : List UInt8

namespace HeaderField

/-- The value is the text without the blanks around it. -/
def value (f : HeaderField) : List UInt8 := trim f.text

/-- The line, without its end. -/
def line (f : HeaderField) : List UInt8 := f.name ++ 58 :: f.text

/-- The name has neither blanks nor a colon, and the line ends where it is over. -/
structure Ok (f : HeaderField) : Prop where
  name_ne_nil : f.name ≠ []
  name_plain : ∀ b ∈ f.name, isBlank b = false ∧ b ≠ 58
  endsAtFirst : EndsAtFirst crlf f.line

end HeaderField

/-- The fields of a name, in either case of its letters. -/
def fieldsNamed (name : List UInt8) (fields : List HeaderField) : List HeaderField :=
  fields.filter fun f => f.name.map toLowerByte = name

/-- How the fields delimit the body: the last field of a name counts. -/
def announced (fields : List HeaderField) : Framing where
  chunked := match (fieldsNamed (ascii "transfer-encoding") fields).getLast? with
    | some f => (finalCoding f.value).map toLowerByte = ascii "chunked"
    | none => false
  contentLength := (fieldsNamed (ascii "content-length") fields).getLast?.map
    fun f => digitsValue 10 f.value

/-- The bytes behind the head, for a content delimited so; `rest` is what stands behind the
terminal line of a chunked body (the trailers and the last line end) or behind the length of
another one. -/
inductive Delimits (f : Framing) : List UInt8 → List UInt8 → List UInt8 → Prop where
  | chunked {rest wire content : List UInt8} (hf : f.chunked = true)
      (hwire : Chunked ChunkLine rest wire content) : Delimits f rest wire content
  | length {rest content : List UInt8} (hf : f.chunked = false)
      (hlength : f.contentLength = some content.length) :
      Delimits f rest (content ++ rest) content
  | close {content : List UInt8} (hf : f.chunked = false) (hnone : f.contentLength = none) :
      Delimits f [] content content

/-- A decimal number of 64 bits. -/
structure Numeral (text : List UInt8) : Prop where
  ne_nil : text ≠ []
  digits : ∀ b ∈ text, (digitValue 10 b).isSome
  bound : digitsValue 10 text < 2 ^ 64

/-- A status line. -/
def statusLine (version code reason : List UInt8) : List UInt8 :=
  ascii "HTTP/" ++ version ++ 32 :: (code ++ reason)

/-- The lines of the fields, each behind a line end. -/
def fieldLines (fields : List HeaderField) : List UInt8 := fields.flatMap fun f => crlf ++ f.line

/-- An answer to the probe: its status line, its fields, its content, the bytes that carry the
content and what stands in them behind its end. -/
structure Answer : Type where
  version : List UInt8
  code : List UInt8
  reason : List UInt8
  fields : List HeaderField
  wire : List UInt8
  content : List UInt8
  rest : List UInt8
  version_ok : 32 ∉ version
  code_length : code.length = 3
  code_digits : ∀ b ∈ code, (digitValue 10 b).isSome
  status_ok : 100 ≤ digitsValue 10 code ∧ digitsValue 10 code ≤ 599
  line_ok : EndsAtFirst crlf (statusLine version code reason)
  fields_ok : ∀ f ∈ fields, f.Ok
  lengths_ok : ∀ f ∈ fieldsNamed (ascii "content-length") fields, Numeral f.value
  /-- there is no empty line before the end of the head -/
  head_ok : EndsAtFirst crlfcrlf (statusLine version code reason ++ fieldLines fields)
  delimited : Delimits (announced fields) rest wire content

namespace Answer

variable (a : Answer)

def status : ℕ := digitsValue 10 a.code

def head : List UInt8 := statusLine a.version a.code a.reason ++ fieldLines a.fields

def bytes : List UInt8 := a.head ++ crlfcrlf ++ a.wire

/-- The end of the body can be told from the bytes. -/
def SelfDelimited : Prop :=
  (announced a.fields).chunked = true ∨ (announced a.fields).contentLength ≠ none

end Answer

/-! ## Reading the head -/

theorem iequals_iff {a b : List UInt8} (hb : b.map toLowerByte = b) :
    iequals a b = true ↔ a.map toLowerByte = b := by
  rw [iequals, hb, Bool.and_eq_true, decide_eq_true_iff, decide_eq_true_iff]
  constructor
  · exact fun h => h.2
  · intro h
    refine ⟨?_, h⟩
    rw [← h, List.length_map]

theorem trim_name {f : HeaderField} (h : f.Ok) : trim f.name = f.name := by
  have := @trim_blanks [] f.name [] (by simp) (by simp) (fun b hb => (h.name_plain b hb).1)
    h.name_ne_nil
  rwa [List.append_nil, List.nil_append] at this

/-- What a turn of the header loop does with a field. -/
theorem scanHeader_line {f : HeaderField} (h : f.Ok) (fr : Framing) :
    scanHeader fr f.line =
      if f.name.map toLowerByte = ascii "transfer-encoding" then
        some { fr with chunked := (finalCoding f.value).map toLowerByte = ascii "chunked" }
      else if f.name.map toLowerByte = ascii "content-length" then
        match fromChars 10 (2 ^ 64) f.value with
        | some (n, []) => some { fr with contentLength := some n }
        | _ => none
      else some fr := by
  have hcolon : findSub [58] f.line = some f.name.length :=
    findSub_singleton fun hmem => (h.name_plain 58 hmem).2 rfl
  have htake : f.line.take f.name.length = f.name := List.take_left
  have hdrop : f.line.drop (f.name.length + 1) = f.text := by
    rw [HeaderField.line, ← List.drop_drop, List.drop_left]
    rfl
  have hchunked : iequals (finalCoding f.value) (ascii "chunked") =
      decide ((finalCoding f.value).map toLowerByte = ascii "chunked") := by
    rw [Bool.eq_iff_iff, iequals_iff (by decide), decide_eq_true_iff]
  have hencoding := @iequals_iff f.name (ascii "transfer-encoding") (by decide)
  have hlength := @iequals_iff f.name (ascii "content-length") (by decide)
  have hvalue : trim f.text = f.value := rfl
  rw [scanHeader, hcolon]
  simp only [htake, hdrop, trim_name h, hencoding, hlength, hvalue, hchunked]

theorem fieldsNamed_append (name : List UInt8) (fields : List HeaderField) (f : HeaderField) :
    fieldsNamed name (fields ++ [f]) =
      fieldsNamed name fields ++ if f.name.map toLowerByte = name then [f] else [] := by
  rw [fieldsNamed, List.filter_append]
  simp only [List.filter_cons, List.filter_nil, decide_eq_true_iff]
  rfl

/-- The header loop finds what the fields announce. -/
theorem scanHeaders_announced {fields : List HeaderField} (hok : ∀ f ∈ fields, f.Ok)
    (hlengths : ∀ f ∈ fieldsNamed (ascii "content-length") fields, Numeral f.value) :
    (fields.map HeaderField.line).foldlM scanHeader {} = some (announced fields) := by
  induction fields using List.reverseRecOn with
  | nil => rfl
  | append_singleton fields f ih =>
    -- the last field decides, whatever those before it said
    have hf := hok f (by simp)
    rw [List.map_append, List.foldlM_append, ih (fun g hg => hok g (by simp [hg]))]
    · simp only [List.map_cons, List.map_nil, List.foldlM_cons, List.foldlM_nil, bind_pure,
        Option.bind_eq_bind, Option.bind_some, scanHeader_line hf]
      split_ifs with hte hcl
      · have hother : ¬ascii "transfer-encoding" = ascii "content-length" := by decide
        simp only [announced, fieldsNamed_append, hte, if_true, hother, if_false,
          List.append_nil, List.getLast?_append, List.getLast?_singleton, Option.some_or]
      · have hother : ¬ascii "content-length" = ascii "transfer-encoding" := by decide
        have hnum := hlengths f (by simp [fieldsNamed_append, hcl])
        rw [fromChars_digits hnum.ne_nil hnum.digits hnum.bound]
        simp only [announced, fieldsNamed_append, hcl, if_true, hother, if_false,
          List.append_nil, List.getLast?_append, List.getLast?_singleton, Option.some_or,
          Option.map_some]
      · simp only [announced, fieldsNamed_append, hte, hcl, if_false, List.append_nil]
    · intro g hg
      exact hlengths g (by rw [fieldsNamed_append]; exact List.mem_append_left _ hg)

theorem line_ne_nil (f : HeaderField) : f.line ≠ [] := by simp [HeaderField.line]

theorem headerLinesFuel_of_ne_nil {l : List UInt8} (h : l ≠ []) (fuel : ℕ) :
    headerLinesFuel (fuel + 1) l = match findSub crlf l with
      | none => [l]
      | some lineEnd => l.take lineEnd :: headerLinesFuel fuel (l.drop (lineEnd + 2)) := by
  cases l with
  | nil => exact absurd rfl h
  | cons b l => rfl

/-- The lines of a header block are its fields. -/
theorem headerLinesFuel_fields {f : HeaderField} {fields : List HeaderField}
    (hok : ∀ g ∈ f :: fields, g.Ok) {fuel : ℕ}
    (hfuel : (f.line ++ fieldLines fields).length ≤ fuel) :
    headerLinesFuel fuel (f.line ++ fieldLines fields) =
      (f :: fields).map HeaderField.line := by
  induction fields generalizing f fuel with
  | nil =>
    have hf := hok f (List.mem_cons_self ..)
    have hpos : 0 < f.line.length := List.length_pos_iff_ne_nil.mpr (line_ne_nil f)
    rw [fieldLines, List.flatMap_nil, List.append_nil] at hfuel ⊢
    obtain ⟨fuel, rfl⟩ := Nat.exists_eq_succ_of_ne_zero (by omega : fuel ≠ 0)
    rw [headerLinesFuel_of_ne_nil (line_ne_nil f), hf.endsAtFirst.unbroken]
    rfl
  | cons g fields ih =>
    have hf := hok f (List.mem_cons_self ..)
    have hlines : f.line ++ fieldLines (g :: fields) =
        f.line ++ crlf ++ (g.line ++ fieldLines fields) := by
      rw [fieldLines, List.flatMap_cons, ← fieldLines, List.append_assoc, List.append_assoc]
    have hne : f.line ++ crlf ++ (g.line ++ fieldLines fields) ≠ [] := by
      simp [HeaderField.line]
    have hpos := List.length_pos_iff_ne_nil.mpr hne
    rw [hlines] at hfuel ⊢
    obtain ⟨fuel, rfl⟩ := Nat.exists_eq_succ_of_ne_zero (by omega : fuel ≠ 0)
    rw [headerLinesFuel_of_ne_nil hne, hf.endsAtFirst.find]
    simp only [take_line, drop_line]
    have hrest : (g.line ++ fieldLines fields).length ≤ fuel := by
      have hcrlf : crlf.length = 2 := rfl
      simp only [List.length_append] at hfuel ⊢
      omega
    rw [ih (fun h hh => hok h (List.mem_cons_of_mem _ hh)) hrest]
    rfl

theorem statusOf_statusLine {version code reason : List UInt8} (hversion : 32 ∉ version)
    (hlength : code.length = 3) (hdigits : ∀ b ∈ code, (digitValue 10 b).isSome)
    (hstatus : 100 ≤ digitsValue 10 code ∧ digitsValue 10 code ≤ 599) :
    statusOf (statusLine version code reason) = some (digitsValue 10 code) := by
  have hhttp : (ascii "HTTP/").length = 5 := by decide
  have htake : (statusLine version code reason).take 5 = ascii "HTTP/" := by
    rw [statusLine, List.append_assoc, ← hhttp, List.take_left]
  have hspace : findSub [32] (statusLine version code reason) =
      some (ascii "HTTP/" ++ version).length := by
    refine findSub_singleton ?_
    rw [List.mem_append, not_or]
    exact ⟨by decide, hversion⟩
  have hcode : ((statusLine version code reason).drop
      ((ascii "HTTP/" ++ version).length + 1)).take 3 = code := by
    rw [statusLine, ← List.drop_drop, List.drop_left, ← hlength]
    exact List.take_left
  have hne : code ≠ [] := by
    rintro rfl
    cases hlength
  have hsize : ¬(statusLine version code reason).length <
      (ascii "HTTP/" ++ version).length + 4 := by
    have hrest : (code ++ reason).length = 3 + reason.length := by
      rw [List.length_append, hlength]
    rw [statusLine, List.length_append, List.length_cons, hrest]
    omega
  rw [statusOf, htake, if_neg (by simp), hspace]
  dsimp only
  rw [if_neg hsize, hcode, fromChars_digits hne hdigits (by omega)]
  dsimp only
  rw [if_neg (by omega)]

namespace Answer

variable (a : Answer)

/-- The status line and the header lines are found. -/
theorem head_split :
    (match findSub crlf a.head with
      | none => a.head
      | some lineEnd => a.head.take lineEnd) = statusLine a.version a.code a.reason ∧
    headerLines (match findSub crlf a.head with
      | none => []
      | some lineEnd => a.head.drop (lineEnd + 2)) = a.fields.map HeaderField.line := by
  cases hfields : a.fields with
  | nil =>
    have hline : a.head = statusLine a.version a.code a.reason := by
      rw [head, hfields, fieldLines, List.flatMap_nil, List.append_nil]
    rw [hline, a.line_ok.unbroken]
    exact ⟨rfl, rfl⟩
  | cons f fields =>
    have hhead : a.head =
        statusLine a.version a.code a.reason ++ crlf ++ (f.line ++ fieldLines fields) := by
      rw [head, hfields, fieldLines, List.flatMap_cons, ← fieldLines, List.append_assoc,
        List.append_assoc]
    have hok : ∀ g ∈ f :: fields, g.Ok := by
      rw [← hfields]
      exact a.fields_ok
    rw [hhead, a.line_ok.find]
    dsimp only
    rw [take_line, drop_line]
    exact ⟨rfl, headerLinesFuel_fields hok le_rfl⟩

/-- **The head is read**: what follows it is taken for the body it announces. -/
theorem parse_head (wire : List UInt8) : parseHttpResponse (a.head ++ crlfcrlf ++ wire) =
    (bodyOf (announced a.fields) wire).map fun body => { status := a.status, body := body } := by
  have hend : findSub crlfcrlf (a.head ++ crlfcrlf ++ wire) = some a.head.length :=
    findSub_append crlfcrlf_ne_nil a.head_ok
  have hhead : (a.head ++ crlfcrlf ++ wire).take a.head.length = a.head := by
    rw [List.append_assoc, List.take_left]
  have hwire : (a.head ++ crlfcrlf ++ wire).drop (a.head.length + 4) = wire := by
    have hlen : a.head.length + 4 = (a.head ++ crlfcrlf).length := by
      rw [List.length_append]
      rfl
    rw [hlen, List.drop_left]
  have hstatus := @statusOf_statusLine a.version a.code a.reason a.version_ok a.code_length
    a.code_digits a.status_ok
  obtain ⟨hline, hlines⟩ := a.head_split
  rw [parseHttpResponse, hend]
  dsimp only
  rw [hhead, hline, hstatus]
  dsimp only
  rw [hlines, scanHeaders_announced a.fields_ok a.lengths_ok, hwire]
  dsimp only
  cases bodyOf (announced a.fields) wire with
  | none => rfl
  | some body => rfl

end Answer

/-! ## Reading the body -/

theorem chunked_length_le {trailers wire content : List UInt8}
    (h : Chunked ChunkLine trailers wire content) : content.length ≤ wire.length := by
  induction h with
  | last => exact Nat.zero_le _
  | chunk _ _ _ ih =>
    simp only [List.length_append]
    omega

theorem bodyOf_whole {f : Framing} {rest wire content : List UInt8}
    (h : Delimits f rest wire content) (hsize : wire.length ≤ kMaxResponseBytes) :
    bodyOf f wire = some content := by
  cases h with
  | chunked hf hwire =>
    rw [bodyOf, if_pos hf, dechunk_eq_some_iff]
    exact ⟨⟨rest, hwire⟩, (chunked_length_le hwire).trans hsize⟩
  | length hf hlength =>
    rw [bodyOf, hf, hlength]
    simp
  | close hf hnone =>
    rw [bodyOf, hf, hnone]
    simp

/-- A body that says how long it is, cut before its end, is refused. -/
theorem bodyOf_cut {f : Framing} {rest wire content : List UInt8}
    (h : Delimits f rest wire content) (hself : f.chunked = true ∨ f.contentLength ≠ none) {k : ℕ}
    (hk : k + rest.length < wire.length) : bodyOf f (wire.take k) = none := by
  cases h with
  | chunked hf hwire =>
    rw [bodyOf, if_pos hf]
    exact dechunk_truncated hwire hk
  | length hf hlength =>
    rw [List.length_append] at hk
    rw [bodyOf, hf, hlength]
    dsimp only
    rw [if_neg Bool.false_ne_true, if_pos]
    rw [List.length_take]
    omega
  | close hf hnone =>
    rcases hself with hself | hself
    · rw [hf] at hself
      cases hself
    · exact absurd hnone hself

namespace Answer

variable (a : Answer)

theorem length_bytes : a.bytes.length = a.head.length + 4 + a.wire.length := by
  rw [bytes, List.length_append, List.length_append]
  rfl

theorem parse_bytes (hsize : a.bytes.length ≤ kMaxResponseBytes) :
    parseHttpResponse a.bytes = some { status := a.status, body := a.content } := by
  have hlen := a.length_bytes
  rw [bytes, a.parse_head, bodyOf_whole a.delimited (by omega)]
  rfl

/-- An answer that says how long it is, cut before its end, is refused. -/
theorem parse_cut (hself : a.SelfDelimited) {k : ℕ} (hk : k + a.rest.length < a.bytes.length) :
    parseHttpResponse (a.bytes.take k) = none := by
  have hlen := a.length_bytes
  have hfour : crlfcrlf.length = 4 := rfl
  rcases Nat.lt_or_ge k (a.head.length + 4) with hin | hin
  · -- the end of the head is not among the bytes
    have hend : findSub crlfcrlf (a.bytes.take k ++ a.bytes.drop k) = some a.head.length := by
      rw [List.take_append_drop]
      exact findSub_append crlfcrlf_ne_nil a.head_ok
    have hcut := findSub_left crlfcrlf_ne_nil hend
    rw [if_neg] at hcut
    · rw [parseHttpResponse, hcut]
    · rw [List.length_take]
      omega
  · have hlenhead : (a.head ++ crlfcrlf).length = a.head.length + 4 := by
      rw [List.length_append, hfour]
    have htake : a.bytes.take k =
        a.head ++ crlfcrlf ++ a.wire.take (k - (a.head.length + 4)) := by
      rw [bytes, List.take_append, List.take_of_length_le (by omega), hlenhead]
    rw [htake, a.parse_head, bodyOf_cut a.delimited hself (by omega)]
    rfl

/-- What an answer says, read off its content. -/
def verdict (parse : List UInt8 → Option JsonValue) (side : RanvierSide) : Verdict :=
  if a.status = 404 ∨ a.status = 405 ∨ a.status = 501 then .UNSUPPORTED
  else if a.status ≠ 200 then .FAILED
  else
    match parseTokenizeResponse parse a.content with
    | none => .FAILED
    | some ids => if side.ids.take side.routingPrefix <+: ids then .ALIGNED else .MISALIGNED

end Answer

/-! ## Reading to the end -/

theorem readLoop_bytes {chunks : List (List UInt8)} (hne : ∀ c ∈ chunks, c ≠ [])
    {raw : List UInt8} (hsize : (raw ++ chunks.flatten).length ≤ kMaxResponseBytes)
    (later : List Read) :
    readLoop raw (chunks.map .bytes ++ later) = readLoop (raw ++ chunks.flatten) later := by
  induction chunks generalizing raw with
  | nil => rw [List.flatten_nil, List.append_nil, List.map_nil, List.nil_append]
  | cons c chunks ih =>
    rw [List.flatten_cons, ← List.append_assoc] at hsize
    have hraw : ¬kMaxResponseBytes < raw.length := by
      simp only [List.length_append] at hsize
      omega
    rw [List.map_cons, List.cons_append, readLoop, if_neg hraw,
      if_neg (hne c (List.mem_cons_self ..)),
      ih (fun d hd => hne d (List.mem_cons_of_mem _ hd)) hsize, List.flatten_cons,
      List.append_assoc]

/-- A response that is too long is given up before its end. -/
theorem readLoop_tooLong {chunks : List (List UInt8)} (hne : ∀ c ∈ chunks, c ≠ [])
    {raw : List UInt8} (hsize : kMaxResponseBytes < (raw ++ chunks.flatten).length) :
    ∃ got, readLoop raw (chunks.map .bytes) = some got ∧ kMaxResponseBytes < got.length := by
  induction chunks generalizing raw with
  | nil =>
    rw [List.flatten_nil, List.append_nil] at hsize
    exact ⟨raw, rfl, hsize⟩
  | cons c chunks ih =>
    rw [List.map_cons, readLoop]
    split_ifs with hraw hempty
    · exact ⟨raw, rfl, hraw⟩
    · exact absurd hempty (hne c (List.mem_cons_self ..))
    · refine ih (fun d hd => hne d (List.mem_cons_of_mem _ hd)) ?_
      rwa [List.flatten_cons, ← List.append_assoc] at hsize

/-! ## The verdict on an answer -/

/-- The router's tokens agree with the backend's as far as the loop of `classify` gets. -/
theorem le_matchLen_iff {ranvier backend : List TokenId} {n : ℕ} (hn : n ≤ ranvier.length) :
    n ≤ matchLen ranvier backend ↔ ranvier.take n <+: backend := by
  induction ranvier generalizing backend n with
  | nil =>
    obtain rfl : n = 0 := Nat.le_zero.mp hn
    simp
  | cons t ranvier ih =>
    cases n with
    | zero => simp
    | succ n =>
      cases backend with
      | nil => simp [matchLen]
      | cons u backend =>
        rw [matchLen, List.take_succ_cons, List.cons_prefix_cons]
        split_ifs with htu
        · rw [Nat.succ_le_succ_iff, ih (Nat.le_of_succ_le_succ hn)]
          exact ⟨fun h => ⟨htu, h⟩, fun h => h.2⟩
        · exact iff_of_false (by omega) fun h => htu h.1

theorem parseTokenizeResponse_ne_nil {parse : List UInt8 → Option JsonValue} {body : List UInt8}
    {ids : List TokenId} (h : parseTokenizeResponse parse body = some ids) : ids ≠ [] := by
  rw [parseTokenizeResponse] at h
  split at h
  · cases h
  split at h
  · cases h
  next elements _ =>
  split_ifs at h with hbad
  rintro rfl
  cases elements with
  | nil => exact hbad (.inl rfl)
  | cons v elements =>
    rw [List.mapM_cons] at h
    cases hv : readId v with
    | none =>
      rw [hv] at h
      cases h
    | some id =>
      rw [hv] at h
      cases hrest : elements.mapM readId with
      | none =>
        rw [hrest] at h
        cases h
      | some rest =>
        rw [hrest] at h
        cases h

theorem classify_verdict {side : RanvierSide} {backend : List TokenId} (hne : backend ≠ []) :
    (classify side.ids backend side.routingPrefix).verdict =
      if side.ids.take side.routingPrefix <+: backend then .ALIGNED else .MISALIGNED := by
  have hpos := side.positive
  rw [classify, if_neg]
  · dsimp only
    simp only [le_matchLen_iff side.within]
  · rintro (h | h | h)
    · omega
    · exact side.nonempty h
    · exact hne h

theorem classifyResponse_verdict (parse : List UInt8 → Option JsonValue) (side : RanvierSide)
    (a : Answer) :
    (classifyResponse parse (some { status := a.status, body := a.content }) side.ids
      side.routingPrefix).verdict = a.verdict parse side := by
  rw [classifyResponse, Answer.verdict]
  dsimp only
  split_ifs with hunsupported hstatus
  · rfl
  · rfl
  · cases hids : parseTokenizeResponse parse a.content with
    | none => rfl
    | some ids => exact classify_verdict (parseTokenizeResponse_ne_nil hids)

/-- What the probe makes of an answer, in pieces of any size. -/
structure Judges (parse : List UInt8 → Option JsonValue) (side : RanvierSide) (a : Answer) :
    Prop where
  /-- an answer that arrives whole is judged by its content -/
  whole : ∀ chunks : List (List UInt8), (∀ c ∈ chunks, c ≠ []) → chunks.flatten = a.bytes →
    a.bytes.length ≤ kMaxResponseBytes →
    (probe parse side (chunks.map .bytes)).verdict = a.verdict parse side
  /-- an answer that says how long it is, and is cut before the end of its body (the end of the
  terminal line, if it is chunked), is not judged -/
  cut : a.SelfDelimited → ∀ chunks : List (List UInt8), (∀ c ∈ chunks, c ≠ []) →
    ∀ k, k + a.rest.length < a.bytes.length → chunks.flatten = a.bytes.take k →
    (probe parse side (chunks.map .bytes)).verdict = .FAILED
  /-- nor one that a read fails in, wherever -/
  failing : ∀ chunks : List (List UInt8), (∀ c ∈ chunks, c ≠ []) →
    chunks.flatten.length ≤ kMaxResponseBytes → ∀ later,
    (probe parse side (chunks.map .bytes ++ .failed :: later)).verdict = .FAILED
  /-- nor one that is too long -/
  tooLong : ∀ chunks : List (List UInt8), (∀ c ∈ chunks, c ≠ []) → chunks.flatten = a.bytes →
    kMaxResponseBytes < a.bytes.length →
    (probe parse side (chunks.map .bytes)).verdict = .FAILED

theorem probe_of_read {parse : List UInt8 → Option JsonValue} {side : RanvierSide}
    {chunks : List (List UInt8)} (hne : ∀ c ∈ chunks, c ≠ [])
    (hsize : chunks.flatten.length ≤ kMaxResponseBytes) :
    probe parse side (chunks.map .bytes) = classifyResponse parse
      (parseHttpResponse chunks.flatten) side.ids side.routingPrefix := by
  have hread := @readLoop_bytes chunks hne [] hsize []
  rw [List.append_nil, List.nil_append] at hread
  rw [probe, postTokenize, hread, readLoop]
  dsimp only
  rw [if_neg (by omega)]

theorem probe_tooLong {parse : List UInt8 → Option JsonValue} {side : RanvierSide}
    {chunks : List (List UInt8)} (hne : ∀ c ∈ chunks, c ≠ [])
    (hsize : kMaxResponseBytes < chunks.flatten.length) :
    (probe parse side (chunks.map .bytes)).verdict = .FAILED := by
  obtain ⟨got, hread, hgot⟩ := @readLoop_tooLong chunks hne [] hsize
  rw [probe, postTokenize, hread]
  dsimp only
  rw [if_pos hgot]
  rfl

/-- **The probe judges the content of an answer**, however the answer is delimited and in
whatever pieces it arrives, and passes no verdict on an answer that is cut short. -/
theorem probe_judges (parse : List UInt8 → Option JsonValue) (side : RanvierSide) (a : Answer) :
    Judges parse side a where
  whole chunks hne hbytes hsize := by
    rw [probe_of_read hne (by rwa [hbytes]), hbytes, a.parse_bytes hsize]
    exact classifyResponse_verdict parse side a
  cut hself chunks hne k hk hbytes := by
    rcases Nat.lt_or_ge kMaxResponseBytes chunks.flatten.length with hlong | hsize
    · exact probe_tooLong hne hlong
    · rw [probe_of_read hne hsize, hbytes, a.parse_cut hself hk]
      rfl
  failing chunks hne hsize later := by
    have hread := @readLoop_bytes chunks hne [] hsize (.failed :: later)
    rw [List.nil_append, readLoop, if_neg (by omega)] at hread
    rw [probe, postTokenize, hread]
  tooLong chunks hne hbytes hsize := probe_tooLong hne (by rwa [hbytes])

theorem forall_byte_mem {l : List UInt8} {p : UInt8 → Prop} [DecidablePred p]
    (h : l.all (fun b => decide (p b)) = true) : ∀ b ∈ l, p b :=
  fun b hb => of_decide_eq_true (List.all_eq_true.mp h b hb)

/-- `[1,2]` in one chunk. -/
def chunkedTokens : List UInt8 :=
  ascii "5" ++ crlf ++ (ascii "[1,2]" ++ (crlf ++ (ascii "0" ++ crlf ++ crlf)))

theorem chunkedTokens_ok : Chunked ChunkLine crlf chunkedTokens (ascii "[1,2]") := by
  have hfive : ChunkLine 5 (ascii "5") :=
    ⟨by unfold EndsAtFirst; decide, [], [53], [], [], by decide, nofun, nofun, by decide,
      forall_byte_mem (by decide), by decide, .inl rfl⟩
  have hzero : ChunkLine 0 (ascii "0") :=
    ⟨by unfold EndsAtFirst; decide, [], [48], [], [], by decide, nofun, nofun, by decide,
      forall_byte_mem (by decide), by decide, .inl rfl⟩
  have hlen : (ascii "[1,2]").length = 5 := by decide
  rw [← hlen] at hfive
  exact Chunked.chunk hfive (by decide) (.last hzero)

/-- An answer with the tokens in a chunked body. -/
def tokensAnswer : Answer where
  version := ascii "1.1"
  code := ascii "200"
  reason := ascii " OK"
  fields := [⟨ascii "Transfer-Encoding", ascii " gzip, Chunked"⟩]
  wire := chunkedTokens
  content := ascii "[1,2]"
  rest := crlf
  version_ok := by decide
  code_length := by decide
  code_digits := forall_byte_mem (by decide)
  status_ok := by decide
  line_ok := by unfold EndsAtFirst; decide
  fields_ok := by
    intro f hf
    obtain rfl := List.mem_singleton.mp hf
    exact ⟨by decide, forall_byte_mem (by decide), by unfold EndsAtFirst; decide⟩
  lengths_ok := by
    intro f hf
    cases (show f ∈ [] from hf)
  head_ok := by unfold EndsAtFirst; decide
  delimited := .chunked (by decide) chunkedTokens_ok

/-- A parser that knows this answer. -/
def knownTokens (body : List UInt8) : Option JsonValue :=
  if body = ascii "[1,2]" then some (.object [("tokens".toList, .array [.int 1, .int 2])])
  else none

/-- A router whose tokens begin alike. -/
def startsAlike : RanvierSide := ⟨[1, 2, 3], 2, by decide, by decide, by decide⟩

theorem probe_judges_tokens : Judges knownTokens startsAlike tokensAnswer ∧
    tokensAnswer.SelfDelimited ∧ tokensAnswer.verdict knownTokens startsAlike = .ALIGNED :=
  ⟨probe_judges _ _ _, .inl (by decide), by decide⟩

/-! ## The verdict and the routing keys -/

theorem routingPrefixTokens_eq (n boundary prefixTokenLength indexedDepth : ℕ)
    (blockAlignment : ℕ+) :
    routingPrefixTokens n boundary prefixTokenLength indexedDepth blockAlignment =
      hashedLen blockAlignment (routedDepth n boundary prefixTokenLength indexedDepth) := by
  rw [routingPrefixTokens, if_neg blockAlignment.pos.ne', hashedLen]

/-- A deeper prefix is hashed to no smaller depth. -/
theorem hashedLen_mono (blockAlignment : ℕ+) {m n : ℕ} (h : m ≤ n) :
    hashedLen blockAlignment m ≤ hashedLen blockAlignment n := by
  have hpos := blockAlignment.pos
  have hdiv : m / (blockAlignment : ℕ) ≤ n / blockAlignment := Nat.div_le_div_right h
  have hmul := Nat.mul_le_mul_right (blockAlignment : ℕ) hdiv
  have hle := Nat.div_mul_le_self n blockAlignment
  simp only [hashedLen]
  split_ifs with hm hn
  · exact h
  · -- less than a block on the one side, a block on the other
    have hlt : m < blockAlignment := by
      rcases Nat.mul_eq_zero.mp hm with hzero | hzero
      · exact Nat.lt_of_div_eq_zero hpos hzero
      · omega
    have hblock : (blockAlignment : ℕ) ≤ n / blockAlignment * blockAlignment :=
      Nat.le_mul_of_pos_left _ (Nat.pos_of_ne_zero fun hzero => hn (by rw [hzero, Nat.zero_mul]))
    omega
  · omega
  · exact hmul

/-- What a verdict says about the keys of a conversation, at the depths routing may choose. -/
structure KeysJudged (cfg : PrefixConfig) (ranvier backend : List TokenId)
    (boundary indexedDepth : ℕ) (r : Result) : Prop where
  /-- aligned means that the same tokens are hashed at every depth -/
  exact : r.verdict = .ALIGNED ↔
    ∀ len ≤ routedDepth ranvier.length boundary cfg.prefixTokenLength indexedDepth,
      ranvier.take (hashedLen cfg.blockAlignment len) =
        backend.take (hashedLen cfg.blockAlignment len)
  /-- and then the keys of the two agree wherever the index is asked, with the boundary or a
  smaller one, or without -/
  keys : r.verdict = .ALIGNED → ∀ b ≤ boundary,
    prefixLen cfg ranvier.length b ≤ indexedDepth →
    hashPrefix ranvier (prefixLen cfg ranvier.length b) cfg.blockAlignment =
      hashPrefix backend (prefixLen cfg ranvier.length b) cfg.blockAlignment
  /-- misaligned means that a token that is hashed differs, or is missing -/
  differs : r.verdict = .MISALIGNED ↔ ∃ d < r.routingPrefix, ranvier[d]? ≠ backend[d]?

theorem take_prefix_iff {ranvier backend : List TokenId} {n : ℕ} (hn : n ≤ ranvier.length) :
    ranvier.take n <+: backend ↔ ranvier.take n = backend.take n := by
  rw [List.prefix_iff_eq_take, List.length_take, Nat.min_eq_left hn]

theorem take_eq_take_iff {ranvier backend : List TokenId} {n : ℕ} :
    ranvier.take n = backend.take n ↔ ∀ d < n, ranvier[d]? = backend[d]? := by
  constructor
  · intro h d hd
    rw [← List.getElem?_take_of_lt hd, h, List.getElem?_take_of_lt hd]
  · intro h
    refine List.ext_getElem? fun d => ?_
    rw [List.getElem?_take, List.getElem?_take]
    split_ifs with hd
    · exact h d hd
    · rfl

/-- **The verdict says whether the routing keys agree**: aligned exactly if the tokens hashed are
the same at every depth that routing may choose for the conversation and the index covers. -/
theorem aligned_iff_keys (cfg : PrefixConfig) {ranvier backend : List TokenId}
    {boundary indexedDepth : ℕ} (hbackend : backend ≠ [])
    (hpos : 0 < routingPrefixTokens ranvier.length boundary cfg.prefixTokenLength indexedDepth
      cfg.blockAlignment) :
    KeysJudged cfg ranvier backend boundary indexedDepth (classify ranvier backend
      (routingPrefixTokens ranvier.length boundary cfg.prefixTokenLength indexedDepth
        cfg.blockAlignment)) := by
  rw [routingPrefixTokens_eq] at hpos ⊢
  generalize hdepth : routedDepth ranvier.length boundary cfg.prefixTokenLength indexedDepth =
    depth at hpos ⊢
  have hrouted : depth ≤ ranvier.length ∧ depth ≤ indexedDepth := by
    rw [← hdepth, routedDepth]
    omega
  have hwithin : hashedLen cfg.blockAlignment depth ≤ ranvier.length :=
    (hashedLen_le _ _).trans hrouted.1
  have hranvier : ranvier ≠ [] := by
    rintro rfl
    rw [List.length_nil] at hwithin
    omega
  have hverdict := @classify_verdict ⟨ranvier, _, hranvier, hpos, hwithin⟩ backend hbackend
  have hprefix := (@take_prefix_iff ranvier backend _ hwithin).trans take_eq_take_iff
  have haligned : (classify ranvier backend (hashedLen cfg.blockAlignment depth)).verdict =
      .ALIGNED ↔ ∀ d < hashedLen cfg.blockAlignment depth, ranvier[d]? = backend[d]? := by
    rw [hverdict, ← hprefix]
    split_ifs with h
    · exact iff_of_true rfl h
    · exact iff_of_false (fun h => by cases h) h
  have hexact : (classify ranvier backend (hashedLen cfg.blockAlignment depth)).verdict =
      .ALIGNED ↔ ∀ len ≤ depth, ranvier.take (hashedLen cfg.blockAlignment len) =
        backend.take (hashedLen cfg.blockAlignment len) := by
    rw [haligned]
    constructor
    · intro h len hlen
      exact take_eq_take_iff.mpr fun d hd => h d (hd.trans_le (hashedLen_mono _ hlen))
    · exact fun h => take_eq_take_iff.mp (h depth le_rfl)
  refine ⟨?_, fun h b hb hlen => ?_, ?_⟩
  · rw [hdepth]
    exact hexact
  · have hle : prefixLen cfg ranvier.length b ≤ depth := by
      rw [← hdepth, routedDepth]
      rw [prefixLen] at hlen ⊢
      split_ifs at hlen ⊢ <;> omega
    rw [hashPrefix, hashPrefix, hexact.mp h _ hle]
  · have hshape : (classify ranvier backend (hashedLen cfg.blockAlignment depth)).verdict =
        .MISALIGNED ↔ ¬(classify ranvier backend
          (hashedLen cfg.blockAlignment depth)).verdict = .ALIGNED := by
      rw [hverdict]
      split_ifs <;> decide
    have hrp : (classify ranvier backend (hashedLen cfg.blockAlignment depth)).routingPrefix =
        hashedLen cfg.blockAlignment depth := by
      rw [classify]
      split_ifs <;> rfl
    rw [hshape, haligned, hrp]
    simp only [not_forall, exists_prop, ne_eq]

/-- Five tokens, in blocks of two. -/
def pairBlocks : PrefixConfig where
  blockAlignment := ⟨2, Nat.two_pos⟩
  prefixTokenLength := 4
  maxRouteTokens := 0
  minTokenLength := 0
  cacheEventsEnabled := false
  injectPrefixHashHeader := false
  prefixMode := true
  enableMultiDepthRouting := false
  leastLoadedPlacement := false

/-- The fifth token is beyond the last whole block. -/
theorem aligned_iff_keys_lastToken :
    KeysJudged pairBlocks [1, 2, 3, 4, 5] [1, 2, 3, 4, 6] 5 2048
      (classify [1, 2, 3, 4, 5] [1, 2, 3, 4, 6] 4) ∧
    (classify [1, 2, 3, 4, 5] [1, 2, 3, 4, 6] 4).verdict = .ALIGNED ∧
    (classify [1, 2, 3, 4, 5] [1, 2, 3, 9, 5] 4).verdict = .MISALIGNED :=
  ⟨@aligned_iff_keys pairBlocks [1, 2, 3, 4, 5] [1, 2, 3, 4, 6] 5 2048 (by simp) (by decide),
    by decide, by decide⟩

end AlignmentProbe

end Ranvier
