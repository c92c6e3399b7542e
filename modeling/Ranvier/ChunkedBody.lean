import Ranvier.ChunkedStream

/-!
# Decoding a chunked body at once

Two clients of the router read a response to its end and decode its chunked body afterwards: the
alignment probe (`detail::dechunk`) and the Kubernetes client (`k8s_get`). The two loops are
written differently. One trims the size field and insists on every line end; the other takes
the hexadecimal digits at the front of a line, skips empty lines and does not look at the two
bytes behind the data.

* `Chunked` — the chunked bodies with their content, for size lines of a given form;
* `dechunk`, `k8sDechunk` — the two decoders;
* `dechunk_eq_some_iff` — the first one accepts the chunked bodies of at most 64 KiB, and no
  other text;
* `k8sDechunk_chunked` — the second one agrees with it where no blank stands before a size.
-/

namespace Ranvier

/-! ## The grammar -/

/-- The first text begins with a chunked body whose size lines are of the form `Line`; the
second one is its content. Behind the terminal line stand the trailers, or anything else. -/
inductive Chunked (Line : ℕ → List UInt8 → Prop) (trailers : List UInt8) :
    List UInt8 → List UInt8 → Prop where
  | last {line : List UInt8} (hline : Line 0 line) :
      Chunked Line trailers (line ++ crlf ++ trailers) []
  | chunk {line data wire body : List UInt8} (hline : Line data.length line) (hne : data ≠ [])
      (hrest : Chunked Line trailers wire body) :
      Chunked Line trailers (line ++ crlf ++ (data ++ (crlf ++ wire))) (data ++ body)

/-- A size line that begins with its number. -/
structure PlainLine (n : ℕ) (line : List UInt8) : Prop extends ChunkLine n line where
  plain : ∀ b ∈ line.head?, (digitValue 16 b).isSome

theorem Chunked.mono {Line Line' : ℕ → List UInt8 → Prop} {trailers wire body : List UInt8}
    (h : Chunked Line trailers wire body) (hmono : ∀ n line, Line n line → Line' n line) :
    Chunked Line' trailers wire body := by
  induction h with
  | last hline => exact .last (hmono _ _ hline)
  | chunk hline hne _ ih => exact .chunk (hmono _ _ hline) hne ih

/-! ## Size lines -/

/-- Trimming removes blanks from both ends. -/
theorem trim_split (l : List UInt8) : ∃ before after, l = before ++ (trim l ++ after) ∧
    (∀ b ∈ before, isBlank b) ∧ ∀ b ∈ after, isBlank b := by
  refine ⟨l.takeWhile isBlank, ((l.dropWhile isBlank).reverse.takeWhile isBlank).reverse,
    ?_, fun b hb => (List.mem_takeWhile_imp hb), fun b hb => ?_⟩
  · rw [trim, ← List.reverse_append, List.takeWhile_append_dropWhile, List.reverse_reverse,
      List.takeWhile_append_dropWhile]
  · exact List.mem_takeWhile_imp (List.mem_reverse.mp hb)

/-- The line is found where it ends. -/
theorem EndsAtFirst.find {line : List UInt8} (h : EndsAtFirst crlf line) (rest : List UInt8) :
    findSub crlf (line ++ crlf ++ rest) = some line.length :=
  findSub_append crlf_ne_nil h

/-- A line that ends where it is over holds no line end. -/
theorem EndsAtFirst.unbroken {line : List UInt8} (h : EndsAtFirst crlf line) :
    findSub crlf line = none := by
  have hcrlf : crlf.length = 2 := rfl
  rw [findSub_left crlf_ne_nil h, if_neg (by omega)]

theorem take_line (line rest : List UInt8) : (line ++ crlf ++ rest).take line.length = line := by
  rw [List.append_assoc, List.take_left]

theorem drop_line (line rest : List UInt8) :
    (line ++ crlf ++ rest).drop (line.length + 2) = rest := by
  have hlen : line.length + 2 = (line ++ crlf).length := by
    rw [List.length_append]
    rfl
  rw [hlen, List.drop_left]

/-- A text in which a line end is found begins with that line. -/
theorem line_of_find {input : List UInt8} {eol : ℕ} (h : findSub crlf input = some eol) :
    ∃ line rest, input = line ++ crlf ++ rest ∧ line.length = eol ∧ EndsAtFirst crlf line := by
  obtain ⟨line, rest, hsplit, hlen, hfind⟩ := findSub_split crlf_ne_nil h
  refine ⟨line, rest, hsplit, hlen, ?_⟩
  rw [EndsAtFirst, hlen]
  exact hfind

/-- What stands before the extension, trimmed, is the number. -/
theorem ChunkLine.field {n : ℕ} {line : List UInt8} (h : ChunkLine n line) :
    ∃ digits, trim (line.takeWhile fun b => b ≠ 59) = digits ∧ digits ≠ [] ∧
      (∀ b ∈ digits, (digitValue 16 b).isSome) ∧ digitsValue 16 digits = n := by
  obtain ⟨before, digits, after, ext, rfl, hb, ha, hne, hdig, hval, hext⟩ := h.form
  refine ⟨digits, ?_, hne, hdig, hval⟩
  have hfront : ∀ b ∈ before ++ (digits ++ after), decide (b ≠ 59) = true := by
    intro b hmem
    rw [decide_eq_true_iff]
    rcases List.mem_append.mp hmem with hmem | hmem
    · exact blank_ne_semicolon (hb b hmem)
    · rcases List.mem_append.mp hmem with hmem | hmem
      · exact digit_ne_semicolon (hdig b hmem)
      · exact blank_ne_semicolon (ha b hmem)
  have hback : ext.takeWhile (fun b => decide (b ≠ 59)) = [] := by
    rcases hext with rfl | hext
    · rfl
    · cases ext with
      | nil => rfl
      | cons b ext =>
        obtain rfl : b = 59 := by simpa using hext
        rfl
  rw [List.takeWhile_append_of_pos hfront, hback, List.append_nil]
  exact trim_blanks hb ha (fun b hmem => digit_not_blank (hdig b hmem)) hne

theorem ChunkLine.unique {n n' : ℕ} {line : List UInt8} (h : ChunkLine n line)
    (h' : ChunkLine n' line) : n = n' := by
  obtain ⟨digits, rfl, -, -, rfl⟩ := h.field
  obtain ⟨digits', rfl, -, -, rfl⟩ := h'.field
  rfl

/-- Two texts that begin with the same bytes begin with the same line. -/
theorem EndsAtFirst.unique {line line' rest rest' : List UInt8} (h : EndsAtFirst crlf line)
    (h' : EndsAtFirst crlf line') (heq : line ++ crlf ++ rest = line' ++ crlf ++ rest') :
    line = line' ∧ rest = rest' := by
  have hfind := h.find rest
  rw [heq, h'.find] at hfind
  have hlen : line.length = line'.length := (Option.some.inj hfind).symm
  rw [List.append_assoc, List.append_assoc] at heq
  obtain ⟨hline, hrest⟩ := List.append_inj heq hlen
  exact ⟨hline, List.append_cancel_left hrest⟩

/-- **Chunked bodies delimit themselves**: of two that begin alike, the one has no more chunks
than the other. -/
theorem Chunked.unique {trailers trailers' wire wire' later body body' : List UInt8}
    (h : Chunked ChunkLine trailers wire body) (h' : Chunked ChunkLine trailers' wire' body')
    (heq : wire' = wire ++ later) : trailers' = trailers ++ later ∧ body' = body := by
  induction h generalizing wire' body' with
  | last hline =>
    cases h' with
    | last hline' =>
      rw [List.append_assoc _ trailers] at heq
      exact ⟨(hline'.endsAtFirst.unique hline.endsAtFirst heq).2, rfl⟩
    | chunk hline' hne' =>
      rw [List.append_assoc _ trailers] at heq
      obtain ⟨rfl, -⟩ := hline'.endsAtFirst.unique hline.endsAtFirst heq
      exact absurd (List.length_eq_zero_iff.mp (hline'.unique hline)) hne'
  | @chunk line data wire body hline hne _ ih =>
    rw [List.append_assoc _ (data ++ _)] at heq
    cases h' with
    | last hline' =>
      obtain ⟨rfl, -⟩ := hline'.endsAtFirst.unique hline.endsAtFirst heq
      exact absurd (List.length_eq_zero_iff.mp (hline.unique hline')) hne
    | @chunk line' data' wire' body' hline' _ hrest' =>
      obtain ⟨rfl, hrest⟩ := hline'.endsAtFirst.unique hline.endsAtFirst heq
      rw [List.append_assoc data, List.append_assoc crlf] at hrest
      obtain ⟨rfl, hwire⟩ := List.append_inj hrest (hline'.unique hline)
      obtain ⟨rfl, rfl⟩ := ih hrest' (List.append_cancel_left hwire)
      exact ⟨rfl, rfl⟩

namespace AlignmentProbe

/-! ## The decoder of the probe -/

/-- `kMaxResponseBytes`. -/
def kMaxResponseBytes : ℕ := 64 * 1024

/-- The number in a size line: what stands before a semicolon, trimmed, and all of it. -/
def sizeField (line : List UInt8) : Option ℕ :=
  match fromChars 16 (2 ^ 64) (trim (line.takeWhile fun b => b ≠ 59)) with
  | some (size, []) => some size
  | _ => none

/-- The loop of `dechunk`. -/
def dechunkLoop : ℕ → List UInt8 → List UInt8 → Option (List UInt8)
  | 0, _, _ => none
  | fuel + 1, out, input =>
    match findSub crlf input with
    | none => none
    | some eol =>
      match sizeField (input.take eol) with
      | none => none
      | some size =>
        let input := input.drop (eol + 2)
        if size = 0 then some out
        else if kMaxResponseBytes < size ∨ kMaxResponseBytes < out.length + size ∨
            input.length < size + 2 then none
        else if (input.drop size).take 2 ≠ crlf then none
        else dechunkLoop fuel (out ++ input.take size) ((input.drop size).drop 2)

/-- `detail::dechunk`; a turn of its loop takes a line end off the text. -/
def dechunk (input : List UInt8) : Option (List UInt8) := dechunkLoop (input.length + 1) [] input

variable {line : List UInt8} {n : ℕ}

/-- The digits of a number are all of its text. -/
theorem fromChars_all {base bound : ℕ} {l : List UInt8} {n : ℕ}
    (h : fromChars base bound l = some (n, [])) :
    l ≠ [] ∧ (∀ b ∈ l, (digitValue base b).isSome) ∧ digitsValue base l = n := by
  simp only [fromChars] at h
  split_ifs at h with hnone
  obtain ⟨hval, hdrop⟩ := Prod.mk.inj (Option.some.inj h)
  have hall := List.dropWhile_eq_nil_iff.mp hdrop
  rw [List.takeWhile_eq_self_iff.mpr hall] at hnone hval
  exact ⟨fun hnil => hnone (.inl hnil), hall, hval⟩

theorem sizeField_chunkLine (h : ChunkLine n line) (hn : n < 2 ^ 64) :
    sizeField line = some n := by
  obtain ⟨digits, hfield, hne, hdig, rfl⟩ := h.field
  rw [sizeField, hfield, fromChars_digits hne hdig hn]

theorem chunkLine_of_sizeField (hend : EndsAtFirst crlf line) (h : sizeField line = some n) :
    ChunkLine n line := by
  refine ⟨hend, ?_⟩
  rw [sizeField] at h
  split at h
  case h_2 => cases h
  case h_1 size hread =>
    obtain rfl := Option.some.inj h
    obtain ⟨hne, hdig, hval⟩ := fromChars_all hread
    obtain ⟨before, after, hsplit, hb, ha⟩ := trim_split (line.takeWhile fun b => b ≠ 59)
    refine ⟨before, _, after, line.dropWhile fun b => b ≠ 59, ?_, hb, ha, hne, hdig, hval, ?_⟩
    · rw [← hsplit, List.takeWhile_append_dropWhile]
    · cases hdrop : line.dropWhile fun b => b ≠ 59 with
      | nil => exact .inl rfl
      | cons b ext =>
        have hhead := List.head?_dropWhile_not (fun b : UInt8 => decide (b ≠ 59)) line
        rw [hdrop] at hhead
        exact .inr (by simpa using hhead)

/-- **What the probe decodes is a chunked body**, within the limit. -/
theorem chunked_of_dechunkLoop {fuel : ℕ} {out input res : List UInt8}
    (h : dechunkLoop fuel out input = some res) :
    ∃ body, res = out ++ body ∧ (∃ trailers, Chunked ChunkLine trailers input body) ∧
      (out.length ≤ kMaxResponseBytes → res.length ≤ kMaxResponseBytes) := by
  induction fuel generalizing out input with
  | zero => cases h
  | succ fuel ih =>
    rw [dechunkLoop] at h
    split at h
    · cases h
    next eol hfind =>
    obtain ⟨line, rest, rfl, rfl, hend⟩ := line_of_find hfind
    rw [take_line, drop_line] at h
    split at h
    · cases h
    next size hsize =>
    have hline := chunkLine_of_sizeField hend hsize
    dsimp only at h
    split_ifs at h with hzero hlimits hcrlf
    · obtain rfl := Option.some.inj h
      subst hzero
      exact ⟨[], (List.append_nil _).symm, ⟨rest, .last hline⟩, id⟩
    · -- the data and its line end are there
      obtain ⟨body, rfl, ⟨trailers, hbody⟩, hlen⟩ := ih h
      have hdata : (rest.take size).length = size := by
        rw [List.length_take]
        omega
      have hrest : rest = rest.take size ++ (crlf ++ (rest.drop size).drop 2) := by
        rw [← not_not.mp hcrlf, List.take_append_drop, List.take_append_drop]
      have hne : rest.take size ≠ [] := by
        rw [← List.length_pos_iff_ne_nil, hdata]
        omega
      rw [← hdata] at hline
      have hchunk := Chunked.chunk hline hne hbody
      rw [← hrest] at hchunk
      refine ⟨rest.take size ++ body, List.append_assoc _ _ _, ⟨trailers, hchunk⟩, fun _ => hlen ?_⟩
      rw [List.length_append, hdata]
      omega

theorem dechunkLoop_chunked {trailers input body : List UInt8}
    (h : Chunked ChunkLine trailers input body) :
    ∀ {fuel : ℕ} {out : List UInt8}, input.length < fuel →
      (out ++ body).length ≤ kMaxResponseBytes →
      dechunkLoop fuel out input = some (out ++ body) := by
  induction h with
  | last hline =>
    intro fuel out hfuel _
    obtain ⟨fuel, rfl⟩ := Nat.exists_eq_succ_of_ne_zero (by omega : fuel ≠ 0)
    rw [dechunkLoop, hline.endsAtFirst.find]
    simp only [take_line, sizeField_chunkLine hline (by decide), if_true, List.append_nil]
  | @chunk line data wire body hline hne _ ih =>
    intro fuel out hfuel hlen
    obtain ⟨fuel, rfl⟩ := Nat.exists_eq_succ_of_ne_zero (by omega : fuel ≠ 0)
    simp only [List.length_append] at hlen hfuel
    have hpos : 0 < data.length := List.length_pos_iff_ne_nil.mpr hne
    have hmax : kMaxResponseBytes < 2 ^ 64 := by decide
    have htwo : (crlf ++ wire).length = wire.length + 2 := by
      rw [List.length_append, Nat.add_comm]
      rfl
    rw [dechunkLoop, hline.endsAtFirst.find]
    simp only [take_line, drop_line, sizeField_chunkLine hline (by omega)]
    rw [if_neg (by omega), if_neg, List.drop_left, if_neg, List.take_left]
    · have hwire : (crlf ++ wire).drop 2 = wire := rfl
      rw [hwire, ih (by omega), List.append_assoc]
      simp only [List.length_append]
      omega
    · rw [not_not]
      rfl
    · rw [List.length_append, htwo]
      omega

/-- **The probe accepts the chunked bodies of at most 64 KiB, and no other text.** -/
theorem dechunk_eq_some_iff {input body : List UInt8} :
    dechunk input = some body ↔
      (∃ trailers, Chunked ChunkLine trailers input body) ∧ body.length ≤ kMaxResponseBytes := by
  constructor
  · intro h
    obtain ⟨body, rfl, hchunked, hlen⟩ := chunked_of_dechunkLoop h
    exact ⟨hchunked, hlen (Nat.zero_le _)⟩
  · rintro ⟨⟨trailers, hchunked⟩, hlen⟩
    exact dechunkLoop_chunked hchunked (Nat.lt_succ_self _) hlen

/-- A chunked body that is cut before the end of its terminal line is refused. -/
theorem dechunk_truncated {trailers wire body : List UInt8}
    (h : Chunked ChunkLine trailers wire body) {k : ℕ} (hk : k + trailers.length < wire.length) :
    dechunk (wire.take k) = none := by
  cases hcut : dechunk (wire.take k) with
  | none => rfl
  | some body' =>
    obtain ⟨⟨trailers', hchunked⟩, -⟩ := dechunk_eq_some_iff.mp hcut
    obtain ⟨htrailers, -⟩ := hchunked.unique h (List.take_append_drop k wire).symm
    have hlen := congrArg List.length htrailers
    rw [List.length_append, List.length_drop] at hlen
    omega

end AlignmentProbe

/-! ## The decoder of the Kubernetes client -/

/-- `K8S_MAX_RESPONSE_SIZE`. -/
def k8sMaxResponseSize : ℕ := 16 * 1024 * 1024

/-- `max_size()` of a string. -/
def stringMaxSize : ℕ := 2 ^ 63 - 2

/-- How a decoding fails. The last one would be a read behind the end of the body. -/
inductive DecodeError : Type where
  | invalidChunkSize
  | incompleteChunkData
  | lengthError
  | outOfBounds
  deriving DecidableEq, Repr

/-- The decoding loop of `k8s_get`, at `pos` in `body`. The sum it compares with the size of the
body is computed in 64 bits. -/
def k8sDechunkLoop (body : List UInt8) : ℕ → List UInt8 → ℕ → Except DecodeError (List UInt8)
  | 0, decoded, _ => .ok decoded
  | fuel + 1, decoded, pos =>
    if body.length ≤ pos then .ok decoded
    else
      match findSub crlf (body.drop pos) with
      | none => .ok decoded
      | some len =>
        let sizeLine := (body.drop pos).take len
        if sizeLine = [] then k8sDechunkLoop body fuel decoded (pos + len + 2)
        else
          match fromChars 16 (2 ^ 64) (sizeLine.takeWhile fun b => (digitValue 16 b).isSome) with
          | some (chunkSize, []) =>
            let pos := pos + len + 2
            if chunkSize = 0 then .ok decoded
            else if body.length < (pos + chunkSize) % 2 ^ 64 then .error .incompleteChunkData
            else if stringMaxSize < decoded.length + chunkSize then .error .lengthError
            else if body.length < pos + chunkSize then .error .outOfBounds
            else
              k8sDechunkLoop body fuel (decoded ++ (body.drop pos).take chunkSize)
                (pos + chunkSize + 2)
          | _ => .error .invalidChunkSize

/-- The decoding of a chunked body in `k8s_get`; each turn of its loop moves the position. -/
def k8sDechunk (body : List UInt8) : Except DecodeError (List UInt8) :=
  k8sDechunkLoop body (body.length + 1) [] 0

/-- The digits at the front of a plain line are its number. -/
theorem PlainLine.hexPart {n : ℕ} {line : List UInt8} (h : PlainLine n line) (hn : n < 2 ^ 64) :
    line ≠ [] ∧
      fromChars 16 (2 ^ 64) (line.takeWhile fun b => (digitValue 16 b).isSome) = some (n, []) := by
  obtain ⟨before, digits, after, ext, rfl, hb, ha, hne, hdig, rfl, hext⟩ := h.form
  have hbefore : before = [] := by
    cases before with
    | nil => rfl
    | cons b before =>
      have hdigit := h.plain b (by simp)
      have hblank := hb b (List.mem_cons_self ..)
      rw [digit_not_blank hdigit] at hblank
      cases hblank
  subst hbefore
  have hstop : (after ++ ext).takeWhile (fun b => (digitValue 16 b).isSome) = [] := by
    cases after with
    | nil =>
      cases ext with
      | nil => rfl
      | cons b ext =>
        obtain rfl : b = 59 := by simpa using hext
        rfl
    | cons b after =>
      rw [List.cons_append, List.takeWhile_cons_of_neg]
      intro hdigit
      have hblank := ha b (List.mem_cons_self ..)
      rw [digit_not_blank hdigit] at hblank
      cases hblank
  refine ⟨?_, ?_⟩
  · intro hnil
    simp only [List.nil_append, List.append_eq_nil_iff] at hnil
    exact hne hnil.1.1
  · rw [List.nil_append, List.append_assoc, List.takeWhile_append_of_pos hdig, hstop,
      List.append_nil, fromChars_digits hne hdig hn]

theorem k8sDechunkLoop_chunked {trailers wire content : List UInt8}
    (h : Chunked PlainLine trailers wire content) :
    ∀ {pre decoded : List UInt8} {fuel : ℕ}, wire.length < fuel →
      (pre ++ wire).length ≤ k8sMaxResponseSize → decoded.length ≤ pre.length →
      k8sDechunkLoop (pre ++ wire) fuel decoded pre.length = .ok (decoded ++ content) := by
  have hmax : k8sMaxResponseSize + k8sMaxResponseSize ≤ stringMaxSize := by decide
  have hword : stringMaxSize + k8sMaxResponseSize < 2 ^ 64 := by decide
  induction h with
  | @last line hline =>
    intro pre decoded fuel hfuel _ _
    obtain ⟨fuel, rfl⟩ := Nat.exists_eq_succ_of_ne_zero (by omega : fuel ≠ 0)
    obtain ⟨hne, hread⟩ := hline.hexPart (by decide)
    have hpos : 0 < line.length := List.length_pos_iff_ne_nil.mpr hne
    rw [k8sDechunkLoop, if_neg, List.drop_left, hline.endsAtFirst.find]
    · simp only [take_line, hne, hread, if_true, if_false, List.append_nil]
    · simp only [List.length_append]
      omega
  | @chunk line data wire content hline hdata _ ih =>
    intro pre decoded fuel hfuel hsize hdecoded
    obtain ⟨fuel, rfl⟩ := Nat.exists_eq_succ_of_ne_zero (by omega : fuel ≠ 0)
    have hcrlf : crlf.length = 2 := rfl
    have hlen := hsize
    simp only [List.length_append, hcrlf] at hlen hfuel
    obtain ⟨hne, hread⟩ := hline.hexPart (by omega)
    have hpos : 0 < line.length := List.length_pos_iff_ne_nil.mpr hne
    have hdpos : 0 < data.length := List.length_pos_iff_ne_nil.mpr hdata
    have hbody : (pre ++ (line ++ crlf ++ (data ++ (crlf ++ wire)))).length =
        pre.length + line.length + 2 + data.length + 2 + wire.length := by
      simp only [List.length_append, hcrlf]
      omega
    have hdrop : (pre ++ (line ++ crlf ++ (data ++ (crlf ++ wire)))).drop
        (pre.length + line.length + 2) = data ++ (crlf ++ wire) := by
      rw [Nat.add_assoc, List.drop_append, List.drop_of_length_le (by omega), List.nil_append,
        Nat.add_sub_cancel_left, drop_line]
    have hrest := @ih (pre ++ (line ++ crlf ++ (data ++ crlf))) (decoded ++ data) fuel (by omega)
      (by simpa only [List.append_assoc] using hsize)
      (by simp only [List.length_append, hcrlf]; omega)
    have hat : (pre ++ (line ++ crlf ++ (data ++ crlf))).length =
        pre.length + line.length + 2 + data.length + 2 := by
      simp only [List.length_append, hcrlf]
      omega
    have hwhole : pre ++ (line ++ crlf ++ (data ++ crlf)) ++ wire =
        pre ++ (line ++ crlf ++ (data ++ (crlf ++ wire))) := by
      simp only [List.append_assoc]
    rw [hat, hwhole, List.append_assoc decoded data content] at hrest
    rw [k8sDechunkLoop, if_neg (by omega), List.drop_left, hline.endsAtFirst.find]
    simp only [take_line, hne, hread, if_false, hdrop, List.take_left, hbody]
    rw [if_neg (by omega), Nat.mod_eq_of_lt (by omega), if_neg (by omega), if_neg (by omega),
      if_neg (by omega), hrest]

/-- The Kubernetes client decodes a chunked body to its content, if no blank stands before a
size. -/
theorem k8sDechunk_chunked {trailers wire content : List UInt8}
    (h : Chunked PlainLine trailers wire content) (hsize : wire.length ≤ k8sMaxResponseSize) :
    k8sDechunk wire = .ok content :=
  @k8sDechunkLoop_chunked trailers wire content h [] [] _ (Nat.lt_succ_self _) hsize le_rfl

/-- The sum in `k8s_get` can overflow, but then the chunk is too long for a string. -/
theorem k8sDechunkLoop_inBounds {body : List UInt8} (hsize : body.length ≤ k8sMaxResponseSize)
    {fuel : ℕ} {decoded : List UInt8} {pos : ℕ} :
    k8sDechunkLoop body fuel decoded pos ≠ .error .outOfBounds := by
  have hword : stringMaxSize + k8sMaxResponseSize < 2 ^ 64 := by decide
  induction fuel generalizing decoded pos with
  | zero =>
    intro h
    cases h
  | succ fuel ih =>
    rw [k8sDechunkLoop]
    split_ifs with hend
    · intro h
      cases h
    split
    · intro h
      cases h
    next len hfind =>
    have hfit : len + 2 ≤ (body.drop pos).length := by
      obtain ⟨line, rest, hsplit, rfl, -⟩ := line_of_find hfind
      rw [hsplit, List.length_append, List.length_append]
      exact Nat.le_add_right _ _
    rw [List.length_drop] at hfit
    dsimp only
    split_ifs with hempty
    · exact ih
    split
    · next chunkSize _ =>
      split_ifs with hzero hincomplete hlong hout
      · intro h
        cases h
      · intro h
        cases h
      · intro h
        cases h
      · -- the position is in the body, so the sum did not overflow
        rw [Nat.mod_eq_of_lt (by omega)] at hincomplete
        exact absurd hout hincomplete
      · exact ih
    · intro h
      cases h

/-! ## The two decoders -/

/-- What the two clients make of the chunked bodies. -/
structure ChunkedDecoding (wire : List UInt8) : Prop where
  /-- the probe takes the chunked bodies within its limit for their content, and nothing else -/
  probe : ∀ content, AlignmentProbe.dechunk wire = some content ↔
    (∃ trailers, Chunked ChunkLine trailers wire content) ∧
      content.length ≤ AlignmentProbe.kMaxResponseBytes
  /-- a body that is cut before the end of its terminal line is refused -/
  truncated : ∀ trailers content, Chunked ChunkLine trailers wire content →
    ∀ k, k + trailers.length < wire.length → AlignmentProbe.dechunk (wire.take k) = none
  /-- the Kubernetes client gets the same content if no blank stands before a size -/
  agree : ∀ trailers content, Chunked PlainLine trailers wire content →
    k8sDechunk wire = .ok content ∧ (content.length ≤ AlignmentProbe.kMaxResponseBytes →
      AlignmentProbe.dechunk wire = some content)
  /-- whatever the text, it reads nothing behind its end -/
  inBounds : k8sDechunk wire ≠ .error .outOfBounds

/-- **Both clients decode a chunked body to its content**, for every text a response may
consist of. -/
theorem chunked_decoding {wire : List UInt8} (hsize : wire.length ≤ k8sMaxResponseSize) :
    ChunkedDecoding wire where
  probe _ := AlignmentProbe.dechunk_eq_some_iff
  truncated _ _ h _ hk := AlignmentProbe.dechunk_truncated h hk
  agree _ _ h := ⟨k8sDechunk_chunked h hsize, fun hlen =>
    AlignmentProbe.dechunk_eq_some_iff.mpr ⟨⟨_, h.mono fun _ _ hline => hline.toChunkLine⟩, hlen⟩⟩
  inBounds := k8sDechunkLoop_inBounds hsize

/-- A chunk of two bytes with an extension. -/
def twoByteChunk : List UInt8 :=
  ascii "2;a=b" ++ crlf ++ ascii "ok" ++ crlf ++ ascii "0" ++ crlf ++ crlf

theorem chunked_decoding_twoBytes : ChunkedDecoding twoByteChunk ∧
    AlignmentProbe.dechunk twoByteChunk = some (ascii "ok") ∧
    k8sDechunk twoByteChunk = .ok (ascii "ok") :=
  ⟨chunked_decoding (by decide), by decide, by decide⟩

end Ranvier
