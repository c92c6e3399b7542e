import Ranvier.ContentStream
import Ranvier.Fragments

/-!
# One response, cut in two ways

The limits on a header block and on a chunk-size line are tested when the parser finds the
element **incomplete**; one that arrives complete is taken whatever its length. So the
verdict on a response depends on where the network cuts it.

* `Phase.read` — the elements of a response without any limit, a `TextReader`;
* `push_reads` — a push reads on where the last one stopped, and fails at malformed bytes or
  when it stops within an element that is over its limit;
* `feed_taken`, `feed_pieces` — some cut of a response is taken exactly if its elements are
  well formed and fit the accumulator (`TakesSomeCut`);
* `feed_any` — every cut is taken if each element is within its limit (`TakesAnyCut`);
* `cuts_agree_iff` — all cuts of a response agree exactly if none is taken or all are.
-/

namespace Ranvier

/-! ## Elements -/

/-- What the parser reads next: the state with the number it goes by. -/
inductive Phase : Type where
  | headers
  | chunkSize
  | chunkData (needed : ℕ)
  | contentBody (length : ℕ)
  deriving DecidableEq, Repr

/-- An element that ends with the first occurrence of `pat`; `parse` says what follows the
text before it. -/
def delimited (pat : List UInt8) (parse : List UInt8 → Option (Option Phase)) (l : List UInt8) :
    ReadStep Phase UInt8 :=
  match findSub pat l with
  | none => .needMore
  | some i =>
    match parse (l.take i) with
    | none => .malformed
    | some next => .item (i + pat.length) [] next

/-- An element of `len` bytes that delivers the first `k` of them. -/
def sizedBytes (len k : ℕ) (next : Option Phase) (l : List UInt8) : ReadStep Phase UInt8 :=
  if l.length < len then .needMore else .item len (l.take k) next

/-- What follows a header block. -/
def afterHeaders (headers : List UInt8) : Option (Option Phase) :=
  match scanLines (headerLines headers) {} with
  | (_, false) => none
  | (scan, true) =>
    if scan.isChunked then some (some .chunkSize)
    else if maxAccumulatorSize < scan.contentLength then none
    else some (some (.contentBody scan.contentLength))

/-- What follows a chunk-size line. -/
def afterSizeLine (line : List UInt8) : Option (Option Phase) :=
  match readChunkSize line with
  | none => none
  | some n =>
    if maxChunkSize < n then none else some (if n = 0 then none else some (.chunkData n))

namespace Phase

/-- The next element of a response. -/
def read : Phase → List UInt8 → ReadStep Phase UInt8
  | .headers => delimited crlfcrlf afterHeaders
  | .chunkSize => delimited crlf afterSizeLine
  | .chunkData n => sizedBytes (n + 2) n (some .chunkSize)
  -- without a length the body is delivered as it comes
  | .contentBody 0 => sizedBytes 1 1 (some (.contentBody 0))
  | .contentBody (n + 1) => sizedBytes (n + 1) (n + 1) none

/-- The limit on an incomplete element. -/
def limit : Phase → Option ℕ
  | .headers => some maxHeaderSize
  | .chunkSize => some 32
  | .chunkData _ => none
  | .contentBody _ => none

/-- The parser waits for the rest of an element of which it has `n` bytes. -/
def Waits (phase : Phase) (n : ℕ) : Prop := ∀ k ∈ phase.limit, n ≤ k

theorem waits_of_limit {phase : Phase} (h : phase.limit = none) (n : ℕ) : phase.Waits n := by
  intro k hk
  rw [h] at hk
  cases hk

/-! ### The laws -/

theorem findSub_take {pat l : List UInt8} (hpat : pat ≠ []) {i k : ℕ}
    (h : findSub pat l = some i) :
    findSub pat (l.take k) = if i + pat.length ≤ k then some i else none := by
  have hsplit : findSub pat (l.take k ++ l.drop k) = some i := by rwa [List.take_append_drop]
  obtain ⟨text, rest, hl, htext, -⟩ := findSub_split hpat h
  have hlen : i + pat.length ≤ l.length := by
    rw [hl, List.length_append, List.length_append, htext]
    omega
  rw [findSub_left hpat hsplit, List.length_take]
  by_cases hk : i + pat.length ≤ k
  · rw [if_pos hk, if_pos (by omega)]
  · rw [if_neg hk, if_neg (by omega)]

theorem findSub_front {pat l : List UInt8} (hpat : pat ≠ []) {i : ℕ} (h : findSub pat l = some i)
    (m : List UInt8) :
    findSub pat (l.take (i + pat.length) ++ m) = some i ∧
      (l.take (i + pat.length) ++ m).take i = l.take i := by
  have htake := findSub_take (k := i + pat.length) hpat h
  rw [if_pos le_rfl] at htake
  refine ⟨findSub_append hpat htake, ?_⟩
  obtain ⟨text, rest, hl, htext, -⟩ := findSub_split hpat h
  have hlen : i + pat.length ≤ l.length := by
    rw [hl, List.length_append, List.length_append, htext]
    omega
  rw [List.take_append_of_le_length (by rw [List.length_take]; omega), List.take_take,
    Nat.min_eq_left (by omega)]

/-- The laws of a reader for one way of reading. -/
structure Lawful (read : List UInt8 → ReadStep Phase UInt8) : Prop where
  item_length : ∀ {l len out next}, read l = .item len out next → 0 < len ∧ len ≤ l.length
  item_front : ∀ {l len out next} (m : List UInt8), read l = .item len out next →
    read (l.take len ++ m) = .item len out next
  malformed_append : ∀ {l} (m : List UInt8), read l = .malformed → read (l ++ m) = .malformed
  item_take : ∀ {l len out next} {k : ℕ}, read l = .item len out next → k < len →
    read (l.take k) = .needMore

theorem delimited_item {pat l out : List UInt8} {parse : List UInt8 → Option (Option Phase)}
    {len : ℕ} {next : Option Phase} (h : delimited pat parse l = .item len out next) :
    ∃ i, findSub pat l = some i ∧ len = i + pat.length ∧ out = [] ∧
      parse (l.take i) = some next := by
  rw [delimited] at h
  split at h
  · cases h
  · next i hi =>
    split at h
    · cases h
    · next next' hnext =>
      obtain ⟨rfl, rfl, rfl⟩ := ReadStep.item.inj h
      exact ⟨i, hi, rfl, rfl, hnext⟩

theorem delimited_lawful {pat : List UInt8} (hpat : pat ≠ [])
    (parse : List UInt8 → Option (Option Phase)) : Lawful (delimited pat parse) where
  item_length {l len out next} h := by
    obtain ⟨i, hi, rfl, -, -⟩ := delimited_item h
    obtain ⟨text, rest, hl, htext, -⟩ := findSub_split hpat hi
    have hpos := List.length_pos_of_ne_nil hpat
    rw [hl, List.length_append, List.length_append, htext]
    omega
  item_front {l len out next} m h := by
    obtain ⟨i, hi, rfl, rfl, hnext⟩ := delimited_item h
    obtain ⟨hfind, htake⟩ := findSub_front hpat hi m
    simp only [delimited, hfind, htake, hnext]
  malformed_append {l} m h := by
    rw [delimited] at h
    split at h
    · cases h
    · next i hi =>
      split at h
      · next hnone =>
        obtain ⟨text, rest, hl, htext, -⟩ := findSub_split hpat hi
        have htake : (l ++ m).take i = l.take i := by
          refine List.take_append_of_le_length ?_
          rw [hl, List.length_append, List.length_append, htext]
          omega
        simp only [delimited, findSub_append hpat hi, htake, hnone]
      · cases h
  item_take {l len out next k} h hk := by
    obtain ⟨i, hi, rfl, -, -⟩ := delimited_item h
    simp only [delimited, findSub_take hpat hi, if_neg (Nat.not_le.mpr hk)]

theorem sizedBytes_item {len k len' : ℕ} {next next' : Option Phase} {l out : List UInt8}
    (h : sizedBytes len k next l = .item len' out next') :
    len ≤ l.length ∧ len' = len ∧ out = l.take k ∧ next' = next := by
  rw [sizedBytes] at h
  split at h
  · cases h
  · next hlen =>
    obtain ⟨rfl, rfl, rfl⟩ := ReadStep.item.inj h
    exact ⟨Nat.le_of_not_lt hlen, rfl, rfl, rfl⟩

theorem sizedBytes_lawful {len k : ℕ} (hpos : 0 < len) (hk : k ≤ len) (next : Option Phase) :
    Lawful (sizedBytes len k next) := by
  refine ⟨fun h => ?_, fun {l} _ _ _ m h => ?_, fun m h => ?_, fun h hlt => ?_⟩
  · obtain ⟨hle, rfl, -, -⟩ := sizedBytes_item h
    exact ⟨hpos, hle⟩
  · obtain ⟨hle, hlen, hout, hnext⟩ := sizedBytes_item h
    rw [hlen, hout, hnext]
    have htake : (l.take len ++ m).take k = l.take k := by
      rw [List.take_append_of_le_length (by rw [List.length_take]; omega), List.take_take,
        Nat.min_eq_left hk]
    rw [sizedBytes, if_neg (by rw [List.length_append, List.length_take]; omega), htake]
  · rw [sizedBytes] at h
    split at h <;> cases h
  · obtain ⟨hle, rfl, -, -⟩ := sizedBytes_item h
    rw [sizedBytes, if_pos (by rw [List.length_take]; omega)]

theorem read_lawful (phase : Phase) : Lawful phase.read := by
  match phase with
  | .headers => exact delimited_lawful crlfcrlf_ne_nil afterHeaders
  | .chunkSize => exact delimited_lawful crlf_ne_nil afterSizeLine
  | .chunkData n => exact sizedBytes_lawful (Nat.succ_pos _) (Nat.le_add_right n 2) _
  | .contentBody 0 => exact sizedBytes_lawful Nat.one_pos le_rfl _
  | .contentBody (n + 1) => exact sizedBytes_lawful (Nat.succ_pos n) le_rfl _

end Phase

/-- The elements of a response, as a reader. -/
def responseReader : TextReader Phase UInt8 UInt8 where
  read := Phase.read
  item_length {s} _ _ _ _ h := (Phase.read_lawful s).item_length h
  item_front {s} _ _ _ _ m h := (Phase.read_lawful s).item_front m h
  malformed_append {s} _ m h := (Phase.read_lawful s).malformed_append m h
  item_take {s} _ _ _ _ _ h hk := (Phase.read_lawful s).item_take h hk

/-! ## The parser reads elements -/

namespace StreamParser

/-- The parser is about to read an element of this kind. -/
def In (p : StreamParser) : Phase → Prop
  | .headers => p.state = .Headers
  | .chunkSize => p.state = .ChunkSize
  | .chunkData n => p.state = .ChunkData ∧ p.chunkBytesNeeded = n
  | .contentBody n => p.state = .ContentBody ∧ p.contentLength = n

variable {p : StreamParser} {phase : Phase}

theorem In.state_ne_error (h : p.In phase) : p.state ≠ .Error := by
  cases phase with
  | headers => simp [show p.state = .Headers from h]
  | chunkSize => simp [show p.state = .ChunkSize from h]
  | chunkData n => simp [h.1]
  | contentBody n => simp [h.1]

/-- The phase depends on the control fields only. -/
theorem In.congr {p' : StreamParser} (h : p.In phase) (hstate : p'.state = p.state)
    (hneeded : p'.chunkBytesNeeded = p.chunkBytesNeeded)
    (hlength : p'.contentLength = p.contentLength) : p'.In phase := by
  cases phase with
  | headers => exact hstate.trans h
  | chunkSize => exact hstate.trans h
  | chunkData n => exact ⟨hstate.trans h.1, hneeded.trans h.2⟩
  | contentBody n => exact ⟨hstate.trans h.1, hlength.trans h.2⟩

theorem delimited_needMore {pat l : List UInt8} {parse : List UInt8 → Option (Option Phase)}
    (h : delimited pat parse l = .needMore) : findSub pat l = none := by
  rw [delimited] at h
  split at h
  · assumption
  · split at h <;> cases h

theorem sizedBytes_needMore {len k : ℕ} {next : Option Phase} {l : List UInt8}
    (h : sizedBytes len k next l = .needMore) : l.length < len := by
  rw [sizedBytes] at h
  split at h
  · assumption
  · cases h

/-- An incomplete element: the parser waits, unless it is over the limit. -/
theorem parseStep_needMore (res : ParserResult) (hin : p.In phase)
    (hread : phase.read p.unreadView = .needMore) :
    (phase.Waits p.unreadView.length ∧ p.parseStep res = (some 0, p, res)) ∨
      (¬ phase.Waits p.unreadView.length ∧ ∃ res', p.parseStep res = (none, p, res')) := by
  match phase with
  | .headers =>
    have hnone := delimited_needMore hread
    have hstate : p.state = .Headers := hin
    simp only [parseStep, hstate, parseHeaders, hnone, Phase.Waits, Phase.limit,
      Option.mem_some_iff, forall_eq']
    split
    · next hlong => exact Or.inr ⟨Nat.not_le.mpr hlong, _, rfl⟩
    · next hshort => exact Or.inl ⟨Nat.le_of_not_lt hshort, rfl⟩
  | .chunkSize =>
    have hnone := delimited_needMore hread
    have hstate : p.state = .ChunkSize := hin
    simp only [parseStep, hstate, parseChunkSize, hnone, Phase.Waits, Phase.limit,
      Option.mem_some_iff, forall_eq']
    split
    · next hlong => exact Or.inr ⟨Nat.not_le.mpr hlong, _, rfl⟩
    · next hshort => exact Or.inl ⟨Nat.le_of_not_lt hshort, rfl⟩
  | .chunkData n =>
    have hshort := sizedBytes_needMore hread
    obtain ⟨hstate, hneeded⟩ := hin
    refine Or.inl ⟨Phase.waits_of_limit rfl _, ?_⟩
    simp only [parseStep, hstate, parseChunkData, hneeded, if_pos hshort]
  | .contentBody 0 =>
    have hshort := sizedBytes_needMore hread
    have hnil : p.unreadView = [] := List.length_eq_zero_iff.mp (by omega)
    obtain ⟨hstate, hlength⟩ := hin
    refine Or.inl ⟨Phase.waits_of_limit rfl _, ?_⟩
    simp only [parseStep, hstate, parseContentBody, hlength, hnil, lt_irrefl, if_false,
      List.append_nil, List.length_nil]
  | .contentBody (n + 1) =>
    have hshort := sizedBytes_needMore hread
    obtain ⟨hstate, hlength⟩ := hin
    refine Or.inl ⟨Phase.waits_of_limit rfl _, ?_⟩
    simp only [parseStep, hstate, parseContentBody, hlength, if_pos hshort,
      if_pos (Nat.succ_pos n)]

theorem delimited_malformed {pat l : List UInt8} {parse : List UInt8 → Option (Option Phase)}
    (h : delimited pat parse l = .malformed) :
    ∃ i, findSub pat l = some i ∧ parse (l.take i) = none := by
  rw [delimited] at h
  split at h
  · cases h
  · next i hi =>
    split at h
    · next hnone => exact ⟨i, hi, hnone⟩
    · cases h

theorem sizedBytes_ne_malformed (len k : ℕ) (next : Option Phase) (l : List UInt8) :
    sizedBytes len k next l ≠ .malformed := by
  rw [sizedBytes]
  split <;> simp

/-- A malformed element is an error. -/
theorem parseStep_malformed (res : ParserResult) (hin : p.In phase)
    (hread : phase.read p.unreadView = .malformed) :
    ∃ p' res', p.parseStep res = (none, p', res') := by
  match phase with
  | .headers =>
    obtain ⟨i, hi, hnone⟩ := delimited_malformed hread
    have hstate : p.state = .Headers := hin
    rw [afterHeaders] at hnone
    simp only [parseStep, hstate, parseHeaders, hi]
    generalize scanLines (headerLines (p.unreadView.take i)) {} = out at hnone ⊢
    obtain ⟨scan, ok⟩ := out
    cases ok with
    | false => exact ⟨_, _, rfl⟩
    | true =>
      dsimp only at hnone ⊢
      split at hnone
      · cases hnone
      · next hnot =>
        rw [if_neg hnot]
        split at hnone
        · next hlong =>
          rw [if_pos hlong]
          exact ⟨_, _, rfl⟩
        · cases hnone
  | .chunkSize =>
    obtain ⟨i, hi, hnone⟩ := delimited_malformed hread
    have hstate : p.state = .ChunkSize := hin
    rw [afterSizeLine] at hnone
    simp only [parseStep, hstate, parseChunkSize, hi]
    generalize readChunkSize (p.unreadView.take i) = size at hnone ⊢
    cases size with
    | none => exact ⟨_, _, rfl⟩
    | some n =>
      dsimp only at hnone ⊢
      split at hnone
      · next hlong =>
        rw [if_pos hlong]
        exact ⟨_, _, rfl⟩
      · cases hnone
  | .chunkData n => exact absurd hread (sizedBytes_ne_malformed _ _ _ _)
  | .contentBody 0 => exact absurd hread (sizedBytes_ne_malformed _ _ _ _)
  | .contentBody (n + 1) => exact absurd hread (sizedBytes_ne_malformed _ _ _ _)

/-- What the parser does with an element of `len` bytes. -/
structure Takes (p : StreamParser) (res : ParserResult) (len : ℕ) (out : List UInt8)
    (next : Option Phase) (p' : StreamParser) (res' : ParserResult) : Prop where
  step : p.parseStep res = (some len, p', res')
  accum : p'.accum = p.accum
  readPos : p'.readPos = p.readPos
  data : res'.data = res.data ++ out
  hasError : res'.hasError = res.hasError
  done : res'.done = (res.done || next.isNone)
  next : ∀ phase ∈ next, p'.In phase

theorem parseHeaders_item (res : ParserResult) (hstate : p.state = .Headers) {len : ℕ}
    {out : List UInt8} {next : Option Phase}
    (hread : Phase.headers.read p.unreadView = .item len out next) :
    ∃ p' res', Takes p res len out next p' res' := by
  obtain ⟨i, hi, rfl, rfl, hnext⟩ := Phase.delimited_item hread
  have hstep : p.parseStep res = p.parseHeaders res := by rw [parseStep, hstate]
  rw [afterHeaders] at hnext
  simp only [parseHeaders, hi] at hstep
  generalize scanLines (headerLines (p.unreadView.take i)) {} = scanned at hnext hstep
  obtain ⟨scan, ok⟩ := scanned
  cases ok with
  | false => cases hnext
  | true =>
    dsimp only at hnext hstep
    split at hnext
    · next hchunked =>
      rw [if_pos hchunked] at hstep
      obtain rfl := Option.some.inj hnext
      exact ⟨_, _, hstep, rfl, rfl, (List.append_nil _).symm, rfl, (Bool.or_false _).symm,
        fun phase hphase => by rw [← Option.some.inj hphase]; rfl⟩
    · next hplain =>
      split at hnext
      · cases hnext
      · next hshort =>
        rw [if_neg hplain, if_neg hshort] at hstep
        obtain rfl := Option.some.inj hnext
        exact ⟨_, _, hstep, rfl, rfl, (List.append_nil _).symm, rfl, (Bool.or_false _).symm,
          fun phase hphase => by rw [← Option.some.inj hphase]; exact ⟨rfl, rfl⟩⟩

theorem parseChunkSize_item (res : ParserResult) (hstate : p.state = .ChunkSize) {len : ℕ}
    {out : List UInt8} {next : Option Phase}
    (hread : Phase.chunkSize.read p.unreadView = .item len out next) :
    ∃ p' res', Takes p res len out next p' res' := by
  obtain ⟨i, hi, rfl, rfl, hnext⟩ := Phase.delimited_item hread
  have hstep : p.parseStep res = p.parseChunkSize res := by rw [parseStep, hstate]
  rw [afterSizeLine] at hnext
  simp only [parseChunkSize, hi] at hstep
  generalize readChunkSize (p.unreadView.take i) = size at hnext hstep
  cases size with
  | none => cases hnext
  | some n =>
    dsimp only at hnext hstep
    split at hnext
    · cases hnext
    · next hshort =>
      rw [if_neg hshort] at hstep
      obtain rfl := Option.some.inj hnext
      by_cases hzero : n = 0
      · rw [if_pos hzero] at hstep
        rw [if_pos hzero]
        exact ⟨_, _, hstep, rfl, rfl, (List.append_nil _).symm, rfl, (Bool.or_true _).symm,
          fun phase hphase => by cases hphase⟩
      · rw [if_neg hzero] at hstep
        rw [if_neg hzero]
        exact ⟨_, _, hstep, rfl, rfl, (List.append_nil _).symm, rfl, (Bool.or_false _).symm,
          fun phase hphase => by rw [← Option.some.inj hphase]; exact ⟨rfl, rfl⟩⟩

/-- **A complete element** is taken whatever its length. -/
theorem parseStep_item (res : ParserResult) (hin : p.In phase) {len : ℕ} {out : List UInt8}
    {next : Option Phase}
    (hread : phase.read p.unreadView = .item len out next) (hbody : phase ≠ .contentBody 0) :
    ∃ p' res', Takes p res len out next p' res' := by
  match phase with
  | .headers => exact parseHeaders_item res hin hread
  | .chunkSize => exact parseChunkSize_item res hin hread
  | .chunkData n =>
    obtain ⟨hlen, rfl, rfl, rfl⟩ := Phase.sizedBytes_item hread
    obtain ⟨hstate, hneeded⟩ := hin
    have hstep : p.parseStep res = p.parseChunkData res := by rw [parseStep, hstate]
    rw [parseChunkData, hneeded, if_neg (Nat.not_lt.mpr hlen)] at hstep
    exact ⟨_, _, hstep, rfl, rfl, rfl, rfl, (Bool.or_false _).symm,
      fun phase hphase => by rw [← Option.some.inj hphase]; rfl⟩
  | .contentBody 0 => exact absurd rfl hbody
  | .contentBody (n + 1) =>
    obtain ⟨hlen, rfl, rfl, rfl⟩ := Phase.sizedBytes_item hread
    obtain ⟨hstate, hlength⟩ := hin
    have hstep : p.parseStep res = p.parseContentBody res := by rw [parseStep, hstate]
    rw [parseContentBody, hlength, if_pos (Nat.succ_pos n), if_neg (Nat.not_lt.mpr hlen)] at hstep
    exact ⟨_, _, hstep, rfl, rfl, rfl, rfl, (Bool.or_true _).symm,
      fun phase hphase => by cases hphase⟩

/-- A body without a length: everything at hand is delivered. -/
theorem parseStep_body (res : ParserResult) (hin : p.In (.contentBody 0)) :
    p.parseStep res =
      (some p.unreadView.length, p, { res with data := res.data ++ p.unreadView }) := by
  obtain ⟨hstate, hlength⟩ := hin
  simp only [parseStep, hstate, parseContentBody, hlength, lt_irrefl, if_false]

end StreamParser

/-- Reading a body without a length. -/
theorem readAll_body (l : List UInt8) :
    (responseReader.readAll (.contentBody 0) l).out = l ∧
      (responseReader.readAll (.contentBody 0) l).ending = .waiting (.contentBody 0) [] := by
  induction l with
  | nil =>
    have hread : responseReader.read (.contentBody 0) [] = .needMore := rfl
    rw [TextReader.readAll_needMore hread]
    exact ⟨rfl, rfl⟩
  | cons b l ih =>
    have hread : responseReader.read (.contentBody 0) (b :: l) =
        .item 1 [b] (some (.contentBody 0)) := by
      change sizedBytes 1 1 (some (.contentBody 0)) (b :: l) = _
      rw [sizedBytes, if_neg (by simp)]
      rfl
    rw [TextReader.readAll_item hread]
    exact ⟨congrArg (b :: ·) ih.1, ih.2⟩

theorem sizedBytes_nil {len : ℕ} (hpos : 0 < len) (k : ℕ) (next : Option Phase) :
    sizedBytes len k next [] = .needMore := by
  rw [sizedBytes, if_pos (by rwa [List.length_nil])]

theorem Phase.read_nil (phase : Phase) : responseReader.read phase [] = .needMore := by
  match phase with
  | .headers => rfl
  | .chunkSize => rfl
  | .chunkData n => exact sizedBytes_nil (Nat.succ_pos (n + 1)) n (some .chunkSize)
  | .contentBody 0 => rfl
  | .contentBody (n + 1) => exact sizedBytes_nil (Nat.succ_pos n) (n + 1) none

theorem Phase.waits_zero (phase : Phase) : phase.Waits 0 := fun _ _ => Nat.zero_le _

/-- What the parser has come to after it has read `g`, with the data `before` delivered
already; `Kept` is what a parser that waits keeps. -/
inductive Reports (g : Reading Phase UInt8 UInt8) (before : List UInt8)
    (Kept : StreamParser → Prop) (p : StreamParser) (res : ParserResult) : Prop where
  | malformed (ending : g.ending = .malformed) (hasError : res.hasError = true)
  | ended (ending : g.ending = .ended) (hasError : res.hasError = false) (done : res.done = true)
      (data : res.data = before ++ g.out)
  | tooLong {phase : Phase} {tail : List UInt8} (ending : g.ending = .waiting phase tail)
      (exceeds : ¬ phase.Waits tail.length) (hasError : res.hasError = true)
  | waiting {phase : Phase} {tail : List UInt8} (ending : g.ending = .waiting phase tail)
      (waits : phase.Waits tail.length) (hasError : res.hasError = false)
      (done : res.done = false) (data : res.data = before ++ g.out) (phaseOk : p.In phase)
      (view : p.unreadView = tail) (kept : Kept p)

/-- The read position is within the accumulator, which has at most `room` bytes. -/
def Fits (room : ℕ) (p : StreamParser) : Prop := ReadPosOk p ∧ p.accum.length ≤ room

/-- One element more in front. -/
theorem Reports.after {g : Reading Phase UInt8 UInt8} {before out : List UInt8}
    {Kept : StreamParser → Prop} {p : StreamParser} {res : ParserResult} {items : List (Phase × ℕ)}
    (h : Reports g (before ++ out) Kept p res) : Reports (g.after items out) before Kept p res := by
  have hout : before ++ out ++ g.out = before ++ (out ++ g.out) := List.append_assoc _ _ _
  cases h with
  | malformed ending hasError => exact .malformed ending hasError
  | ended ending hasError done data => exact .ended ending hasError done (data.trans hout)
  | tooLong ending exceeds hasError => exact .tooLong ending exceeds hasError
  | waiting ending waits hasError done data phaseOk view kept =>
    exact .waiting ending waits hasError done (data.trans hout) phaseOk view kept

namespace StreamParser

variable {p : StreamParser} {phase : Phase}

/-- Nothing at hand: the loop stops where it is. -/
theorem parseLoop_reads_nil (fuel room : ℕ) (res : ParserResult) (hin : p.In phase)
    (hview : p.unreadView = [])
    (hfits : Fits room p) (hdone : res.done = false) (herr : res.hasError = false) :
    Reports (responseReader.readAll phase p.unreadView) res.data (Fits room)
      (parseLoop fuel p res).1 (parseLoop fuel p res).2 := by
  rw [parseLoop_empty hview, hview, TextReader.readAll_needMore phase.read_nil]
  exact .waiting rfl phase.waits_zero herr hdone (List.append_nil _).symm hin hview hfits

/-- A body without a length: the whole of it at hand goes at once. -/
theorem parseLoop_reads_body (fuel room : ℕ) (res : ParserResult) (hin : p.In (.contentBody 0))
    (hview : p.unreadView ≠ []) (hfits : Fits room p) (hdone : res.done = false)
    (herr : res.hasError = false) :
    Reports (responseReader.readAll (.contentBody 0) p.unreadView) res.data (Fits room)
      (parseLoop (fuel + 1) p res).1 (parseLoop (fuel + 1) p res).2 := by
  obtain ⟨hout, hending⟩ := readAll_body p.unreadView
  obtain ⟨k, hk⟩ := Nat.exists_eq_succ_of_ne_zero (mt List.length_eq_zero_iff.mp hview)
  have hstep := parseStep_body res hin
  rw [hk] at hstep
  have hlen : p.unreadView.length = p.accum.length - p.readPos := by
    rw [unreadView, List.length_drop]
  have hrest : { p with readPos := p.readPos + (k + 1) }.unreadView = [] := by
    change p.accum.drop (p.readPos + (k + 1)) = []
    rw [List.drop_eq_nil_iff]
    omega
  have hpos' : ReadPosOk { p with readPos := p.readPos + (k + 1) } := by
    change p.readPos + (k + 1) ≤ p.accum.length
    omega
  rw [parseLoop_go (readPos_lt hview) hin.state_ne_error hstep hdone, parseLoop_empty hrest]
  refine .waiting hending (Phase.waits_zero _) herr hdone ?_ (hin.congr rfl rfl rfl) hrest
    ⟨hpos', hfits.2⟩
  rw [hout]

/-- **The loop** reads the elements at hand, one after another. -/
theorem parseLoop_reads (fuel room : ℕ) (res : ParserResult) (hin : p.In phase)
    (hfuel : p.unreadView.length ≤ fuel)
    (hfits : Fits room p) (hdone : res.done = false) (herr : res.hasError = false) :
    Reports (responseReader.readAll phase p.unreadView) res.data (Fits room)
      (parseLoop fuel p res).1 (parseLoop fuel p res).2 := by
  induction fuel generalizing p phase res with
  | zero =>
    have hview : p.unreadView = [] := List.length_eq_zero_iff.mp (Nat.le_zero.mp hfuel)
    exact parseLoop_reads_nil _ room res hin hview hfits hdone herr
  | succ fuel ih =>
    by_cases hview : p.unreadView = []
    · exact parseLoop_reads_nil _ room res hin hview hfits hdone herr
    have hlt : p.readPos < p.accum.length := readPos_lt hview
    have hstate := hin.state_ne_error
    cases hread : responseReader.read phase p.unreadView with
    | needMore =>
      rw [TextReader.readAll_needMore hread]
      rcases parseStep_needMore res hin hread with ⟨hwaits, hstep⟩ | ⟨hover, res', hstep⟩
      · rw [parseLoop_wait hlt hstate hstep]
        exact .waiting rfl hwaits herr hdone (List.append_nil _).symm hin rfl hfits
      · rw [parseLoop_error hlt hstate hstep]
        exact .tooLong rfl hover rfl
    | malformed =>
      obtain ⟨p', res', hstep⟩ := parseStep_malformed res hin hread
      rw [TextReader.readAll_malformed hread, parseLoop_error hlt hstate hstep]
      exact .malformed rfl rfl
    | item len out next =>
      by_cases hbody : phase = .contentBody 0
      · subst hbody
        exact parseLoop_reads_body fuel room res hin hview hfits hdone herr
      · obtain ⟨p', res', htakes⟩ := parseStep_item res hin hread hbody
        obtain ⟨hlen, hle⟩ := responseReader.item_length hread
        obtain ⟨k, rfl⟩ := Nat.exists_eq_succ_of_ne_zero hlen.ne'
        have hview' : { p' with readPos := p'.readPos + (k + 1) }.unreadView =
            p.unreadView.drop (k + 1) := by
          rw [unreadView_advance htakes.accum htakes.readPos]
        have hpos' : ReadPosOk { p' with readPos := p'.readPos + (k + 1) } :=
          readPosOk_advance htakes.accum htakes.readPos hle
        cases next with
        | none =>
          have hend : res'.done = true := by rw [htakes.done, Option.isNone_none, Bool.or_true]
          rw [TextReader.readAll_last hread, parseLoop_done hlt hstate htakes.step hend]
          exact .ended rfl (htakes.hasError.trans herr) hend htakes.data
        | some next =>
          have hgo : res'.done = false := by
            rw [htakes.done, hdone]
            rfl
          rw [TextReader.readAll_item hread, parseLoop_go hlt hstate htakes.step hgo]
          have hroom : p'.accum.length ≤ room := by
            rw [htakes.accum]
            exact hfits.2
          have hrec := ih (p := { p' with readPos := p'.readPos + (k + 1) }) res'
            ((htakes.next next rfl).congr rfl rfl rfl) (by rw [hview', List.length_drop]; omega)
            ⟨hpos', hroom⟩ hgo (htakes.hasError.trans herr)
          rw [hview', htakes.data] at hrec
          exact hrec.after

theorem length_accum_compactIfNeeded (p : StreamParser) :
    p.compactIfNeeded.accum.length ≤ p.accum.length := by
  rw [compactIfNeeded]
  split
  · rw [unreadView, List.length_drop]
    exact Nat.sub_le _ _
  · exact le_rfl

/-- **One push** reads on where the last one stopped. -/
theorem push_reads (hin : p.In phase) (hcompact : Compact p) {chunk : List UInt8}
    (hne : chunk ≠ []) (hroom : p.accum.length + chunk.length ≤ maxAccumulatorSize) :
    Reports (responseReader.readAll phase (p.unreadView ++ chunk)) []
      (fun q => Compact q ∧ q.accum.length ≤ p.accum.length + chunk.length)
      (p.push chunk).1 (p.push chunk).2 := by
  have hpos := hcompact.readPosOk
  have hloop := parseLoop_reads (p := { p with accum := p.accum ++ chunk })
    { p with accum := p.accum ++ chunk }.unreadView.length (p.accum.length + chunk.length) {}
    (hin.congr rfl rfl rfl) le_rfl
    ⟨readPosOk_push hpos chunk, by rw [List.length_append]⟩ rfl rfl
  rw [unreadView_push hpos] at hloop
  rw [push_eq hin.state_ne_error hne hroom]
  dsimp only
  rw [unreadView_push hpos]
  generalize parseLoop (p.unreadView ++ chunk).length { p with accum := p.accum ++ chunk } {} = r
    at hloop
  cases hloop with
  | malformed ending hasError => exact .malformed ending hasError
  | ended ending hasError done data => exact .ended ending hasError done data
  | tooLong ending exceeds hasError => exact .tooLong ending exceeds hasError
  | waiting ending waits hasError done data phaseOk view kept =>
    obtain ⟨hview, hstate, hneeded⟩ := compactIfNeeded_frame r.1
    have hlength : r.1.compactIfNeeded.contentLength = r.1.contentLength := by
      rw [compactIfNeeded]
      split <;> rfl
    exact .waiting ending waits hasError done data (phaseOk.congr hstate hneeded hlength)
      (hview.trans view)
      ⟨compactIfNeeded_compact kept.1, (length_accum_compactIfNeeded r.1).trans kept.2⟩

end StreamParser

/-! ## Cuts -/

/-- What the streaming loop gets out of a response. -/
structure Verdict : Type where
  /-- the loop was left with an error -/
  hasError : Bool
  /-- the data delivered -/
  data : List UInt8
  deriving DecidableEq, Repr

/-- Push after push, as the streaming loop does: it stops at an error and at the end. -/
def StreamParser.feed (p : StreamParser) : List (List UInt8) → Verdict
  | [] => ⟨false, []⟩
  | chunk :: chunks =>
    let r := p.push chunk
    if r.2.hasError then ⟨true, r.2.data⟩
    else if r.2.done then ⟨false, r.2.data⟩
    else
      let rest := r.1.feed chunks
      ⟨rest.hasError, r.2.data ++ rest.data⟩

/-- Both end in an error, or both deliver the same data. -/
def Verdict.Agree (v w : Verdict) : Prop :=
  (v.hasError = true ∧ w.hasError = true) ∨
    (v.hasError = false ∧ w.hasError = false ∧ v.data = w.data)

/-- Some cut of the response is taken: its elements are well formed and each fits the
accumulator, and it does not end within an element that is over its limit. -/
def TakesSomeCut (bytes : List UInt8) : Prop :=
  (responseReader.readAll .headers bytes).Within (fun _ len => len ≤ maxAccumulatorSize)
    fun phase n => phase.Waits n ∧ n ≤ maxAccumulatorSize

/-- Every cut of the response is taken: the response fits the accumulator, its elements are
well formed, and each is over its limit with its last byte at most. -/
def TakesAnyCut (bytes : List UInt8) : Prop :=
  bytes.length ≤ maxAccumulatorSize ∧
    (responseReader.readAll .headers bytes).Within (fun phase len => phase.Waits (len - 1))
      Phase.Waits

namespace StreamParser

variable {p : StreamParser} {phase : Phase} {chunk : List UInt8} {chunks : List (List UInt8)}

theorem feed_error (h : (p.push chunk).2.hasError = true) :
    (p.feed (chunk :: chunks)).hasError = true := by
  simp only [feed, h, if_true]

theorem feed_done (h : (p.push chunk).2.hasError = false) (hdone : (p.push chunk).2.done = true) :
    p.feed (chunk :: chunks) = ⟨false, (p.push chunk).2.data⟩ := by
  simp only [feed, h, hdone, if_true, Bool.false_eq_true, if_false]

theorem feed_go (h : (p.push chunk).2.hasError = false) (hdone : (p.push chunk).2.done = false) :
    p.feed (chunk :: chunks) =
      ⟨((p.push chunk).1.feed chunks).hasError,
        (p.push chunk).2.data ++ ((p.push chunk).1.feed chunks).data⟩ := by
  simp only [feed, h, hdone, Bool.false_eq_true, if_false]

theorem feed_nil_push (hin : p.In phase) : p.feed ([] :: chunks) = p.feed chunks := by
  have hpush := push_nil hin.state_ne_error
  rw [feed_go (by rw [hpush]) (by rw [hpush]), hpush]
  rfl

/-- **A cut that is taken** delivers what the reading of the response stands for, and the
response is one of those of which some cut is taken. -/
theorem feed_taken (hin : p.In phase) (hcompact : Compact p)
    (hneed : responseReader.read phase p.unreadView = .needMore)
    (hwaits : phase.Waits p.unreadView.length) (hroom : p.accum.length ≤ maxAccumulatorSize)
    (htaken : (p.feed chunks).hasError = false) :
    (p.feed chunks).data = (responseReader.readAll phase (p.unreadView ++ chunks.flatten)).out ∧
      (responseReader.readAll phase (p.unreadView ++ chunks.flatten)).Within
        (fun _ len => len ≤ maxAccumulatorSize)
        (fun phase n => phase.Waits n ∧ n ≤ maxAccumulatorSize) := by
  induction chunks generalizing p phase with
  | nil =>
    rw [List.flatten_nil, List.append_nil, TextReader.readAll_needMore hneed]
    refine ⟨rfl, fun x hx => absurd hx List.not_mem_nil, hwaits, ?_⟩
    rw [unreadView, List.length_drop]
    omega
  | cons chunk chunks ih =>
    rw [List.flatten_cons]
    by_cases hnil : chunk = []
    · rw [hnil, feed_nil_push hin] at htaken ⊢
      rw [List.nil_append]
      exact ih hin hcompact hneed hwaits hroom htaken
    by_cases hfits : p.accum.length + chunk.length ≤ maxAccumulatorSize
    · have hpush := push_reads hin hcompact hnil hfits
      obtain ⟨hitems, htail⟩ := responseReader.readAll_length phase (p.unreadView ++ chunk)
      have hlen : (p.unreadView ++ chunk).length ≤ maxAccumulatorSize := by
        rw [List.length_append, unreadView, List.length_drop]
        omega
      have hsmall : ∀ x ∈ (responseReader.readAll phase (p.unreadView ++ chunk)).items,
          x.2 ≤ maxAccumulatorSize := fun x hx => (hitems x hx).trans hlen
      rw [← List.append_assoc, responseReader.readAll_append]
      cases hpush with
      | malformed ending hasError =>
        rw [feed_error hasError] at htaken
        cases htaken
      | tooLong ending exceeds hasError =>
        rw [feed_error hasError] at htaken
        cases htaken
      | ended ending hasError done data =>
        rw [feed_done hasError done, ending]
        refine ⟨data, hsmall, ?_⟩
        rw [ending]
        trivial
      | waiting ending waits hasError done data phaseOk view kept =>
        rw [feed_go hasError done] at htaken ⊢
        rw [ending]
        have hrest := ih phaseOk kept.1 (by rw [view]; exact TextReader.read_tail ending)
          (by rw [view]; exact waits) (kept.2.trans hfits) htaken
        rw [view] at hrest
        refine ⟨?_, hrest.2.after hsmall _⟩
        rw [hrest.1, data]
        rfl
    · rw [feed_error (push_too_large hin.state_ne_error hnil hfits)] at htaken
      cases htaken

/-- **No cut is refused** of a response whose elements are within their limits. -/
theorem feed_any (hin : p.In phase) (hcompact : Compact p)
    (hroom : p.accum.length + chunks.flatten.length ≤ maxAccumulatorSize)
    (hwithin : (responseReader.readAll phase (p.unreadView ++ chunks.flatten)).Within
      (fun phase len => phase.Waits (len - 1)) Phase.Waits) :
    (p.feed chunks).hasError = false := by
  induction chunks generalizing p phase with
  | nil => rfl
  | cons chunk chunks ih =>
    rw [List.flatten_cons] at hroom hwithin
    by_cases hnil : chunk = []
    · rw [hnil, feed_nil_push hin]
      rw [hnil, List.nil_append] at hroom hwithin
      exact ih hin hcompact hroom hwithin
    rw [List.length_append] at hroom
    have hpush := push_reads hin hcompact hnil (by omega)
    rw [← List.append_assoc, responseReader.readAll_append] at hwithin
    cases hpush with
    | malformed ending hasError =>
      rw [ending] at hwithin
      have hbad := hwithin.2
      rw [ending] at hbad
      exact absurd hbad id
    | tooLong ending exceeds hasError =>
      rw [ending] at hwithin
      have hmono : ∀ (phase : Phase) (m n : ℕ), m ≤ n → phase.Waits n → phase.Waits m :=
        fun phase m n hmn hn k hk => hmn.trans (hn k hk)
      have hok := TextReader.ok_of_needMore hmono (TextReader.read_tail ending) hwithin.of_after.2
      exact absurd hok exceeds
    | ended ending hasError done data => rw [feed_done hasError done]
    | waiting ending waits hasError done data phaseOk view kept =>
      rw [ending] at hwithin
      rw [feed_go hasError done]
      refine ih phaseOk kept.1 ?_ ?_
      · have := kept.2
        omega
      · rw [view]
        exact hwithin.of_after.2

/-- A parser that has read all it was given keeps nothing. -/
theorem accum_eq_nil (hcompact : Compact p) (hview : p.unreadView = []) : p.accum = [] := by
  have hlen := hcompact.length_le
  rw [hview] at hlen
  exact List.length_eq_zero_iff.mp (Nat.le_zero.mp hlen)

/-- A push to a parser that keeps nothing reads what is pushed. -/
theorem push_fresh (hin : p.In phase) (hcompact : Compact p) (hnil : p.accum = [])
    (hne : chunk ≠ []) (hlen : chunk.length ≤ maxAccumulatorSize) :
    Reports (responseReader.readAll phase chunk) [] Compact (p.push chunk).1
      (p.push chunk).2 := by
  have hroom : p.accum.length + chunk.length ≤ maxAccumulatorSize := by
    rw [hnil, List.length_nil, Nat.zero_add]
    exact hlen
  have hpush := push_reads hin hcompact hne hroom
  have hview : p.unreadView = [] := by rw [unreadView, hnil, List.drop_nil]
  rw [hview, List.nil_append] at hpush
  cases hpush with
  | malformed ending hasError => exact .malformed ending hasError
  | ended ending hasError done data => exact .ended ending hasError done data
  | tooLong ending exceeds hasError => exact .tooLong ending exceeds hasError
  | waiting ending waits hasError done data phaseOk view kept =>
    exact .waiting ending waits hasError done data phaseOk view kept.1

/-- **Some cut is taken**, the one between the elements. -/
theorem feed_pieces {l : List UInt8} (hin : p.In phase) (hcompact : Compact p)
    (hnil : p.accum = [])
    (hwithin : (responseReader.readAll phase l).Within (fun _ len => len ≤ maxAccumulatorSize)
      (fun phase n => phase.Waits n ∧ n ≤ maxAccumulatorSize)) :
    (p.feed (responseReader.pieces phase l)).hasError = false := by
  induction phase, l using responseReader.readAll_induct generalizing p with
  | needMore phase l hr =>
    rw [TextReader.pieces_needMore hr]
    rw [TextReader.readAll_needMore hr] at hwithin
    by_cases hl : l = []
    · rw [hl, feed_nil_push hin]
      rfl
    · have hpush := push_fresh hin hcompact hnil hl hwithin.2.2
      rw [TextReader.readAll_needMore hr] at hpush
      cases hpush with
      | malformed ending hasError => cases ending
      | ended ending hasError done data => cases ending
      | tooLong ending exceeds hasError =>
        obtain ⟨rfl, rfl⟩ := Ending.waiting.inj ending
        exact absurd hwithin.2.1 exceeds
      | waiting ending waits hasError done data phaseOk view kept =>
        rw [feed_go hasError done]
        rfl
  | malformed phase l hr =>
    rw [TextReader.readAll_malformed hr] at hwithin
    exact absurd hwithin.2 id
  | last phase l len out hr =>
    rw [TextReader.pieces_last hr]
    rw [TextReader.readAll_last hr] at hwithin
    obtain ⟨hitem, hlen⟩ := TextReader.read_take hr
    have hpush := push_fresh hin hcompact hnil
      (List.ne_nil_of_length_pos (by rw [hlen]; exact (responseReader.item_length hr).1))
      (by rw [hlen]; exact hwithin.1 _ (List.mem_singleton_self _))
    rw [TextReader.readAll_last hitem] at hpush
    cases hpush with
    | malformed ending hasError => cases ending
    | ended ending hasError done data => rw [feed_done hasError done]
    | tooLong ending exceeds hasError => cases ending
    | waiting ending waits hasError done data phaseOk view kept => cases ending
  | item phase l len out next hr ih =>
    rw [TextReader.pieces_item hr]
    rw [TextReader.readAll_item hr] at hwithin
    obtain ⟨hitems, hrest⟩ := hwithin.of_after
    obtain ⟨hitem, hlen⟩ := TextReader.read_take hr
    have hpush := push_fresh hin hcompact hnil
      (List.ne_nil_of_length_pos (by rw [hlen]; exact (responseReader.item_length hr).1))
      (by rw [hlen]; exact hitems _ (List.mem_singleton_self _))
    have hdrop : (l.take len).drop len = [] := List.drop_eq_nil_of_le (by rw [hlen])
    rw [TextReader.readAll_item hitem, hdrop, TextReader.readAll_needMore next.read_nil] at hpush
    cases hpush with
    | malformed ending hasError => cases ending
    | ended ending hasError done data => cases ending
    | tooLong ending exceeds hasError =>
      obtain ⟨rfl, rfl⟩ := Ending.waiting.inj ending
      exact absurd (Phase.waits_zero _) exceeds
    | waiting ending waits hasError done data phaseOk view kept =>
      obtain ⟨rfl, rfl⟩ := Ending.waiting.inj ending
      rw [feed_go hasError done]
      exact ih phaseOk kept (accum_eq_nil kept view) hrest

/-- A parser starts at the headers, and keeps nothing. -/
theorem new_in : In {} .headers := rfl

theorem new_compact : Compact {} := ⟨le_rfl, le_rfl⟩

/-- A cut of a whole response that is taken delivers what its reading stands for. -/
theorem feed_new_taken {cuts : List (List UInt8)} (htaken : (feed {} cuts).hasError = false) :
    (feed {} cuts).data = (responseReader.readAll .headers cuts.flatten).out ∧
      TakesSomeCut cuts.flatten := by
  have h := feed_taken new_in new_compact (Phase.read_nil _) (Phase.waits_zero _)
    (Nat.zero_le _) htaken
  rwa [show unreadView {} = [] from rfl, List.nil_append] at h

/-- A response that does not fit the accumulator is refused in one piece. -/
theorem feed_whole_refused {bytes : List UInt8} (h : ¬ bytes.length ≤ maxAccumulatorSize) :
    (feed {} [bytes]).hasError = true := by
  have hne : bytes ≠ [] := by
    rintro rfl
    exact h (Nat.zero_le _)
  refine feed_error (push_too_large (by decide) hne ?_)
  rw [show (({} : StreamParser).accum.length) = 0 from rfl, Nat.zero_add]
  exact h

/-- A cut within an element that is over its limit is refused. -/
theorem feed_over_refused {front back tail : List UInt8}
    (hlen : front.length ≤ maxAccumulatorSize)
    (hend : (responseReader.readAll .headers front).ending = .waiting phase tail)
    (hover : ¬ phase.Waits tail.length) : (feed {} [front, back]).hasError = true := by
  have hne : front ≠ [] := by
    rintro rfl
    rw [TextReader.readAll_needMore (Phase.read_nil _)] at hend
    obtain ⟨rfl, rfl⟩ := Ending.waiting.inj hend
    exact hover (Phase.waits_zero _)
  have hpush := push_fresh new_in new_compact rfl hne hlen
  cases hpush with
  | malformed ending hasError => exact feed_error hasError
  | ended ending hasError done data =>
    rw [hend] at ending
    cases ending
  | tooLong ending exceeds hasError => exact feed_error hasError
  | waiting ending waits hasError done data phaseOk view kept =>
    rw [hend] at ending
    obtain ⟨rfl, rfl⟩ := Ending.waiting.inj ending
    exact absurd waits hover

/-- **Some cut is refused** of a response of which not all are taken. -/
theorem exists_refused_cut {bytes : List UInt8}
    (hmal : (responseReader.readAll .headers bytes).ending ≠ .malformed)
    (hany : ¬ TakesAnyCut bytes) :
    ∃ cuts : List (List UInt8), cuts.flatten = bytes ∧ (feed {} cuts).hasError = true := by
  by_cases hlen : bytes.length ≤ maxAccumulatorSize
  · obtain ⟨front, back, phase, tail, rfl, hend, hover⟩ :=
      TextReader.exists_cut_over hmal fun hwithin => hany ⟨hlen, hwithin⟩
    rw [List.length_append] at hlen
    exact ⟨[front, back], by simp, feed_over_refused (by omega) hend hover⟩
  · exact ⟨[bytes], by simp, feed_whole_refused hlen⟩

end StreamParser

/-- **Two cuts of one response.** All cuts lead to the same verdict, an error or the same
data, if and only if none of them is taken or all of them are. -/
theorem cuts_agree_iff (bytes : List UInt8) :
    (∀ cuts cuts' : List (List UInt8), cuts.flatten = bytes → cuts'.flatten = bytes →
        (StreamParser.feed {} cuts).Agree (StreamParser.feed {} cuts')) ↔
      ¬ TakesSomeCut bytes ∨ TakesAnyCut bytes := by
  constructor
  · intro hagree
    by_contra hnot
    rw [not_or, not_not] at hnot
    obtain ⟨hsome, hany⟩ := hnot
    have hgood := StreamParser.feed_pieces StreamParser.new_in StreamParser.new_compact rfl hsome
    have hmal : (responseReader.readAll .headers bytes).ending ≠ .malformed := by
      intro hmal
      have hend := hsome.2
      rw [hmal] at hend
      exact hend
    obtain ⟨cuts, hcuts, herr⟩ := StreamParser.exists_refused_cut hmal hany
    rcases hagree cuts _ hcuts (responseReader.pieces_flatten .headers bytes) with
      ⟨-, herr'⟩ | ⟨hok, -⟩
    · rw [hgood] at herr'
      cases herr'
    · rw [herr] at hok
      cases hok
  · rintro (hnone | hany) cuts cuts' hcuts hcuts'
    · -- no cut is taken
      have hall : ∀ cuts : List (List UInt8), cuts.flatten = bytes →
          (StreamParser.feed {} cuts).hasError = true := by
        rintro cuts rfl
        by_contra hok
        exact hnone (StreamParser.feed_new_taken (Bool.eq_false_iff.mpr hok)).2
      exact Or.inl ⟨hall cuts hcuts, hall cuts' hcuts'⟩
    · have hall : ∀ cuts : List (List UInt8), cuts.flatten = bytes →
          (StreamParser.feed {} cuts).hasError = false ∧
            (StreamParser.feed {} cuts).data = (responseReader.readAll .headers bytes).out := by
        rintro cuts rfl
        have hok : (StreamParser.feed {} cuts).hasError = false := by
          refine StreamParser.feed_any StreamParser.new_in StreamParser.new_compact ?_ hany.2
          change 0 + cuts.flatten.length ≤ _
          rw [Nat.zero_add]
          exact hany.1
        exact ⟨hok, (StreamParser.feed_new_taken hok).1⟩
      obtain ⟨hok, hdata⟩ := hall cuts hcuts
      obtain ⟨hok', hdata'⟩ := hall cuts' hcuts'
      exact Or.inr ⟨hok, hok', by rw [hdata, hdata']⟩

/-- A response with a chunk extension: its first size line has 42 bytes. -/
def extendedFront : List UInt8 :=
  ascii "HTTP/1.1 200 OK\r\nTransfer-Encoding: chunked\r\n\r\n1;signature=0123456789abcdef01234567"

/-- What follows, from within the size line on. -/
def extendedRest : List UInt8 := ascii "89abcd\r\nZ\r\n0\r\n\r\n"

/-- **The same response, two verdicts**: in one piece it is delivered, cut behind the 36th
byte of the size line it is refused. -/
theorem size_line_cut_refused :
    StreamParser.feed {} [extendedFront ++ extendedRest] = ⟨false, ascii "Z"⟩ ∧
      (StreamParser.feed {} [extendedFront, extendedRest]).hasError = true ∧
      ¬ ∀ cuts cuts' : List (List UInt8), cuts.flatten = extendedFront ++ extendedRest →
        cuts'.flatten = extendedFront ++ extendedRest →
          (StreamParser.feed {} cuts).Agree (StreamParser.feed {} cuts') := by
  have hwhole : StreamParser.feed {} [extendedFront ++ extendedRest] = ⟨false, ascii "Z"⟩ ∧
      (StreamParser.feed {} [extendedFront, extendedRest]).hasError = true := by
    decide +kernel
  refine ⟨hwhole.1, hwhole.2, fun hagree => ?_⟩
  rcases hagree [extendedFront ++ extendedRest] [extendedFront, extendedRest] (by simp) (by simp)
    with ⟨herr, -⟩ | ⟨-, hok, -⟩
  · rw [hwhole.1] at herr
    cases herr
  · rw [hwhole.2] at hok
    cases hok

end Ranvier
