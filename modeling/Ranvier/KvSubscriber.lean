import Ranvier.LedgerMirror
import Ranvier.Run

/-!
# The event subscriber

One worker thread serves the event streams of all backends. A stream is numbered:
the worker expects the frames of a subscription in sequence, asks the publisher to
replay what it missed, and gives up what it knows of the backend where that fails.
A new subscription starts with a replay of what the publisher still buffers.

* `attemptReplay` — one exchange on the replay socket;
* `KvEventSubscriber.handle` — a command, a message or a heartbeat;
* `Watched.step` — the worker beside the batches its connect backfills took;
* `covered_quiet_iff` — a live frame the backfill has covered is taken quietly
  exactly where it is the next one expected.
-/

namespace Ranvier

/-! ## Messages -/

/-- `Message`: the parts of one published message. -/
abbrev Message : Type := List (List UInt8)

/-- `kMaxFrames`. -/
def maxFrames : ℕ := 8

/-- `recv_message`: what is kept of the parts of a message. Nothing kept is as if
nothing had been readable. -/
def recvMessage (parts : Message) : Message :=
  parts.foldl (fun frames part =>
    if frames.length < maxFrames ∧ part.length ≤ kvMaxPayloadBytes then frames ++ [part]
    else frames) []

/-- A batch as published: its number and its bytes. -/
structure KvFrame : Type where
  seq : UInt64
  payload : List UInt8
  deriving DecidableEq, Repr

/-- `split_seq_payload`: the payload comes last, the number is the nearest part before
it that has eight bytes. -/
def splitSeqPayload (msg : Message) : Option KvFrame := do
  let payload ← msg.getLast?
  let number ← msg.dropLast.reverse.find? fun part => part.length = 8
  return ⟨number.foldl (fun v b => (v <<< 8) ||| b.toUInt64) 0, payload⟩

/-! ## One subscription -/

/-- `Subscription`, less the socket. -/
structure Subscription : Type where
  endpoint : String
  /-- empty: gaps reset instead of replaying -/
  replayEndpoint : String
  nextSeq : UInt64 := 0
  /-- false until the first frame fixes the sequence base -/
  synced : Bool := false
  deriving DecidableEq, Repr

/-- The counters of the worker, less those of the shipments. -/
structure SubscriberStats : Type where
  batchesDecoded : ℕ := 0
  decodeErrors : ℕ := 0
  sequenceGaps : ℕ := 0
  replayRequests : ℕ := 0
  replayBatches : ℕ := 0
  replayFailures : ℕ := 0
  deriving DecidableEq, Repr

/-- What the worker writes while it serves one subscription; `ops` are the operations
handed over so far, shipped or not. -/
structure Intake : Type where
  sub : Subscription
  ledger : KvBlockLedger
  stats : SubscriberStats
  ops : List NativeKvOp

namespace Intake

/-- Change the counters. -/
def count (f : SubscriberStats → SubscriberStats) (i : Intake) : Intake :=
  { i with stats := f i.stats }

/-- Hand over an operation of the backend. -/
def push (kind : NativeKvKind) (backend : BackendId) (nowMs : UInt64) (i : Intake) : Intake :=
  { i with ops := i.ops ++ [{ kind := kind, backend := backend, tsMs := nowMs }] }

/-- `ledger.reset_backend`. -/
def reset (backend : BackendId) (nowMs : UInt64) (i : Intake) : Intake :=
  let r := i.ledger.resetBackend backend nowMs
  { i with ledger := r.1, ops := i.ops ++ r.2 }

/-- `ledger.translate`, and whether it accepted the batch. -/
def translate (backend : BackendId) (batch : KvEventBatch) (i : Intake) : Intake × Bool :=
  let r := i.ledger.translate backend batch
  ({ i with ledger := r.ledger, ops := i.ops ++ r.out }, r.ok)

/-- Expect what follows `seq`. -/
def advance (seq : UInt64) (i : Intake) : Intake :=
  { i with sub := { i.sub with nextSeq := seq + 1, synced := true } }

end Intake

/-! ## Replay -/

/-- `UINT64_MAX`, the bound of a connect backfill. -/
def noBound : UInt64 := UInt64.ofNat (2 ^ 64 - 1)

/-- `kMaxReplayBatches`. -/
def maxReplayBatches : ℕ := 65536

/-- The variables of `attempt_replay`. -/
structure ReplayState : Type where
  intake : Intake
  accepted : ℕ := 0
  nextExpected : UInt64
  first : Bool := true
  sentinelSeen : Bool := false
  ok : Bool := true
  startedAtPublisherStart : Bool := false
  /-- the batches taken; the source keeps their number only -/
  batches : List KvFrame := []

namespace ReplayState

/-- Leave the loop without success. -/
def fail (s : ReplayState) : ReplayState := { s with ok := false }

/-- The first batch sets the base. -/
def setBase (seq : UInt64) (s : ReplayState) : ReplayState :=
  if s.first then
    { s with nextExpected := seq, first := false, startedAtPublisherStart := decide (seq = 0) }
  else s

/-- A batch taken: the subscription goes on behind it, unless it is further already. -/
def took (f : KvFrame) (s : ReplayState) : ReplayState :=
  let i := s.intake.count fun c => { c with replayBatches := c.replayBatches + 1 }
  { s with
    intake := { i with sub := { i.sub with
      nextSeq := if i.sub.nextSeq < f.seq + 1 then f.seq + 1 else i.sub.nextSeq
      synced := true } }
    nextExpected := f.seq + 1
    batches := s.batches ++ [f] }

/-- A batch of the stream, which has to be the next one. -/
def takeBatch (backend : BackendId) (f : KvFrame) (s : ReplayState) : ReplayState :=
  if f.seq ≠ s.nextExpected then s.fail
  else
    match decodeKvEventBatch f.payload with
    | none =>
      { s with intake := s.intake.count fun c =>
          { c with decodeErrors := c.decodeErrors + 1 } }.fail
    | some batch =>
      let r := s.intake.translate backend batch
      if r.2 then { s with intake := r.1 }.took f else { s with intake := r.1 }.fail

/-- A numbered message of the stream: a negative number ends it, what lies beyond the
gap is passed over. -/
def onFrame (backend : BackendId) (fromSeq upto : UInt64) (f : KvFrame) (s : ReplayState) :
    ReplayState :=
  if f.seq.toInt64 < 0 then { s with sentinelSeen := true }
  else if upto ≠ noBound ∧ upto ≤ f.seq then s
  else if s.first = true ∧ upto ≠ noBound ∧ f.seq ≠ fromSeq then s.fail
  else (s.setBase f.seq).takeBatch backend f

/-- One turn of the drain. -/
def turn (backend : BackendId) (fromSeq upto : UInt64) (parts : Message) (s : ReplayState) :
    ReplayState :=
  let msg := recvMessage parts
  if msg = [] then s
  else
    let s := { s with accepted := s.accepted + 1 }
    if maxReplayBatches < s.accepted then s.fail
    else
      match splitSeqPayload msg with
      | none => s
      | some f => s.onFrame backend fromSeq upto f

/-- The two loops: they end at a failure, at the sentinel, or when nothing further
arrives before the deadline. -/
def drain (backend : BackendId) (fromSeq upto : UInt64) : List Message → ReplayState → ReplayState
  | [], s => s
  | parts :: rest, s =>
    if s.ok = true ∧ s.sentinelSeen = false then
      drain backend fromSeq upto rest (s.turn backend fromSeq upto parts)
    else s

end ReplayState

/-- `attempt_replay`, and whether it succeeds. `answer` are the messages that arrive
before the deadline, absent where the socket cannot be opened, connected or written. -/
def attemptReplay (i : Intake) (backend : BackendId) (fromSeq upto : UInt64)
    (answer : Option (List Message)) : ReplayState × Bool :=
  let s : ReplayState := { intake := i, nextExpected := fromSeq }
  match answer with
  | none => (s, false)
  | some msgs =>
    let s := s.drain backend fromSeq upto msgs
    (s, s.ok && s.sentinelSeen && !decide (upto ≠ noBound ∧ s.nextExpected < upto))

/-! ## The worker -/

/-- `kMaxSubscriptions`. -/
def maxSubscriptions : ℕ := 256

/-- `KvEventSubscriberService`, the variables of `worker_loop`. -/
structure KvEventSubscriber : Type where
  /-- `_cfg.replay_on_connect` -/
  replayOnConnect : Bool
  ledger : KvBlockLedger
  subs : Finmap fun _ : BackendId => Subscription
  stats : SubscriberStats := {}

/-- What the worker meets. A replay that it starts is answered by `answer`; within one
turn the clock reads `nowMs`. -/
inductive SubscriberEvent : Type where
  /-- command `ADD`; the stream's socket connects or not -/
  | add (backend : BackendId) (endpoint replayEndpoint : String) (connects : Bool)
      (answer : Option (List Message)) (nowMs : UInt64)
  /-- command `REMOVE` -/
  | remove (backend : BackendId)
  /-- a message on the socket of a subscription -/
  | receive (backend : BackendId) (parts : Message) (answer : Option (List Message))
      (nowMs : UInt64)
  /-- `order` are the backends as the map of subscriptions lists them -/
  | heartbeat (order : List BackendId) (nowMs : UInt64)

namespace Intake

/-- The sequence check on a frame. -/
def checkSequence (backend : BackendId) (seq : UInt64) (answer : Option (List Message))
    (nowMs : UInt64) (i : Intake) : Intake :=
  if i.sub.synced = true ∧ seq ≠ i.sub.nextSeq then
    let i := i.count fun c => { c with sequenceGaps := c.sequenceGaps + 1 }
    -- only a forward gap can be filled
    if i.sub.replayEndpoint ≠ "" ∧ i.sub.nextSeq < seq then
      let i := i.count fun c => { c with replayRequests := c.replayRequests + 1 }
      let r := attemptReplay i backend i.sub.nextSeq seq answer
      if r.2 then r.1.intake
      else (r.1.intake.count fun c => { c with replayFailures := c.replayFailures + 1 }).reset
        backend nowMs
    else i.reset backend nowMs
  else i

/-- A frame behind the sequence check, and whether the subscription stays. -/
def takeFrame (backend : BackendId) (f : KvFrame) (nowMs : UInt64) (i : Intake) : Intake × Bool :=
  let i := i.advance f.seq
  let i := if f.seq = 0 then i.push .COMPLETE backend nowMs else i
  match decodeKvEventBatch f.payload with
  | none =>
    ((i.count fun c => { c with decodeErrors := c.decodeErrors + 1 }).reset backend nowMs, true)
  | some batch =>
    let i := i.count fun c => { c with batchesDecoded := c.batchesDecoded + 1 }
    let r := i.translate backend batch
    if r.2 then (r.1, true) else (r.1.reset backend nowMs, false)

/-- The connect backfill. -/
def backfill (backend : BackendId) (answer : Option (List Message)) (nowMs : UInt64) (i : Intake) :
    Intake × List KvFrame :=
  let i := i.count fun c => { c with replayRequests := c.replayRequests + 1 }
  let r := attemptReplay i backend 0 noBound answer
  let i := r.1.intake
  let i :=
    if !r.2 then i.count fun c => { c with replayFailures := c.replayFailures + 1 }
    else if r.1.startedAtPublisherStart then i.push .COMPLETE backend nowMs
    else i
  (i, r.1.batches)

end Intake

namespace KvEventSubscriber

/-- The worker before its first turn. -/
def create (replayOnConnect : Bool) (limits : LedgerLimits) : KvEventSubscriber :=
  ⟨replayOnConnect, KvBlockLedger.create limits, ∅, {}⟩

/-- Serve a subscription from here. -/
def intake (w : KvEventSubscriber) (sub : Subscription) : Intake := ⟨sub, w.ledger, w.stats, []⟩

/-- Write back what was served. -/
def put (w : KvEventSubscriber) (backend : BackendId) (i : Intake) : KvEventSubscriber :=
  { w with ledger := i.ledger, subs := w.subs.insert backend i.sub, stats := i.stats }

/-- What a new subscription starts with, and what its backfill took. -/
def connect (w : KvEventSubscriber) (backend : BackendId) (endpoint replayEndpoint : String)
    (answer : Option (List Message)) (nowMs : UInt64) : Intake × List KvFrame :=
  let ledger := if backend ∈ w.subs then w.ledger.dropBackend backend else w.ledger
  let sub : Subscription := { endpoint := endpoint, replayEndpoint := replayEndpoint }
  let i : Intake := ⟨sub, ledger, w.stats, []⟩
  if replayEndpoint ≠ "" ∧ w.replayOnConnect = true then i.backfill backend answer nowMs
  else (i, [])

/-- The command adds a subscription: there is room for it and its socket connects. -/
def adds (w : KvEventSubscriber) (backend : BackendId) (connects : Bool) : Prop :=
  ¬(maxSubscriptions ≤ w.subs.keys.card ∧ backend ∉ w.subs) ∧ connects = true

instance (w : KvEventSubscriber) (backend : BackendId) (connects : Bool) :
    Decidable (w.adds backend connects) := inferInstanceAs (Decidable (_ ∧ _))

/-- One turn: the worker after it and the operations handed over. -/
def handle (w : KvEventSubscriber) : SubscriberEvent → KvEventSubscriber × List NativeKvOp
  | .add backend endpoint replayEndpoint connects answer nowMs =>
    if w.adds backend connects then
      let r := w.connect backend endpoint replayEndpoint answer nowMs
      (w.put backend r.1, r.1.ops)
    else (w, [])
  | .remove backend =>
    if backend ∈ w.subs then
      ({ w with subs := w.subs.erase backend, ledger := w.ledger.dropBackend backend }, [])
    else (w, [])
  | .receive backend parts answer nowMs =>
    match w.subs.lookup backend with
    | none => (w, [])
    | some sub =>
      let msg := recvMessage parts
      if msg = [] then (w, [])
      else
        match splitSeqPayload msg with
        | none =>
          ({ w with stats := { w.stats with decodeErrors := w.stats.decodeErrors + 1 } }, [])
        | some f =>
          let i := (w.intake sub).checkSequence backend f.seq answer nowMs
          let r := i.takeFrame backend f nowMs
          let w' := w.put backend r.1
          (if r.2 then w' else { w' with subs := w'.subs.erase backend }, r.1.ops)
  | .heartbeat order nowMs =>
    (w, (order.filter fun id => (w.subs.lookup id).any Subscription.synced).map fun id =>
      { kind := .ALIVE, backend := id, tsMs := nowMs })

/-- The turn neither hands over a `RESET` of the backend nor starts a replay. -/
def HandlesQuietly (w : KvEventSubscriber) (backend : BackendId) (e : SubscriberEvent) : Prop :=
  (∀ op ∈ (w.handle e).2, ¬(op.kind = .RESET ∧ op.backend = backend)) ∧
    (w.handle e).1.stats.replayRequests = w.stats.replayRequests

end KvEventSubscriber

/-! ## What a batch does -/

namespace KvBlockLedger

/-- No event resets. -/
theorem applyEvent_kind {l : KvBlockLedger} {backend : BackendId} {tsMs : UInt64} {ev : KvEvent}
    {op : NativeKvOp} (h : op ∈ (l.applyEvent backend tsMs ev).out) : op.kind ≠ .RESET := by
  cases ev with
  | BlockStored ev =>
    rw [applyEvent] at h
    by_cases hdropped : ¬Accepts l.limits ev ∨ startState (l.blocks backend) ev = none
    · rw [(onStored_dropped l backend tsMs hdropped).2.2] at h
      cases h
    · obtain ⟨haccepts, hstart⟩ := not_or.mp hdropped
      obtain ⟨state, hstate⟩ := Option.ne_none_iff_exists'.mp hstart
      obtain ⟨stats, heq⟩ := onStored_accepted l backend tsMs (not_not.mp haccepts) hstate
      rw [heq] at h
      rcases List.mem_append.mp h with h | h
      · obtain ⟨w, -, rfl⟩ := List.mem_map.mp h
        simp [upsertOf]
      · simp [(mem_maybeMaterialize h).1]
  | BlockRemoved ev =>
    have hkind : op.kind = .REMOVE := removeBlocks_kind (by intro op hop; cases hop) op h
    simp [hkind]
  | AllBlocksCleared =>
    obtain rfl := List.mem_singleton.mp h
    simp
  | unknown => cases h

theorem applyEvents_kind {backend : BackendId} {tsMs : UInt64} {evs : List KvEvent}
    {l : KvBlockLedger} {op : NativeKvOp} (h : op ∈ (applyEvents backend tsMs evs l).out) :
    op.kind ≠ .RESET := by
  induction evs generalizing l with
  | nil => cases h
  | cons ev evs ih =>
    rw [applyEvents, andThen] at h
    split at h
    · rcases List.mem_append.mp h with h | h
      · exact applyEvent_kind h
      · exact ih h
    · exact applyEvent_kind h

/-- Events are accepted unless one is refused, whatever the ledger tracks. -/
theorem applyEvents_ok (backend : BackendId) (tsMs : UInt64) (evs : List KvEvent)
    (l : KvBlockLedger) :
    (applyEvents backend tsMs evs l).ok = !evs.any (refuses l.limits) := by
  induction evs generalizing l with
  | nil => rfl
  | cons ev evs ih =>
    obtain ⟨hfirst, hok⟩ := applyEvent_edits l backend tsMs ev
    rw [applyEvents, andThen, hok, List.any_cons]
    cases hrefuses : refuses l.limits ev with
    | true => simpa [hrefuses] using hok
    | false => simp [ih, hfirst.limits]

/-- The translation of a decoded batch: it keeps the limits, hands over no reset, and
is accepted or not by the limits alone. -/
theorem translate_spec {payload : List UInt8} {batch : KvEventBatch}
    (hdecode : decodeKvEventBatch payload = some batch) :
    ∃ evs : List KvEvent, ∀ (l : KvBlockLedger) (backend : BackendId),
      (l.translate backend batch).ok = !evs.any (refuses l.limits) ∧
        (l.translate backend batch).ledger.limits = l.limits ∧
        ∀ op ∈ (l.translate backend batch).out, op.kind ≠ .RESET := by
  rw [decodeKvEventBatch_eq] at hdecode
  obtain ⟨⟨tsMs, evs⟩, -, rfl⟩ := Option.map_eq_some_iff.mp hdecode
  refine ⟨clearsFirst evs, fun l backend => ?_⟩
  rw [translate_recordAll]
  exact ⟨applyEvents_ok backend tsMs _ l, (applyEvents_edits backend tsMs _ l).limits,
    fun op hop => applyEvents_kind hop⟩

end KvBlockLedger

/-- A payload that decodes to a batch which every ledger with these limits accepts. -/
def Translates (limits : LedgerLimits) (payload : List UInt8) : Prop :=
  ∃ batch, decodeKvEventBatch payload = some batch ∧
    ∀ (l : KvBlockLedger) (backend : BackendId), l.limits = limits →
      (l.translate backend batch).ok = true

/-- One ledger that accepts a batch speaks for all with its limits. -/
theorem translates_of_ok {payload : List UInt8} {batch : KvEventBatch}
    (hdecode : decodeKvEventBatch payload = some batch) {l : KvBlockLedger} {backend : BackendId}
    (hok : (l.translate backend batch).ok = true) : Translates l.limits payload := by
  obtain ⟨evs, hspec⟩ := KvBlockLedger.translate_spec hdecode
  refine ⟨batch, hdecode, fun l' backend' hlimits => ?_⟩
  rw [(hspec l' backend').1, hlimits, ← (hspec l backend).1]
  exact hok

/-! ## What a replay takes -/

/-- What holds throughout a replay for a ledger with these limits: it asks for no
replay itself, and the subscription is past every batch taken. -/
structure ReplayState.Sound (limits : LedgerLimits) (requests : ℕ) (s : ReplayState) : Prop where
  ledger : s.intake.ledger.limits = limits
  asked : s.intake.stats.replayRequests = requests
  taken : ∀ f ∈ s.batches, s.intake.sub.synced = true ∧ f.seq < s.intake.sub.nextSeq ∧
    Translates limits f.payload

namespace ReplayState

variable {limits : LedgerLimits} {requests : ℕ} {s : ReplayState}

theorem Sound.took (h : s.Sound limits requests) {f : KvFrame} (hseq : f.seq < f.seq + 1)
    (hpayload : Translates limits f.payload) : (s.took f).Sound limits requests where
  ledger := h.ledger
  asked := h.asked
  taken g hg := by
    have hnext : f.seq + 1 ≤ (s.took f).intake.sub.nextSeq ∧
        s.intake.sub.nextSeq ≤ (s.took f).intake.sub.nextSeq := by
      rw [ReplayState.took, Intake.count]
      dsimp only
      split_ifs with hlt
      · exact ⟨UInt64.le_refl _, UInt64.le_of_lt hlt⟩
      · exact ⟨UInt64.not_lt.mp hlt, UInt64.le_refl _⟩
    rcases List.mem_append.mp hg with hg | hg
    · obtain ⟨-, hpast, htrans⟩ := h.taken g hg
      exact ⟨rfl, UInt64.lt_of_lt_of_le hpast hnext.2, htrans⟩
    · obtain rfl := List.mem_singleton.mp hg
      exact ⟨rfl, UInt64.lt_of_lt_of_le hseq hnext.1, hpayload⟩

theorem Sound.takeBatch (h : s.Sound limits requests) {f : KvFrame} (hseq : f.seq < f.seq + 1)
    (backend : BackendId) : (s.takeBatch backend f).Sound limits requests := by
  rw [ReplayState.takeBatch]
  split_ifs
  · exact ⟨h.ledger, h.asked, h.taken⟩
  · split
    · exact ⟨h.ledger, h.asked, h.taken⟩
    · next batch hdecode =>
      obtain ⟨evs, hspec⟩ := KvBlockLedger.translate_spec hdecode
      have hread : Sound limits requests
          { s with intake := (s.intake.translate backend batch).1 } :=
        ⟨(hspec s.intake.ledger backend).2.1.trans h.ledger, h.asked, h.taken⟩
      dsimp only
      split_ifs with hok
      · refine hread.took hseq ?_
        rw [← h.ledger]
        exact translates_of_ok hdecode hok
      · exact ⟨hread.ledger, hread.asked, hread.taken⟩

theorem Sound.turn (h : s.Sound limits requests) (backend : BackendId) (fromSeq upto : UInt64)
    (parts : Message) : (s.turn backend fromSeq upto parts).Sound limits requests := by
  rw [ReplayState.turn]
  dsimp only
  split_ifs
  · exact h
  · exact ⟨h.ledger, h.asked, h.taken⟩
  · split
    · exact ⟨h.ledger, h.asked, h.taken⟩
    · next f hf =>
      rw [onFrame]
      split_ifs with hsentinel
      · exact ⟨h.ledger, h.asked, h.taken⟩
      · exact ⟨h.ledger, h.asked, h.taken⟩
      · exact ⟨h.ledger, h.asked, h.taken⟩
      · refine Sound.takeBatch ?_ (lt_succ_of_nonneg hsentinel) backend
        rw [setBase]
        split_ifs
        · exact ⟨h.ledger, h.asked, h.taken⟩
        · exact ⟨h.ledger, h.asked, h.taken⟩
where
  /-- a number that is not negative has a successor -/
  lt_succ_of_nonneg {seq : UInt64} (h : ¬seq.toInt64 < 0) : seq < seq + 1 := by
    have hint : seq.toInt64.toInt = if 2 * seq.toNat < 2 ^ 64 then (seq.toNat : ℤ)
        else (seq.toNat : ℤ) - (2 ^ 64 : ℕ) := BitVec.toInt_eq_toNat_cond seq.toBitVec
    have hzero : (0 : Int64).toInt = 0 := rfl
    have hone : (1 : UInt64).toNat = 1 := rfl
    have hlt := seq.toNat_lt
    rw [Int64.lt_iff_toInt_lt, hint, hzero] at h
    rw [UInt64.lt_iff_toNat_lt, UInt64.toNat_add, hone]
    split at h <;> omega

theorem Sound.drain (h : s.Sound limits requests) (backend : BackendId) (fromSeq upto : UInt64)
    (msgs : List Message) : (s.drain backend fromSeq upto msgs).Sound limits requests := by
  induction msgs generalizing s with
  | nil => exact h
  | cons parts rest ih =>
    rw [ReplayState.drain]
    split_ifs
    · exact ih (h.turn backend fromSeq upto parts)
    · exact h

end ReplayState

/-- **A replay** keeps the limits, asks for no other, and takes only batches that
translate, none of which is still to come. -/
theorem attemptReplay_sound (i : Intake) (backend : BackendId) (fromSeq upto : UInt64)
    (answer : Option (List Message)) :
    (attemptReplay i backend fromSeq upto answer).1.Sound i.ledger.limits
      i.stats.replayRequests := by
  have hstart : ReplayState.Sound i.ledger.limits i.stats.replayRequests
      { intake := i, nextExpected := fromSeq } := ⟨rfl, rfl, by simp⟩
  cases answer with
  | none => exact hstart
  | some msgs => exact hstart.drain backend fromSeq upto msgs

/-! ## Frames -/

namespace Intake

theorem checkSequence_next {i : Intake} {seq : UInt64} (h : seq = i.sub.nextSeq)
    (backend : BackendId) (answer : Option (List Message)) (nowMs : UInt64) :
    i.checkSequence backend seq answer nowMs = i := by
  rw [checkSequence, if_neg fun hgap => hgap.2 h]

theorem checkSequence_limits (i : Intake) (backend : BackendId) (seq : UInt64)
    (answer : Option (List Message)) (nowMs : UInt64) :
    (i.checkSequence backend seq answer nowMs).ledger.limits = i.ledger.limits := by
  have hreplay := fun j : Intake => attemptReplay_sound j backend j.sub.nextSeq seq answer
  rw [checkSequence]
  dsimp only
  split_ifs
  · exact (hreplay _).ledger
  · exact (hreplay _).ledger
  · rfl
  · rfl

/-- A frame out of sequence starts a replay or resets. -/
theorem checkSequence_gap {i : Intake} {seq : UInt64} (hsynced : i.sub.synced = true)
    (hseq : seq ≠ i.sub.nextSeq) (backend : BackendId) (answer : Option (List Message))
    (nowMs : UInt64) :
    (i.checkSequence backend seq answer nowMs).stats.replayRequests = i.stats.replayRequests + 1 ∨
      ∃ op ∈ (i.checkSequence backend seq answer nowMs).ops,
        op.kind = .RESET ∧ op.backend = backend := by
  have hreplay := fun j : Intake => attemptReplay_sound j backend j.sub.nextSeq seq answer
  rw [checkSequence, if_pos ⟨hsynced, hseq⟩]
  dsimp only
  split_ifs
  · exact .inl (hreplay _).asked
  · exact .inl (hreplay _).asked
  · exact .inr ⟨_, List.mem_append_right _ (List.mem_singleton_self _), rfl, rfl⟩

/-- Behind the check operations are only added, and no replay is started. -/
theorem takeFrame_adds (i : Intake) (backend : BackendId) (f : KvFrame) (nowMs : UInt64) :
    i.ops ⊆ (i.takeFrame backend f nowMs).1.ops ∧
      (i.takeFrame backend f nowMs).1.stats.replayRequests = i.stats.replayRequests ∧
      (i.takeFrame backend f nowMs).1.sub.synced = true ∧
      (i.takeFrame backend f nowMs).1.ledger.limits = i.ledger.limits := by
  have hmark : i.ops ⊆ (if f.seq = 0 then (i.advance f.seq).push .COMPLETE backend nowMs
      else i.advance f.seq).ops := by
    split_ifs
    · exact List.subset_append_left _ _
    · exact List.Subset.refl _
  rw [takeFrame]
  dsimp only
  generalize hj : (if f.seq = 0 then (i.advance f.seq).push .COMPLETE backend nowMs
      else i.advance f.seq) = j at hmark ⊢
  have hsame : j.stats = i.stats ∧ j.sub.synced = true ∧ j.ledger = i.ledger := by
    rw [← hj]
    split_ifs
    · exact ⟨rfl, rfl, rfl⟩
    · exact ⟨rfl, rfl, rfl⟩
  obtain ⟨hstats, hsynced, hledger⟩ := hsame
  have hrequests : j.stats.replayRequests = i.stats.replayRequests := by rw [hstats]
  cases hdecode : decodeKvEventBatch f.payload with
  | none =>
    refine ⟨List.Subset.trans hmark (List.subset_append_left _ _), hrequests, hsynced, ?_⟩
    rw [← hledger]
    rfl
  | some batch =>
    obtain ⟨evs, hspec⟩ := KvBlockLedger.translate_spec hdecode
    have hlimits : (j.ledger.translate backend batch).ledger.limits = i.ledger.limits := by
      rw [(hspec j.ledger backend).2.1, hledger]
    dsimp only
    split_ifs
    · exact ⟨List.Subset.trans hmark (List.subset_append_left _ _), hrequests, hsynced, hlimits⟩
    · refine ⟨?_, hrequests, hsynced, hlimits⟩
      exact List.Subset.trans hmark (List.Subset.trans (List.subset_append_left _ _)
        (List.subset_append_left _ _))

/-- A batch that translates is taken without a reset. -/
theorem takeFrame_quiet {i : Intake} {f : KvFrame} (hpayload : Translates i.ledger.limits f.payload)
    (backend : BackendId) (nowMs : UInt64) {op : NativeKvOp}
    (hop : op ∈ (i.takeFrame backend f nowMs).1.ops) : op ∈ i.ops ∨ op.kind ≠ .RESET := by
  obtain ⟨batch, hdecode, hok⟩ := hpayload
  obtain ⟨evs, hspec⟩ := KvBlockLedger.translate_spec hdecode
  rw [takeFrame, hdecode] at hop
  dsimp only at hop
  generalize hj : (if f.seq = 0 then (i.advance f.seq).push .COMPLETE backend nowMs
      else i.advance f.seq) = j at hop
  have hledger : j.ledger = i.ledger := by
    rw [← hj]
    split_ifs <;> rfl
  have hacc : (j.ledger.translate backend batch).ok = true := hok _ _ (by rw [hledger])
  rw [translate, count, if_pos hacc] at hop
  rcases List.mem_append.mp hop with hop | hop
  · rw [← hj] at hop
    split_ifs at hop
    · rcases List.mem_append.mp hop with hop | hop
      · exact .inl hop
      · obtain rfl := List.mem_singleton.mp hop
        exact .inr (by simp)
    · exact .inl hop
  · exact .inr ((hspec j.ledger backend).2.2 op hop)

end Intake

/-! ## Runs -/

/-- The worker, and for each backend the batches that the connect backfill of its
current subscription took. -/
structure Watched : Type where
  worker : KvEventSubscriber
  covered : BackendId → List KvFrame

namespace Watched

/-- Before the first turn. -/
def start (replayOnConnect : Bool) (limits : LedgerLimits) : Watched :=
  ⟨KvEventSubscriber.create replayOnConnect limits, fun _ => []⟩

/-- What is covered after a turn: a subscription that is added starts anew. -/
def coveredAfter (s : Watched) : SubscriberEvent → BackendId → List KvFrame
  | .add backend endpoint replayEndpoint connects answer nowMs =>
    if s.worker.adds backend connects then
      Function.update s.covered backend
        (s.worker.connect backend endpoint replayEndpoint answer nowMs).2
    else s.covered
  | _ => s.covered

/-- One turn. -/
def step (s : Watched) (e : SubscriberEvent) : Option Watched :=
  some ⟨(s.worker.handle e).1, s.coveredAfter e⟩

/-- A subscription whose backfill took a batch is in sequence, and the batches it took
translate. -/
structure Sound (limits : LedgerLimits) (s : Watched) : Prop where
  ledger : s.worker.ledger.limits = limits
  covered : ∀ {backend sub}, s.worker.subs.lookup backend = some sub →
    ∀ f ∈ s.covered backend, sub.synced = true ∧ Translates limits f.payload

theorem sound_start (replayOnConnect : Bool) (limits : LedgerLimits) :
    (start replayOnConnect limits).Sound limits := by
  refine ⟨rfl, ?_⟩
  intro backend sub _ f hf
  cases hf

variable {limits : LedgerLimits} {s : Watched}

/-- A new subscription is past all that its backfill took. -/
theorem connect_sound (w : KvEventSubscriber) (backend : BackendId)
    (endpoint replayEndpoint : String) (answer : Option (List Message)) (nowMs : UInt64) :
    (w.connect backend endpoint replayEndpoint answer nowMs).1.ledger.limits = w.ledger.limits ∧
      ∀ f ∈ (w.connect backend endpoint replayEndpoint answer nowMs).2,
        let sub := (w.connect backend endpoint replayEndpoint answer nowMs).1.sub
        sub.synced = true ∧ f.seq < sub.nextSeq ∧ Translates w.ledger.limits f.payload := by
  rw [KvEventSubscriber.connect]
  dsimp only
  have hledger : (if backend ∈ w.subs then w.ledger.dropBackend backend else w.ledger).limits =
      w.ledger.limits := by
    split_ifs <;> rfl
  generalize (if backend ∈ w.subs then w.ledger.dropBackend backend else w.ledger) = l at hledger ⊢
  split_ifs
  · have hreplay := attemptReplay_sound
      (Intake.count (fun c => { c with replayRequests := c.replayRequests + 1 })
        ⟨{ endpoint := endpoint, replayEndpoint := replayEndpoint }, l, w.stats, []⟩)
      backend 0 noBound answer
    have htaken := hreplay.taken
    rw [← hledger, Intake.backfill]
    dsimp only
    split_ifs
    · exact ⟨hreplay.ledger, htaken⟩
    · exact ⟨hreplay.ledger, htaken⟩
    · exact ⟨hreplay.ledger, htaken⟩
  · refine ⟨hledger, ?_⟩
    intro f hf
    cases hf

theorem lookup_of_erase {subs : Finmap fun _ : BackendId => Subscription} {b backend : BackendId}
    {sub : Subscription} (h : (subs.erase backend).lookup b = some sub) :
    subs.lookup b = some sub := by
  by_cases hb : b = backend
  · rw [hb, Finmap.lookup_erase] at h
    cases h
  · rwa [Finmap.lookup_erase_ne hb] at h

/-- A subscription that is in sequence is written back. -/
theorem Sound.put (h : s.Sound limits) {backend : BackendId} {old : Subscription}
    (hold : s.worker.subs.lookup backend = some old) {i : Intake}
    (hledger : i.ledger.limits = limits) (hsynced : i.sub.synced = true) :
    Sound limits ⟨s.worker.put backend i, s.covered⟩ := by
  refine ⟨hledger, ?_⟩
  intro b sub hsub f hf
  by_cases hb : b = backend
  · subst hb
    obtain rfl := Option.some.inj ((Finmap.lookup_insert _).symm.trans hsub)
    exact ⟨hsynced, (h.covered hold f hf).2⟩
  · exact h.covered ((Finmap.lookup_insert_of_ne _ hb).symm.trans hsub) f hf

theorem Sound.step (h : s.Sound limits) {e : SubscriberEvent} {s' : Watched}
    (hstep : s.step e = some s') : s'.Sound limits := by
  obtain rfl := Option.some.inj hstep
  cases e with
  | add backend endpoint replayEndpoint connects answer nowMs =>
    obtain ⟨hledger, htaken⟩ :=
      connect_sound s.worker backend endpoint replayEndpoint answer nowMs
    rw [KvEventSubscriber.handle, coveredAfter]
    split_ifs
    · refine ⟨hledger.trans h.ledger, ?_⟩
      intro b sub hsub f hf
      dsimp only at hf
      by_cases hb : b = backend
      · subst hb
        rw [Function.update_self] at hf
        obtain rfl := Option.some.inj ((Finmap.lookup_insert _).symm.trans hsub)
        obtain ⟨hsynced, -, htrans⟩ := htaken f hf
        rw [h.ledger] at htrans
        exact ⟨hsynced, htrans⟩
      · rw [Function.update_of_ne hb] at hf
        exact h.covered ((Finmap.lookup_insert_of_ne _ hb).symm.trans hsub) f hf
    · exact h
  | remove backend =>
    rw [KvEventSubscriber.handle]
    split_ifs
    · refine ⟨h.ledger, ?_⟩
      intro b sub hsub
      exact h.covered (lookup_of_erase hsub)
    · exact h
  | receive backend parts answer nowMs =>
    rw [KvEventSubscriber.handle]
    cases hold : s.worker.subs.lookup backend with
    | none => exact h
    | some old =>
      dsimp only
      split_ifs with hempty
      · exact h
      · cases hsplit : splitSeqPayload (recvMessage parts) with
        | none => exact ⟨h.ledger, h.covered⟩
        | some f =>
          dsimp only
          obtain ⟨-, -, hsynced, hlimits⟩ := Intake.takeFrame_adds
            ((s.worker.intake old).checkSequence backend f.seq answer nowMs) backend f nowMs
          rw [Intake.checkSequence_limits] at hlimits
          have hput := h.put hold (hlimits.trans h.ledger) hsynced
          split_ifs
          · exact hput
          · refine ⟨hput.ledger, ?_⟩
            intro b sub hsub
            exact hput.covered (lookup_of_erase hsub)
  | heartbeat order nowMs => exact h

theorem sound_exec {replayOnConnect : Bool} {es : List SubscriberEvent}
    (hexec : exec step (start replayOnConnect limits) es = some s) : s.Sound limits :=
  exec_induction (I := fun _ s => s.Sound limits) (fun hstep h => h.step hstep) (h := []) hexec
    (sound_start replayOnConnect limits)

end Watched

theorem KvEventSubscriber.handle_receive {w : KvEventSubscriber} {backend : BackendId}
    {sub : Subscription} (hsub : w.subs.lookup backend = some sub) {parts : Message} {f : KvFrame}
    (hkept : recvMessage parts ≠ []) (hframe : splitSeqPayload (recvMessage parts) = some f)
    (answer : Option (List Message)) (nowMs : UInt64) :
    let i := (w.intake sub).checkSequence backend f.seq answer nowMs
    (w.handle (.receive backend parts answer nowMs)).2 = (i.takeFrame backend f nowMs).1.ops ∧
      (w.handle (.receive backend parts answer nowMs)).1.stats =
        (i.takeFrame backend f nowMs).1.stats := by
  rw [handle, hsub]
  dsimp only
  rw [if_neg hkept, hframe]
  refine ⟨rfl, ?_⟩
  dsimp only
  split_ifs <;> rfl

/-- One frame that the backfill has covered, in a state the invariant holds in. -/
theorem Watched.Sound.quiet_iff {limits : LedgerLimits} {s : Watched} (hsound : s.Sound limits)
    {backend : BackendId} {sub : Subscription} (hsub : s.worker.subs.lookup backend = some sub)
    {parts : Message} {f : KvFrame} (hframe : splitSeqPayload (recvMessage parts) = some f)
    (hcovered : f ∈ s.covered backend) (answer : Option (List Message)) (nowMs : UInt64) :
    s.worker.HandlesQuietly backend (.receive backend parts answer nowMs) ↔
      sub.nextSeq = f.seq := by
  obtain ⟨hsynced, hpayload⟩ := hsound.covered hsub f hcovered
  have hkept : recvMessage parts ≠ [] := by
    intro hempty
    rw [hempty] at hframe
    cases hframe
  obtain ⟨hops, hasked, -, -⟩ := Intake.takeFrame_adds
    ((s.worker.intake sub).checkSequence backend f.seq answer nowMs) backend f nowMs
  have hhandle := KvEventSubscriber.handle_receive hsub hkept hframe answer nowMs
  rw [KvEventSubscriber.HandlesQuietly, hhandle.1, hhandle.2, hasked]
  constructor
  · rintro ⟨hreset, hrequests⟩
    by_contra hseq
    rcases Intake.checkSequence_gap (i := s.worker.intake sub) hsynced (Ne.symm hseq) backend
      answer nowMs with hmore | ⟨op, hop, hkind, hback⟩
    · rw [hmore] at hrequests
      exact Nat.succ_ne_self _ hrequests
    · exact hreset op (hops hop) ⟨hkind, hback⟩
  · intro hseq
    rw [Intake.checkSequence_next (i := s.worker.intake sub) hseq.symm backend answer nowMs]
    refine ⟨?_, rfl⟩
    rintro op hop ⟨hkind, -⟩
    rw [← hsound.ledger] at hpayload
    rcases Intake.takeFrame_quiet (i := s.worker.intake sub) hpayload backend nowMs hop
      with hold | hquiet
    · cases hold
    · exact hquiet hkind

/-- **Covered frames.** In every state a run of the worker reaches: let a message on the
stream of a backend carry a batch that the connect backfill of its subscription has
taken already, the same number and bytes. It is taken without a `RESET` of the backend
and without another replay exactly when its number is the one expected next. -/
theorem covered_quiet_iff {replayOnConnect : Bool} {limits : LedgerLimits}
    {es : List SubscriberEvent} {s : Watched}
    (hexec : exec Watched.step (Watched.start replayOnConnect limits) es = some s)
    {backend : BackendId} {sub : Subscription} (hsub : s.worker.subs.lookup backend = some sub)
    {parts : Message} {f : KvFrame} (hframe : splitSeqPayload (recvMessage parts) = some f)
    (hcovered : f ∈ s.covered backend) (answer : Option (List Message)) (nowMs : UInt64) :
    s.worker.HandlesQuietly backend (.receive backend parts answer nowMs) ↔
      sub.nextSeq = f.seq :=
  (Watched.sound_exec hexec).quiet_iff hsub hframe hcovered answer nowMs

/-- A batch without events, of one second. -/
def idleBatch : List UInt8 := [0x92, 0x01, 0x90]

/-- The bytes of a small number. -/
def seqBytes (n : UInt8) : List UInt8 := List.replicate 7 0 ++ [n]

/-- The replay answers with batches 0 and 1 and its sentinel. -/
def backfillTwo : SubscriberEvent :=
  .add 1 "tcp://engine:5557" "tcp://engine:5558" true
    (some [[[], seqBytes 0, idleBatch], [[], seqBytes 1, idleBatch],
      [[], List.replicate 8 0xff, []]]) 5

/-- The same batch on the live stream, queued since the socket was connected. -/
def liveFrame (n : UInt8) : Message := [[], seqBytes n, idleBatch]

/-- Once batch 0 has come a second time and reset the backend, batch 1 is in sequence. -/
theorem covered_quiet_rewound :
    ∃ s, exec Watched.step (Watched.start true KvBlockLedger.tokenLimits)
        [backfillTwo, .receive 1 (liveFrame 0) none 6] = some s ∧
      s.worker.HandlesQuietly 1 (.receive 1 (liveFrame 1) none 7) := by
  have hexec : exec Watched.step (Watched.start true KvBlockLedger.tokenLimits)
      [backfillTwo, .receive 1 (liveFrame 0) none 6] = some _ := rfl
  refine ⟨_, hexec, (covered_quiet_iff hexec
    (show _ = some ⟨"tcp://engine:5557", "tcp://engine:5558", 1, true⟩ from ?_)
    (f := ⟨1, idleBatch⟩) ?_ ?_ none 7).mpr rfl⟩
  all_goals decide +kernel

/-- **An overlap resets.** The backfill has taken batches 0 and 1; batch 1, which the
live stream had queued meanwhile, resets the backend. -/
theorem overlap_resets :
    ∃ s, exec Watched.step (Watched.start true KvBlockLedger.tokenLimits) [backfillTwo] = some s ∧
      splitSeqPayload (recvMessage (liveFrame 1)) = some ⟨1, idleBatch⟩ ∧
      ⟨1, idleBatch⟩ ∈ s.covered 1 ∧
      ¬ s.worker.HandlesQuietly 1 (.receive 1 (liveFrame 1) none 6) := by
  refine ⟨_, rfl, by decide +kernel, by decide +kernel, ?_⟩
  intro hquiet
  exact hquiet.1 { kind := .RESET, backend := 1, tsMs := 6 } (by decide +kernel) ⟨rfl, rfl⟩

/-- **Every overlap resets or replays.** Right after a subscription was added, no batch
that its backfill took can arrive on the live stream quietly. -/
theorem overlap_never_quiet {replayOnConnect : Bool} {limits : LedgerLimits}
    {es : List SubscriberEvent} {s s' : Watched}
    (hexec : exec Watched.step (Watched.start replayOnConnect limits) es = some s)
    {backend : BackendId} {endpoint replayEndpoint : String} {answer : Option (List Message)}
    {nowMs : UInt64} (hadds : s.worker.adds backend true)
    (hstep : s.step (.add backend endpoint replayEndpoint true answer nowMs) = some s')
    {parts : Message} {f : KvFrame} (hframe : splitSeqPayload (recvMessage parts) = some f)
    (hcovered : f ∈ s'.covered backend) (answer' : Option (List Message)) (nowMs' : UInt64) :
    ¬ s'.worker.HandlesQuietly backend (.receive backend parts answer' nowMs') := by
  have hsound := (Watched.sound_exec hexec).step hstep
  obtain ⟨-, htaken⟩ :=
    Watched.connect_sound s.worker backend endpoint replayEndpoint answer nowMs
  obtain rfl := Option.some.inj hstep
  have hsub : (s.worker.handle
      (.add backend endpoint replayEndpoint true answer nowMs)).1.subs.lookup backend =
        some (s.worker.connect backend endpoint replayEndpoint answer nowMs).1.sub := by
    rw [KvEventSubscriber.handle, if_pos hadds]
    exact Finmap.lookup_insert _
  rw [hsound.quiet_iff hsub hframe hcovered]
  simp only [Watched.coveredAfter, if_pos hadds, Function.update_self] at hcovered
  intro hseq
  exact UInt64.ne_of_lt (htaken f hcovered).2.1 hseq.symm

end Ranvier
