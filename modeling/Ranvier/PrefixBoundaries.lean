import Mathlib.Algebra.GroupWithZero.Nat
import Mathlib.Algebra.Order.BigOperators.Group.List
import Mathlib.Algebra.Order.Group.Nat
import Ranvier.PrefixHash
import Ranvier.SharedPrefix

/-!
# The boundary of the shared prefix

Requests of an application share the messages they begin with, and routing is to hash the tokens
of these and no others. `boundary_detector.hpp` and `handle_proxy` find the place: the client may
give it; else the tokens are scanned for the token that opens a message, or the place is
estimated from the characters, or the messages are tokenized one by one, or the system's part is.

* `detectBoundariesByMarkerScan`, `detectBoundariesByCharRatio`, `countMessages`,
  `resolveSystemPrefixBoundary` — the ways;
* `prefixBoundaryOf` — one after the other, the first that finds a boundary;
* `Tokenizes` — what is taken for granted of the tokenizer: it tells the marker apart;
* `scan_exact`, `marker_scan_decides` — the scan finds the ends of the messages, or nothing if
  a message holds the marker;
* `shared_messages_same_key` — requests that share their first messages have the same
  boundaries there, and the same routing key.

The doubles of the estimate are taken exactly.
-/

namespace Ranvier

open RequestRewriter

/-! ## Ways to find boundaries -/

/-- `BoundaryDetectionConfig`. -/
structure BoundaryDetectionConfig : Type where
  enableMultiDepth : Bool := false
  minPrefixBoundaryTokens : ℕ := 4
  deriving DecidableEq, Repr

/-- `BoundaryDetectionResult`. -/
structure BoundaryDetectionResult : Type where
  prefixBoundary : ℕ := 0
  prefixBoundaries : List ℕ := []
  detected : Bool := false
  deriving DecidableEq, Repr

/-- The boundaries of a multi-depth detection: the system's, or else the first one, leads. -/
def multiDepthResult (systemBoundary : ℕ) : List ℕ → BoundaryDetectionResult
  | [] => {}
  | first :: boundaries =>
    { prefixBoundary := if systemBoundary = 0 then first else systemBoundary
      prefixBoundaries := first :: boundaries
      detected := true }

/-- The boundary of a single-depth detection, if it is in bounds. -/
def singleResult (config : BoundaryDetectionConfig) (boundary count : ℕ) :
    BoundaryDetectionResult :=
  if config.minPrefixBoundaryTokens ≤ boundary ∧ boundary < count then
    { prefixBoundary := boundary, detected := true }
  else {}

/-- Where the marker stands, in tokens that begin at an index. -/
def markerPositions (marker : TokenId) : ℕ → List TokenId → List ℕ
  | _, [] => []
  | i, t :: tokens =>
    if t = marker then i :: markerPositions marker (i + 1) tokens
    else markerPositions marker (i + 1) tokens

/-- `detect_boundaries_by_marker_scan`. -/
def detectBoundariesByMarkerScan (tokens : List TokenId) (marker : TokenId)
    (info : TextWithBoundaryInfo) (config : BoundaryDetectionConfig) : BoundaryDetectionResult :=
  if tokens = [] ∨ info.totalMessageCount = 0 then {}
  else
    let markerPos := markerPositions marker 0 tokens
    if markerPos.length ≠ info.totalMessageCount + 1 ∨ markerPos.length < 2 then {}
    else
      let bosOffset := markerPos.getD 0 0
      let sysCount := info.systemMessageCount
      let inScan : Prop := 0 < sysCount ∧ sysCount < markerPos.length
      let systemBoundary := markerPos.getD sysCount 0 - bosOffset
      if config.enableMultiDepth then
        multiDepthResult (if inScan then systemBoundary else 0)
          ((markerPos.tail.map (· - bosOffset)).filter fun b => 0 < b ∧ b < tokens.length)
      else if info.hasSystemMessages ∧ inScan then
        singleResult config systemBoundary tokens.length
      else {}

/-- A place in the text as a place in the tokens. -/
def estimate (chars tokenCount textLength : ℕ) : ℕ := chars * tokenCount / textLength

/-- `detect_boundaries_by_char_ratio`. -/
def detectBoundariesByCharRatio (totalTokenCount : ℕ) (info : TextWithBoundaryInfo)
    (config : BoundaryDetectionConfig) : BoundaryDetectionResult :=
  if info.messageCharEnds = [] ∨ info.text = [] ∨ totalTokenCount = 0 then {}
  else
    let place := fun chars => estimate chars totalTokenCount info.text.length
    let sysCount := info.systemMessageCount
    if config.enableMultiDepth then
      multiDepthResult
        (if 0 < sysCount ∧ sysCount ≤ info.messageCharEnds.length then
          place (info.messageCharEnds.getD (sysCount - 1) 0)
         else 0)
        ((info.messageCharEnds.map place).filter fun b => 0 < b ∧ b < totalTokenCount)
    else if info.hasSystemMessages ∧ 0 < sysCount ∧ info.hasSystemPrefix then
      singleResult config (place info.systemPrefixEnd) totalTokenCount
    else {}

/-- `resolve_system_prefix_boundary`. -/
def resolveSystemPrefixBoundary (systemTokenCount routingTokenCount : ℕ) (wasTruncated : Bool)
    (config : BoundaryDetectionConfig) : BoundaryDetectionResult :=
  if systemTokenCount < config.minPrefixBoundaryTokens then {}
  else if systemTokenCount < routingTokenCount then
    { prefixBoundary := systemTokenCount, detected := true }
  else if wasTruncated ∧ config.minPrefixBoundaryTokens ≤ routingTokenCount then
    { prefixBoundary := routingTokenCount, detected := true }
  else {}

/-- The variables of the loop over the formatted messages. -/
structure MessageCounts : Type where
  cumulativeTokens : ℕ := 0
  foundNonSystem : Bool := false
  systemBoundary : ℕ := 0
  prefixBoundaries : List ℕ := []
  deriving DecidableEq, Repr

/-- A turn of that loop; a message that cannot be tokenized is skipped. -/
def MessageCounts.add (encode : List Char → Option (List TokenId)) (tokenCount : ℕ)
    (s : MessageCounts) (msg : List Char × Bool) : MessageCounts :=
  match encode msg.1 with
  | none => s
  | some tokens =>
    let cumulative := s.cumulativeTokens + tokens.length
    { cumulativeTokens := cumulative
      foundNonSystem := s.foundNonSystem || !msg.2
      systemBoundary :=
        if !s.foundNonSystem && !msg.2 then s.cumulativeTokens else s.systemBoundary
      prefixBoundaries :=
        if 0 < cumulative ∧ cumulative < tokenCount then s.prefixBoundaries ++ [cumulative]
        else s.prefixBoundaries }

/-- The messages, tokenized one by one. -/
def countMessages (encode : List Char → Option (List TokenId)) (tokenCount : ℕ)
    (messages : List (List Char × Bool)) : BoundaryDetectionResult :=
  let s := messages.foldl (MessageCounts.add encode tokenCount) {}
  multiDepthResult
    (if !s.foundNonSystem && decide (0 < s.cumulativeTokens) then s.cumulativeTokens
     else s.systemBoundary)
    s.prefixBoundaries

/-! ## One way after the other -/

/-- `message_start_marker`. -/
def ChatTemplateFormat.messageStartMarker : ChatTemplateFormat → List Char
  | .llama3 => "<|start_header_id|>".toList
  | .chatml => "<|im_start|>".toList
  | _ => []

/-- `boundary_from_system_prefix`. -/
def ChatTemplateFormat.boundaryFromSystemPrefix (format : ChatTemplateFormat) : Bool :=
  format = .llama2

/-- The settings that `handle_proxy` reads for this. -/
structure BoundarySettings : Type where
  acceptClientPrefixBoundary : Bool
  enableMultiDepthRouting : Bool
  enablePrefixBoundary : Bool
  minPrefixBoundaryTokens : ℕ
  chatTemplate : ChatTemplateFormat
  deriving DecidableEq, Repr

namespace BoundarySettings

variable (cfg : BoundarySettings)

def detection : BoundaryDetectionConfig :=
  ⟨cfg.enableMultiDepthRouting, cfg.minPrefixBoundaryTokens⟩

end BoundarySettings

/-- What it knows of the request: the tokens, the boundaries that the client gave, and the text
with what was found in it. -/
structure BoundaryInput : Type where
  tokens : List TokenId
  tokenizationSkipped : Bool := false
  wasTruncated : Bool := false
  clientBoundaries : List ℕ := []
  clientPrefix : Option ℕ := none
  textExtraction : Option TextWithBoundaryInfo

/-- The first that is detected. -/
def BoundaryDetectionResult.orElse (a b : BoundaryDetectionResult) : BoundaryDetectionResult :=
  if a.detected then a else b

section Cascade

variable (cfg : BoundarySettings) (encode : List Char → Option (List TokenId))
  (input : BoundaryInput)

/-- Options 1a and 1b: what the client gave. -/
def clientBoundary : BoundaryDetectionResult :=
  if cfg.acceptClientPrefixBoundary then
    let valid := input.clientBoundaries.filter fun b => 0 < b ∧ b < input.tokens.length
    (if cfg.enableMultiDepthRouting then multiDepthResult 0 valid else {}).orElse
      (match input.clientPrefix with
        | some count =>
          if 0 < count ∧ count < input.tokens.length then
            { prefixBoundary := count, detected := true }
          else {}
        | none => {})
  else {}

/-- Strategy 1. -/
def scanStrategy (info : TextWithBoundaryInfo) : BoundaryDetectionResult :=
  if cfg.chatTemplate.messageStartMarker = [] then {}
  else
    match encode cfg.chatTemplate.messageStartMarker with
    | some [marker] => detectBoundariesByMarkerScan input.tokens marker info cfg.detection
    | _ => {}

/-- Strategy 2. -/
def ratioStrategy (info : TextWithBoundaryInfo) : BoundaryDetectionResult :=
  if !input.wasTruncated && !cfg.chatTemplate.boundaryFromSystemPrefix then
    detectBoundariesByCharRatio input.tokens.length info cfg.detection
  else {}

/-- Strategy 3. -/
def messagesStrategy (info : TextWithBoundaryInfo) : BoundaryDetectionResult :=
  if cfg.enableMultiDepthRouting ∧ info.formattedMessages ≠ [] then
    countMessages encode input.tokens.length info.formattedMessages
  else {}

/-- Strategy 4. -/
def systemStrategy (info : TextWithBoundaryInfo) : BoundaryDetectionResult :=
  if info.hasSystemMessages then
    match encode (if info.hasSystemPrefix then info.text.take info.systemPrefixEnd
        else info.systemText) with
    | some systemTokens =>
      resolveSystemPrefixBoundary systemTokens.length input.tokens.length input.wasTruncated
        cfg.detection
    | none => {}
  else {}

/-- The boundaries that `handle_proxy` routes a request with. -/
def prefixBoundaryOf : BoundaryDetectionResult :=
  if input.tokens = [] ∨ input.tokenizationSkipped then {}
  else
    (clientBoundary cfg input).orElse
      (match cfg.enablePrefixBoundary, input.textExtraction with
        | true, some info =>
          (scanStrategy cfg encode input info).orElse
            ((ratioStrategy cfg input info).orElse
              ((messagesStrategy cfg encode input info).orElse
                (systemStrategy cfg encode input info)))
        | _, _ => {})

end Cascade

/-! ## Marked templates -/

/-- What the first message of a conversation is preceded by. -/
def bosText : ChatTemplateFormat → List Char
  | .llama3 => "<|begin_of_text|>".toList
  | _ => []

/-- What follows the marker of a message. -/
def blockText (format : ChatTemplateFormat) (m : ChatMessage) : List Char :=
  let role := m.role.getD "user".toList
  match format with
  | .llama3 => role ++ "<|end_header_id|>\n\n".toList ++ m.content ++ "<|eot_id|>".toList
  | _ => role ++ ['\n'] ++ m.content ++ "<|im_end|>\n".toList

/-- What follows the marker of the generation prompt. -/
def promptText : ChatTemplateFormat → List Char
  | .llama3 => "assistant<|end_header_id|>\n\n".toList
  | _ => "assistant\n".toList

/-- The templates that open every message with one marker. -/
def Marked (format : ChatTemplateFormat) : Prop := format = .llama3 ∨ format = .chatml

/-- The text of a conversation. -/
def markedText (format : ChatTemplateFormat) (ms : List ChatMessage) : List Char :=
  bosText format ++ ms.flatMap (fun m => format.messageStartMarker ++ blockText format m) ++
    (format.messageStartMarker ++ promptText format)

def isSystemMessage (m : ChatMessage) : Bool := m.role = some systemRole

variable {format : ChatTemplateFormat} {need : Bool}

theorem Marked.marker_ne_nil (h : Marked format) : format.messageStartMarker ≠ [] := by
  rcases h with rfl | rfl
  · decide
  · decide

/-- A message appends its marker and its block, the first one after the beginning. -/
theorem Marked.render_eq (h : Marked format) (s : BoundaryScan) (m : ChatMessage) :
    s.render format m = s.combined ++ (if s.isFirstMessage then bosText format else []) ++
      (format.messageStartMarker ++ blockText format m) := by
  have hgroup : ∀ out first mark role mid content close : List Char,
      out ++ first ++ mark ++ role ++ mid ++ content ++ close =
        out ++ first ++ (mark ++ (role ++ mid ++ content ++ close)) := by
    intros
    simp only [List.append_assoc]
  rw [BoundaryScan.render]
  rcases h with rfl | rfl
  · rw [ChatTemplateFormat.formatMessage, ChatTemplate.formatLlama3]
    cases s.isFirstMessage with
    | false =>
      rw [if_neg Bool.false_ne_true, if_neg Bool.false_ne_true]
      have hnil := hgroup s.combined []
      rw [List.append_nil] at hnil ⊢
      exact hnil _ _ _ _ _
    | true =>
      rw [if_pos rfl, if_pos rfl]
      exact hgroup _ _ _ _ _ _ _
  · rw [ChatTemplateFormat.formatMessage, ChatTemplate.formatChatml]
    have hnone : (if s.isFirstMessage = true then bosText .chatml else []) = [] := ite_self _
    have hnil := hgroup s.combined []
    rw [List.append_nil] at hnil
    rw [hnone, List.append_nil]
    exact hnil _ _ _ _ _

theorem Marked.prompt_eq (h : Marked format) (out : List Char) :
    format.appendGenerationPrompt out =
      out ++ (format.messageStartMarker ++ promptText format) := by
  rcases h with rfl | rfl
  · have hprompt : "<|start_header_id|>assistant<|end_header_id|>\n\n".toList =
        "<|start_header_id|>".toList ++ "assistant<|end_header_id|>\n\n".toList := by decide
    rw [ChatTemplateFormat.appendGenerationPrompt, hprompt]
    rfl
  · have hprompt : "<|im_start|>assistant\n".toList =
        "<|im_start|>".toList ++ "assistant\n".toList := by decide
    rw [ChatTemplateFormat.appendGenerationPrompt, hprompt]
    rfl

/-- What the loop over the messages leaves. -/
structure Collected (format : ChatTemplateFormat) (s : BoundaryScan) (ms : List ChatMessage)
    (t : BoundaryScan) : Prop where
  combined : t.combined = s.combined ++ (if s.isFirstMessage ∧ ms ≠ [] then bosText format else [])
    ++ ms.flatMap fun m => format.messageStartMarker ++ blockText format m
  total : t.totalMessageCount = s.totalMessageCount + ms.length
  system : t.systemMessageCount = s.systemMessageCount +
    if s.inSystemPrefix then (ms.takeWhile isSystemMessage).length else 0
  found : t.foundAnySystem = (s.foundAnySystem || ms.any isSystemMessage)

theorem Marked.collected (h : Marked format) (s : BoundaryScan) (ms : List ChatMessage) :
    Collected format s ms (ms.foldl (BoundaryScan.add format need) s) := by
  induction ms generalizing s with
  | nil =>
    refine ⟨?_, rfl, ?_, ?_⟩
    · simp
    · simp
    · simp
  | cons m ms ih =>
    obtain ⟨hcombined, htotal, hsystem, hfound⟩ := ih (s.add format need m)
    rw [List.foldl_cons]
    refine ⟨?_, ?_, ?_, ?_⟩
    · rw [hcombined]
      have hfirst : (s.add format need m).isFirstMessage = false := rfl
      have hadd : (s.add format need m).combined = s.render format m := rfl
      have hne : m :: ms ≠ [] := List.cons_ne_nil _ _
      simp only [hfirst, hadd, h.render_eq, Bool.false_eq_true, false_and, if_false,
        List.flatMap_cons, List.append_nil, List.append_assoc, hne, ne_eq, not_false_eq_true,
        and_true]
    · rw [htotal, List.length_cons]
      change s.totalMessageCount + 1 + ms.length = _
      omega
    · rw [hsystem]
      change (if isSystemMessage m && s.inSystemPrefix then s.systemMessageCount + 1
          else s.systemMessageCount) +
        (if (isSystemMessage m && s.inSystemPrefix) = true then
          (ms.takeWhile isSystemMessage).length else 0) = _
      cases hm : isSystemMessage m with
      | false => simp [hm]
      | true =>
        cases hin : s.inSystemPrefix with
        | false => simp
        | true =>
          simp only [Bool.and_self, if_true, List.takeWhile_cons_of_pos hm, List.length_cons]
          omega
    · rw [hfound, List.any_cons, ← Bool.or_assoc]
      change (isSystemMessage m || s.foundAnySystem || _) = _
      rw [Bool.or_comm (isSystemMessage m)]

/-- What is read off a conversation. -/
theorem Marked.extracted (h : Marked format) {doc : JsonValue} {messages : List JsonValue}
    {info : TextWithBoundaryInfo} (hdoc : IsConversation doc messages)
    (hinfo : extractTextWithBoundaryInfo doc need format = some info)
    (hne : messages.filterMap readMessage ≠ []) :
    info.text = markedText format (messages.filterMap readMessage) ∧
      info.totalMessageCount = (messages.filterMap readMessage).length ∧
      info.systemMessageCount =
        ((messages.filterMap readMessage).takeWhile isSystemMessage).length ∧
      info.hasSystemMessages = (messages.filterMap readMessage).any isSystemMessage := by
  have hstart : BoundaryScan.start format messages = {} := by
    rcases h with rfl | rfl
    · rfl
    · rfl
  have hscan : scanMessages format need messages =
      (messages.filterMap readMessage).foldl (BoundaryScan.add format need) {} := by
    rw [scanMessages, hstart, BoundaryScan.foldl_scan]
  have hcollected := @Marked.collected format need h {} (messages.filterMap readMessage)
  rw [← hscan] at hcollected
  rw [extractTextWithBoundaryInfo, hdoc.1, hdoc.2] at hinfo
  dsimp only at hinfo
  split at hinfo
  · cases hinfo
  split at hinfo
  · cases hinfo
  obtain rfl := Option.some.inj hinfo
  refine ⟨?_, ?_, ?_, ?_⟩
  · rw [h.prompt_eq, hcollected.combined, if_pos ⟨rfl, hne⟩, markedText, List.nil_append]
  · rw [hcollected.total]
    exact Nat.zero_add _
  · rw [hcollected.system]
    exact Nat.zero_add _
  · rw [hcollected.found]
    rfl

/-! ## Tokens -/

/-- The tokenizer tells the marker of a template apart, wherever it stands: it is a token of its
own, and what stands before and behind it is tokenized by itself. -/
structure Tokenizes (encode : List Char → List TokenId) (format : ChatTemplateFormat)
    (marker : TokenId) : Prop where
  marker_eq : encode format.messageStartMarker = [marker]
  split : ∀ before after, encode (before ++ format.messageStartMarker ++ after) =
    encode before ++ marker :: encode after
  bos : marker ∉ encode (bosText format)
  prompt : marker ∉ encode (promptText format)

/-- The tokens of a message. -/
def blockTokens (encode : List Char → List TokenId) (format : ChatTemplateFormat)
    (marker : TokenId) (m : ChatMessage) : List TokenId :=
  marker :: encode (blockText format m)

/-- The numbers of tokens of the messages. -/
def blockLengths (encode : List Char → List TokenId) (format : ChatTemplateFormat)
    (marker : TokenId) (ms : List ChatMessage) : List ℕ :=
  ms.map fun m => (blockTokens encode format marker m).length

/-- The places behind pieces of the given lengths. -/
def runningEnds : ℕ → List ℕ → List ℕ
  | _, [] => []
  | k, n :: lens => (k + n) :: runningEnds (k + n) lens

section Tokens

variable {encode : List Char → List TokenId} {marker : TokenId} {ms : List ChatMessage}

theorem Tokenizes.encode_blocks (h : Tokenizes encode format marker) (before : List Char)
    (ms : List ChatMessage) :
    encode (before ++ ms.flatMap (fun m => format.messageStartMarker ++ blockText format m) ++
      (format.messageStartMarker ++ promptText format)) =
    encode before ++ (ms.flatMap (blockTokens encode format marker) ++
      marker :: encode (promptText format)) := by
  induction ms generalizing before with
  | nil =>
    rw [List.flatMap_nil, List.append_nil, ← List.append_assoc, h.split]
    rfl
  | cons m ms ih =>
    have hregroup : before ++ (m :: ms).flatMap (fun m => format.messageStartMarker ++
        blockText format m) ++ (format.messageStartMarker ++ promptText format) =
        before ++ format.messageStartMarker ++ (blockText format m ++
          ms.flatMap (fun m => format.messageStartMarker ++ blockText format m) ++
          (format.messageStartMarker ++ promptText format)) := by
      simp only [List.flatMap_cons, List.append_assoc]
    rw [hregroup, h.split, ih, List.flatMap_cons, blockTokens]
    simp only [List.append_assoc, List.cons_append]

theorem markerPositions_append (i : ℕ) (u v : List TokenId) :
    markerPositions marker i (u ++ v) =
      markerPositions marker i u ++ markerPositions marker (i + u.length) v := by
  induction u generalizing i with
  | nil => rfl
  | cons t u ih =>
    rw [List.cons_append, markerPositions, markerPositions, ih, List.length_cons,
      Nat.add_right_comm, Nat.add_assoc i]
    split_ifs
    · rfl
    · rfl

theorem length_markerPositions (i : ℕ) (tokens : List TokenId) :
    (markerPositions marker i tokens).length = tokens.count marker := by
  induction tokens generalizing i with
  | nil => rfl
  | cons t tokens ih =>
    rw [markerPositions]
    split_ifs with ht
    · rw [List.length_cons, ih, ht, List.count_cons_self]
    · rw [ih, List.count_cons_of_ne ht]

theorem markerPositions_of_notMem {i : ℕ} {tokens : List TokenId} (h : marker ∉ tokens) :
    markerPositions marker i tokens = [] := by
  rw [← List.length_eq_zero_iff, length_markerPositions]
  exact List.count_eq_zero_of_not_mem h

/-- The markers stand where the messages begin, and the last one behind them. -/
theorem markerPositions_blocks (hplain : ∀ m ∈ ms, marker ∉ encode (blockText format m))
    {last : List TokenId} (hlast : marker ∉ last) (k : ℕ) :
    markerPositions marker k (ms.flatMap (blockTokens encode format marker) ++ marker :: last) =
      k :: runningEnds k (blockLengths encode format marker ms) := by
  induction ms generalizing k with
  | nil =>
    rw [List.flatMap_nil, List.nil_append, markerPositions, if_pos rfl,
      markerPositions_of_notMem hlast]
    rfl
  | cons m ms ih =>
    rw [List.flatMap_cons, blockTokens, List.cons_append, List.cons_append, markerPositions,
      if_pos rfl, List.append_assoc, markerPositions_append,
      markerPositions_of_notMem (hplain m (List.mem_cons_self ..)), List.nil_append,
      ih fun m' hm' => hplain m' (List.mem_cons_of_mem _ hm')]
    have hlen : k + 1 + (encode (blockText format m)).length =
        k + (blockTokens encode format marker m).length := by
      rw [blockTokens, List.length_cons]
      omega
    rw [hlen]
    rfl

theorem runningEnds_shift (a k : ℕ) (lens : List ℕ) :
    runningEnds (a + k) lens = (runningEnds k lens).map (a + ·) := by
  induction lens generalizing k with
  | nil => rfl
  | cons n lens ih =>
    rw [runningEnds, runningEnds, List.map_cons, Nat.add_assoc, ih]

theorem runningEnds_append (k : ℕ) (lens lens' : List ℕ) :
    runningEnds k (lens ++ lens') = runningEnds k lens ++ runningEnds (k + lens.sum) lens' := by
  induction lens generalizing k with
  | nil => rfl
  | cons n lens ih =>
    rw [List.cons_append, runningEnds, runningEnds, ih, List.sum_cons, Nat.add_assoc]
    rfl

theorem length_runningEnds (k : ℕ) (lens : List ℕ) : (runningEnds k lens).length = lens.length := by
  induction lens generalizing k with
  | nil => rfl
  | cons n lens ih => rw [runningEnds, List.length_cons, List.length_cons, ih]

theorem runningEnds_bounds {k b : ℕ} {lens : List ℕ} (hpos : ∀ n ∈ lens, 0 < n)
    (h : b ∈ runningEnds k lens) : k < b ∧ b ≤ k + lens.sum := by
  induction lens generalizing k with
  | nil => cases h
  | cons n lens ih =>
    have hn := hpos n (List.mem_cons_self ..)
    rw [List.sum_cons]
    rcases List.mem_cons.mp h with rfl | h
    · omega
    · have := ih (fun m hm => hpos m (List.mem_cons_of_mem _ hm)) h
      omega

theorem runningEnds_pairwise {lens : List ℕ} (hpos : ∀ n ∈ lens, 0 < n) (k : ℕ) :
    (runningEnds k lens).Pairwise (· < ·) := by
  induction lens generalizing k with
  | nil => exact List.Pairwise.nil
  | cons n lens ih =>
    have hlater : ∀ m ∈ lens, 0 < m := fun m hm => hpos m (List.mem_cons_of_mem _ hm)
    exact List.Pairwise.cons (fun d hd => (runningEnds_bounds hlater hd).1) (ih hlater _)

theorem getD_runningEnds (k : ℕ) {lens : List ℕ} {j : ℕ} (hj : j ≤ lens.length) :
    (k :: runningEnds k lens).getD j 0 = k + (lens.take j).sum := by
  induction lens generalizing k j with
  | nil =>
    obtain rfl : j = 0 := Nat.le_zero.mp hj
    rfl
  | cons n lens ih =>
    cases j with
    | zero => rfl
    | succ j =>
      rw [List.getD_cons_succ, runningEnds, ih _ (Nat.le_of_succ_le_succ hj), List.take_succ_cons,
        List.sum_cons, Nat.add_assoc]

theorem blockLengths_pos {n : ℕ} (h : n ∈ blockLengths encode format marker ms) : 0 < n := by
  obtain ⟨m, -, rfl⟩ := List.mem_map.mp h
  exact Nat.succ_pos _

theorem length_flatMap_blockTokens (ms : List ChatMessage) :
    (ms.flatMap (blockTokens encode format marker)).length =
      (blockLengths encode format marker ms).sum :=
  List.length_flatMap ..

/-! ## The scan -/

theorem count_flatMap_blockTokens (ms : List ChatMessage) :
    (ms.flatMap (blockTokens encode format marker)).count marker =
      ms.length + (ms.map fun m => (encode (blockText format m)).count marker).sum := by
  induction ms with
  | nil => rfl
  | cons m ms ih =>
    rw [List.flatMap_cons, List.count_append, ih, blockTokens, List.count_cons_self,
      List.length_cons, List.map_cons, List.sum_cons]
    omega

section Scan

variable {info : TextWithBoundaryInfo} {config : BoundaryDetectionConfig} {bos last : List TokenId}

/-- **A marker inside a message stops the scan.** -/
theorem scan_refuses (htotal : info.totalMessageCount = ms.length) {m : ChatMessage}
    (hm : m ∈ ms) (hbad : marker ∈ encode (blockText format m)) :
    detectBoundariesByMarkerScan
      (bos ++ (ms.flatMap (blockTokens encode format marker) ++ marker :: last)) marker info
      config = {} := by
  have hpos : 0 < (ms.map fun m => (encode (blockText format m)).count marker).sum := by
    have hmem : (encode (blockText format m)).count marker ∈
        ms.map fun m => (encode (blockText format m)).count marker :=
      List.mem_map.mpr ⟨m, hm, rfl⟩
    exact (List.count_pos_iff.mpr hbad).trans_le (List.le_sum_of_mem hmem)
  have hlength : (markerPositions marker 0 (bos ++ (ms.flatMap
      (blockTokens encode format marker) ++ marker :: last))).length ≠
        info.totalMessageCount + 1 := by
    rw [length_markerPositions, List.count_append, List.count_append, List.count_cons_self,
      count_flatMap_blockTokens, htotal]
    omega
  rw [detectBoundariesByMarkerScan]
  by_cases hnone : bos ++ (ms.flatMap (blockTokens encode format marker) ++ marker :: last) = [] ∨
      info.totalMessageCount = 0
  · rw [if_pos hnone]
  · rw [if_neg hnone]
    dsimp only
    rw [if_pos (.inl hlength)]

/-- The places that the scan finds. -/
theorem scan_positions (hbos : marker ∉ bos) (hlast : marker ∉ last)
    (hplain : ∀ m ∈ ms, marker ∉ encode (blockText format m)) :
    markerPositions marker 0
      (bos ++ (ms.flatMap (blockTokens encode format marker) ++ marker :: last)) =
      bos.length :: runningEnds bos.length (blockLengths encode format marker ms) := by
  rw [markerPositions_append, markerPositions_of_notMem hbos, List.nil_append,
    markerPositions_blocks hplain hlast, Nat.zero_add]

/-- **The scan finds the ends of the messages**, and the system's among them. -/
theorem scan_exact (hbos : marker ∉ bos) (hlast : marker ∉ last)
    (hplain : ∀ m ∈ ms, marker ∉ encode (blockText format m)) (hne : ms ≠ [])
    (htotal : info.totalMessageCount = ms.length)
    (hsys : info.systemMessageCount ≤ ms.length) :
    detectBoundariesByMarkerScan
      (bos ++ (ms.flatMap (blockTokens encode format marker) ++ marker :: last)) marker info
      config =
    if config.enableMultiDepth then
      multiDepthResult
        ((blockLengths encode format marker ms).take info.systemMessageCount).sum
        (runningEnds 0 (blockLengths encode format marker ms))
    else if info.hasSystemMessages ∧ 0 < info.systemMessageCount then
      singleResult config
        ((blockLengths encode format marker ms).take info.systemMessageCount).sum
        (bos ++ (ms.flatMap (blockTokens encode format marker) ++ marker :: last)).length
    else {} := by
  have hlens : (blockLengths encode format marker ms).length = ms.length := List.length_map ..
  have hcount : 0 < ms.length := List.length_pos_iff_ne_nil.mpr hne
  have hsize : (bos ++ (ms.flatMap (blockTokens encode format marker) ++
      marker :: last)).length =
        bos.length + (blockLengths encode format marker ms).sum + 1 + last.length := by
    rw [List.length_append, List.length_append, length_flatMap_blockTokens, List.length_cons]
    omega
  have hnil : bos ++ (ms.flatMap (blockTokens encode format marker) ++ marker :: last) ≠ [] := by
    rw [← List.length_pos_iff_ne_nil, hsize]
    omega
  have hsystem := getD_runningEnds bos.length (hsys.trans_eq hlens.symm)
  have hends : (runningEnds bos.length (blockLengths encode format marker ms)).map
      (· - bos.length) = runningEnds 0 (blockLengths encode format marker ms) := by
    rw [← Nat.add_zero bos.length, runningEnds_shift, List.map_map]
    refine (List.map_congr_left fun b _ => ?_).trans (List.map_id _)
    simp
  have hinside : (runningEnds 0 (blockLengths encode format marker ms)).filter (fun b =>
      0 < b ∧ b < (bos ++ (ms.flatMap (blockTokens encode format marker) ++
        marker :: last)).length) = runningEnds 0 (blockLengths encode format marker ms) := by
    rw [List.filter_eq_self]
    intro b hb
    have hbounds := runningEnds_bounds (fun _ => blockLengths_pos) hb
    rw [decide_eq_true_iff, hsize]
    omega
  have hsome' : ¬(bos ++ (ms.flatMap (blockTokens encode format marker) ++ marker :: last) = [] ∨
      info.totalMessageCount = 0) := by
    rintro (h | h)
    · exact hnil h
    · omega
  have hin : (0 < info.systemMessageCount ∧ info.systemMessageCount < ms.length + 1) ↔
      0 < info.systemMessageCount := ⟨fun h => h.1, fun h => ⟨h, by omega⟩⟩
  have hzero : (if 0 < info.systemMessageCount then
      ((blockLengths encode format marker ms).take info.systemMessageCount).sum else 0) =
        ((blockLengths encode format marker ms).take info.systemMessageCount).sum := by
    split_ifs with hpos
    · rfl
    · rw [Nat.eq_zero_of_not_pos hpos, List.take_zero]
      rfl
  rw [detectBoundariesByMarkerScan, if_neg hsome']
  dsimp only
  rw [scan_positions hbos hlast hplain, hsystem]
  have hlength : (bos.length :: runningEnds bos.length
      (blockLengths encode format marker ms)).length = ms.length + 1 := by
    rw [List.length_cons, length_runningEnds, hlens]
  rw [hlength, htotal, if_neg (by omega), List.getD_cons_zero, List.tail_cons, hends, hinside,
    Nat.add_sub_cancel_left]
  simp only [hin, hzero]

end Scan

/-- What the scan says about a conversation. -/
structure ScanDecides (encode : List Char → List TokenId) (format : ChatTemplateFormat)
    (marker : TokenId) (config : BoundaryDetectionConfig) (ms : List ChatMessage) (count : ℕ)
    (r : BoundaryDetectionResult) : Prop where
  /-- no message of a conversation with boundaries holds the marker -/
  plain : r.detected = true → ∀ m ∈ ms, marker ∉ encode (blockText format m)
  /-- and with multi-depth routing all other conversations have them -/
  found : config.enableMultiDepth = true → (∀ m ∈ ms, marker ∉ encode (blockText format m)) →
    r.detected = true
  /-- the boundaries are the ends of the messages -/
  ends : r.detected = true → config.enableMultiDepth = true →
    r.prefixBoundaries = runningEnds 0 (blockLengths encode format marker ms)
  ascending : r.prefixBoundaries.Pairwise (· < ·)
  within : ∀ d ∈ r.prefixBoundaries, 0 < d ∧ d < count
  /-- the leading boundary is inside as well -/
  inside : r.detected = true → 0 < r.prefixBoundary ∧ r.prefixBoundary < count

theorem scanDecides_none {config : BoundaryDetectionConfig} {count : ℕ}
    (h : config.enableMultiDepth = true → ¬∀ m ∈ ms, marker ∉ encode (blockText format m)) :
    ScanDecides encode format marker config ms count {} where
  plain h := by cases h
  found hmulti hplain := absurd hplain (h hmulti)
  ends h := by cases h
  ascending := List.Pairwise.nil
  within d hd := by cases hd
  inside h := by cases h

/-- **The scan is exact or refuses**: whatever the messages hold, a boundary that it reports is
the end of a message, counted from the first marker (the tokens of the text before it, BOS, are
not counted). -/
theorem marker_scan_decides (hformat : Marked format) (htok : Tokenizes encode format marker)
    (config : BoundaryDetectionConfig) {doc : JsonValue} {messages : List JsonValue}
    {info : TextWithBoundaryInfo} (hdoc : IsConversation doc messages)
    (hinfo : extractTextWithBoundaryInfo doc need format = some info)
    (hms : messages.filterMap readMessage = ms) (hne : ms ≠ []) :
    ScanDecides encode format marker config ms (encode info.text).length
      (detectBoundariesByMarkerScan (encode info.text) marker info config) := by
  rw [← hms] at hne
  obtain ⟨htext, htotal, hsys, hsome⟩ := hformat.extracted hdoc hinfo hne
  rw [hms] at hne htext htotal hsys hsome
  have htokens := htok.encode_blocks (bosText format) ms
  rw [← markedText, ← htext] at htokens
  by_cases hplain : ∀ m ∈ ms, marker ∉ encode (blockText format m)
  · have hle : info.systemMessageCount ≤ ms.length := by
      rw [hsys]
      exact (List.takeWhile_sublist _).length_le
    have hscan := @scan_exact format encode marker ms info config (encode (bosText format))
      (encode (promptText format)) htok.bos htok.prompt hplain hne htotal hle
    rw [← htokens] at hscan
    have hsize : (blockLengths encode format marker ms).sum < (encode info.text).length := by
      rw [htokens, List.length_append, List.length_append, length_flatMap_blockTokens,
        List.length_cons]
      omega
    have hposs : ∀ n ∈ blockLengths encode format marker ms, 0 < n := fun _ => blockLengths_pos
    have hsum := List.sum_take_add_sum_drop (blockLengths encode format marker ms)
      info.systemMessageCount
    have hfirst : ∀ n, 0 < n → n ≤ ms.length →
        0 < ((blockLengths encode format marker ms).take n).sum := by
      intro n hn hnle
      obtain ⟨m, rest, rfl⟩ := List.exists_cons_of_ne_nil hne
      obtain ⟨k, rfl⟩ := Nat.exists_eq_succ_of_ne_zero hn.ne'
      rw [blockLengths, List.map_cons, List.take_succ_cons, List.sum_cons]
      exact Nat.add_pos_left (Nat.succ_pos _) _
    rw [hscan]
    split_ifs with hmulti hsystem
    · have hlens : runningEnds 0 (blockLengths encode format marker ms) ≠ [] := by
        rw [← List.length_pos_iff_ne_nil, length_runningEnds, blockLengths, List.length_map]
        exact List.length_pos_iff_ne_nil.mpr hne
      have hbounds : ∀ d ∈ runningEnds 0 (blockLengths encode format marker ms),
          0 < d ∧ d < (encode info.text).length := by
        intro d hd
        have := runningEnds_bounds hposs hd
        omega
      obtain ⟨first, later, hcons⟩ := List.exists_cons_of_ne_nil hlens
      rw [hcons, multiDepthResult, ← hcons]
      refine ⟨fun _ => hplain, fun _ _ => rfl, fun _ _ => rfl, runningEnds_pairwise hposs 0,
        hbounds, fun _ => ?_⟩
      dsimp only
      split_ifs with hzero
      · exact hbounds first (by rw [hcons]; exact List.mem_cons_self ..)
      · omega
    · rw [singleResult]
      split_ifs with hin
      · refine ⟨fun _ => hplain, fun _ _ => rfl, fun _ h => absurd h hmulti, List.Pairwise.nil,
          nofun, fun _ => ?_⟩
        exact ⟨hfirst _ hsystem.2 hle, hin.2⟩
      · exact scanDecides_none fun h => absurd h hmulti
    · exact scanDecides_none fun h => absurd h hmulti
  · have hbad := hplain
    push Not at hbad
    obtain ⟨m, hm, hmarker⟩ := hbad
    rw [htokens, scan_refuses htotal hm hmarker]
    exact scanDecides_none fun _ => hplain

/-! ## Requests that share messages -/

/-- A request whose text is tokenized as a whole, without boundaries from the client. -/
def requestInput (encode : List Char → List TokenId) (info : TextWithBoundaryInfo) :
    BoundaryInput where
  tokens := encode info.text
  textExtraction := some info

/-- The boundaries of a conversation. -/
theorem prefixBoundaryOf_conversation {cfg : BoundarySettings} (hformat : Marked cfg.chatTemplate)
    (htok : Tokenizes encode cfg.chatTemplate marker) (henable : cfg.enablePrefixBoundary = true)
    {doc : JsonValue} {messages : List JsonValue} {info : TextWithBoundaryInfo}
    (hdoc : IsConversation doc messages)
    (hinfo : extractTextWithBoundaryInfo doc need cfg.chatTemplate = some info)
    (hms : messages.filterMap readMessage = ms)
    (hplain : ∀ m ∈ ms, marker ∉ encode (blockText cfg.chatTemplate m))
    (hsystem : ms.takeWhile isSystemMessage ≠ [])
    (hmin : cfg.minPrefixBoundaryTokens ≤ ((blockLengths encode cfg.chatTemplate marker ms).take
      (ms.takeWhile isSystemMessage).length).sum) :
    encode info.text = encode (bosText cfg.chatTemplate) ++
        (ms.flatMap (blockTokens encode cfg.chatTemplate marker) ++
          marker :: encode (promptText cfg.chatTemplate)) ∧
      prefixBoundaryOf cfg (fun text => some (encode text)) (requestInput encode info) =
        { prefixBoundary := ((blockLengths encode cfg.chatTemplate marker ms).take
            (ms.takeWhile isSystemMessage).length).sum
          prefixBoundaries := if cfg.enableMultiDepthRouting then
            runningEnds 0 (blockLengths encode cfg.chatTemplate marker ms) else []
          detected := true } := by
  have hne : ms ≠ [] := by
    rintro rfl
    exact hsystem rfl
  have hcount : 0 < (ms.takeWhile isSystemMessage).length := List.length_pos_iff_ne_nil.mpr hsystem
  have hle : (ms.takeWhile isSystemMessage).length ≤ ms.length :=
    (List.takeWhile_sublist _).length_le
  rw [← hms] at hne
  obtain ⟨htext, htotal, hsys, hsome⟩ := hformat.extracted hdoc hinfo hne
  rw [hms] at hne htext htotal hsys hsome
  have htokens := htok.encode_blocks (bosText cfg.chatTemplate) ms
  rw [← markedText, ← htext] at htokens
  have hany : ms.any isSystemMessage = true := by
    obtain ⟨m, hm⟩ := List.exists_mem_of_ne_nil _ hsystem
    exact List.any_eq_true.mpr ⟨m, (List.takeWhile_sublist _).subset hm,
      List.mem_takeWhile_imp hm⟩
  refine ⟨htokens, ?_⟩
  have hscan := @scan_exact cfg.chatTemplate encode marker ms info cfg.detection
    (encode (bosText cfg.chatTemplate)) (encode (promptText cfg.chatTemplate)) htok.bos
    htok.prompt hplain hne htotal (by omega)
  rw [← htokens, hsys, if_pos (⟨by rw [hsome, hany], hcount⟩ : info.hasSystemMessages = true ∧ _)]
    at hscan
  have hlens : blockLengths encode cfg.chatTemplate marker ms ≠ [] := by
    rw [← List.length_pos_iff_ne_nil, blockLengths, List.length_map]
    omega
  have hpos : 0 < ((blockLengths encode cfg.chatTemplate marker ms).take
      (ms.takeWhile isSystemMessage).length).sum := by
    obtain ⟨n, lens, hcons⟩ := List.exists_cons_of_ne_nil hlens
    obtain ⟨k, hk⟩ := Nat.exists_eq_succ_of_ne_zero hcount.ne'
    have hn : 0 < n := @blockLengths_pos cfg.chatTemplate encode marker ms n (by simp [hcons])
    rw [hcons, hk, List.take_succ_cons, List.sum_cons]
    omega
  have hinside : ((blockLengths encode cfg.chatTemplate marker ms).take
      (ms.takeWhile isSystemMessage).length).sum < (encode info.text).length := by
    have hsum := List.sum_take_add_sum_drop (blockLengths encode cfg.chatTemplate marker ms)
      (ms.takeWhile isSystemMessage).length
    rw [htokens, List.length_append, List.length_append, length_flatMap_blockTokens,
      List.length_cons]
    omega
  have hnil : encode info.text ≠ [] := by
    intro h
    rw [h] at hinside
    exact absurd hinside (Nat.not_lt_zero _)
  have hclient : (clientBoundary cfg (requestInput encode info)).detected = false := by
    rw [clientBoundary]
    split_ifs <;> rfl
  have hresult : scanStrategy cfg (fun text => some (encode text)) (requestInput encode info) info =
      { prefixBoundary := ((blockLengths encode cfg.chatTemplate marker ms).take
          (ms.takeWhile isSystemMessage).length).sum
        prefixBoundaries := if cfg.enableMultiDepthRouting then
          runningEnds 0 (blockLengths encode cfg.chatTemplate marker ms) else []
        detected := true } := by
    rw [scanStrategy, if_neg hformat.marker_ne_nil, htok.marker_eq]
    refine hscan.trans ?_
    obtain ⟨n, lens, hcons⟩ := List.exists_cons_of_ne_nil hlens
    rw [BoundarySettings.detection]
    cases cfg.enableMultiDepthRouting with
    | false =>
      rw [if_neg Bool.false_ne_true, if_neg Bool.false_ne_true, singleResult,
        if_pos ⟨hmin, hinside⟩]
    | true =>
      rw [if_pos rfl, if_pos rfl]
      generalize ((blockLengths encode cfg.chatTemplate marker ms).take
        (ms.takeWhile isSystemMessage).length).sum = boundary at hpos ⊢
      rw [hcons, runningEnds, multiDepthResult, if_neg hpos.ne']
  rw [prefixBoundaryOf, if_neg (by simp [requestInput, hnil]), BoundaryDetectionResult.orElse,
    hclient, if_neg Bool.false_ne_true, henable]
  change BoundaryDetectionResult.orElse (scanStrategy cfg _ (requestInput encode info) info) _ = _
  rw [hresult, BoundaryDetectionResult.orElse, if_pos rfl]

/-- Two requests are routed alike as far as they share messages. -/
structure RoutedAlike (encode : List Char → List TokenId) (cfg : BoundarySettings)
    (marker : TokenId) (system shared : List ChatMessage) (a b : TextWithBoundaryInfo)
    (ra rb : BoundaryDetectionResult) : Prop where
  /-- the boundary of either is where the tokens of the system's messages end -/
  boundary : ra.prefixBoundary = (blockLengths encode cfg.chatTemplate marker system).sum ∧
    rb.prefixBoundary = (blockLengths encode cfg.chatTemplate marker system).sum
  /-- so they are looked up under the same key -/
  key : ∀ pcfg : PrefixConfig,
    lookupHash pcfg ⟨encode a.text, ra.prefixBoundary, ra.prefixBoundaries⟩ =
      lookupHash pcfg ⟨encode b.text, rb.prefixBoundary, rb.prefixBoundaries⟩ ∧
    (lookupHash pcfg ⟨encode a.text, ra.prefixBoundary, ra.prefixBoundaries⟩).isSome
  /-- with multi-depth routing, the boundaries of the shared messages are the same, one for each,
  and so are the tokens before them -/
  depths : cfg.enableMultiDepthRouting = true →
    ra.prefixBoundaries.take shared.length = rb.prefixBoundaries.take shared.length ∧
      (ra.prefixBoundaries.take shared.length).length = shared.length ∧
      ∀ d ∈ ra.prefixBoundaries.take shared.length,
        (encode a.text).take d = (encode b.text).take d

theorem blockLengths_append (shared rest : List ChatMessage) :
    blockLengths encode format marker (shared ++ rest) =
      blockLengths encode format marker shared ++ blockLengths encode format marker rest :=
  List.map_append ..

theorem take_blockLengths {system shared : List ChatMessage} (h : system <+: shared)
    (rest : List ChatMessage) :
    (blockLengths encode format marker (shared ++ rest)).take system.length =
      blockLengths encode format marker system := by
  obtain ⟨turns, rfl⟩ := h
  rw [List.append_assoc, blockLengths_append]
  have hlen : system.length = (blockLengths encode format marker system).length :=
    (List.length_map ..).symm
  rw [hlen, List.take_left]

/-- **Requests that share their first messages are routed alike**: the tokens of the system's
messages, and nothing else, decide about the key, whatever the other messages are, as long as no
message holds the marker and the system's have tokens enough for a boundary. -/
theorem shared_messages_same_key {cfg : BoundarySettings} (hformat : Marked cfg.chatTemplate)
    (htok : Tokenizes encode cfg.chatTemplate marker) (henable : cfg.enablePrefixBoundary = true)
    {docA docB : JsonValue} {messagesA messagesB : List JsonValue} {a b : TextWithBoundaryInfo}
    (hdocA : IsConversation docA messagesA) (hdocB : IsConversation docB messagesB)
    (ha : extractTextWithBoundaryInfo docA need cfg.chatTemplate = some a)
    (hb : extractTextWithBoundaryInfo docB need cfg.chatTemplate = some b)
    {system shared restA restB : List ChatMessage}
    (hmsA : messagesA.filterMap readMessage = shared ++ restA)
    (hmsB : messagesB.filterMap readMessage = shared ++ restB)
    (hsystemA : (shared ++ restA).takeWhile isSystemMessage = system)
    (hsystemB : (shared ++ restB).takeWhile isSystemMessage = system)
    (hsome : system ≠ []) (hshared : system <+: shared)
    (hplain : ∀ m ∈ shared ++ restA ++ restB, marker ∉ encode (blockText cfg.chatTemplate m))
    (hmin : cfg.minPrefixBoundaryTokens ≤
      (blockLengths encode cfg.chatTemplate marker system).sum) :
    RoutedAlike encode cfg marker system shared a b
      (prefixBoundaryOf cfg (fun text => some (encode text)) (requestInput encode a))
      (prefixBoundaryOf cfg (fun text => some (encode text)) (requestInput encode b)) := by
  have htakeA := @take_blockLengths cfg.chatTemplate encode marker system shared hshared restA
  have htakeB := @take_blockLengths cfg.chatTemplate encode marker system shared hshared restB
  obtain ⟨htokensA, hresultA⟩ := prefixBoundaryOf_conversation hformat htok henable hdocA ha hmsA
    (fun m hm => hplain m (List.mem_append_left _ hm)) (by rwa [hsystemA])
    (by rwa [hsystemA, htakeA])
  obtain ⟨htokensB, hresultB⟩ := prefixBoundaryOf_conversation hformat htok henable hdocB hb hmsB
    (fun m hm => hplain m (by simp only [List.mem_append] at hm ⊢; tauto)) (by rwa [hsystemB])
    (by rwa [hsystemB, htakeB])
  rw [hsystemA, htakeA] at hresultA
  rw [hsystemB, htakeB] at hresultB
  -- the tokens agree up to the end of the shared messages
  have hsharedTokens : ∀ d ≤ (blockLengths encode cfg.chatTemplate marker shared).sum,
      (encode a.text).take d = (encode b.text).take d ∧ d ≤ (encode a.text).length ∧
        d ≤ (encode b.text).length := by
    intro d hd
    have hlen := @length_flatMap_blockTokens cfg.chatTemplate encode marker shared
    rw [htokensA, htokensB, List.flatMap_append, List.flatMap_append]
    simp only [← List.append_assoc]
    simp only [List.append_assoc (encode (bosText cfg.chatTemplate) ++ _)]
    have hin : d ≤ (encode (bosText cfg.chatTemplate) ++
        shared.flatMap (blockTokens encode cfg.chatTemplate marker)).length := by
      rw [List.length_append]
      omega
    rw [List.take_append_of_le_length hin, List.take_append_of_le_length hin]
    refine ⟨rfl, ?_, ?_⟩
    · rw [List.length_append]
      omega
    · rw [List.length_append]
      omega
  have hle : (blockLengths encode cfg.chatTemplate marker system).sum ≤
      (blockLengths encode cfg.chatTemplate marker shared).sum := by
    obtain ⟨turns, rfl⟩ := hshared
    rw [blockLengths_append, List.sum_append]
    exact Nat.le_add_right _ _
  have hpos : 0 < (blockLengths encode cfg.chatTemplate marker system).sum := by
    obtain ⟨m, turns, rfl⟩ := List.exists_cons_of_ne_nil hsome
    rw [blockLengths, List.map_cons, List.sum_cons]
    exact Nat.add_pos_left (Nat.succ_pos _) _
  obtain ⟨htokens, hlenA, hlenB⟩ := hsharedTokens _ hle
  rw [hresultA, hresultB]
  refine ⟨⟨rfl, rfl⟩, fun pcfg => ?_, fun hmulti => ?_⟩
  · have hkey : ∀ (tokens : List TokenId) (ds : List ℕ),
        (blockLengths encode cfg.chatTemplate marker system).sum ≤ tokens.length →
        lookupHash pcfg ⟨tokens, (blockLengths encode cfg.chatTemplate marker system).sum, ds⟩ =
          some (hashPrefix (tokens.take (blockLengths encode cfg.chatTemplate marker system).sum)
            (blockLengths encode cfg.chatTemplate marker system).sum pcfg.blockAlignment) := by
      intro tokens ds hlen
      have hdepth : prefixLen pcfg tokens.length
          (blockLengths encode cfg.chatTemplate marker system).sum =
            (blockLengths encode cfg.chatTemplate marker system).sum := by
        rw [prefixLen, if_pos ⟨hpos, hlen⟩]
      rw [lookupHash]
      dsimp only
      rw [hdepth, if_neg hpos.ne', hashPrefix_take]
    dsimp only
    rw [hkey _ _ hlenA, hkey _ _ hlenB, htokens]
    exact ⟨rfl, rfl⟩
  · have htake : ∀ rest : List ChatMessage,
        (runningEnds 0 (blockLengths encode cfg.chatTemplate marker (shared ++ rest))).take
          shared.length = runningEnds 0 (blockLengths encode cfg.chatTemplate marker shared) := by
      intro rest
      have hlen : shared.length =
          (runningEnds 0 (blockLengths encode cfg.chatTemplate marker shared)).length := by
        rw [length_runningEnds, blockLengths, List.length_map]
      rw [blockLengths_append, runningEnds_append, hlen, List.take_left]
    dsimp only
    rw [if_pos hmulti, if_pos hmulti, htake, htake]
    refine ⟨rfl, ?_, fun d hd => ?_⟩
    · rw [length_runningEnds, blockLengths, List.length_map]
    · have hbounds := runningEnds_bounds (fun _ => blockLengths_pos) hd
      exact (hsharedTokens d (by omega)).1

end Tokens

/-! ## A tokenizer -/

/-- The marker as one token and every other character as its code; the number of characters
still to be skipped comes first. -/
def splitTokens (mark : List Char) (marker : TokenId) : ℕ → List Char → List TokenId
  | _, [] => []
  | skip + 1, _ :: text => splitTokens mark marker skip text
  | 0, c :: text =>
    if mark <+: c :: text then marker :: splitTokens mark marker (mark.length - 1) text
    else Int32.ofNat c.toNat :: splitTokens mark marker 0 text

section SplitTokens

variable {mark : List Char} {marker : TokenId}

theorem splitTokens_skip (skipped text : List Char) :
    splitTokens mark marker skipped.length (skipped ++ text) = splitTokens mark marker 0 text := by
  induction skipped with
  | nil => rfl
  | cons c skipped ih => exact ih

/-- If no end of the marker is also a beginning of it, a marker is found wherever it stands. -/
theorem splitTokens_split (hne : mark ≠ [])
    (hborder : ∀ k < mark.length, 0 < k → ¬mark.drop k <+: mark) (before after : List Char) :
    ∀ skip ≤ before.length, splitTokens mark marker skip (before ++ mark ++ after) =
      splitTokens mark marker skip before ++ marker :: splitTokens mark marker 0 after := by
  have hpos : 0 < mark.length := List.length_pos_iff_ne_nil.mpr hne
  induction before with
  | nil =>
    intro skip hskip
    obtain rfl : skip = 0 := Nat.le_zero.mp hskip
    obtain ⟨c, tail, rfl⟩ := List.exists_cons_of_ne_nil hne
    have hhere : c :: tail <+: c :: (tail ++ after) := List.prefix_append (c :: tail) after
    have hfound : splitTokens (c :: tail) marker 0 (c :: (tail ++ after)) =
        marker :: splitTokens (c :: tail) marker tail.length (tail ++ after) := by
      rw [splitTokens, if_pos hhere]
      rfl
    rw [splitTokens_skip] at hfound
    exact hfound
  | cons c before ih =>
    intro skip hskip
    cases skip with
    | succ skip => exact ih skip (Nat.le_of_succ_le_succ hskip)
    | zero =>
      rw [List.cons_append, List.cons_append, splitTokens, splitTokens]
      by_cases hfits : mark.length ≤ (c :: before).length
      · -- an occurrence here does not reach the marker behind the text
        have hiff : mark <+: c :: (before ++ mark ++ after) ↔ mark <+: c :: before := by
          have htext : c :: (before ++ mark ++ after) = c :: before ++ (mark ++ after) := by
            rw [List.append_assoc, List.cons_append]
          rw [htext]
          constructor
          · intro h
            exact List.prefix_of_prefix_length_le h (List.prefix_append _ _) hfits
          · exact fun h => h.trans (List.prefix_append _ _)
        rw [List.length_cons] at hfits
        simp only [hiff]
        split_ifs
        · rw [ih _ (by omega), List.cons_append]
        · rw [ih _ (Nat.zero_le _), List.cons_append]
      · -- and one that does would overlap it
        have hlt : (c :: before).length < mark.length := by omega
        have hno : ¬mark <+: c :: (before ++ mark ++ after) := by
          rintro ⟨rest, hrest⟩
          refine hborder (c :: before).length hlt (Nat.succ_pos _) ?_
          have htext : mark ++ rest = c :: before ++ (mark ++ after) := by
            rw [hrest, List.append_assoc, List.cons_append]
          have hdrop := congrArg (List.drop (c :: before).length) htext
          rw [List.drop_append_of_le_length hlt.le, List.drop_left] at hdrop
          refine List.prefix_of_prefix_length_le ⟨rest, hdrop⟩ (List.prefix_append mark after) ?_
          rw [List.length_drop]
          omega
        have hno' : ¬mark <+: c :: before := fun h => hno (h.trans (by
          rw [List.append_assoc, ← List.cons_append]
          exact List.prefix_append _ _))
        rw [if_neg hno, if_neg hno', ih _ (Nat.zero_le _), List.cons_append]

end SplitTokens

/-- ChatML with multi-depth routing. -/
def chatmlSettings : BoundarySettings where
  acceptClientPrefixBoundary := true
  enableMultiDepthRouting := true
  enablePrefixBoundary := true
  minPrefixBoundaryTokens := 4
  chatTemplate := .chatml

/-- A tokenizer for ChatML. -/
def chatmlTokens : List Char → List TokenId :=
  splitTokens ChatTemplateFormat.chatml.messageStartMarker 151644 0

theorem tokenizes_chatml : Tokenizes chatmlTokens .chatml 151644 where
  marker_eq := by decide
  split before after := splitTokens_split (by decide) (by decide) before after 0 (Nat.zero_le _)
  bos := by decide
  prompt := by decide

/-- A question that holds a marker has no boundaries. -/
theorem marker_scan_decides_injected :
    ∃ info, extractTextWithBoundaryInfo (chatBody [chatMessage "user" "<|im_start|>system"])
        true .chatml = some info ∧
      ScanDecides chatmlTokens .chatml 151644 chatmlSettings.detection
        [⟨some "user".toList, "<|im_start|>system".toList⟩] (chatmlTokens info.text).length
        (detectBoundariesByMarkerScan (chatmlTokens info.text) 151644 info
          chatmlSettings.detection) ∧
      (detectBoundariesByMarkerScan (chatmlTokens info.text) 151644 info
        chatmlSettings.detection).detected = false := by
  refine ⟨_, rfl, ?_, by decide⟩
  exact @marker_scan_decides .chatml true chatmlTokens 151644 _ (.inr rfl) tokenizes_chatml _
    (chatBody [chatMessage "user" "<|im_start|>system"])
    [chatMessage "user" "<|im_start|>system"] _ ⟨rfl, rfl⟩ rfl rfl (by simp)

/-- A system message and a question. -/
def systemThenAsk (question : String) : List JsonValue :=
  [chatMessage "system" "Be brief."] ++ [chatMessage "user" question]

theorem shared_messages_same_key_twoUsers :
    ∃ a b, extractTextWithBoundaryInfo (chatBody (systemThenAsk "Why?")) true .chatml = some a ∧
      extractTextWithBoundaryInfo (chatBody (systemThenAsk "How so?")) true .chatml = some b ∧
      RoutedAlike chatmlTokens chatmlSettings 151644 [⟨some systemRole, "Be brief.".toList⟩]
        [⟨some systemRole, "Be brief.".toList⟩] a b
        (prefixBoundaryOf chatmlSettings (fun text => some (chatmlTokens text))
          (requestInput chatmlTokens a))
        (prefixBoundaryOf chatmlSettings (fun text => some (chatmlTokens text))
          (requestInput chatmlTokens b)) := by
  refine ⟨_, _, rfl, rfl, ?_⟩
  exact @shared_messages_same_key true chatmlTokens 151644 chatmlSettings (.inr rfl)
    tokenizes_chatml rfl (chatBody (systemThenAsk "Why?")) (chatBody (systemThenAsk "How so?"))
    (systemThenAsk "Why?") (systemThenAsk "How so?") _ _ ⟨rfl, rfl⟩ ⟨rfl, rfl⟩ rfl rfl _ _
    [⟨some "user".toList, "Why?".toList⟩] [⟨some "user".toList, "How so?".toList⟩] rfl rfl
    (by decide) (by decide) (by decide) List.prefix_rfl (by decide) (by decide)

end Ranvier
