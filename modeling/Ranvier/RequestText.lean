import Ranvier.ChatTemplate

/-!
# The text of a request

The router reads from the body of a request the text that it tokenizes, and the part of it that
all requests of an application share: the text of the system messages, and the places where
the messages end.

* `extractText`, `extractSystemMessages` — each reads the body for itself;
* `extractTextWithBoundaryInfo` — reads everything in one pass;
* `oneByOne_iff` — when the one pass gives what the others give.

The parser is taken as given: a body is the value that it is parsed to. Member names may occur
twice in an object; then the first one counts.
-/

namespace Ranvier

/-- A parsed value. Of the numbers only the integers are told apart. -/
inductive JsonValue : Type where
  | null
  | bool (b : Bool)
  | int (n : ℤ)
  | double
  | string (s : List Char)
  | array (elements : List JsonValue)
  | object (members : List (List Char × JsonValue))

namespace JsonValue

/-- `HasMember(name)`, and the member if there is one. -/
def member (v : JsonValue) (name : String) : Option JsonValue :=
  match v with
  | .object members => members.lookup name.toList
  | _ => none

def asString : JsonValue → Option (List Char)
  | .string s => some s
  | _ => none

def asArray : JsonValue → Option (List JsonValue)
  | .array elements => some elements
  | _ => none

/-- The member, if there is one and it is a string. -/
def stringMember (v : JsonValue) (name : String) : Option (List Char) :=
  (v.member name).bind asString

/-- The member, if there is one and it is an array. -/
def arrayMember (v : JsonValue) (name : String) : Option (List JsonValue) :=
  (v.member name).bind asArray

/-- What `extract_max_tokens` takes a number for: `IsUint64`, else `IsInt` and positive. -/
def asTokenLimit : JsonValue → Option ℕ
  | .int n =>
    if 0 ≤ n ∧ n < 0x10000000000000000 then some n.toNat
    else if -0x80000000 ≤ n ∧ n < 0x80000000 ∧ 0 < n then some n.toNat
    else none
  | _ => none

end JsonValue

namespace RequestRewriter

/-- `role="system"`. -/
def systemRole : List Char := "system".toList

/-- Appends to what is there, on a new line. -/
def appendLine (combined content : List Char) : List Char :=
  (if combined.isEmpty then combined else combined ++ ['\n']) ++ content

/-! ## One thing at a time -/

/-- A turn of the loop of `extract_text`. -/
def joinContent (combined : List Char) (msg : JsonValue) : List Char :=
  match msg.stringMember "content" with
  | some content => appendLine combined content
  | none => combined

/-- `extract_text`. -/
def extractText (doc : JsonValue) : Option (List Char) :=
  match doc.stringMember "prompt" with
  | some prompt => some prompt
  | none =>
    match doc.arrayMember "messages" with
    | none => none
    | some messages =>
      let combined := messages.foldl joinContent []
      if combined.isEmpty then none else some combined

/-- A turn of the loop of `extract_system_messages`. -/
def joinSystem (combined : List Char) (msg : JsonValue) : List Char :=
  if msg.stringMember "role" = some systemRole then joinContent combined msg else combined

/-- `extract_system_messages`. -/
def extractSystemMessages (doc : JsonValue) : Option (List Char) :=
  match doc.arrayMember "messages" with
  | none => none
  | some messages =>
    let combined := messages.foldl joinSystem []
    if combined.isEmpty then none else some combined

/-! ## In one pass -/

/-- A message that takes part: its content is a string. Its role may be missing. -/
structure ChatMessage : Type where
  role : Option (List Char)
  content : List Char
  deriving DecidableEq, Repr

/-- The messages that are not skipped. -/
def readMessage (msg : JsonValue) : Option ChatMessage :=
  match msg.stringMember "content" with
  | some content => some ⟨msg.stringMember "role", content⟩
  | none => none

/-- `TextWithBoundaryInfo`. -/
structure TextWithBoundaryInfo : Type where
  text : List Char
  fromPrompt : Bool := false
  hasSystemPrefix : Bool := false
  systemPrefixEnd : ℕ := 0
  systemText : List Char := []
  hasSystemMessages : Bool := false
  systemMessageCount : ℕ := 0
  totalMessageCount : ℕ := 0
  messageCharEnds : List ℕ := []
  formattedMessages : List (List Char × Bool) := []
  maxTokens : ℕ := 0
  model : List Char := []
  deriving DecidableEq, Repr

/-- The variables of the loop over the messages. -/
structure BoundaryScan : Type where
  combined : List Char := []
  systemText : List Char := []
  inSystemPrefix : Bool := true
  foundAnySystem : Bool := false
  systemContiguous : Bool := true
  systemPrefixEndCandidate : ℕ := 0
  isFirstMessage : Bool := true
  systemMessageCount : ℕ := 0
  totalMessageCount : ℕ := 0
  messageCharEnds : List ℕ := []
  formattedMessages : List (List Char × Bool) := []
  deriving DecidableEq, Repr

namespace BoundaryScan

variable (format : ChatTemplateFormat) (needFormattedMessages : Bool)

/-- The text after the message. -/
def render (s : BoundaryScan) (m : ChatMessage) : List Char :=
  format.formatMessage s.combined (m.role.getD "user".toList) m.content s.isFirstMessage

/-- A turn of the loop, for a message that takes part. -/
def add (s : BoundaryScan) (m : ChatMessage) : BoundaryScan :=
  let isSystem : Bool := m.role = some systemRole
  { combined := s.render format m
    systemText := if isSystem then appendLine s.systemText m.content else s.systemText
    inSystemPrefix := isSystem && s.inSystemPrefix
    foundAnySystem := isSystem || s.foundAnySystem
    systemContiguous := if isSystem && !s.inSystemPrefix then false else s.systemContiguous
    systemPrefixEndCandidate :=
      -- the place before the first message that is not the system's
      if !isSystem && s.inSystemPrefix && s.foundAnySystem then s.combined.length
      else s.systemPrefixEndCandidate
    isFirstMessage := false
    systemMessageCount :=
      if isSystem && s.inSystemPrefix then s.systemMessageCount + 1 else s.systemMessageCount
    totalMessageCount := s.totalMessageCount + 1
    messageCharEnds := s.messageCharEnds ++ [(s.render format m).length]
    formattedMessages :=
      match m.role with
      | some role =>
        if needFormattedMessages then
          s.formattedMessages ++ [(format.formatSingleMessage role m.content, isSystem)]
        else s.formattedMessages
      | none => s.formattedMessages }

/-- A turn of the loop. -/
def scan (s : BoundaryScan) (msg : JsonValue) : BoundaryScan :=
  match readMessage msg with
  | some m => s.add format needFormattedMessages m
  | none => s

/-- Before the loop: a format may have a system message of its own, for a conversation that
does not begin with one. -/
def start (messages : List JsonValue) : BoundaryScan :=
  if format.defaultSystemPrompt.isEmpty then {}
  else if (messages.head?.bind fun m => m.stringMember "role") = some systemRole then {}
  else
    { combined := format.formatMessage [] systemRole format.defaultSystemPrompt true ++ ['\n']
      isFirstMessage := false }

end BoundaryScan

/-- `extract_max_tokens`. -/
def extractMaxTokens (doc : JsonValue) : ℕ :=
  match (doc.member "max_tokens").bind JsonValue.asTokenLimit with
  | some n => n
  | none => ((doc.member "max_completion_tokens").bind JsonValue.asTokenLimit).getD 0

/-- `extract_model`. -/
def extractModel (doc : JsonValue) : List Char := (doc.stringMember "model").getD []

/-- What the loop has found, with the generation prompt. -/
def scanMessages (format : ChatTemplateFormat) (needFormattedMessages : Bool)
    (messages : List JsonValue) : BoundaryScan :=
  messages.foldl (BoundaryScan.scan format needFormattedMessages)
    (BoundaryScan.start format messages)

/-- `extract_text_with_boundary_info`. -/
def extractTextWithBoundaryInfo (doc : JsonValue) (needFormattedMessages : Bool)
    (format : ChatTemplateFormat) : Option TextWithBoundaryInfo :=
  match doc.stringMember "prompt" with
  | some prompt =>
    some
      { text := prompt
        fromPrompt := true
        maxTokens := extractMaxTokens doc
        model := extractModel doc }
  | none =>
    match doc.arrayMember "messages" with
    | none => none
    | some messages =>
      if messages.isEmpty then none
      else
        let s := scanMessages format needFormattedMessages messages
        let combined := format.appendGenerationPrompt s.combined
        let hasPrefix := s.foundAnySystem && s.systemContiguous && 0 < s.systemPrefixEndCandidate
        if combined.isEmpty then none
        else
          some
            { text := combined
              hasSystemPrefix := hasPrefix
              systemPrefixEnd := if hasPrefix then s.systemPrefixEndCandidate else 0
              systemText := s.systemText
              hasSystemMessages := s.foundAnySystem
              systemMessageCount := s.systemMessageCount
              totalMessageCount := s.totalMessageCount
              messageCharEnds := s.messageCharEnds
              formattedMessages := s.formattedMessages
              maxTokens := extractMaxTokens doc
              model := extractModel doc }

/-! ## The plain format -/

/-- The loops agree so far. -/
structure Agree (s : BoundaryScan) (text system : List Char) : Prop where
  combined : s.combined = text
  systemText : s.systemText = system
  first : s.isFirstMessage = true → text = []

theorem formatNone_eq_appendLine {out content : List Char} {isFirst : Bool}
    (h : isFirst = true → out = []) :
    ChatTemplate.formatNone out content isFirst = appendLine out content := by
  rw [ChatTemplate.formatNone, appendLine]
  cases isFirst with
  | true => rw [h rfl]; rfl
  | false => cases out <;> rfl

theorem Agree.scan {s : BoundaryScan} {text system : List Char}
    (h : Agree s text system) (needFormattedMessages : Bool) (msg : JsonValue) :
    Agree (s.scan .none needFormattedMessages msg) (joinContent text msg)
      (joinSystem system msg) := by
  rw [BoundaryScan.scan, readMessage, joinSystem, joinContent, joinContent]
  cases hcontent : msg.stringMember "content" with
  | none => simpa using h
  | some content =>
    refine ⟨?_, ?_, nofun⟩
    · rw [← h.combined]
      exact formatNone_eq_appendLine fun hfirst => h.combined.trans (h.first hfirst)
    · rw [← h.systemText]
      simp only [BoundaryScan.add, decide_eq_true_eq]

theorem Agree.foldl {s : BoundaryScan} {text system : List Char}
    (h : Agree s text system) (needFormattedMessages : Bool) (messages : List JsonValue) :
    Agree (messages.foldl (BoundaryScan.scan .none needFormattedMessages) s)
      (messages.foldl joinContent text) (messages.foldl joinSystem system) := by
  induction messages generalizing s text system with
  | nil => exact h
  | cons msg messages ih => exact ih (h.scan needFormattedMessages msg)

theorem appendLine_eq_nil_iff {combined content : List Char} :
    appendLine combined content = [] ↔ combined = [] ∧ content = [] := by
  rw [appendLine]
  cases combined <;> simp

/-- A system message whose content is a string that is not empty. -/
def HasSystemText (doc : JsonValue) : Prop :=
  ∃ messages, doc.arrayMember "messages" = some messages ∧
    ∃ msg ∈ messages, msg.stringMember "role" = some systemRole ∧
      ∃ content, msg.stringMember "content" = some content ∧ content ≠ []

theorem joinSystem_eq_nil_iff {combined : List Char} {msg : JsonValue} :
    joinSystem combined msg = [] ↔ combined = [] ∧
      ∀ content, msg.stringMember "role" = some systemRole →
        msg.stringMember "content" = some content → content = [] := by
  rw [joinSystem, joinContent]
  split
  · next hrole =>
    cases hcontent : msg.stringMember "content" with
    | none => simp
    | some content => simp [appendLine_eq_nil_iff, hrole]
  · next hrole => simp [hrole]

theorem foldl_joinSystem_eq_nil_iff {combined : List Char} {messages : List JsonValue} :
    messages.foldl joinSystem combined = [] ↔ combined = [] ∧
      ∀ msg ∈ messages, ∀ content, msg.stringMember "role" = some systemRole →
        msg.stringMember "content" = some content → content = [] := by
  induction messages generalizing combined with
  | nil => simp
  | cons msg messages ih =>
    rw [List.foldl_cons, ih, joinSystem_eq_nil_iff, List.forall_mem_cons, and_assoc]

/-- The system's text is part of the text. -/
theorem foldl_joinSystem_eq_nil {messages : List JsonValue} {text system : List Char}
    (h : text = [] → system = []) (htext : messages.foldl joinContent text = []) :
    messages.foldl joinSystem system = [] := by
  induction messages generalizing text system with
  | nil => exact h htext
  | cons msg messages ih =>
    refine ih (fun hjoined => ?_) htext
    rw [joinContent] at hjoined
    rw [joinSystem, joinContent]
    cases hcontent : msg.stringMember "content" with
    | none =>
      rw [hcontent] at hjoined
      simp [h hjoined]
    | some content =>
      rw [hcontent] at hjoined
      obtain ⟨hnil, rfl⟩ := appendLine_eq_nil_iff.mp hjoined
      simp [h hnil, appendLine]

theorem getD_ite_isEmpty (l : List Char) :
    (if l.isEmpty then none else some l).getD [] = l := by
  cases l <;> rfl

theorem extractSystemMessages_eq_nil_iff (doc : JsonValue) :
    (extractSystemMessages doc).getD [] = [] ↔ ¬ HasSystemText doc := by
  rw [extractSystemMessages, HasSystemText]
  cases hmessages : doc.arrayMember "messages" with
  | none => simp
  | some messages =>
    dsimp only
    rw [getD_ite_isEmpty, foldl_joinSystem_eq_nil_iff]
    constructor
    · rintro ⟨-, hall⟩ ⟨_, heq, msg, hmsg, hrole, content, hcontent, hne⟩
      obtain rfl := Option.some.inj heq
      exact hne (hall msg hmsg content hrole hcontent)
    · intro hnone
      refine ⟨rfl, fun msg hmsg content hrole hcontent => ?_⟩
      by_contra hne
      exact hnone ⟨messages, rfl, msg, hmsg, hrole, content, hcontent, hne⟩

theorem scanMessages_none (needFormattedMessages : Bool) (messages : List JsonValue) :
    Agree (scanMessages .none needFormattedMessages messages) (messages.foldl joinContent [])
      (messages.foldl joinSystem []) := by
  have hstart : Agree (BoundaryScan.start .none messages) [] [] := ⟨rfl, rfl, fun _ => rfl⟩
  exact hstart.foldl needFormattedMessages messages

/-- **The one pass and the single extractors.** In the plain format the one pass always gives
the text that `extractText` gives. It gives the system text that `extractSystemMessages` gives,
unless the body has both a prompt and a system message. -/
theorem oneByOne_iff (members : List (List Char × JsonValue)) (needFormattedMessages : Bool) :
    (extractTextWithBoundaryInfo (.object members) needFormattedMessages .none).map (·.text) =
        extractText (.object members) ∧
      (((extractTextWithBoundaryInfo (.object members) needFormattedMessages .none).map
            (·.systemText)).getD [] = (extractSystemMessages (.object members)).getD [] ↔
        ¬ (((JsonValue.object members).stringMember "prompt").isSome ∧
          HasSystemText (.object members))) := by
  generalize JsonValue.object members = doc
  rw [extractTextWithBoundaryInfo, extractText]
  cases hprompt : doc.stringMember "prompt" with
  | some prompt =>
    refine ⟨rfl, ?_⟩
    rw [Option.isSome_some, eq_self_iff_true, true_and, ← extractSystemMessages_eq_nil_iff]
    exact eq_comm
  | none =>
    rw [extractSystemMessages]
    cases hmessages : doc.arrayMember "messages" with
    | none => simp
    | some messages =>
      have hagree := scanMessages_none needFormattedMessages messages
      dsimp only [ChatTemplateFormat.appendGenerationPrompt]
      rw [hagree.combined, hagree.systemText, getD_ite_isEmpty]
      cases messages with
      | nil => simp
      | cons msg messages =>
        -- without a text there is no system text either
        generalize hcombined : (msg :: messages).foldl joinContent [] = combined
        generalize hsystem : (msg :: messages).foldl joinSystem [] = system
        cases combined with
        | nil =>
          obtain rfl : system = [] :=
            hsystem.symm.trans (foldl_joinSystem_eq_nil (fun _ => rfl) hcombined)
          simp
        | cons c combined => simp

/-- A body with a prompt and a system message. -/
def promptAndSystem : List (List Char × JsonValue) :=
  [("prompt".toList, .string "hi".toList),
    ("messages".toList, .array [.object
      [("role".toList, .string systemRole), ("content".toList, .string "Be brief.".toList)]])]

/-- The one pass knows no system text, and the extractor has one. -/
theorem promptAndSystem_differs :
    (extractTextWithBoundaryInfo (.object promptAndSystem) false .none).map (·.systemText) =
        some [] ∧
      extractSystemMessages (.object promptAndSystem) = some "Be brief.".toList := by
  decide

end RequestRewriter

end Ranvier
