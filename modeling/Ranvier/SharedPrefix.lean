import Ranvier.RequestText

/-!
# What conversations share

Requests that begin with the same messages are to be routed alike, so the texts they are
rendered to must begin alike, up to the places that are recorded for these messages.

* `Bounded` — the recorded places are in order and lie within the text;
* `prefix_foldl_add` — later messages leave the text alone, unless the next one is blank;
* `shared_messages_agree` — two conversations agree as far as they share messages.
-/

namespace Ranvier

namespace RequestRewriter

open ChatTemplate

namespace BoundaryScan

variable {format : ChatTemplateFormat} {needFormattedMessages : Bool} {s : BoundaryScan}

/-- Only the messages that take part matter to the loop. -/
theorem foldl_scan (s : BoundaryScan) (messages : List JsonValue) :
    messages.foldl (scan format needFormattedMessages) s =
      (messages.filterMap readMessage).foldl (add format needFormattedMessages) s := by
  induction messages generalizing s with
  | nil => rfl
  | cons msg messages ih =>
    rw [List.foldl_cons, ih, scan]
    cases hread : readMessage msg with
    | none => rw [List.filterMap_cons_none hread]
    | some m => rw [List.filterMap_cons_some hread, List.foldl_cons]

/-! ## The recorded places -/

/-- The places are in order and within the text. -/
structure Bounded (s : BoundaryScan) : Prop where
  sorted : s.messageCharEnds.Pairwise (· ≤ ·)
  ends : ∀ e ∈ s.messageCharEnds, e ≤ s.combined.length
  candidate : s.systemPrefixEndCandidate ≤ s.combined.length

theorem bounded_start (messages : List JsonValue) : Bounded (start format messages) := by
  rw [start]
  split
  · exact ⟨List.Pairwise.nil, nofun, Nat.zero_le _⟩
  · split
    · exact ⟨List.Pairwise.nil, nofun, Nat.zero_le _⟩
    · exact ⟨List.Pairwise.nil, nofun, Nat.zero_le _⟩

theorem Bounded.add (h : Bounded s) (m : ChatMessage) :
    Bounded (s.add format needFormattedMessages m) := by
  have hlength : s.combined.length ≤ (s.render format m).length :=
    ChatTemplateFormat.length_le_formatMessage
  refine ⟨?_, ?_, ?_⟩
  · refine List.pairwise_append.mpr ⟨h.sorted, List.pairwise_singleton _ _, ?_⟩
    intro e he e' he'
    obtain rfl := List.mem_singleton.mp he'
    exact (h.ends e he).trans hlength
  · intro e he
    rcases List.mem_append.mp he with he | he
    · exact (h.ends e he).trans hlength
    · obtain rfl := List.mem_singleton.mp he
      exact le_rfl
  · simp only [BoundaryScan.add]
    split
    · exact hlength
    · exact h.candidate.trans hlength

theorem Bounded.foldl (h : Bounded s) (ms : List ChatMessage) :
    Bounded (ms.foldl (BoundaryScan.add format needFormattedMessages) s) := by
  induction ms generalizing s with
  | nil => exact h
  | cons m ms ih => exact ih (h.add m)

/-- Each message adds one place at the end. -/
theorem prefix_messageCharEnds (s : BoundaryScan) (ms : List ChatMessage) :
    s.messageCharEnds <+: (ms.foldl (add format needFormattedMessages) s).messageCharEnds := by
  induction ms generalizing s with
  | nil => exact List.prefix_rfl
  | cons m ms ih =>
    rw [List.foldl_cons]
    exact (List.prefix_append _ _).trans (ih (s.add format needFormattedMessages m))

theorem length_messageCharEnds (s : BoundaryScan) (ms : List ChatMessage) :
    (ms.foldl (add format needFormattedMessages) s).messageCharEnds.length =
      s.messageCharEnds.length + ms.length := by
  induction ms generalizing s with
  | nil => rfl
  | cons m ms ih =>
    have hone : (s.add format needFormattedMessages m).messageCharEnds.length =
        s.messageCharEnds.length + 1 := List.length_append
    rw [List.foldl_cons, ih, hone, List.length_cons]
    omega

/-! ## The text -/

/-- The text has begun, and no block is open at its end. -/
def Settled (text : List Char) : Prop := text ≠ [] ∧ ¬ llama2SystemClose <:+ text

theorem settled_render {m : ChatMessage} (hne : s.combined ≠ [])
    (h : s.combined <+: s.render .llama2 m) : Settled (s.render .llama2 m) := by
  refine ⟨fun hnil => ?_, not_suffix_formatLlama2 fun hrole => hne hrole.2⟩
  rw [hnil, List.prefix_nil] at h
  exact hne h

/-- A settled text stays. -/
theorem prefix_foldl_add_of_settled (h : format = .llama2 → Settled s.combined)
    (ms : List ChatMessage) :
    s.combined <+: (ms.foldl (add format needFormattedMessages) s).combined := by
  induction ms generalizing s with
  | nil => exact List.prefix_rfl
  | cons m ms ih =>
    have hstep : s.combined <+: s.render format m := by
      by_cases hformat : format = .llama2
      · rcases formatLlama2_cases s.combined (m.role.getD "user".toList) m.content
          with happend | ⟨-, hclose, -⟩
        · subst hformat
          exact happend
        · exact absurd hclose (h hformat).2
      · exact ChatTemplateFormat.prefix_formatMessage_of_ne hformat
    have hsettled : format = .llama2 → Settled (s.add format needFormattedMessages m).combined := by
      rintro rfl
      exact settled_render (h rfl).1 hstep
    exact hstep.trans (ih hsettled)

/-- Later messages leave the text alone. Under `llama2` the next one may not be blank. -/
theorem prefix_foldl_add (ms : List ChatMessage) (hbegun : format = .llama2 → s.combined ≠ [])
    (hblank : format = .llama2 → ∀ m, ms.head? = some m → m.content.all isWs = false) :
    s.combined <+: (ms.foldl (add format needFormattedMessages) s).combined := by
  cases ms with
  | nil => exact List.prefix_rfl
  | cons m ms =>
    have hstep : s.combined <+: s.render format m :=
      ChatTemplateFormat.prefix_formatMessage fun hformat => hblank hformat m rfl
    have hsettled : format = .llama2 → Settled (s.add format needFormattedMessages m).combined := by
      rintro rfl
      exact settled_render (hbegun rfl) hstep
    exact hstep.trans (prefix_foldl_add_of_settled hsettled ms)

/-- A message that was rendered has left something. -/
theorem combined_ne_nil {ms : List ChatMessage} (hne : ms ≠ []) (hformat : format = .llama2) :
    (ms.foldl (add format needFormattedMessages) s).combined ≠ [] := by
  obtain rfl | ⟨before, m, rfl⟩ := List.eq_nil_or_concat' ms
  · exact absurd rfl hne
  · subst hformat
    rw [List.foldl_concat]
    exact formatLlama2_ne_nil

/-- The flag decides about the formatted messages, and about nothing else. -/
structure SameText (s t : BoundaryScan) : Prop where
  combined : s.combined = t.combined
  first : s.isFirstMessage = t.isFirstMessage
  ends : s.messageCharEnds = t.messageCharEnds

theorem SameText.foldl {t : BoundaryScan} (h : SameText s t) (needs needt : Bool)
    (ms : List ChatMessage) :
    SameText (ms.foldl (add format needs) s) (ms.foldl (add format needt) t) := by
  induction ms generalizing s t with
  | nil => exact h
  | cons m ms ih =>
    have hrender : s.render format m = t.render format m := by
      rw [render, render, h.combined, h.first]
    refine ih ⟨hrender, rfl, ?_⟩
    change s.messageCharEnds ++ _ = t.messageCharEnds ++ _
    rw [h.ends, hrender]

end BoundaryScan

/-! ## Two conversations -/

open BoundaryScan

/-- The body has these messages, and no prompt. -/
def IsConversation (doc : JsonValue) (messages : List JsonValue) : Prop :=
  doc.stringMember "prompt" = none ∧ doc.arrayMember "messages" = some messages

/-- The next message that takes part is not blank. -/
def NextNotBlank (rest : List JsonValue) : Prop :=
  ∀ m, (rest.filterMap readMessage).head? = some m → m.content.all isWs = false

variable {format : ChatTemplateFormat} {need : Bool}

/-- The loop over a conversation in two parts. -/
theorem scanMessages_append {shared : List JsonValue} (hshared : shared ≠ [])
    (rest : List JsonValue) :
    scanMessages format need (shared ++ rest) =
      (rest.filterMap readMessage).foldl (add format need) (scanMessages format need shared) := by
  have hstart : start format (shared ++ rest) = start format shared := by
    rw [start, start, List.head?_append_of_ne_nil _ hshared]
  rw [scanMessages, scanMessages, List.foldl_append, hstart]
  exact foldl_scan _ rest

theorem bounded_scanMessages (messages : List JsonValue) :
    Bounded (scanMessages format need messages) := by
  rw [scanMessages, foldl_scan]
  exact (bounded_start messages).foldl _

theorem extract_spec {doc : JsonValue} {messages : List JsonValue} {info : TextWithBoundaryInfo}
    (hdoc : IsConversation doc messages)
    (h : extractTextWithBoundaryInfo doc need format = some info) :
    info.text = format.appendGenerationPrompt (scanMessages format need messages).combined ∧
      info.messageCharEnds = (scanMessages format need messages).messageCharEnds ∧
      info.systemPrefixEnd ≤ (scanMessages format need messages).systemPrefixEndCandidate := by
  rw [extractTextWithBoundaryInfo, hdoc.1, hdoc.2] at h
  dsimp only at h
  split at h
  · cases h
  · split at h
    · cases h
    · obtain rfl := Option.some.inj h
      refine ⟨rfl, rfl, ?_⟩
      dsimp only
      split
      · exact le_rfl
      · exact Nat.zero_le _

/-- The number of messages that take part. -/
def messageCount (messages : List JsonValue) : ℕ := (messages.filterMap readMessage).length

theorem length_scanMessages (messages : List JsonValue) :
    (scanMessages format need messages).messageCharEnds.length = messageCount messages := by
  have hstart : (start format messages).messageCharEnds = [] := by
    rw [start]
    split_ifs <;> rfl
  rw [scanMessages, foldl_scan, length_messageCharEnds, hstart, List.length_nil, Nat.zero_add,
    messageCount]

/-- The first places are those of the shared messages. -/
theorem take_messageCharEnds {shared : List JsonValue} (hshared : shared ≠ [])
    (rest : List JsonValue) :
    (scanMessages format need (shared ++ rest)).messageCharEnds.take (messageCount shared) =
      (scanMessages format need shared).messageCharEnds := by
  rw [scanMessages_append hshared, ← @length_scanMessages format need shared]
  exact (List.prefix_iff_eq_take.mp (prefix_messageCharEnds _ _)).symm

/-- The text of a conversation begins with what its first messages are rendered to. -/
theorem prefix_text {doc : JsonValue} {shared rest : List JsonValue} {info : TextWithBoundaryInfo}
    (hdoc : IsConversation doc (shared ++ rest))
    (h : extractTextWithBoundaryInfo doc need format = some info) (hshared : shared ≠ [])
    (hsome : shared.filterMap readMessage ≠ [])
    (hblank : format = .llama2 → NextNotBlank rest) :
    (scanMessages format need shared).combined <+: info.text := by
  obtain ⟨htext, -, -⟩ := extract_spec hdoc h
  rw [htext, scanMessages_append hshared]
  refine List.IsPrefix.trans (prefix_foldl_add _ ?_ hblank)
    ChatTemplateFormat.prefix_appendGenerationPrompt
  rw [scanMessages, foldl_scan]
  exact combined_ne_nil hsome

theorem take_eq_of_le_length {p l : List Char} (h : p <+: l) {e : ℕ} (he : e ≤ p.length) :
    l.take e = p.take e := by
  obtain ⟨rest, rfl⟩ := h
  exact List.take_append_of_le_length he

/-- **Conversations agree as far as they share messages.** Two conversations with the same
first messages, of which under `llama2` the next one is not blank, have the same places recorded
for these messages, and the same text up to each of them, and up to the end of the system's
messages if that comes before. In every conversation the places are in order and within the
text. -/
theorem shared_messages_agree (format : ChatTemplateFormat) {needA needB : Bool}
    {docA docB : JsonValue} {shared restA restB : List JsonValue} {a b : TextWithBoundaryInfo}
    (hdocA : IsConversation docA (shared ++ restA)) (hdocB : IsConversation docB (shared ++ restB))
    (ha : extractTextWithBoundaryInfo docA needA format = some a)
    (hb : extractTextWithBoundaryInfo docB needB format = some b) (hshared : shared ≠ [])
    (hblankA : format = .llama2 → NextNotBlank restA)
    (hblankB : format = .llama2 → NextNotBlank restB) :
    a.messageCharEnds.take (messageCount shared) = b.messageCharEnds.take (messageCount shared) ∧
      (a.messageCharEnds.take (messageCount shared)).length = messageCount shared ∧
      (∀ e ∈ a.messageCharEnds.take (messageCount shared),
        a.text.take e = b.text.take e ∧
          (a.systemPrefixEnd ≤ e →
            a.text.take a.systemPrefixEnd = b.text.take a.systemPrefixEnd)) ∧
      a.messageCharEnds.Pairwise (· ≤ ·) ∧ (∀ e ∈ a.messageCharEnds, e ≤ a.text.length) ∧
      a.systemPrefixEnd ≤ a.text.length := by
  obtain ⟨htextA, hendsA, hlastA⟩ := extract_spec hdocA ha
  obtain ⟨-, hendsB, -⟩ := extract_spec hdocB hb
  have hsame : SameText (scanMessages format needA shared) (scanMessages format needB shared) := by
    rw [scanMessages, scanMessages, foldl_scan, foldl_scan]
    exact SameText.foldl ⟨rfl, rfl, rfl⟩ needA needB _
  have hboundedA : Bounded (scanMessages format needA (shared ++ restA)) := bounded_scanMessages _
  have hlengthA : (scanMessages format needA (shared ++ restA)).combined.length ≤ a.text.length := by
    rw [htextA]
    exact ChatTemplateFormat.prefix_appendGenerationPrompt.length_le
  have htakeA : a.messageCharEnds.take (messageCount shared) =
      (scanMessages format needA shared).messageCharEnds := by
    rw [hendsA]
    exact take_messageCharEnds hshared restA
  have htakeB : b.messageCharEnds.take (messageCount shared) =
      (scanMessages format needB shared).messageCharEnds := by
    rw [hendsB]
    exact take_messageCharEnds hshared restB
  refine ⟨?_, ?_, ?_, ?_, ?_, ?_⟩
  · rw [htakeA, htakeB, hsame.ends]
  · rw [htakeA]
    exact length_scanMessages shared
  · rw [htakeA]
    intro e he
    have hle : e ≤ (scanMessages format needA shared).combined.length :=
      (bounded_scanMessages shared).ends e he
    -- a place is recorded, so one of the shared messages takes part
    have hsome : shared.filterMap readMessage ≠ [] := by
      intro hnil
      have hlength := @length_scanMessages format needA shared
      rw [messageCount, hnil, List.length_nil, List.length_eq_zero_iff] at hlength
      rw [hlength] at he
      cases he
    have hagree : ∀ n ≤ (scanMessages format needA shared).combined.length,
        a.text.take n = b.text.take n := by
      intro n hn
      rw [take_eq_of_le_length (prefix_text hdocA ha hshared hsome hblankA) hn,
        take_eq_of_le_length (prefix_text hdocB hb hshared hsome hblankB) (hsame.combined ▸ hn),
        hsame.combined]
    exact ⟨hagree e hle, fun hends => hagree _ (hends.trans hle)⟩
  · rw [hendsA]
    exact hboundedA.sorted
  · rw [hendsA]
    exact fun e he => (hboundedA.ends e he).trans hlengthA
  · exact hlastA.trans (hboundedA.candidate.trans hlengthA)

/-- A message with a role and a content. -/
def chatMessage (role content : String) : JsonValue :=
  .object [("role".toList, .string role.toList), ("content".toList, .string content.toList)]

/-- A body that consists of the messages. -/
def chatBody (messages : List JsonValue) : JsonValue :=
  .object [("messages".toList, .array messages)]

/-- Two conversations of an application with one system message. -/
def systemThen (user : String) : List JsonValue :=
  [chatMessage "system" "Be brief."] ++ [chatMessage "user" user]

theorem shared_messages_agree_twoUsers :
    ∃ a b,
      extractTextWithBoundaryInfo (chatBody (systemThen " Hi ")) true .llama2 = some a ∧
      extractTextWithBoundaryInfo (chatBody (systemThen "Why?")) false .llama2 = some b ∧
      a.messageCharEnds = [38, 49] ∧ a.systemPrefixEnd = 38 ∧ a.text.take 38 = b.text.take 38 := by
  have hnext : ∀ user : String, user.toList.all isWs = false →
      NextNotBlank [chatMessage "user" user] := by
    intro user huser m hm
    obtain rfl := Option.some.inj hm
    exact huser
  refine ⟨_, _, rfl, rfl, by decide, by decide, ?_⟩
  exact ((@shared_messages_agree .llama2 true false (chatBody (systemThen " Hi "))
    (chatBody (systemThen "Why?")) [chatMessage "system" "Be brief."] [chatMessage "user" " Hi "]
    [chatMessage "user" "Why?"] _ _ ⟨rfl, rfl⟩ ⟨rfl, rfl⟩ rfl rfl (by simp)
    (fun _ => hnext _ (by decide)) (fun _ => hnext _ (by decide))).2.2.1
      38 (by decide)).1

end RequestRewriter

end Ranvier
