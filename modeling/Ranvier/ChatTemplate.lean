import Ranvier.Trim

/-!
# Chat templates

A conversation is rendered as one text, message by message, in the way a family of models is
told apart from another. Some formats look back at the end of the text, and one of them trims
it before it goes on.

* `formatMessage`, `appendGenerationPrompt` — the rendering, by format;
* `prefix_formatMessage_of_ne` — every format only appends, except `llama2`;
* `formatLlama2_cases`, `not_suffix_formatLlama2` — what is trimmed there, and when;
* `length_le_formatMessage` — the text never gets shorter.

A text is a list of characters. They are the bytes of a `std::string`, each written as the
character of its code, or else the code points that these bytes encode. The program compares and
trims ASCII characters only, so it renders both alike.
-/

namespace Ranvier

/-- `ChatTemplateFormat`. -/
inductive ChatTemplateFormat : Type where
  | none
  | llama3
  | chatml
  | mistral
  | llama2
  | kimi
  deriving DecidableEq, Repr

namespace ChatTemplate

/-- `kWs`, the whitespace that `trim` and `rtrim` take away. -/
def isWs (c : Char) : Bool := " \t\n\r\x0c\x0b".toList.contains c

/-- `trim`. -/
def trim (s : List Char) : List Char := trimBoth isWs s

/-- `rtrim`. -/
def rtrim (s : List Char) : List Char := s.rdropWhile isWs

/-- `kKimiDefaultSystemPrompt`. -/
def kimiDefaultSystemPrompt : List Char :=
  "You are Kimi, an AI assistant created by Moonshot AI.".toList

/-- `kKimiBosToken`. -/
def kimiBosToken : List Char := []

/-- `kLlama2SystemClose`. -/
def llama2SystemClose : List Char := "\n<</SYS>>\n\n".toList

/-- `kimi_role_token`. -/
def kimiRoleToken (role : List Char) : List Char :=
  if role = "user".toList then "<|im_user|>".toList
  else if role = "assistant".toList then "<|im_assistant|>".toList
  else "<|im_system|>".toList

/-! ## One message -/

section Formats

variable (out role content : List Char) (isFirst : Bool)

/-- `format_none`. -/
def formatNone : List Char :=
  (if !isFirst && !out.isEmpty then out ++ ['\n'] else out) ++ content

/-- `format_llama3`. -/
def formatLlama3 : List Char :=
  (if isFirst then out ++ "<|begin_of_text|>".toList else out) ++ "<|start_header_id|>".toList ++
    role ++ "<|end_header_id|>\n\n".toList ++ content ++ "<|eot_id|>".toList

/-- `format_chatml`. -/
def formatChatml : List Char :=
  out ++ "<|im_start|>".toList ++ role ++ ['\n'] ++ content ++ "<|im_end|>\n".toList

/-- `format_mistral`. -/
def formatMistral : List Char :=
  if role = "system".toList then
    (if isFirst then out ++ "<s>".toList else out) ++ "[INST] ".toList ++ content ++ "\n\n".toList
  else if role = "user".toList then
    -- the block that a system message has opened is still open
    if "\n\n".toList.isSuffixOf out then out ++ content ++ " [/INST]".toList
    else if isFirst then out ++ "<s>[INST] ".toList ++ content ++ " [/INST]".toList
    else out ++ "[INST] ".toList ++ content ++ " [/INST]".toList
  else out ++ content ++ "</s>".toList

/-- `format_llama2`. -/
def formatLlama2 : List Char :=
  if role = "system".toList ∧ out = [] then
    out ++ "<s>[INST] <<SYS>>\n".toList ++ content ++ llama2SystemClose
  else if role = "assistant".toList then out ++ [' '] ++ trim content ++ " </s>".toList
  else if llama2SystemClose.isSuffixOf out then rtrim (out ++ content) ++ " [/INST]".toList
  else out ++ "<s>[INST] ".toList ++ trim content ++ " [/INST]".toList

/-- `format_kimi`. -/
def formatKimi : List Char :=
  (if isFirst && !kimiBosToken.isEmpty then out ++ kimiBosToken else out) ++ kimiRoleToken role ++
    role ++ "<|im_middle|>".toList ++ content ++ "<|im_end|>".toList

end Formats

end ChatTemplate

namespace ChatTemplateFormat

open ChatTemplate

/-- `format_message`. -/
def formatMessage (format : ChatTemplateFormat) (out role content : List Char) (isFirst : Bool) :
    List Char :=
  match format with
  | .none => formatNone out content isFirst
  | .llama3 => formatLlama3 out role content isFirst
  | .chatml => formatChatml out role content
  | .mistral => formatMistral out role content isFirst
  | .llama2 => formatLlama2 out role content
  | .kimi => formatKimi out role content isFirst

/-- `format_single_message`. -/
def formatSingleMessage (format : ChatTemplateFormat) (role content : List Char) : List Char :=
  match format with
  | .none => "<|".toList ++ role ++ "|>\n".toList ++ content
  | .llama3 => formatLlama3 [] role content false
  | .chatml => formatChatml [] role content
  | .mistral =>
    if role = "user".toList ∨ role = "system".toList then
      "[INST] ".toList ++ content ++ " [/INST]".toList
    else content ++ "</s>".toList
  | .llama2 =>
    if role = "system".toList then "<<SYS>>\n".toList ++ content ++ "\n<</SYS>>\n\n".toList
    else if role = "user".toList then
      "[INST] ".toList ++ ChatTemplate.trim content ++ " [/INST]".toList
    else [' '] ++ ChatTemplate.trim content ++ " </s>".toList
  | .kimi => formatKimi [] role content false

/-- `append_generation_prompt`. -/
def appendGenerationPrompt (format : ChatTemplateFormat) (out : List Char) : List Char :=
  match format with
  | .none | .mistral | .llama2 => out
  | .llama3 => out ++ "<|start_header_id|>assistant<|end_header_id|>\n\n".toList
  | .chatml => out ++ "<|im_start|>assistant\n".toList
  | .kimi => out ++ "<|im_assistant|>assistant<|im_middle|>".toList

/-- `default_system_prompt`. -/
def defaultSystemPrompt (format : ChatTemplateFormat) : List Char :=
  match format with
  | .kimi => kimiDefaultSystemPrompt
  | _ => []

/-! ## What rendering does to the text before -/

variable {format : ChatTemplateFormat} {out role content : List Char} {isFirst : Bool}

theorem prefix_appendGenerationPrompt : out <+: format.appendGenerationPrompt out := by
  cases format <;> simp [appendGenerationPrompt]

end ChatTemplateFormat

namespace ChatTemplate

variable {out role content : List Char}

/-- What is trimmed ends at the latest in the block's closing mark. -/
theorem rdropWhile_append_systemClose {space : Char → Bool} (hmark : ¬ space '>')
    (hnewline : space '\n') (p : List Char) :
    (p ++ llama2SystemClose ++ content).rdropWhile space =
      if content.all space then p ++ "\n<</SYS>>".toList
      else p ++ llama2SystemClose ++ content.rdropWhile space := by
  split
  · next hall =>
    rw [List.all_eq_true] at hall
    have hclose : llama2SystemClose = "\n<</SYS>".toList ++ ['>'] ++ ['\n', '\n'] := by
      decide
    have hshort : "\n<</SYS>>".toList = "\n<</SYS>".toList ++ ['>'] := by decide
    have hnewlines : ∀ c ∈ ['\n', '\n'], space c := by simpa using hnewline
    rw [rdropWhile_append_of_all hall, hclose, hshort, ← List.append_assoc,
      rdropWhile_append_of_all hnewlines, ← List.append_assoc,
      List.rdropWhile_concat_neg _ _ _ hmark]
  · next hall =>
    rw [rdropWhile_append_of_any]
    simpa [List.all_eq_true] using hall

theorem rtrim_append_systemClose (p : List Char) :
    rtrim (p ++ llama2SystemClose ++ content) =
      if content.all isWs then p ++ "\n<</SYS>>".toList
      else p ++ llama2SystemClose ++ rtrim content :=
  rdropWhile_append_systemClose (by decide) (by decide) p

/-- A message of `llama2` appends to the text, unless it is blank and the first after the
system block; and then the text still gets longer. -/
theorem formatLlama2_cases (out role content : List Char) :
    out <+: formatLlama2 out role content ∨
      content.all isWs ∧ llama2SystemClose <:+ out ∧
        out.length ≤ (formatLlama2 out role content).length := by
  rw [formatLlama2]
  split
  · left
    rw [List.append_assoc, List.append_assoc]
    exact List.prefix_append _ _
  · split
    · left
      rw [List.append_assoc, List.append_assoc]
      exact List.prefix_append _ _
    · split
      · next hclose =>
        obtain ⟨p, rfl⟩ := List.isSuffixOf_iff_suffix.mp hclose
        rw [rtrim_append_systemClose]
        split
        · next hall =>
          refine Or.inr ⟨hall, List.suffix_append _ _, ?_⟩
          have hmark : llama2SystemClose.length = 11 := by decide
          have hshort : "\n<</SYS>>".toList.length + " [/INST]".toList.length = 17 := by
            simp
          rw [List.length_append, List.length_append, List.length_append, hmark]
          omega
        · left
          rw [List.append_assoc]
          exact List.prefix_append _ _
      · left
        rw [List.append_assoc, List.append_assoc]
        exact List.prefix_append _ _

theorem formatLlama2_ne_nil : formatLlama2 out role content ≠ [] := by
  rw [formatLlama2]
  split_ifs
  all_goals exact List.append_ne_nil_of_right_ne_nil _ (by decide)

/-- Only the message that opens the system block leaves it open. -/
theorem not_suffix_formatLlama2 (h : ¬ (role = "system".toList ∧ out = [])) :
    ¬ llama2SystemClose <:+ formatLlama2 out role content := by
  -- a text that ends otherwise
  have hend : ∀ p mark : List Char, mark ≠ [] → mark.getLast? ≠ some '\n' →
      ¬ llama2SystemClose <:+ p ++ mark := by
    rintro p mark hne hmark ⟨q, hq⟩
    have hlast := congrArg List.getLast? hq
    rw [List.getLast?_append_of_ne_nil _ hne, List.getLast?_append_of_ne_nil _ (by decide)]
      at hlast
    exact hmark (hlast.symm.trans (by decide))
  rw [formatLlama2, if_neg h]
  split
  · exact hend _ _ (by simp) (by simp)
  · split
    · exact hend _ _ (by simp) (by simp)
    · exact hend _ _ (by simp) (by simp)

end ChatTemplate

namespace ChatTemplateFormat

open ChatTemplate

variable {format : ChatTemplateFormat} {out role content : List Char} {isFirst : Bool}

/-- Every format but `llama2` only appends. -/
theorem prefix_formatMessage_of_ne (h : format ≠ .llama2) :
    out <+: format.formatMessage out role content isFirst := by
  cases format with
  | none =>
    change out <+: formatNone out content isFirst
    rw [formatNone]
    split
    · rw [List.append_assoc]
      exact List.prefix_append _ _
    · exact List.prefix_append _ _
  | llama3 =>
    change out <+: formatLlama3 out role content isFirst
    rw [formatLlama3]
    split
    all_goals
      simp only [List.append_assoc]
      exact List.prefix_append _ _
  | chatml =>
    change out <+: formatChatml out role content
    simp only [formatChatml, List.append_assoc]
    exact List.prefix_append _ _
  | mistral =>
    change out <+: formatMistral out role content isFirst
    rw [formatMistral]
    split_ifs
    all_goals
      simp only [List.append_assoc]
      exact List.prefix_append _ _
  | llama2 => exact absurd rfl h
  | kimi =>
    change out <+: formatKimi out role content isFirst
    rw [formatKimi]
    split
    all_goals
      simp only [List.append_assoc]
      exact List.prefix_append _ _

/-- The text before stays, unless the format is `llama2` and the message is blank. -/
theorem prefix_formatMessage (h : format = .llama2 → content.all isWs = false) :
    out <+: format.formatMessage out role content isFirst := by
  by_cases hformat : format = .llama2
  · subst hformat
    rcases formatLlama2_cases out role content with happend | ⟨hall, -⟩
    · exact happend
    · rw [h rfl] at hall
      cases hall
  · exact prefix_formatMessage_of_ne hformat

/-- The text gets longer. -/
theorem length_le_formatMessage :
    out.length ≤ (format.formatMessage out role content isFirst).length := by
  by_cases hformat : format = .llama2
  · subst hformat
    rcases formatLlama2_cases out role content with happend | ⟨-, -, hlength⟩
    · exact happend.length_le
    · exact hlength
  · exact (prefix_formatMessage_of_ne hformat).length_le

end ChatTemplateFormat

end Ranvier
