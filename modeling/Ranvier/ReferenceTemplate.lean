import Ranvier.SharedPrefix

/-!
# The reference templates

An engine renders a conversation by the template that comes with the model. The program has
three of these templates quoted beside the code that stands for them, and the texts must be the
same, character by character.

* `llama3Reference`, `chatmlReference`, `llama2Reference` — the templates, written out;
* `rendered_eq_reference_iff` — the texts are the same exactly if no content begins or ends with
  whitespace: one of the templates trims, and the code for it does not.

The templates are run by Jinja, whose `trim` is Python's `str.strip`; it knows more whitespace
than the program does. Here a text is a list of code points.
-/

namespace Ranvier

namespace RequestRewriter

open ChatTemplate BoundaryScan

/-- A message that has a role. -/
structure ChatTurn : Type where
  role : List Char
  content : List Char
  deriving DecidableEq, Repr

/-- What is read from its JSON object. -/
def ChatTurn.message (t : ChatTurn) : ChatMessage := ⟨some t.role, t.content⟩

/-- `str.isspace`, by code points. -/
def isPythonSpace (c : Char) : Bool :=
  (9 ≤ c.toNat && c.toNat ≤ 13) || (28 ≤ c.toNat && c.toNat ≤ 32) || c.toNat == 0x85 ||
    c.toNat == 0xA0 || c.toNat == 0x1680 || (0x2000 ≤ c.toNat && c.toNat ≤ 0x200A) ||
    c.toNat == 0x2028 || c.toNat == 0x2029 || c.toNat == 0x202F || c.toNat == 0x205F ||
    c.toNat == 0x3000

/-- `str.strip`. -/
def pythonStrip (s : List Char) : List Char := trimBoth isPythonSpace s

/-! ## The templates -/

/-- `content` in the loop of the `llama3` template. -/
def llama3Turn (t : ChatTurn) : List Char :=
  "<|start_header_id|>".toList ++ t.role ++ "<|end_header_id|>\n\n".toList ++
    pythonStrip t.content ++ "<|eot_id|>".toList

/-- The `llama3` template with the generation prompt. -/
def llama3Reference : List ChatTurn → List Char
  | [] => "<|start_header_id|>assistant<|end_header_id|>\n\n".toList
  | t :: turns =>
    "<|begin_of_text|>".toList ++ llama3Turn t ++ turns.flatMap llama3Turn ++
      "<|start_header_id|>assistant<|end_header_id|>\n\n".toList

/-- The body of the loop of the `chatml` template. -/
def chatmlTurn (t : ChatTurn) : List Char :=
  "<|im_start|>".toList ++ t.role ++ "\n".toList ++ t.content ++ "<|im_end|>".toList ++ "\n".toList

/-- The `chatml` template with the generation prompt. -/
def chatmlReference (turns : List ChatTurn) : List Char :=
  turns.flatMap chatmlTurn ++ "<|im_start|>assistant\n".toList

/-- What the loop of the `llama2` template puts out for a message, by its `content`. -/
def llama2Turn (role content : List Char) : List Char :=
  if role = "user".toList then
    "<s>".toList ++ "[INST] ".toList ++ pythonStrip content ++ " [/INST]".toList
  else if role = "assistant".toList then
    " ".toList ++ pythonStrip content ++ " ".toList ++ "</s>".toList
  else []

/-- The loop of the `llama2` template, over `loop_messages`. -/
def llama2Loop (systemMessage : Option (List Char)) : List ChatTurn → List Char
  | [] => []
  | t :: turns =>
    let content :=
      match systemMessage with
      | some system =>
        "<<SYS>>\n".toList ++ system ++ "\n<</SYS>>\n\n".toList ++ t.content
      | none => t.content
    llama2Turn t.role content ++ turns.flatMap fun t => llama2Turn t.role t.content

/-- The `llama2` template. -/
def llama2Reference : List ChatTurn → List Char
  | [] => []
  | t :: turns =>
    if t.role = systemRole then llama2Loop (some t.content) turns
    else llama2Loop none (t :: turns)

/-- User and assistant take turns; the flag says who is next. -/
def AlternatesFrom : Bool → List ChatTurn → Prop
  | _, [] => True
  | user, t :: turns =>
    t.role = (if user then "user".toList else "assistant".toList) ∧ AlternatesFrom (!user) turns

/-- A system message or none, and then user and assistant in turns. -/
def Alternating : List ChatTurn → Prop
  | [] => False
  | t :: turns =>
    t.role = systemRole ∧ turns ≠ [] ∧ AlternatesFrom true turns ∨ AlternatesFrom true (t :: turns)

/-! ## What the program renders -/

/-- The body has these messages, with their roles. -/
def HasTurns (doc : JsonValue) (turns : List ChatTurn) : Prop :=
  ∃ elements, IsConversation doc elements ∧
    elements.map readMessage = turns.map fun t => some t.message

/-- The text that the loop of the program makes of messages with roles. -/
def renderTurns (format : ChatTemplateFormat) : List Char → Bool → List ChatTurn → List Char
  | out, _, [] => out
  | out, isFirst, t :: turns =>
    renderTurns format (format.formatMessage out t.role t.content isFirst) false turns

variable {format : ChatTemplateFormat} {need : Bool}

theorem combined_foldl_add (s : BoundaryScan) (turns : List ChatTurn) :
    ((turns.map ChatTurn.message).foldl (add format need) s).combined =
      renderTurns format s.combined s.isFirstMessage turns := by
  induction turns generalizing s with
  | nil => rfl
  | cons t turns ih =>
    rw [List.map_cons, List.foldl_cons, ih, renderTurns]
    rfl

/-- The text of a body, for a format without a system message of its own. -/
theorem text_of_turns {doc : JsonValue} {turns : List ChatTurn} (hdoc : HasTurns doc turns)
    (hne : turns ≠ []) (need : Bool) (hdefault : format.defaultSystemPrompt = [])
    (htext : format.appendGenerationPrompt (renderTurns format [] true turns) ≠ []) :
    (extractTextWithBoundaryInfo doc need format).map (·.text) =
      some (format.appendGenerationPrompt (renderTurns format [] true turns)) := by
  obtain ⟨elements, ⟨hprompt, hmessages⟩, hread⟩ := hdoc
  have hfilter : elements.filterMap readMessage = turns.map ChatTurn.message := by
    have hid := congrArg (List.filterMap id) hread
    rw [List.filterMap_map, List.filterMap_map] at hid
    rw [← List.filterMap_eq_map]
    exact hid
  have helements : elements ≠ [] := by
    rintro rfl
    exact hne (List.map_eq_nil_iff.mp hread.symm)
  have hscan : (scanMessages format need elements).combined = renderTurns format [] true turns := by
    rw [scanMessages, foldl_scan, hfilter, combined_foldl_add, start, hdefault]
    rfl
  rw [extractTextWithBoundaryInfo, hprompt, hmessages]
  dsimp only
  rw [if_neg (by simpa using helements), hscan, if_neg (by simpa using htext)]
  rfl

/-! ## Message by message -/

/-- What the program appends for a message under `llama3`. -/
def llama3Piece (t : ChatTurn) : List Char :=
  "<|start_header_id|>".toList ++ t.role ++ "<|end_header_id|>\n\n".toList ++ t.content ++
    "<|eot_id|>".toList

theorem formatLlama3_eq_append (out : List Char) (isFirst : Bool) (t : ChatTurn) :
    formatLlama3 out t.role t.content isFirst =
      (if isFirst then out ++ "<|begin_of_text|>".toList else out) ++ llama3Piece t := by
  unfold formatLlama3 llama3Piece
  -- the marks themselves do not matter
  generalize (if isFirst then out ++ "<|begin_of_text|>".toList else out) = before
  generalize "<|start_header_id|>".toList = header
  generalize "<|end_header_id|>\n\n".toList = headerEnd
  generalize "<|eot_id|>".toList = eot
  simp only [List.append_assoc]

theorem renderTurns_llama3 (out : List Char) (turns : List ChatTurn) :
    renderTurns .llama3 out false turns = out ++ turns.flatMap llama3Piece := by
  induction turns generalizing out with
  | nil => exact (List.append_nil out).symm
  | cons t turns ih =>
    rw [renderTurns, ChatTemplateFormat.formatMessage, formatLlama3_eq_append, ih,
      List.flatMap_cons, if_neg Bool.false_ne_true, List.append_assoc]

theorem formatChatml_eq_append (out : List Char) (t : ChatTurn) :
    formatChatml out t.role t.content = out ++ chatmlTurn t := by
  have hnewline : "<|im_end|>\n".toList = "<|im_end|>".toList ++ "\n".toList := by simp
  have hchar : ['\n'] = "\n".toList := by simp
  unfold formatChatml chatmlTurn
  generalize "<|im_start|>".toList = start
  generalize "<|im_end|>\n".toList = eotLine at hnewline ⊢
  generalize "<|im_end|>".toList = eot at hnewline ⊢
  generalize "\n".toList = newline at hnewline hchar ⊢
  simp only [hnewline, hchar, List.append_assoc]

theorem renderTurns_chatml (out : List Char) (isFirst : Bool) (turns : List ChatTurn) :
    renderTurns .chatml out isFirst turns = out ++ turns.flatMap chatmlTurn := by
  induction turns generalizing out isFirst with
  | nil => exact (List.append_nil out).symm
  | cons t turns ih =>
    rw [renderTurns, ChatTemplateFormat.formatMessage, formatChatml_eq_append, ih,
      List.flatMap_cons, List.append_assoc]

/-! ## `llama3` -/

theorem length_llama3 (t : ChatTurn) :
    (llama3Turn t).length + t.content.length =
      (llama3Piece t).length + (pythonStrip t.content).length := by
  unfold llama3Turn llama3Piece
  generalize "<|start_header_id|>".toList = header
  generalize "<|end_header_id|>\n\n".toList = headerEnd
  generalize "<|eot_id|>".toList = eot
  simp only [List.length_append]
  omega

/-- The reference is never longer. -/
theorem length_flatMap_llama3 (turns : List ChatTurn) :
    (turns.flatMap llama3Turn).length ≤ (turns.flatMap llama3Piece).length ∧
      ((turns.flatMap llama3Turn).length = (turns.flatMap llama3Piece).length →
        ∀ t ∈ turns, pythonStrip t.content = t.content) := by
  induction turns with
  | nil => exact ⟨le_rfl, fun _ => nofun⟩
  | cons t turns ih =>
    have hturn := length_llama3 t
    have hstrip : (pythonStrip t.content).length ≤ t.content.length := length_trimBoth_le _ _
    rw [List.flatMap_cons, List.flatMap_cons, List.length_append, List.length_append]
    refine ⟨by omega, fun hlength => List.forall_mem_cons.mpr ⟨?_, ih.2 (by omega)⟩⟩
    exact trimBoth_eq_self_iff.mpr (trimBoth_eq_self_of_length (by rw [pythonStrip] at *; omega))

theorem llama3Turn_eq_piece {t : ChatTurn} (h : pythonStrip t.content = t.content) :
    llama3Turn t = llama3Piece t := by
  unfold llama3Turn llama3Piece
  rw [h]

theorem flatMap_llama3_iff (turns : List ChatTurn) :
    turns.flatMap llama3Piece = turns.flatMap llama3Turn ↔
      ∀ t ∈ turns, pythonStrip t.content = t.content := by
  constructor
  · exact fun h => (length_flatMap_llama3 turns).2 (congrArg List.length h.symm)
  · intro h
    exact (List.flatMap_congr fun t ht => llama3Turn_eq_piece (h t ht)).symm

/-! ## `llama2` -/

theorem isPythonSpace_of_isWs (c : Char) (h : isWs c) : isPythonSpace c := by
  have hmem : c ∈ " \t\n\r\x0c\x0b".toList := List.contains_iff_mem.mp h
  have hall : " \t\n\r\x0c\x0b".toList.all isPythonSpace := by decide
  exact List.all_eq_true.mp hall c hmem

/-- A message that no open block comes before. -/
theorem formatLlama2_eq_append {out : List Char} {t : ChatTurn}
    (hclose : ¬ llama2SystemClose <:+ out)
    (hrole : t.role = "user".toList ∨ t.role = "assistant".toList)
    (htrim : ChatTemplate.trim t.content = pythonStrip t.content) :
    formatLlama2 out t.role t.content = out ++ llama2Turn t.role t.content := by
  rcases hrole with hrole | hrole
  · have hsystem : ¬ ("user".toList = "system".toList ∧ out = []) :=
      fun h => absurd h.1 (by simp)
    have hclosed : ¬ llama2SystemClose.isSuffixOf out := by
      simpa [List.isSuffixOf_iff_suffix] using hclose
    rw [formatLlama2, llama2Turn, hrole, if_neg hsystem, if_neg (by simp),
      if_neg hclosed, if_pos rfl, htrim]
    have hopen : "<s>[INST] ".toList = "<s>".toList ++ "[INST] ".toList := by simp
    generalize "<s>[INST] ".toList = opening at hopen ⊢
    generalize "<s>".toList = bos at hopen ⊢
    generalize "[INST] ".toList = inst at hopen ⊢
    generalize " [/INST]".toList = close
    simp only [hopen, List.append_assoc]
  · have hsystem : ¬ ("assistant".toList = "system".toList ∧ out = []) :=
      fun h => absurd h.1 (by simp)
    rw [formatLlama2, llama2Turn, hrole, if_neg hsystem, if_pos rfl, if_neg (by simp),
      if_pos rfl, htrim]
    have hclosing : " </s>".toList = " ".toList ++ "</s>".toList := by simp
    have hblank : [' '] = " ".toList := by simp
    generalize " </s>".toList = closing at hclosing ⊢
    generalize " ".toList = blank at hclosing hblank ⊢
    generalize "</s>".toList = eos at hclosing ⊢
    simp only [hclosing, hblank, List.append_assoc]

theorem renderTurns_llama2 {turns : List ChatTurn} {out : List Char} {user isFirst : Bool}
    (hclose : ¬ llama2SystemClose <:+ out) (halternates : AlternatesFrom user turns)
    (htrim : ∀ t ∈ turns, ChatTemplate.trim t.content = pythonStrip t.content) :
    renderTurns .llama2 out isFirst turns =
      out ++ turns.flatMap fun t => llama2Turn t.role t.content := by
  induction turns generalizing out user isFirst with
  | nil => exact (List.append_nil out).symm
  | cons t turns ih =>
    obtain ⟨hrole, halternates⟩ := halternates
    rw [List.forall_mem_cons] at htrim
    have hroles : t.role = "user".toList ∨ t.role = "assistant".toList := by
      cases user with
      | true => exact Or.inl hrole
      | false => exact Or.inr hrole
    have hnext : ¬ llama2SystemClose <:+ formatLlama2 out t.role t.content := by
      refine not_suffix_formatLlama2 ?_
      rintro ⟨hsystem, -⟩
      rw [hsystem] at hroles
      revert hroles
      simp
    rw [renderTurns, ChatTemplateFormat.formatMessage, ih hnext halternates htrim.2,
      formatLlama2_eq_append hclose hroles htrim.1, List.flatMap_cons, List.append_assoc]

theorem renderTurns_llama2_ne_nil {turns : List ChatTurn} {out : List Char} {isFirst : Bool}
    (h : out ≠ [] ∨ turns ≠ []) : renderTurns .llama2 out isFirst turns ≠ [] := by
  induction turns generalizing out isFirst with
  | nil => exact h.resolve_right (not_not_intro rfl)
  | cons t turns ih => exact ih (Or.inl formatLlama2_ne_nil)

/-- Both trims reach back equally far from the end of a text that follows the system block. -/
theorem rtrim_eq_pythonStrip (p system : List Char) {content : List Char}
    (htrim : ChatTemplate.trim content = pythonStrip content) :
    ∃ rest, rtrim (p ++ system ++ llama2SystemClose ++ content) = p ++ rest ∧
      pythonStrip ("<<SYS>>\n".toList ++ system ++ llama2SystemClose ++ content) =
        "<<SYS>>\n".toList ++ rest := by
  have hfront : pythonStrip ("<<SYS>>\n".toList ++ system ++ llama2SystemClose ++ content) =
      ("<<SYS>>\n".toList ++ system ++ llama2SystemClose ++ content).rdropWhile isPythonSpace := by
    have hmark : "<<SYS>>\n".toList = '<' :: "<SYS>>\n".toList := by simp
    rw [pythonStrip, trimBoth, hmark, List.cons_append, List.cons_append, List.cons_append,
      List.dropWhile_cons_of_neg (by decide)]
  rw [hfront, rtrim_append_systemClose,
    rdropWhile_append_systemClose (by decide) (by decide)]
  have hall : content.all isWs = content.all isPythonSpace := by
    rw [Bool.eq_iff_iff, List.all_eq_true, List.all_eq_true, ← trimBoth_eq_nil_iff,
      ← trimBoth_eq_nil_iff]
    exact Eq.congr_left htrim
  rw [← hall]
  split
  · refine ⟨system ++ "\n<</SYS>>".toList, ?_, ?_⟩
    · rw [List.append_assoc]
    · rw [List.append_assoc]
  · next hsome =>
    have hright : rtrim content = content.rdropWhile isPythonSpace := by
      refine rdropWhile_eq_of_trimBoth_eq isPythonSpace_of_isWs htrim ?_
      rw [hall] at hsome
      simpa using hsome
    refine ⟨system ++ llama2SystemClose ++ rtrim content, ?_, ?_⟩
    · simp only [List.append_assoc]
    · simp only [hright, List.append_assoc]

/-- The user's text after the system block. -/
theorem formatLlama2_after_system (system : List Char) {content : List Char}
    (htrim : ChatTemplate.trim content = pythonStrip content) :
    formatLlama2 (formatLlama2 [] systemRole system) "user".toList content =
      llama2Turn "user".toList
        ("<<SYS>>\n".toList ++ system ++ "\n<</SYS>>\n\n".toList ++ content) := by
  obtain ⟨rest, hcode, hreference⟩ :=
    rtrim_eq_pythonStrip "<s>[INST] <<SYS>>\n".toList system htrim
  have hblock : formatLlama2 [] systemRole system =
      "<s>[INST] <<SYS>>\n".toList ++ system ++ llama2SystemClose := by
    rw [formatLlama2, if_pos ⟨rfl, rfl⟩, List.nil_append]
  have hclose : llama2SystemClose.isSuffixOf
      ("<s>[INST] <<SYS>>\n".toList ++ system ++ llama2SystemClose) := by
    rw [List.isSuffixOf_iff_suffix]
    exact List.suffix_append _ _
  have hsystem : ¬ ("user".toList = "system".toList ∧
      "<s>[INST] <<SYS>>\n".toList ++ system ++ llama2SystemClose = []) :=
    fun h => absurd h.1 (by simp)
  have hopen : "<s>[INST] <<SYS>>\n".toList =
      "<s>".toList ++ "[INST] ".toList ++ "<<SYS>>\n".toList := by simp
  have hcode' : formatLlama2 (formatLlama2 [] systemRole system) "user".toList content =
      "<s>[INST] <<SYS>>\n".toList ++ rest ++ " [/INST]".toList := by
    rw [hblock, formatLlama2, if_neg hsystem, if_neg (by simp), if_pos hclose, hcode]
  have hreference' : llama2Turn "user".toList
      ("<<SYS>>\n".toList ++ system ++ "\n<</SYS>>\n\n".toList ++ content) =
      "<s>".toList ++ "[INST] ".toList ++ ("<<SYS>>\n".toList ++ rest) ++ " [/INST]".toList := by
    rw [llama2Turn, if_pos rfl]
    exact congrArg (fun stripped => "<s>".toList ++ "[INST] ".toList ++ stripped ++ _) hreference
  rw [hcode', hreference', hopen]
  generalize "<s>".toList ++ "[INST] ".toList = opening
  generalize "<<SYS>>\n".toList = mark
  simp only [List.append_assoc]

/-- The loop over a whole conversation. -/
theorem renderTurns_eq_llama2Reference {turns : List ChatTurn} (halternating : Alternating turns)
    (htrim : ∀ t ∈ turns, t.role ≠ systemRole →
      ChatTemplate.trim t.content = pythonStrip t.content) :
    renderTurns .llama2 [] true turns = llama2Reference turns := by
  -- whoever takes turns is not the system
  have hroles : ∀ {user : Bool} {turns : List ChatTurn}, AlternatesFrom user turns →
      ∀ t ∈ turns, t.role ≠ systemRole := by
    intro user turns halternates
    induction turns generalizing user with
    | nil => exact nofun
    | cons t turns ih =>
      refine List.forall_mem_cons.mpr ⟨?_, ih halternates.2⟩
      rw [halternates.1]
      cases user <;> decide
  have hnil : ¬ llama2SystemClose <:+ [] := by decide
  cases turns with
  | nil => exact absurd halternating id
  | cons t turns =>
    rcases halternating with ⟨hsystem, hne, halternates⟩ | halternates
    · obtain ⟨t', turns, rfl⟩ := List.exists_cons_of_ne_nil hne
      rw [List.forall_mem_cons, List.forall_mem_cons] at htrim
      obtain ⟨-, htrim', htrims⟩ := htrim
      obtain ⟨hnot, hnots⟩ := List.forall_mem_cons.mp (hroles halternates)
      have huser : t'.role = "user".toList := halternates.1
      have hfirst := formatLlama2_after_system t.content (htrim' hnot)
      have hclose : ¬ llama2SystemClose <:+
          formatLlama2 (formatLlama2 [] systemRole t.content) "user".toList t'.content :=
        not_suffix_formatLlama2 fun h => absurd h.1 (by simp)
      rw [llama2Reference, if_pos hsystem, llama2Loop, renderTurns, renderTurns,
        ChatTemplateFormat.formatMessage, ChatTemplateFormat.formatMessage, hsystem, huser,
        renderTurns_llama2 hclose halternates.2 fun t ht => htrims t ht (hnots t ht), hfirst]
    · have hnot := hroles halternates
      have hrole : ¬ t.role = systemRole := hnot t List.mem_cons_self
      rw [renderTurns_llama2 hnil halternates fun t ht => htrim t ht (hnot t ht), llama2Reference,
        if_neg hrole, llama2Loop, List.flatMap_cons, List.nil_append]

/-- The text that the program makes of a body. -/
def renderedText (doc : JsonValue) (need : Bool) (format : ChatTemplateFormat) :
    Option (List Char) :=
  (extractTextWithBoundaryInfo doc need format).map (·.text)

theorem renderTurns_llama3_first {turns : List ChatTurn} (hne : turns ≠ []) :
    renderTurns .llama3 [] true turns =
      "<|begin_of_text|>".toList ++ turns.flatMap llama3Piece := by
  obtain ⟨t, turns, rfl⟩ := List.exists_cons_of_ne_nil hne
  rw [renderTurns, ChatTemplateFormat.formatMessage, formatLlama3_eq_append, renderTurns_llama3,
    List.flatMap_cons]
  exact List.append_assoc _ _ _

theorem llama3Reference_eq {turns : List ChatTurn} (hne : turns ≠ []) :
    llama3Reference turns = "<|begin_of_text|>".toList ++ turns.flatMap llama3Turn ++
      "<|start_header_id|>assistant<|end_header_id|>\n\n".toList := by
  obtain ⟨t, turns, rfl⟩ := List.exists_cons_of_ne_nil hne
  rw [List.flatMap_cons]
  exact congrArg (· ++ _) (List.append_assoc _ _ _)

theorem renderedText_llama3 {doc : JsonValue} {turns : List ChatTurn} (hdoc : HasTurns doc turns)
    (hne : turns ≠ []) (need : Bool) :
    renderedText doc need .llama3 = some (llama3Reference turns) ↔
      ∀ t ∈ turns, pythonStrip t.content = t.content := by
  have htext : ChatTemplateFormat.llama3.appendGenerationPrompt
      (renderTurns .llama3 [] true turns) ≠ [] :=
    List.append_ne_nil_of_right_ne_nil _ (by simp)
  have hrendered : renderedText doc need .llama3 =
      some (renderTurns .llama3 [] true turns ++
        "<|start_header_id|>assistant<|end_header_id|>\n\n".toList) :=
    text_of_turns hdoc hne need rfl htext
  rw [hrendered, renderTurns_llama3_first hne, llama3Reference_eq hne, Option.some_inj,
    ← flatMap_llama3_iff turns]
  -- the mark before and the prompt after are the same
  generalize "<|begin_of_text|>".toList = bos
  generalize "<|start_header_id|>assistant<|end_header_id|>\n\n".toList = prompt
  rw [List.append_cancel_right_eq, List.append_cancel_left_eq]

theorem renderedText_chatml {doc : JsonValue} {turns : List ChatTurn} (hdoc : HasTurns doc turns)
    (hne : turns ≠ []) (need : Bool) :
    renderedText doc need .chatml = some (chatmlReference turns) := by
  have htext : ChatTemplateFormat.chatml.appendGenerationPrompt
      (renderTurns .chatml [] true turns) ≠ [] :=
    List.append_ne_nil_of_right_ne_nil _ (by simp)
  rw [renderedText, text_of_turns hdoc hne need rfl htext, renderTurns_chatml, List.nil_append]
  rfl

theorem renderedText_llama2 {doc : JsonValue} {turns : List ChatTurn} (hdoc : HasTurns doc turns)
    (need : Bool) (halternating : Alternating turns)
    (htrim : ∀ t ∈ turns, t.role ≠ systemRole →
      ChatTemplate.trim t.content = pythonStrip t.content) :
    renderedText doc need .llama2 = some (llama2Reference turns) := by
  have hne : turns ≠ [] := by
    rintro rfl
    exact halternating
  have htext : ChatTemplateFormat.llama2.appendGenerationPrompt
      (renderTurns .llama2 [] true turns) ≠ [] := renderTurns_llama2_ne_nil (Or.inr hne)
  rw [renderedText, text_of_turns hdoc hne need rfl htext]
  exact congrArg some (renderTurns_eq_llama2Reference halternating htrim)

/-- **The templates that are quoted and the code beside them.** The texts of a conversation are
those of the reference templates, exactly if no content begins or ends with whitespace: the
code for `llama3` leaves the trimming out. `chatml` is right in any case, and `llama2` whenever
the whitespace is such that the program knows it. -/
theorem rendered_eq_reference_iff {doc : JsonValue} {turns : List ChatTurn}
    (hdoc : HasTurns doc turns) (hne : turns ≠ []) (need : Bool) :
    (renderedText doc need .llama3 = some (llama3Reference turns) ∧
        renderedText doc need .chatml = some (chatmlReference turns) ∧
        (Alternating turns → renderedText doc need .llama2 = some (llama2Reference turns)) ↔
      ∀ t ∈ turns, pythonStrip t.content = t.content) ∧
    renderedText doc need .chatml = some (chatmlReference turns) ∧
    (Alternating turns →
      (∀ t ∈ turns, t.role ≠ systemRole →
        ChatTemplate.trim t.content = pythonStrip t.content) →
      renderedText doc need .llama2 = some (llama2Reference turns)) := by
  have hchatml := renderedText_chatml hdoc hne need
  refine ⟨⟨fun h => (renderedText_llama3 hdoc hne need).mp h.1, fun hstrip => ?_⟩, hchatml,
    renderedText_llama2 hdoc need⟩
  refine ⟨(renderedText_llama3 hdoc hne need).mpr hstrip, hchatml, fun halternating => ?_⟩
  refine renderedText_llama2 hdoc need halternating fun t ht _ => ?_
  -- what has no whitespace at its ends has none that the program knows
  have hself : ChatTemplate.trim t.content = t.content :=
    trimBoth_eq_self_mono isPythonSpace_of_isWs (hstrip t ht)
  rw [hself, hstrip t ht]

/-- A conversation whose contents are trimmed already. -/
def trimmedTurns : List ChatTurn :=
  [⟨systemRole, "Be brief.".toList⟩, ⟨"user".toList, "Why?".toList⟩]

theorem rendered_eq_reference_iff_trimmed :
    renderedText (chatBody (systemThen "Why?")) false .llama3 = some (llama3Reference trimmedTurns) ∧
      renderedText (chatBody (systemThen "Why?")) false .llama2 =
        some (llama2Reference trimmedTurns) := by
  have hdoc : HasTurns (chatBody (systemThen "Why?")) trimmedTurns :=
    ⟨systemThen "Why?", ⟨rfl, rfl⟩, rfl⟩
  obtain ⟨hllama3, -, hllama2⟩ :=
    (rendered_eq_reference_iff hdoc (by decide) false).1.mpr (by decide)
  exact ⟨hllama3, hllama2 (Or.inl ⟨rfl, by simp, rfl, trivial⟩)⟩

/-- A conversation whose last content ends with a newline. -/
def untrimmedTurns : List ChatTurn := [⟨"user".toList, "Why?\n".toList⟩]

/-- The template drops the newline, the program keeps it. -/
theorem untrimmedTurns_differ :
    HasTurns (chatBody [chatMessage "user" "Why?\n"]) untrimmedTurns ∧
      renderedText (chatBody [chatMessage "user" "Why?\n"]) false .llama3 ≠
        some (llama3Reference untrimmedTurns) :=
  ⟨⟨_, ⟨rfl, rfl⟩, rfl⟩, by decide⟩

end RequestRewriter

end Ranvier
