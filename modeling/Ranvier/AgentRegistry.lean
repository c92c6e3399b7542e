import Ranvier.RequestScheduler

/-!
# The agent registry

Each shard knows a bounded number of agents: those of its configuration, and others that it
meets. A request is assigned to one of them by its headers, and an agent can be paused.

* `identifyAgent` — which agent a request is of;
* `handlePauseAgent`, `handleResumeAgent` — the two control calls and their answers;
* `isPaused_identifyAgent`, `handlePauseAgent_spec`, `handleResumeAgent_spec` — who is paused
  afterwards.

A `std::string` is a sequence of bytes, and each byte is written here as the character of its
code. The counters of requests and the times of the first and the last one are left out.
-/

namespace Ranvier

/-- `AgentConfig`. -/
structure AgentConfig : Type where
  pattern : String
  name : String
  defaultPriority : UInt8 := 2
  allowPause : Bool := true
  deriving DecidableEq, Repr

/-- `AgentRegistryConfig`, with the agents it comes with. -/
structure AgentRegistryConfig : Type where
  autoDetectAgents : Bool := true
  knownAgents : List AgentConfig :=
    [⟨"Cursor", "Cursor IDE", 0, true⟩, ⟨"claude-code", "Claude Code", 0, true⟩,
      ⟨"cline", "Cline", 1, true⟩, ⟨"aider", "Aider", 1, true⟩]
  deriving DecidableEq, Repr

/-- `MAX_KNOWN_AGENTS`. -/
def maxKnownAgents : ℕ := 64

/-- `MAX_AUTO_DETECT_NAME_LENGTH`. -/
def maxAutoDetectNameLength : ℕ := 32

/-- `AgentInfo`. -/
structure AgentInfo : Type where
  agentId : String
  displayName : String
  pattern : String
  defaultPriority : PriorityLevel := .NORMAL
  allowPause : Bool := true
  paused : Bool := false
  deriving DecidableEq, Repr

/-- The info of a configured agent. -/
def AgentConfig.info (ac : AgentConfig) (id : String) : AgentInfo where
  agentId := id
  displayName := ac.name
  pattern := ac.pattern
  defaultPriority := tierOf (min ac.defaultPriority 3)
  allowPause := ac.allowPause

/-- `AgentRegistry`. -/
structure AgentRegistry : Type where
  autoDetectAgents : Bool
  agents : KeyedMap String AgentInfo := {}
  overflowDrops : ℕ := 0

/-- `normalize_agent_id`. -/
def normalizeAgentId (name : String) : String :=
  String.ofList (name.toList.map fun c => if c = ' ' then '-' else c.toLower)

/-- `text.find(pattern) != npos`. -/
def containsText (pattern text : String) : Bool :=
  text.toList.tails.any fun rest => pattern.toList.isPrefixOf rest

/-- The name that `auto_register` makes of a header: what stands before a slash, else its
beginning. -/
def autoDetectName (userAgent : String) : String :=
  let before := userAgent.toList.takeWhile (· ≠ '/')
  if before.length < userAgent.toList.length ∧ before ≠ [] then String.ofList before
  else String.ofList (userAgent.toList.take maxAutoDetectNameLength)

namespace AgentRegistry

/-- One turn of `init_from_config`; `emplace` keeps what is there. -/
def addConfigured (r : AgentRegistry) (ac : AgentConfig) : AgentRegistry :=
  let id := normalizeAgentId ac.name
  if maxKnownAgents ≤ r.agents.size then r
  else if (r.agents.find id).isSome then r
  else { r with agents := r.agents.set id (ac.info id) }

/-- The constructor. -/
def new (config : AgentRegistryConfig) : AgentRegistry :=
  config.knownAgents.foldl addConfigured { autoDetectAgents := config.autoDetectAgents }

variable (r : AgentRegistry)

/-- `auto_register`; the empty id stands for none. -/
def autoRegister (userAgent : String) : String × AgentRegistry :=
  let rawName := autoDetectName userAgent
  let id := normalizeAgentId rawName
  if id = "" then ("", r)
  else if (r.agents.find id).isSome then (id, r)
  else if maxKnownAgents ≤ r.agents.size then ("", { r with overflowDrops := r.overflowDrops + 1 })
  else
    let info : AgentInfo := { agentId := id, displayName := rawName, pattern := rawName }
    (id, { r with agents := r.agents.set id info })

/-- The last resort of `identify_agent`. -/
def autoDetect (userAgent : String) : Option String × AgentRegistry :=
  if r.autoDetectAgents then
    match r.autoRegister userAgent with
    | (id, r) => (if id = "" then none else some id, r)
  else (none, r)

/-- `identify_agent`, by the headers `X-Ranvier-Agent` and `User-Agent`; `order` is the order
in which the hash map of agents is iterated. -/
def identifyAgent (order : List (String × AgentInfo)) (custom userAgent : String) :
    Option String × AgentRegistry :=
  if custom ≠ "" then
    if (r.agents.find (normalizeAgentId custom)).isSome then (some (normalizeAgentId custom), r)
    else r.autoDetect custom
  else if userAgent = "" then (none, r)
  else
    match order.find? fun e => e.2.pattern ≠ "" ∧ containsText e.2.pattern userAgent with
    | some e => (some e.1, r)
    | none => r.autoDetect userAgent

/-- `is_paused`. -/
def isPaused (id : String) : Bool :=
  match r.agents.find id with
  | none => false
  | some info => info.paused

/-- `pause_agent`. -/
def pauseAgent (id : String) : Bool × AgentRegistry :=
  match r.agents.find id with
  | none => (false, r)
  | some info =>
    if !info.allowPause || info.paused then (false, r)
    else (true, { r with agents := r.agents.set id { info with paused := true } })

/-- `resume_agent`. -/
def resumeAgent (id : String) : Bool × AgentRegistry :=
  match r.agents.find id with
  | none => (false, r)
  | some info =>
    if !info.paused then (false, r)
    else (true, { r with agents := r.agents.set id { info with paused := false } })

end AgentRegistry

/-! ## The control calls -/

/-- What the two handlers answer. -/
inductive AgentReply : Type where
  | registryDisabled
  | missingAgentId
  | agentNotFound
  | pauseNotAllowed
  | alreadyPaused
  | notPaused
  | paused
  | resumed
  deriving DecidableEq, Repr

/-- The HTTP status. -/
def AgentReply.status : AgentReply → ℕ
  | .missingAgentId => 400
  | .agentNotFound => 404
  | .pauseNotAllowed | .alreadyPaused | .notPaused => 409
  | .registryDisabled | .paused | .resumed => 200

/-- The text of the field `error` or `status`. -/
def AgentReply.text : AgentReply → String
  | .registryDisabled => "agent_registry_disabled"
  | .missingAgentId => "missing agent_id query parameter"
  | .agentNotFound => "agent_not_found"
  | .pauseNotAllowed => "agent_pause_not_allowed"
  | .alreadyPaused => "agent_already_paused"
  | .notPaused => "agent_not_paused"
  | .paused => "paused"
  | .resumed => "resumed"

/-- `handle_pause_agent`. -/
def handlePauseAgent (registry : Option AgentRegistry) (id : String) :
    AgentReply × Option AgentRegistry :=
  match registry with
  | none => (.registryDisabled, none)
  | some r =>
    if id = "" then (.missingAgentId, some r)
    else
      match r.agents.find id with
      | none => (.agentNotFound, some r)
      | some info =>
        if !info.allowPause then (.pauseNotAllowed, some r)
        else if info.paused then (.alreadyPaused, some r)
        else (.paused, some (r.pauseAgent id).2)

/-- `handle_resume_agent`, the signal apart. -/
def handleResumeAgent (registry : Option AgentRegistry) (id : String) :
    AgentReply × Option AgentRegistry :=
  match registry with
  | none => (.registryDisabled, none)
  | some r =>
    if id = "" then (.missingAgentId, some r)
    else
      match r.agents.find id with
      | none => (.agentNotFound, some r)
      | some info =>
        if !info.paused then (.notPaused, some r) else (.resumed, some (r.resumeAgent id).2)

/-- What the scheduler is given to ask, if there is a registry. -/
def pauseCheckOf (registry : Option AgentRegistry) : Option (String → Bool) :=
  registry.map fun r => r.isPaused

/-! ## Who is paused -/

namespace AgentRegistry

variable {r : AgentRegistry}

/-- A new agent is not paused, and nobody else is concerned. -/
theorem isPaused_autoRegister (userAgent : String) :
    (r.autoRegister userAgent).2.isPaused = r.isPaused := by
  rw [autoRegister]
  dsimp only
  split
  · rfl
  · split
    · rfl
    · next hnew =>
      split
      · rfl
      · funext id
        rw [isPaused, isPaused, KeyedMap.find_set]
        by_cases heq : id = normalizeAgentId (autoDetectName userAgent)
        · rw [if_pos heq, heq, Option.not_isSome_iff_eq_none.mp hnew]
        · rw [if_neg heq]

theorem isPaused_autoDetect (userAgent : String) :
    (r.autoDetect userAgent).2.isPaused = r.isPaused := by
  have hregister : (r.autoRegister userAgent).2.isPaused = r.isPaused :=
    isPaused_autoRegister userAgent
  rw [autoDetect]
  -- what the registration computes does not matter
  generalize r.autoRegister userAgent = found at hregister ⊢
  split
  · exact hregister
  · rfl

/-- To identify an agent pauses and resumes nobody. -/
theorem isPaused_identifyAgent (order : List (String × AgentInfo)) (custom userAgent : String) :
    (r.identifyAgent order custom userAgent).2.isPaused = r.isPaused := by
  rw [identifyAgent]
  split
  · split
    · rfl
    · exact isPaused_autoDetect custom
  · split
    · rfl
    · split
      · rfl
      · exact isPaused_autoDetect userAgent

theorem isPaused_pauseAgent {id : String} {info : AgentInfo} (hfind : r.agents.find id = some info)
    (hallow : info.allowPause = true) (hpaused : info.paused = false) :
    (r.pauseAgent id).2.isPaused = Function.update r.isPaused id true := by
  funext other
  rw [pauseAgent, hfind]
  simp only [hallow, hpaused, Bool.not_true, Bool.or_self, Bool.false_eq_true, if_false]
  rw [isPaused, KeyedMap.find_set]
  by_cases heq : other = id
  · rw [if_pos heq, heq, Function.update_self]
  · rw [if_neg heq, Function.update_of_ne heq]
    rfl

theorem isPaused_resumeAgent {id : String} {info : AgentInfo}
    (hfind : r.agents.find id = some info) (hpaused : info.paused = true) :
    (r.resumeAgent id).2.isPaused = Function.update r.isPaused id false := by
  funext other
  rw [resumeAgent, hfind]
  simp only [hpaused, Bool.not_true, Bool.false_eq_true, if_false]
  rw [isPaused, KeyedMap.find_set]
  by_cases heq : other = id
  · rw [if_pos heq, heq, Function.update_self]
  · rw [if_neg heq, Function.update_of_ne heq]
    rfl

end AgentRegistry

/-- A call changes nothing, unless it is answered with success; then it has paused the agent. -/
theorem handlePauseAgent_spec (registry : Option AgentRegistry) (id : String) :
    (handlePauseAgent registry id).1 ≠ .paused ∧ (handlePauseAgent registry id).2 = registry ∨
      (handlePauseAgent registry id).1 = .paused ∧ id ≠ "" ∧
        ∃ r r', registry = some r ∧ (handlePauseAgent registry id).2 = some r' ∧
          r'.isPaused = Function.update r.isPaused id true := by
  unfold handlePauseAgent
  split
  · exact Or.inl ⟨by simp, rfl⟩
  · next r =>
    split
    · exact Or.inl ⟨by simp, rfl⟩
    · next hid =>
      split
      · exact Or.inl ⟨by simp, rfl⟩
      · next info hfind =>
        split
        · exact Or.inl ⟨by simp, rfl⟩
        · next hallow =>
          split
          · exact Or.inl ⟨by simp, rfl⟩
          · next hpaused =>
            simp only [Bool.not_eq_true', Bool.not_eq_false] at hallow
            refine Or.inr ⟨rfl, hid, r, _, rfl, rfl, ?_⟩
            exact AgentRegistry.isPaused_pauseAgent hfind hallow (Bool.not_eq_true _ ▸ hpaused)

theorem handleResumeAgent_spec (registry : Option AgentRegistry) (id : String) :
    (handleResumeAgent registry id).1 ≠ .resumed ∧ (handleResumeAgent registry id).2 = registry ∨
      (handleResumeAgent registry id).1 = .resumed ∧
        ∃ r r', registry = some r ∧ (handleResumeAgent registry id).2 = some r' ∧
          r'.isPaused = Function.update r.isPaused id false := by
  unfold handleResumeAgent
  split
  · exact Or.inl ⟨by simp, rfl⟩
  · next r =>
    split
    · exact Or.inl ⟨by simp, rfl⟩
    · split
      · exact Or.inl ⟨by simp, rfl⟩
      · next info hfind =>
        split
        · exact Or.inl ⟨by simp, rfl⟩
        · next hpaused =>
          simp only [Bool.not_eq_true', Bool.not_eq_false] at hpaused
          refine Or.inr ⟨rfl, r, _, rfl, rfl, ?_⟩
          exact AgentRegistry.isPaused_resumeAgent hfind hpaused

end Ranvier
