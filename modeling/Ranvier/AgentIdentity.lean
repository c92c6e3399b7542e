import Ranvier.AgentRegistry
import Ranvier.Run

/-!
# Who a request is taken for

A header that no agent is known for makes an agent of its own, with a pattern taken from the
header. These patterns are walked together with the configured ones, in the order of a hash
map, so what a client sends can decide whom a later request is taken for.

* `serveRequest` — the registry after one request;
* `Grown` — a run only adds agents;
* `identified_iff_none_detected` — a request that one configured agent answers to is taken
  for this agent in every order of the map, exactly if no agent that was met meanwhile
  answers to it too.
-/

namespace Ranvier

/-- The headers of a request, and the order in which the hash map is iterated for it. -/
structure AgentRequest : Type where
  order : List (String × AgentInfo)
  custom : String
  userAgent : String

/-- The header matches the agent. An empty pattern matches nothing. -/
def AgentInfo.AnswersTo (info : AgentInfo) (userAgent : String) : Prop :=
  info.pattern ≠ "" ∧ containsText info.pattern userAgent

instance (info : AgentInfo) (userAgent : String) : Decidable (info.AnswersTo userAgent) :=
  inferInstanceAs (Decidable (_ ∧ _))

namespace AgentRegistry

/-- The agents that the constructor takes from the configuration: of two with one id the
first, and not more than `maxKnownAgents`. -/
def configured (config : AgentRegistryConfig) : List (String × AgentInfo) :=
  (new config).agents.entries

/-- The registry after a request. Any order of its entries may be the map's. -/
def serveRequest (r : AgentRegistry) (q : AgentRequest) : Option AgentRegistry :=
  if q.order.Perm r.agents.entries then some (r.identifyAgent q.order q.custom q.userAgent).2
  else none

/-! ## Which agents are known -/

variable {r r' : AgentRegistry}

/-- Agents have been added, none has changed. -/
def Grown (r r' : AgentRegistry) : Prop := r.agents.entries <+: r'.agents.entries

theorem Grown.autoRegister (userAgent : String) : Grown r (r.autoRegister userAgent).2 := by
  rw [AgentRegistry.autoRegister]
  dsimp only
  split
  · exact List.prefix_rfl
  · split
    · exact List.prefix_rfl
    · next hnew =>
      split
      · exact List.prefix_rfl
      · rw [KeyedMap.find_isSome_iff] at hnew
        rw [Grown, KeyedMap.entries_set_new hnew]
        exact List.prefix_append _ _

theorem Grown.autoDetect (userAgent : String) : Grown r (r.autoDetect userAgent).2 := by
  have hregister : Grown r (r.autoRegister userAgent).2 := Grown.autoRegister userAgent
  rw [AgentRegistry.autoDetect]
  generalize r.autoRegister userAgent = found at hregister ⊢
  split
  · exact hregister
  · exact List.prefix_rfl

theorem Grown.identifyAgent (order : List (String × AgentInfo)) (custom userAgent : String) :
    Grown r (r.identifyAgent order custom userAgent).2 := by
  rw [AgentRegistry.identifyAgent]
  split
  · split
    · exact List.prefix_rfl
    · exact Grown.autoDetect custom
  · split
    · exact List.prefix_rfl
    · split
      · exact List.prefix_rfl
      · exact Grown.autoDetect userAgent

theorem grown_of_exec {history : List AgentRequest}
    (hexec : exec serveRequest r history = some r') : Grown r r' := by
  refine exec_induction (I := fun _ s => Grown r s) ?_ (h := []) hexec List.prefix_rfl
  intro _ s q s' hstep hgrown
  rw [serveRequest] at hstep
  split at hstep
  · obtain rfl := Option.some.inj hstep
    exact hgrown.trans (Grown.identifyAgent q.order q.custom q.userAgent)
  · cases hstep

/-! ## By the header `User-Agent` -/

/-- The first agent of the order that answers is the one. -/
theorem identifyAgent_of_find {order : List (String × AgentInfo)} {userAgent : String}
    {d : String × AgentInfo} (hne : userAgent ≠ "")
    (hfind : (order.find? fun e => e.2.AnswersTo userAgent) = some d) :
    (r.identifyAgent order "" userAgent).1 = some d.1 := by
  have hfind' : (order.find? fun e => e.2.pattern ≠ "" ∧ containsText e.2.pattern userAgent) =
      some d := hfind
  rw [identifyAgent, if_neg (fun h => h rfl), if_neg hne, hfind']

theorem AnswersTo.userAgent_ne {info : AgentInfo} {userAgent : String}
    (h : info.AnswersTo userAgent) : userAgent ≠ "" := by
  rintro rfl
  obtain ⟨hne, hcontains⟩ := h
  apply hne
  have hempty : info.pattern.toList.isPrefixOf [] = true := by
    simpa [containsText] using hcontains
  rw [List.isPrefixOf_iff_prefix, List.prefix_nil] at hempty
  simpa using hempty

/-- **A request is taken for the configured agent that it names, unless it also names one that
was met by chance.** After any requests, let exactly one configured agent answer to the
header. It is the one found in every order of the map, exactly if no other known agent
answers. -/
theorem identified_iff_none_detected (config : AgentRegistryConfig) {history : List AgentRequest}
    {r : AgentRegistry} (hexec : exec serveRequest (new config) history = some r)
    {e : String × AgentInfo} {userAgent : String}
    (hone : (configured config).filter (fun d => d.2.AnswersTo userAgent) = [e]) :
    (∀ order : List (String × AgentInfo), order.Perm r.agents.entries →
        (r.identifyAgent order "" userAgent).1 = some e.1) ↔
      ∀ d ∈ r.agents.entries, d ∉ configured config → ¬ d.2.AnswersTo userAgent := by
  have hmem : e ∈ (configured config).filter fun d => d.2.AnswersTo userAgent := by
    rw [hone]
    exact List.mem_singleton_self e
  obtain ⟨hconfigured, hanswers⟩ := List.mem_filter.mp hmem
  have hanswers : e.2.AnswersTo userAgent := by simpa using hanswers
  have hne : userAgent ≠ "" := AnswersTo.userAgent_ne hanswers
  have hknown : e ∈ r.agents.entries := (grown_of_exec hexec).subset hconfigured
  constructor
  · -- an order that has the other agent first finds it
    intro hall d hd hnew hdanswers
    have hfirst : ((d :: r.agents.entries.erase d).find? fun e => e.2.AnswersTo userAgent) =
        some d := List.find?_cons_of_pos (by simpa using hdanswers)
    have hfound := identifyAgent_of_find (r := r) hne hfirst
    rw [hall _ (List.perm_cons_erase hd).symm] at hfound
    have heq : e.1 = d.1 := Option.some.inj hfound
    have hd' : r.agents.find e.1 = some d.2 := KeyedMap.find_of_mem (heq ▸ hd)
    have he : r.agents.find e.1 = some e.2 := KeyedMap.find_of_mem hknown
    exact hnew (Prod.ext heq (Option.some.inj (he.symm.trans hd')) ▸ hconfigured)
  · intro hnone order hperm
    have hmatch : (order.find? fun d => d.2.AnswersTo userAgent).isSome := by
      rw [List.find?_isSome]
      exact ⟨e, hperm.mem_iff.mpr hknown, by simpa using hanswers⟩
    obtain ⟨d, hd⟩ := Option.isSome_iff_exists.mp hmatch
    have hdanswers : d.2.AnswersTo userAgent := by simpa using List.find?_some hd
    have hdmem : d ∈ r.agents.entries := hperm.mem_iff.mp (List.mem_of_find?_eq_some hd)
    -- what is found is configured, so it is the one
    have hdconfigured : d ∈ configured config := by
      by_contra hnew
      exact hnone d hdmem hnew hdanswers
    have hdfilter : d ∈ (configured config).filter fun d => d.2.AnswersTo userAgent :=
      List.mem_filter.mpr ⟨hdconfigured, by simpa using hdanswers⟩
    rw [hone] at hdfilter
    obtain rfl := List.mem_singleton.mp hdfilter
    exact identifyAgent_of_find hne hd

/-- One of the agents that the registry comes with. -/
def cursor : String × AgentInfo :=
  ("cursor-ide", ⟨"cursor-ide", "Cursor IDE", "Cursor", .CRITICAL, true, false⟩)

/-- A request of something else. -/
def curlRequest : AgentRequest := ⟨configured {}, "", "curl/8.5"⟩

theorem identified_iff_none_detected_cursor :
    ∃ r, exec serveRequest (new {}) [curlRequest] = some r ∧ r.agents.size = 5 ∧
      ∀ order : List (String × AgentInfo), order.Perm r.agents.entries →
        (r.identifyAgent order "" "Cursor/0.4").1 = some "cursor-ide" := by
  refine ⟨_, rfl, by decide, ?_⟩
  have hone : (configured {}).filter (fun d => d.2.AnswersTo "Cursor/0.4") = [cursor] := by
    decide
  exact (@identified_iff_none_detected {} [curlRequest] _ rfl cursor _ hone).mpr (by decide)

/-- A browser comes by, and the agent it is taken for answers to every header that begins
like its own. -/
def browserRequest : AgentRequest := ⟨configured {}, "", "Mozilla/5.0"⟩

/-- What has become an agent by chance, in front of the configured ones. -/
def browserFirst : List (String × AgentInfo) :=
  ("mozilla", ⟨"mozilla", "Mozilla", "Mozilla", .NORMAL, true, false⟩) :: configured {}

/-- Of the configured agents only one is named in the header, and the request is taken for
another. -/
theorem browserRequest_misidentified :
    (configured {}).filter (fun d => d.2.AnswersTo "Mozilla/5.0 Cursor/0.4") = [cursor] ∧
      ∃ r, exec serveRequest (new {}) [browserRequest] = some r ∧
        browserFirst.Perm r.agents.entries ∧
        (r.identifyAgent browserFirst "" "Mozilla/5.0 Cursor/0.4").1 = some "mozilla" := by
  refine ⟨by decide, _, rfl, by decide, by decide⟩

end AgentRegistry

end Ranvier
