import Ranvier.Backends
import Ranvier.PrefixHash

/-!
# EndpointSlices

What the discovery service reads out of an EndpointSlice: the annotations of the
slice apply to all its endpoints, the first port is the port of all of them, and
each address of an endpoint is an endpoint of its own. The uid of the pod is the
uid of the endpoint, or the address if there is none.

A slice is taken as the members the parser asks for; a member that is missing and
one of another type are the same to it.
-/

namespace Ranvier

/-- `K8S_DEFAULT_WEIGHT`. -/
def k8sDefaultWeight : ℕ := 100

/-- `K8S_DEFAULT_PRIORITY`. -/
def k8sDefaultPriority : ℕ := 0

/-- `K8S_MAX_WEIGHT`. -/
def k8sMaxWeight : ℕ := 1000000

/-- `K8S_MAX_PRIORITY`. -/
def k8sMaxPriority : ℕ := 1000

/-! ## Annotation values -/

/-- `parse_uint32`: decimal digits only, within 32 bits. -/
def parseUint32 (input : String) : Option ℕ :=
  let digits := input.toList
  if digits = [] then none
  else if digits.head? = some '-' then none
  else if digits.all Char.isDigit then
    let value := digits.foldl (fun n c => 10 * n + (c.toNat - '0'.toNat)) 0
    if value < 2 ^ 32 then some value else none
  else none

open BackendType in
/-- `parse_backend_type`. -/
def parseBackendType : String → Option BackendType
  | "vllm" => some .VLLM
  | "sglang" => some .SGLANG
  | "trt_llm" => some .TRT_LLM
  | "ollama" => some .OLLAMA
  | "lm_studio" => some LM_STUDIO
  | "cerebras" => some .CEREBRAS
  | "openai_compatible" => some .OPENAI_COMPATIBLE
  | _ => none

/-- `parse_pool_role`. -/
def parsePoolRole : String → Option PoolRole
  | "unified" => some .UNIFIED
  | "prefill" => some .PREFILL
  | "decode" => some .DECODE
  | _ => none

/-- A number, clamped to its maximum; the default if there is none. -/
def clampedAnnotation (value : Option String) (default max : ℕ) : ℕ :=
  match value.bind parseUint32 with
  | some n => if max < n then max else n
  | none => default

/-- A port; `0` if there is none. -/
def portAnnotation (value : Option String) : ℕ :=
  match value.bind parseUint32 with
  | some n => if n ≤ 65535 then n else 0
  | none => 0

/-! ## Endpoints -/

/-- `K8sEndpoint`. -/
structure K8sEndpoint : Type where
  uid : String
  address : String
  port : ℕ
  ready : Bool
  weight : ℕ := k8sDefaultWeight
  priority : ℕ := k8sDefaultPriority
  type : BackendType := .VLLM
  role : PoolRole := .UNIFIED
  kvEventsPort : ℕ := 0
  kvEventsReplayPort : ℕ := 0
  apiKeySecretRef : String := ""
  deriving DecidableEq, Repr

/-- FNV-1a of the uid, cut to 31 bits. -/
def backendIdOf (uid : String) : BackendId :=
  ((uid.toUTF8.data.toList.foldl fnvStep fnvOffsetBasis) &&& 0x7FFFFFFF).toNat

/-- `K8sEndpoint::to_backend_id`. -/
def K8sEndpoint.toBackendId (ep : K8sEndpoint) : BackendId := backendIdOf ep.uid

/-- An element of the `endpoints` of a slice. -/
structure SliceEndpoint : Type where
  addresses : List String
  /-- `conditions.ready` -/
  ready : Option Bool := none
  /-- `targetRef.uid` -/
  targetUid : Option String := none
  deriving DecidableEq, Repr

/-- An EndpointSlice. -/
structure EndpointSlice : Type where
  endpoints : List SliceEndpoint
  /-- the `port` member of each element of `ports` -/
  ports : List (Option ℤ) := []
  annotations : List (String × String) := []
  deriving DecidableEq, Repr

namespace EndpointSlice

variable (targetPort : ℕ) (doc : EndpointSlice)

/-- The port of the first element of `ports`, as 16 bits; else the configured one. -/
def port : ℕ :=
  match doc.ports with
  | some p :: _ => (p % 65536).toNat
  | _ => targetPort

/-- The endpoint an address stands for. -/
def endpointAt (ep : SliceEndpoint) (address : String) : K8sEndpoint where
  uid := if ep.targetUid.getD "" = "" then address else ep.targetUid.getD ""
  address := address
  port := doc.port targetPort
  ready := ep.ready.getD true
  weight := clampedAnnotation (doc.annotations.lookup "ranvier.io/weight") k8sDefaultWeight
    k8sMaxWeight
  priority := clampedAnnotation (doc.annotations.lookup "ranvier.io/priority") k8sDefaultPriority
    k8sMaxPriority
  type := ((doc.annotations.lookup "ranvier.io/backend-type").bind parseBackendType).getD .VLLM
  role := ((doc.annotations.lookup "ranvier.io/pool-role").bind parsePoolRole).getD .UNIFIED
  kvEventsPort := portAnnotation (doc.annotations.lookup "ranvier.io/kv-events-port")
  kvEventsReplayPort := portAnnotation (doc.annotations.lookup "ranvier.io/kv-events-replay-port")
  apiKeySecretRef := (doc.annotations.lookup "ranvier.io/api-key-secret-ref").getD ""

/-- `parse_endpoint_slice`. -/
def parse : List K8sEndpoint :=
  doc.endpoints.flatMap fun ep => ep.addresses.map (doc.endpointAt targetPort ep)

/-- What is read out of a slice keeps the limits of the annotations. -/
theorem parse_bounds {ep : K8sEndpoint} (h : ep ∈ doc.parse targetPort) :
    ep.weight ≤ k8sMaxWeight ∧ ep.priority ≤ k8sMaxPriority ∧ ep.kvEventsPort ≤ 65535 ∧
      ep.kvEventsReplayPort ≤ 65535 := by
  have hclamped : ∀ value default max, default ≤ max →
      clampedAnnotation value default max ≤ max := by
    intro value default max hdefault
    unfold clampedAnnotation
    split
    · split <;> omega
    · exact hdefault
  have hport : ∀ value, portAnnotation value ≤ 65535 := by
    intro value
    unfold portAnnotation
    split
    · split <;> omega
    · omega
  obtain ⟨e, -, he⟩ := List.mem_flatMap.mp h
  obtain ⟨address, -, rfl⟩ := List.mem_map.mp he
  exact ⟨hclamped _ _ _ (by decide), hclamped _ _ _ (by decide), hport _, hport _⟩

example :
    ({ endpoints := [{ addresses := ["10.0.0.7"], targetUid := some "pod-7" },
          { addresses := ["10.0.0.8"], ready := some false }]
       ports := [some 8000]
       annotations := [("ranvier.io/weight", "2000000")] } : EndpointSlice).parse 8080 =
      [{ uid := "pod-7", address := "10.0.0.7", port := 8000, ready := true, weight := 1000000 },
        { uid := "10.0.0.8", address := "10.0.0.8", port := 8000, ready := false,
          weight := 1000000 }] := by
  decide

end EndpointSlice

end Ranvier
