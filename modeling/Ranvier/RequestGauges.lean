import Mathlib.Algebra.BigOperators.Pi
import Mathlib.Algebra.Order.BigOperators.Group.Finset
import Ranvier.BodyWriter
import Ranvier.Parties

/-!
# The gauges of active requests

`handle_proxy` counts a request in up to three gauges: the active requests, the active
requests of its priority tier and the load of the shard. The first is in the hands of a
guard until the request is priced and routed; then the guard is released, and from there
on every exit has to count the request out by itself.

* `RequestPath.ops` — what a request does to the gauges on its way through the handler;
* `balanced_iff` — the ways on which it counts itself out as often as in;
* `gauges_balance` — the same, and what it means for **every interleaving** of requests.
-/

namespace Ranvier

inductive PriorityLevel : Type where
  | CRITICAL
  | HIGH
  | NORMAL
  | LOW
  deriving DecidableEq, Repr

/-- `_active_requests` and `_active_by_priority` of the metrics, `_active_requests` of the
shard's load. -/
inductive Gauge : Type where
  | activeRequests
  | activeByPriority (tier : PriorityLevel)
  | shardActive
  deriving DecidableEq, Repr

inductive GaugeOp : Type where
  | increment (g : Gauge)
  | decrement (g : Gauge)
  deriving DecidableEq, Repr

/-! ## The ways through the handler -/

/-- The replies given before the request is counted. -/
inductive Rejection : Type where
  | draining
  | gateClosed
  | concurrencyLimit
  | persistenceQueue
  deriving DecidableEq, Repr

/-- The exits while the guard is held. -/
inductive EarlyExit : Type where
  | bodyTooLarge
  | tokenizerNotLoaded
  | invalidTokens
  | noBackend
  | circuitOpen
  | addressNotFound
  | threw
  deriving DecidableEq, Repr

/-- Where `handle_proxy` and the writer it leaves behind come to their end. -/
inductive ProxyExit : Type where
  | rejected (why : Rejection)
  | early (why : EarlyExit)
  /-- the admission policy says no -/
  | admissionRejected
  /-- an exception behind the release of the guard, before the tier is counted -/
  | admissionThrew
  /-- no concurrency slot; the tiers may have been switched on or off meanwhile -/
  | slotRejected (tierEnabled : Bool)
  /-- an exception between the tier's count and the body writer -/
  | slotThrew
  | bodyWriter (r : ProxyRequest) (e : WriterEnd) (left : r.writerEnd = some e)

/-- A request's way through the handler, with what it finds there. The load metrics of a
shard are set up once and never taken down. -/
structure RequestPath : Type where
  /-- `shard_metrics_active` -/
  shardMetricsActive : Bool
  /-- `shard_load_metrics_initialized()` at the end -/
  shardMetricsAtEnd : Bool
  shardMetrics_kept : shardMetricsActive = true → shardMetricsAtEnd = true
  priorityTierEnabled : Bool
  priority : PriorityLevel
  exit : ProxyExit

namespace RequestPath

/-- What is counted at ingress; the second is the guard's. -/
def countIn (p : RequestPath) : List GaugeOp :=
  (if p.shardMetricsActive then [.increment .shardActive] else []) ++
    [GaugeOp.increment .activeRequests]

def countTier (p : RequestPath) : List GaugeOp :=
  if p.priorityTierEnabled then [.increment (.activeByPriority p.priority)] else []

/-- The decrements at the exits of the body writer; that of the tier has no condition. -/
def countOut (p : RequestPath) : List GaugeOp :=
  [GaugeOp.decrement .activeRequests, .decrement (.activeByPriority p.priority)] ++
    if p.shardMetricsActive && p.shardMetricsAtEnd then [.decrement .shardActive] else []

/-- What the body writer does where it is left; an exception from a send passes it by. -/
def writerOps (p : RequestPath) : WriterEnd → List GaugeOp
  | .connectionFailed => p.countOut
  | .sendFailed => p.countOut
  | .sendThrew => []
  | .streamThrew => p.countOut
  | .retrySendThrew => []
  | .retryStreamThrew => p.countOut
  | .completed => p.countOut

/-- What the request does to the gauges, in order. -/
def ops (p : RequestPath) : List GaugeOp :=
  match p.exit with
  | .rejected _ => []
  | .early _ => p.countIn ++ [.decrement .activeRequests]
  | .admissionRejected => p.countIn
  | .admissionThrew => p.countIn
  | .slotRejected tierEnabled =>
    p.countIn ++ p.countTier ++
      if tierEnabled then [.decrement (.activeByPriority p.priority)] else []
  | .slotThrew => p.countIn ++ p.countTier
  | .bodyWriter _ e _ => p.countIn ++ p.countTier ++ p.writerOps e

/-- Each gauge is decremented as often as it is incremented. -/
def Balanced (p : RequestPath) : Prop :=
  ∀ g, p.ops.count (.decrement g) = p.ops.count (.increment g)

end RequestPath

/-- A send of the request ends with an exception that is no connection error. -/
def ProxyRequest.SendThrows (r : ProxyRequest) : Prop :=
  r.connected = true ∧ (r.firstSend = .exception ∨
    r.firstSend = .sent ∧ r.retriesStale = true ∧ r.fresh = true ∧ r.secondSend = .exception)

/-- The request is not counted at all, or leaves under the guard on a shard without load
metrics, or is counted in its tier and gets to the body writer, and no send throws. -/
def RequestPath.CountsOut (p : RequestPath) : Prop :=
  match p.exit with
  | .rejected _ => True
  | .early _ => p.shardMetricsActive = false
  | .bodyWriter r _ _ => p.priorityTierEnabled = true ∧ ¬r.SendThrows
  | _ => False

/-! ## What a list of operations leaves to be counted out -/

/-- The integers that the gauges' 64-bit words stand for: a gauge that wraps below zero
is a negative one. -/
abbrev Gauges : Type := Gauge → ℤ

def GaugeOp.apply : GaugeOp → Gauges → Gauges
  | .increment g, v => Function.update v g (v g + 1)
  | .decrement g, v => Function.update v g (v g - 1)

/-- How often the operations decrement the gauge beyond incrementing it. -/
def owed (ops : List GaugeOp) (g : Gauge) : ℤ :=
  ops.count (.decrement g) - ops.count (.increment g)

section Owed

variable {g : Gauge} {ops rest : List GaugeOp}

@[simp] theorem owed_nil (g : Gauge) : owed [] g = 0 := rfl

theorem owed_increment (g' : Gauge) :
    owed (.increment g' :: ops) g = owed ops g - if g' = g then 1 else 0 := by
  by_cases h : g' = g
  · subst h
    simp [owed]
    omega
  · simp [owed, h]

theorem owed_decrement (g' : Gauge) :
    owed (.decrement g' :: ops) g = owed ops g + if g' = g then 1 else 0 := by
  by_cases h : g' = g
  · subst h
    simp [owed]
    omega
  · simp [owed, h]

/-- What an operation adds to a gauge is owed from then on. -/
theorem apply_sub_owed (op : GaugeOp) (ops : List GaugeOp) (v : Gauges) (g : Gauge) :
    op.apply v g - owed ops g = v g - owed (op :: ops) g := by
  cases op with
  | increment g' =>
    rw [owed_increment, GaugeOp.apply]
    by_cases h : g' = g
    · subst h
      rw [Function.update_self, if_pos rfl]
      omega
    · rw [Function.update_of_ne (Ne.symm h), if_neg h]
      omega
  | decrement g' =>
    rw [owed_decrement, GaugeOp.apply]
    by_cases h : g' = g
    · subst h
      rw [Function.update_self, if_pos rfl]
      omega
    · rw [Function.update_of_ne (Ne.symm h), if_neg h]
      omega

/-- All increments come before all decrements. -/
def UpThenDown (ops : List GaugeOp) : Prop :=
  ∃ ups downs, ops = ups ++ downs ∧ (∀ op ∈ ups, ∃ g, op = .increment g) ∧
    ∀ op ∈ downs, ∃ g, op = .decrement g

theorem owed_downs {downs : List GaugeOp} (h : ∀ op ∈ downs, ∃ g, op = .decrement g) :
    0 ≤ owed downs g := by
  induction downs with
  | nil => exact le_refl 0
  | cons op downs ih =>
    obtain ⟨g', rfl⟩ := h op List.mem_cons_self
    have hrest := ih fun op hop => h op (List.mem_cons_of_mem _ hop)
    rw [owed_decrement]
    split <;> omega

/-- Where the increments come first, no rest owes less than the whole. -/
theorem UpThenDown.owed_suffix (h : UpThenDown ops) (howed : 0 ≤ owed ops g)
    (hrest : rest <:+ ops) : 0 ≤ owed rest g := by
  obtain ⟨ups, downs, rfl, hups, hdowns⟩ := h
  induction ups with
  | nil => exact owed_downs fun op hop => hdowns op (hrest.mem hop)
  | cons op ups ih =>
    obtain ⟨g', rfl⟩ := hups op List.mem_cons_self
    rw [List.cons_append] at howed hrest
    obtain rfl | hrest := List.suffix_cons_iff.mp hrest
    · exact howed
    · refine ih ?_ hrest fun op hop => hups op (List.mem_cons_of_mem _ hop)
      rw [owed_increment] at howed
      split at howed <;> omega

end Owed

/-! ## One request -/

section Requests

variable {p : RequestPath} {r : ProxyRequest} {e : WriterEnd}

namespace RequestPath

theorem countIn_up {op : GaugeOp} (h : op ∈ p.countIn ++ p.countTier) :
    ∃ g, op = .increment g := by
  rw [countIn, countTier] at h
  split at h <;> split at h <;> simp at h <;> grind

theorem countOut_down {op : GaugeOp} (h : op ∈ p.countOut) : ∃ g, op = .decrement g := by
  rw [countOut] at h
  split at h <;> simp at h <;> grind

theorem upThenDown (p : RequestPath) : UpThenDown p.ops := by
  have hin : ∀ op ∈ p.countIn, ∃ g, op = .increment g := fun op hop =>
    countIn_up (List.mem_append_left _ hop)
  rw [ops]
  cases p.exit with
  | rejected why => exact ⟨[], [], rfl, nofun, nofun⟩
  | early why => exact ⟨_, _, rfl, hin, by simp⟩
  | admissionRejected => exact ⟨_, [], (List.append_nil _).symm, hin, nofun⟩
  | admissionThrew => exact ⟨_, [], (List.append_nil _).symm, hin, nofun⟩
  | slotRejected tierEnabled =>
    refine ⟨_, _, rfl, fun op hop => countIn_up hop, ?_⟩
    split <;> simp
  | slotThrew => exact ⟨_, [], (List.append_nil _).symm, fun op hop => countIn_up hop, nofun⟩
  | bodyWriter r e left =>
    refine ⟨_, _, rfl, fun op hop => countIn_up hop, ?_⟩
    cases e with
    | sendThrew => nofun
    | retrySendThrew => nofun
    | _ => exact fun op hop => countOut_down hop

/-- The second send throws just if that is where the body writer is left. -/
theorem retryEnd_threw_iff (left : r.retryEnd = some e) :
    r.fresh = true ∧ r.secondSend = .exception ↔ e = .sendThrew ∨ e = .retrySendThrew := by
  rw [ProxyRequest.retryEnd] at left
  split at left
  · next hfresh =>
    cases hsend : r.secondSend with
    | sent =>
      simp only [hsend] at left
      obtain ⟨exit, -, rfl⟩ := Option.map_eq_some_iff.mp left
      cases exit <;> simp
    | _ =>
      simp only [hsend] at left
      obtain rfl := Option.some.inj left
      simp [hfresh]
  · next hfresh =>
    obtain rfl := Option.some.inj left
    simp [hfresh]

/-- A send throws just if that is where the body writer is left. -/
theorem sendThrows_iff (left : r.writerEnd = some e) :
    r.SendThrows ↔ e = .sendThrew ∨ e = .retrySendThrew := by
  rw [ProxyRequest.writerEnd] at left
  rw [ProxyRequest.SendThrows]
  split at left
  · next hconnected =>
    cases hsend : r.firstSend with
    | sent =>
      simp only [hsend] at left
      split at left
      · next hstale =>
        rw [← retryEnd_threw_iff left]
        simp [hconnected, hstale]
      · next hstale =>
        obtain ⟨exit, -, rfl⟩ := Option.map_eq_some_iff.mp left
        cases exit <;> simp [hstale]
    | _ =>
      simp only [hsend] at left
      obtain rfl := Option.some.inj left
      simp [hconnected]
  · next hconnected =>
    obtain rfl := Option.some.inj left
    simp [hconnected]

theorem owed_append (ops rest : List GaugeOp) (g : Gauge) :
    owed (ops ++ rest) g = owed ops g + owed rest g := by
  rw [owed, owed, owed, List.count_append, List.count_append]
  omega

theorem balanced_iff_owed : p.Balanced ↔ ∀ g, owed p.ops g = 0 := by
  refine forall_congr' fun g => ?_
  rw [owed]
  omega

theorem owed_countIn (g : Gauge) :
    owed p.countIn g = -(if p.shardMetricsActive = true ∧ g = .shardActive then 1 else 0) -
      if g = .activeRequests then 1 else 0 := by
  rw [countIn, owed_append]
  cases p.shardMetricsActive with
  | false => simp [owed_increment, eq_comm]
  | true => simp [owed_increment, eq_comm, sub_eq_add_neg]

theorem owed_countTier (g : Gauge) :
    owed p.countTier g =
      -if p.priorityTierEnabled = true ∧ g = .activeByPriority p.priority then 1 else 0 := by
  rw [countTier]
  cases p.priorityTierEnabled with
  | false => simp
  | true => simp [owed_increment, eq_comm]

theorem owed_countOut (g : Gauge) :
    owed p.countOut g = (if p.shardMetricsActive = true ∧ g = .shardActive then 1 else 0) +
      (if g = .activeRequests then 1 else 0) +
        if g = .activeByPriority p.priority then 1 else 0 := by
  have hkept := p.shardMetrics_kept
  rw [countOut, owed_append, owed_decrement, owed_decrement]
  cases hactive : p.shardMetricsActive with
  | false => simp [eq_comm, add_comm]
  | true =>
    simp [hkept hactive, owed_decrement, eq_comm]
    omega

/-- Counted among the active requests, and never out of them again. -/
theorem not_balanced {rest : List GaugeOp} (hops : p.ops = p.countIn ++ rest)
    (hrest : owed rest .activeRequests = 0) : ¬∀ g, owed p.ops g = 0 := by
  intro hall
  have hactive := hall .activeRequests
  simp [hops, owed_append, owed_countIn, hrest] at hactive

/-- Every end of the body writer at which it counts out leaves the tier's gauge one short
if the tier was not counted. -/
theorem balanced_countOut :
    (∀ g, owed (p.countIn ++ p.countTier ++ p.countOut) g = 0) ↔ p.priorityTierEnabled = true := by
  have hout : ∀ g, owed (p.countIn ++ p.countTier ++ p.countOut) g =
      if p.priorityTierEnabled = false ∧ g = .activeByPriority p.priority then 1 else 0 := by
    intro g
    rw [owed_append, owed_append, owed_countIn, owed_countTier, owed_countOut]
    cases p.priorityTierEnabled <;> simp <;> omega
  simp only [hout]
  cases p.priorityTierEnabled with
  | false => simp
  | true => simp

/-- Which ways through the handler count out as often as in. -/
theorem balanced_iff : p.Balanced ↔ p.CountsOut := by
  rw [balanced_iff_owed, CountsOut]
  cases hexit : p.exit with
  | rejected why => simp [ops, hexit]
  | early why =>
    simp only [ops, hexit, owed_append, owed_countIn, owed_decrement]
    constructor
    · intro hall
      have hshard := hall .shardActive
      cases hactive : p.shardMetricsActive with
      | false => rfl
      | true => simp [hactive] at hshard
    · intro hoff g
      simp [hoff, eq_comm]
  | admissionRejected =>
    refine iff_of_false (not_balanced ?_ (owed_nil _)) not_false
    rw [ops, hexit, List.append_nil]
  | admissionThrew =>
    refine iff_of_false (not_balanced ?_ (owed_nil _)) not_false
    rw [ops, hexit, List.append_nil]
  | slotRejected tierEnabled =>
    have hops : p.ops = p.countIn ++ p.countTier ++
        if tierEnabled then [.decrement (.activeByPriority p.priority)] else [] := by
      rw [ops, hexit]
    refine iff_of_false (not_balanced (hops.trans (List.append_assoc _ _ _)) ?_) not_false
    rw [owed_append, owed_countTier]
    cases tierEnabled <;> simp [owed_decrement]
  | slotThrew =>
    refine iff_of_false (not_balanced (by rw [ops, hexit]) ?_) not_false
    simp [owed_countTier]
  | bodyWriter r e left =>
    have hops : p.ops = p.countIn ++ p.countTier ++ p.writerOps e := by rw [ops, hexit]
    simp only [sendThrows_iff left]
    cases e with
    | sendThrew =>
      refine iff_of_false (not_balanced (hops.trans (List.append_assoc _ _ _)) ?_) (by simp)
      simp [owed_countTier, writerOps]
    | retrySendThrew =>
      refine iff_of_false (not_balanced (hops.trans (List.append_assoc _ _ _)) ?_) (by simp)
      simp [owed_countTier, writerOps]
    | _ => simpa [hops, writerOps] using balanced_countOut

end RequestPath

end Requests

/-! ## All requests of a shard -/

/-- A request's next operation on the gauges. -/
def takeOp (rest : List GaugeOp) (v : Gauges) (_ : Unit) : Option (List GaugeOp × Gauges) :=
  match rest with
  | [] => none
  | op :: rest => some (rest, op.apply v)

section Interleavings

variable {ι : Type} [Fintype ι]

/-- The requests before they arrive, and the gauges as they find them. -/
def arriving (paths : ι → RequestPath) (start : Gauge → ℕ) :
    Parties.World ι (List GaugeOp) Gauges :=
  ⟨fun i => (paths i).ops, fun g => start g⟩

variable {paths : ι → RequestPath} {start : Gauge → ℕ}
  {s s' : Parties.World ι (List GaugeOp) Gauges} {t : ι × Unit} {run : List (ι × Unit)}

/-- Each request is at some point of its way, and the gauges are off their start by what
the requests still owe. -/
structure GaugesOwed (paths : ι → RequestPath) (start : Gauge → ℕ)
    (s : Parties.World ι (List GaugeOp) Gauges) : Prop where
  rest : ∀ i, s.parts i <:+ (paths i).ops
  accounts : Parties.Accounts owed (fun v g => v g - start g) s

theorem gaugesOwed_arriving (hout : ∀ i, (paths i).CountsOut) :
    GaugesOwed paths start (arriving paths start) where
  rest _ := List.suffix_refl _
  accounts := by
    have hnone : ∀ i, owed (paths i).ops = 0 := fun i =>
      funext (RequestPath.balanced_iff_owed.mp (RequestPath.balanced_iff.mpr (hout i)))
    simp only [Parties.Accounts, arriving, hnone, sub_self, Finset.sum_const_zero]
    rfl

variable [DecidableEq ι]

/-- **One operation** of one request. -/
theorem GaugesOwed.step (h : GaugesOwed paths start s) (hstep : Parties.step takeOp s t = some s') :
    GaugesOwed paths start s' where
  rest := by
    refine Parties.local_step (I := fun i rest => rest <:+ (paths i).ops) ?_ hstep h.rest
    intro rest' v' htake hsuffix
    cases hrest : s.parts t.1 with
    | nil =>
      rw [hrest] at htake
      cases htake
    | cons op rest =>
      rw [hrest] at htake hsuffix
      obtain ⟨rfl, -⟩ := Prod.mk.inj (Option.some.inj htake)
      exact (List.suffix_cons op rest).trans hsuffix
  accounts := by
    refine h.accounts.step (S := ⊤) (fun _ => trivial) ?_ hstep
    intro rest' v' htake others _ hbefore
    cases hrest : s.parts t.1 with
    | nil =>
      rw [hrest] at htake
      cases htake
    | cons op rest =>
      rw [hrest] at htake hbefore
      obtain ⟨rfl, rfl⟩ := Prod.mk.inj (Option.some.inj htake)
      funext g
      have hg := congrFun hbefore g
      have hop := apply_sub_owed op rest s.shared g
      simp only [Pi.add_apply] at hg ⊢
      omega

theorem gaugesOwed_run (hout : ∀ i, (paths i).CountsOut)
    (hexec : exec (Parties.step takeOp) (arriving paths start) run = some s) :
    GaugesOwed paths start s :=
  exec_induction (I := fun _ => GaugesOwed paths start) (fun hstep h => h.step hstep) (h := [])
    hexec (gaugesOwed_arriving hout)

omit [DecidableEq ι] in
theorem GaugesOwed.shared_sub (h : GaugesOwed paths start s) (g : Gauge) :
    s.shared g - start g = ∑ i, owed (s.parts i) g :=
  (congrFun h.accounts g).trans (Finset.sum_apply g _ _)

omit [DecidableEq ι] in
/-- The requests in flight owe no gauge a negative amount. -/
theorem GaugesOwed.start_le (h : GaugesOwed paths start s) (hout : ∀ i, (paths i).CountsOut)
    (g : Gauge) : (start g : ℤ) ≤ s.shared g := by
  have hnonneg : 0 ≤ ∑ i, owed (s.parts i) g := by
    refine Finset.sum_nonneg fun i _ => ?_
    refine (paths i).upThenDown.owed_suffix (le_of_eq ?_) (h.rest i)
    exact (RequestPath.balanced_iff_owed.mp (RequestPath.balanced_iff.mpr (hout i)) g).symm
  have hsub := h.shared_sub g
  omega

omit [DecidableEq ι] in
/-- Once all requests have finished, nothing is owed. -/
theorem GaugesOwed.eq_start (h : GaugesOwed paths start s) (hdone : ∀ i, s.parts i = [])
    (g : Gauge) : s.shared g = start g := by
  have hsub := h.shared_sub g
  simp only [hdone, owed_nil, Finset.sum_const_zero] at hsub
  omega

/-- **Gauges.** A request decrements each gauge exactly as often as it increments it just
if its way through the handler counts it out. In every interleaving of requests that all
do, no gauge ever falls below its start, and each is back there once all have finished. -/
theorem gauges_balance (paths : ι → RequestPath) :
    (∀ i, (paths i).Balanced ↔ (paths i).CountsOut) ∧
    ((∀ i, (paths i).CountsOut) → ∀ start run s,
      exec (Parties.step takeOp) (arriving paths start) run = some s →
        (∀ g, 0 ≤ s.shared g ∧ (start g : ℤ) ≤ s.shared g) ∧
        ((∀ i, s.parts i = []) → ∀ g, s.shared g = start g)) := by
  refine ⟨fun i => RequestPath.balanced_iff, fun hout start run s hexec => ?_⟩
  have howed := gaugesOwed_run hout hexec
  refine ⟨fun g => ?_, howed.eq_start⟩
  have hle := howed.start_le hout g
  exact ⟨(Int.natCast_nonneg _).trans hle, hle⟩

end Interleavings

/-- A request that is answered while the priority tiers are switched off. -/
def untieredPath : RequestPath where
  shardMetricsActive := true
  shardMetricsAtEnd := true
  shardMetrics_kept := id
  priorityTierEnabled := false
  priority := .NORMAL
  exit := .bodyWriter staleRequest .completed (by decide)

/-- It is counted out of a tier it was never counted in, whose gauge wraps. -/
theorem untiered_request_wraps :
    ¬untieredPath.Balanced ∧
      (exec (Parties.step takeOp) (arriving (fun _ : Unit => untieredPath) fun _ => 0)
        (List.replicate 5 ((), ()))).map
          (fun s => (s.parts (), s.shared (.activeByPriority .NORMAL))) = some ([], -1) := by
  refine ⟨fun hbalanced => ?_, by decide⟩
  have htier := hbalanced (.activeByPriority .NORMAL)
  revert htier
  decide

end Ranvier
