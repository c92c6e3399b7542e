import Ranvier.NativeKv
import Ranvier.Run

/-!
# Shipments of native KV operations

The subscriber's worker thread hands the operations it has translated to shard 0
in shipments; shard 0 runs `apply_native_kv_ops` on each, a coroutine that sends
one segment or sweep at a time to all shards and waits for all of them before
it sends the next. Nothing makes a shipment wait for the one before it.

* `Shipping` — the worker's backlog, the posted and the in-flight shipments, the
  message queues of the shards and the shards themselves;
* `shipStep` — every interleaving of the worker, shard 0 and the deliveries;
* `shipments_sequential` — the shards end up as if all operations had been
  applied one after another, in every run in which a shipment starts only once
  the ones in flight have **sent all they have**;
* `shipments_out_of_order` — without that, a later shipment's store is wiped by
  an earlier shipment's `CLEAR`.
-/

namespace Ranvier

/-! ## Cutting operations into shipments -/

/-- `NativeKvOp::weight`. -/
def NativeKvOp.weight (op : NativeKvOp) : ℕ :=
  if op.kind ≠ .MATERIALIZE ∨ op.boundaryStep = 0 ∨ op.tokens.length < op.firstNewTokenCount then 1
  else 1 + ((op.tokens.length - op.firstNewTokenCount) / op.boundaryStep + 1)

/-- Take operations while their summed weight stays within the cap. -/
def fillChunk (maxOpsPerShipment : ℕ) (weight : ℕ) :
    List NativeKvOp → List NativeKvOp × List NativeKvOp
  | [] => ([], [])
  | op :: rest =>
    if maxOpsPerShipment < weight + op.weight then ([], op :: rest)
    else
      let r := fillChunk maxOpsPerShipment (weight + op.weight) rest
      (op :: r.1, r.2)

/-- The next shipment of `ship` and what is left; the first operation is taken
whatever it weighs. -/
def nextChunk (maxOpsPerShipment : ℕ) : List NativeKvOp → List NativeKvOp × List NativeKvOp
  | [] => ([], [])
  | op :: rest =>
    let r := fillChunk maxOpsPerShipment op.weight rest
    (op :: r.1, r.2)

theorem fillChunk_append (cap weight : ℕ) (ops : List NativeKvOp) :
    (fillChunk cap weight ops).1 ++ (fillChunk cap weight ops).2 = ops := by
  induction ops generalizing weight with
  | nil => rfl
  | cons op ops ih =>
    rw [fillChunk]
    split
    · rfl
    · simp [ih]

theorem nextChunk_append (cap : ℕ) (ops : List NativeKvOp) :
    (nextChunk cap ops).1 ++ (nextChunk cap ops).2 = ops := by
  cases ops with
  | nil => rfl
  | cons op ops => simp [nextChunk, fillChunk_append]

/-! ## State and steps -/

/-- The limits `ship` reads. -/
structure ShipConfig : Type where
  maxOpsPerShipment : ℕ
  maxInflightShipments : ℕ

/-- A running `apply_native_kv_ops`: it has sent a message and waits for all
shards to execute it; `unsent` is what it will send afterwards. -/
structure InFlight : Type where
  id : ℕ
  unsent : List NativeMessage
  deriving DecidableEq, Repr

/-- The subscriber, shard 0's task queue and the `n` shards. -/
structure Shipping (n : ℕ) : Type where
  shards : Fin n → ShardLocalState
  /-- messages on their way to a shard, each with the shipment it belongs to -/
  queues : Fin n → List (ℕ × NativeMessage)
  /-- the suspended coroutines, in the order they were started -/
  running : List InFlight
  /-- shipments posted by `alien::run_on` that shard 0 has not started yet -/
  posted : List (List NativeKvOp)
  /-- what the worker's current `ship` call has still to post -/
  backlog : List NativeKvOp
  /-- `_inflight` -/
  inflight : ℕ
  nextId : ℕ

/-- What can happen next. -/
inductive ShipAction (n : ℕ) : Type where
  /-- a batch arrives on the wire and `ship` is called with its operations -/
  | arrive (ops : List NativeKvOp)
  /-- `ship` posts its next chunk -/
  | post
  /-- shard 0 runs `on_shipment` for the oldest posted shipment -/
  | start
  /-- a shard executes the oldest message in its queue -/
  | deliver (shard : Fin n) (now : ℕ)
  /-- a coroutine whose message was executed everywhere resumes -/
  | resume (id : ℕ)

namespace Shipping

variable {n : ℕ}

/-- `invoke_on_all`: one message to each shard. -/
def send (id : ℕ) (m : NativeMessage) (c : Shipping n) : Shipping n :=
  { c with queues := fun k => c.queues k ++ [(id, m)] }

/-- Some shard has not executed the shipment's message yet. -/
def Awaited (c : Shipping n) (id : ℕ) : Prop := ∃ k, ∃ m ∈ c.queues k, m.1 = id

instance (c : Shipping n) (id : ℕ) : Decidable (c.Awaited id) :=
  inferInstanceAs (Decidable (∃ k, ∃ m ∈ c.queues k, m.1 = id))

/-- A coroutine moves on to the rest of its messages. -/
def setUnsent (id : ℕ) (unsent : List NativeMessage) (fs : List InFlight) : List InFlight :=
  fs.map fun f => if f.id = id then { f with unsent := unsent } else f

/-- Nothing is on its way. -/
structure Idle (c : Shipping n) : Prop where
  queues : ∀ k, c.queues k = []
  running : c.running = []
  posted : c.posted = []
  backlog : c.backlog = []

instance (c : Shipping n) : Decidable c.Idle :=
  decidable_of_iff
    ((∀ k, c.queues k = []) ∧ c.running = [] ∧ c.posted = [] ∧ c.backlog = [])
    ⟨fun ⟨hq, hr, hp, hb⟩ => ⟨hq, hr, hp, hb⟩, fun h => ⟨h.queues, h.running, h.posted, h.backlog⟩⟩

end Shipping

open Shipping in
/-- One step of the system. -/
def shipStep {n : ℕ} (cfg : ShipConfig) (c : Shipping n) : ShipAction n → Option (Shipping n)
  | .arrive ops =>
    -- the worker is inside `ship` until its last chunk is posted
    if c.backlog = [] then some { c with backlog := ops } else none
  | .post =>
    if c.backlog = [] ∨ cfg.maxInflightShipments ≤ c.inflight then none
    else
      let chunk := nextChunk cfg.maxOpsPerShipment c.backlog
      some { c with
        posted := c.posted ++ [chunk.1], backlog := chunk.2, inflight := c.inflight + 1 }
  | .start =>
    match c.posted with
    | [] => none
    | ops :: rest =>
      let c := { c with posted := rest }
      match shipmentMessages ops with
      | [] => some { c with inflight := c.inflight - 1 }
      | m :: unsent =>
        some (send c.nextId m
          { c with running := c.running ++ [⟨c.nextId, unsent⟩], nextId := c.nextId + 1 })
  | .deliver k now =>
    match c.queues k with
    | [] => none
    | m :: rest =>
      some { c with
        shards := Function.update c.shards k (m.2.deliver now (c.shards k))
        queues := Function.update c.queues k rest }
  | .resume id =>
    match c.running.find? (fun f => f.id = id) with
    | none => none
    | some f =>
      if c.Awaited id then none
      else
        match f.unsent with
        | [] =>
          some { c with
            running := c.running.filter (fun g => g.id ≠ id), inflight := c.inflight - 1 }
        | m :: unsent =>
          some (send id m { c with running := setUnsent id unsent c.running })

/-- The operations that arrived on the wire, in order. -/
def arrived {n : ℕ} : List (ShipAction n) → List NativeKvOp
  | [] => []
  | .arrive ops :: acts => ops ++ arrived acts
  | _ :: acts => arrived acts

/-- A shipment is started only when those in flight have sent all they have. -/
def StartsInOrder {n : ℕ} (c : Shipping n) : ShipAction n → Prop
  | .start => ∀ f ∈ c.running, f.unsent = []
  | _ => True

instance {n : ℕ} (c : Shipping n) (a : ShipAction n) : Decidable (StartsInOrder c a) :=
  match a with
  | .start => inferInstanceAs (Decidable (∀ f ∈ c.running, f.unsent = []))
  | .arrive _ | .post | .deliver _ _ | .resume _ => .isTrue trivial

/-- One shard applies operations one after another, with nothing in between. -/
def applySequentially (now : ℕ) (ops : List NativeKvOp) (s : ShardLocalState) : ShardLocalState :=
  deliverAll ((shipmentMessages ops).map fun m => (now, m)) s

theorem arrived_append {n : ℕ} (l₁ l₂ : List (ShipAction n)) :
    arrived (l₁ ++ l₂) = arrived l₁ ++ arrived l₂ := by
  induction l₁ with
  | nil => rfl
  | cons a l₁ ih => cases a <;> simp [arrived, ih]

theorem residency_applySequentially (now : ℕ) (ops : List NativeKvOp) (s : ShardLocalState) :
    (applySequentially now ops s).residency = s.residency.applyAll ops := by
  rw [applySequentially, residency_deliverAll]
  simp [Function.comp_def, Residency.receiveAll_shipmentMessages]

/-! ## Shipments in order

While the condition holds at most one coroutine, the youngest, has something
left to send. What a shard has applied, followed by what waits in its queue,
by what that coroutine will send, by the posted shipments and by the backlog,
is then always the sequence that arrived. -/

/-- The coroutines in start order: only the last may have messages to send. -/
def InOrder (fs : List InFlight) : Prop :=
  fs.Pairwise fun f g => f.unsent = [] ∧ f.id < g.id

/-- Everything the coroutines have still to send. -/
def unsentOf (fs : List InFlight) : List NativeMessage := fs.flatMap InFlight.unsent

theorem unsentOf_append (fs gs : List InFlight) :
    unsentOf (fs ++ gs) = unsentOf fs ++ unsentOf gs := List.flatMap_append

theorem unsentOf_eq_nil {fs : List InFlight} (h : ∀ f ∈ fs, f.unsent = []) :
    unsentOf fs = [] := by
  rw [unsentOf, List.flatMap_eq_nil_iff]
  exact h

/-- A coroutine with something to send is the youngest. -/
theorem InOrder.eq_concat {fs : List InFlight} (h : InOrder fs) {f : InFlight} (hf : f ∈ fs)
    (hne : f.unsent ≠ []) :
    ∃ pre, fs = pre ++ [f] ∧ ∀ g ∈ pre, g.unsent = [] ∧ g.id < f.id := by
  obtain ⟨pre, post, rfl⟩ := List.append_of_mem hf
  obtain ⟨-, hpost, hcross⟩ := List.pairwise_append.mp h
  cases post with
  | nil => exact ⟨pre, rfl, fun g hg => hcross g hg f (List.mem_singleton_self f)⟩
  | cons g post =>
    obtain ⟨hnil, -⟩ := (List.pairwise_cons.mp hpost).1 g List.mem_cons_self
    exact absurd hnil hne

/-- Two coroutines with one id are the same. -/
theorem InOrder.eq_of_id {fs : List InFlight} (h : InOrder fs) {f g : InFlight} (hf : f ∈ fs)
    (hg : g ∈ fs) (hid : f.id = g.id) : f = g := by
  have hids : (fs.map InFlight.id).Nodup :=
    List.pairwise_map.mpr (h.imp fun hfg => Nat.ne_of_lt hfg.2)
  exact List.inj_on_of_nodup_map hids hf hg hid

/-- A finished coroutine leaves the unsent messages as they are. -/
theorem InOrder.unsentOf_filter {fs : List InFlight} (h : InOrder fs) {f : InFlight}
    (hf : f ∈ fs) (hnil : f.unsent = []) :
    unsentOf (fs.filter fun g => g.id ≠ f.id) = unsentOf fs := by
  have hdropped : ∀ g ∈ fs, g.id = f.id → g.unsent = [] := by
    intro g hg hid
    rw [h.eq_of_id hg hf hid, hnil]
  clear h hf
  induction fs with
  | nil => rfl
  | cons g fs ih =>
    have ih := ih fun g' hg' => hdropped g' (List.mem_cons_of_mem _ hg')
    rcases eq_or_ne g.id f.id with hid | hid
    · have hg := hdropped g List.mem_cons_self hid
      rw [List.filter_cons_of_neg (by simpa using hid), ih]
      simp [unsentOf, hg]
    · rw [List.filter_cons_of_pos (by simpa using hid)]
      simpa [unsentOf] using ih

/-- The invariant of ordered runs. -/
structure ShipInv {n : ℕ} (c₀ : Shipping n) (history : List (ShipAction n)) (c : Shipping n) :
    Prop where
  inOrder : InOrder c.running
  ids : ∀ f ∈ c.running, f.id < c.nextId
  applied : ∀ k, (((c.shards k).residency.receiveAll ((c.queues k).map Prod.snd)).receiveAll
      (unsentOf c.running)).applyAll (c.posted.flatten ++ c.backlog) =
    (c₀.shards k).residency.applyAll (arrived history)

theorem InOrder.setUnsent_concat {pre : List InFlight} {f : InFlight}
    (hpre : ∀ g ∈ pre, g.unsent = [] ∧ g.id < f.id) (unsent : List NativeMessage) :
    Shipping.setUnsent f.id unsent (pre ++ [f]) = pre ++ [⟨f.id, unsent⟩] := by
  have hmap : pre.map (fun g => if g.id = f.id then { g with unsent := unsent } else g) = pre := by
    refine (List.map_congr_left ?_).trans (List.map_id pre)
    intro g hg
    rw [if_neg (Nat.ne_of_lt (hpre g hg).2), id]
  rw [Shipping.setUnsent, List.map_append, hmap]
  simp

section Step

variable {n : ℕ} {cfg : ShipConfig} {c₀ c c' : Shipping n} {history : List (ShipAction n)}

theorem ShipInv.arrive {ops : List NativeKvOp} (hinv : ShipInv c₀ history c)
    (hstep : shipStep cfg c (.arrive ops) = some c') :
    ShipInv c₀ (history ++ [.arrive ops]) c' := by
  simp only [shipStep] at hstep
  split at hstep
  · next hnil =>
    obtain rfl := Option.some.inj hstep
    refine ⟨hinv.inOrder, hinv.ids, ?_⟩
    intro k
    have happ := hinv.applied k
    rw [hnil, List.append_nil] at happ
    rw [arrived_append, Residency.applyAll_append, Residency.applyAll_append, happ]
    simp [arrived]
  · cases hstep

theorem ShipInv.post (hinv : ShipInv c₀ history c) (hstep : shipStep cfg c .post = some c') :
    ShipInv c₀ (history ++ [.post]) c' := by
  simp only [shipStep] at hstep
  split at hstep
  · cases hstep
  · obtain rfl := Option.some.inj hstep
    refine ⟨hinv.inOrder, hinv.ids, ?_⟩
    intro k
    have happ := hinv.applied k
    rw [← nextChunk_append cfg.maxOpsPerShipment c.backlog] at happ
    simpa [arrived_append, arrived] using happ

theorem ShipInv.deliver {k : Fin n} {now : ℕ} (hinv : ShipInv c₀ history c)
    (hstep : shipStep cfg c (.deliver k now) = some c') :
    ShipInv c₀ (history ++ [.deliver k now]) c' := by
  simp only [shipStep] at hstep
  split at hstep
  · cases hstep
  · next m rest hq =>
    obtain rfl := Option.some.inj hstep
    refine ⟨hinv.inOrder, hinv.ids, ?_⟩
    intro j
    have happ := hinv.applied j
    rcases eq_or_ne j k with rfl | hne
    · rw [hq] at happ
      simpa [arrived_append, arrived, residency_deliver] using happ
    · simpa [arrived_append, arrived, hne] using happ

theorem ShipInv.start (hinv : ShipInv c₀ history c) (hok : StartsInOrder c .start)
    (hstep : shipStep cfg c .start = some c') : ShipInv c₀ (history ++ [.start]) c' := by
  simp only [shipStep] at hstep
  split at hstep
  · cases hstep
  · next ops rest hposted =>
    have happ := hinv.applied
    rw [unsentOf_eq_nil hok, hposted] at happ
    split at hstep
    · next hmsgs =>
      obtain rfl := Option.some.inj hstep
      refine ⟨hinv.inOrder, hinv.ids, ?_⟩
      intro k
      -- a shipment without messages has no operations to lose
      have hops : ∀ r : Residency, r.applyAll ops = r := by
        intro r
        rw [← Residency.receiveAll_shipmentMessages, hmsgs, Residency.receiveAll_nil]
      have := happ k
      simpa [arrived_append, arrived, unsentOf_eq_nil hok, hops] using this
    · next m unsent hmsgs =>
      obtain rfl := Option.some.inj hstep
      refine ⟨?_, ?_, ?_⟩
      · refine List.pairwise_append.mpr ⟨hinv.inOrder, List.pairwise_singleton _ _, ?_⟩
        intro f hf g hg
        obtain rfl := List.mem_singleton.mp hg
        exact ⟨hok f hf, hinv.ids f hf⟩
      · intro f hf
        rcases List.mem_append.mp hf with hf | hf
        · exact Nat.lt_succ_of_lt (hinv.ids f hf)
        · obtain rfl := List.mem_singleton.mp hf
          exact Nat.lt_succ_self _
      · intro k
        have hops : ∀ r : Residency, (r.receive m).receiveAll unsent = r.applyAll ops := by
          intro r
          rw [← Residency.receiveAll_shipmentMessages, hmsgs, Residency.receiveAll_cons]
        have hlast : unsentOf (c.running ++ [⟨c.nextId, unsent⟩]) = unsent := by
          rw [unsentOf_append, unsentOf_eq_nil hok]
          simp [unsentOf]
        have := happ k
        simpa [arrived_append, arrived, Shipping.send, hlast, hops] using this

theorem ShipInv.resume {id : ℕ} (hinv : ShipInv c₀ history c)
    (hstep : shipStep cfg c (.resume id) = some c') :
    ShipInv c₀ (history ++ [.resume id]) c' := by
  simp only [shipStep] at hstep
  split at hstep
  · cases hstep
  · next f hfind =>
    have hf : f ∈ c.running := List.mem_of_find?_eq_some hfind
    have hid : f.id = id := by simpa using List.find?_some hfind
    subst hid
    split at hstep
    · cases hstep
    · split at hstep
      · next hnil =>
        obtain rfl := Option.some.inj hstep
        refine ⟨hinv.inOrder.sublist List.filter_sublist, ?_, ?_⟩
        · intro g hg
          exact hinv.ids g (List.mem_of_mem_filter hg)
        · intro k
          have := hinv.applied k
          rw [← hinv.inOrder.unsentOf_filter hf hnil] at this
          simpa [arrived_append, arrived] using this
      · next m unsent hunsent =>
        obtain rfl := Option.some.inj hstep
        -- whoever still has messages to send is the last one started
        obtain ⟨pre, hpre, hdone⟩ := hinv.inOrder.eq_concat hf (by simp [hunsent])
        have hrun : Shipping.setUnsent f.id unsent c.running = pre ++ [⟨f.id, unsent⟩] := by
          rw [hpre, InOrder.setUnsent_concat hdone]
        have hnone : unsentOf pre = [] := unsentOf_eq_nil fun g hg => (hdone g hg).1
        refine ⟨?_, ?_, ?_⟩
        · rw [Shipping.send, hrun]
          have hpair := hinv.inOrder
          rw [hpre] at hpair
          refine List.pairwise_append.mpr
            ⟨(List.pairwise_append.mp hpair).1, List.pairwise_singleton _ _, ?_⟩
          intro g hg g' hg'
          obtain rfl := List.mem_singleton.mp hg'
          exact hdone g hg
        · rw [Shipping.send, hrun]
          intro g hg
          rcases List.mem_append.mp hg with hg | hg
          · exact hinv.ids g (hpre ▸ List.mem_append_left _ hg)
          · obtain rfl := List.mem_singleton.mp hg
            exact hinv.ids f hf
        · intro k
          have hbefore : unsentOf c.running = m :: unsent := by
            rw [hpre, unsentOf_append, hnone]
            simp [unsentOf, hunsent]
          have hafter : unsentOf (Shipping.setUnsent f.id unsent c.running) = unsent := by
            rw [hrun, unsentOf_append, hnone]
            simp [unsentOf]
          have := hinv.applied k
          rw [hbefore] at this
          simpa [arrived_append, arrived, Shipping.send, hafter] using this

end Step

theorem ShipInv.of_idle {n : ℕ} {c : Shipping n} (h : c.Idle) : ShipInv c [] c := by
  refine ⟨?_, ?_, ?_⟩
  · rw [h.running]
    exact List.Pairwise.nil
  · rw [h.running]
    simp
  · intro k
    simp [h.queues k, h.running, h.posted, h.backlog, unsentOf, arrived]

/-- One step of an ordered run keeps the invariant. -/
theorem ShipInv.step {n : ℕ} {cfg : ShipConfig} {c₀ c c' : Shipping n}
    {history : List (ShipAction n)} {a : ShipAction n} (hok : StartsInOrder c a)
    (hstep : shipStep cfg c a = some c') (hinv : ShipInv c₀ history c) :
    ShipInv c₀ (history ++ [a]) c' := by
  cases a with
  | arrive ops => exact hinv.arrive hstep
  | post => exact hinv.post hstep
  | start => exact hinv.start hok hstep
  | deliver k now => exact hinv.deliver hstep
  | resume id => exact hinv.resume hstep

/-- **Ordered shipments are sequential.** In every run from an idle system in
which each shipment starts only when those in flight have sent all their
messages, once everything is delivered every shard's index is the one it would
have by applying the arrived operations one after another. -/
theorem shipments_sequential {n : ℕ} (cfg : ShipConfig) (c₀ c : Shipping n)
    (acts : List (ShipAction n)) (hidle : c₀.Idle)
    (hordered : Meets (shipStep cfg) StartsInOrder c₀ acts)
    (hexec : exec (shipStep cfg) c₀ acts = some c) (hdone : c.Idle) (k : Fin n) (now : ℕ) :
    (c.shards k).prefixHashIndex =
      (applySequentially now (arrived acts) (c₀.shards k)).prefixHashIndex := by
  have hinv : ShipInv c₀ ([] ++ acts) c :=
    exec_invariant (I := ShipInv c₀) ShipInv.step hordered hexec (.of_idle hidle)
  have happ := hinv.applied k
  rw [hdone.queues k, hdone.running, hdone.posted, hdone.backlog] at happ
  have hres : (c.shards k).residency =
      (applySequentially now (arrived acts) (c₀.shards k)).residency := by
    rw [residency_applySequentially]
    simpa [unsentOf] using happ
  exact congrArg Residency.prefixHashIndex hres

/-! ## A store lost to an earlier shipment -/

/-- Two shards that know nothing, with nothing on its way. -/
def twoShards : Shipping 2 where
  shards := fun _ => emptyShard
  queues := fun _ => []
  running := []
  posted := []
  backlog := []
  inflight := 0
  nextId := 0

/-- Room for eight shipments of up to 512 operations. -/
def shipConfig : ShipConfig := ⟨512, 8⟩

/-- A shipment stores hash 7 and then clears; while its first segment is still
on the way to shard 1, the next shipment stores hash 8. The clear goes out
behind that store. -/
def overtakenClear : List (ShipAction 2) :=
  [.arrive [⟨.UPSERT, 1, 7, 1, [], 0, 0⟩, ⟨.CLEAR, 1, 0, 2, [], 0, 0⟩], .post, .start,
    .deliver 0 0,
    .arrive [⟨.UPSERT, 1, 8, 3, [], 0, 0⟩], .post, .start,
    .deliver 0 0, .deliver 1 0, .deliver 1 0,
    .resume 0, .deliver 0 0, .deliver 1 0, .resume 0, .resume 1]

/-- Not every interleaving is sequential: the second shipment's store is lost on
both shards. -/
theorem shipments_out_of_order :
    ∃ c, exec (shipStep shipConfig) twoShards overtakenClear = some c ∧ twoShards.Idle ∧ c.Idle ∧
      (∀ k, 1 ∉ (c.shards k).prefixHashIndex 8) ∧
      ∀ k, 1 ∈ (applySequentially 0 (arrived overtakenClear) (twoShards.shards k)).prefixHashIndex
        8 := by
  refine ⟨_, exec_eq_some_getD (by decide), ?_⟩
  decide

/-- The same shipments, the second one started after the clear was sent. -/
def orderedClear : List (ShipAction 2) :=
  [.arrive [⟨.UPSERT, 1, 7, 1, [], 0, 0⟩, ⟨.CLEAR, 1, 0, 2, [], 0, 0⟩], .post, .start,
    .deliver 0 0, .deliver 1 0, .resume 0,
    .arrive [⟨.UPSERT, 1, 8, 3, [], 0, 0⟩], .post, .start,
    .deliver 0 0, .deliver 1 0, .deliver 0 0, .deliver 1 0, .resume 0, .resume 1]

theorem shipments_sequential_orderedClear :
    ∃ c, exec (shipStep shipConfig) twoShards orderedClear = some c ∧
      1 ∈ (c.shards 0).prefixHashIndex 8 ∧
      (c.shards 0).prefixHashIndex =
        (applySequentially 0 (arrived orderedClear) (twoShards.shards 0)).prefixHashIndex := by
  have hsome : (exec (shipStep shipConfig) twoShards orderedClear).isSome := by decide
  have hexec := exec_eq_some_getD hsome
  refine ⟨_, hexec, by decide, ?_⟩
  exact shipments_sequential shipConfig twoShards _ orderedClear (by decide)
    (by decide) hexec (by decide) 0 0

end Ranvier
