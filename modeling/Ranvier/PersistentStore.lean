import Ranvier.Types

/-!
# The persistent store and one batch of operations

The store is three tables: routes and backends, which `clear_all` empties, and
the attribution rows, which it leaves alone. The worker gets operations in
batches and collects the routes of a batch to write them together.

* `PersistenceStore` — the tables and their operations;
* `Persisted.apply` — what one operation does to them: the meaning of the queue;
* `processBatch` — the worker's loop over a batch, with its route accumulator and
  its way of passing over operations in front of a pending clear;
* `processBatch_eq` — a batch does what the operations it does not pass over do
  one after another.
-/

namespace Ranvier

/-! ## Operations -/

/-- `SaveRouteOp`, also a row of the routes table. -/
structure SaveRouteOp : Type where
  tokens : List TokenId
  backendId : BackendId
  deriving DecidableEq, Repr

/-- `SaveBackendOp`, also a row of the backends table. -/
structure SaveBackendOp : Type where
  id : BackendId
  ip : String
  port : UInt16
  weight : UInt32 := 100
  priority : UInt32 := 0
  backendType : String := "vllm"
  poolRole : String := "unified"
  deriving DecidableEq, Repr

/-- `LogRequestOp`; `costUnits` are the bits of the double. -/
structure LogRequestOp : Type where
  requestId : String
  apiKeyId : String
  timestampMs : Int64 := 0
  endpoint : String := ""
  backendId : Option BackendId := none
  statusCode : Int32 := 0
  latencyMs : Int32 := 0
  inputTokens : Int64 := 0
  outputTokens : Int64 := 0
  costUnits : UInt64 := 0
  tokensEstimated : Bool := true
  deriving DecidableEq, Repr

/-- `PersistenceOp`. -/
inductive PersistenceOp : Type where
  | saveRoute (op : SaveRouteOp)
  | saveBackend (op : SaveBackendOp)
  | removeBackend (id : BackendId)
  | removeRoutesForBackend (backendId : BackendId)
  | clearAll
  | logRequest (op : LogRequestOp)
  deriving DecidableEq, Repr

/-- The operation adds an attribution row. -/
def PersistenceOp.isLogRequest : PersistenceOp → Bool
  | .logRequest _ => true
  | _ => false

/-- The part of `AsyncPersistenceConfig` that decides what is stored. -/
structure AsyncPersistenceConfig : Type where
  maxBatchSize : ℕ := 1000
  maxQueueDepth : ℕ := 100000
  attributionPersistenceEnabled : Bool := true
  attributionMaxRequestRows : ℕ := 1000000
  deriving DecidableEq, Repr

/-! ## Tables -/

/-- A row of `request_attribution`. -/
structure AttributionRow : Type where
  id : ℕ
  op : LogRequestOp
  deriving DecidableEq, Repr

/-- The tables that `clear_all` empties. -/
structure RoutingTables : Type where
  routes : List SaveRouteOp := []
  backends : List SaveBackendOp := []
  deriving DecidableEq, Repr

/-- The attribution rows, the last id given out, and the worker's counter of
inserts since the last pruning probe. -/
structure AttributionLog : Type where
  rows : List AttributionRow := []
  lastId : ℕ := 0
  logRequestsSincePrune : ℕ := 0
  deriving DecidableEq, Repr

/-- `SqlitePersistence`, with the worker's pruning counter. -/
structure Persisted : Type where
  tables : RoutingTables := {}
  log : AttributionLog := {}
  deriving DecidableEq, Repr

namespace RoutingTables

/-- `INSERT OR REPLACE` into the routes. An empty token sequence is bound as NULL,
and NULLs are never equal. -/
def saveRoute (t : RoutingTables) (r : SaveRouteOp) : RoutingTables :=
  let kept := if r.tokens = [] then t.routes else t.routes.filter fun r' => r'.tokens ≠ r.tokens
  { t with routes := kept ++ [r] }

/-- `save_backend`. -/
def saveBackend (t : RoutingTables) (b : SaveBackendOp) : RoutingTables :=
  { t with backends := (t.backends.filter fun b' => b'.id ≠ b.id) ++ [b] }

/-- `remove_backend`. -/
def removeBackend (t : RoutingTables) (id : BackendId) : RoutingTables :=
  { t with backends := t.backends.filter fun b => b.id ≠ id }

/-- `remove_routes_for_backend`. -/
def removeRoutesForBackend (t : RoutingTables) (backendId : BackendId) : RoutingTables :=
  { t with routes := t.routes.filter fun r => r.backendId ≠ backendId }

/-- `clear_all`. -/
def clearAll (_ : RoutingTables) : RoutingTables := {}

/-- `save_routes_batch`. -/
def saveRoutesBatch (t : RoutingTables) (routes : List SaveRouteOp) : RoutingTables :=
  routes.foldl saveRoute t

end RoutingTables

/-- `kPruningProbeThreshold`. -/
def kPruningProbeThreshold : ℕ := 1000

namespace AttributionLog

/-- `SELECT MAX(id)`. -/
def maxId (l : AttributionLog) : ℕ := (l.rows.map AttributionRow.id).foldl max 0

/-- `prune_request_attribution`: rows with an id up to `MAX(id) - maxRows` go. -/
def pruneRequestAttribution (l : AttributionLog) (maxRows : ℕ) : AttributionLog :=
  if maxRows = 0 then l
  else { l with rows := l.rows.filter fun row => l.maxId < row.id + maxRows }

/-- `maybe_prune_request_attribution`. -/
def maybePruneRequestAttribution (cfg : AsyncPersistenceConfig) (l : AttributionLog) :
    AttributionLog :=
  if cfg.attributionMaxRequestRows = 0 then l
  else if l.rows.length ≤ cfg.attributionMaxRequestRows then l
  else l.pruneRequestAttribution cfg.attributionMaxRequestRows

/-- `log_request` and the counting behind it. -/
def logRequest (cfg : AsyncPersistenceConfig) (l : AttributionLog) (op : LogRequestOp) :
    AttributionLog :=
  let l := { l with
    rows := l.rows ++ [⟨l.lastId + 1, op⟩]
    lastId := l.lastId + 1
    logRequestsSincePrune := l.logRequestsSincePrune + 1 }
  if kPruningProbeThreshold ≤ l.logRequestsSincePrune then
    { l with logRequestsSincePrune := 0 }.maybePruneRequestAttribution cfg
  else l

end AttributionLog

/-! ## One operation after another -/

/-- What an operation does to the routes and backends. -/
def RoutingTables.apply (t : RoutingTables) : PersistenceOp → RoutingTables
  | .saveRoute r => t.saveRoute r
  | .saveBackend b => t.saveBackend b
  | .removeBackend id => t.removeBackend id
  | .removeRoutesForBackend backendId => t.removeRoutesForBackend backendId
  | .clearAll => t.clearAll
  | .logRequest _ => t

/-- What an operation does to the attribution rows. -/
def AttributionLog.apply (cfg : AsyncPersistenceConfig) (l : AttributionLog) :
    PersistenceOp → AttributionLog
  | .logRequest op => l.logRequest cfg op
  | _ => l

/-- What an operation does to the store. -/
def Persisted.apply (cfg : AsyncPersistenceConfig) (p : Persisted) (op : PersistenceOp) :
    Persisted where
  tables := p.tables.apply op
  log := p.log.apply cfg op

/-- What operations do to the store, one after another. -/
def Persisted.applyAll (cfg : AsyncPersistenceConfig) (p : Persisted) (ops : List PersistenceOp) :
    Persisted :=
  ops.foldl (Persisted.apply cfg) p

/-! ## The worker's batch -/

/-- `RouteAccumulator::flush`. -/
def Persisted.flush (p : Persisted) (routes : List SaveRouteOp) : Persisted :=
  { p with tables := p.tables.saveRoutesBatch routes }

/-- `execute` with the accumulated routes: saves are collected, a clear drops
them, everything else flushes them first. -/
def execute (cfg : AsyncPersistenceConfig) (p : Persisted) (routes : List SaveRouteOp) :
    PersistenceOp → Persisted × List SaveRouteOp
  | .saveRoute r => (p, routes ++ [r])
  | .saveBackend b =>
    let p := p.flush routes
    ({ p with tables := p.tables.saveBackend b }, [])
  | .removeBackend id =>
    let p := p.flush routes
    ({ p with tables := p.tables.removeBackend id }, [])
  | .removeRoutesForBackend backendId =>
    let p := p.flush routes
    ({ p with tables := p.tables.removeRoutesForBackend backendId }, [])
  | .clearAll => ({ p with tables := p.tables.clearAll }, [])
  | .logRequest op =>
    let p := p.flush routes
    ({ p with log := p.log.logRequest cfg op }, [])

/-- The loop of `process_batch`. `skipping` is
`gen_before != _last_processed_generation && !seen_clear`; the flag in the result
says whether a clear was found. -/
def processOps (cfg : AsyncPersistenceConfig) (p : Persisted) (routes : List SaveRouteOp)
    (skipping : Bool) : List PersistenceOp → Persisted × List SaveRouteOp × Bool
  | [] => (p, routes, !skipping)
  | op :: ops =>
    if skipping && op ≠ .clearAll then processOps cfg p routes true ops
    else
      let r := execute cfg p routes op
      processOps cfg r.1 r.2 false ops

/-- `process_batch`: the store and `_last_processed_generation` afterwards. -/
def processBatch (cfg : AsyncPersistenceConfig) (clearGeneration lastProcessedGeneration : UInt64)
    (p : Persisted) (batch : List PersistenceOp) : Persisted × UInt64 :=
  let r := processOps cfg p [] (clearGeneration ≠ lastProcessedGeneration) batch
  (r.1.flush r.2.1, if r.2.2 then clearGeneration else lastProcessedGeneration)

/-- The operations of a batch that are not passed over. -/
def effective (skipping : Bool) (batch : List PersistenceOp) : List PersistenceOp :=
  if skipping then batch.dropWhile (· ≠ .clearAll) else batch

section Batch

variable {cfg : AsyncPersistenceConfig} {p : Persisted} {routes : List SaveRouteOp}
  {ops : List PersistenceOp}

@[simp] theorem flush_nil : p.flush [] = p := rfl

@[simp] theorem applyAll_cons (op : PersistenceOp) :
    p.applyAll cfg (op :: ops) = (p.apply cfg op).applyAll cfg ops := rfl

theorem applyAll_append (ops' : List PersistenceOp) :
    p.applyAll cfg (ops ++ ops') = (p.applyAll cfg ops).applyAll cfg ops' :=
  List.foldl_append

/-- An operation takes effect behind the routes accumulated before it. -/
theorem execute_flush (op : PersistenceOp) :
    (execute cfg p routes op).1.flush (execute cfg p routes op).2 =
      (p.flush routes).apply cfg op := by
  cases op with
  | saveRoute r =>
    have hbatch : p.tables.saveRoutesBatch (routes ++ [r]) =
        (p.tables.saveRoutesBatch routes).saveRoute r := by
      rw [RoutingTables.saveRoutesBatch, List.foldl_append]
      rfl
    simp only [execute, Persisted.flush, Persisted.apply, hbatch]
    rfl
  | saveBackend b => rfl
  | removeBackend id => rfl
  | removeRoutesForBackend backendId => rfl
  | clearAll => rfl
  | logRequest op => rfl

/-- The loop behind a clear, or without one pending. -/
theorem processOps_running (cfg : AsyncPersistenceConfig) (p : Persisted)
    (routes : List SaveRouteOp) (ops : List PersistenceOp) :
    (processOps cfg p routes false ops).1.flush (processOps cfg p routes false ops).2.1 =
        (p.flush routes).applyAll cfg ops ∧
      (processOps cfg p routes false ops).2.2 = true := by
  induction ops generalizing p routes with
  | nil => exact ⟨rfl, rfl⟩
  | cons op ops ih =>
    obtain ⟨hstore, hflag⟩ := ih (execute cfg p routes op).1 (execute cfg p routes op).2
    rw [execute_flush] at hstore
    exact ⟨hstore, hflag⟩

/-- The loop in front of a pending clear passes over everything else. -/
theorem processOps_skipping (cfg : AsyncPersistenceConfig) (p : Persisted) (ops : List PersistenceOp) :
    (processOps cfg p [] true ops).1.flush (processOps cfg p [] true ops).2.1 =
        p.applyAll cfg (ops.dropWhile (· ≠ .clearAll)) ∧
      (processOps cfg p [] true ops).2.2 = decide (.clearAll ∈ ops) := by
  induction ops with
  | nil => exact ⟨rfl, rfl⟩
  | cons op ops ih =>
    by_cases hop : op = .clearAll
    · obtain ⟨hstore, hflag⟩ := processOps_running cfg p [] (op :: ops)
      have hclear : processOps cfg p [] true (op :: ops) = processOps cfg p [] false (op :: ops) := by
        simp [processOps, hop]
      rw [hclear, hstore, hflag, hop]
      simp
    · have hskip : processOps cfg p [] true (op :: ops) = processOps cfg p [] true ops := by
        simp [processOps, hop]
      rw [hskip, ih.1, ih.2]
      simp [hop, Ne.symm hop]

/-- **One batch.** -/
theorem processBatch_eq (clearGeneration lastProcessedGeneration : UInt64) (p : Persisted)
    (batch : List PersistenceOp) :
    processBatch cfg clearGeneration lastProcessedGeneration p batch =
      (p.applyAll cfg (effective (clearGeneration ≠ lastProcessedGeneration) batch),
        if .clearAll ∈ batch then clearGeneration else lastProcessedGeneration) := by
  rw [processBatch, effective]
  by_cases hgen : clearGeneration = lastProcessedGeneration
  · obtain ⟨hstore, hflag⟩ := processOps_running cfg p [] batch
    simp [hgen, hstore, hflag]
  · obtain ⟨hstore, hflag⟩ := processOps_skipping cfg p batch
    simp [hgen, hstore, hflag]

/-! ## Independence of the two parts -/

@[simp] theorem applyAll_tables (p : Persisted) (ops : List PersistenceOp) :
    (p.applyAll cfg ops).tables = ops.foldl RoutingTables.apply p.tables := by
  induction ops generalizing p with
  | nil => rfl
  | cons op ops ih => exact ih (p.apply cfg op)

@[simp] theorem applyAll_log (p : Persisted) (ops : List PersistenceOp) :
    (p.applyAll cfg ops).log = ops.foldl (AttributionLog.apply cfg) p.log := by
  induction ops generalizing p with
  | nil => rfl
  | cons op ops ih => exact ih (p.apply cfg op)

/-- Behind a clear the tables do not depend on what was in them. -/
theorem tables_of_clear {ops : List PersistenceOp} (hclear : .clearAll ∈ ops)
    (t t' : RoutingTables) :
    ops.foldl RoutingTables.apply t = ops.foldl RoutingTables.apply t' := by
  obtain ⟨before, after, rfl⟩ := List.append_of_mem hclear
  rw [List.foldl_append, List.foldl_append, List.foldl_cons, List.foldl_cons]
  rfl

/-- What is passed over in front of a clear makes no difference to the tables. -/
theorem tables_effective {batch : List PersistenceOp} (hclear : .clearAll ∈ batch)
    (skipping : Bool) (t t' : RoutingTables) :
    (effective skipping batch).foldl RoutingTables.apply t =
      batch.foldl RoutingTables.apply t' := by
  obtain ⟨before, after, rfl, hbefore⟩ := List.eq_append_cons_of_mem hclear
  cases skipping with
  | false => exact tables_of_clear hclear t t'
  | true =>
    have hdrop : (before ++ .clearAll :: after).dropWhile (· ≠ PersistenceOp.clearAll) =
        .clearAll :: after := by
      rw [List.dropWhile_append_of_pos]
      · simp
      · intro op hop
        simp only [decide_eq_true_eq]
        rintro rfl
        exact hbefore hop
    rw [effective, if_pos rfl, hdrop, List.foldl_append]
    rfl

/-- Operations other than attribution inserts leave the rows alone. -/
theorem log_of_no_logRequest {ops : List PersistenceOp}
    (hno : ∀ op ∈ ops, op.isLogRequest = false) (l : AttributionLog) :
    ops.foldl (AttributionLog.apply cfg) l = l := by
  induction ops with
  | nil => rfl
  | cons op ops ih =>
    have hop : l.apply cfg op = l := by
      have := hno op List.mem_cons_self
      cases op with
      | logRequest op => cases this
      | _ => rfl
    rw [List.foldl_cons, hop]
    exact ih fun op hop => hno op (List.mem_cons_of_mem _ hop)

end Batch

end Ranvier
