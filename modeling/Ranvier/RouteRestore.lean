import Ranvier.Announcement
import Ranvier.PersistentStore
import Ranvier.TrustInsert

/-!
# Saving learned routes and restoring them

On the first byte of a response the controller learns the request's route and queues
its row for the store: the row is the request's whole token sequence and the backend.
The depth the route was learned at is not saved. After a restart the rows are learned
again, at the default depth.

* `learnFromResponse` — what one response buffers and saves;
* `restoreRoutes` — what the restarted router buffers, row by row;
* `run_insertions`, `putAll_apply` — the keys of a batch are those the tree then holds;
* `restored_keys_iff` — when a restart puts back the keys that learning had put;
* `restored_history` — a history of such routes comes back whole.
-/

namespace Ranvier

/-! ## Learning and saving -/

/-- What `stream_backend_response` does on the first byte: the routes it buffers, and the
rows it queues for the store. -/
structure ResponseLearning : Type where
  buffered : List PendingRoute
  saved : List SaveRouteOp
  deriving DecidableEq, Repr

/-- The learn block of `stream_backend_response`. The single-depth branch saves only a
route that `learn_route_global` calls new; the multi-depth branch saves always. -/
def learnFromResponse (cfg : PrefixConfig) (st : LearnState) (req : PrefixRequest)
    (backend : BackendId) : ResponseLearning :=
  if st.learns && cfg.prefixMode && decide (cfg.minTokenLength ≤ req.tokens.length) then
    if !req.prefixBoundaries.isEmpty && cfg.enableMultiDepthRouting then
      ⟨(learnRouteGlobalMulti cfg st req.tokens backend req.prefixBoundaries).map (⟨·, backend⟩),
        [⟨req.tokens, backend⟩]⟩
    else
      match learnRouteGlobal cfg st req.tokens backend req.prefixBoundary with
      | some route => ⟨[⟨route, backend⟩], [⟨req.tokens, backend⟩]⟩
      | none => ⟨[], []⟩
  else ⟨[], []⟩

/-- The store after the rows of a response were written to an empty one. -/
def ResponseLearning.store (l : ResponseLearning) : RoutingTables :=
  l.saved.foldl RoutingTables.saveRoute {}

/-! ## Restoring -/

/-- `MAX_TOKEN_COUNT_CORRUPTION_SAFEGUARD`. -/
def maxTokenCountCorruptionSafeguard : ℕ := 1000000

/-- `load_routes`: a row with more tokens reads as corrupted and is skipped. -/
def loadRoutes (tables : RoutingTables) : List SaveRouteOp :=
  tables.routes.filter fun row => row.tokens.length ≤ maxTokenCountCorruptionSafeguard

/-- A router after a restart: what its learn path reads once the routes of a list were
learned again. When these reach the tree is up to the flush timer; at first the tree is
empty. -/
structure RestartedRouter : Type where
  after : List PendingRoute → LearnState
  fresh : ∀ tokens, (after []).existing tokens = none

/-- The loop over the loaded rows, with the routes learned so far. Every row is learned
without a boundary. -/
def restoreFrom (cfg : PrefixConfig) (router : RestartedRouter) (learned : List PendingRoute) :
    List SaveRouteOp → List PendingRoute
  | [] => learned
  | row :: rows =>
    match learnRouteGlobal cfg (router.after learned) row.tokens row.backendId 0 with
    | some route => restoreFrom cfg router (learned ++ [⟨route, row.backendId⟩]) rows
    | none => restoreFrom cfg router learned rows

/-- The restore of the persisted routes: rows with an id that is no backend's are
discarded, the others are learned. -/
def restoreRoutes (cfg : PrefixConfig) (router : RestartedRouter) (tables : RoutingTables) :
    List PendingRoute :=
  restoreFrom cfg router [] ((loadRoutes tables).filter fun row => 0 < row.backendId)

/-! ## Keys -/

/-- The policy `apply_local_batch_to_tree` inserts under: conflicts converge under
least-loaded placement, and otherwise the last route wins. -/
def PrefixConfig.localTrust (cfg : PrefixConfig) : Option Bool :=
  if cfg.leastLoadedPlacement then some true else none

/-- A tree with the routes `m` takes a learned route for the key: no held route stands
against it. -/
def takesKey (cfg : PrefixConfig) (m : RouteMap) (key : List TokenId) (backend : BackendId) :
    Bool :=
  decide (settleRoute backend .LOCAL cfg.localTrust (m key) = (backend, .LOCAL))

/-- The aligned keys a batch puts into a tree with the routes `m`, with their backends. A
route shorter than a block has no key. -/
def keysPut (cfg : PrefixConfig) (m : RouteMap) (batch : List PendingRoute) :
    Finset (List TokenId × BackendId) :=
  ((batch.map fun route => (storedKey cfg.blockAlignment route.tokens, route.backend)).filter
    fun p => p.1 ≠ [] ∧ takesKey cfg m p.1 p.2 = true).toFinset

theorem mem_keysPut {cfg : PrefixConfig} {m : RouteMap} {batch : List PendingRoute}
    {key : List TokenId} {backend : BackendId} :
    (key, backend) ∈ keysPut cfg m batch ↔
      (key ≠ [] ∧ takesKey cfg m key backend = true) ∧
        ∃ route ∈ batch, storedKey cfg.blockAlignment route.tokens = key ∧
          route.backend = backend := by
  simp [keysPut, and_comm, and_left_comm]

/-- The insertions of a batch. -/
def insertions (cfg : PrefixConfig) (now : ℕ) (batch : List PendingRoute) : List (ℕ × TreeOp) :=
  batch.map fun route => (now,
    if cfg.leastLoadedPlacement then .insertIfTrusted route.tokens route.backend .LOCAL true
    else .insert route.tokens route.backend .LOCAL)

/-- A route that is not taken leaves the one that is held. -/
theorem settleRoute_of_not_takesKey {cfg : PrefixConfig} {m : RouteMap} {key : List TokenId}
    {backend : BackendId} (h : takesKey cfg m key backend = false) :
    some (settleRoute backend .LOCAL cfg.localTrust (m key)) = m key := by
  have hne : settleRoute backend .LOCAL cfg.localTrust (m key) ≠ (backend, .LOCAL) :=
    of_decide_eq_false h
  rcases hm : m key with _ | held
  · rw [hm] at hne
    exact absurd rfl hne
  rw [hm] at hne
  rcases htrust : cfg.localTrust with _ | converge
  · rw [htrust] at hne
    exact absurd rfl hne
  · rw [htrust] at hne
    rw [settleRoute_eq (backend, .LOCAL) held converge] at hne ⊢
    split at hne
    · exact absurd rfl hne
    · rename_i hstands
      rw [if_neg hstands]

/-- One insertion sets its key, if the tree takes it. -/
theorem put_apply (cfg : PrefixConfig) (m : RouteMap) (route : PendingRoute)
    (key : List TokenId) :
    m.put cfg.blockAlignment route.tokens route.backend .LOCAL cfg.localTrust key =
      if (key, route.backend) ∈ keysPut cfg m [route] then some (route.backend, .LOCAL)
      else m key := by
  rw [RouteMap.put]
  change (if storedKey cfg.blockAlignment route.tokens = [] then m
    else Function.update m (storedKey cfg.blockAlignment route.tokens) _) key = _
  simp only [mem_keysPut, List.mem_singleton, exists_eq_left, and_true]
  by_cases hkey : storedKey cfg.blockAlignment route.tokens = key
  · rw [hkey]
    by_cases hnil : key = []
    · rw [if_pos hnil, if_neg (fun h => h.1.1 hnil)]
    · rw [if_neg hnil]
      change Function.update m key (some (settleRoute _ _ _ (m (storedKey _ _)))) key = _
      rw [hkey, Function.update_self]
      by_cases htakes : takesKey cfg m key route.backend = true
      · rw [if_pos ⟨⟨hnil, htakes⟩, rfl⟩, of_decide_eq_true htakes]
      · rw [if_neg (fun h => htakes h.1.2),
          settleRoute_of_not_takesKey (Bool.eq_false_iff.mpr htakes)]
  · have hnot : ¬((key ≠ [] ∧ takesKey cfg m key route.backend = true) ∧
        storedKey cfg.blockAlignment route.tokens = key) := fun h => hkey h.2
    rw [if_neg hnot]
    split
    · rfl
    · exact Function.update_of_ne (Ne.symm hkey) _ _

/-- What the first route of a batch puts does not change what the rest puts for the same
backend. -/
theorem takesKey_put (cfg : PrefixConfig) (m : RouteMap) (route : PendingRoute)
    (key : List TokenId) :
    takesKey cfg (m.put cfg.blockAlignment route.tokens route.backend .LOCAL cfg.localTrust) key
      route.backend = takesKey cfg m key route.backend := by
  rw [takesKey, put_apply]
  split
  · rename_i hput
    rw [(mem_keysPut.mp hput).1.2, decide_eq_true_eq]
    rcases cfg.localTrust with _ | converge
    · rfl
    · rw [settleRoute_eq (route.backend, .LOCAL) (route.backend, .LOCAL) converge, if_pos]
      simp [Yields]
  · rfl

/-- The routes `m` after a batch. -/
def putAll (cfg : PrefixConfig) (m : RouteMap) (batch : List PendingRoute) : RouteMap :=
  batch.foldl (fun m route =>
    m.put cfg.blockAlignment route.tokens route.backend .LOCAL cfg.localTrust) m

theorem putAll_append (cfg : PrefixConfig) (m : RouteMap) (batch batch' : List PendingRoute) :
    putAll cfg m (batch ++ batch') = putAll cfg (putAll cfg m batch) batch' :=
  List.foldl_append

/-- The tree follows, as long as no insertion splits a path past the maximum. -/
theorem run_insertions {t : RadixTree} (h : t.Inv) {cfg : PrefixConfig}
    (ha : t.blockAlignment = cfg.blockAlignment) (now : ℕ) {batch : List PendingRoute}
    (hmax : t.runWithinMax (insertions cfg now batch) = true) :
    (t.run (insertions cfg now batch)).routes = putAll cfg t.routes batch := by
  induction batch generalizing t with
  | nil => rfl
  | cons route batch ih =>
    obtain ⟨hfirst, hrest⟩ := Bool.and_eq_true_iff.mp hmax
    obtain ⟨hinv, halign, hstep⟩ := RadixTree.step_spec h now _ hfirst
    -- either insertion is a `put` under the policy
    have hput : (t.step now (if cfg.leastLoadedPlacement then
          .insertIfTrusted route.tokens route.backend .LOCAL true
        else .insert route.tokens route.backend .LOCAL)).routes =
        t.routes.put cfg.blockAlignment route.tokens route.backend .LOCAL cfg.localTrust := by
      rw [PrefixConfig.localTrust, ← ha]
      split at hstep
      · rename_i hleast
        rw [if_pos hleast, if_pos hleast]
        exact hstep
      · rename_i hleast
        rw [if_neg hleast, if_neg hleast]
        exact hstep
    have hrun := ih hinv (halign.trans ha) hrest
    rw [hput] at hrun
    exact hrun

/-- A batch for one backend leaves that backend at the keys it puts, and the others
alone. -/
theorem putAll_apply (cfg : PrefixConfig) (m : RouteMap) {backend : BackendId}
    {batch : List PendingRoute} (hbackend : ∀ route ∈ batch, route.backend = backend)
    (key : List TokenId) :
    putAll cfg m batch key =
      if (key, backend) ∈ keysPut cfg m batch then some (backend, .LOCAL) else m key := by
  induction batch generalizing m with
  | nil => rfl
  | cons route batch ih =>
    obtain rfl : route.backend = backend := hbackend route List.mem_cons_self
    have hrest := ih (m.put cfg.blockAlignment route.tokens route.backend .LOCAL cfg.localTrust)
      fun r hr => hbackend r (List.mem_cons_of_mem _ hr)
    rw [show putAll cfg m (route :: batch) = putAll cfg (m.put _ _ _ _ _) batch from rfl, hrest,
      put_apply]
    simp only [mem_keysPut, takesKey_put, List.mem_cons, List.not_mem_nil, or_false,
      exists_eq_or_imp, exists_eq_left, and_true]
    -- the key is put later, or now, or not at all
    by_cases hlater : (key ≠ [] ∧ takesKey cfg m key route.backend = true) ∧
        ∃ r ∈ batch, storedKey cfg.blockAlignment r.tokens = key ∧ r.backend = route.backend
    · rw [if_pos hlater, if_pos ⟨hlater.1, .inr hlater.2⟩]
    · rw [if_neg hlater]
      by_cases hnow : (key ≠ [] ∧ takesKey cfg m key route.backend = true) ∧
          storedKey cfg.blockAlignment route.tokens = key
      · rw [if_pos hnow, if_pos ⟨hnow.1, .inl hnow.2⟩]
      · rw [if_neg hnow, if_neg]
        rintro ⟨hkey, hr | hr⟩
        · exact hnow ⟨hkey, hr⟩
        · exact hlater ⟨hkey, hr⟩

/-! ## The depths of learning and of the restore -/

/-- The depths a response of a request with `n` tokens is learned at. -/
def responseDepths (cfg : PrefixConfig) (n prefixBoundary : ℕ) (prefixBoundaries : List ℕ) :
    List ℕ :=
  (if !prefixBoundaries.isEmpty && cfg.enableMultiDepthRouting then
    multiDepths cfg n prefixBoundaries
   else [prefixLen cfg n prefixBoundary]).filter (withinRouteLimit cfg)

/-- The restore does not drop a row of `n` tokens: its size and its backend id are
accepted, and its default depth is within the route limit. -/
def rowAccepted (cfg : PrefixConfig) (n : ℕ) (backend : BackendId) : Bool :=
  decide (n ≤ maxTokenCountCorruptionSafeguard) && decide (0 < backend) &&
    withinRouteLimit cfg (min n cfg.prefixTokenLength)

/-- The routes of a response, one for each of its depths. -/
def depthRoutes (cfg : PrefixConfig) (req : PrefixRequest) (backend : BackendId) :
    List PendingRoute :=
  (responseDepths cfg req.tokens.length req.prefixBoundary req.prefixBoundaries).map
    fun d => ⟨req.tokens.take d, backend⟩

/-- The route of a row: its default depth. -/
def rowRoute (cfg : PrefixConfig) (row : SaveRouteOp) : PendingRoute :=
  ⟨row.tokens.take (min row.tokens.length cfg.prefixTokenLength), row.backendId⟩

/-- Those of the depths whose key a tree with the routes `m` takes. -/
def takenDepths (cfg : PrefixConfig) (m : RouteMap) (tokens : List TokenId) (backend : BackendId)
    (depths : List ℕ) : List ℕ :=
  depths.filter fun d => takesKey cfg m (storedKey cfg.blockAlignment (tokens.take d)) backend

/-- The depths at which a request is learned have the whole blocks of the default depth, up
to depths shorter than a block, and one has them; a row that the restore drops has none to
lose. -/
def DepthsRestored (cfg : PrefixConfig) (m : RouteMap) (req : PrefixRequest)
    (backend : BackendId) : Prop :=
  let blocks := fun d : ℕ => d / (cfg.blockAlignment : ℕ)
  let depths := takenDepths cfg m req.tokens backend
    (responseDepths cfg req.tokens.length req.prefixBoundary req.prefixBoundaries)
  let default := min req.tokens.length cfg.prefixTokenLength
  if rowAccepted cfg req.tokens.length backend then
    (∀ d ∈ depths, blocks d = 0 ∨ blocks d = blocks default) ∧
      (blocks default = 0 ∨ ∃ d ∈ depths, blocks d = blocks default)
  else ∀ d ∈ depths, blocks d = 0

theorem multiDepths_le {cfg : PrefixConfig} {n : ℕ} {prefixBoundaries : List ℕ} {d : ℕ}
    (hd : d ∈ multiDepths cfg n prefixBoundaries) : d ≤ n := by
  rw [multiDepths] at hd
  split at hd
  · rw [List.mem_singleton.mp hd]
    exact prefixLen_le _ _ _
  · simp only [List.mem_filter, decide_eq_true_eq] at hd
    exact hd.2.2

theorem responseDepths_le {cfg : PrefixConfig} {n prefixBoundary : ℕ}
    {prefixBoundaries : List ℕ} {d : ℕ}
    (hd : d ∈ responseDepths cfg n prefixBoundary prefixBoundaries) : d ≤ n := by
  have hd := List.mem_of_mem_filter hd
  split at hd
  · exact multiDepths_le hd
  · rw [List.mem_singleton.mp hd]
    exact prefixLen_le _ _ _

/-- A route that is learned at all is learned at its depth. -/
theorem learnRouteGlobal_toList {cfg : PrefixConfig} {st : LearnState} {tokens : List TokenId}
    {backend : BackendId} {prefixBoundary : ℕ}
    (h : (learnRouteGlobal cfg st tokens backend prefixBoundary).toList ≠ []) :
    (learnRouteGlobal cfg st tokens backend prefixBoundary).toList =
      ([prefixLen cfg tokens.length prefixBoundary].filter (withinRouteLimit cfg)).map
        fun d => tokens.take d := by
  rcases hroute : learnRouteGlobal cfg st tokens backend prefixBoundary with _ | route
  · rw [hroute] at h
    exact absurd rfl h
  · obtain ⟨rfl, hlimit⟩ := learnRouteGlobal_eq cfg st tokens backend prefixBoundary hroute
    rw [List.filter_cons_of_pos hlimit]
    rfl

theorem learnRouteGlobalMulti_eq {cfg : PrefixConfig} {st : LearnState} {tokens : List TokenId}
    {backend : BackendId} {prefixBoundaries : List ℕ}
    (h : learnRouteGlobalMulti cfg st tokens backend prefixBoundaries ≠ []) :
    learnRouteGlobalMulti cfg st tokens backend prefixBoundaries =
      ((multiDepths cfg tokens.length prefixBoundaries).filter (withinRouteLimit cfg)).map
        fun d => tokens.take d := by
  rw [learnRouteGlobalMulti] at h ⊢
  rw [multiDepths]
  split at h
  · rename_i hempty
    rw [if_pos hempty, if_pos hempty]
    exact learnRouteGlobal_toList h
  · rename_i hvalid
    rw [if_neg hvalid, if_neg hvalid]
    rfl

/-- **What a learned response leaves.** One route for each depth, and one row with the
whole token sequence. -/
theorem learnFromResponse_eq {cfg : PrefixConfig} {st : LearnState} {req : PrefixRequest}
    {backend : BackendId} (h : (learnFromResponse cfg st req backend).buffered ≠ []) :
    learnFromResponse cfg st req backend =
      ⟨depthRoutes cfg req backend, [⟨req.tokens, backend⟩]⟩ := by
  rw [learnFromResponse] at h ⊢
  split at h
  · rename_i hgate
    rw [if_pos hgate, depthRoutes, responseDepths]
    split at h
    · rename_i hmulti
      rw [if_pos hmulti, if_pos hmulti,
        learnRouteGlobalMulti_eq (fun hnil => h (by rw [hnil]; rfl)), List.map_map]
      rfl
    · rename_i hsingle
      rw [if_neg hsingle, if_neg hsingle]
      rcases hroute : learnRouteGlobal cfg st req.tokens backend req.prefixBoundary with _ | route
      · rw [hroute] at h
        exact absurd rfl h
      · obtain ⟨rfl, hlimit⟩ := learnRouteGlobal_eq cfg st req.tokens backend _ hroute
        rw [List.filter_cons_of_pos hlimit]
        rfl
  · exact absurd rfl h

/-- A row is learned at its default depth, if the tree has no answer yet. -/
theorem learnRouteGlobal_row (cfg : PrefixConfig) {st : LearnState}
    (hst : ∀ tokens, st.existing tokens = none) (row : SaveRouteOp) :
    learnRouteGlobal cfg st row.tokens row.backendId 0 =
      if withinRouteLimit cfg (min row.tokens.length cfg.prefixTokenLength) then
        some (rowRoute cfg row).tokens
      else none := by
  have hdefault : prefixLen cfg row.tokens.length 0 =
      min row.tokens.length cfg.prefixTokenLength := by simp [prefixLen]
  split
  · next hlimit =>
    rw [learnRouteGlobal_of_none cfg hst _ _ _ (by rw [hdefault]; exact hlimit), hdefault]
    rfl
  · next hlimit =>
    rcases hroute : learnRouteGlobal cfg st row.tokens row.backendId 0 with _ | route
    · rfl
    · obtain ⟨-, hwithin⟩ := learnRouteGlobal_eq cfg _ row.tokens row.backendId 0 hroute
      rw [hdefault] at hwithin
      exact absurd hwithin hlimit

/-- One turn of the restore, if the tree has no answer yet. -/
theorem restoreFrom_cons (cfg : PrefixConfig) {router : RestartedRouter}
    {learned : List PendingRoute}
    (hnone : ∀ tokens, (router.after learned).existing tokens = none) (row : SaveRouteOp)
    (rows : List SaveRouteOp) :
    restoreFrom cfg router learned (row :: rows) =
      restoreFrom cfg router
        (learned ++ if withinRouteLimit cfg (min row.tokens.length cfg.prefixTokenLength) then
          [rowRoute cfg row] else []) rows := by
  rw [restoreFrom, learnRouteGlobal_row cfg hnone]
  split
  · next hroute =>
    split at hroute
    · next hlimit =>
      obtain rfl := Option.some.inj hroute
      rw [if_pos hlimit]
      rfl
    · cases hroute
  · next hroute =>
    split at hroute
    · cases hroute
    · next hlimit => rw [if_neg hlimit, List.append_nil]

/-- The restore of a store with one row. -/
theorem restoreRoutes_row (cfg : PrefixConfig) (router : RestartedRouter)
    (tokens : List TokenId) (backend : BackendId) :
    restoreRoutes cfg router ⟨[⟨tokens, backend⟩], []⟩ =
      if rowAccepted cfg tokens.length backend then [rowRoute cfg ⟨tokens, backend⟩] else [] := by
  rw [restoreRoutes, loadRoutes, rowAccepted]
  by_cases hsize : tokens.length ≤ maxTokenCountCorruptionSafeguard
  · by_cases hid : 0 < backend
    · simp only [hsize, hid, decide_true, List.filter_cons_of_pos, List.filter_nil, Bool.true_and]
      rw [restoreFrom_cons cfg router.fresh]
      rfl
    · simp [hsize, hid, restoreFrom]
  · simp [hsize, restoreFrom]

/-- The restore of a store whose rows fit into one batch: nothing of it reaches the tree
before its end. -/
theorem restoreRoutes_unflushed (cfg : PrefixConfig) {router : RestartedRouter}
    (hnone : ∀ learned tokens, (router.after learned).existing tokens = none)
    (tables : RoutingTables) :
    restoreRoutes cfg router tables =
      (tables.routes.filter fun row => rowAccepted cfg row.tokens.length row.backendId).map
        (rowRoute cfg) := by
  have hloop : ∀ (rows : List SaveRouteOp) (learned : List PendingRoute),
      restoreFrom cfg router learned rows = learned ++ (rows.filter fun row =>
        withinRouteLimit cfg (min row.tokens.length cfg.prefixTokenLength)).map (rowRoute cfg) := by
    intro rows
    induction rows with
    | nil => simp [restoreFrom]
    | cons row rows ih =>
      intro learned
      rw [restoreFrom_cons cfg (hnone learned), ih, List.append_assoc, List.filter_cons]
      split <;> rfl
  rw [restoreRoutes, hloop, List.nil_append, loadRoutes, List.filter_filter, List.filter_filter]
  refine congrArg (List.map (rowRoute cfg)) (List.filter_congr fun row _ => ?_)
  simp only [rowAccepted, Bool.and_comm, Bool.and_assoc]

/-! ## When the keys come back -/

/-- A route cut at a depth has the key of the whole blocks within it. -/
theorem storedKey_depth (a : ℕ+) {tokens : List TokenId} {d : ℕ} (hd : d ≤ tokens.length) :
    storedKey a (tokens.take d) = tokens.take (d / a * a) := by
  rw [storedKey, RadixTree.alignedTokens, RadixTree.alignedLen, List.length_take,
    Nat.min_eq_left hd, List.take_take, Nat.min_eq_left (Nat.div_mul_le_self _ _)]

theorem length_storedKey_depth (a : ℕ+) {tokens : List TokenId} {d : ℕ}
    (hd : d ≤ tokens.length) : (storedKey a (tokens.take d)).length = d / a * a := by
  rw [storedKey_depth a hd, List.length_take]
  exact Nat.min_eq_left ((Nat.div_mul_le_self _ _).trans hd)

/-- Two depths give one key exactly when they have the same whole blocks. -/
theorem storedKey_depth_eq_iff (a : ℕ+) {tokens : List TokenId} {d d' : ℕ}
    (hd : d ≤ tokens.length) (hd' : d' ≤ tokens.length) :
    storedKey a (tokens.take d) = storedKey a (tokens.take d') ↔ d / (a : ℕ) = d' / a := by
  constructor
  · intro h
    have hlength := congrArg List.length h
    rw [length_storedKey_depth a hd, length_storedKey_depth a hd'] at hlength
    exact Nat.eq_of_mul_eq_mul_right a.pos hlength
  · intro h
    rw [storedKey_depth a hd, storedKey_depth a hd', h]

theorem storedKey_depth_eq_nil_iff (a : ℕ+) {tokens : List TokenId} {d : ℕ}
    (hd : d ≤ tokens.length) : storedKey a (tokens.take d) = [] ↔ d / (a : ℕ) = 0 := by
  rw [← List.length_eq_zero_iff, length_storedKey_depth a hd, Nat.mul_eq_zero]
  exact or_iff_left a.ne_zero

/-- The empty tree takes every key, and any tree the keys of the depths it takes. -/
theorem keysPut_takenDepths (cfg : PrefixConfig) (m : RouteMap) (tokens : List TokenId)
    (backend : BackendId) (depths : List ℕ) :
    keysPut cfg m (depths.map fun d => ⟨tokens.take d, backend⟩) =
      keysPut cfg (fun _ => none)
        ((takenDepths cfg m tokens backend depths).map fun d => ⟨tokens.take d, backend⟩) := by
  have hempty : ∀ key b, takesKey cfg (fun _ => none) key b = true := fun _ _ => decide_eq_true rfl
  ext ⟨key, b⟩
  simp only [mem_keysPut, hempty, and_true, List.mem_map, exists_exists_and_eq_and, takenDepths,
    List.mem_filter]
  constructor
  · rintro ⟨⟨hne, htakes⟩, d, hd, rfl, rfl⟩
    exact ⟨hne, d, ⟨hd, htakes⟩, rfl, rfl⟩
  · rintro ⟨hne, d, ⟨hd, htakes⟩, rfl, rfl⟩
    exact ⟨⟨hne, htakes⟩, d, hd, rfl, rfl⟩

/-- **Keys and blocks.** Two lists of depths of one token sequence put the same keys into
the empty tree exactly when they reach the same numbers of whole blocks, none aside. -/
theorem keysPut_depths_eq_iff (cfg : PrefixConfig) {tokens : List TokenId} (backend : BackendId)
    {depths depths' : List ℕ} (h : ∀ d ∈ depths, d ≤ tokens.length)
    (h' : ∀ d ∈ depths', d ≤ tokens.length) :
    keysPut cfg (fun _ => none) (depths.map fun d => ⟨tokens.take d, backend⟩) =
        keysPut cfg (fun _ => none) (depths'.map fun d => ⟨tokens.take d, backend⟩) ↔
      ∀ blocks ≠ 0, (∃ d ∈ depths, d / (cfg.blockAlignment : ℕ) = blocks) ↔
        ∃ d ∈ depths', d / (cfg.blockAlignment : ℕ) = blocks := by
  -- a list puts the key of a depth iff it reaches that depth's blocks
  have hmem : ∀ {l : List ℕ} {c : ℕ}, (∀ d ∈ l, d ≤ tokens.length) → c ≤ tokens.length →
      ((storedKey cfg.blockAlignment (tokens.take c), backend) ∈
          keysPut cfg (fun _ => none) (l.map fun d => ⟨tokens.take d, backend⟩) ↔
        c / (cfg.blockAlignment : ℕ) ≠ 0 ∧
          ∃ d ∈ l, d / (cfg.blockAlignment : ℕ) = c / cfg.blockAlignment) := by
    intro l c hl hc
    have htakes : takesKey cfg (fun _ => none)
        (storedKey cfg.blockAlignment (tokens.take c)) backend = true := decide_eq_true rfl
    rw [mem_keysPut, htakes, ne_eq, storedKey_depth_eq_nil_iff cfg.blockAlignment hc]
    simp only [and_true, List.mem_map, exists_exists_and_eq_and]
    refine and_congr_right fun _ => exists_congr fun d => and_congr_right fun hd => ?_
    exact storedKey_depth_eq_iff cfg.blockAlignment (hl d hd) hc
  -- one half of each direction, for either list
  have hhalf : ∀ {l l' : List ℕ}, (∀ d ∈ l, d ≤ tokens.length) → (∀ d ∈ l', d ≤ tokens.length) →
      (keysPut cfg (fun _ => none) (l.map fun d => ⟨tokens.take d, backend⟩) ⊆
          keysPut cfg (fun _ => none) (l'.map fun d => ⟨tokens.take d, backend⟩) ↔
        ∀ blocks ≠ 0, (∃ d ∈ l, d / (cfg.blockAlignment : ℕ) = blocks) →
          ∃ d ∈ l', d / (cfg.blockAlignment : ℕ) = blocks) := by
    intro l l' hl hl'
    constructor
    · rintro hsub blocks hne ⟨c, hc, rfl⟩
      exact ((hmem hl' (hl c hc)).mp (hsub ((hmem hl (hl c hc)).mpr ⟨hne, c, hc, rfl⟩))).2
    · rintro hblocks ⟨key, b⟩ hp
      obtain ⟨-, route, hroute, rfl, rfl⟩ := mem_keysPut.mp hp
      obtain ⟨c, hc, rfl⟩ := List.mem_map.mp hroute
      obtain ⟨hne, -⟩ := (hmem hl (hl c hc)).mp hp
      exact (hmem hl' (hl c hc)).mpr ⟨hne, hblocks _ hne ⟨c, hc, rfl⟩⟩
  rw [Finset.Subset.antisymm_iff, hhalf h h', hhalf h' h]
  constructor
  · rintro ⟨hto, hfrom⟩ blocks hne
    exact ⟨hto blocks hne, hfrom blocks hne⟩
  · intro hboth
    exact ⟨fun blocks hne => (hboth blocks hne).mp, fun blocks hne => (hboth blocks hne).mpr⟩

theorem takenDepths_le {cfg : PrefixConfig} {m : RouteMap} {req : PrefixRequest}
    {backend : BackendId} {d : ℕ}
    (hd : d ∈ takenDepths cfg m req.tokens backend (responseDepths cfg req.tokens.length
      req.prefixBoundary req.prefixBoundaries)) : d ≤ req.tokens.length :=
  responseDepths_le (List.mem_of_mem_filter hd)

/-- A row that the restore accepts, against the routes of its response. -/
theorem keysPut_rowRoute_iff (cfg : PrefixConfig) (m : RouteMap) (req : PrefixRequest)
    (backend : BackendId) (haccepted : rowAccepted cfg req.tokens.length backend = true) :
    keysPut cfg (fun _ => none) [rowRoute cfg ⟨req.tokens, backend⟩] =
        keysPut cfg m (depthRoutes cfg req backend) ↔
      DepthsRestored cfg m req backend := by
  have hle : ∀ d ∈ [min req.tokens.length cfg.prefixTokenLength], d ≤ req.tokens.length := by
    simp
  rw [depthRoutes, keysPut_takenDepths, DepthsRestored]
  dsimp only
  rw [if_pos haccepted,
    show [rowRoute cfg ⟨req.tokens, backend⟩] =
      [min req.tokens.length cfg.prefixTokenLength].map
        fun d => ⟨req.tokens.take d, backend⟩ from rfl,
    keysPut_depths_eq_iff cfg backend hle fun d hd => takenDepths_le hd]
  simp only [List.mem_singleton, exists_eq_left]
  constructor
  · intro hsame
    constructor
    · intro d hd
      by_cases hzero : d / (cfg.blockAlignment : ℕ) = 0
      · exact .inl hzero
      · exact .inr ((hsame _ hzero).mpr ⟨d, hd, rfl⟩).symm
    · by_cases hzero : min req.tokens.length cfg.prefixTokenLength / (cfg.blockAlignment : ℕ) = 0
      · exact .inl hzero
      · exact .inr ((hsame _ hzero).mp rfl)
  · rintro ⟨hall, hreached⟩ blocks hblocks
    constructor
    · rintro rfl
      exact hreached.resolve_left hblocks
    · rintro ⟨d, hd, rfl⟩
      exact ((hall d hd).resolve_left hblocks).symm

/-- A row that the restore drops. -/
theorem keysPut_nil_iff (cfg : PrefixConfig) (m : RouteMap) (req : PrefixRequest)
    (backend : BackendId) (hdropped : ¬rowAccepted cfg req.tokens.length backend = true) :
    keysPut cfg (fun _ => none) [] = keysPut cfg m (depthRoutes cfg req backend) ↔
      DepthsRestored cfg m req backend := by
  rw [depthRoutes, keysPut_takenDepths, DepthsRestored]
  dsimp only
  rw [if_neg hdropped,
    show ([] : List PendingRoute) = ([] : List ℕ).map fun d => ⟨req.tokens.take d, backend⟩ from rfl,
    keysPut_depths_eq_iff cfg backend (by simp) fun d hd => takenDepths_le hd]
  simp only [List.not_mem_nil, false_and, exists_false, false_iff]
  constructor
  · intro hnone d hd
    by_contra hzero
    exact hnone _ hzero ⟨d, hd, rfl⟩
  · rintro hall blocks hblocks ⟨d, hd, rfl⟩
    exact hblocks (hall d hd)

/-- **What a restart restores.** A route learned from a response, into a tree with any
routes `m`, and saved: the restart puts into the empty tree exactly the keys that learning
had put, with the same backend, when and only when the depths have the whole blocks of the
default depth. -/
theorem restored_keys_iff (cfg : PrefixConfig) (st : LearnState) (m : RouteMap)
    (req : PrefixRequest) (backend : BackendId) (router : RestartedRouter)
    (hlearned : (learnFromResponse cfg st req backend).buffered ≠ []) :
    keysPut cfg (fun _ => none)
        (restoreRoutes cfg router (learnFromResponse cfg st req backend).store) =
      keysPut cfg m (learnFromResponse cfg st req backend).buffered ↔
    DepthsRestored cfg m req backend := by
  have hstore : (⟨depthRoutes cfg req backend, [⟨req.tokens, backend⟩]⟩ : ResponseLearning).store =
      ⟨[⟨req.tokens, backend⟩], []⟩ := by
    simp [ResponseLearning.store, RoutingTables.saveRoute]
  rw [learnFromResponse_eq hlearned, hstore, restoreRoutes_row]
  split
  · next haccepted => exact keysPut_rowRoute_iff cfg m req backend haccepted
  · next hdropped => exact keysPut_nil_iff cfg m req backend hdropped

/-- A router that was just restarted. -/
def freshRouter : RestartedRouter := ⟨fun _ => freshLearnState, fun _ => rfl⟩

/-- What a response to 48 tokens leaves, on a router with the default settings that has
learned nothing yet. -/
def promptLearning (prefixBoundary : ℕ) : ResponseLearning :=
  learnFromResponse defaultPrefixConfig freshLearnState
    ⟨List.replicate 48 7, prefixBoundary, []⟩ 1

/-- Without a boundary, all three blocks come back. -/
theorem restored_keys_default :
    (promptLearning 0).buffered ≠ [] ∧
      keysPut defaultPrefixConfig (fun _ => none)
          (restoreRoutes defaultPrefixConfig freshRouter (promptLearning 0).store) =
        keysPut defaultPrefixConfig (fun _ => none) (promptLearning 0).buffered :=
  have hlearned : (promptLearning 0).buffered ≠ [] := by decide
  have hdepths : DepthsRestored defaultPrefixConfig (fun _ => none)
      ⟨List.replicate 48 7, 0, []⟩ 1 := by
    rw [DepthsRestored]
    dsimp only
    rw [if_pos (by decide)]
    decide
  ⟨hlearned, (restored_keys_iff defaultPrefixConfig freshLearnState (fun _ => none)
    ⟨List.replicate 48 7, 0, []⟩ 1 freshRouter hlearned).mpr hdepths⟩

/-- **The slip.** With the system prompt at 16 tokens the route is learned under that one
block, where every request with the prompt finds it. The row says nothing of the boundary:
the restart learns the route under all 48 tokens, and under them only. -/
theorem restored_keys_deeper :
    (promptLearning 16).saved = [⟨List.replicate 48 7, 1⟩] ∧
      keysPut defaultPrefixConfig (fun _ => none) (promptLearning 16).buffered =
        {(List.replicate 16 7, 1)} ∧
      keysPut defaultPrefixConfig (fun _ => none)
          (restoreRoutes defaultPrefixConfig freshRouter (promptLearning 16).store) =
        {(List.replicate 48 7, 1)} ∧
      keysPut defaultPrefixConfig (fun _ => none)
          (restoreRoutes defaultPrefixConfig freshRouter (promptLearning 16).store) ≠
        keysPut defaultPrefixConfig (fun _ => none) (promptLearning 16).buffered := by
  refine ⟨by decide, by decide, by decide, by decide⟩

/-! ## A whole history -/

/-- A response, and the shard whose learn path it meets. -/
structure Response : Type where
  st : LearnState
  req : PrefixRequest
  backend : BackendId

namespace Response

variable (cfg : PrefixConfig)

/-- What the response buffers and saves. -/
def learning (r : Response) : ResponseLearning := learnFromResponse cfg r.st r.req r.backend

/-- The response is learned, and alone it would be restored. -/
structure Restorable (r : Response) : Prop where
  learned : (r.learning cfg).buffered ≠ []
  accepted : rowAccepted cfg r.req.tokens.length r.backend = true
  depths : DepthsRestored cfg (fun _ => none) r.req r.backend

end Response

/-- The rows of a history in the store. -/
def storeOf (cfg : PrefixConfig) (history : List Response) : RoutingTables :=
  (history.flatMap fun r => (r.learning cfg).saved).foldl RoutingTables.saveRoute {}

/-- What is in the store was saved. -/
theorem mem_of_mem_store {rows : List SaveRouteOp} {row : SaveRouteOp}
    (h : row ∈ (rows.foldl RoutingTables.saveRoute {}).routes) : row ∈ rows := by
  induction rows using List.reverseRecOn with
  | nil => cases h
  | append_singleton rows row' ih =>
    rw [List.foldl_append] at h
    simp only [List.foldl_cons, List.foldl_nil, RoutingTables.saveRoute] at h
    rcases List.mem_append.mp h with h | h
    · refine List.mem_append_left _ (ih ?_)
      split at h
      · exact h
      · exact (List.mem_filter.mp h).1
    · exact List.mem_append_right _ h

section Histories

variable {cfg : PrefixConfig} (hplain : cfg.leastLoadedPlacement = false)

include hplain

theorem takesKey_plain (m : RouteMap) (key : List TokenId) (backend : BackendId) :
    takesKey cfg m key backend = true := by
  rw [takesKey, PrefixConfig.localTrust, hplain, decide_eq_true_eq]
  unfold settleRoute
  split <;> rfl

/-- A batch for one backend, when the last route wins. -/
theorem putAll_plain (m : RouteMap) {backend : BackendId} {batch : List PendingRoute}
    (hbackend : ∀ route ∈ batch, route.backend = backend) (key : List TokenId) :
    putAll cfg m batch key =
      if (key, backend) ∈ keysPut cfg (fun _ => none) batch then some (backend, .LOCAL)
      else m key := by
  rw [putAll_apply cfg m hbackend]
  simp only [mem_keysPut, takesKey_plain hplain]

/-- The routes of a restorable response do what its row does. -/
theorem putAll_learning {r : Response} (h : r.Restorable cfg) (m : RouteMap) :
    putAll cfg m (r.learning cfg).buffered =
      putAll cfg m [rowRoute cfg ⟨r.req.tokens, r.backend⟩] := by
  have hkeys := (keysPut_rowRoute_iff cfg (fun _ => none) r.req r.backend h.accepted).mpr h.depths
  have hbuffered : (r.learning cfg).buffered = depthRoutes cfg r.req r.backend :=
    congrArg ResponseLearning.buffered (learnFromResponse_eq h.learned)
  have hdepths : ∀ route ∈ depthRoutes cfg r.req r.backend, route.backend = r.backend := by
    intro route hroute
    obtain ⟨d, -, rfl⟩ := List.mem_map.mp hroute
    rfl
  have hrow : ∀ route ∈ [rowRoute cfg ⟨r.req.tokens, r.backend⟩], route.backend = r.backend := by
    intro route hroute
    rw [List.mem_singleton.mp hroute]
    rfl
  funext key
  rw [hbuffered, putAll_plain hplain m hdepths, putAll_plain hplain m hrow, hkeys]

/-- Learning a restorable history is learning its rows. -/
theorem putAll_history {history : List Response} (h : ∀ r ∈ history, r.Restorable cfg)
    (m : RouteMap) :
    putAll cfg m (history.flatMap fun r => (r.learning cfg).buffered) =
      putAll cfg m ((history.flatMap fun r => (r.learning cfg).saved).map (rowRoute cfg)) := by
  induction history generalizing m with
  | nil => rfl
  | cons r history ih =>
    have hr := h r List.mem_cons_self
    have hsaved : (r.learning cfg).saved = [⟨r.req.tokens, r.backend⟩] :=
      congrArg ResponseLearning.saved (learnFromResponse_eq hr.learned)
    simp only [List.flatMap_cons, hsaved, List.map_append, List.map_cons, List.map_nil]
    rw [putAll_append, putAll_append, putAll_learning hplain hr,
      ih fun r hr => h r (List.mem_cons_of_mem _ hr)]

/-! ### Rows that replace others -/

theorem putAll_rowRoute (m : RouteMap) (row : SaveRouteOp) (key : List TokenId) :
    putAll cfg m [rowRoute cfg row] key =
      if key ≠ [] ∧ storedKey cfg.blockAlignment (rowRoute cfg row).tokens = key then
        some (row.backendId, .LOCAL)
      else m key := by
  have hbackend : (rowRoute cfg row).backend = row.backendId := rfl
  have hrow : ∀ route ∈ [rowRoute cfg row], route.backend = row.backendId := by
    intro route hroute
    rw [List.mem_singleton.mp hroute, hbackend]
  rw [putAll_plain hplain m hrow]
  simp only [mem_keysPut, takesKey_plain hplain, and_true, List.mem_singleton, exists_eq_left,
    hbackend]

/-- Rows with the key `k` can be left out, as far as the other keys go. -/
theorem putAll_filter {m m' : RouteMap} {k : List TokenId} {keep : SaveRouteOp → Bool}
    {rows : List SaveRouteOp}
    (hkeep : ∀ row ∈ rows, keep row = false →
      storedKey cfg.blockAlignment (rowRoute cfg row).tokens = k)
    (hagree : ∀ key, key = [] ∨ key ≠ k → m key = m' key) (key : List TokenId)
    (hkey : key = [] ∨ key ≠ k) :
    putAll cfg m (rows.map (rowRoute cfg)) key =
      putAll cfg m' ((rows.filter keep).map (rowRoute cfg)) key := by
  induction rows generalizing m m' with
  | nil => exact hagree key hkey
  | cons row rows ih =>
    have hrest := fun row' hrow' => hkeep row' (List.mem_cons_of_mem row hrow')
    rw [show putAll cfg m ((row :: rows).map (rowRoute cfg)) =
      putAll cfg (putAll cfg m [rowRoute cfg row]) (rows.map (rowRoute cfg)) from rfl]
    cases hrow : keep row with
    | true =>
      rw [List.filter_cons_of_pos hrow,
        show putAll cfg m' ((row :: rows.filter keep).map (rowRoute cfg)) =
          putAll cfg (putAll cfg m' [rowRoute cfg row])
            ((rows.filter keep).map (rowRoute cfg)) from rfl]
      refine ih hrest fun key hkey => ?_
      rw [putAll_rowRoute hplain, putAll_rowRoute hplain, hagree key hkey]
    | false =>
      rw [List.filter_cons_of_neg (by simp [hrow])]
      refine ih hrest fun key hkey => ?_
      rw [putAll_rowRoute hplain, if_neg, hagree key hkey]
      -- the row's own key is `k`
      rintro ⟨hne, hstored⟩
      exact hkey.elim hne fun hk =>
        hk (hstored.symm.trans (hkeep row List.mem_cons_self hrow))

/-- The store keeps of the rows with one token sequence the last, which is the one whose
backend the tree has. -/
theorem putAll_store (rows : List SaveRouteOp) (m : RouteMap) :
    putAll cfg m (rows.map (rowRoute cfg)) =
      putAll cfg m ((rows.foldl RoutingTables.saveRoute {}).routes.map (rowRoute cfg)) := by
  induction rows using List.reverseRecOn with
  | nil => rfl
  | append_singleton rows row ih =>
    rw [List.foldl_append, List.map_append, putAll_append, ih]
    generalize rows.foldl RoutingTables.saveRoute {} = tables
    simp only [List.foldl_cons, List.foldl_nil, RoutingTables.saveRoute, List.map_append,
      putAll_append, List.map_cons, List.map_nil]
    funext key
    rw [putAll_rowRoute hplain, putAll_rowRoute hplain]
    split
    · rfl
    · next hother =>
      split
      · rfl
      · -- the rows it replaces have its key
        have hreplaced : ∀ row' ∈ tables.routes, decide (row'.tokens ≠ row.tokens) = false →
            storedKey cfg.blockAlignment (rowRoute cfg row').tokens =
              storedKey cfg.blockAlignment (rowRoute cfg row).tokens := by
          intro row' _ hrow'
          have htokens : row'.tokens = row.tokens := by simpa using hrow'
          rw [rowRoute, rowRoute, htokens]
        refine putAll_filter hplain hreplaced (fun _ _ => rfl) key ?_
        rcases eq_or_ne key [] with hnil | hne
        · exact .inl hnil
        · exact .inr fun heq => hother ⟨hne, heq.symm⟩

/-- **A history is restored.** When the last route wins, every response of the history is
learned and would be restored alone, and the restore fits into one batch: the restart gives
the tree the routes that the history had given it. -/
theorem restored_history {history : List Response} (h : ∀ r ∈ history, r.Restorable cfg)
    {router : RestartedRouter}
    (hunflushed : ∀ learned tokens, (router.after learned).existing tokens = none) :
    putAll cfg (fun _ => none) (restoreRoutes cfg router (storeOf cfg history)) =
      putAll cfg (fun _ => none) (history.flatMap fun r => (r.learning cfg).buffered) := by
  have haccepted : ∀ row ∈ (storeOf cfg history).routes,
      rowAccepted cfg row.tokens.length row.backendId = true := by
    intro row hrow
    obtain ⟨r, hr, hsaved⟩ := List.mem_flatMap.mp (mem_of_mem_store hrow)
    rw [Response.learning, learnFromResponse_eq (h r hr).learned, List.mem_singleton] at hsaved
    rw [hsaved]
    exact (h r hr).accepted
  rw [restoreRoutes_unflushed cfg hunflushed, List.filter_eq_self.mpr haccepted,
    putAll_history hplain h]
  exact (putAll_store hplain _ _).symm

end Histories

end Ranvier
