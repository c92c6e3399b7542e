import Ranvier.RadixIds
import Mathlib.Data.PNat.Defs

/-!
# The radix tree as a map of routes

`RadixTree` with its public operations, and the map it is meant to be: `RouteMap`
takes block-aligned token sequences to a backend and an origin, and `MapStep`
says what each operation may do to it.

* `Represents t m` — the observations of a tree (`lookup`, `for_each_leaf`) are
  those of the map `m`;
* `run_represents` — every run whose insertions split no path past
  `MAX_PREFIX_LENGTH` is a run of the map;
* `run_not_represents` — without that proviso it is not: two insertions suffice.
-/

namespace Ranvier

mutual

/-- The node an identity points at. -/
def Node.findNode (target : ℕ) : Node → Option Node
  | ⟨type, id, pre, leafValue, origin, keyTokens, lastAccessed, index, kids⟩ =>
    if id = target then
      some ⟨type, id, pre, leafValue, origin, keyTokens, lastAccessed, index, kids⟩
    else findNodeKids target kids

/-- The same below a node. -/
def findNodeKids (target : ℕ) : List (UInt8 × Node) → Option Node
  | [] => none
  | (_, c) :: kids =>
    match c.findNode target with
    | some n => some n
    | none => findNodeKids target kids

end

/-! ## The tree and its operations -/

/-- `RadixTree`. -/
structure RadixTree : Type where
  /-- `root_` -/
  root : Node
  /-- `block_alignment_`; a divisor in every insertion, so positive -/
  blockAlignment : ℕ+
  /-- `route_count_` -/
  routeCount : ℕ
  /-- the bookkeeping beside the nodes -/
  book : TreeBook

namespace RadixTree

/-- The constructor: an empty `Node4` as the root. -/
def create (blockAlignment : ℕ+) (now : ℕ) : RadixTree :=
  let r := makeNode .Node4 { TreeBook.empty with now := now }
  ⟨r.1, blockAlignment, 0, r.2⟩

/-- `(tokens.size() / block_alignment_) * block_alignment_`. -/
def alignedLen (blockAlignment : ℕ+) (tokens : List TokenId) : ℕ :=
  tokens.length / blockAlignment * blockAlignment

/-- The block-aligned part of a token sequence. -/
def alignedTokens (blockAlignment : ℕ+) (tokens : List TokenId) : List TokenId :=
  tokens.take (alignedLen blockAlignment tokens)

/-- The body shared by `insert` and `insert_if_trusted`. -/
def insertWith (t : RadixTree) (now : ℕ) (tokens : List TokenId) (backend : BackendId)
    (origin : RouteOrigin) (trust : Option Bool) : RadixTree × TrustInsertResult :=
  let len := alignedLen t.blockAlignment tokens
  if len = 0 then (t, .REFUSED)
  else
    let keyBytes := encodeTokensBe (alignedTokens t.blockAlignment tokens)
    -- `key_tokens` is passed as a `uint32_t`
    let r := insertRecursive ⟨backend, origin, len % 2 ^ 32, trust⟩ t.root keyBytes
      { t.book with now := now }
    ({ t with
       root := r.node
       routeCount := if r.isNewRoute then t.routeCount + 1 else t.routeCount
       book := r.book }, r.trustResult)

/-- `insert`. -/
def insert (t : RadixTree) (now : ℕ) (tokens : List TokenId) (backend : BackendId)
    (origin : RouteOrigin) : RadixTree :=
  (t.insertWith now tokens backend origin none).1

/-- `insert_if_trusted`. -/
def insertIfTrusted (t : RadixTree) (now : ℕ) (tokens : List TokenId) (backend : BackendId)
    (origin : RouteOrigin) (convergeLocalConflicts : Bool) : RadixTree × TrustInsertResult :=
  t.insertWith now tokens backend origin (some convergeLocalConflicts)

/-- `lookup`: the answer, and the tree after the match was touched. -/
def lookup (t : RadixTree) (now : ℕ) (tokens : List TokenId) : Option BackendId × RadixTree :=
  match t.root.lookupWalk (encodeTokensBe tokens) none with
  | none => (none, t)
  | some best =>
    (best.leafValue,
     { t with
       root := t.root.writeAt best.id (fun n => { n with lastAccessed := now })
       book := { t.book with now := now, lru := t.book.lru.touch best.origin best.id } })

/-- `for_each_leaf`. -/
def forEachLeaf (t : RadixTree) : List RouteEntry := t.root.forEachLeafRecursive []

/-- `evict_leaf`. -/
def evictLeaf (t : RadixTree) (victim : Node) : RadixTree :=
  let book := { t.book with lru := t.book.lru.remove victim.origin victim.id }
  { t with
    root := t.root.writeAt victim.id (fun n => { n with leafValue := none })
    routeCount := t.routeCount - 1
    book := book.noteRouteRemoved victim.leafValue victim.keyTokens }

/-- The node at the tail of an origin's recency list. -/
def lruTail (t : RadixTree) (origin : RouteOrigin) : Option Node :=
  (t.book.lru.tail origin).bind fun i => t.root.findNode i

/-- The comparison of the loop in `evict_oldest`. -/
def olderOf (oldest tail : Option Node) : Option Node :=
  match tail, oldest with
  | some n, some o => if n.lastAccessed < o.lastAccessed then some n else some o
  | some n, none => some n
  | none, _ => oldest

/-- `evict_oldest`: the origins are tried lowest trust first. -/
def evictOldest (t : RadixTree) : RadixTree × Bool :=
  match [RouteOrigin.REMOTE, .PUSH, .LOCAL].foldl (fun o r => olderOf o (t.lruTail r)) none with
  | none => (t, false)
  | some oldest => (t.evictLeaf oldest, true)

/-- `evict_lowest_trust`. -/
def evictLowestTrust (t : RadixTree) : RadixTree × Bool :=
  match t.lruTail .REMOTE with
  | some victim => (t.evictLeaf victim, true)
  | none =>
    match t.lruTail .PUSH with
    | some victim => (t.evictLeaf victim, true)
    | none => t.evictOldest

/-- The body shared by the three removals: the tree and the number removed. -/
def removeWhere (t : RadixTree) (p : Node.Leaf → Bool) : RadixTree × ℕ :=
  let r := t.root.removeIf p (t.book, 0)
  ({ t with
     root := r.1
     routeCount := if t.routeCount > r.2.2 then t.routeCount - r.2.2 else 0
     book := r.2.1 }, r.2.2)

/-- `remove_expired` with one cutoff. -/
def removeExpired (t : RadixTree) (cutoff : ℕ) : RadixTree × ℕ :=
  t.removeWhere fun l => l.lastAccessed < cutoff

/-- `remove_expired` with a cutoff per backend. -/
def removeExpiredPerBackend (t : RadixTree) (cutoffFn : BackendId → ℕ) : RadixTree × ℕ :=
  t.removeWhere fun l => l.lastAccessed < cutoffFn l.backend

/-- `remove_routes_by_backend`. -/
def removeRoutesByBackend (t : RadixTree) (backend : BackendId) (origin : RouteOrigin) :
    RadixTree × ℕ :=
  t.removeWhere fun l => l.backend = backend ∧ l.origin = origin

/-- `compact`. -/
def compact (t : RadixTree) : RadixTree × CompactionStats :=
  let r := t.root.compactChildren ⟨0, 0, 0⟩ t.book
  let r := r.1.shrinkIfNeeded r.2.1 r.2.2
  ({ t with root := r.1, book := r.2.2 }, r.2.1)

end RadixTree

/-- The operations on a tree. -/
inductive TreeOp : Type where
  | insert (tokens : List TokenId) (backend : BackendId) (origin : RouteOrigin)
  | insertIfTrusted (tokens : List TokenId) (backend : BackendId) (origin : RouteOrigin)
      (converge : Bool)
  | lookup (tokens : List TokenId)
  | evictOldest
  | evictLowestTrust
  | removeExpired (cutoff : ℕ)
  | removeExpiredPerBackend (cutoffFn : BackendId → ℕ)
  | removeRoutesByBackend (backend : BackendId) (origin : RouteOrigin)
  | compact

namespace RadixTree

/-- One operation at clock reading `now`. -/
def step (t : RadixTree) (now : ℕ) : TreeOp → RadixTree
  | .insert tokens backend origin => t.insert now tokens backend origin
  | .insertIfTrusted tokens backend origin converge =>
    (t.insertIfTrusted now tokens backend origin converge).1
  | .lookup tokens => (t.lookup now tokens).2
  | .evictOldest => t.evictOldest.1
  | .evictLowestTrust => t.evictLowestTrust.1
  | .removeExpired cutoff => (t.removeExpired cutoff).1
  | .removeExpiredPerBackend cutoffFn => (t.removeExpiredPerBackend cutoffFn).1
  | .removeRoutesByBackend backend origin => (t.removeRoutesByBackend backend origin).1
  | .compact => t.compact.1

/-- A sequence of operations, each with its clock reading. -/
def run (t : RadixTree) : List (ℕ × TreeOp) → RadixTree
  | [] => t
  | (now, op) :: ops => (t.step now op).run ops

/-- The descent of the insertion of `tokens` splits no path past
`MAX_PREFIX_LENGTH`. -/
def insertWithinMax (t : RadixTree) (tokens : List TokenId) : Bool :=
  t.root.splitsWithinMax (encodeTokensBe (alignedTokens t.blockAlignment tokens))

/-- The same of an operation: only insertions split. -/
def stepWithinMax (t : RadixTree) : TreeOp → Bool
  | .insert tokens _ _ => t.insertWithinMax tokens
  | .insertIfTrusted tokens _ _ _ => t.insertWithinMax tokens
  | _ => true

/-- Every step of a run, in the state it meets, splits no path past
`MAX_PREFIX_LENGTH`. -/
def runWithinMax (t : RadixTree) : List (ℕ × TreeOp) → Bool
  | [] => true
  | (now, op) :: ops => t.stepWithinMax op && (t.step now op).runWithinMax ops

end RadixTree

/-! ## The map of routes -/

/-- What a tree is for: a partial map from token sequences to a backend and the
origin the route was learned from. -/
abbrev RouteMap : Type := List TokenId → Option (BackendId × RouteOrigin)

/-- The route at a key after a request for it. Without a trust policy the request
wins; with one, a more trusted route stands, and under convergence the lower
backend id wins among routes that were not pushed. -/
def settleRoute (backend : BackendId) (origin : RouteOrigin) (trust : Option Bool) :
    Option (BackendId × RouteOrigin) → BackendId × RouteOrigin
  | none => (backend, origin)
  | some (heldBackend, heldOrigin) =>
    match trust with
    | none => (backend, origin)
    | some converge =>
      if converge = true ∧ origin ≠ .PUSH ∧ heldBackend ≠ backend ∧ heldOrigin ≠ .PUSH then
        if backend < heldBackend then (backend, origin) else (heldBackend, heldOrigin)
      else if heldOrigin.index < origin.index then (heldBackend, heldOrigin)
      else (backend, origin)

/-- An insertion settles the entry of its aligned key; a key shorter than one
block is not inserted. -/
def RouteMap.put (m : RouteMap) (blockAlignment : ℕ+) (tokens : List TokenId)
    (backend : BackendId) (origin : RouteOrigin) (trust : Option Bool) : RouteMap :=
  let key := RadixTree.alignedTokens blockAlignment tokens
  if key = [] then m
  else Function.update m key (some (settleRoute backend origin trust (m key)))

/-- What an operation may do to the map. -/
def MapStep (blockAlignment : ℕ+) (m : RouteMap) : TreeOp → RouteMap → Prop
  | .insert tokens backend origin, m' => m' = m.put blockAlignment tokens backend origin none
  | .insertIfTrusted tokens backend origin converge, m' =>
    m' = m.put blockAlignment tokens backend origin (some converge)
  | .lookup _, m' => m' = m
  | .evictOldest, m' => m' = m ∨ ∃ victim, m' = Function.update m victim none
  | .evictLowestTrust, m' => m' = m ∨ ∃ victim, m' = Function.update m victim none
  | .removeExpired _, m' => ∀ key, m' key = m key ∨ m' key = none
  | .removeExpiredPerBackend _, m' => ∀ key, m' key = m key ∨ m' key = none
  | .removeRoutesByBackend backend origin, m' =>
    m' = fun key => (m key).filter fun r => !decide (r = (backend, origin))
  | .compact, m' => m' = m

/-- A run of the map. -/
inductive MapRun (blockAlignment : ℕ+) : RouteMap → List (ℕ × TreeOp) → RouteMap → Prop where
  | nil (m : RouteMap) : MapRun blockAlignment m [] m
  | cons {m m' m'' : RouteMap} {now : ℕ} {op : TreeOp} {ops : List (ℕ × TreeOp)}
      (first : MapStep blockAlignment m op m') (rest : MapRun blockAlignment m' ops m'') :
      MapRun blockAlignment m ((now, op) :: ops) m''

/-- The observations of the tree `t` are those of the map `m`. -/
structure Represents (t : RadixTree) (m : RouteMap) : Prop where
  /-- keys are non-empty and block-aligned -/
  aligned : ∀ tokens, m tokens ≠ none →
    tokens ≠ [] ∧ (t.blockAlignment : ℕ) ∣ tokens.length
  /-- `lookup` answers with the longest stored prefix -/
  lookup : ∀ now tokens,
    IsLongestMatch (fun key => (m key).map Prod.fst) tokens (t.lookup now tokens).1
  /-- `for_each_leaf` emits no key twice … -/
  nodup : (t.forEachLeaf.map RouteEntry.tokens).Nodup
  /-- … and exactly the stored routes -/
  emits : ∀ tokens backend origin, m tokens = some (backend, origin) ↔
    ∃ e, e ∈ t.forEachLeaf ∧ e.tokens = tokens ∧ e.backend = backend ∧ e.origin = origin

/-- The backend and the origin of a held route. -/
def Node.Leaf.route (l : Node.Leaf) : BackendId × RouteOrigin := (l.backend, l.origin)

/-! ## The invariant -/

namespace RadixTree

/-- What every operation keeps. -/
structure Inv (t : RadixTree) : Prop where
  /-- the nodes are well formed -/
  wf : t.root.WF
  /-- a stored byte key encodes a non-empty, block-aligned token sequence -/
  keys : ∀ key, (t.root.stored key).isSome →
    ∃ tokens, key = encodeTokensBe tokens ∧ tokens ≠ [] ∧
      (t.blockAlignment : ℕ) ∣ tokens.length
  /-- no identity occurs twice -/
  unique : ∀ i, t.root.idCount i ≤ 1
  /-- identities were handed out by the allocator -/
  handedOut : ∀ i, t.book.nextId ≤ i → t.root.idCount i = 0

/-- The map a tree stands for. -/
def routes (t : RadixTree) : RouteMap := fun tokens =>
  (t.root.stored (encodeTokensBe tokens)).map Node.Leaf.route

theorem stored_emptyRoot (book : TreeBook) (key : List UInt8) :
    (makeNode .Node4 book).1.stored key = none :=
  Node.stored_of_isNodeEmpty rfl key

theorem create_inv (blockAlignment : ℕ+) (now : ℕ) : (create blockAlignment now).Inv where
  wf := Node.WF.mk _
    (Node.Shape.keyed rfl List.nodup_nil (by decide : 0 ≤ 4)
      (by decide : NodeType.Node4 ≠ NodeType.Node48)
      (by decide : NodeType.Node4 ≠ NodeType.Node256))
    fun b c hc => by cases hc
  keys key h := by
    have hnone : (create blockAlignment now).root.stored key = none := stored_emptyRoot _ key
    rw [hnone] at h
    cases h
  unique i := by
    rw [Node.idCount_eq]
    change (if 0 = i then 1 else 0) + 0 ≤ 1
    split <;> omega
  handedOut i hi := by
    rw [Node.idCount_eq]
    change (if 0 = i then 1 else 0) + 0 = 0
    rw [if_neg (by change 1 ≤ i at hi; omega)]

theorem create_routes (blockAlignment : ℕ+) (now : ℕ) :
    (create blockAlignment now).routes = fun _ => none := by
  funext tokens
  have hnone : (create blockAlignment now).root.stored (encodeTokensBe tokens) = none :=
    stored_emptyRoot _ _
  rw [routes, hnone]
  rfl

/-- Stored keys of a well-kept tree are exactly the encoded keys of its map. -/
theorem mem_forEachLeaf {t : RadixTree} (h : t.Inv) {e : RouteEntry} :
    e ∈ t.forEachLeaf ↔ ∃ l, t.root.stored (encodeTokensBe e.tokens) = some l ∧
      e = ⟨e.tokens, l.backend, l.origin, l.lastAccessed⟩ := by
  rw [forEachLeaf, Node.forEachLeafRecursive_eq, List.mem_map]
  constructor
  · rintro ⟨⟨key, l⟩, hmem, rfl⟩
    rw [Node.mem_leafPaths h.wf] at hmem
    obtain ⟨tokens, rfl, -⟩ := h.keys key (by rw [hmem]; rfl)
    refine ⟨l, ?_, rfl⟩
    simp only [Node.entryAt, List.nil_append, decodeTokensBe_encode]
    exact hmem
  · rintro ⟨l, hl, he⟩
    refine ⟨(encodeTokensBe e.tokens, l), (Node.mem_leafPaths h.wf).mpr hl, ?_⟩
    rw [he, Node.entryAt, List.nil_append, decodeTokensBe_encode]

theorem lookup_fst (t : RadixTree) (now : ℕ) (tokens : List TokenId) :
    (t.lookup now tokens).1 =
      (t.root.lookupWalk (encodeTokensBe tokens) none).bind fun best => best.leafValue := by
  unfold lookup
  split
  · rename_i hnone
    rw [hnone]
    rfl
  · rename_i best hbest
    rw [hbest]
    rfl

/-- **Observations.** A well-kept tree shows the map it stands for. -/
theorem Inv.represents {t : RadixTree} (h : t.Inv) : Represents t t.routes where
  aligned tokens hne := by
    have hsome : (t.root.stored (encodeTokensBe tokens)).isSome := by
      rw [routes, ne_eq, Option.map_eq_none_iff] at hne
      exact Option.isSome_iff_ne_none.mpr hne
    obtain ⟨tokens', he, hpos, hdvd⟩ := h.keys _ hsome
    rw [encodeTokensBe_injective he]
    exact ⟨hpos, hdvd⟩
  lookup now tokens := by
    have hmap : ∀ key, (t.routes key).map Prod.fst =
        (t.root.stored (encodeTokensBe key)).map fun l => l.backend := by
      intro key
      rw [routes, Option.map_map]
      rfl
    have hmatch : IsLongestMatch
        (fun key => (t.root.stored (encodeTokensBe key)).map fun l => l.backend) tokens
        (t.lookup now tokens).1 := by
      rw [lookup_fst]
      -- the walk speaks of byte prefixes, the map of token prefixes
      rcases Node.lookupWalk_spec h.wf (encodeTokensBe tokens) none with
        ⟨hno, hres⟩ | ⟨p, n, hp, hres, hpn, hn, hmax⟩
      · rw [hres]
        refine isLongestMatch_none fun key hkey => ?_
        rw [hno _ (encodeTokensBe_isPrefix_iff.mpr hkey)]
        rfl
      · obtain ⟨key, rfl, -⟩ := h.keys p (by rw [hpn]; exact hn)
        have hleaf : n.leaf.map (fun l => l.backend) = n.leafValue := by
          rw [Node.leaf, Option.map_map]
          exact Option.map_id'
        rw [hres, Option.bind_some, ← hleaf]
        refine Or.inr ⟨key, encodeTokensBe_isPrefix_iff.mp hp,
          congrArg (Option.map fun l => l.backend) hpn, ?_, fun q hq hsome => ?_⟩
        · rw [Option.isSome_map]
          exact hn
        · rw [Option.isSome_map] at hsome
          have hlen := hmax _ (encodeTokensBe_isPrefix_iff.mpr hq) hsome
          simp only [length_encodeTokensBe] at hlen
          omega
    simpa only [hmap] using hmatch
  nodup := by
    have hkeys := Node.leafPaths_nodup h.wf
    have hpairs : t.root.leafPaths.Nodup := List.Nodup.of_map _ hkeys
    rw [forEachLeaf, Node.forEachLeafRecursive_eq, List.map_map]
    -- two leaves with one entry have one key, hence are one leaf
    refine List.Nodup.map_on ?_ hpairs
    rintro ⟨key, l⟩ hmem ⟨key', l'⟩ hmem' he
    rw [Node.mem_leafPaths h.wf] at hmem hmem'
    obtain ⟨tokens, rfl, -⟩ := h.keys key (by rw [hmem]; rfl)
    obtain ⟨tokens', rfl, -⟩ := h.keys key' (by rw [hmem']; rfl)
    simp only [Function.comp_apply, Node.entryAt, List.nil_append, decodeTokensBe_encode] at he
    subst he
    rw [hmem] at hmem'
    rw [Option.some.inj hmem']
  emits tokens backend origin := by
    rw [routes, Option.map_eq_some_iff]
    constructor
    · rintro ⟨l, hl, he⟩
      obtain ⟨rfl, rfl⟩ := Prod.mk.inj he
      exact ⟨⟨tokens, l.backend, l.origin, l.lastAccessed⟩,
        (mem_forEachLeaf h).mpr ⟨l, hl, rfl⟩, rfl, rfl, rfl⟩
    · rintro ⟨e, hmem, rfl, rfl, rfl⟩
      obtain ⟨l, hl, he⟩ := (mem_forEachLeaf h).mp hmem
      refine ⟨l, hl, ?_⟩
      rw [he]
      rfl

/-! ## Each operation is a step of the map -/

/-- The effect of a request on a route, seen as backend and origin. -/
theorem settle_route (req : InsertRequest) (now : ℕ) (held : Option Node.Leaf) :
    (settle req now held).map Node.Leaf.route =
      some (settleRoute req.backend req.origin req.trust
        (held.map Node.Leaf.route)) := by
  obtain ⟨backend, origin, keyTokens, trust⟩ := req
  rcases held with _ | l
  · rw [settle_none]
    rfl
  · rcases trust with _ | converge
    · rfl
    · simp only [settle, settleRoute, Option.map_some, Node.Leaf.route]
      split_ifs <;> rfl

theorem length_alignedTokens (blockAlignment : ℕ+) (tokens : List TokenId) :
    (alignedTokens blockAlignment tokens).length = alignedLen blockAlignment tokens := by
  have hle : alignedLen blockAlignment tokens ≤ tokens.length := Nat.div_mul_le_self _ _
  rw [alignedTokens, List.length_take, Nat.min_eq_left hle]

/-- Only a sequence shorter than one block has an empty key. -/
theorem alignedTokens_eq_nil_iff {blockAlignment : ℕ+} {tokens : List TokenId} :
    alignedTokens blockAlignment tokens = [] ↔ alignedLen blockAlignment tokens = 0 := by
  rw [← List.length_eq_zero_iff, length_alignedTokens]

theorem insertWith_step {t : RadixTree} (h : t.Inv) (now : ℕ) (tokens : List TokenId)
    (backend : BackendId) (origin : RouteOrigin) (trust : Option Bool)
    (hmax : t.insertWithinMax tokens = true) :
    (t.insertWith now tokens backend origin trust).1.Inv ∧
      (t.insertWith now tokens backend origin trust).1.blockAlignment = t.blockAlignment ∧
      (t.insertWith now tokens backend origin trust).1.routes =
        t.routes.put t.blockAlignment tokens backend origin trust := by
  unfold insertWith
  by_cases hlen : alignedLen t.blockAlignment tokens = 0
  · simp only [if_pos hlen]
    refine ⟨h, trivial, ?_⟩
    rw [RouteMap.put, if_pos (alignedTokens_eq_nil_iff.mpr hlen)]
  simp only [if_neg hlen]
  have hne : alignedTokens t.blockAlignment tokens ≠ [] :=
    fun hnil => hlen (alignedTokens_eq_nil_iff.mp hnil)
  obtain ⟨hwf, hstored⟩ := insertRecursive_spec
    ⟨backend, origin, alignedLen t.blockAlignment tokens % 2 ^ 32, trust⟩ t.root
    (encodeTokensBe (alignedTokens t.blockAlignment tokens)) { t.book with now := now } h.wf hmax
  have halloc := Node.insertRecursive_allocates
    ⟨backend, origin, alignedLen t.blockAlignment tokens % 2 ^ 32, trust⟩ t.root
    (encodeTokensBe (alignedTokens t.blockAlignment tokens)) { t.book with now := now } h.wf hmax
  generalize insertRecursive
    ⟨backend, origin, alignedLen t.blockAlignment tokens % 2 ^ 32, trust⟩ t.root
    (encodeTokensBe (alignedTokens t.blockAlignment tokens)) { t.book with now := now } = r at *
  -- new nodes carry identities that were not in use
  obtain ⟨hunique, hout⟩ := halloc.distinct h.unique h.handedOut
  refine ⟨⟨hwf, fun key hkey => ?_, hunique, hout⟩, trivial, ?_⟩
  · by_cases hk : key = encodeTokensBe (alignedTokens t.blockAlignment tokens)
    · refine ⟨_, hk, hne, ?_⟩
      rw [length_alignedTokens, alignedLen]
      exact Nat.dvd_mul_left _ _
    · rw [hstored, if_neg hk] at hkey
      exact h.keys key hkey
  · funext key
    rw [routes, RouteMap.put, if_neg hne, hstored]
    by_cases hk : key = alignedTokens t.blockAlignment tokens
    · rw [hk, if_pos rfl, settle_route, Function.update_self]
      rfl
    · rw [if_neg (fun he => hk (encodeTokensBe_injective he)), Function.update_of_ne hk]
      rfl

/-- A step that edits routes in place and leaves the identities alone. -/
theorem Inv.edited {t t' : RadixTree} (h : t.Inv) {R : Option Node.Leaf → Option Node.Leaf → Prop}
    (hedit : Node.Edited R t.root t'.root) (h₀ : R none none)
    (hR : ∀ l, ¬ R none (some l)) (hcount : ∀ i, t'.root.idCount i = t.root.idCount i)
    (hnext : t'.book.nextId = t.book.nextId) (halign : t'.blockAlignment = t.blockAlignment) :
    t'.Inv where
  wf := hedit.wf h.wf
  keys key hkey := by
    rw [halign]
    refine h.keys key ?_
    have hrel := hedit.stored h₀ key
    rcases hs : t.root.stored key with _ | l
    · obtain ⟨l', hl'⟩ := Option.isSome_iff_exists.mp hkey
      rw [hs, hl'] at hrel
      exact absurd hrel (hR l')
    · rfl
  unique i := by
    rw [hcount]
    exact h.unique i
  handedOut i hi := by
    rw [hcount]
    rw [hnext] at hi
    exact h.handedOut i hi

theorem removeWhere_step {t : RadixTree} (h : t.Inv) (p : Node.Leaf → Bool) :
    (t.removeWhere p).1.Inv ∧ (t.removeWhere p).1.blockAlignment = t.blockAlignment ∧
      ∀ key, (t.removeWhere p).1.root.stored key =
        (t.root.stored key).filter fun l => !p l := by
  have hedit := Node.removeIf_edited p t.root (t.book, 0)
  have hids := fun i => Node.removeIf_idCount p t.root (t.book, 0) i
  refine ⟨h.edited hedit rfl ?_ (fun i => (hids i).1) (hids 0).2 rfl, rfl, ?_⟩
  · intro l hl
    cases hl
  · exact fun key => hedit.stored rfl key

theorem lookup_step {t : RadixTree} (h : t.Inv) (now : ℕ) (tokens : List TokenId) :
    (t.lookup now tokens).2.Inv ∧
      (t.lookup now tokens).2.blockAlignment = t.blockAlignment ∧
      (t.lookup now tokens).2.routes = t.routes := by
  unfold lookup
  split
  · exact ⟨h, rfl, rfl⟩
  · rename_i best hbest
    have hedit := Node.writeAt_edited
      (R := fun l l' => l'.map Node.Leaf.route =
        l.map Node.Leaf.route)
      best.id (fun n => { n with lastAccessed := now })
      (fun m => ⟨rfl, rfl, rfl, rfl, by simp only [Node.leaf, Option.map_map]; rfl⟩)
      (fun _ => rfl) t.root
    have hcount := fun i => Node.writeAt_idCount best.id (fun n => { n with lastAccessed := now })
      (fun _ => ⟨rfl, rfl⟩) i t.root
    refine ⟨h.edited hedit rfl ?_ hcount rfl rfl, rfl, ?_⟩
    · intro l hl
      cases hl
    · funext key
      exact hedit.stored rfl _

theorem evictLeaf_step {t : RadixTree} (h : t.Inv) (victim : Node) :
    (t.evictLeaf victim).Inv ∧ (t.evictLeaf victim).blockAlignment = t.blockAlignment ∧
      ((t.evictLeaf victim).routes = t.routes ∨
        ∃ key, (t.evictLeaf victim).routes = Function.update t.routes key none) := by
  have hedit := Node.writeAt_edited (R := fun l l' => l' = l ∨ l' = none) victim.id
    (fun n => { n with leafValue := none })
    (fun m => ⟨rfl, rfl, rfl, rfl, Or.inr rfl⟩) (fun _ => Or.inl rfl) t.root
  obtain ⟨bytes, hone⟩ := Node.writeAt_one h.wf (h.unique victim.id)
    (f := fun n => { n with leafValue := none }) fun _ => ⟨rfl, rfl⟩
  have hcount := fun i => Node.writeAt_idCount victim.id (fun n => { n with leafValue := none })
    (fun _ => ⟨rfl, rfl⟩) i t.root
  refine ⟨h.edited hedit (Or.inl rfl) ?_ hcount (Node.noteRouteRemoved_nextId _ _ _) rfl, rfl, ?_⟩
  · rintro l (hl | hl) <;> cases hl
  by_cases hkey : ∃ tokens, bytes = encodeTokensBe tokens
  · obtain ⟨tokens, rfl⟩ := hkey
    have hother : ∀ key, key ≠ tokens → (t.evictLeaf victim).routes key = t.routes key := by
      intro key hne
      exact congrArg (Option.map Node.Leaf.route)
        (hone _ fun he => hne (encodeTokensBe_injective he))
    rcases hedit.stored (Or.inl rfl) (encodeTokensBe tokens) with hsame | hgone
    · refine Or.inl (funext fun key => ?_)
      by_cases hk : key = tokens
      · rw [hk]
        exact congrArg (Option.map Node.Leaf.route) hsame
      · exact hother key hk
    · refine Or.inr ⟨tokens, funext fun key => ?_⟩
      by_cases hk : key = tokens
      · rw [hk, Function.update_self]
        exact congrArg (Option.map Node.Leaf.route) hgone
      · rw [Function.update_of_ne hk]
        exact hother key hk
  · refine Or.inl (funext fun key => ?_)
    exact congrArg (Option.map Node.Leaf.route) (hone _ fun he => hkey ⟨key, he.symm⟩)

theorem compact_step {t : RadixTree} (h : t.Inv) :
    t.compact.1.Inv ∧ t.compact.1.blockAlignment = t.blockAlignment ∧
      t.compact.1.routes = t.routes := by
  obtain ⟨hwf, hstored⟩ := Node.compactChildren_spec t.root h.wf ⟨0, 0, 0⟩ t.book
  have halloc := Node.compactChildren_allocates t.root h.wf ⟨0, 0, 0⟩ t.book
  unfold compact
  generalize t.root.compactChildren ⟨0, 0, 0⟩ t.book = r at *
  have hre := Node.shrinkIfNeeded_spec hwf.shape r.2.1 r.2.2
  have hall := halloc.trans (Node.shrinkIfNeeded_allocates hwf.shape r.2.1 r.2.2)
  have hkeep : ∀ key, (r.1.shrinkIfNeeded r.2.1 r.2.2).1.stored key = t.root.stored key :=
    fun key => (hre.stored key).trans (hstored key)
  obtain ⟨hunique, hout⟩ := hall.distinct h.unique h.handedOut
  refine ⟨⟨hre.wf hwf, fun key hkey => ?_, hunique, hout⟩, rfl, ?_⟩
  · dsimp only at hkey
    rw [hkeep] at hkey
    exact h.keys key hkey
  · funext key
    exact congrArg (Option.map Node.Leaf.route) (hkeep _)

/-- **One step.** Under the invariant, an operation that splits no path past
`MAX_PREFIX_LENGTH` keeps the invariant and is a step of the map. -/
theorem step_spec {t : RadixTree} (h : t.Inv) (now : ℕ) (op : TreeOp)
    (hmax : t.stepWithinMax op = true) :
    (t.step now op).Inv ∧ (t.step now op).blockAlignment = t.blockAlignment ∧
      MapStep t.blockAlignment t.routes op (t.step now op).routes := by
  -- the expiries may drop any key, but change none
  have hdrop : ∀ p key, (t.removeWhere p).1.routes key = t.routes key ∨
      (t.removeWhere p).1.routes key = none := by
    intro p key
    rw [routes, (removeWhere_step h p).2.2, routes]
    rcases t.root.stored (encodeTokensBe key) with _ | l
    · exact Or.inl rfl
    · by_cases hp : p l = true
      · exact Or.inr (by simp [Option.filter, hp])
      · exact Or.inl (by simp [Option.filter, hp])
  cases op with
  | insert tokens backend origin => exact insertWith_step h now tokens backend origin none hmax
  | insertIfTrusted tokens backend origin converge =>
    exact insertWith_step h now tokens backend origin (some converge) hmax
  | lookup tokens => exact lookup_step h now tokens
  | evictOldest =>
    rw [step, evictOldest]
    split
    · exact ⟨h, rfl, Or.inl rfl⟩
    · exact evictLeaf_step h _
  | evictLowestTrust =>
    rw [step, evictLowestTrust]
    split
    · exact evictLeaf_step h _
    · split
      · exact evictLeaf_step h _
      · rw [evictOldest]
        split
        · exact ⟨h, rfl, Or.inl rfl⟩
        · exact evictLeaf_step h _
  | removeExpired cutoff =>
    exact ⟨(removeWhere_step h _).1, rfl, hdrop _⟩
  | removeExpiredPerBackend cutoffFn =>
    exact ⟨(removeWhere_step h _).1, rfl, hdrop _⟩
  | removeRoutesByBackend backend origin =>
    obtain ⟨hinv, halign, hstored⟩ :=
      removeWhere_step h (fun l => decide (l.backend = backend ∧ l.origin = origin))
    refine ⟨hinv, halign, funext fun key => ?_⟩
    have hkey : (t.step now (.removeRoutesByBackend backend origin)).routes key =
        ((t.root.stored (encodeTokensBe key)).filter
          fun l => !decide (l.backend = backend ∧ l.origin = origin)).map Node.Leaf.route :=
      congrArg (Option.map Node.Leaf.route) (hstored (encodeTokensBe key))
    rw [hkey, routes]
    rcases t.root.stored (encodeTokensBe key) with _ | l
    · rfl
    · by_cases hl : l.backend = backend ∧ l.origin = origin
      · simp [Option.filter, hl, Node.Leaf.route]
      · simp [Option.filter, hl, Node.Leaf.route, Prod.ext_iff]
  | compact => exact compact_step h

end RadixTree

theorem RadixTree.run_spec {t : RadixTree} (h : t.Inv) (ops : List (ℕ × TreeOp))
    (hmax : t.runWithinMax ops = true) :
    (t.run ops).Inv ∧ MapRun t.blockAlignment t.routes ops (t.run ops).routes := by
  induction ops generalizing t with
  | nil => exact ⟨h, MapRun.nil _⟩
  | cons p ops ih =>
    obtain ⟨now, op⟩ := p
    rw [RadixTree.runWithinMax, Bool.and_eq_true] at hmax
    obtain ⟨hinv, halign, hstep⟩ := RadixTree.step_spec h now op hmax.1
    obtain ⟨hrun, hmap⟩ := ih hinv hmax.2
    rw [halign] at hmap
    exact ⟨hrun, MapRun.cons hstep hmap⟩

/-- **The tree is a map.** Every run from an empty tree whose insertions split no
path past `MAX_PREFIX_LENGTH` is a run of the map of routes, and the tree it ends
in shows that map. -/
theorem run_represents (blockAlignment : ℕ+) (now₀ : ℕ) (ops : List (ℕ × TreeOp))
    (hmax : (RadixTree.create blockAlignment now₀).runWithinMax ops = true) :
    ∃ m, MapRun blockAlignment (fun _ => none) ops m ∧
      Represents ((RadixTree.create blockAlignment now₀).run ops) m := by
  obtain ⟨hinv, hrun⟩ := RadixTree.run_spec (RadixTree.create_inv blockAlignment now₀) ops hmax
  rw [RadixTree.create_routes] at hrun
  exact ⟨_, hrun, hinv.represents⟩

/-- A key whose leaf needs two nodes, the second with a path still longer than
`MAX_PREFIX_LENGTH`. -/
def longKey : List TokenId := List.replicate 600 0

theorem run_represents_longKey :
    ∃ m, MapRun 1 (fun _ => none)
        [(0, .insert longKey 1 .LOCAL), (1, .insertIfTrusted (List.replicate 100 0 ++ [1]) 2 .PUSH false),
          (2, .lookup longKey), (3, .evictOldest), (4, .compact)] m ∧
      Represents ((RadixTree.create 1 0).run
        [(0, .insert longKey 1 .LOCAL), (1, .insertIfTrusted (List.replicate 100 0 ++ [1]) 2 .PUSH false),
          (2, .lookup longKey), (3, .evictOldest), (4, .compact)]) m :=
  run_represents 1 0 _ (by decide +kernel)

/-- Blocks of one token leave nothing over. -/
theorem RadixTree.alignedTokens_one (tokens : List TokenId) : alignedTokens 1 tokens = tokens := by
  rw [alignedTokens, alignedLen, PNat.one_coe, Nat.div_one, Nat.mul_one]
  exact List.take_length

/-- A key that leaves the long path after more than `MAX_PREFIX_LENGTH` bytes of
its second node. -/
def forkedKey : List TokenId := List.replicate 520 0 ++ [1]

/-- **The slip.** Inserting `longKey` and then `forkedKey` into an empty tree: the
map holds `forkedKey`, the tree does not find it. The second insertion splits a
path 1057 bytes in; `split_node` passes the node on to `split_long_prefix`, which
cuts it back to 1024 bytes, and the leaf is attached there. -/
theorem run_not_represents :
    ¬ ∃ m, MapRun 1 (fun _ => none)
        [(0, .insert longKey 1 .LOCAL), (1, .insert forkedKey 2 .LOCAL)] m ∧
      Represents ((RadixTree.create 1 0).run
        [(0, .insert longKey 1 .LOCAL), (1, .insert forkedKey 2 .LOCAL)]) m := by
  rintro ⟨m, hrun, hrep⟩
  cases hrun with
  | cons _ hrest =>
    cases hrest with
    | cons hsecond hnil =>
      cases hnil
      have hheld : m forkedKey = some (2, .LOCAL) := by
        rw [hsecond, RouteMap.put, RadixTree.alignedTokens_one, if_neg (by decide),
          Function.update_self]
        unfold settleRoute
        split <;> rfl
      have hlookup : (((RadixTree.create 1 0).run [(0, .insert longKey 1 .LOCAL),
          (1, .insert forkedKey 2 .LOCAL)]).lookup 2 forkedKey).1 = none := by decide +kernel
      rcases hrep.lookup 2 forkedKey with ⟨-, hno⟩ | ⟨p, -, -, hsome, -⟩
      · have hnone : (m forkedKey).map Prod.fst = none := hno forkedKey (List.prefix_refl _)
        rw [hheld] at hnone
        cases hnone
      · rw [hlookup] at hsome
        cases hsome

end Ranvier
