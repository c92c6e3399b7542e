import Ranvier.TokenizationCache

/-!
# The tokenizer service

`tokenizer_service.cpp`: a shard that needs the tokens of a text looks into its cache, and else
asks its thread pool, the next shard, or encodes the text itself; what it gets goes into its
cache. Requests of all shards are under way at the same time, and each may be suspended while it
waits for the pool or for the other shard.

The library's `Encode` is a parameter; every shard, and the worker of its pool, loads the same
tokenizer. A future of the pool gets the tokens of its text, or nothing when the pool is stopped
(`TokenizerPool`).

* `Good` — a cache that holds the library's tokens for every text in it;
* `Turn` — what a request may do between two suspensions, one lemma for each function;
* `step_cases` — a step is a turn of one request, or the start or end of a shard;
* `service_answers` — over every interleaving, all ways give the same tokens.

The counters for the metrics are left out.
-/

namespace Ranvier

namespace TokenizerService

open TokenizationCache

/-- `Encode`; `none` when it throws. -/
abbrev Encode : Type := List UInt8 → Option (List TokenId)

/-- `CrossShardTokenizationConfig`. -/
structure CrossShardConfig : Type where
  enabled : Bool := true
  minTextLength : ℕ := 64
  maxTextLength : ℕ := 32768
  deriving DecidableEq

/-- How the services of all shards are set up. -/
structure Config : Type where
  /-- `reactor_shard_count` -/
  shardCount : ℕ
  cache : TokenizationCacheConfig := {}
  crossShard : CrossShardConfig := {}
  /-- `set_cross_shard_refs` was given both references -/
  crossShardRefs : Bool := true
  /-- `set_thread_pool_ref` was given a pool -/
  threadPool : Bool := true
  /-- `configure_local_fallback` -/
  maxConcurrent : ℕ := 1
  deriving DecidableEq

/-- `TokenizationResult`. -/
structure Result : Type where
  tokens : List TokenId := []
  cacheHit : Bool := false
  crossShard : Bool := false
  sourceShard : ℕ := 0
  deriving DecidableEq

/-- Why a request gets no tokens although the library might have some; nothing reads it. -/
inductive Refusal : Type where
  | notLoaded
  /-- the semaphore for local tokenizations had no unit -/
  | rejected
  /-- the pool was stopped before it answered -/
  | poolStopped
  | targetNotLoaded
  deriving DecidableEq

/-- Where a request is. -/
inductive Phase : Type where
  /-- it waits for its future of the thread pool -/
  | pool
  /-- it is under way to the next shard -/
  | remote
  /-- the answer of that shard is under way: the tokens and whether they were cached there -/
  | reply (tokens : List TokenId) (cached : Bool) (refusal : Option Refusal)
  | done (result : Result) (refusal : Option Refusal)
  /-- `_impl` was dereferenced with no tokenizer loaded -/
  | crashed
  deriving DecidableEq

/-- A call of `encode_cached_async` or `encode_threaded_async`. -/
structure Request : Type where
  shard : ℕ
  text : List UInt8
  phase : Phase
  deriving DecidableEq

/-- `TokenizerService`, on one shard. -/
structure Shard : Type where
  /-- whether `_impl` is set -/
  loaded : Bool := false
  cache : TokenizationCache := {}
  /-- the units of `_local_tokenize_sem` -/
  localTokenizeSem : ℕ

/-- The shards, and every call made so far. -/
structure Service : Type where
  shards : ℕ → Shard
  requests : List Request := []

/-- What the thread pool says to a text: it does not take such texts, its queue is full, or it
has taken the job. -/
inductive PoolSays : Type where
  | notUsed
  | full
  | taken
  deriving DecidableEq

/-- A step; `addr` is what an allocation for a cache returns, if there is one. -/
inductive Action : Type where
  | loadFromJson (shard : ℕ)
  | configureCache (shard : ℕ)
  | stop (shard : ℕ)
  | encodeCachedAsync (shard : ℕ) (text : List UInt8) (addr : ℕ)
  | encodeThreadedAsync (shard : ℕ) (text : List UInt8) (pool : PoolSays) (addr : ℕ)
  /-- the future of the pool has a value -/
  | poolAnswer (request : ℕ) (stopped : Bool) (addr : ℕ)
  | poolTimeout (request addr : ℕ)
  /-- the target shard runs what was submitted to it -/
  | remote (request addr : ℕ)
  | reply (request addr : ℕ)
  deriving DecidableEq

section Functions

variable (encode : Encode) (cfg : Config)

/-- `should_dispatch_cross_shard`. -/
def shouldDispatchCrossShard (textLength : ℕ) : Bool :=
  cfg.crossShard.enabled && cfg.crossShardRefs && decide (1 < cfg.shardCount) &&
    decide (cfg.crossShard.minTextLength ≤ textLength ∧ textLength ≤ cfg.crossShard.maxTextLength)

/-- `select_tokenization_shard`. -/
def selectTokenizationShard (here : ℕ) : ℕ :=
  if cfg.shardCount ≤ 1 then here else (here + 1) % cfg.shardCount

variable (here : ℕ) (sh : Shard) (text : List UInt8) (addr : ℕ)

/-- `_cache.insert`. -/
def Shard.insert (tokens : List TokenId) : Option Shard :=
  (sh.cache.insert cfg.cache text tokens addr).map fun cache => { sh with cache := cache }

/-- `tokenize_locally`. -/
def tokenizeLocally : Option (Shard × Phase) :=
  if sh.loaded = false then some (sh, .crashed)
  else
    match encode text with
    | none => some (sh, .done {} none)
    | some tokens =>
      (sh.insert cfg text addr tokens).map fun sh =>
        (sh, .done { tokens := tokens, sourceShard := here } none)

/-- The local cache is asked first; a miss goes on with `next`. -/
def lookupOr (next : Shard → Option (Shard × Phase)) : Option (Shard × Phase) :=
  let found := sh.cache.lookup cfg.cache text
  let sh := { sh with cache := found.2 }
  match found.1 with
  | some tokens =>
    some (sh, .done { tokens := tokens, cacheHit := true, sourceShard := here } none)
  | none => if sh.loaded = false then some (sh, .done {} (some .notLoaded)) else next sh

/-- `encode_cached_async`, up to where it waits. -/
def encodeCachedAsync : Option (Shard × Phase) :=
  lookupOr cfg here sh text fun sh =>
    if !shouldDispatchCrossShard cfg text.length then
      tokenizeLocally encode cfg here sh text addr
    else if selectTokenizationShard cfg here = here then
      tokenizeLocally encode cfg here sh text addr
    else some (sh, .remote)

/-- Priorities 2 and 3 of `encode_threaded_async`. -/
def withoutPool : Option (Shard × Phase) :=
  if shouldDispatchCrossShard cfg text.length then encodeCachedAsync encode cfg here sh text addr
  else if sh.localTokenizeSem = 0 then some (sh, .done {} (some .rejected))
  else
    (tokenizeLocally encode cfg here { sh with localTokenizeSem := sh.localTokenizeSem - 1 } text
      addr).map fun out =>
        ({ out.1 with localTokenizeSem := out.1.localTokenizeSem + 1 }, out.2)

/-- `encode_threaded_async`, up to where it waits. -/
def encodeThreadedAsync (pool : PoolSays) : Option (Shard × Phase) :=
  lookupOr cfg here sh text fun sh =>
    if cfg.threadPool = true ∧ pool = .taken then some (sh, .pool)
    else withoutPool encode cfg here sh text addr

/-- The tokens of a value that the pool gives to a future. -/
def poolTokens (stopped : Bool) : List TokenId := if stopped then [] else (encode text).getD []

/-- What comes from elsewhere goes into the local cache, unless it is nothing. -/
def Shard.keep (tokens : List TokenId) : Option Shard :=
  if tokens = [] then some sh else sh.insert cfg text addr tokens

/-- `encode_threaded_async` goes on with a value of the pool. -/
def afterPool (stopped : Bool) : Option (Shard × Phase) :=
  (sh.keep cfg text addr (poolTokens encode text stopped)).map fun sh =>
    (sh, .done { tokens := poolTokens encode text stopped, sourceShard := here }
      (if stopped then some .poolStopped else none))

/-- What `encode_cached_async` submits to the target shard. -/
def onTarget : Option (Shard × Phase) :=
  let found := sh.cache.lookup cfg.cache text
  let sh := { sh with cache := found.2 }
  match found.1 with
  | some tokens => some (sh, .reply tokens true none)
  | none =>
    if sh.loaded = false then some (sh, .reply [] false (some .targetNotLoaded))
    else
      match encode text with
      | none => some (sh, .reply [] false none)
      | some tokens =>
        (sh.insert cfg text addr tokens).map fun sh => (sh, .reply tokens false none)

/-- `encode_cached_async` goes on with the answer of the target shard. -/
def afterReply (tokens : List TokenId) (cached : Bool) (refusal : Option Refusal) :
    Option (Shard × Phase) :=
  (sh.keep cfg text addr tokens).map fun sh =>
    (sh, .done
      { tokens := tokens, cacheHit := cached, crossShard := true
        sourceShard := selectTokenizationShard cfg here } refusal)

end Functions

section Steps

variable (encode : Encode) (cfg : Config) (s : Service)

def Service.setShard (i : ℕ) (sh : Shard) : Service :=
  { s with shards := Function.update s.shards i sh }

/-- A new call. -/
def Service.call (i : ℕ) (text : List UInt8) (out : Option (Shard × Phase)) : Option Service :=
  if i < cfg.shardCount then
    out.map fun out =>
      { s.setShard i out.1 with requests := s.requests ++ [⟨i, text, out.2⟩] }
  else none

/-- A call goes on, with a turn on shard `i`. -/
def Service.goOn (k : ℕ) (r : Request) (i : ℕ) (out : Option (Shard × Phase)) : Option Service :=
  out.map fun out =>
    { s.setShard i out.1 with requests := s.requests.set k { r with phase := out.2 } }

/-- One step of some shard. -/
def step : Action → Option Service
  | .loadFromJson i => some (s.setShard i { s.shards i with loaded := true })
  | .configureCache i => some (s.setShard i { s.shards i with cache := {} })
  | .stop i =>
    some (s.setShard i { s.shards i with loaded := false, cache := (s.shards i).cache.clear })
  | .encodeCachedAsync i text addr =>
    s.call cfg i text (encodeCachedAsync encode cfg i (s.shards i) text addr)
  | .encodeThreadedAsync i text pool addr =>
    s.call cfg i text (encodeThreadedAsync encode cfg i (s.shards i) text addr pool)
  | .poolAnswer k stopped addr =>
    match s.requests[k]? with
    | some ⟨i, text, .pool⟩ =>
      s.goOn k ⟨i, text, .pool⟩ i (afterPool encode cfg i (s.shards i) text addr stopped)
    | _ => none
  | .poolTimeout k addr =>
    match s.requests[k]? with
    | some ⟨i, text, .pool⟩ =>
      s.goOn k ⟨i, text, .pool⟩ i (withoutPool encode cfg i (s.shards i) text addr)
    | _ => none
  | .remote k addr =>
    match s.requests[k]? with
    | some ⟨i, text, .remote⟩ =>
      let target := selectTokenizationShard cfg i
      s.goOn k ⟨i, text, .remote⟩ target (onTarget encode cfg (s.shards target) text addr)
    | _ => none
  | .reply k addr =>
    match s.requests[k]? with
    | some ⟨i, text, .reply tokens cached refusal⟩ =>
      s.goOn k ⟨i, text, .reply tokens cached refusal⟩ i
        (afterReply cfg i (s.shards i) text addr tokens cached refusal)
    | _ => none

/-- The services before anything is loaded. -/
def initial : Service where
  shards := fun _ => { localTokenizeSem := cfg.maxConcurrent }

end Steps

/-! ## Caches -/

/-- A cache whose entries are the library's. -/
structure Good (encode : Encode) (cfg : Config) (t : TokenizationCache) : Prop where
  wired : Wired t
  coherent : ∀ a e, t.nodes a = some e → encode e.text = some e.tokens
  bounded : t.lruList.length ≤ cfg.cache.maxEntries

section Caches

variable {encode : Encode} {cfg : Config} {t t' : TokenizationCache} {text : List UInt8}
  {tokens : List TokenId} {rest : List ℕ} {addr : ℕ}

theorem good_empty : Good encode cfg {} where
  wired := wired_empty
  coherent a e he := by cases he
  bounded := Nat.zero_le _

/-- Hits and misses are no part of it. -/
theorem Good.counted (h : Good encode cfg t) (misses : UInt64) :
    Good encode cfg { t with misses := misses } :=
  ⟨⟨h.wired.nodup, h.wired.live, h.wired.distinct, h.wired.mapped⟩, h.coherent, h.bounded⟩

theorem Good.fronted (h : Good encode cfg t) (hfront : Fronted t t' text tokens rest)
    (htokens : encode text = some tokens) (hroom : rest.length + 1 ≤ cfg.cache.maxEntries) :
    Good encode cfg t' := by
  obtain ⟨a, hlist, hnode⟩ := hfront.front
  refine ⟨hfront.wired, fun b e he => ?_, ?_⟩
  · have hb : b ∈ a :: rest := by
      rw [← hlist, hfront.wired.live, he]
      rfl
    rcases List.mem_cons.mp hb with rfl | hb
    · rw [hnode] at he
      obtain rfl := Option.some.inj he
      exact htokens
    · exact h.coherent b e (hfront.same b hb ▸ he)
  · rw [hlist]
    exact hroom

/-- A lookup returns what the library would. -/
theorem Good.lookup (h : Good encode cfg t) (text : List UInt8) :
    Good encode cfg (t.lookup cfg.cache text).2 ∧
      ∀ tokens, (t.lookup cfg.cache text).1 = some tokens → encode text = some tokens := by
  by_cases henabled : cfg.cache.enabled = true
  · cases hfind : t.find text with
    | none =>
      rw [lookup_miss henabled hfind]
      exact ⟨h.counted _, nofun⟩
    | some e =>
      obtain ⟨tokens, hnode, hresult, hfront⟩ := lookup_hit h.wired henabled hfind
      have htokens := h.coherent _ _ hnode
      refine ⟨h.fronted hfront htokens ?_, fun tokens' hhit => ?_⟩
      · rw [List.length_erase_add_one (h.wired.find_eq_some hfind).2.1]
        exact h.bounded
      · rw [← hhit, hresult]
        exact htokens
  · rw [Bool.not_eq_true] at henabled
    rw [TokenizationCache.lookup, if_pos henabled]
    exact ⟨h.counted _, nofun⟩

theorem Good.insert (h : Good encode cfg t) (htokens : encode text = some tokens)
    (hinsert : t.insert cfg.cache text tokens addr = some t') : Good encode cfg t' := by
  by_cases hused : cfg.cache.enabled = true ∧ 1 ≤ cfg.cache.maxEntries ∧
      text.length ≤ cfg.cache.maxTextLength
  · obtain ⟨henabled, hmax, hlength⟩ := hused
    obtain ⟨rest, hfront, hrest⟩ := insert_fronted h.wired henabled hmax hlength hinsert
    refine h.fronted hfront htokens ?_
    rcases hrest with rfl | ⟨a, ha, -, rfl⟩
    · rw [List.length_take]
      omega
    · rw [List.length_erase_add_one ha]
      exact h.bounded
  · -- nothing is inserted
    rw [TokenizationCache.insert] at hinsert
    split_ifs at hinsert with henabled hmax hlength
    · exact Option.some.inj hinsert ▸ h
    · exact Option.some.inj hinsert ▸ h
    · exact Option.some.inj hinsert ▸ h
    · exact absurd ⟨by simpa using henabled, by omega, by omega⟩ hused

theorem Good.clear (h : Good encode cfg t) : Good encode cfg t.clear := by
  have hnodes : ∀ a, t.clear.nodes a = none := by
    intro a
    dsimp only [TokenizationCache.clear]
    split_ifs with ha
    · rfl
    · simpa [h.wired.live] using ha
  refine ⟨⟨List.nodup_nil, fun a => ?_, fun a b text ha => ?_, List.Perm.refl _⟩,
    fun a e he => ?_, Nat.zero_le _⟩
  · rw [hnodes a]
    simp [TokenizationCache.clear]
  · rw [textAt, hnodes a] at ha
    cases ha
  · rw [hnodes a] at he
    cases he

end Caches

/-! ## Turns of a request -/

/-- Tokens for a text: the library's, or none if they were refused. -/
structure IsAnswer (encode : Encode) (text : List UInt8) (tokens : List TokenId) (cached : Bool)
    (refusal : Option Refusal) : Prop where
  tokens_eq : refusal = none → tokens = (encode text).getD []
  refused : refusal ≠ none → tokens = []
  cached_eq : cached = true → encode text = some tokens

/-- What is known of a request of a shard. -/
def PhaseOk (encode : Encode) (cfg : Config) (here : ℕ) (text : List UInt8) : Phase → Prop
  | .pool => cfg.threadPool = true
  | .remote => selectTokenizationShard cfg here ≠ here
  | .reply tokens cached refusal =>
    selectTokenizationShard cfg here ≠ here ∧ IsAnswer encode text tokens cached refusal
  | .done r refusal =>
    IsAnswer encode text r.tokens r.cacheHit refusal ∧
      (r.crossShard = true →
        selectTokenizationShard cfg here ≠ here ∧
          r.sourceShard = selectTokenizationShard cfg here) ∧
      (r.crossShard = false → r.tokens ≠ [] → r.sourceShard = here)
  | .crashed => True

/-- Why a request was refused, if it was. -/
def Phase.refusal : Phase → Option Refusal
  | .reply _ _ refusal => refusal
  | .done _ refusal => refusal
  | _ => none

/-- A turn on a shard, for a request of shard `here` that is in phase `ph` after it. -/
structure Turn (encode : Encode) (cfg : Config) (here : ℕ) (text : List UInt8) (sh sh' : Shard)
    (ph : Phase) : Prop where
  good : Good encode cfg sh.cache → Good encode cfg sh'.cache
  sem : sh'.localTokenizeSem = sh.localTokenizeSem
  loaded : sh'.loaded = sh.loaded
  phaseOk : Good encode cfg sh.cache → PhaseOk encode cfg here text ph

section Turns

variable {encode : Encode} {cfg : Config} {here : ℕ} {text : List UInt8} {addr : ℕ}
  {sh sh' : Shard} {ph : Phase} {tokens : List TokenId}

theorem isAnswer_none (h : encode text = none) : IsAnswer encode text [] false none where
  tokens_eq _ := by rw [h]; rfl
  refused h := absurd rfl h
  cached_eq := nofun

theorem isAnswer_some (h : encode text = some tokens) (cached : Bool) :
    IsAnswer encode text tokens cached none where
  tokens_eq _ := by rw [h]; rfl
  refused h := absurd rfl h
  cached_eq _ := h

theorem isAnswer_refused (why : Refusal) : IsAnswer encode text [] false (some why) where
  tokens_eq := nofun
  refused _ := rfl
  cached_eq := nofun

/-- A result of this shard. -/
theorem phaseOk_here {r : Result} {refusal : Option Refusal}
    (h : IsAnswer encode text r.tokens r.cacheHit refusal) (hcross : r.crossShard = false)
    (hsource : r.tokens ≠ [] → r.sourceShard = here) :
    PhaseOk encode cfg here text (.done r refusal) :=
  ⟨h, fun h => absurd (hcross.symm.trans h) Bool.false_ne_true, fun _ => hsource⟩

theorem insert_turn (htokens : encode text = some tokens)
    (hinsert : sh.insert cfg text addr tokens = some sh')
    (hphase : PhaseOk encode cfg here text ph) : Turn encode cfg here text sh sh' ph := by
  obtain ⟨cache, hcache, rfl⟩ := Option.map_eq_some_iff.mp hinsert
  exact ⟨fun h => h.insert htokens hcache, rfl, rfl, fun _ => hphase⟩

theorem tokenizeLocally_turn
    (h : tokenizeLocally encode cfg here sh text addr = some (sh', ph)) :
    Turn encode cfg here text sh sh' ph ∧ ph ≠ .pool ∧ ph.refusal = none ∧
      (ph = .crashed → sh.loaded = false) := by
  rw [tokenizeLocally] at h
  split_ifs at h with hloaded
  · obtain ⟨rfl, rfl⟩ := Prod.mk.inj (Option.some.inj h)
    exact ⟨⟨id, rfl, rfl, fun _ => trivial⟩, nofun, rfl, fun _ => hloaded⟩
  · split at h
    · next hnone =>
      obtain ⟨rfl, rfl⟩ := Prod.mk.inj (Option.some.inj h)
      exact ⟨⟨id, rfl, rfl, fun _ => phaseOk_here (isAnswer_none hnone) rfl (absurd rfl)⟩, nofun,
        rfl, nofun⟩
    · next tokens hsome =>
      obtain ⟨sh₁, hinsert, hout⟩ := Option.map_eq_some_iff.mp h
      obtain ⟨rfl, rfl⟩ := Prod.mk.inj hout
      exact ⟨insert_turn hsome hinsert (phaseOk_here (isAnswer_some hsome false) rfl fun _ => rfl),
        nofun, rfl, nofun⟩

/-- The cache is asked, and then `next` takes its turn, if there is a tokenizer. -/
theorem lookupOr_turn {next : Shard → Option (Shard × Phase)}
    (h : lookupOr cfg here sh text next = some (sh', ph)) :
    Turn encode cfg here text sh sh' ph ∧ ph ≠ .pool ∧ ph ≠ .crashed ∧
        (ph.refusal ≠ none → sh.loaded = false) ∨
      ∃ mid, mid.loaded = true ∧ sh.loaded = true ∧ next mid = some (sh', ph) ∧
        mid.localTokenizeSem = sh.localTokenizeSem ∧
        ∀ {i}, Turn encode cfg i text mid sh' ph → Turn encode cfg i text sh sh' ph := by
  have hgood : Good encode cfg sh.cache → _ := fun h => h.lookup text
  rw [lookupOr] at h
  dsimp only at h
  split at h
  · next tokens hhit =>
    obtain ⟨rfl, rfl⟩ := Prod.mk.inj (Option.some.inj h)
    exact .inl ⟨⟨fun h => (hgood h).1, rfl, rfl, fun h => phaseOk_here
      (isAnswer_some ((hgood h).2 tokens hhit) true) rfl fun _ => rfl⟩, nofun, nofun, absurd rfl⟩
  · split_ifs at h with hloaded
    · obtain ⟨rfl, rfl⟩ := Prod.mk.inj (Option.some.inj h)
      exact .inl ⟨⟨fun h => (hgood h).1, rfl, rfl,
        fun _ => phaseOk_here (isAnswer_refused .notLoaded) rfl (absurd rfl)⟩, nofun, nofun,
        fun _ => hloaded⟩
    · have hloaded : sh.loaded = true := by simpa using hloaded
      exact .inr ⟨{ sh with cache := (sh.cache.lookup cfg.cache text).2 }, hloaded, hloaded, h, rfl,
        fun hturn => ⟨fun h => hturn.good (hgood h).1, hturn.sem, hturn.loaded,
          fun h => hturn.phaseOk (hgood h).1⟩⟩

theorem encodeCachedAsync_turn
    (h : encodeCachedAsync encode cfg here sh text addr = some (sh', ph)) :
    Turn encode cfg here text sh sh' ph ∧ ph ≠ .pool ∧ ph ≠ .crashed ∧
      (ph.refusal ≠ none → sh.loaded = false) := by
  rcases lookupOr_turn h with hdone | ⟨mid, hmid, hloaded, hnext, -, hlift⟩
  · exact hdone
  · have hlocal : tokenizeLocally encode cfg here mid text addr = some (sh', ph) →
        Turn encode cfg here text sh sh' ph ∧ ph ≠ .pool ∧ ph ≠ .crashed ∧
          (ph.refusal ≠ none → sh.loaded = false) := by
      intro hlocal
      obtain ⟨hturn, hpool, hrefusal, hcrash⟩ := tokenizeLocally_turn hlocal
      refine ⟨hlift hturn, hpool, fun h => ?_, fun h => absurd hrefusal h⟩
      exact Bool.false_ne_true ((hcrash h).symm.trans hmid)
    split_ifs at hnext with hdispatch htarget
    · exact hlocal hnext
    · exact hlocal hnext
    · obtain ⟨rfl, rfl⟩ := Prod.mk.inj (Option.some.inj hnext)
      exact ⟨hlift ⟨id, rfl, rfl, fun _ => htarget⟩, nofun, nofun, absurd rfl⟩

theorem withoutPool_turn (h : withoutPool encode cfg here sh text addr = some (sh', ph)) :
    Turn encode cfg here text sh sh' ph ∧ ph ≠ .pool ∧ (ph = .crashed → sh.loaded = false) ∧
      (ph.refusal ≠ none → sh.loaded = false ∨ sh.localTokenizeSem = 0) := by
  rw [withoutPool] at h
  split_ifs at h with hdispatch hsem
  · obtain ⟨hturn, hpool, hcrash, hrefusal⟩ := encodeCachedAsync_turn h
    exact ⟨hturn, hpool, fun h => absurd h hcrash, fun h => .inl (hrefusal h)⟩
  · obtain ⟨rfl, rfl⟩ := Prod.mk.inj (Option.some.inj h)
    exact ⟨⟨id, rfl, rfl, fun _ => phaseOk_here (isAnswer_refused .rejected) rfl (absurd rfl)⟩,
      nofun, nofun, fun _ => .inr hsem⟩
  · -- the unit that was taken is given back
    obtain ⟨⟨sh₁, ph₁⟩, hlocal, hout⟩ := Option.map_eq_some_iff.mp h
    obtain ⟨rfl, rfl⟩ := Prod.mk.inj hout
    obtain ⟨hturn, hpool, hrefusal, hcrash⟩ := tokenizeLocally_turn hlocal
    have hunits : sh₁.localTokenizeSem + 1 = sh.localTokenizeSem := by
      rw [hturn.sem]
      exact Nat.succ_pred_eq_of_ne_zero hsem
    exact ⟨⟨hturn.good, hunits, hturn.loaded, hturn.phaseOk⟩, hpool, hcrash,
      fun h => absurd hrefusal h⟩

theorem encodeThreadedAsync_turn {pool : PoolSays}
    (h : encodeThreadedAsync encode cfg here sh text addr pool = some (sh', ph)) :
    Turn encode cfg here text sh sh' ph ∧ (ph = .pool → sh.loaded = true) ∧ ph ≠ .crashed ∧
      (ph.refusal ≠ none → sh.loaded = false ∨ sh.localTokenizeSem = 0) := by
  rcases lookupOr_turn h with ⟨hturn, hpool, hcrash, hrefusal⟩ |
    ⟨mid, hmid, hloaded, hnext, hsem, hlift⟩
  · exact ⟨hturn, fun h => absurd h hpool, hcrash, fun h => .inl (hrefusal h)⟩
  · split_ifs at hnext with htaken
    · obtain ⟨rfl, rfl⟩ := Prod.mk.inj (Option.some.inj hnext)
      exact ⟨hlift ⟨id, rfl, rfl, fun _ => htaken.1⟩, fun _ => hloaded, nofun, absurd rfl⟩
    · obtain ⟨hturn, hpool, hcrash, hrefusal⟩ := withoutPool_turn hnext
      refine ⟨hlift hturn, fun h => absurd h hpool, fun h => ?_, fun h => ?_⟩
      · exact Bool.false_ne_true ((hcrash h).symm.trans hmid)
      · rcases hrefusal h with hunloaded | hzero
        · exact absurd (hunloaded.symm.trans hmid) Bool.false_ne_true
        · exact .inr (hsem ▸ hzero)

/-- What is kept is the library's. -/
theorem keep_turn (hanswer : tokens ≠ [] → encode text = some tokens)
    (hkeep : sh.keep cfg text addr tokens = some sh') (hphase : PhaseOk encode cfg here text ph) :
    Turn encode cfg here text sh sh' ph := by
  rw [Shard.keep] at hkeep
  split_ifs at hkeep with hnil
  · obtain rfl := Option.some.inj hkeep
    exact ⟨id, rfl, rfl, fun _ => hphase⟩
  · exact insert_turn (hanswer hnil) hkeep hphase

theorem eq_some_of_getD_ne_nil (h : (encode text).getD [] ≠ []) :
    encode text = some ((encode text).getD []) := by
  cases htokens : encode text with
  | none =>
    rw [htokens] at h
    exact absurd rfl h
  | some tokens => rfl

theorem IsAnswer.eq_some {cached : Bool} {refusal : Option Refusal}
    (h : IsAnswer encode text tokens cached refusal) (hne : tokens ≠ []) :
    encode text = some tokens := by
  have hrefusal : refusal = none := by
    by_contra hsome
    exact hne (h.refused hsome)
  have htokens := h.tokens_eq hrefusal
  rw [htokens] at hne ⊢
  exact eq_some_of_getD_ne_nil hne

theorem isAnswer_pool (stopped : Bool) :
    IsAnswer encode text (poolTokens encode text stopped) false
      (if stopped then some .poolStopped else none) := by
  cases stopped with
  | false => exact ⟨fun _ => rfl, absurd rfl, nofun⟩
  | true => exact isAnswer_refused .poolStopped

theorem afterPool_turn {stopped : Bool}
    (h : afterPool encode cfg here sh text addr stopped = some (sh', ph)) :
    Turn encode cfg here text sh sh' ph ∧ ph ≠ .pool ∧ ph ≠ .crashed ∧
      (ph.refusal ≠ none → stopped = true) := by
  obtain ⟨sh₁, hkeep, hout⟩ := Option.map_eq_some_iff.mp h
  obtain ⟨rfl, rfl⟩ := Prod.mk.inj hout
  have hanswer := @isAnswer_pool encode text stopped
  refine ⟨keep_turn hanswer.eq_some hkeep (phaseOk_here hanswer rfl fun _ => rfl), nofun, nofun,
    fun h => ?_⟩
  cases stopped with
  | false => exact absurd rfl h
  | true => rfl

theorem onTarget_turn (htarget : selectTokenizationShard cfg here ≠ here)
    (h : onTarget encode cfg sh text addr = some (sh', ph)) :
    Turn encode cfg here text sh sh' ph ∧ ph ≠ .pool ∧ ph ≠ .crashed ∧
      (ph.refusal ≠ none → sh.loaded = false) := by
  have hgood : Good encode cfg sh.cache → _ := fun h => h.lookup text
  rw [onTarget] at h
  dsimp only at h
  split at h
  · next tokens hhit =>
    obtain ⟨rfl, rfl⟩ := Prod.mk.inj (Option.some.inj h)
    exact ⟨⟨fun h => (hgood h).1, rfl, rfl,
      fun h => ⟨htarget, isAnswer_some ((hgood h).2 tokens hhit) true⟩⟩, nofun, nofun, absurd rfl⟩
  · split_ifs at h with hloaded
    · obtain ⟨rfl, rfl⟩ := Prod.mk.inj (Option.some.inj h)
      exact ⟨⟨fun h => (hgood h).1, rfl, rfl,
        fun _ => ⟨htarget, isAnswer_refused .targetNotLoaded⟩⟩, nofun, nofun, fun _ => hloaded⟩
    · split at h
      · next hnone =>
        obtain ⟨rfl, rfl⟩ := Prod.mk.inj (Option.some.inj h)
        exact ⟨⟨fun h => (hgood h).1, rfl, rfl, fun _ => ⟨htarget, isAnswer_none hnone⟩⟩, nofun,
          nofun, absurd rfl⟩
      · next tokens hsome =>
        obtain ⟨sh₁, hinsert, hout⟩ := Option.map_eq_some_iff.mp h
        obtain ⟨rfl, rfl⟩ := Prod.mk.inj hout
        have hturn := @insert_turn encode cfg here text addr _ _ (.reply tokens false none)
          tokens hsome hinsert ⟨htarget, isAnswer_some hsome false⟩
        exact ⟨⟨fun h => hturn.good (hgood h).1, hturn.sem, hturn.loaded,
          fun h => hturn.phaseOk (hgood h).1⟩, nofun, nofun, absurd rfl⟩

theorem afterReply_turn {cached : Bool} {refusal : Option Refusal}
    (hok : PhaseOk encode cfg here text (.reply tokens cached refusal))
    (h : afterReply cfg here sh text addr tokens cached refusal = some (sh', ph)) :
    Turn encode cfg here text sh sh' ph ∧ ph ≠ .pool ∧ ph ≠ .crashed ∧ ph.refusal = refusal := by
  obtain ⟨htarget, hanswer⟩ := hok
  obtain ⟨sh₁, hkeep, hout⟩ := Option.map_eq_some_iff.mp h
  obtain ⟨rfl, rfl⟩ := Prod.mk.inj hout
  exact ⟨keep_turn hanswer.eq_some hkeep ⟨hanswer, fun _ => ⟨htarget, rfl⟩, nofun⟩, nofun, nofun,
    rfl⟩

end Turns

/-! ## Runs -/

/-- What every step keeps. -/
structure Sound (encode : Encode) (cfg : Config) (s : Service) : Prop where
  good : ∀ i, Good encode cfg (s.shards i).cache
  /-- no unit of the semaphore is out between two turns -/
  sem : ∀ i, (s.shards i).localTokenizeSem = cfg.maxConcurrent
  phases : ∀ r ∈ s.requests, r.shard < cfg.shardCount ∧ PhaseOk encode cfg r.shard r.text r.phase

/-- A turn for a request, which is `r` after it. -/
structure Moved (encode : Encode) (cfg : Config) (a : Action) (s s' : Service) (r : Request) :
    Prop where
  inside : r.shard < cfg.shardCount
  turn : ∃ i, Turn encode cfg r.shard r.text (s.shards i) (s'.shards i) r.phase ∧
    ∀ j ≠ i, s'.shards j = s.shards j
  requests : ∀ q ∈ s'.requests, q ∈ s.requests ∨ q = r
  /-- it waits for the pool only if there is a tokenizer -/
  waits : r.phase = .pool → (s.shards r.shard).loaded = true
  /-- it crashes only if the tokenizer went while it waited -/
  crash : r.phase = .crashed → (s.shards r.shard).loaded = false ∧
    ∃ q ∈ s.requests, q.phase = .pool ∧ q.shard = r.shard
  refusal : r.phase.refusal ≠ none →
    (∃ i < cfg.shardCount, (s.shards i).loaded = false) ∨
      (s.shards r.shard).localTokenizeSem = 0 ∨ (∃ k addr, a = .poolAnswer k true addr) ∨
      ∃ q ∈ s.requests, q.phase.refusal ≠ none
  nonempty : s'.requests ≠ []
  /-- the first request is a call -/
  calls : s.requests = [] → ∃ i text, (∃ addr, a = .encodeCachedAsync i text addr) ∨
    ∃ pool addr, a = .encodeThreadedAsync i text pool addr

/-- The start or end of a shard, or a new cache. -/
structure Administered (encode : Encode) (cfg : Config) (a : Action) (s s' : Service) (i : ℕ) :
    Prop where
  others : ∀ j ≠ i, s'.shards j = s.shards j
  good : Good encode cfg (s.shards i).cache → Good encode cfg (s'.shards i).cache
  sem : (s'.shards i).localTokenizeSem = (s.shards i).localTokenizeSem
  loaded : (s.shards i).loaded = true → (s'.shards i).loaded = true ∨ a = .stop i
  requests : s'.requests = s.requests

section Runs

variable {encode : Encode} {cfg : Config} {s s' : Service} {a : Action} {i : ℕ}
  {text : List UInt8} {r : Request} {out : Option (Shard × Phase)}

/-- A new call takes its first turn. -/
theorem call_moved (h : s.call cfg i text out = some s')
    (ha : (∃ addr, a = .encodeCachedAsync i text addr) ∨
      ∃ pool addr, a = .encodeThreadedAsync i text pool addr)
    (hturn : ∀ sh ph, out = some (sh, ph) → Turn encode cfg i text (s.shards i) sh ph ∧
      (ph = .pool → (s.shards i).loaded = true) ∧ ph ≠ .crashed ∧
      (ph.refusal ≠ none → (s.shards i).loaded = false ∨ (s.shards i).localTokenizeSem = 0)) :
    ∃ r, Moved encode cfg a s s' r := by
  rw [Service.call] at h
  split_ifs at h with hinside
  obtain ⟨⟨sh, ph⟩, hout, rfl⟩ := Option.map_eq_some_iff.mp h
  obtain ⟨hturn, hwaits, hcrash, hrefusal⟩ := hturn sh ph hout
  refine ⟨⟨i, text, ph⟩, hinside, ⟨i, ?_, fun j hj => Function.update_of_ne hj _ _⟩, fun q hq => ?_,
    hwaits, fun h => absurd h hcrash, fun h => ?_, ?_, fun _ => ⟨i, text, ha⟩⟩
  · dsimp only [Service.setShard]
    rw [Function.update_self]
    exact hturn
  · rcases List.mem_append.mp hq with hq | hq
    · exact .inl hq
    · exact .inr (List.mem_singleton.mp hq)
  · rcases hrefusal h with hunloaded | hzero
    · exact .inl ⟨i, hinside, hunloaded⟩
    · exact .inr (.inl hzero)
  · exact List.append_ne_nil_of_right_ne_nil _ (List.cons_ne_nil _ _)

/-- A call goes on. -/
theorem goOn_moved {k : ℕ} (hs : Sound encode cfg s) (hr : s.requests[k]? = some r)
    (h : s.goOn k r i out = some s')
    (hturn : ∀ sh ph, out = some (sh, ph) → Turn encode cfg r.shard r.text (s.shards i) sh ph ∧
      ph ≠ .pool ∧
      (ph = .crashed → (s.shards r.shard).loaded = false ∧ r.phase = .pool) ∧
      (ph.refusal ≠ none → (∃ i < cfg.shardCount, (s.shards i).loaded = false) ∨
        (s.shards r.shard).localTokenizeSem = 0 ∨ (∃ k addr, a = .poolAnswer k true addr) ∨
        r.phase.refusal ≠ none)) :
    ∃ r, Moved encode cfg a s s' r := by
  obtain ⟨⟨sh, ph⟩, hout, rfl⟩ := Option.map_eq_some_iff.mp h
  obtain ⟨hturn, hwaits, hcrash, hrefusal⟩ := hturn sh ph hout
  have hmem := List.mem_of_getElem? hr
  have hne : s.requests ≠ [] := List.ne_nil_of_mem hmem
  refine ⟨{ r with phase := ph }, (hs.phases r hmem).1,
    ⟨i, ?_, fun j hj => Function.update_of_ne hj _ _⟩, fun q hq => ?_, fun h => absurd h hwaits,
    fun h => ⟨(hcrash h).1, r, hmem, (hcrash h).2, rfl⟩, fun h => ?_, ?_, fun h => absurd h hne⟩
  · dsimp only [Service.setShard]
    rw [Function.update_self]
    exact hturn
  · exact List.mem_or_eq_of_mem_set hq
  · rcases hrefusal h with hunloaded | hzero | hstopped | hbefore
    · exact .inl hunloaded
    · exact .inr (.inl hzero)
    · exact .inr (.inr (.inl hstopped))
    · exact .inr (.inr (.inr ⟨r, hmem, hbefore⟩))
  · rw [ne_eq, List.set_eq_nil_iff]
    exact hne

/-- The target is a shard. -/
theorem selectTokenizationShard_lt (h : i < cfg.shardCount) :
    selectTokenizationShard cfg i < cfg.shardCount := by
  rw [selectTokenizationShard]
  split_ifs
  · exact h
  · exact Nat.mod_lt _ (by omega)

/-- **A step** is a turn of one request, or concerns one shard. -/
theorem step_cases (hs : Sound encode cfg s) (hstep : step encode cfg s a = some s') :
    (∃ i, Administered encode cfg a s s' i) ∨ ∃ r, Moved encode cfg a s s' r := by
  cases a with
  | loadFromJson i =>
    obtain rfl := Option.some.inj hstep
    refine .inl ⟨i, fun j hj => Function.update_of_ne hj _ _, ?_, ?_, ?_, rfl⟩
    all_goals dsimp only [Service.setShard]; rw [Function.update_self]
    · exact id
    · exact fun _ => .inl rfl
  | configureCache i =>
    obtain rfl := Option.some.inj hstep
    refine .inl ⟨i, fun j hj => Function.update_of_ne hj _ _, ?_, ?_, ?_, rfl⟩
    all_goals dsimp only [Service.setShard]; rw [Function.update_self]
    · exact fun _ => good_empty
    · exact .inl
  | stop i =>
    obtain rfl := Option.some.inj hstep
    refine .inl ⟨i, fun j hj => Function.update_of_ne hj _ _, ?_, ?_, fun _ => .inr rfl, rfl⟩
    all_goals dsimp only [Service.setShard]; rw [Function.update_self]
    · exact Good.clear
  | encodeCachedAsync i text addr =>
    refine .inr (call_moved hstep (.inl ⟨addr, rfl⟩) fun sh ph hout => ?_)
    obtain ⟨hturn, hpool, hcrash, hrefusal⟩ := encodeCachedAsync_turn hout
    exact ⟨hturn, fun h => absurd h hpool, hcrash, fun h => .inl (hrefusal h)⟩
  | encodeThreadedAsync i text pool addr =>
    exact .inr (call_moved hstep (.inr ⟨pool, addr, rfl⟩) fun sh ph => encodeThreadedAsync_turn)
  | poolAnswer k stopped addr =>
    rw [step] at hstep
    split at hstep
    · next i text hr =>
      refine .inr (goOn_moved hs hr hstep fun sh ph hout => ?_)
      obtain ⟨hturn, hpool, hcrash, hrefusal⟩ := afterPool_turn hout
      refine ⟨hturn, hpool, fun h => absurd h hcrash, fun h => .inr (.inr (.inl ⟨k, addr, ?_⟩))⟩
      rw [hrefusal h]
    · cases hstep
  | poolTimeout k addr =>
    rw [step] at hstep
    split at hstep
    · next i text hr =>
      have hinside := (hs.phases _ (List.mem_of_getElem? hr)).1
      refine .inr (goOn_moved hs hr hstep fun sh ph hout => ?_)
      obtain ⟨hturn, hpool, hcrash, hrefusal⟩ := withoutPool_turn hout
      refine ⟨hturn, hpool, fun h => ⟨hcrash h, rfl⟩, fun h => ?_⟩
      rcases hrefusal h with hunloaded | hzero
      · exact .inl ⟨i, hinside, hunloaded⟩
      · exact .inr (.inl hzero)
    · cases hstep
  | remote k addr =>
    rw [step] at hstep
    split at hstep
    · next i text hr =>
      obtain ⟨hinside, htarget⟩ := hs.phases _ (List.mem_of_getElem? hr)
      refine .inr (goOn_moved hs hr hstep fun sh ph hout => ?_)
      obtain ⟨hturn, hpool, hcrash, hrefusal⟩ := onTarget_turn htarget hout
      exact ⟨hturn, hpool, fun h => absurd h hcrash,
        fun h => .inl ⟨_, selectTokenizationShard_lt hinside, hrefusal h⟩⟩
    · cases hstep
  | reply k addr =>
    rw [step] at hstep
    split at hstep
    · next i text tokens cached refusal hr =>
      obtain ⟨-, hok⟩ := hs.phases _ (List.mem_of_getElem? hr)
      refine .inr (goOn_moved hs hr hstep fun sh ph hout => ?_)
      obtain ⟨hturn, hpool, hcrash, hrefusal⟩ := afterReply_turn hok hout
      exact ⟨hturn, hpool, fun h => absurd h hcrash, fun h => .inr (.inr (.inr (hrefusal ▸ h)))⟩
    · cases hstep

theorem sound_initial : Sound encode cfg (initial cfg) where
  good _ := good_empty
  sem _ := rfl
  phases r hr := by cases hr

theorem sound_step (hs : Sound encode cfg s) (hstep : step encode cfg s a = some s') :
    Sound encode cfg s' := by
  rcases step_cases hs hstep with ⟨i, hadmin⟩ | ⟨r, hmoved⟩
  · refine ⟨fun j => ?_, fun j => ?_, hadmin.requests ▸ hs.phases⟩
    · by_cases hj : j = i
      · exact hj ▸ hadmin.good (hs.good i)
      · exact hadmin.others j hj ▸ hs.good j
    · by_cases hj : j = i
      · exact hj ▸ hadmin.sem.trans (hs.sem i)
      · exact hadmin.others j hj ▸ hs.sem j
  · obtain ⟨i, hturn, hothers⟩ := hmoved.turn
    refine ⟨fun j => ?_, fun j => ?_, fun q hq => ?_⟩
    · by_cases hj : j = i
      · exact hj ▸ hturn.good (hs.good i)
      · exact hothers j hj ▸ hs.good j
    · by_cases hj : j = i
      · exact hj ▸ hturn.sem.trans (hs.sem i)
      · exact hothers j hj ▸ hs.sem j
    · rcases hmoved.requests q hq with hq | rfl
      · exact hs.phases q hq
      · exact ⟨hmoved.inside, hturn.phaseOk (hs.good i)⟩

theorem sound_run {acts : List Action} (hrun : exec (step encode cfg) (initial cfg) acts = some s) :
    Sound encode cfg s :=
  @exec_induction _ _ (step encode cfg) (fun _ s => Sound encode cfg s)
    (fun hstep hs => sound_step hs hstep) [] _ _ _ hrun sound_initial

/-- A shard is not stopped while one of its requests waits for its pool. -/
def Quiet (s : Service) : Action → Prop
  | .stop i => ∀ r ∈ s.requests, r.shard = i → r.phase ≠ .pool
  | _ => True

/-- Nothing is stopped, and requests come when every shard has its tokenizer. -/
def Steady (cfg : Config) (s : Service) : Action → Prop
  | .stop _ => False
  | .poolAnswer _ stopped _ => stopped = false
  | .encodeCachedAsync _ _ _ => ∀ i < cfg.shardCount, (s.shards i).loaded = true
  | .encodeThreadedAsync _ _ _ _ => ∀ i < cfg.shardCount, (s.shards i).loaded = true
  | _ => True

/-- A turn loads and unloads nothing. -/
theorem Moved.loaded (h : Moved encode cfg a s s' r) (j : ℕ) :
    (s'.shards j).loaded = (s.shards j).loaded := by
  obtain ⟨i, hturn, hothers⟩ := h.turn
  by_cases hj : j = i
  · exact hj ▸ hturn.loaded
  · rw [hothers j hj]

end Runs

/-- Two shards that send texts of any length to each other. -/
def twoShards : Config where
  shardCount := 2
  crossShard := { minTextLength := 1 }

end TokenizerService

end Ranvier
