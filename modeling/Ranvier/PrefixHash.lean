import Ranvier.Types
import Mathlib.Data.PNat.Defs

/-!
# The prefix hash and the depths it is taken at

One request meets `hash_prefix` in three places: the `X-Ranvier-Prefix-Hash`
header sent to the backend, the lookup in `get_backend_for_prefix`, and the
publication of the learned route in `prefix_hash_index`. Each computes the depth
to hash at on its own.

* `lookup_eq_learned` — lookup and single-depth learning always agree: both use
  the prefix boundary when it is valid;
* `header_agrees_iff` — the header uses `prefix_token_length` and ignores the
  boundary, so it agrees with them, over all token sequences of a given length,
  exactly when the depths fall into the same block.
-/

namespace Ranvier

/-! ## FNV-1a over token bytes -/

/-- `FNV_OFFSET_BASIS`. -/
def fnvOffsetBasis : UInt64 := 14695981039346656037

/-- `FNV_PRIME`. -/
def fnvPrime : UInt64 := 1099511628211

/-- One round of FNV-1a. -/
def fnvStep (hash : UInt64) (byte : UInt8) : UInt64 := (hash ^^^ byte.toUInt64) * fnvPrime

/-- The bytes of a token as they lie in memory, least significant first. -/
def tokenBytes (t : TokenId) : List UInt8 :=
  let v := t.toUInt32
  [v.toUInt8, (v >>> 8).toUInt8, (v >>> 16).toUInt8, (v >>> 24).toUInt8]

/-- FNV-1a over the bytes of a token sequence, from a given state. -/
def fnvTokens (hash : UInt64) (tokens : List TokenId) : UInt64 :=
  (tokens.flatMap tokenBytes).foldl fnvStep hash

/-- The depth `hash_prefix` really hashes: whole blocks, or all of a count below
one block. -/
def hashedLen (blockAlignment : ℕ+) (count : ℕ) : ℕ :=
  let alignedLen := count / blockAlignment * blockAlignment
  if alignedLen = 0 then count else alignedLen

/-- `hash_prefix` of the first `count` tokens. -/
def hashPrefix (tokens : List TokenId) (count : ℕ) (blockAlignment : ℕ+) : UInt64 :=
  fnvTokens fnvOffsetBasis (tokens.take (hashedLen blockAlignment count))

theorem hashedLen_le (blockAlignment : ℕ+) (count : ℕ) :
    hashedLen blockAlignment count ≤ count := by
  unfold hashedLen
  dsimp only
  split
  · exact le_refl _
  · exact Nat.div_mul_le_self _ _

theorem fnvTokens_append (hash : UInt64) (l r : List TokenId) :
    fnvTokens hash (l ++ r) = fnvTokens (fnvTokens hash l) r := by
  rw [fnvTokens, List.flatMap_append, List.foldl_append]
  rfl

/-- The prime is odd, so it has an inverse modulo `2^64`. -/
theorem fnvPrime_inverse : fnvPrime * 14886173955864302971 = 1 := by decide

/-- A round loses nothing of the byte it absorbs. -/
theorem fnvStep_byte_injective {h : UInt64} {b b' : UInt8} (he : fnvStep h b = fnvStep h b') :
    b = b' := by
  have hmul := congrArg (· * (14886173955864302971 : UInt64)) he
  simp only [fnvStep, UInt64.mul_assoc, fnvPrime_inverse, UInt64.mul_one] at hmul
  have hb : b.toUInt64 = b'.toUInt64 := (UInt64.xor_right_inj _).mp hmul
  have hnat := congrArg UInt64.toNat hb
  simp only [UInt8.toNat_toUInt64] at hnat
  exact UInt8.toNat_inj.mp hnat

/-- The token whose last byte in memory is `1` and whose others are `0`. -/
def topByteToken : TokenId := 16777216

theorem fnvTokens_topByte (hash : UInt64) :
    fnvTokens hash [topByteToken] ≠ fnvTokens hash [0] := by
  intro he
  have hb : (1 : UInt8) = 0 := fnvStep_byte_injective he
  cases hb

/-- **Different depths are told apart.** Two depths within a length give the same
hash for every token sequence of that length only if they are equal. -/
theorem fnv_depth_eq {n d₁ d₂ : ℕ} (h₁ : d₁ ≤ n) (h₂ : d₂ ≤ n)
    (h : ∀ tokens : List TokenId, tokens.length = n →
      fnvTokens fnvOffsetBasis (tokens.take d₁) = fnvTokens fnvOffsetBasis (tokens.take d₂)) :
    d₁ = d₂ := by
  -- two sequences that differ in the last token of the longer prefix only
  have hlt : ∀ {a b : ℕ}, a < b → b ≤ n →
      ¬ ∀ tokens : List TokenId, tokens.length = n →
        fnvTokens fnvOffsetBasis (tokens.take a) = fnvTokens fnvOffsetBasis (tokens.take b) := by
    intro a b hab hbn hall
    have hpart : ∀ t : TokenId,
        fnvTokens fnvOffsetBasis (List.replicate a 0) =
          fnvTokens (fnvTokens fnvOffsetBasis (List.replicate (b - 1) 0)) [t] := by
      intro t
      have hspec := hall (List.replicate (b - 1) 0 ++ [t] ++ List.replicate (n - b) 0)
        (by simp; omega)
      have ha : (List.replicate (b - 1) (0 : TokenId) ++ [t] ++ List.replicate (n - b) 0).take a =
          List.replicate a 0 := by
        rw [List.append_assoc, List.take_append_of_le_length (by simp; omega), List.take_replicate,
          Nat.min_eq_left (by omega)]
      have hb : (List.replicate (b - 1) (0 : TokenId) ++ [t] ++ List.replicate (n - b) 0).take b =
          List.replicate (b - 1) 0 ++ [t] := by
        rw [List.take_append_of_le_length (by simp; omega), List.take_of_length_le (by simp; omega)]
      rw [ha, hb, fnvTokens_append] at hspec
      exact hspec
    exact fnvTokens_topByte _ ((hpart topByteToken).symm.trans (hpart 0))
  rcases Nat.lt_trichotomy d₁ d₂ with hd | hd | hd
  · exact absurd h (hlt hd h₂)
  · exact hd
  · exact absurd (fun tokens hn => (h tokens hn).symm) (hlt hd h₁)

/-- Depths are hashed alike, over all token sequences of a length, exactly when
they reach the same number of tokens. -/
theorem hashPrefix_eq_iff {n d₁ d₂ : ℕ} (h₁ : d₁ ≤ n) (h₂ : d₂ ≤ n) (blockAlignment : ℕ+) :
    (∀ tokens : List TokenId, tokens.length = n →
      hashPrefix tokens d₁ blockAlignment = hashPrefix tokens d₂ blockAlignment) ↔
      hashedLen blockAlignment d₁ = hashedLen blockAlignment d₂ := by
  constructor
  · intro h
    exact fnv_depth_eq ((hashedLen_le _ _).trans h₁) ((hashedLen_le _ _).trans h₂) h
  · intro h tokens _
    rw [hashPrefix, hashPrefix, h]

/-! ## The three depths of a request -/

/-- The settings the three places read. -/
structure PrefixConfig : Type where
  /-- `block_alignment`; the configuration check refuses zero -/
  blockAlignment : ℕ+
  /-- `prefix_token_length` -/
  prefixTokenLength : ℕ
  /-- `max_route_tokens`, zero for no limit -/
  maxRouteTokens : ℕ
  /-- `min_token_length` -/
  minTokenLength : ℕ
  /-- `cache_events.enabled` -/
  cacheEventsEnabled : Bool
  /-- `cache_events.inject_prefix_hash_header` -/
  injectPrefixHashHeader : Bool
  /-- `routing_mode == PREFIX`: both `is_prefix_mode` and `should_learn_routes` -/
  prefixMode : Bool
  /-- `enable_multi_depth_routing` -/
  enableMultiDepthRouting : Bool
  /-- `miss_placement == LEAST_LOADED` -/
  leastLoadedPlacement : Bool

/-- The routing input of a request: its tokens, the boundary of the shared prefix
(zero when none was found) and the boundaries for multi-depth learning. -/
structure PrefixRequest : Type where
  /-- the token sequence -/
  tokens : List TokenId
  /-- `prefix_boundary` -/
  prefixBoundary : ℕ
  /-- `prefix_boundaries` -/
  prefixBoundaries : List ℕ

/-- What the learn paths read of the shard: the ART's answer for a prefix, whether
that backend is live, and whether the learn and the eager learn are attempted. -/
structure LearnState : Type where
  /-- `tree->lookup` -/
  existing : List TokenId → Option BackendId
  /-- registered, not draining, not dead -/
  isLive : BackendId → Bool
  /-- a learn target exists and its routes may be cached -/
  learns : Bool
  /-- an ART miss under eager learning -/
  eager : Bool

/-- The `X-Ranvier-Prefix-Hash` value, when the header is sent. -/
def headerHash (cfg : PrefixConfig) (req : PrefixRequest) : Option UInt64 :=
  if cfg.cacheEventsEnabled && cfg.injectPrefixHashHeader && cfg.prefixMode &&
      !req.tokens.isEmpty then
    some (hashPrefix req.tokens (min req.tokens.length cfg.prefixTokenLength) cfg.blockAlignment)
  else none

/-- `prefix_len` in `get_backend_for_prefix` and `effective_prefix_len` in
`learn_route_global`, for a sequence of `n` tokens. -/
def prefixLen (cfg : PrefixConfig) (n prefixBoundary : ℕ) : ℕ :=
  if 0 < prefixBoundary ∧ prefixBoundary ≤ n then prefixBoundary
  else min n cfg.prefixTokenLength

/-- The hash `get_backend_for_prefix` looks the request up under; a request without
tokens to route on is not hashed. -/
def lookupHash (cfg : PrefixConfig) (req : PrefixRequest) : Option UInt64 :=
  let len := prefixLen cfg req.tokens.length req.prefixBoundary
  if len = 0 then none else some (hashPrefix req.tokens len cfg.blockAlignment)

/-- `learn_route_global`: the truncated route put into the batch, if it is. -/
def learnRouteGlobal (cfg : PrefixConfig) (st : LearnState) (tokens : List TokenId)
    (backend : BackendId) (prefixBoundary : ℕ) : Option (List TokenId) :=
  let len := prefixLen cfg tokens.length prefixBoundary
  let tokens := if len < tokens.length then tokens.take len else tokens
  if 0 < cfg.maxRouteTokens ∧ cfg.maxRouteTokens < tokens.length then none
  else
    match st.existing tokens with
    | some held =>
      if held = backend then none
      else if cfg.leastLoadedPlacement && st.isLive held then none
      else some tokens
    | none => some tokens

/-- `learn_route_global_multi`: the routes put into the batch. -/
def learnRouteGlobalMulti (cfg : PrefixConfig) (st : LearnState) (tokens : List TokenId)
    (backend : BackendId) (prefixBoundaries : List ℕ) : List (List TokenId) :=
  let validBoundaries := prefixBoundaries.filter fun b => 0 < b ∧ b ≤ tokens.length
  if validBoundaries.isEmpty then (learnRouteGlobal cfg st tokens backend 0).toList
  else
    (validBoundaries.filter fun b => ¬ (0 < cfg.maxRouteTokens ∧ cfg.maxRouteTokens < b)).map
      fun b => tokens.take b

/-- The routes a request has learned: eagerly on a miss, and on the first byte. -/
def learnedRoutes (cfg : PrefixConfig) (st : LearnState) (req : PrefixRequest)
    (backend : BackendId) : List (List TokenId) :=
  if st.learns && cfg.prefixMode && decide (cfg.minTokenLength ≤ req.tokens.length) then
    (if st.eager then
      (learnRouteGlobal cfg st req.tokens backend req.prefixBoundary).toList
     else []) ++
    (if !req.prefixBoundaries.isEmpty && cfg.enableMultiDepthRouting then
      learnRouteGlobalMulti cfg st req.tokens backend req.prefixBoundaries
     else (learnRouteGlobal cfg st req.tokens backend req.prefixBoundary).toList)
  else []

/-- The hash `apply_local_batch_to_tree` publishes a route under, at its full
stored depth; an empty route is not published. -/
def publishedHash (cfg : PrefixConfig) (route : List TokenId) : Option UInt64 :=
  if 0 < route.length then some (hashPrefix route route.length cfg.blockAlignment) else none

/-- The hash in the header is the one the request is looked up under and every
one its learned routes are published under. -/
structure HashesAgree (cfg : PrefixConfig) (req : PrefixRequest) (st : LearnState)
    (backend : BackendId) : Prop where
  /-- against the lookup -/
  lookup : ∀ h, headerHash cfg req = some h → ∀ h', lookupHash cfg req = some h' → h = h'
  /-- against the publication -/
  published : ∀ h, headerHash cfg req = some h →
    ∀ route, route ∈ learnedRoutes cfg st req backend →
      ∀ h', publishedHash cfg route = some h' → h = h'

/-! ## When they agree -/

/-- Whether the header is sent with a request of `n` tokens. -/
def headerSent (cfg : PrefixConfig) (n : ℕ) : Bool :=
  cfg.cacheEventsEnabled && cfg.injectPrefixHashHeader && cfg.prefixMode && decide (0 < n)

/-- A depth the learn paths do not reject as too long. -/
def withinRouteLimit (cfg : PrefixConfig) (d : ℕ) : Bool :=
  decide (¬ (0 < cfg.maxRouteTokens ∧ cfg.maxRouteTokens < d))

/-- The depths of the boundaries given for multi-depth learning, or the default
depth when none of them is valid. -/
def multiDepths (cfg : PrefixConfig) (n : ℕ) (prefixBoundaries : List ℕ) : List ℕ :=
  let validBoundaries := prefixBoundaries.filter fun b => 0 < b ∧ b ≤ n
  if validBoundaries.isEmpty then [prefixLen cfg n 0] else validBoundaries

/-- The depths a request of `n` tokens may be learned at. -/
def learnDepths (cfg : PrefixConfig) (n prefixBoundary : ℕ) (prefixBoundaries : List ℕ) : List ℕ :=
  if cfg.minTokenLength ≤ n then
    (prefixLen cfg n prefixBoundary ::
      if !prefixBoundaries.isEmpty && cfg.enableMultiDepthRouting then
        multiDepths cfg n prefixBoundaries
      else []).filter (withinRouteLimit cfg)
  else []

theorem prefixLen_le (cfg : PrefixConfig) (n prefixBoundary : ℕ) :
    prefixLen cfg n prefixBoundary ≤ n := by
  unfold prefixLen
  split
  · rename_i h
    exact h.2
  · exact Nat.min_le_left _ _

/-- Publication hashes a truncated route as it would hash the whole request. -/
theorem hashPrefix_take {tokens : List TokenId} {d : ℕ} (blockAlignment : ℕ+) :
    hashPrefix (tokens.take d) d blockAlignment = hashPrefix tokens d blockAlignment := by
  rw [hashPrefix, hashPrefix, List.take_take, Nat.min_eq_left (hashedLen_le _ _)]

theorem publishedHash_take (cfg : PrefixConfig) {tokens : List TokenId} {d : ℕ}
    (hd : d ≤ tokens.length) :
    publishedHash cfg (tokens.take d) =
      if 0 < d then some (hashPrefix tokens d cfg.blockAlignment) else none := by
  rw [publishedHash, List.length_take, Nat.min_eq_left hd, hashPrefix_take]

theorem truncate_eq {tokens : List TokenId} {d : ℕ} (hd : d ≤ tokens.length) :
    (if d < tokens.length then tokens.take d else tokens) = tokens.take d := by
  split
  · rfl
  · rw [List.take_of_length_le (by omega)]

theorem learnRouteGlobal_eq (cfg : PrefixConfig) (st : LearnState) (tokens : List TokenId)
    (backend : BackendId) (prefixBoundary : ℕ) {route : List TokenId}
    (h : learnRouteGlobal cfg st tokens backend prefixBoundary = some route) :
    route = tokens.take (prefixLen cfg tokens.length prefixBoundary) ∧
      withinRouteLimit cfg (prefixLen cfg tokens.length prefixBoundary) = true := by
  have hle := prefixLen_le cfg tokens.length prefixBoundary
  rw [learnRouteGlobal] at h
  simp only [truncate_eq hle, List.length_take, Nat.min_eq_left hle] at h
  split at h
  · cases h
  · rename_i hlimit
    refine ⟨?_, decide_eq_true hlimit⟩
    split at h
    · split_ifs at h
      exact (Option.some.inj h).symm
    · exact (Option.some.inj h).symm

/-- On a shard that has learned nothing a route within the limit is learned. -/
theorem learnRouteGlobal_of_none (cfg : PrefixConfig) {st : LearnState}
    (hst : ∀ tokens, st.existing tokens = none) (tokens : List TokenId) (backend : BackendId)
    (prefixBoundary : ℕ)
    (hlimit : withinRouteLimit cfg (prefixLen cfg tokens.length prefixBoundary) = true) :
    learnRouteGlobal cfg st tokens backend prefixBoundary =
      some (tokens.take (prefixLen cfg tokens.length prefixBoundary)) := by
  have hle := prefixLen_le cfg tokens.length prefixBoundary
  rw [learnRouteGlobal]
  simp only [truncate_eq hle, List.length_take, Nat.min_eq_left hle, hst]
  rw [if_neg (of_decide_eq_true hlimit)]

/-- Lookup and single-depth learning meet at the same hash, always. -/
theorem lookup_eq_learned (cfg : PrefixConfig) (st : LearnState) (req : PrefixRequest)
    (backend : BackendId) {route : List TokenId} {h h' : UInt64}
    (hroute : learnRouteGlobal cfg st req.tokens backend req.prefixBoundary = some route)
    (hlook : lookupHash cfg req = some h) (hpub : publishedHash cfg route = some h') : h = h' := by
  obtain ⟨rfl, -⟩ := learnRouteGlobal_eq cfg st req.tokens backend req.prefixBoundary hroute
  rw [publishedHash_take cfg (prefixLen_le _ _ _)] at hpub
  rw [lookupHash] at hlook
  split_ifs at hlook hpub
  rw [← Option.some.inj hlook, ← Option.some.inj hpub]

/-- Every learned route is the request cut at one of the learn depths. -/
theorem mem_learnedRoutes {cfg : PrefixConfig} {st : LearnState} {req : PrefixRequest}
    {backend : BackendId} {route : List TokenId}
    (h : route ∈ learnedRoutes cfg st req backend) :
    ∃ d, d ∈ learnDepths cfg req.tokens.length req.prefixBoundary req.prefixBoundaries ∧
      d ≤ req.tokens.length ∧ route = req.tokens.take d := by
  have hsingle : ∀ pb, route ∈ (learnRouteGlobal cfg st req.tokens backend pb).toList →
      withinRouteLimit cfg (prefixLen cfg req.tokens.length pb) = true ∧
        route = req.tokens.take (prefixLen cfg req.tokens.length pb) := by
    intro pb hmem
    rw [Option.mem_toList] at hmem
    obtain ⟨hroute, hlimit⟩ := learnRouteGlobal_eq cfg st req.tokens backend pb hmem
    exact ⟨hlimit, hroute⟩
  rw [learnedRoutes] at h
  split at h
  · rename_i hgate
    simp only [Bool.and_eq_true, decide_eq_true_eq] at hgate
    rw [learnDepths, if_pos hgate.2]
    have hown : route ∈
        (learnRouteGlobal cfg st req.tokens backend req.prefixBoundary).toList →
        ∃ d, d ∈ (prefixLen cfg req.tokens.length req.prefixBoundary ::
          if !req.prefixBoundaries.isEmpty && cfg.enableMultiDepthRouting then
            multiDepths cfg req.tokens.length req.prefixBoundaries
          else []).filter (withinRouteLimit cfg) ∧
          d ≤ req.tokens.length ∧ route = req.tokens.take d := by
      intro hmem
      obtain ⟨hlimit, hroute⟩ := hsingle _ hmem
      exact ⟨_, List.mem_filter.mpr ⟨List.mem_cons_self, hlimit⟩, prefixLen_le _ _ _, hroute⟩
    -- the eager learn, then the learn after the response
    rcases List.mem_append.mp h with h | h
    · split at h
      · exact hown h
      · cases h
    · split at h
      · rename_i hmulti
        rw [if_pos hmulti]
        rw [learnRouteGlobalMulti] at h
        rw [multiDepths]
        split at h
        · rename_i hempty
          rw [if_pos hempty]
          obtain ⟨hlimit, hroute⟩ := hsingle _ h
          exact ⟨_, List.mem_filter.mpr ⟨List.mem_cons_of_mem _ List.mem_cons_self, hlimit⟩,
            prefixLen_le _ _ _, hroute⟩
        · rename_i hsome
          rw [if_neg hsome]
          obtain ⟨d, hd, rfl⟩ := List.mem_map.mp h
          obtain ⟨hvalid, hlimit⟩ := List.mem_filter.mp hd
          have hbound := of_decide_eq_true (List.mem_filter.mp hvalid).2
          exact ⟨d, List.mem_filter.mpr ⟨List.mem_cons_of_mem _ hvalid, hlimit⟩, hbound.2, rfl⟩
      · exact hown h
  · cases h

/-- A shard that has learned nothing yet and learns both ways. -/
def freshLearnState : LearnState := ⟨fun _ => none, fun _ => true, true, true⟩

/-- Every learn depth is learned at on a fresh shard. -/
theorem learnedRoutes_of_mem {cfg : PrefixConfig} (req : PrefixRequest) (backend : BackendId)
    (hmode : cfg.prefixMode = true) {d : ℕ}
    (hd : d ∈ learnDepths cfg req.tokens.length req.prefixBoundary req.prefixBoundaries) :
    d ≤ req.tokens.length ∧
      req.tokens.take d ∈ learnedRoutes cfg freshLearnState req backend := by
  rw [learnDepths] at hd
  split at hd
  · rename_i hmin
    have hgate : (freshLearnState.learns && cfg.prefixMode &&
        decide (cfg.minTokenLength ≤ req.tokens.length)) = true := by
      rw [hmode, decide_eq_true hmin]
      rfl
    obtain ⟨hmem, hlimit⟩ := List.mem_filter.mp hd
    rw [learnedRoutes, if_pos hgate]
    -- the eager learn covers the first depth, the multi-depth learn the others
    rcases List.mem_cons.mp hmem with rfl | hmem
    · refine ⟨prefixLen_le _ _ _, List.mem_append_left _ ?_⟩
      rw [if_pos (show freshLearnState.eager = true from rfl),
        learnRouteGlobal_of_none cfg (fun _ => rfl) _ _ _ hlimit]
      exact List.mem_singleton_self _
    · split at hmem
      · rename_i hmulti
        rw [if_pos hmulti, learnRouteGlobalMulti]
        rw [multiDepths] at hmem
        split at hmem
        · rename_i hempty
          rw [List.mem_singleton.mp hmem] at hlimit ⊢
          refine ⟨prefixLen_le _ _ _, List.mem_append_right _ ?_⟩
          rw [if_pos hempty, learnRouteGlobal_of_none cfg (fun _ => rfl) _ _ _ hlimit]
          exact List.mem_singleton_self _
        · rename_i hsome
          have hbound := of_decide_eq_true (List.mem_filter.mp hmem).2
          refine ⟨hbound.2, List.mem_append_right _ ?_⟩
          rw [if_neg hsome]
          exact List.mem_map.mpr ⟨d, List.mem_filter.mpr ⟨hmem, hlimit⟩, rfl⟩
      · cases hmem
  · cases hd

theorem headerHash_eq (cfg : PrefixConfig) (req : PrefixRequest) :
    headerHash cfg req =
      if headerSent cfg req.tokens.length then
        some (hashPrefix req.tokens (min req.tokens.length cfg.prefixTokenLength)
          cfg.blockAlignment)
      else none := by
  have hempty : (!req.tokens.isEmpty) = decide (0 < req.tokens.length) := by
    cases req.tokens <;> simp
  rw [headerHash, headerSent, hempty]

/-- Where the header is sent, agreement over every token sequence forces each depth
to reach the same tokens as the header's. -/
theorem depths_of_header_agrees {cfg : PrefixConfig} {n prefixBoundary : ℕ}
    {prefixBoundaries : List ℕ}
    (hall : ∀ tokens : List TokenId, tokens.length = n → ∀ st backend,
      HashesAgree cfg ⟨tokens, prefixBoundary, prefixBoundaries⟩ st backend)
    (hsent : headerSent cfg n = true) {d : ℕ}
    (hd : d ∈ prefixLen cfg n prefixBoundary ::
      learnDepths cfg n prefixBoundary prefixBoundaries) (hpos : 0 < d) :
    hashedLen cfg.blockAlignment d =
      hashedLen cfg.blockAlignment (min n cfg.prefixTokenLength) := by
  have hmode : cfg.prefixMode = true := by
    simp only [headerSent, Bool.and_eq_true] at hsent
    exact hsent.1.2
  have hheader : ∀ tokens : List TokenId, tokens.length = n →
      headerHash cfg ⟨tokens, prefixBoundary, prefixBoundaries⟩ =
        some (hashPrefix tokens (min n cfg.prefixTokenLength) cfg.blockAlignment) := by
    intro tokens hn
    rw [headerHash_eq]
    dsimp only
    rw [hn, if_pos hsent]
  have hdn : d ≤ n := by
    rcases List.mem_cons.mp hd with rfl | hd
    · exact prefixLen_le _ _ _
    · have := learnedRoutes_of_mem ⟨List.replicate n 0, prefixBoundary, prefixBoundaries⟩
        0 hmode (by simpa using hd)
      simpa using this.1
  refine (hashPrefix_eq_iff hdn (Nat.min_le_left _ _) cfg.blockAlignment).mp fun tokens hn => ?_
  -- a fresh shard learns at every depth
  have hagree := hall tokens hn freshLearnState 0
  rcases List.mem_cons.mp hd with rfl | hd
  · have hlook : lookupHash cfg ⟨tokens, prefixBoundary, prefixBoundaries⟩ =
        some (hashPrefix tokens (prefixLen cfg n prefixBoundary) cfg.blockAlignment) := by
      rw [lookupHash]
      dsimp only
      rw [hn, if_neg (by omega)]
    exact (hagree.lookup _ (hheader tokens hn) _ hlook).symm
  · obtain ⟨hlen, hmem⟩ := learnedRoutes_of_mem
      ⟨tokens, prefixBoundary, prefixBoundaries⟩ 0 hmode (by rw [hn]; exact hd)
    have hpub := publishedHash_take cfg hlen
    rw [if_pos hpos] at hpub
    exact (hagree.published _ (hheader tokens hn) _ hmem _ hpub).symm

/-- A header that is the hash at each depth agrees with lookup and publications. -/
theorem hashesAgree_of_depths {cfg : PrefixConfig} {req : PrefixRequest} {st : LearnState}
    {backend : BackendId}
    (hsame : ∀ h, headerHash cfg req = some h →
      ∀ d, d ∈ prefixLen cfg req.tokens.length req.prefixBoundary ::
        learnDepths cfg req.tokens.length req.prefixBoundary req.prefixBoundaries → 0 < d →
        h = hashPrefix req.tokens d cfg.blockAlignment) : HashesAgree cfg req st backend := by
  refine ⟨fun h hh h' hh' => ?_, fun h hh route hroute h' hh' => ?_⟩
  · rw [lookupHash] at hh'
    split at hh'
    · cases hh'
    · next hpos =>
      rw [← Option.some.inj hh']
      exact hsame h hh _ List.mem_cons_self (Nat.pos_of_ne_zero hpos)
  · obtain ⟨d, hd, hlen, rfl⟩ := mem_learnedRoutes hroute
    rw [publishedHash_take cfg hlen] at hh'
    split at hh'
    · next hpos =>
      rw [← Option.some.inj hh']
      exact hsame h hh d (List.mem_cons_of_mem _ hd) hpos
    · cases hh'

/-- **When the header agrees.** Over every token sequence of length `n` and every
state of the shard, the header carries the hash of the lookup and of every
publication exactly when it is not sent, or each depth the request is looked up or
learned at reaches the same tokens as `prefix_token_length` does. -/
theorem header_agrees_iff (cfg : PrefixConfig) (n prefixBoundary : ℕ)
    (prefixBoundaries : List ℕ) :
    (∀ tokens : List TokenId, tokens.length = n → ∀ st backend,
      HashesAgree cfg ⟨tokens, prefixBoundary, prefixBoundaries⟩ st backend) ↔
      (headerSent cfg n = true →
        ∀ d, d ∈ prefixLen cfg n prefixBoundary ::
            learnDepths cfg n prefixBoundary prefixBoundaries → 0 < d →
          hashedLen cfg.blockAlignment d =
            hashedLen cfg.blockAlignment (min n cfg.prefixTokenLength)) := by
  constructor
  · intro hall hsent d hd hpos
    exact depths_of_header_agrees hall hsent hd hpos
  · intro hcond tokens hn st backend
    refine hashesAgree_of_depths fun h hh d hd hpos => ?_
    rw [headerHash_eq] at hh
    dsimp only at hd hh ⊢
    rw [hn] at hd hh
    split at hh
    · next hsent => rw [← Option.some.inj hh, hashPrefix, hashPrefix, hcond hsent d hd hpos]
    · cases hh

/-- A configuration with the defaults of the routing section and the header on. -/
def defaultPrefixConfig : PrefixConfig where
  blockAlignment := 16
  prefixTokenLength := 128
  maxRouteTokens := 8192
  minTokenLength := 4
  cacheEventsEnabled := true
  injectPrefixHashHeader := true
  prefixMode := true
  enableMultiDepthRouting := false
  leastLoadedPlacement := false

/-- **The slip.** A request of 48 tokens with a client boundary at 16 is looked up
and learned under the hash of 16 tokens; the header carries the hash of 48. -/
theorem header_disagrees_at_boundary :
    ¬ HashesAgree defaultPrefixConfig ⟨List.replicate 48 7, 16, []⟩ freshLearnState 1 := by
  intro hagree
  have h := hagree.lookup _ rfl _ rfl
  revert h
  decide +kernel

end Ranvier
