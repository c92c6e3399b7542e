import Ranvier.RadixTree

/-!
# Trusted insertion

`insert_if_trusted` takes its decision at the bottom of a descent that may
already have split nodes. On a well-formed tree whose paths are all within
`MAX_PREFIX_LENGTH` nothing of that is visible:

* `insertRecursive_trustResult` — the outcome is a function of the request and of
  the route held at its key before;
* `insertIfTrusted_settles` — at most the entry of the aligned key changes, a held
  route gives way only as `Yields` permits, and the outcome names what happened.
-/

namespace Ranvier

/-! ## Paths within the maximum -/

namespace Node

mutual

/-- Every path of the subtree is within `MAX_PREFIX_LENGTH`. -/
def pathsWithinMax : Node → Bool
  | ⟨_, _, pre, _, _, _, _, _, kids⟩ =>
    decide (pre.length ≤ maxPrefixLength) && pathsWithinMaxKids kids

/-- The same below a node. -/
def pathsWithinMaxKids : List (UInt8 × Node) → Bool
  | [] => true
  | (_, c) :: kids => c.pathsWithinMax && pathsWithinMaxKids kids

end

theorem pathsWithinMax_eq (n : Node) :
    n.pathsWithinMax = (decide (n.pre.length ≤ maxPrefixLength) && pathsWithinMaxKids n.kids) := by
  obtain ⟨_, _, _, _, _, _, _, _, _⟩ := n
  rw [pathsWithinMax]

theorem pathsWithinMax_of_lookup {kids : List (UInt8 × Node)} (h : pathsWithinMaxKids kids = true)
    {b : UInt8} {c : Node} (hc : kids.lookup b = some c) : c.pathsWithinMax = true := by
  induction kids with
  | nil => cases hc
  | cons p kids ih =>
    obtain ⟨k, d⟩ := p
    rw [pathsWithinMaxKids, Bool.and_eq_true] at h
    rw [lookup_cons_eq] at hc
    split at hc
    · obtain rfl := Option.some.inj hc
      exact h.1
    · exact ih h.2 hc

/-- An insertion into such a subtree splits no path past the maximum. -/
theorem splitsWithinMax_of_paths {n : Node} (hwf : n.WF) (h : n.pathsWithinMax = true)
    (key : List UInt8) : n.splitsWithinMax key = true := by
  induction hk : key.length using Nat.strong_induction_on generalizing n key with
  | _ len ih =>
    rw [pathsWithinMax_eq, Bool.and_eq_true, decide_eq_true_eq] at h
    rw [splitsWithinMax]
    split
    · rw [decide_eq_true_eq]
      omega
    · split
      · rfl
      · rename_i b rest hrem
        split
        · rename_i child hchild
          rw [findChild_eq_lookup hwf.shape] at hchild
          have hrest : rest.length < len := by
            have hlen := congrArg List.length hrem
            rw [List.length_drop, List.length_cons] at hlen
            omega
          exact ih rest.length hrest (hwf.kids b child hchild)
            (pathsWithinMax_of_lookup h.2 hchild) rest rfl
        · rfl

end Node

/-! ## The outcome of the descent -/

/-- The outcome of a request that meets the route `held` at its key. -/
def outcome (req : InsertRequest) (held : Option Node.Leaf) : TrustInsertResult :=
  match held, req.trust with
  | none, _ => .INSERTED_NEW
  | some _, none => .OVERWROTE
  | some l, some converge =>
    if converge = true ∧ req.origin ≠ .PUSH ∧ l.backend ≠ req.backend ∧ l.origin ≠ .PUSH then
      if req.backend < l.backend then .OVERWROTE else .REFUSED
    else if l.origin.index < req.origin.index then
      if l.backend = req.backend then .TOUCHED_SAME else .REFUSED
    else .OVERWROTE

theorem updateLeaf_trustResult (req : InsertRequest) (n : Node) (book : TreeBook) :
    (updateLeaf req n book).trustResult = outcome req n.leaf := by
  rcases hv : n.leafValue with _ | held
  · have hleaf : n.leaf = none := by
      rw [Node.leaf, hv]
      rfl
    rw [hleaf, updateLeaf_of_none req book hv, overwriteLeaf, hv]
    rfl
  · have hleaf : n.leaf = some ⟨held, n.origin, n.keyTokens, n.lastAccessed⟩ := by
      rw [Node.leaf, hv]
      rfl
    have hover : (overwriteLeaf req n book).trustResult = .OVERWROTE := by
      rw [overwriteLeaf, hv]
      rfl
    rcases ht : req.trust with _ | converge
    · simp only [updateLeaf, outcome, ht, hv, hleaf]
      exact hover
    · simp only [updateLeaf, outcome, ht, hv, hleaf]
      split_ifs
      · exact hover
      · rfl
      · rfl
      · rfl
      · exact hover

/-- **The outcome.** Whatever the descent splits or grows on its way, the outcome
is decided by the route held at the key before. -/
theorem insertRecursive_trustResult (req : InsertRequest) (n : Node) (key : List UInt8)
    (book : TreeBook) (hwf : n.WF) (hmax : n.splitsWithinMax key = true) :
    (insertRecursive req n key book).trustResult = outcome req (n.stored key) := by
  fun_induction insertRecursive req n key book with
  | case1 n key book len s hrem =>
    obtain ⟨-, hstored, hkey, -, -⟩ := split_ready hwf hmax book (s := s) rfl
    obtain ⟨-, hleaf⟩ := leaf_of_split hstored hkey hrem
    rw [updateLeaf_trustResult, hleaf]
  | case2 n key book len s b rest hrem child hfind r ih =>
    obtain ⟨hwf', hstored, hkey, -, hdesc⟩ := split_ready hwf hmax book (s := s) rfl
    change key = s.1.pre ++ key.drop len at hkey
    rw [hrem] at hkey
    rw [Node.findChild_eq_lookup hwf'.shape] at hfind
    have hbelow : n.stored key = child.stored rest := by
      rw [← hstored, hkey, Node.stored_append, Node.storedBelow, hfind]
      rfl
    rw [hbelow]
    exact ih (hwf'.kids b child hfind) (hdesc b rest child hrem hfind)
  | case3 n key book len s b rest hrem hfind c₀ c p =>
    obtain ⟨hwf', hstored, hkey, -, -⟩ := split_ready hwf hmax book (s := s) rfl
    change key = s.1.pre ++ key.drop len at hkey
    rw [hrem] at hkey
    rw [Node.findChild_eq_lookup hwf'.shape] at hfind
    have hbelow : n.stored key = none := by
      rw [← hstored, hkey, Node.stored_append, Node.storedBelow, hfind]
      rfl
    rw [hbelow]
    rfl

/-! ## What a trusted insertion does to the map -/

/-- Whether a held route gives way to a request. Under convergence, between two
backends neither of which was pushed, the smaller id wins; otherwise the request
must be at least as trusted. -/
def Yields (converge : Bool) (wanted held : BackendId × RouteOrigin) : Prop :=
  if converge = true ∧ wanted.2 ≠ .PUSH ∧ held.1 ≠ wanted.1 ∧ held.2 ≠ .PUSH then
    wanted.1 < held.1
  else wanted.2.index ≤ held.2.index

/-- The map before and after a trusted insertion, and the outcome it returned. -/
structure Settles (key : List TokenId) (wanted : BackendId × RouteOrigin) (converge : Bool)
    (m m' : RouteMap) (result : TrustInsertResult) : Prop where
  /-- no other key changes -/
  others : ∀ k, k ≠ key → m' k = m k
  /-- a held route is replaced only where it yields, and by the wanted one -/
  replaced : ∀ held, m key = some held → m' key ≠ m key →
    Yields converge wanted held ∧ m' key = some wanted
  /-- a refused or merely touched route stands, as does every other -/
  unchanged : result = .REFUSED ∨ result = .TOUCHED_SAME → ∀ k, m' k = m k
  /-- `INSERTED_NEW`: the key was free and now holds the wanted route -/
  inserted : result = .INSERTED_NEW ↔ key ≠ [] ∧ m key = none ∧ m' key = some wanted
  /-- `OVERWROTE`: a held route yielded to the wanted one -/
  overwrote : result = .OVERWROTE ↔
    ∃ held, m key = some held ∧ Yields converge wanted held ∧ m' key = some wanted
  /-- `TOUCHED_SAME`: the wanted backend was held under a more trusted origin -/
  touched : result = .TOUCHED_SAME ↔
    ∃ origin, m key = some (wanted.1, origin) ∧ ¬Yields converge wanted (wanted.1, origin)
  /-- `REFUSED`: no whole block to insert at, or another backend did not yield -/
  refused : result = .REFUSED ↔
    key = [] ∨ ∃ held, m key = some held ∧ held.1 ≠ wanted.1 ∧ ¬Yields converge wanted held

instance (converge : Bool) (wanted held : BackendId × RouteOrigin) :
    Decidable (Yields converge wanted held) :=
  if h : converge = true ∧ wanted.2 ≠ .PUSH ∧ held.1 ≠ wanted.1 ∧ held.2 ≠ .PUSH then
    decidable_of_iff (wanted.1 < held.1) (by rw [Yields, if_pos h])
  else decidable_of_iff (wanted.2.index ≤ held.2.index) (by rw [Yields, if_neg h])

/-- A request that meets a held route, decided by `Yields`. -/
theorem settleRoute_eq (wanted held : BackendId × RouteOrigin) (converge : Bool) :
    settleRoute wanted.1 wanted.2 (some converge) (some held) =
      if Yields converge wanted held then wanted else held := by
  rw [settleRoute]
  by_cases hcase : converge = true ∧ wanted.2 ≠ .PUSH ∧ held.1 ≠ wanted.1 ∧ held.2 ≠ .PUSH
  · simp only [Yields, if_pos hcase]
  · simp only [Yields, if_neg hcase]
    split_ifs <;> first | rfl | omega

/-- The same of the outcome. -/
theorem outcome_eq (req : InsertRequest) {converge : Bool} (ht : req.trust = some converge)
    (l : Node.Leaf) :
    outcome req (some l) =
      if Yields converge (req.backend, req.origin) l.route then .OVERWROTE
      else if l.backend = req.backend then .TOUCHED_SAME else .REFUSED := by
  simp only [outcome, ht, Node.Leaf.route]
  by_cases hcase : converge = true ∧ req.origin ≠ .PUSH ∧ l.backend ≠ req.backend ∧
      l.origin ≠ .PUSH
  · simp only [Yields, if_pos hcase, if_neg hcase.2.2.1]
  · simp only [Yields, if_neg hcase]
    split_ifs <;> first | rfl | omega

/-- The map and the outcome agree, for a key of at least one block. -/
theorem settles_update {key : List TokenId} (hkey : key ≠ []) (wanted : BackendId × RouteOrigin)
    (converge : Bool) (m : RouteMap) {result : TrustInsertResult}
    (hnone : m key = none → result = .INSERTED_NEW)
    (hsome : ∀ held, m key = some held →
      result = if Yields converge wanted held then .OVERWROTE
        else if held.1 = wanted.1 then .TOUCHED_SAME else .REFUSED) :
    Settles key wanted converge m
      (Function.update m key (some (settleRoute wanted.1 wanted.2 (some converge) (m key))))
      result := by
  rcases hm : m key with _ | held
  · obtain rfl := hnone hm
    have hput : settleRoute wanted.1 wanted.2 (some converge) none = wanted := rfl
    rw [hput]
    constructor
    case others => exact fun k hk => Function.update_of_ne hk _ _
    all_goals simp [hm, hkey]
  · -- a held route: it yields, or the map stays as it is
    have hres := hsome held hm
    rw [settleRoute_eq]
    by_cases hy : Yields converge wanted held
    · rw [if_pos hy] at hres ⊢
      subst hres
      constructor
      case others => exact fun k hk => Function.update_of_ne hk _ _
      all_goals simp [hm, hy]
      · rintro origin rfl
        exact hy
      · exact hkey
    · rw [if_neg hy] at hres ⊢
      have hsame : Function.update m key (some held) = m := by
        rw [← hm, Function.update_eq_self]
      rw [hsame]
      split_ifs at hres with hb <;> subst hres
      all_goals
        constructor
        case others => exact fun _ _ => rfl
        all_goals simp [hm, hy, hb, hkey]
      · exact ⟨held.2, by rw [← hb], by rw [← hb]; exact hy⟩
      · rintro origin rfl
        exact absurd rfl hb

namespace RadixTree

/-- The outcome of `insert_if_trusted`, read off the tree before. -/
theorem insertIfTrusted_snd {t : RadixTree} (h : t.Inv) (now : ℕ) (tokens : List TokenId)
    (backend : BackendId) (origin : RouteOrigin) (converge : Bool)
    (hmax : t.insertWithinMax tokens = true) :
    (t.insertIfTrusted now tokens backend origin converge).2 =
      if alignedLen t.blockAlignment tokens = 0 then .REFUSED
      else outcome
        ⟨backend, origin, alignedLen t.blockAlignment tokens % 2 ^ 32, some converge⟩
        (t.root.stored (encodeTokensBe (alignedTokens t.blockAlignment tokens))) := by
  rw [insertIfTrusted, insertWith]
  dsimp only
  split
  · rfl
  · exact insertRecursive_trustResult _ _ _ _ h.wf hmax

/-- The empty key holds no route. -/
theorem routes_nil {t : RadixTree} (h : t.Inv) : t.routes [] = none := by
  rw [routes, Option.map_eq_none_iff]
  by_contra hne
  obtain ⟨tokens, hkey, htokens, -⟩ := h.keys _ (Option.isSome_iff_ne_none.mpr hne)
  exact htokens (encodeTokensBe_injective hkey).symm

/-- **Trusted insertion.** Into a well-formed tree with all paths within
`MAX_PREFIX_LENGTH`: the tree still shows a map, which differs from the one before
at most at the aligned key, and there as the trust order and convergence permit;
the outcome names what happened. -/
theorem insertIfTrusted_settles {t : RadixTree} (h : t.Inv)
    (hpaths : t.root.pathsWithinMax = true) (now : ℕ) (tokens : List TokenId)
    (backend : BackendId) (origin : RouteOrigin) (converge : Bool) :
    Represents t t.routes ∧
      Represents (t.insertIfTrusted now tokens backend origin converge).1
        (t.insertIfTrusted now tokens backend origin converge).1.routes ∧
      Settles (alignedTokens t.blockAlignment tokens) (backend, origin) converge t.routes
        (t.insertIfTrusted now tokens backend origin converge).1.routes
        (t.insertIfTrusted now tokens backend origin converge).2 := by
  have hmax : t.insertWithinMax tokens = true := Node.splitsWithinMax_of_paths h.wf hpaths _
  obtain ⟨hinv, -, hroutes⟩ := insertWith_step h now tokens backend origin (some converge) hmax
  refine ⟨h.represents, hinv.represents, ?_⟩
  have hresult := insertIfTrusted_snd h now tokens backend origin converge hmax
  change (t.insertIfTrusted now tokens backend origin converge).1.routes = _ at hroutes
  rw [hroutes, RouteMap.put, hresult]
  by_cases hlen : alignedLen t.blockAlignment tokens = 0
  · -- shorter than a block: the tree is left as it is
    have hnil := alignedTokens_eq_nil_iff.mpr hlen
    rw [if_pos hlen, if_pos hnil, hnil]
    have hfree := routes_nil h
    constructor
    case others => exact fun _ _ => rfl
    all_goals simp [hfree]
  · have hne : alignedTokens t.blockAlignment tokens ≠ [] :=
      fun hnil => hlen (alignedTokens_eq_nil_iff.mp hnil)
    rw [if_neg hlen, if_neg hne]
    refine settles_update hne (backend, origin) converge t.routes ?_ ?_
    · intro hm
      rw [routes, Option.map_eq_none_iff] at hm
      rw [hm]
      rfl
    · intro held hm
      obtain ⟨l, hl, rfl⟩ := Option.map_eq_some_iff.mp hm
      rw [hl]
      exact outcome_eq _ rfl l

/-- A tree that routes one two-token key to backend 3. -/
def oneRoute : RadixTree := (create ⟨2, Nat.two_pos⟩ 0).run [(0, .insert [5, 6] 3 .LOCAL)]

/-- A converging announcement of a smaller backend id takes the key over. -/
theorem insertIfTrusted_settles_oneRoute :
    oneRoute.root.pathsWithinMax = true ∧
      (oneRoute.insertIfTrusted 1 [5, 6, 7] 2 .REMOTE true).2 = .OVERWROTE ∧
      Settles [5, 6] (2, .REMOTE) true oneRoute.routes
        (oneRoute.insertIfTrusted 1 [5, 6, 7] 2 .REMOTE true).1.routes
        (oneRoute.insertIfTrusted 1 [5, 6, 7] 2 .REMOTE true).2 :=
  have hinv : oneRoute.Inv := (run_spec (create_inv 2 0) _ (by decide +kernel)).1
  ⟨by decide +kernel, by decide +kernel,
    (insertIfTrusted_settles hinv (by decide +kernel) 1 [5, 6, 7] 2 .REMOTE true).2.2⟩

end RadixTree

end Ranvier
