import Ranvier.TrustInsert

/-!
# Convergent insertions agree

Under least-loaded placement every node learns routes on its own and announces
them; conflicts are settled by the smallest backend id. Whatever the order in
which the insertions of one key arrive, and whatever happens to other keys in
between, the key ends with the smallest backend inserted.

* `settleRoute_converge` — between routes that were not pushed, a convergent
  insertion takes the minimum of the two ids;
* `run_converges` — two runs that insert the same backends for a key in any order
  leave it with the same backend;
* `run_splits_key` — the proviso on `MAX_PREFIX_LENGTH` is needed.
-/

namespace Ranvier

/-- The backend a convergent `LOCAL` or `REMOTE` insertion of `key` names. -/
def TreeOp.convergentFor (blockAlignment : ℕ+) (key : List TokenId) : TreeOp → Option BackendId
  | .insertIfTrusted tokens backend origin converge =>
    if RadixTree.alignedTokens blockAlignment tokens = key ∧ origin ≠ .PUSH ∧ converge = true then
      some backend
    else none
  | _ => none

/-- Operations that insert at another key, or do not insert. -/
def TreeOp.insertsElsewhere (blockAlignment : ℕ+) (key : List TokenId) : TreeOp → Bool
  | .insert tokens _ _ => decide (RadixTree.alignedTokens blockAlignment tokens ≠ key)
  | .insertIfTrusted tokens _ _ _ => decide (RadixTree.alignedTokens blockAlignment tokens ≠ key)
  | _ => true

/-- The backends a run inserts for `key`, in order. -/
def insertedFor (blockAlignment : ℕ+) (key : List TokenId) (ops : List (ℕ × TreeOp)) :
    List BackendId :=
  ops.filterMap fun op => op.2.convergentFor blockAlignment key

namespace RadixTree

/-- A convergent insertion of `key`, or an operation on other keys that does not
remove this one. -/
def stepConverges (t : RadixTree) (key : List TokenId) (now : ℕ) (op : TreeOp) : Bool :=
  (op.convergentFor t.blockAlignment key).isSome ||
    op.insertsElsewhere t.blockAlignment key &&
      ((t.routes key).isNone || ((t.step now op).routes key).isSome)

/-- Every step of the run is one of these. -/
def onlyConverges (t : RadixTree) (key : List TokenId) : List (ℕ × TreeOp) → Bool
  | [] => true
  | (now, op) :: ops => t.stepConverges key now op && (t.step now op).onlyConverges key ops

end RadixTree

/-! ## One insertion takes the minimum -/

/-- Between routes that were not pushed, the smaller id stays, under one of the two
origins. -/
theorem settleRoute_converge (backend heldBackend : BackendId) {origin heldOrigin : RouteOrigin}
    (ho : origin ≠ .PUSH) (hheld : heldOrigin ≠ .PUSH) :
    ∃ o, o ≠ .PUSH ∧
      settleRoute backend origin (some true) (some (heldBackend, heldOrigin)) =
        (min backend heldBackend, o) := by
  rw [settleRoute]
  by_cases hb : heldBackend = backend
  · subst hb
    rw [min_self, if_neg (by simp)]
    split
    · exact ⟨heldOrigin, hheld, rfl⟩
    · exact ⟨origin, ho, rfl⟩
  · rw [if_pos ⟨rfl, ho, hb, hheld⟩]
    split
    · rename_i hlt
      exact ⟨origin, ho, by rw [min_eq_left hlt.le]⟩
    · rename_i hge
      exact ⟨heldOrigin, hheld, by rw [min_eq_right (not_lt.mp hge)]⟩

/-- The entry of a key after the convergent insertions of `ids`: free if there were
none, else the smallest of them. -/
def HoldsSmallest (ids : List BackendId) (held : Option (BackendId × RouteOrigin)) : Prop :=
  match held with
  | none => ids = []
  | some (backend, origin) => origin ≠ .PUSH ∧ backend ∈ ids ∧ ∀ b, b ∈ ids → backend ≤ b

theorem HoldsSmallest.insert {ids : List BackendId} {held : Option (BackendId × RouteOrigin)}
    (h : HoldsSmallest ids held) {backend : BackendId} {origin : RouteOrigin} (ho : origin ≠ .PUSH) :
    HoldsSmallest (ids ++ [backend]) (some (settleRoute backend origin (some true) held)) := by
  rcases held with _ | ⟨heldBackend, heldOrigin⟩
  · obtain rfl : ids = [] := h
    exact ⟨ho, by simp, by simp⟩
  · obtain ⟨hheld, hmem, hle⟩ := h
    obtain ⟨o, hne, hsettle⟩ := settleRoute_converge backend heldBackend ho hheld
    rw [hsettle]
    refine ⟨hne, ?_, ?_⟩
    · rcases le_total backend heldBackend with hle' | hle'
      · simp [min_eq_left hle']
      · simp [min_eq_right hle', hmem]
    · intro b hb
      rcases List.mem_append.mp hb with hb | hb
      · exact (min_le_right _ _).trans (hle b hb)
      · obtain rfl := List.mem_singleton.mp hb
        exact min_le_left _ _

/-- An operation on other keys that does not remove `key` leaves its entry alone. -/
theorem MapStep.eq_of_elsewhere {blockAlignment : ℕ+} {m m' : RouteMap} {op : TreeOp}
    (hstep : MapStep blockAlignment m op m') {key : List TokenId}
    (helse : op.insertsElsewhere blockAlignment key = true) (hkeep : m key ≠ none → m' key ≠ none) :
    m' key = m key := by
  have hput : ∀ tokens backend origin trust,
      RadixTree.alignedTokens blockAlignment tokens ≠ key →
      (m.put blockAlignment tokens backend origin trust) key = m key := by
    intro tokens backend origin trust hne
    rw [RouteMap.put]
    split
    · rfl
    · exact Function.update_of_ne (Ne.symm hne) _ _
  -- what may only be lost, is not lost
  have hlost : m' key = m key ∨ m' key = none → m' key = m key := by
    rintro (h | h)
    · exact h
    · by_contra hne
      exact hkeep (fun hnone => hne (h.trans hnone.symm)) h
  have hevict : (m' = m ∨ ∃ victim, m' = Function.update m victim none) → m' key = m key := by
    rintro (rfl | ⟨victim, rfl⟩)
    · rfl
    · refine hlost ?_
      by_cases hv : key = victim
      · exact .inr (by rw [hv, Function.update_self])
      · exact .inl (Function.update_of_ne hv _ _)
  cases op with
  | insert tokens backend origin =>
    rw [show m' = _ from hstep]
    exact hput tokens backend origin none (of_decide_eq_true helse)
  | insertIfTrusted tokens backend origin converge =>
    rw [show m' = _ from hstep]
    exact hput tokens backend origin (some converge) (of_decide_eq_true helse)
  | lookup tokens => rw [show m' = m from hstep]
  | evictOldest => exact hevict hstep
  | evictLowestTrust => exact hevict hstep
  | removeExpired cutoff => exact hlost (hstep key)
  | removeExpiredPerBackend cutoffFn => exact hlost (hstep key)
  | removeRoutesByBackend backend origin =>
    refine hlost ?_
    rw [show m' = _ from hstep]
    rcases hm : m key with _ | r
    · exact .inl (by simp [hm])
    · by_cases hr : r = (backend, origin)
      · exact .inr (by simp [Option.filter, hm, hr])
      · exact .inl (by simp [Option.filter, hm, hr])
  | compact => rw [show m' = m from hstep]

/-! ## Runs -/

namespace RadixTree

theorem convergentFor_eq_some {blockAlignment : ℕ+} {key : List TokenId} {op : TreeOp}
    {backend : BackendId} (h : op.convergentFor blockAlignment key = some backend) :
    ∃ tokens origin, op = .insertIfTrusted tokens backend origin true ∧
      alignedTokens blockAlignment tokens = key ∧ origin ≠ .PUSH := by
  cases op with
  | insertIfTrusted tokens b origin converge =>
    rw [TreeOp.convergentFor] at h
    split at h
    · rename_i hcase
      obtain ⟨hkey, ho, rfl⟩ := hcase
      obtain rfl := Option.some.inj h
      exact ⟨tokens, origin, rfl, hkey, ho⟩
    · cases h
  | _ => cases h

/-- **One step** of such a run keeps the smallest backend inserted so far. -/
theorem step_holdsSmallest {t : RadixTree} (h : t.Inv) {key : List TokenId} (hkey : key ≠ [])
    {now : ℕ} {op : TreeOp} (hmax : t.stepWithinMax op = true)
    (honly : t.stepConverges key now op = true)
    {ids : List BackendId} (hheld : HoldsSmallest ids (t.routes key)) :
    HoldsSmallest (ids ++ (op.convergentFor t.blockAlignment key).toList)
      ((t.step now op).routes key) := by
  obtain ⟨-, -, hstep⟩ := step_spec h now op hmax
  rcases hc : op.convergentFor t.blockAlignment key with _ | backend
  · rw [stepConverges, hc, Option.isSome_none, Bool.false_or, Bool.and_eq_true] at honly
    obtain ⟨helse, hkeep⟩ := honly
    have hkept : t.routes key ≠ none → (t.step now op).routes key ≠ none := by
      intro hne
      rw [Option.isNone_eq_false_iff.mpr (Option.isSome_iff_ne_none.mpr hne)] at hkeep
      exact Option.isSome_iff_ne_none.mp hkeep
    rw [hstep.eq_of_elsewhere helse hkept, Option.toList_none, List.append_nil]
    exact hheld
  · obtain ⟨tokens, origin, rfl, rfl, ho⟩ := convergentFor_eq_some hc
    rw [show (t.step now _).routes = _ from hstep, RouteMap.put, if_neg hkey,
      Function.update_self]
    exact hheld.insert ho

/-- **A run** keeps it. -/
theorem run_holdsSmallest {t : RadixTree} (h : t.Inv) {key : List TokenId} (hkey : key ≠ [])
    {ops : List (ℕ × TreeOp)} (hmax : t.runWithinMax ops = true) (honly : t.onlyConverges key ops = true)
    {ids : List BackendId} (hheld : HoldsSmallest ids (t.routes key)) :
    HoldsSmallest (ids ++ insertedFor t.blockAlignment key ops) ((t.run ops).routes key) := by
  induction ops generalizing t ids with
  | nil =>
    rw [insertedFor, List.filterMap_nil, List.append_nil]
    exact hheld
  | cons p ops ih =>
    obtain ⟨now, op⟩ := p
    rw [runWithinMax, Bool.and_eq_true] at hmax
    rw [onlyConverges, Bool.and_eq_true] at honly
    obtain ⟨hfirst, hrest⟩ := honly
    obtain ⟨hinv, halign, -⟩ := step_spec h now op hmax.1
    have hnext := ih hinv hmax.2 hrest (step_holdsSmallest h hkey hmax.1 hfirst hheld)
    rw [halign, List.append_assoc] at hnext
    have hcons : insertedFor t.blockAlignment key ((now, op) :: ops) =
        (op.convergentFor t.blockAlignment key).toList ++ insertedFor t.blockAlignment key ops := by
      rw [insertedFor, List.filterMap_cons]
      rcases op.convergentFor t.blockAlignment key with _ | b <;> rfl
    rw [hcons]
    exact hnext

/-- A stored key is its own longest match. -/
theorem lookup_of_routes {t : RadixTree} (h : t.Inv) {key : List TokenId}
    {r : BackendId × RouteOrigin} (hr : t.routes key = some r) (now : ℕ) :
    (t.lookup now key).1 = some r.1 := by
  refine IsLongestMatch.unique (h.represents.lookup now key) (Or.inr ?_)
  refine ⟨key, List.prefix_refl key, congrArg (Option.map Prod.fst) hr, rfl, ?_⟩
  exact fun q hq _ => hq.length_le

end RadixTree

/-- **Agreement.** Take two trees in which `key` is free, and a run of each that
inserts the same backends for it convergently, each in its own order and
interleaved with operations on other keys that do not remove it. If no insertion
of the runs splits a path past `MAX_PREFIX_LENGTH`, both trees end with `key` at
the smallest of the backends. -/
theorem run_converges {t₁ t₂ : RadixTree} (h₁ : t₁.Inv) (h₂ : t₂.Inv)
    {key : List TokenId} (hkey : key ≠ [])
    (hfree₁ : t₁.routes key = none) (hfree₂ : t₂.routes key = none)
    {ops₁ ops₂ : List (ℕ × TreeOp)} (honly₁ : t₁.onlyConverges key ops₁ = true)
    (honly₂ : t₂.onlyConverges key ops₂ = true)
    (hsame : (insertedFor t₁.blockAlignment key ops₁).Perm
      (insertedFor t₂.blockAlignment key ops₂))
    (hsome : insertedFor t₁.blockAlignment key ops₁ ≠ [])
    (hmax₁ : t₁.runWithinMax ops₁ = true) (hmax₂ : t₂.runWithinMax ops₂ = true) (now : ℕ) :
    ∃ smallest, smallest ∈ insertedFor t₁.blockAlignment key ops₁ ∧
      (∀ b, b ∈ insertedFor t₁.blockAlignment key ops₁ → smallest ≤ b) ∧
      ((t₁.run ops₁).lookup now key).1 = some smallest ∧
      ((t₂.run ops₂).lookup now key).1 = some smallest := by
  have hstart : ∀ {t : RadixTree}, t.routes key = none → HoldsSmallest [] (t.routes key) := by
    intro t hfree
    rw [hfree]
    rfl
  have hend₁ := RadixTree.run_holdsSmallest h₁ hkey hmax₁ honly₁ (hstart hfree₁)
  have hend₂ := RadixTree.run_holdsSmallest h₂ hkey hmax₂ honly₂ (hstart hfree₂)
  rw [List.nil_append] at hend₁ hend₂
  rcases hr₁ : (t₁.run ops₁).routes key with _ | ⟨b₁, o₁⟩
  · rw [hr₁] at hend₁
    exact absurd hend₁ hsome
  rcases hr₂ : (t₂.run ops₂).routes key with _ | ⟨b₂, o₂⟩
  · rw [hr₂] at hend₂
    rw [show insertedFor t₂.blockAlignment key ops₂ = [] from hend₂] at hsame
    exact absurd hsame.eq_nil hsome
  rw [hr₁] at hend₁
  rw [hr₂] at hend₂
  obtain ⟨-, hmem₁, hle₁⟩ := hend₁
  obtain ⟨-, hmem₂, hle₂⟩ := hend₂
  -- each is the smallest of the same backends
  have heq : b₁ = b₂ :=
    le_antisymm (hle₁ b₂ (hsame.mem_iff.mpr hmem₂)) (hle₂ b₁ (hsame.mem_iff.mp hmem₁))
  subst heq
  refine ⟨b₁, hmem₁, hle₁, ?_, ?_⟩
  · exact RadixTree.lookup_of_routes (RadixTree.run_spec h₁ ops₁ hmax₁).1 hr₁ now
  · exact RadixTree.lookup_of_routes (RadixTree.run_spec h₂ ops₂ hmax₂).1 hr₂ now

/-- Three conflicting routes of one key, around an insertion of another. -/
def threeRoutes : List (ℕ × TreeOp) :=
  [(1, .insertIfTrusted [7] 5 .LOCAL true), (2, .insert [8] 1 .LOCAL),
    (3, .insertIfTrusted [7] 3 .REMOTE true), (4, .insertIfTrusted [7] 4 .LOCAL true)]

/-- The same routes in another order, as another node might see them. -/
def threeRoutesElsewhere : List (ℕ × TreeOp) :=
  [(1, .insertIfTrusted [7] 3 .LOCAL true), (2, .lookup [7, 7]),
    (3, .insertIfTrusted [7] 4 .REMOTE true), (4, .insertIfTrusted [7] 5 .REMOTE true)]

theorem run_converges_threeRoutes :
    ∃ smallest, smallest ∈ insertedFor 1 [7] threeRoutes ∧
      (∀ b, b ∈ insertedFor 1 [7] threeRoutes → smallest ≤ b) ∧
      (((RadixTree.create 1 0).run threeRoutes).lookup 9 [7]).1 = some smallest ∧
      (((RadixTree.create 1 0).run threeRoutesElsewhere).lookup 9 [7]).1 = some smallest := by
  have hfree : (RadixTree.create 1 0).routes [7] = none := by rw [RadixTree.create_routes]
  have hinv := RadixTree.create_inv 1 0
  exact run_converges hinv hinv (by decide) hfree hfree (by decide +kernel) (by decide +kernel)
    (by decide) (by decide) (by decide +kernel) (by decide +kernel) 9

/-- The tree after `longKey` was inserted. -/
def longKeyTree : RadixTree :=
  (RadixTree.create ⟨1, Nat.one_pos⟩ 0).run [(0, .insert longKey 1 .LOCAL)]

/-- **The slip again.** `forkedKey` is free in the tree and a single convergent
insertion names backend 2 for it; afterwards the key is not found, because the
insertion split a path past `MAX_PREFIX_LENGTH`. -/
theorem run_splits_key :
    longKeyTree.Inv ∧ forkedKey ≠ [] ∧ longKeyTree.routes forkedKey = none ∧
      longKeyTree.onlyConverges forkedKey [(1, .insertIfTrusted forkedKey 2 .LOCAL true)] = true ∧
      insertedFor longKeyTree.blockAlignment forkedKey
        [(1, .insertIfTrusted forkedKey 2 .LOCAL true)] = [2] ∧
      ((longKeyTree.run [(1, .insertIfTrusted forkedKey 2 .LOCAL true)]).lookup 2 forkedKey).1 ≠
        some 2 := by
  refine ⟨(RadixTree.run_spec (RadixTree.create_inv 1 0) _ (by decide +kernel)).1, ?_⟩
  decide +kernel

end Ranvier
