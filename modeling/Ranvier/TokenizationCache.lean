import Mathlib.Logic.Function.Basic
import Ranvier.Recency
import Ranvier.Run
import Ranvier.Types

/-!
# The tokenization cache

Tokens are cached by text in a list with the most recently used text in front. A hash map leads
from a text to its node in the list, and its keys are views of the texts **in these nodes**: a
view is good only as long as its node is. Nodes are named by their addresses; an allocation may
return any address that is not in use, also one that was just freed.

* `Wired` — list, nodes and map agree: what every operation keeps;
* `evictLoop_spec` — the loop frees exactly what is beyond the limit;
* `cache_contract` — over every history the two structures hold the same texts within the limit,
  a hit returns what was last inserted, and an eviction takes the text whose last use is the
  oldest.
-/

namespace Ranvier

/-- `TokenizationCacheConfig`. -/
structure TokenizationCacheConfig : Type where
  enabled : Bool := true
  maxEntries : ℕ := 1000
  maxTextLength : ℕ := 65536
  deriving DecidableEq, Repr

/-- `CacheEntry`: what a node of the list has. -/
structure CacheEntry : Type where
  text : List UInt8
  tokens : List TokenId
  deriving DecidableEq

/-- `TokenizationCache`: the nodes by address, the list from front to back, and the map as pairs
of the node that the key is a view of and the node that the value points to. -/
structure TokenizationCache : Type where
  nodes : ℕ → Option CacheEntry := fun _ => none
  lruList : List ℕ := []
  cache : List (ℕ × ℕ) := []
  hits : UInt64 := 0
  misses : UInt64 := 0

inductive CacheAction : Type where
  | lookup (text : List UInt8)
  /-- `addr` is what an allocation returns, if there is one -/
  | insert (text : List UInt8) (tokens : List TokenId) (addr : ℕ)
  | clear
  deriving DecidableEq

namespace TokenizationCache

section Operations

variable (t : TokenizationCache)

/-- What a view of the text of a node reads. -/
def textAt (addr : ℕ) : Option (List UInt8) := (t.nodes addr).map CacheEntry.text

/-- `_cache.find`. -/
def find (text : List UInt8) : Option (ℕ × ℕ) := t.cache.find? fun e => t.textAt e.1 = some text

/-- `_lru_list.splice(_lru_list.begin(), _lru_list, it)`. -/
def splice (it : ℕ) : TokenizationCache := { t with lruList := it :: t.lruList.erase it }

/-- `_cache.emplace`: a key that is there stays as it is. -/
def emplace (view it : ℕ) : TokenizationCache :=
  if t.cache.any fun e => t.textAt e.1 = t.textAt view then t
  else { t with cache := (view, it) :: t.cache }

/-- The body of the eviction loop: the key is erased while its view is still good. -/
def popBack (back : ℕ) : TokenizationCache :=
  { t with
    cache := t.cache.filter fun e => t.textAt e.1 ≠ t.textAt back
    lruList := t.lruList.dropLast
    nodes := Function.update t.nodes back none }

/-- `lookup`: the tokens returned, and the cache after it. -/
def lookup (cfg : TokenizationCacheConfig) (text : List UInt8) :
    Option (List TokenId) × TokenizationCache :=
  if cfg.enabled = false then (none, { t with misses := t.misses + 1 })
  else
    match t.find text with
    | none => (none, { t with misses := t.misses + 1 })
    | some e =>
      let t := { t with hits := t.hits + 1 }
      let t := if t.lruList.head? = some e.2 then t else t.splice e.2
      ((t.nodes e.2).map CacheEntry.tokens, t)

/-- `clear`. -/
def clear : TokenizationCache :=
  { t with
    cache := []
    lruList := []
    nodes := fun addr => if addr ∈ t.lruList then none else t.nodes addr }

end Operations

/-- The eviction loop. A turn frees a node, so there are at most as many as nodes. -/
def evictLoop (cfg : TokenizationCacheConfig) : ℕ → TokenizationCache → TokenizationCache
  | 0, t => t
  | turns + 1, t =>
    if cfg.maxEntries ≤ t.cache.length then
      match t.lruList.getLast? with
      | some back => evictLoop cfg turns (t.popBack back)
      | none => t
    else t

/-- `insert`, if the address that it gets for a new node is not in use. -/
def insert (t : TokenizationCache) (cfg : TokenizationCacheConfig) (text : List UInt8)
    (tokens : List TokenId) (addr : ℕ) : Option TokenizationCache :=
  if cfg.enabled = false then some t
  else if cfg.maxEntries = 0 then some t
  else if cfg.maxTextLength < text.length then some t
  else
    match t.find text with
    | some e =>
      some { t.splice e.2 with
        nodes := Function.update t.nodes e.2
          ((t.nodes e.2).map fun entry => { entry with tokens := tokens }) }
    | none =>
      let t := evictLoop cfg t.lruList.length t
      if (t.nodes addr).isSome then none
      else
        some (emplace
          { t with
            nodes := Function.update t.nodes addr (some ⟨text, tokens⟩)
            lruList := addr :: t.lruList } addr addr)

/-- One operation. -/
def step (cfg : TokenizationCacheConfig) (t : TokenizationCache) :
    CacheAction → Option TokenizationCache
  | .lookup text => some (t.lookup cfg text).2
  | .insert text tokens addr => t.insert cfg text tokens addr
  | .clear => some t.clear

/-! ## What is to hold -/

/-- The texts of the list, from front to back. -/
def texts (t : TokenizationCache) : List (List UInt8) := t.lruList.filterMap t.textAt

/-- The texts that the keys of the map read. -/
def mapTexts (t : TokenizationCache) : List (List UInt8) :=
  t.cache.filterMap fun e => t.textAt e.1

end TokenizationCache

/-- The text that an operation looks up or inserts. -/
def CacheAction.Uses : CacheAction → List UInt8 → Prop
  | .lookup text, text' => text' = text
  | .insert text _ _, text' => text' = text
  | .clear, _ => False

/-- The tokens that an operation inserts for a text. -/
def CacheAction.inserts : CacheAction → List UInt8 → Option (List TokenId)
  | .insert text tokens _, text' => if text' = text then some tokens else none
  | _, _ => none

namespace TokenizationCache

/-! ## List, nodes and map -/

/-- The nodes are those of the list and have different texts, and the map leads from a view of
each node to this node. -/
structure Wired (t : TokenizationCache) : Prop where
  nodup : t.lruList.Nodup
  live : ∀ a, a ∈ t.lruList ↔ (t.nodes a).isSome
  distinct : ∀ a b text, t.textAt a = some text → t.textAt b = some text → a = b
  mapped : t.cache.Perm (t.lruList.map fun a => (a, a))

section Wired

variable {t : TokenizationCache} {text : List UInt8} {tokens : List TokenId} {a addr : ℕ}

theorem Wired.mem_of_textAt (h : Wired t) (ha : t.textAt a = some text) : a ∈ t.lruList := by
  obtain ⟨e, he, -⟩ := Option.map_eq_some_iff.mp ha
  rw [h.live, he]
  rfl

theorem Wired.textAt_inj (h : Wired t) {b : ℕ} (ha : a ∈ t.lruList)
    (heq : t.textAt b = t.textAt a) : b = a := by
  obtain ⟨e, he⟩ := Option.isSome_iff_exists.mp ((h.live a).mp ha)
  have htext : t.textAt a = some e.text := by
    rw [textAt, he]
    rfl
  exact h.distinct b a e.text (heq.trans htext) htext

theorem mem_texts_iff : text ∈ t.texts ↔ ∃ a ∈ t.lruList, t.textAt a = some text :=
  List.mem_filterMap

/-- A key that is found is a view of the node that its value points to. -/
theorem Wired.find_eq_some (h : Wired t) {e : ℕ × ℕ} (hfind : t.find text = some e) :
    e.1 = e.2 ∧ e.2 ∈ t.lruList ∧ t.textAt e.2 = some text := by
  have hmem := h.mapped.mem_iff.mp (List.mem_of_find?_eq_some hfind)
  have htext := List.find?_some hfind
  obtain ⟨a, ha, rfl⟩ := List.mem_map.mp hmem
  exact ⟨rfl, ha, of_decide_eq_true htext⟩

theorem Wired.find_eq_none (h : Wired t) (hfind : t.find text = none) : text ∉ t.texts := by
  intro hmem
  obtain ⟨a, ha, htext⟩ := mem_texts_iff.mp hmem
  have hmapped := h.mapped.mem_iff.mpr (List.mem_map_of_mem ha)
  exact List.find?_eq_none.mp hfind (a, a) hmapped (decide_eq_true htext)

theorem Wired.nodup_texts (h : Wired t) : t.texts.Nodup :=
  h.nodup.filterMap h.distinct

theorem Wired.mapTexts_perm (h : Wired t) : t.mapTexts.Perm t.texts := by
  have hperm := h.mapped.filterMap fun e => t.textAt e.1
  rwa [List.filterMap_map] at hperm

theorem wired_empty : Wired {} where
  nodup := List.nodup_nil
  live a := by simp
  distinct a b text ha := by cases ha
  mapped := List.Perm.refl _

/-- A node goes to the front. -/
theorem Wired.splice (h : Wired t) (ha : a ∈ t.lruList) : Wired (t.splice a) where
  nodup := List.nodup_cons.mpr ⟨h.nodup.not_mem_erase, h.nodup.erase a⟩
  live b := ((List.perm_cons_erase ha).mem_iff.symm).trans (h.live b)
  distinct := h.distinct
  mapped := h.mapped.trans ((List.perm_cons_erase ha).map fun a => (a, a))

/-- The node at the back goes, and its key with it. -/
theorem Wired.popBack (h : Wired t) (hback : t.lruList.getLast? = some a) :
    Wired (t.popBack a) := by
  have hl : t.lruList.dropLast ++ [a] = t.lruList := List.dropLast_append_getLast? a hback
  have ha : a ∈ t.lruList := List.mem_of_getLast? hback
  have hnotMem : a ∉ t.lruList.dropLast := by
    have hnodup := h.nodup
    rw [← hl] at hnodup
    intro hmem
    exact (List.nodup_append.mp hnodup).2.2 a hmem a (List.mem_singleton_self a) rfl
  have hnodes : (t.popBack a).nodes = Function.update t.nodes a none := rfl
  have htextAt : ∀ b text, (t.popBack a).textAt b = some text → t.textAt b = some text := by
    intro b text hb
    rw [textAt, hnodes, Function.update_apply] at hb
    split at hb
    · cases hb
    · exact hb
  refine ⟨h.nodup.sublist (List.dropLast_sublist _), fun b => ?_, fun b c text hb hc => ?_, ?_⟩
  · change b ∈ t.lruList.dropLast ↔ _
    rw [hnodes, Function.update_apply]
    split
    · next hba => simpa [hba] using hnotMem
    · next hba =>
      rw [← h.live b, ← hl, List.mem_append, List.mem_singleton]
      simp [hba]
  · exact h.distinct b c text (htextAt b text hb) (htextAt c text hc)
  · have hkeep : ∀ e ∈ t.lruList.dropLast.map fun a => (a, a),
        decide (t.textAt e.1 ≠ t.textAt a) = true := by
      intro e he
      obtain ⟨b, hb, rfl⟩ := List.mem_map.mp he
      refine decide_eq_true fun heq => hnotMem ?_
      exact h.textAt_inj ha heq ▸ hb
    have hperm := h.mapped.filter fun e => decide (t.textAt e.1 ≠ t.textAt a)
    rw [← hl, List.map_append, List.filter_append, List.filter_eq_self.mpr hkeep] at hperm
    rw [List.map_singleton, List.filter_cons_of_neg (by simp), List.filter_nil,
      List.append_nil] at hperm
    exact hperm

/-- A node comes to the front, and its key with it. -/
theorem Wired.pushFront (h : Wired t) (haddr : t.nodes addr = none) (htext : text ∉ t.texts)
    {t' : TokenizationCache} (hnodes : t'.nodes = Function.update t.nodes addr (some ⟨text, tokens⟩))
    (hlist : t'.lruList = addr :: t.lruList) (hcache : t'.cache = t.cache) :
    t'.emplace addr addr = { t' with cache := (addr, addr) :: t.cache } ∧
      Wired (t'.emplace addr addr) := by
  have hfresh : addr ∉ t.lruList := by
    rw [h.live, haddr]
    simp
  have hself : t'.textAt addr = some text := by
    rw [textAt, hnodes, Function.update_self]
    rfl
  have hother : ∀ b, b ≠ addr → t'.textAt b = t.textAt b := by
    intro b hb
    rw [textAt, hnodes, Function.update_of_ne hb, textAt]
  have hunused : ∀ b, t.textAt b ≠ some text := by
    intro b hb
    exact htext (mem_texts_iff.mpr ⟨b, h.mem_of_textAt hb, hb⟩)
  have hnone : (t'.cache.any fun e => t'.textAt e.1 = t'.textAt addr) = false := by
    rw [List.any_eq_false]
    intro e he
    rw [hcache] at he
    obtain ⟨b, hb, rfl⟩ := List.mem_map.mp (h.mapped.mem_iff.mp he)
    rw [hself, hother b fun heq => hfresh (heq ▸ hb)]
    simpa using hunused b
  have hemplace : t'.emplace addr addr = { t' with cache := (addr, addr) :: t.cache } := by
    rw [emplace, hnone, ← hcache]
    rfl
  refine ⟨hemplace, ?_⟩
  rw [hemplace]
  refine ⟨?_, fun b => ?_, fun b c x hb hc => ?_, ?_⟩
  · dsimp only
    rw [hlist]
    exact List.nodup_cons.mpr ⟨hfresh, h.nodup⟩
  · dsimp only
    rw [hlist, List.mem_cons, h.live, hnodes, Function.update_apply]
    split
    · next heq => simp [heq]
    · next hne => simp [hne]
  · change t'.textAt b = some x at hb
    change t'.textAt c = some x at hc
    by_cases hb' : b = addr <;> by_cases hc' : c = addr
    · rw [hb', hc']
    · rw [hb', hself] at hb
      rw [hother c hc', ← hb] at hc
      exact absurd hc (hunused c)
    · rw [hc', hself] at hc
      rw [hother b hb', ← hc] at hb
      exact absurd hb (hunused b)
    · rw [hother b hb'] at hb
      rw [hother c hc'] at hc
      exact h.distinct b c x hb hc
  · dsimp only
    rw [hlist]
    exact h.mapped.cons (addr, addr)

/-- The tokens of a node change. -/
theorem Wired.setTokens (h : Wired t) {t' : TokenizationCache}
    (hnodes : t'.nodes = Function.update t.nodes a
      ((t.nodes a).map fun entry => { entry with tokens := tokens }))
    (hlist : t'.lruList = t.lruList) (hcache : t'.cache = t.cache) :
    t'.textAt = t.textAt ∧ Wired t' := by
  have htextAt : t'.textAt = t.textAt := by
    funext b
    rw [textAt, hnodes, Function.update_apply]
    split
    · next heq =>
      rw [heq, textAt]
      cases t.nodes a <;> rfl
    · rfl
  have hsome : ∀ b, (t'.nodes b).isSome = (t.nodes b).isSome := by
    intro b
    have hb := congrArg Option.isSome (congrFun htextAt b)
    rwa [textAt, textAt, Option.isSome_map, Option.isSome_map] at hb
  refine ⟨htextAt, hlist ▸ h.nodup, fun b => ?_, htextAt ▸ h.distinct, ?_⟩
  · rw [hlist, h.live, hsome]
  · rw [hlist, hcache]
    exact h.mapped

end Wired

/-- The loop frees what is beyond the limit, with one place left for a new node. -/
theorem evictLoop_spec {cfg : TokenizationCacheConfig} (hmax : 1 ≤ cfg.maxEntries) {turns : ℕ}
    {t : TokenizationCache} (h : Wired t) (hturns : t.lruList.length ≤ turns) :
    Wired (evictLoop cfg turns t) ∧
      (evictLoop cfg turns t).lruList = t.lruList.take (cfg.maxEntries - 1) ∧
        ∀ a ∈ t.lruList.take (cfg.maxEntries - 1), (evictLoop cfg turns t).nodes a = t.nodes a := by
  induction turns generalizing t with
  | zero =>
    have hnil : t.lruList = [] := List.length_eq_zero_iff.mp (Nat.le_zero.mp hturns)
    exact ⟨h, by rw [evictLoop, hnil, List.take_nil], fun _ _ => rfl⟩
  | succ turns ih =>
    have hlength : t.cache.length = t.lruList.length := by
      rw [h.mapped.length_eq, List.length_map]
    rw [evictLoop]
    split
    · next hfull =>
      rw [hlength] at hfull
      split
      · next back hback =>
        obtain ⟨hwired, hlist, hnodes⟩ := ih (h.popBack hback) (by
          change t.lruList.dropLast.length ≤ turns
          rw [List.length_dropLast]
          omega)
        have htake : t.lruList.dropLast.take (cfg.maxEntries - 1) =
            t.lruList.take (cfg.maxEntries - 1) := by
          rw [List.dropLast_eq_take, List.take_take, Nat.min_eq_left (by omega)]
        refine ⟨hwired, hlist.trans htake, fun a ha => ?_⟩
        rw [← htake] at ha
        rw [hnodes a ha]
        -- what is kept is not the node at the back
        refine Function.update_of_ne ?_ _ _
        rintro rfl
        have hnodup := h.nodup
        rw [← List.dropLast_append_getLast? a hback] at hnodup
        exact (List.nodup_append.mp hnodup).2.2 a (List.mem_of_mem_take ha) a
          (List.mem_singleton_self a) rfl
      · next hempty =>
        have hnil : t.lruList = [] := List.getLast?_eq_none_iff.mp hempty
        exact ⟨h, by rw [hnil, List.take_nil], fun _ _ => rfl⟩
    · next hroom =>
      rw [hlength] at hroom
      exact ⟨h, (List.take_of_length_le (by omega)).symm, fun _ _ => rfl⟩

/-! ## Histories -/

/-- What holds after a history. -/
structure Kept (cfg : TokenizationCacheConfig) (run : List CacheAction) (t : TokenizationCache) :
    Prop where
  wired : Wired t
  bounded : t.lruList.length ≤ cfg.maxEntries
  recent : ByRecency CacheAction.Uses run t.texts
  inserted : ∀ a e, t.nodes a = some e →
    lastWritten CacheAction.inserts run e.text = some e.tokens ∧ e.text.length ≤ cfg.maxTextLength

section Histories

variable {cfg : TokenizationCacheConfig} {run : List CacheAction} {t t' : TokenizationCache}
  {text : List UInt8} {tokens : List TokenId} {a addr : ℕ}

theorem kept_empty : Kept cfg [] {} where
  wired := wired_empty
  bounded := Nat.zero_le _
  recent := List.Pairwise.nil
  inserted a e he := by cases he

theorem mem_texts_of_nodes (h : Wired t) {e : CacheEntry} (he : t.nodes a = some e) :
    e.text ∈ t.texts := by
  have htext : t.textAt a = some e.text := by
    rw [textAt, he]
    rfl
  exact mem_texts_iff.mpr ⟨a, h.mem_of_textAt htext, htext⟩

/-- An operation on a text that is not cached, and that changes nothing. -/
theorem Kept.unused (h : Kept cfg run t) {action : CacheAction}
    (hunused : ∀ text ∈ t.texts, ¬action.Uses text)
    (hinserts : ∀ text, ¬action.Uses text → action.inserts text = none) :
    Kept cfg (run ++ [action]) t where
  wired := h.wired
  bounded := h.bounded
  recent := h.recent.concat hunused
  inserted a e he := by
    rw [lastWritten_concat, hinserts e.text (hunused e.text (mem_texts_of_nodes h.wired he))]
    exact h.inserted a e he

/-- What an operation that finds or adds a node does: the node is in front, and `rest` are nodes
from before, as they were. -/
structure Fronted (t t' : TokenizationCache) (text : List UInt8) (tokens : List TokenId)
    (rest : List ℕ) : Prop where
  wired : Wired t'
  front : ∃ a, t'.lruList = a :: rest ∧ t'.nodes a = some ⟨text, tokens⟩
  rest_sublist : rest.Sublist t.lruList
  same : ∀ b ∈ rest, t'.nodes b = t.nodes b

section Fronted

variable {rest : List ℕ}

theorem Fronted.textAt_eq (h : Fronted t t' text tokens rest) {b : ℕ} (hb : b ∈ rest) :
    t'.textAt b = t.textAt b := by
  rw [textAt, h.same b hb, textAt]

theorem Fronted.texts_eq (h : Fronted t t' text tokens rest) :
    t'.texts = text :: rest.filterMap t.textAt := by
  obtain ⟨a, hlist, hnode⟩ := h.front
  have htext : t'.textAt a = some text := by
    rw [textAt, hnode]
    rfl
  rw [texts, hlist, List.filterMap_cons_some htext]
  exact congrArg _ (List.filterMap_congr fun b hb => h.textAt_eq hb)

/-- An operation on one text, with its node in front. -/
theorem Fronted.kept (h : Fronted t t' text tokens rest) (hkept : Kept cfg run t)
    {action : CacheAction} (huses : ∀ x, action.Uses x ↔ x = text)
    (hinserts : ∀ x, x ≠ text → action.inserts x = none)
    (htokens : lastWritten CacheAction.inserts (run ++ [action]) text = some tokens)
    (hlength : text.length ≤ cfg.maxTextLength) (hroom : rest.length + 1 ≤ cfg.maxEntries) :
    Kept cfg (run ++ [action]) t' := by
  have htexts := h.texts_eq
  have hnodup := h.wired.nodup_texts
  obtain ⟨a, hlist, hnode⟩ := h.front
  refine ⟨h.wired, ?_, ?_, fun b e he => ?_⟩
  · rw [hlist]
    exact hroom
  · rw [htexts] at hnodup ⊢
    exact hkept.recent.front (h.rest_sublist.filterMap _) (List.nodup_cons.mp hnodup).1 huses
  · have hb : b ∈ a :: rest := by
      rw [← hlist, h.wired.live, he]
      rfl
    rcases List.mem_cons.mp hb with rfl | hb
    · rw [hnode] at he
      obtain rfl := Option.some.inj he
      exact ⟨htokens, hlength⟩
    · have hne : e.text ≠ text := by
        intro heq
        have hmem : e.text ∈ rest.filterMap t.textAt := by
          refine List.mem_filterMap.mpr ⟨b, hb, ?_⟩
          rw [textAt, ← h.same b hb, he]
          rfl
        rw [htexts] at hnodup
        exact (List.nodup_cons.mp hnodup).1 (heq ▸ hmem)
      rw [lastWritten_concat, hinserts e.text hne]
      exact hkept.inserted b e (h.same b hb ▸ he)

end Fronted

theorem splice_of_head (hhead : t.lruList.head? = some a) : t.splice a = t := by
  obtain ⟨rest, hlist⟩ := List.head?_eq_some_iff.mp hhead
  rw [splice, hlist, List.erase_cons_head, ← hlist]

/-- A hit returns the tokens of the node that it moves to the front. -/
theorem lookup_hit (h : Wired t) (henabled : cfg.enabled = true) {e : ℕ × ℕ}
    (hfind : t.find text = some e) :
    ∃ tokens, t.nodes e.2 = some ⟨text, tokens⟩ ∧ (t.lookup cfg text).1 = some tokens ∧
      Fronted t (t.lookup cfg text).2 text tokens (t.lruList.erase e.2) := by
  obtain ⟨-, hmem, htext⟩ := h.find_eq_some hfind
  obtain ⟨⟨text', tokens⟩, hnode, rfl⟩ := Option.map_eq_some_iff.mp htext
  have hlookup : t.lookup cfg text' =
      (some tokens, splice { t with hits := t.hits + 1 } e.2) := by
    rw [lookup, if_neg (by simp [henabled]), hfind]
    dsimp only
    have htokens : (t.nodes e.2).map CacheEntry.tokens = some tokens := by
      rw [hnode]
      rfl
    split
    · next hhead =>
      exact Prod.ext htokens (@splice_of_head { t with hits := t.hits + 1 } e.2 hhead).symm
    · exact Prod.ext htokens rfl
  have hwired : Wired (splice { t with hits := t.hits + 1 } e.2) :=
    Wired.splice ⟨h.nodup, h.live, h.distinct, h.mapped⟩ hmem
  rw [hlookup]
  exact ⟨tokens, hnode, rfl, hwired, ⟨e.2, rfl, hnode⟩, List.erase_sublist, fun _ _ => rfl⟩

theorem lookup_miss (henabled : cfg.enabled = true) (hfind : t.find text = none) :
    t.lookup cfg text = (none, { t with misses := t.misses + 1 }) := by
  rw [lookup, if_neg (by simp [henabled]), hfind]

/-- An insertion that is not refused: the text was cached, or what is beyond the limit goes. -/
theorem insert_fronted (h : Wired t) (henabled : cfg.enabled = true) (hmax : 1 ≤ cfg.maxEntries)
    (hlength : text.length ≤ cfg.maxTextLength)
    (hinsert : t.insert cfg text tokens addr = some t') :
    ∃ rest, Fronted t t' text tokens rest ∧
      (rest = t.lruList.take (cfg.maxEntries - 1) ∨
        ∃ a ∈ t.lruList, t.textAt a = some text ∧ rest = t.lruList.erase a) := by
  rw [insert, if_neg (by simp [henabled]), if_neg (by omega), if_neg (by omega)] at hinsert
  split at hinsert
  · next e hfind =>
    obtain ⟨-, hmem, htext⟩ := h.find_eq_some hfind
    obtain ⟨⟨text', tokens'⟩, hnode, rfl⟩ := Option.map_eq_some_iff.mp htext
    obtain rfl := Option.some.inj hinsert
    refine ⟨t.lruList.erase e.2, ⟨?_, ⟨e.2, rfl, ?_⟩, List.erase_sublist, fun b hb => ?_⟩,
      .inr ⟨e.2, hmem, htext, rfl⟩⟩
    · refine (@Wired.setTokens (t.splice e.2) tokens e.2 (h.splice hmem) _ ?_ ?_ ?_).2
      · rfl
      · rfl
      · rfl
    · dsimp only
      rw [Function.update_self, hnode]
      rfl
    · refine Function.update_of_ne ?_ _ _
      rintro rfl
      exact h.nodup.not_mem_erase hb
  · next hfind =>
    obtain ⟨hwired, hlist, hnodes⟩ := @evictLoop_spec cfg hmax t.lruList.length t h le_rfl
    dsimp only at hinsert
    generalize evictLoop cfg t.lruList.length t = evicted at hinsert hwired hlist hnodes
    split at hinsert
    · cases hinsert
    · next haddr =>
      obtain rfl := Option.some.inj hinsert
      have hfree : evicted.nodes addr = none := by simpa using haddr
      have hnew : text ∉ evicted.texts := by
        intro hmem
        obtain ⟨b, hb, htext⟩ := mem_texts_iff.mp hmem
        rw [hlist] at hb
        rw [textAt, hnodes b hb] at htext
        exact h.find_eq_none hfind (mem_texts_iff.mpr ⟨b, List.mem_of_mem_take hb, htext⟩)
      obtain ⟨hemplace, hpushed⟩ := @Wired.pushFront evicted text tokens addr hwired hfree hnew
        { evicted with
          nodes := Function.update evicted.nodes addr (some ⟨text, tokens⟩)
          lruList := addr :: evicted.lruList } rfl rfl rfl
      refine ⟨_, ⟨hpushed, ?_, List.take_sublist _ _, fun b hb => ?_⟩, .inl rfl⟩
      · rw [hemplace]
        exact ⟨addr, congrArg _ hlist, Function.update_self ..⟩
      · rw [hemplace]
        dsimp only
        rw [Function.update_of_ne, hnodes b hb]
        rintro rfl
        rw [← hlist, hwired.live, hfree] at hb
        cases hb

theorem insert_refused (henabled : cfg.enabled = true) (hmax : 1 ≤ cfg.maxEntries)
    (hlength : ¬text.length ≤ cfg.maxTextLength)
    (hinsert : t.insert cfg text tokens addr = some t') : t = t' := by
  rw [insert, if_neg (by simp [henabled]), if_neg (by omega), if_pos (by omega)] at hinsert
  exact Option.some.inj hinsert

theorem Kept.step {action : CacheAction} (henabled : cfg.enabled = true)
    (hmax : 1 ≤ cfg.maxEntries) (h : Kept cfg run t) (hstep : t.step cfg action = some t') :
    Kept cfg (run ++ [action]) t' := by
  cases action with
  | lookup text =>
    obtain rfl := Option.some.inj hstep
    cases hfind : t.find text with
    | none =>
      rw [lookup_miss henabled hfind]
      have hmiss : Kept cfg run { t with misses := t.misses + 1 } :=
        ⟨⟨h.wired.nodup, h.wired.live, h.wired.distinct, h.wired.mapped⟩, h.bounded, h.recent,
          h.inserted⟩
      refine hmiss.unused ?_ fun _ _ => rfl
      rintro text' hmem rfl
      exact h.wired.find_eq_none hfind hmem
    | some e =>
      obtain ⟨tokens, hnode, -, hfronted⟩ := lookup_hit h.wired henabled hfind
      obtain ⟨hwritten, hlength⟩ := h.inserted e.2 _ hnode
      refine hfronted.kept h (fun _ => Iff.rfl) (fun _ _ => rfl) ?_ hlength ?_
      · rw [lastWritten_concat]
        exact hwritten
      · rw [List.length_erase_add_one (h.wired.find_eq_some hfind).2.1]
        exact h.bounded
  | insert text tokens addr =>
    by_cases hlength : text.length ≤ cfg.maxTextLength
    · obtain ⟨rest, hfronted, hrest⟩ := insert_fronted h.wired henabled hmax hlength hstep
      refine hfronted.kept h (fun _ => Iff.rfl) (fun _ hne => if_neg hne) ?_ hlength ?_
      · rw [lastWritten_concat, CacheAction.inserts, if_pos rfl]
        rfl
      · rcases hrest with rfl | ⟨a, ha, -, rfl⟩
        · rw [List.length_take]
          omega
        · rw [List.length_erase_add_one ha]
          exact h.bounded
    · obtain rfl := insert_refused henabled hmax hlength hstep
      refine h.unused ?_ fun _ hne => if_neg hne
      rintro text' hmem rfl
      obtain ⟨a, -, htext⟩ := mem_texts_iff.mp hmem
      obtain ⟨e, hnode, rfl⟩ := Option.map_eq_some_iff.mp htext
      exact hlength (h.inserted a e hnode).2
  | clear =>
    obtain rfl := Option.some.inj hstep
    have hnodes : ∀ a, t.clear.nodes a = none := by
      intro a
      dsimp only [clear]
      split
      · rfl
      · next ha => simpa [h.wired.live] using ha
    refine ⟨⟨List.nodup_nil, fun a => ?_, fun a b text ha => ?_, List.Perm.refl _⟩,
      Nat.zero_le _, List.Pairwise.nil, fun a e he => ?_⟩
    · rw [hnodes a]
      simp [clear]
    · rw [textAt, hnodes a] at ha
      cases ha
    · rw [hnodes a] at he
      cases he

/-- What an insertion removes was used before everything else that was cached. -/
theorem Kept.evicted (h : Kept cfg run t) (henabled : cfg.enabled = true)
    (hmax : 1 ≤ cfg.maxEntries) (hinsert : t.insert cfg text tokens addr = some t')
    {old other : List UInt8} (hold : old ∈ t.texts) (hgone : old ∉ t'.texts)
    (hother : other ∈ t.texts) (hne : other ≠ old) :
    other ∈ t'.texts ∧ UsedBefore CacheAction.Uses run old other := by
  by_cases hlength : text.length ≤ cfg.maxTextLength
  · obtain ⟨rest, hfronted, hrest⟩ := insert_fronted h.wired henabled hmax hlength hinsert
    rw [hfronted.texts_eq] at hgone ⊢
    rw [List.mem_cons, not_or] at hgone
    obtain ⟨hnew, hgone⟩ := hgone
    rcases hrest with rfl | ⟨a, ha, htext, rfl⟩
    · -- all but the back, which is one node at most
      have hrecent := h.recent
      have hsplit : t.texts = (t.lruList.take (cfg.maxEntries - 1)).filterMap t.textAt ++
          (t.lruList.drop (cfg.maxEntries - 1)).filterMap t.textAt := by
        rw [← List.filterMap_append, List.take_append_drop, texts]
      rw [hsplit] at hold hother hrecent
      have hback := (List.mem_append.mp hold).resolve_left hgone
      have hone : ((t.lruList.drop (cfg.maxEntries - 1)).filterMap t.textAt).length ≤ 1 := by
        refine (List.length_filterMap_le _ _).trans ?_
        have hbounded := h.bounded
        rw [List.length_drop]
        omega
      have hfront : other ∈ (t.lruList.take (cfg.maxEntries - 1)).filterMap t.textAt := by
        refine (List.mem_append.mp hother).resolve_right fun hmem => hne ?_
        obtain ⟨x, hx⟩ := List.length_eq_one_iff.mp
          (le_antisymm hone (List.length_pos_of_mem hback))
        rw [hx, List.mem_singleton] at hmem hback
        rw [hmem, hback]
      exact ⟨List.mem_cons_of_mem _ hfront,
        (List.pairwise_append.mp hrecent).2.2 other hfront old hback⟩
    · -- nothing goes when the text was cached
      exfalso
      obtain ⟨b, hb, hbtext⟩ := mem_texts_iff.mp hold
      by_cases hba : b = a
      · rw [hba, htext] at hbtext
        exact hnew (Option.some.inj hbtext).symm
      · exact hgone (List.mem_filterMap.mpr ⟨b, (List.mem_erase_of_ne hba).mpr hb, hbtext⟩)
  · obtain rfl := insert_refused henabled hmax hlength hinsert
    exact absurd hold hgone

/-- **The cache.** After every history of lookups, insertions and clears, with whatever addresses
the nodes got: map and list hold the same texts, each once and no more than the limit; a lookup
that hits returns the tokens last inserted for its text; and a text that an insertion removes is
the only one, and its last lookup or insertion is before that of every other text cached. -/
theorem cache_contract (henabled : cfg.enabled = true) (hmax : 1 ≤ cfg.maxEntries)
    (hexec : exec (step cfg) {} run = some t) :
    (t.texts.Nodup ∧ t.mapTexts.Perm t.texts ∧ t.texts.length ≤ cfg.maxEntries) ∧
      (∀ text tokens, (t.lookup cfg text).1 = some tokens →
        lastWritten CacheAction.inserts run text = some tokens) ∧
      ∀ text tokens addr t', t.insert cfg text tokens addr = some t' →
        ∀ old ∈ t.texts, old ∉ t'.texts → ∀ other ∈ t.texts, other ≠ old →
          other ∈ t'.texts ∧ UsedBefore CacheAction.Uses run old other := by
  have hkept : Kept cfg run t :=
    exec_induction (I := Kept cfg) (h := []) (fun hstep h => h.step henabled hmax hstep) hexec
      kept_empty
  refine ⟨⟨hkept.wired.nodup_texts, hkept.wired.mapTexts_perm, ?_⟩, ?_, ?_⟩
  · exact (List.length_filterMap_le _ _).trans hkept.bounded
  · intro text tokens hhit
    cases hfind : t.find text with
    | none =>
      rw [lookup_miss henabled hfind] at hhit
      cases hhit
    | some e =>
      obtain ⟨tokens', hnode, hresult, -⟩ := lookup_hit hkept.wired henabled hfind
      obtain rfl := Option.some.inj (hresult.symm.trans hhit)
      exact (hkept.inserted e.2 _ hnode).1
  · intro text tokens addr t' hinsert old hold hgone other hother hne
    exact hkept.evicted henabled hmax hinsert hold hgone hother hne

end Histories

/-- Room for two texts. -/
def roomForTwo : TokenizationCacheConfig := { maxEntries := 2 }

/-- Two texts are inserted, and the older one is looked up. -/
def lookedUpAgain : List CacheAction := [.insert [104] [1] 0, .insert [105] [2] 1, .lookup [104]]

/-- The cache after that. -/
def afterLookup : TokenizationCache := (exec (step roomForTwo) {} lookedUpAgain).getD {}

/-- A third text takes the place of the second, down to the address of its node. -/
theorem cache_contract_lookedUpAgain :
    (afterLookup.insert roomForTwo [106, 107] [3, 4] 1).map texts = some [[106, 107], [104]] ∧
      UsedBefore CacheAction.Uses lookedUpAgain [105] [104] := by
  have hsome : (exec (step roomForTwo) {} lookedUpAgain).isSome := by decide +kernel
  have htexts : (afterLookup.insert roomForTwo [106, 107] [3, 4] 1).map texts =
      some [[106, 107], [104]] := by decide +kernel
  obtain ⟨t', hinsert, ht'⟩ := Option.map_eq_some_iff.mp htexts
  refine ⟨htexts, ?_⟩
  have hcontract := cache_contract rfl (by decide) (exec_eq_some_getD hsome)
  refine (hcontract.2.2 _ _ _ t' hinsert [105] (by decide +kernel) ?_ [104] (by decide +kernel)
    (by decide)).2
  rw [ht']
  decide

end TokenizationCache

end Ranvier
