import Ranvier.ReverseIndex
import Ranvier.Run
import Ranvier.Types

/-!
# The cluster cache topology

`CacheTopologyIndex` keeps, for every node, the hot prefixes of its last digest, and
in reverse, for every prefix, the nodes that hold it and those that hold it verified.
A new digest is applied by its difference to the last one; a prefix that is new to
the index is refused when the index is at its cap.

* `Mirrored` — the two reverse indexes are exactly the nodes' entries read backwards;
* `topology_contract` — over every run, an entry is what the node's last digest
  contributed and was accepted, until the node is evicted.
-/

namespace Ranvier

/-- `CacheTopologyIndex::NodeEntry`. -/
structure NodeEntry : Type where
  hashes : List UInt64 := []
  verified : List UInt64 := []
  lastSeen : ℕ := 0
  deriving DecidableEq, Repr

/-- `MAX_HOT_PREFIXES`. -/
def maxHotPrefixes : ℕ := 16384

/-- `MAX_NODES`. -/
def maxNodes : ℕ := 1024

/-- `CacheTopologyIndex`. -/
structure CacheTopologyIndex : Type where
  holders : ReverseIndex UInt64 BackendId := {}
  verifiedHolders : ReverseIndex UInt64 BackendId := {}
  byNode : KeyedMap BackendId NodeEntry := {}
  prefixOverflow : ℕ := 0
  nodeOverflow : ℕ := 0

namespace CacheTopologyIndex

variable (t : CacheTopologyIndex) (node : BackendId)

/-- `add_holder`: false when a new prefix is refused at the cap. -/
def addHolder (hash : UInt64) : Bool × CacheTopologyIndex :=
  match t.holders.find hash with
  | none =>
    if maxHotPrefixes ≤ t.holders.size then
      (false, { t with prefixOverflow := t.prefixOverflow + 1 })
    else (true, { t with holders := t.holders.add hash node })
  | some _ => (true, { t with holders := t.holders.add hash node })

/-- The loop over the new digest: the index and the refused hashes. -/
def addHolders (held : List UInt64) (next : List UInt64) : CacheTopologyIndex × List UInt64 :=
  next.foldl (fun r h =>
    if h ∈ held then r
    else
      let a := r.1.addHolder node h
      if a.1 then (a.2, r.2) else (a.2, r.2 ++ [h])) (t, [])

/-- The loop over the last digest. -/
def removeHolders (held : List UInt64) (next : List UInt64) : CacheTopologyIndex :=
  { t with
    holders := held.foldl (fun m h => if h ∈ next then m else m.drop h node) t.holders }

/-- The verified tier, by its difference to the last digest's. -/
def applyVerified (held next : List UInt64) : CacheTopologyIndex :=
  let m := held.foldl (fun m h => if h ∈ next then m else m.drop h node) t.verifiedHolders
  { t with
    verifiedHolders := next.foldl (fun m h => if h ∈ held then m else m.add h node) m }

/-- `apply_digest` for a node that has an entry. `next` lists the set made of the
digest's hashes, in the order of its iteration. -/
def replaceEntry (entry : NodeEntry) (next verified : List UInt64) (now : ℕ) :
    CacheTopologyIndex :=
  let r := (t.removeHolders node entry.hashes next).addHolders node entry.hashes next
  let next := next.filter fun h => h ∉ r.2
  let nextVerified := (verified.filter fun h => h ∈ next).dedup
  let t := r.1.applyVerified node entry.verified nextVerified
  { t with byNode := t.byNode.set node ⟨next, nextVerified, now⟩ }

/-- `apply_digest`. -/
def applyDigest (next verified : List UInt64) (now : ℕ) : CacheTopologyIndex :=
  match t.byNode.find node with
  | none =>
    if maxNodes ≤ t.byNode.size then { t with nodeOverflow := t.nodeOverflow + 1 }
    else { t with byNode := t.byNode.set node {} }.replaceEntry node {} next verified now
  | some entry => t.replaceEntry node entry next verified now

/-- `evict_node`. -/
def evictNode : CacheTopologyIndex :=
  match t.byNode.find node with
  | none => t
  | some entry =>
    { t with
      holders := entry.hashes.foldl (fun m h => m.drop h node) t.holders
      verifiedHolders := entry.verified.foldl (fun m h => m.drop h node) t.verifiedHolders
      byNode := t.byNode.erase node }

/-- The nodes `age_out` finds not refreshed since `cutoff`. -/
def deadNodes (cutoff : ℕ) : List BackendId :=
  (t.byNode.entries.filter fun e => e.2.lastSeen < cutoff).map Prod.fst

/-- `age_out`. -/
def ageOut (cutoff : ℕ) : CacheTopologyIndex :=
  (t.deadNodes cutoff).foldl evictNode t

/-! ## The reverse indexes -/

variable {t} {node}

/-- The reverse indexes are the nodes' entries read backwards, within the caps. -/
structure Mirrored (t : CacheTopologyIndex) : Prop where
  holders : ∀ h n, t.holders.HasMember h n ↔ ∃ e, t.byNode.find n = some e ∧ h ∈ e.hashes
  verified : ∀ h n,
    t.verifiedHolders.HasMember h n ↔ ∃ e, t.byNode.find n = some e ∧ h ∈ e.verified
  clean : t.holders.Clean
  verifiedClean : t.verifiedHolders.Clean
  subset : ∀ n e, t.byNode.find n = some e → ∀ h ∈ e.verified, h ∈ e.hashes
  prefixes : t.holders.size ≤ maxHotPrefixes
  nodes : t.byNode.size ≤ maxNodes

/-- A hash is refused at the cap, and only if no node holds it. -/
theorem addHolder_cases (t : CacheTopologyIndex) (node : BackendId) (hash : UInt64) :
    (t.addHolder node hash = (false, { t with prefixOverflow := t.prefixOverflow + 1 }) ∧
        maxHotPrefixes ≤ t.holders.size ∧ t.holders.find hash = none) ∨
      t.addHolder node hash = (true, { t with holders := t.holders.add hash node }) ∧
        (t.holders.size < maxHotPrefixes ∨ hash ∈ KeyedMap.keys t.holders) := by
  unfold addHolder
  split
  · next hfind =>
    split
    · next hcap => exact Or.inl ⟨rfl, hcap, hfind⟩
    · next hcap => exact Or.inr ⟨rfl, Or.inl (Nat.lt_of_not_le hcap)⟩
  · next hfind => exact Or.inr ⟨rfl, Or.inr (KeyedMap.mem_keys_of_find hfind)⟩

theorem addHolders_snoc (t : CacheTopologyIndex) (node : BackendId) (held next : List UInt64)
    (hash : UInt64) : t.addHolders node held (next ++ [hash]) =
      let r := t.addHolders node held next
      if hash ∈ held then r
      else
        let a := r.1.addHolder node hash
        if a.1 then (a.2, r.2) else (a.2, r.2 ++ [hash]) := by
  rw [addHolders, List.foldl_append]
  rfl

/-- What the loop over the new digest does: it touches the holders only, and adds the
node to what it did not hold and was not refused. -/
structure Added (t : CacheTopologyIndex) (node : BackendId) (held next : List UInt64)
    (r : CacheTopologyIndex × List UInt64) : Prop where
  verifiedHolders : r.1.verifiedHolders = t.verifiedHolders
  byNode : r.1.byNode = t.byNode
  refused : ∀ h ∈ r.2, h ∈ next ∧ h ∉ held
  holders : ∀ h n, r.1.holders.HasMember h n ↔
    t.holders.HasMember h n ∨ (h ∈ next ∧ h ∉ held ∧ h ∉ r.2) ∧ n = node
  clean : r.1.holders.Clean
  prefixes : r.1.holders.size ≤ maxHotPrefixes

theorem addHolders_spec (hclean : t.holders.Clean) (hsize : t.holders.size ≤ maxHotPrefixes)
    (held : List UInt64) {next : List UInt64} (hnodup : next.Nodup) :
    Added t node held next (t.addHolders node held next) := by
  induction next using List.reverseRecOn with
  | nil => exact ⟨rfl, rfl, by simp [addHolders], by simp [addHolders], hclean, hsize⟩
  | append_singleton next hash ih =>
    have hnew : hash ∉ next := by
      have := (List.nodup_append.mp hnodup).2.2
      exact fun hmem => this hash hmem hash (List.mem_singleton_self hash) rfl
    have hr := ih (List.nodup_append.mp hnodup).1
    rw [addHolders_snoc]
    generalize t.addHolders node held next = r at hr
    dsimp only
    by_cases hheld : hash ∈ held
    · -- held before: nothing to do
      rw [if_pos hheld]
      refine ⟨hr.verifiedHolders, hr.byNode, fun h hh => ?_, fun h n => ?_, hr.clean, hr.prefixes⟩
      · exact ⟨List.mem_append_left _ (hr.refused h hh).1, (hr.refused h hh).2⟩
      · rw [hr.holders, List.mem_append, List.mem_singleton]
        constructor
        · rintro (hm | ⟨⟨hmem, hrest⟩, hn⟩)
          · exact Or.inl hm
          · exact Or.inr ⟨⟨Or.inl hmem, hrest⟩, hn⟩
        · rintro (hm | ⟨⟨hmem | rfl, hrest⟩, hn⟩)
          · exact Or.inl hm
          · exact Or.inr ⟨⟨hmem, hrest⟩, hn⟩
          · exact absurd hheld hrest.1
    rw [if_neg hheld]
    have hfresh : hash ∉ r.2 := fun hmem => hnew (hr.refused hash hmem).1
    rcases addHolder_cases r.1 node hash with ⟨hadd, -⟩ | ⟨hadd, hroom⟩
    · -- refused: the hash joins the refused ones
      rw [hadd]
      dsimp only
      rw [if_neg (by decide)]
      refine ⟨hr.verifiedHolders, hr.byNode, fun h hh => ?_, fun h n => ?_, hr.clean, hr.prefixes⟩
      · rcases List.mem_append.mp hh with hh | hh
        · exact ⟨List.mem_append_left _ (hr.refused h hh).1, (hr.refused h hh).2⟩
        · rw [List.mem_singleton.mp hh]
          exact ⟨List.mem_append_right _ (List.mem_singleton_self hash), hheld⟩
      · rw [hr.holders, List.mem_append, List.mem_append, List.mem_singleton]
        constructor
        · rintro (hm | ⟨⟨hmem, hnot, href⟩, hn⟩)
          · exact Or.inl hm
          · refine Or.inr ⟨⟨Or.inl hmem, hnot, ?_⟩, hn⟩
            rintro (hh | rfl)
            · exact href hh
            · exact hnew hmem
        · rintro (hm | ⟨⟨hmem, hnot, href⟩, hn⟩)
          · exact Or.inl hm
          · exact Or.inr ⟨⟨hmem.resolve_right fun h => href (Or.inr h), hnot,
              fun hh => href (Or.inl hh)⟩, hn⟩
    · rw [hadd]
      dsimp only
      rw [if_pos rfl]
      refine ⟨hr.verifiedHolders, hr.byNode, fun h hh => ?_, fun h n => ?_,
        hr.clean.add hash node, ?_⟩
      · exact ⟨List.mem_append_left _ (hr.refused h hh).1, (hr.refused h hh).2⟩
      · rw [ReverseIndex.hasMember_add, hr.holders, List.mem_append, List.mem_singleton]
        constructor
        · rintro (⟨rfl, hn⟩ | hm | ⟨⟨hmem, hrest⟩, hn⟩)
          · exact Or.inr ⟨⟨Or.inr rfl, hheld, hfresh⟩, hn⟩
          · exact Or.inl hm
          · exact Or.inr ⟨⟨Or.inl hmem, hrest⟩, hn⟩
        · rintro (hm | ⟨⟨hmem | rfl, hrest⟩, hn⟩)
          · exact Or.inr (Or.inl hm)
          · exact Or.inr (Or.inr ⟨⟨hmem, hrest⟩, hn⟩)
          · exact Or.inl ⟨rfl, hn⟩
      · have hle := hr.prefixes
        have hsize' : KeyedMap.size (r.1.holders.add hash node) ≤ maxHotPrefixes := by
          rw [ReverseIndex.size_add]
          split
          · exact hle
          · next hkey => exact Nat.succ_le_of_lt (hroom.resolve_right hkey)
        exact hsize'

/-- What a digest is refused, for a node with the entry `entry`. -/
def refusedOf (t : CacheTopologyIndex) (node : BackendId) (entry : NodeEntry)
    (next : List UInt64) : List UInt64 :=
  ((t.removeHolders node entry.hashes next).addHolders node entry.hashes next).2

/-- The entry a digest leaves. -/
def nextEntry (t : CacheTopologyIndex) (node : BackendId) (entry : NodeEntry)
    (next verified : List UInt64) (now : ℕ) : NodeEntry :=
  let accepted := next.filter fun h => h ∉ t.refusedOf node entry next
  ⟨accepted, (verified.filter fun h => h ∈ accepted).dedup, now⟩

/-- The loop over the new digest, after the one over the last digest. -/
theorem removeHolders_added (h : t.Mirrored) (entry : NodeEntry) {next : List UInt64}
    (hnodup : next.Nodup) :
    Added (t.removeHolders node entry.hashes next) node entry.hashes next
      ((t.removeHolders node entry.hashes next).addHolders node entry.hashes next) := by
  have hclean : (t.removeHolders node entry.hashes next).holders.Clean :=
    ReverseIndex.foldl_drop_kept (fun m k hm => hm.drop k node) entry.hashes h.clean
  have hsize : (t.removeHolders node entry.hashes next).holders.size ≤ maxHotPrefixes :=
    ReverseIndex.foldl_drop_kept (P := fun m => KeyedMap.size m ≤ maxHotPrefixes)
      (fun m k hm => le_trans (ReverseIndex.size_drop_le m k node) hm) entry.hashes h.prefixes
  exact addHolders_spec hclean hsize entry.hashes hnodup

theorem byNode_replaceEntry (h : t.Mirrored) (entry : NodeEntry) {next : List UInt64}
    (hnodup : next.Nodup) (verified : List UInt64) (now : ℕ) :
    (t.replaceEntry node entry next verified now).byNode =
      t.byNode.set node (t.nextEntry node entry next verified now) := by
  have hby : ((t.removeHolders node entry.hashes next).addHolders node entry.hashes next).1.byNode =
      t.byNode := (removeHolders_added h entry hnodup).byNode
  rw [← hby]
  rfl

theorem mem_nextEntry {entry : NodeEntry} {next verified : List UInt64} {now : ℕ} {hash : UInt64} :
    hash ∈ (t.nextEntry node entry next verified now).hashes ↔
      hash ∈ next ∧ hash ∉ t.refusedOf node entry next := by
  simp [nextEntry]

theorem mem_nextEntry_verified {entry : NodeEntry} {next verified : List UInt64} {now : ℕ}
    {hash : UInt64} : hash ∈ (t.nextEntry node entry next verified now).verified ↔
      hash ∈ verified ∧ hash ∈ (t.nextEntry node entry next verified now).hashes := by
  simp [nextEntry]

/-- The holders after a digest: what the node held and keeps, or newly holds and was
not refused. -/
theorem holders_replaceEntry (h : t.Mirrored) {entry : NodeEntry}
    (hentry : t.byNode.find node = some entry) {next : List UInt64} (hnodup : next.Nodup)
    (verified : List UInt64) (now : ℕ) (hash : UInt64) (n : BackendId) :
    (t.replaceEntry node entry next verified now).holders.HasMember hash n ↔
      if n = node then hash ∈ next ∧ hash ∉ t.refusedOf node entry next
      else t.holders.HasMember hash n := by
  have hadd := @removeHolders_added t node h entry next hnodup
  have hmem : (t.replaceEntry node entry next verified now).holders.HasMember hash n ↔ _ :=
    hadd.holders hash n
  have hremoved : (t.removeHolders node entry.hashes next).holders.HasMember hash n ↔
      t.holders.HasMember hash n ∧ ¬(hash ∈ entry.hashes ∧ hash ∉ next ∧ n = node) :=
    ReverseIndex.hasMember_foldl_drop entry.hashes
  rw [hmem, hremoved]
  split
  · next hn =>
    subst hn
    have hheld : t.holders.HasMember hash n ↔ hash ∈ entry.hashes := by
      rw [h.holders, hentry]
      simp
    rw [hheld]
    constructor
    · rintro (⟨hin, hnot⟩ | ⟨⟨hin, -, hr⟩, -⟩)
      · refine ⟨?_, fun hr => (hadd.refused hash hr).2 hin⟩
        by_contra hout
        exact hnot ⟨hin, hout, rfl⟩
      · exact ⟨hin, hr⟩
    · rintro ⟨hin, hr⟩
      by_cases hold : hash ∈ entry.hashes
      · exact Or.inl ⟨hold, fun hout => hout.2.1 hin⟩
      · exact Or.inr ⟨⟨hin, hold, hr⟩, rfl⟩
  · next hn => simp [hn]

/-- The verified holders after a digest. -/
theorem verifiedHolders_replaceEntry (h : t.Mirrored) {entry : NodeEntry}
    (hentry : t.byNode.find node = some entry) {next : List UInt64} (hnodup : next.Nodup)
    (verified : List UInt64) (now : ℕ) (hash : UInt64) (n : BackendId) :
    (t.replaceEntry node entry next verified now).verifiedHolders.HasMember hash n ↔
      if n = node then hash ∈ (t.nextEntry node entry next verified now).verified
      else t.verifiedHolders.HasMember hash n := by
  have hadd := @removeHolders_added t node h entry next hnodup
  have hmem : (t.replaceEntry node entry next verified now).verifiedHolders.HasMember hash n ↔ _ :=
    ReverseIndex.hasMember_foldl_add (t.nextEntry node entry next verified now).verified
  have hold : (t.removeHolders node entry.hashes next).verifiedHolders.HasMember hash n ↔
      t.verifiedHolders.HasMember hash n := Iff.rfl
  rw [hmem, ReverseIndex.hasMember_foldl_drop, hadd.verifiedHolders, hold]
  change _ ∨ _ ∧ ¬(_ ∧ hash ∉ (t.nextEntry node entry next verified now).verified ∧ _) ↔ _
  split
  · next hn =>
    subst hn
    have hheld : t.verifiedHolders.HasMember hash n ↔ hash ∈ entry.verified := by
      rw [h.verified, hentry]
      simp
    rw [hheld]
    tauto
  · next hn => simp [hn]

theorem replaceEntry_mirrored (h : t.Mirrored) {entry : NodeEntry}
    (hentry : t.byNode.find node = some entry) {next : List UInt64} (hnodup : next.Nodup)
    (verified : List UInt64) (now : ℕ) :
    (t.replaceEntry node entry next verified now).Mirrored := by
  have hadd := @removeHolders_added t node h entry next hnodup
  have hby := @byNode_replaceEntry t node h entry next hnodup verified now
  refine ⟨fun hash n => ?_, fun hash n => ?_, hadd.clean, ?_, fun n e he => ?_, hadd.prefixes, ?_⟩
  · rw [holders_replaceEntry h hentry hnodup, hby, KeyedMap.find_set]
    split
    · simp [mem_nextEntry]
    · exact h.holders hash n
  · rw [verifiedHolders_replaceEntry h hentry hnodup, hby, KeyedMap.find_set]
    split
    · simp
    · exact h.verified hash n
  · have hclean : (t.removeHolders node entry.hashes next).verifiedHolders.Clean := h.verifiedClean
    rw [← hadd.verifiedHolders] at hclean
    exact ReverseIndex.Clean.foldl_add _
      (ReverseIndex.foldl_drop_kept (fun m k hm => hm.drop k node) entry.verified hclean)
  · rw [hby, KeyedMap.find_set] at he
    split at he
    · obtain rfl := Option.some.inj he
      exact fun hash hmem => (mem_nextEntry_verified.mp hmem).2
    · exact h.subset n e he
  · rw [hby, KeyedMap.size_set, if_pos (KeyedMap.mem_keys_of_find hentry)]
    exact h.nodes

/-- A node without an entry gets an empty one. -/
theorem Mirrored.set_empty (h : t.Mirrored) (hnone : t.byNode.find node = none)
    (hroom : t.byNode.size < maxNodes) :
    { t with byNode := t.byNode.set node {} }.Mirrored := by
  have hget : ∀ n e, (t.byNode.set node {}).find n = some e →
      e = {} ∧ n = node ∨ t.byNode.find n = some e := by
    intro n e he
    rw [KeyedMap.find_set] at he
    split at he
    · next hn => exact Or.inl ⟨(Option.some.inj he).symm, hn⟩
    · exact Or.inr he
  have hput : ∀ n e, t.byNode.find n = some e → (t.byNode.set node {}).find n = some e := by
    intro n e he
    rw [KeyedMap.find_set, if_neg ?_]
    · exact he
    · rintro rfl
      rw [hnone] at he
      cases he
  refine ⟨fun hash n => (h.holders hash n).trans ?_, fun hash n => (h.verified hash n).trans ?_,
    h.clean, h.verifiedClean, fun n e he => ?_, h.prefixes, ?_⟩
  · constructor
    · rintro ⟨e, he, hmem⟩
      exact ⟨e, hput n e he, hmem⟩
    · rintro ⟨e, he, hmem⟩
      obtain ⟨rfl, -⟩ | he := hget n e he
      · cases hmem
      · exact ⟨e, he, hmem⟩
  · constructor
    · rintro ⟨e, he, hmem⟩
      exact ⟨e, hput n e he, hmem⟩
    · rintro ⟨e, he, hmem⟩
      obtain ⟨rfl, -⟩ | he := hget n e he
      · cases hmem
      · exact ⟨e, he, hmem⟩
  · obtain ⟨rfl, -⟩ | he := hget n e he
    · exact fun hash hmem => absurd hmem List.not_mem_nil
    · exact h.subset n e he
  · have hsize : KeyedMap.size (t.byNode.set node {}) ≤ maxNodes := by
      rw [KeyedMap.size_set, if_neg (KeyedMap.find_eq_none_iff.mp hnone)]
      exact hroom
    exact hsize

theorem evictNode_mirrored (h : t.Mirrored) (node : BackendId) : (t.evictNode node).Mirrored := by
  unfold evictNode
  split
  · exact h
  next entry hentry =>
  -- dropping everywhere is dropping with nothing held back
  have hdrop : ∀ (keys : List UInt64) (m : ReverseIndex UInt64 BackendId),
      keys.foldl (fun m k => m.drop k node) m =
        keys.foldl (fun m k => if False then m else m.drop k node) m := by
    intro keys m
    simp
  rw [hdrop, hdrop]
  refine ⟨fun hash n => ?_, fun hash n => ?_, ?_, ?_, fun n e he => ?_, ?_, ?_⟩
  · rw [ReverseIndex.hasMember_foldl_drop, h.holders, KeyedMap.find_erase]
    by_cases hn : n = node
    · subst hn
      simp [hentry]
    · simp [hn]
  · rw [ReverseIndex.hasMember_foldl_drop, h.verified, KeyedMap.find_erase]
    by_cases hn : n = node
    · subst hn
      simp [hentry]
    · simp [hn]
  · exact ReverseIndex.foldl_drop_kept (fun m k hm => hm.drop k node) entry.hashes h.clean
  · exact ReverseIndex.foldl_drop_kept (fun m k hm => hm.drop k node) entry.verified
      h.verifiedClean
  · rw [KeyedMap.find_erase] at he
    split at he
    · cases he
    · exact h.subset n e he
  · exact ReverseIndex.foldl_drop_kept (P := fun m => KeyedMap.size m ≤ maxHotPrefixes)
      (fun m k hm => le_trans (ReverseIndex.size_drop_le m k node) hm) entry.hashes h.prefixes
  · exact le_trans (KeyedMap.size_erase_le node) h.nodes

theorem byNode_evictNode (t : CacheTopologyIndex) (node : BackendId) :
    (t.evictNode node).byNode = t.byNode.erase node := by
  unfold evictNode
  split
  · next hnone => rw [KeyedMap.erase_of_new (KeyedMap.find_eq_none_iff.mp hnone)]
  · rfl

end CacheTopologyIndex

/-! ## Runs -/

/-- A digest as a node sent it, with the hashes refused at the cap. -/
structure Digest : Type where
  hashes : List UInt64
  verified : List UInt64
  refused : List UInt64
  deriving DecidableEq, Repr

/-- What happened to a node's contribution. -/
inductive TopologyEvent : Type
  | applied (node : BackendId) (d : Digest)
  | evicted (node : BackendId)
  deriving DecidableEq, Repr

/-- The last digest of a node that was applied, unless the node was evicted since. -/
def lastDigest (log : List TopologyEvent) (n : BackendId) : Option Digest :=
  log.foldl (fun last e =>
    match e with
    | .applied node d => if n = node then some d else last
    | .evicted node => if n = node then none else last) none

/-- The index, and what happened so far. -/
structure TopologyState : Type where
  index : CacheTopologyIndex := {}
  log : List TopologyEvent := []

inductive TopologyAction : Type
  /-- `apply_digest`. The set made of `hashes` is iterated in the order `next`. -/
  | digest (node : BackendId) (hashes verified next : List UInt64) (now : ℕ)
  /-- `evict_node`. -/
  | evict (node : BackendId)
  /-- `age_out`. -/
  | age (cutoff : ℕ)
  deriving DecidableEq, Repr

namespace TopologyState

/-- The event of a digest: none when the node is refused at the cap. -/
def digestEvents (t : CacheTopologyIndex) (node : BackendId)
    (hashes verified next : List UInt64) : List TopologyEvent :=
  match t.byNode.find node with
  | none =>
    if maxNodes ≤ t.byNode.size then []
    else [.applied node ⟨hashes, verified,
      { t with byNode := t.byNode.set node {} }.refusedOf node {} next⟩]
  | some entry => [.applied node ⟨hashes, verified, t.refusedOf node entry next⟩]

/-- One call. -/
def step (s : TopologyState) : TopologyAction → Option TopologyState
  | .digest node hashes verified next now =>
    if next.Nodup ∧ next ⊆ hashes ∧ hashes ⊆ next then
      some ⟨s.index.applyDigest node next verified now,
        s.log ++ digestEvents s.index node hashes verified next⟩
    else none
  | .evict node => some ⟨s.index.evictNode node, s.log ++ [.evicted node]⟩
  | .age cutoff =>
    some ⟨s.index.ageOut cutoff, s.log ++ (s.index.deadNodes cutoff).map .evicted⟩

/-- The entry of a node is its last digest, less what was refused. -/
def Entered (last : Option Digest) (entry : Option NodeEntry) : Prop :=
  match last, entry with
  | none, none => True
  | some d, some e =>
    (∀ h, h ∈ e.hashes ↔ h ∈ d.hashes ∧ h ∉ d.refused) ∧
      ∀ h, h ∈ e.verified ↔ h ∈ d.verified ∧ h ∈ e.hashes
  | _, _ => False

/-- The index mirrors its entries, and these are the last digests. -/
structure Recorded (s : TopologyState) : Prop where
  mirrored : s.index.Mirrored
  entered : ∀ n, Entered (lastDigest s.log n) (s.index.byNode.find n)

end TopologyState

theorem lastDigest_snoc (log : List TopologyEvent) (e : TopologyEvent) (n : BackendId) :
    lastDigest (log ++ [e]) n =
      match e with
      | .applied node d => if n = node then some d else lastDigest log n
      | .evicted node => if n = node then none else lastDigest log n := by
  rw [lastDigest, List.foldl_append]
  rfl

namespace TopologyState

open CacheTopologyIndex

variable {s s' : TopologyState}

theorem recorded_start : Recorded {} := by
  have hnone : ∀ (h : UInt64) (n : BackendId), ¬ReverseIndex.HasMember {} h n := by
    rintro h n ⟨members, hfind, -⟩
    cases hfind
  refine ⟨⟨fun h n => ?_, fun h n => ?_, ?_, ?_, ?_, Nat.zero_le _, Nat.zero_le _⟩, fun n => ?_⟩
  · refine iff_of_false (hnone h n) ?_
    rintro ⟨e, he, -⟩
    cases he
  · refine iff_of_false (hnone h n) ?_
    rintro ⟨e, he, -⟩
    cases he
  · intro k members hfind
    cases hfind
  · intro k members hfind
    cases hfind
  · intro n e he
    cases he
  · exact trivial

/-- A digest of a node that has an entry. -/
theorem Recorded.replaceEntry {t : CacheTopologyIndex} {log : List TopologyEvent}
    {node : BackendId} {entry : NodeEntry} (h : t.Mirrored)
    (hentered : ∀ n, n ≠ node → Entered (lastDigest log n) (t.byNode.find n))
    (hentry : t.byNode.find node = some entry) {hashes next : List UInt64}
    (hnodup : next.Nodup) (hset : ∀ h, h ∈ next ↔ h ∈ hashes) (verified : List UInt64) (now : ℕ) :
    Recorded ⟨t.replaceEntry node entry next verified now,
      log ++ [.applied node ⟨hashes, verified, t.refusedOf node entry next⟩]⟩ := by
  refine ⟨replaceEntry_mirrored h hentry hnodup verified now, fun n => ?_⟩
  rw [lastDigest_snoc, byNode_replaceEntry h entry hnodup, KeyedMap.find_set]
  dsimp only
  split
  · refine ⟨fun hash => ?_, fun hash => mem_nextEntry_verified⟩
    rw [mem_nextEntry, hset]
  · next hn => exact hentered n hn

theorem Recorded.evict (h : Recorded s) (node : BackendId) :
    Recorded ⟨s.index.evictNode node, s.log ++ [.evicted node]⟩ := by
  refine ⟨evictNode_mirrored h.mirrored node, fun n => ?_⟩
  rw [lastDigest_snoc, byNode_evictNode, KeyedMap.find_erase]
  dsimp only
  split
  · exact trivial
  · exact h.entered n

theorem Recorded.evictAll (nodes : List BackendId) (h : Recorded s) :
    Recorded ⟨nodes.foldl evictNode s.index, s.log ++ nodes.map .evicted⟩ := by
  induction nodes generalizing s with
  | nil =>
    rw [List.map_nil, List.append_nil]
    exact h
  | cons node nodes ih =>
    have := ih (h.evict node)
    rw [List.append_assoc] at this
    exact this

theorem Recorded.step {a : TopologyAction} (h : Recorded s) (hstep : s.step a = some s') :
    Recorded s' := by
  cases a with
  | digest node hashes verified next now =>
    simp only [TopologyState.step] at hstep
    split at hstep
    · next hguard =>
      obtain ⟨hnodup, hin, hout⟩ := hguard
      have hset : ∀ h, h ∈ next ↔ h ∈ hashes := fun h => ⟨fun hh => hin hh, fun hh => hout hh⟩
      obtain rfl := Option.some.inj hstep
      cases hfind : s.index.byNode.find node with
      | none =>
        by_cases hcap : maxNodes ≤ s.index.byNode.size
        · -- refused: the index counts it, and nothing else
          have hidx : s.index.applyDigest node next verified now =
              { s.index with nodeOverflow := s.index.nodeOverflow + 1 } := by
            simp only [applyDigest, hfind]
            rw [if_pos hcap]
          have hlog : digestEvents s.index node hashes verified next = [] := by
            simp only [digestEvents, hfind]
            rw [if_pos hcap]
          rw [hidx, hlog, List.append_nil]
          have hm := h.mirrored
          exact ⟨⟨hm.holders, hm.verified, hm.clean, hm.verifiedClean, hm.subset, hm.prefixes,
            hm.nodes⟩, h.entered⟩
        · have hidx : s.index.applyDigest node next verified now =
              { s.index with byNode := s.index.byNode.set node {} }.replaceEntry node {} next
                verified now := by
            simp only [applyDigest, hfind]
            rw [if_neg hcap]
          have hlog : digestEvents s.index node hashes verified next =
              [.applied node ⟨hashes, verified,
                { s.index with byNode := s.index.byNode.set node {} }.refusedOf node {} next⟩] := by
            simp only [digestEvents, hfind]
            rw [if_neg hcap]
          rw [hidx, hlog]
          refine Recorded.replaceEntry
            (h.mirrored.set_empty hfind (Nat.lt_of_not_le hcap)) (fun n hn => ?_) ?_ hnodup hset
              verified now
          · dsimp only
            rw [KeyedMap.find_set, if_neg hn]
            exact h.entered n
          · dsimp only
            rw [KeyedMap.find_set, if_pos rfl]
      | some entry =>
        have hidx : s.index.applyDigest node next verified now =
            s.index.replaceEntry node entry next verified now := by
          simp only [applyDigest, hfind]
        have hlog : digestEvents s.index node hashes verified next =
            [.applied node ⟨hashes, verified, s.index.refusedOf node entry next⟩] := by
          simp only [digestEvents, hfind]
        rw [hidx, hlog]
        exact Recorded.replaceEntry h.mirrored (fun n _ => h.entered n) hfind hnodup hset
          verified now
    · cases hstep
  | evict node =>
    obtain rfl := Option.some.inj hstep
    exact h.evict node
  | age cutoff =>
    obtain rfl := Option.some.inj hstep
    exact h.evictAll (s.index.deadNodes cutoff)

/-- What the entry of a node says of a hash, its last digest says. -/
theorem Recorded.holder_iff (h : Recorded s) (hash : UInt64) (n : BackendId) :
    s.index.holders.HasMember hash n ↔
      ∃ d, lastDigest s.log n = some d ∧ hash ∈ d.hashes ∧ hash ∉ d.refused := by
  rw [h.mirrored.holders]
  have hn := h.entered n
  cases hlast : lastDigest s.log n with
  | none =>
    cases hfind : s.index.byNode.find n with
    | none => simp
    | some e =>
      rw [hlast, hfind] at hn
      exact hn.elim
  | some d =>
    cases hfind : s.index.byNode.find n with
    | none =>
      rw [hlast, hfind] at hn
      exact hn.elim
    | some e =>
      rw [hlast, hfind] at hn
      simp [hn.1]

theorem Recorded.verifiedHolder_iff (h : Recorded s) (hash : UInt64) (n : BackendId) :
    s.index.verifiedHolders.HasMember hash n ↔
      s.index.holders.HasMember hash n ∧
        ∃ d, lastDigest s.log n = some d ∧ hash ∈ d.verified := by
  rw [h.mirrored.holders, h.mirrored.verified]
  have hn := h.entered n
  cases hlast : lastDigest s.log n with
  | none =>
    cases hfind : s.index.byNode.find n with
    | none => simp
    | some e =>
      rw [hlast, hfind] at hn
      exact hn.elim
  | some d =>
    cases hfind : s.index.byNode.find n with
    | none =>
      rw [hlast, hfind] at hn
      exact hn.elim
    | some e =>
      rw [hlast, hfind] at hn
      simp [hn.2, and_comm]

theorem Recorded.verified_size (h : Recorded s) :
    s.index.verifiedHolders.size ≤ s.index.holders.size :=
  ReverseIndex.size_le_of_members h.mirrored.verifiedClean
    fun hash n hv => ((h.verifiedHolder_iff hash n).mp hv).1

theorem recorded_run {as : List TopologyAction} (hrun : exec step {} as = some s) :
    Recorded s := by
  refine exec_induction (I := fun _ s => Recorded s) ?_ (h := []) hrun recorded_start
  intro h s a s' hstep hinv
  exact hinv.step hstep

end TopologyState

/-- After every sequence of digests, evictions and age-outs: a node holds a hash exactly
if its last applied digest has it and it was not refused, holds it verified exactly if
that digest also marks it, and holds nothing once evicted; the counts keep their caps. -/
theorem topology_contract {as : List TopologyAction} {s : TopologyState}
    (hrun : exec TopologyState.step {} as = some s) :
    (∀ hash n, s.index.holders.HasMember hash n ↔
      ∃ d, lastDigest s.log n = some d ∧ hash ∈ d.hashes ∧ hash ∉ d.refused) ∧
    (∀ hash n, s.index.verifiedHolders.HasMember hash n ↔
      s.index.holders.HasMember hash n ∧
        ∃ d, lastDigest s.log n = some d ∧ hash ∈ d.verified) ∧
    (∀ n, lastDigest s.log n = none → ∀ hash, ¬s.index.holders.HasMember hash n) ∧
    s.index.holders.size ≤ maxHotPrefixes ∧ s.index.verifiedHolders.size ≤ maxHotPrefixes ∧
    s.index.byNode.size ≤ maxNodes := by
  have h := TopologyState.recorded_run hrun
  refine ⟨h.holder_iff, h.verifiedHolder_iff, fun n hnone hash hmem => ?_, h.mirrored.prefixes,
    le_trans h.verified_size h.mirrored.prefixes, h.mirrored.nodes⟩
  obtain ⟨d, hd, -⟩ := (h.holder_iff hash n).mp hmem
  rw [hnone] at hd
  cases hd

/-- Three nodes: the first one's digest lists a hash twice and marks one it does not
list; its second digest drops a hash. The second node is evicted, and the third one has
not been refreshed. -/
def topologyRun : List TopologyAction :=
  [.digest 3 [8] [] [8] 4, .digest 1 [7, 8, 7] [8, 9] [8, 7] 10, .digest 2 [7] [7] [7] 11,
    .digest 1 [7] [7] [7] 12, .evict 2, .age 5]

/-- The state after `topologyRun`. -/
def topologyEnd : TopologyState :=
  (exec TopologyState.step {} topologyRun).getD {}

/-- A digest of each of the first `n` nodes, without a hash. -/
def manyNodes (n : ℕ) : List TopologyAction :=
  (List.range n).map fun i : ℕ => .digest i [] [] [] 10

theorem manyNodes_reached {n : ℕ} (h : n ≤ maxNodes) :
    ∃ s, exec TopologyState.step {} (manyNodes n) = some s ∧ s.index.byNode.size = n ∧
      s.index.nodeOverflow = 0 ∧ ∀ i : ℕ, n ≤ i → s.index.byNode.find i = none := by
  induction n with
  | zero => exact ⟨{}, rfl, rfl, rfl, fun _ _ => rfl⟩
  | succ n ih =>
    obtain ⟨s, hrun, hsize, hover, hnew⟩ := ih (by omega)
    have hroom : ¬maxNodes ≤ s.index.byNode.size := by omega
    have happly : s.index.applyDigest n [] [] 10 =
        { s.index with byNode := (s.index.byNode.set n {}).set n ⟨[], [], 10⟩ } := by
      rw [CacheTopologyIndex.applyDigest, hnew n le_rfl]
      exact if_neg hroom
    refine ⟨⟨s.index.applyDigest n [] [] 10,
      s.log ++ TopologyState.digestEvents s.index n [] [] []⟩, ?_, ?_, ?_, fun i hi => ?_⟩
    · rw [manyNodes, List.range_succ, List.map_append, ← manyNodes, exec_append hrun]
      rfl
    · dsimp only
      rw [happly, KeyedMap.size_set, if_pos (KeyedMap.mem_keys_set.mpr (.inl rfl)),
        KeyedMap.size_set, if_neg (KeyedMap.find_eq_none_iff.mp (hnew n le_rfl)), hsize]
    · rw [happly]
      exact hover
    · have hne : (i : BackendId) ≠ n := by
        intro heq
        have := Int.ofNat_inj.mp heq
        omega
      dsimp only
      rw [happly, KeyedMap.find_set, if_neg hne, KeyedMap.find_set, if_neg hne]
      exact hnew i (by omega)

theorem topology_contract_topologyRun :
    (topologyEnd.index.verifiedHolders.HasMember 7 1 ∧
      ¬topologyEnd.index.holders.HasMember 8 1 ∧ ¬topologyEnd.index.holders.HasMember 7 2 ∧
      ¬topologyEnd.index.holders.HasMember 8 3) ∧
    ∃ s, exec TopologyState.step {} (manyNodes maxNodes ++ [.digest maxNodes [7] [] [7] 11]) =
        some s ∧
      s.index.nodeOverflow = 1 ∧ ¬s.index.holders.HasMember 7 maxNodes ∧
      s.index.byNode.size ≤ maxNodes := by
  constructor
  · have hsome : (exec TopologyState.step {} topologyRun).isSome := by decide +kernel
    have hrun := exec_eq_some_getD hsome
    have hfirst : lastDigest topologyEnd.log 1 = some ⟨[7], [7], []⟩ := by decide +kernel
    have hsecond : lastDigest topologyEnd.log 2 = none := by decide +kernel
    have hthird : lastDigest topologyEnd.log 3 = none := by decide +kernel
    obtain ⟨hholders, hverified, hevicted, -⟩ := topology_contract hrun
    refine ⟨(hverified 7 1).mpr ⟨(hholders 7 1).mpr ⟨_, hfirst, ?_, ?_⟩, _, hfirst, ?_⟩,
      fun hmem => ?_, hevicted 2 hsecond 7, hevicted 3 hthird 8⟩
    · exact List.mem_singleton_self 7
    · exact List.not_mem_nil
    · exact List.mem_singleton_self 7
    · obtain ⟨d, hd, hin, -⟩ := (hholders 8 1).mp hmem
      obtain rfl := Option.some.inj (hfirst.symm.trans hd)
      simp at hin
  · -- the index is full, and a node without an entry is refused
    obtain ⟨s, hreached, hsize, hover, hnew⟩ := manyNodes_reached le_rfl
    have happly : s.index.applyDigest maxNodes [7] [] 11 =
        { s.index with nodeOverflow := s.index.nodeOverflow + 1 } := by
      rw [CacheTopologyIndex.applyDigest, hnew maxNodes le_rfl]
      exact if_pos hsize.ge
    have hevents : TopologyState.digestEvents s.index maxNodes [7] [] [7] = [] := by
      rw [TopologyState.digestEvents, hnew maxNodes le_rfl]
      exact if_pos hsize.ge
    have hrun : exec TopologyState.step {}
        (manyNodes maxNodes ++ [.digest maxNodes [7] [] [7] 11]) =
        some ⟨{ s.index with nodeOverflow := s.index.nodeOverflow + 1 }, s.log⟩ := by
      rw [exec_append hreached, exec, TopologyState.step, if_pos (by decide), happly, hevents,
        List.append_nil]
      rfl
    have hnone : lastDigest s.log maxNodes = none := by
      have hentered := (TopologyState.recorded_run hreached).entered maxNodes
      rw [hnew maxNodes le_rfl] at hentered
      cases hlast : lastDigest s.log maxNodes with
      | none => rfl
      | some d =>
        rw [hlast] at hentered
        exact hentered.elim
    obtain ⟨-, -, hevicted, -, -, hnodes⟩ := topology_contract hrun
    exact ⟨_, hrun, by rw [hover], hevicted maxNodes hnone 7, hnodes⟩

end Ranvier
