import Mathlib.Algebra.Order.Field.Rat
import Mathlib.Data.List.Rotate
import Mathlib.Tactic.Linarith
import Ranvier.PeerRefresh

/-!
# Quorum in a split cluster

The members of a cluster fall into two groups, and a node hears only from its own. A node
is `HEALTHY` when it has seen enough of the peers in its table, itself on top.

With static lists of the other members the counts of two groups add up to at most the
number of members, so at most one group has a quorum once what was seen at start is old
enough. With DNS discovery the answer also has the node's own address, which stays in the
table and is counted as one more node that is always seen.

* `mergeAndCapPeers` — the list that discovery puts into the table;
* `Heard` — who is outside the group was seen too long ago;
* `healthy_le_card` — what a `HEALTHY` node says about the size of its group.
-/

namespace Ranvier

/-! ## Static and discovered peers -/

/-- The variables of `merge_and_cap_peers`. -/
structure MergedPeers : Type where
  merged : List SocketAddress := []
  seen : List SocketAddress := []
  dropped : ℕ := 0

namespace MergedPeers

variable (cap : ℕ)

/-- `admit`. -/
def admitAddr (m : MergedPeers) (addr : SocketAddress) : MergedPeers :=
  if addr ∈ m.seen then m
  else if cap ≤ m.merged.length then
    { m with seen := m.seen ++ [addr], dropped := m.dropped + 1 }
  else { m with seen := m.seen ++ [addr], merged := m.merged ++ [addr] }

/-- What holds of the variables. -/
structure Valid (m : MergedPeers) : Prop where
  nodup : m.merged.Nodup
  sub : m.merged ⊆ m.seen
  length_le : m.merged.length ≤ cap
  all : m.merged.length < cap → m.seen ⊆ m.merged

variable {cap} {m : MergedPeers}

theorem Valid.admitAddr (h : m.Valid cap) (addr : SocketAddress) :
    (m.admitAddr cap addr).Valid cap := by
  rw [MergedPeers.admitAddr]
  split
  · exact h
  · next hnew =>
    split
    · next hfull =>
      refine ⟨h.nodup, fun a ha => List.mem_append_left _ (h.sub ha), h.length_le, ?_⟩
      intro hlt
      exact absurd hlt (Nat.not_lt.mpr hfull)
    · next hroom =>
      have hnot : addr ∉ m.merged := fun hmem => hnew (h.sub hmem)
      refine ⟨?_, ?_, ?_, ?_⟩
      · exact h.nodup.append (List.nodup_singleton addr) (by simpa using hnot)
      · exact List.append_subset.mpr ⟨fun a ha => List.mem_append_left _ (h.sub ha),
          List.subset_append_right _ _⟩
      · show (m.merged ++ [addr]).length ≤ cap
        rw [List.length_append, List.length_singleton]
        omega
      · intro _
        exact List.append_subset.mpr
          ⟨fun a ha => List.mem_append_left _ (h.all (Nat.lt_of_not_le hroom) ha),
            List.subset_append_right _ _⟩

theorem mem_seen_admitAddr {addr a : SocketAddress} :
    a ∈ (m.admitAddr cap addr).seen ↔ a ∈ m.seen ∨ a = addr := by
  rw [MergedPeers.admitAddr]
  split
  · next hmem =>
    refine ⟨Or.inl, ?_⟩
    rintro (ha | rfl)
    · exact ha
    · exact hmem
  · split
    · simp
    · simp

theorem Valid.foldl_admitAddr (h : m.Valid cap) (addrs : List SocketAddress) :
    (addrs.foldl (MergedPeers.admitAddr cap) m).Valid cap := by
  induction addrs generalizing m with
  | nil => exact h
  | cons addr addrs ih => exact ih (h.admitAddr addr)

theorem mem_seen_foldl_admitAddr {addrs : List SocketAddress} {a : SocketAddress} :
    a ∈ (addrs.foldl (MergedPeers.admitAddr cap) m).seen ↔ a ∈ m.seen ∨ a ∈ addrs := by
  induction addrs generalizing m with
  | nil => simp
  | cons addr addrs ih => rw [List.foldl_cons, ih, mem_seen_admitAddr, List.mem_cons, or_assoc]

/-- Without duplicates the first addresses are admitted. -/
theorem merged_foldl_admitAddr {addrs : List SocketAddress} (hnodup : (m.seen ++ addrs).Nodup) :
    (addrs.foldl (MergedPeers.admitAddr cap) m).merged =
      m.merged ++ addrs.take (cap - m.merged.length) := by
  induction addrs generalizing m with
  | nil => simp
  | cons addr addrs ih =>
    have hnew : addr ∉ m.seen := fun hmem =>
      (List.nodup_append.mp hnodup).2.2 addr hmem addr List.mem_cons_self rfl
    have hrest : ((m.seen ++ [addr]) ++ addrs).Nodup := by
      rwa [List.append_assoc, List.singleton_append]
    rw [List.foldl_cons, MergedPeers.admitAddr, if_neg hnew]
    split
    · next hfull =>
      rw [ih hrest]
      show m.merged ++ addrs.take (cap - m.merged.length) = _
      rw [Nat.sub_eq_zero_of_le hfull, List.take_zero, List.take_zero]
    · next hroom =>
      rw [ih hrest, List.length_append, List.length_singleton, List.append_assoc,
        show cap - m.merged.length = cap - (m.merged.length + 1) + 1 by omega,
        List.take_succ_cons, List.singleton_append]

end MergedPeers

/-- `ClusterConfig::MAX_PEERS`. -/
def maxClusterPeers : ℕ := 256

/-- `merge_and_cap_peers`. -/
def mergeAndCapPeers (staticPeers discovered : List SocketAddress) (cap : ℕ) : MergedPeers :=
  (staticPeers ++ discovered).foldl (MergedPeers.admitAddr cap) {}

/-- The list that `refresh_peers` passes to `update_peer_list`. -/
def discoveredPeers (staticPeers answer : List SocketAddress) : List SocketAddress :=
  (mergeAndCapPeers staticPeers answer maxClusterPeers).merged

section Discovered

variable {staticPeers answer : List SocketAddress} {members : Finset SocketAddress}

variable (staticPeers answer) in
theorem mergeAndCapPeers_valid (cap : ℕ) : (mergeAndCapPeers staticPeers answer cap).Valid cap :=
  MergedPeers.Valid.foldl_admitAddr
    ⟨List.nodup_nil, List.nil_subset _, Nat.zero_le cap, fun _ => List.nil_subset _⟩ _

theorem length_discoveredPeers_le : (discoveredPeers staticPeers answer).length ≤ maxClusterPeers :=
  (mergeAndCapPeers_valid staticPeers answer maxClusterPeers).length_le

theorem mem_of_mem_discoveredPeers {peer : SocketAddress}
    (h : peer ∈ discoveredPeers staticPeers answer) : peer ∈ staticPeers ∨ peer ∈ answer := by
  have hseen := (mergeAndCapPeers_valid staticPeers answer maxClusterPeers).sub h
  rw [mergeAndCapPeers, MergedPeers.mem_seen_foldl_admitAddr] at hseen
  simpa using hseen

/-- The answer of a headless service: the addresses of all the members. -/
def Lists (members : Finset SocketAddress) (answer : List SocketAddress) : Prop :=
  ∀ peer, peer ∈ answer ↔ peer ∈ members

/-- Up to the cap, discovery finds exactly the members. -/
theorem mem_discoveredPeers (hcard : members.card ≤ maxClusterPeers)
    (hstatic : ∀ peer ∈ staticPeers, peer ∈ members) (hanswer : Lists members answer)
    (peer : SocketAddress) : peer ∈ discoveredPeers staticPeers answer ↔ peer ∈ members := by
  have hvalid := mergeAndCapPeers_valid staticPeers answer maxClusterPeers
  have hsub : (discoveredPeers staticPeers answer).toFinset ⊆ members := by
    intro p hp
    rcases mem_of_mem_discoveredPeers (List.mem_toFinset.mp hp) with hp | hp
    · exact hstatic p hp
    · exact (hanswer p).mp hp
  suffices hall : members ⊆ (discoveredPeers staticPeers answer).toFinset by
    rw [← List.mem_toFinset, hsub.antisymm hall]
  rcases Nat.lt_or_ge (discoveredPeers staticPeers answer).length maxClusterPeers with hlt | hge
  · intro p hp
    refine List.mem_toFinset.mpr (hvalid.all hlt ?_)
    rw [mergeAndCapPeers, MergedPeers.mem_seen_foldl_admitAddr]
    exact .inr (List.mem_append_right _ ((hanswer p).mpr hp))
  · refine (Finset.eq_of_subset_of_card_le hsub ?_).symm.subset
    have hnodup : (discoveredPeers staticPeers answer).Nodup := hvalid.nodup
    rw [List.toFinset_card_of_nodup hnodup]
    exact hcard.trans hge

/-- From an answer without duplicates discovery takes the first addresses. -/
theorem discoveredPeers_of_nodup (h : answer.Nodup) :
    discoveredPeers [] answer = answer.take maxClusterPeers :=
  MergedPeers.merged_foldl_admitAddr (m := {}) h

end Discovered

/-! ## Hearing only from a group -/

/-- Outside the group, what was last seen is old. -/
def Heard (group : Finset SocketAddress) (old : ℕ → Prop) (table : PeerTable) : Prop :=
  ∀ peer state, table.find peer = some state → peer ∈ group ∨ old state.lastSeen

namespace PeerRefresh

open GossipConsensus

variable {group members : Finset SocketAddress} {old : ℕ → Prop} {s s' : PeerRefresh}
  {a : RefreshAction}

/-- The table and the one that is to replace it. -/
structure Hears (group : Finset SocketAddress) (old : ℕ → Prop) (s : PeerRefresh) : Prop where
  table : Heard group old s.consensus.peerTable
  update : ∀ u ∈ s.update, Heard group old u.newPeerTable

/-- The action brings nothing new from outside the group. -/
def Local (group : Finset SocketAddress) (old : ℕ → Prop) (s : PeerRefresh) :
    RefreshAction → Prop
  | .seen peer now => peer ∈ group ∨ old now
  | .start now newPeers _ =>
    ∀ peer ∈ newPeers, peer ∈ group ∨ old now ∨ peer ∈ s.consensus.peerTable.keys
  | .associate _ _ | .liveness _ | .resume => True

theorem hears_pruneLoop {table : PeerTable} {added added' : List SocketAddress}
    {c : GossipConsensus} {pruned : ℕ} {rest : List SocketAddress}
    (hc : Heard group old c.peerTable) (htable : Heard group old table) :
    (s.continueWith added' (pruneLoop table added c pruned rest)).Hears group old := by
  obtain ⟨-, ⟨u, hu, hnew, hkept⟩ | ⟨hnone, hreplaced⟩⟩ :=
    pruneLoop_cases table added c pruned rest
  · refine ⟨?_, ?_⟩
    · show Heard group old (pruneLoop table added c pruned rest).1.peerTable
      rw [hkept]
      exact hc
    · intro v hv
      obtain rfl : u = v := Option.some.inj (hu.symm.trans hv)
      rw [hnew]
      exact htable
  · refine ⟨?_, ?_⟩
    · show Heard group old (pruneLoop table added c pruned rest).1.peerTable
      rw [hreplaced]
      exact htable
    · intro v hv
      exact absurd (hnone.symm.trans hv) (Option.some_ne_none v).symm

theorem heard_newPeerTable {c : GossipConsensus} {now : ℕ} {newPeers : List SocketAddress}
    (hc : Heard group old c.peerTable)
    (hnew : ∀ peer ∈ newPeers, peer ∈ group ∨ old now ∨ peer ∈ c.peerTable.keys) :
    Heard group old (c.newPeerTable now newPeers) := by
  intro peer state hfind
  have hstate := c.find_newPeerTable_some hfind
  cases hold : c.peerTable.find peer with
  | some entry =>
    rw [hold, Option.getD_some] at hstate
    rw [hstate]
    exact hc peer entry hold
  | none =>
    rw [hold, Option.getD_none] at hstate
    rw [hstate]
    rcases hnew peer (c.mem_newPeers_of_find hfind) with hgroup | hnow | hmem
    · exact .inl hgroup
    · exact .inr hnow
    · exact absurd hmem (KeyedMap.find_eq_none_iff.mp hold)

theorem Hears.step (h : s.Hears group old) (hlocal : s.Local group old a)
    (hstep : s.step a = some s') : s'.Hears group old := by
  cases a with
  | seen p now =>
    obtain rfl := Option.some.inj hstep
    refine ⟨?_, h.update⟩
    intro peer state hfind
    simp only [updatePeerSeen, KeyedMap.find_modify] at hfind
    split at hfind
    · next hp =>
      subst hp
      obtain ⟨entry, hentry, rfl⟩ := Option.map_eq_some_iff.mp hfind
      exact hlocal
    · exact h.table peer state hfind
  | associate p id =>
    obtain rfl := Option.some.inj hstep
    refine ⟨?_, h.update⟩
    intro peer state hfind
    simp only [associateBackend, KeyedMap.find_modify] at hfind
    split at hfind
    · obtain ⟨entry, hentry, rfl⟩ := Option.map_eq_some_iff.mp hfind
      exact h.table peer entry hentry
    · exact h.table peer state hfind
  | liveness now =>
    obtain rfl := Option.some.inj hstep
    refine ⟨?_, h.update⟩
    intro peer state hfind
    simp only [checkLiveness_peerTable, KeyedMap.find_map] at hfind
    obtain ⟨entry, hentry, rfl⟩ := Option.map_eq_some_iff.mp hfind
    rw [markDead_lastSeen]
    exact h.table peer entry hentry
  | start now newPeers order =>
    obtain ⟨-, added, rfl⟩ := step_start hstep
    refine hears_pruneLoop ?_ (heard_newPeerTable h.table hlocal)
    rw [countOverflow_peerTable]
    exact h.table
  | resume =>
    obtain ⟨u, hu, rfl⟩ := step_resume hstep
    exact hears_pruneLoop h.table (h.update u hu)

/-- The table has exactly these peers. -/
def Has (members : Finset SocketAddress) (table : PeerTable) : Prop :=
  ∀ peer, peer ∈ table.keys ↔ peer ∈ members

theorem Has.size_eq {table : PeerTable} (h : Has members table) : table.size = members.card := by
  have heq : table.keys.toFinset = members := by
    ext peer
    rw [List.mem_toFinset]
    exact h peer
  rw [← KeyedMap.card_toFinset_keys, heq]

end PeerRefresh

/-! ## Counting -/

namespace GossipConsensus

open PeerRefresh

variable {c : GossipConsensus} {members group : Finset SocketAddress} {now : ℕ}

/-- Too long ago to count at `now`. -/
def Stale (window now time : ℕ) : Prop := window < (now - time) / 1000

instance (window now time : ℕ) : Decidable (Stale window now time) :=
  inferInstanceAs (Decidable (_ < _))

theorem Stale.of_le {window now time time' : ℕ} (h : Stale window now time) (hle : time' ≤ time) :
    Stale window now time' :=
  Nat.lt_of_lt_of_le h (Nat.div_le_div_right (by omega))

theorem quorumState_checkQuorum_iff :
    (c.checkQuorum now).quorumState = .HEALTHY ↔ c.quorumRequired ≤ c.recentlySeenNodes now := by
  rw [checkQuorum_quorumState, quorumFound]
  split
  · next h => exact ⟨fun _ => h, fun _ => rfl⟩
  · next h => exact ⟨fun hd => (by cases hd), fun hle => absurd hle h⟩

theorem quorumRequired_eq (h : Has members c.peerTable) :
    c.quorumRequired =
      min (⌊((members.card + 1 : ℕ) : ℚ) * c.config.quorumThreshold⌋₊ + 1) (members.card + 1) := by
  rw [quorumRequired, h.size_eq]

/-- Who is seen is a peer of the group. -/
theorem recentlySeenNodes_le (hhas : Has members c.peerTable)
    (hheard : Heard group (Stale c.config.quorumCheckWindow now) c.peerTable) :
    c.recentlySeenNodes now ≤ (group ∩ members).card + 1 := by
  refine Nat.add_le_add_right (KeyedMap.count_le_card ?_) 1
  intro peer state hfind hseen
  rw [recentlySeen, decide_eq_true_iff] at hseen
  refine Finset.mem_inter.mpr ⟨?_, (hhas peer).mp (KeyedMap.mem_keys_of_find hfind)⟩
  rcases hheard peer state hfind with hgroup | hstale
  · exact hgroup
  · exact absurd hseen (Nat.not_le.mpr hstale)

/-- **A `HEALTHY` node hears from enough of its peers.** -/
theorem healthy_le_card (hhas : Has members c.peerTable)
    (hheard : Heard group (Stale c.config.quorumCheckWindow now) c.peerTable)
    (hhealthy : (c.checkQuorum now).quorumState = .HEALTHY) :
    min ⌊((members.card + 1 : ℕ) : ℚ) * c.config.quorumThreshold⌋₊ members.card ≤
      (group ∩ members).card := by
  have hrequired := quorumState_checkQuorum_iff.mp hhealthy
  rw [quorumRequired_eq hhas] at hrequired
  have hseen := recentlySeenNodes_le hhas hheard
  omega

end GossipConsensus

/-! ## Static lists -/

open GossipConsensus PeerRefresh

/-- A node of the group with a static list of the other members, from its start to a check
of the quorum. Within the check window it hears only from its group; the loader keeps at most
`ClusterConfig::MAX_PEERS` peers. -/
structure StaticRun (members group : Finset SocketAddress) : Type where
  node : SocketAddress
  config : ConsensusConfig
  peers : List SocketAddress
  startedAt : ℕ
  calls : List RefreshAction
  final : PeerRefresh
  now : ℕ
  node_mem : node ∈ group
  names : ∀ peer, peer ∈ peers ↔ peer ∈ members.erase node
  loaded : peers.length ≤ maxClusterPeers
  ends : exec step { consensus := GossipConsensus.start config peers startedAt } calls = some final
  noDiscovery : ∀ a ∈ calls, a.isStart = false
  heard : ∀ peer time, .seen peer time ∈ calls →
    peer ∈ group ∨ Stale config.quorumCheckWindow now time

namespace StaticRun

variable {members group : Finset SocketAddress} (r : StaticRun members group)

/-- The state of the quorum after `check_quorum`. -/
def quorumState : QuorumState := (r.final.consensus.checkQuorum r.now).quorumState

theorem find_start (config : ConsensusConfig) {peers : List SocketAddress} (time : ℕ)
    (hloaded : peers.length ≤ maxClusterPeers) (peer : SocketAddress) :
    (GossipConsensus.start config peers time).peerTable.find peer =
      if peer ∈ peers then some (freshPeer time) else none := by
  have hfit : (({} : PeerTable).size + peers.length) ≤ maxPeers := by
    rw [KeyedMap.size, List.length_nil, Nat.zero_add]
    exact hloaded.trans (by decide)
  have hfind : (addInitialPeers time {} peers).find peer =
      if peer ∈ peers then some (freshPeer time) else none := find_addInitialPeers hfit peer
  rw [GossipConsensus.start]
  split
  · exact hfind
  · exact hfind

theorem has_start : Has (members.erase r.node)
    (GossipConsensus.start r.config r.peers r.startedAt).peerTable := by
  intro peer
  rw [← KeyedMap.find_isSome_iff, find_start _ _ r.loaded, ← r.names peer]
  split
  · next h => exact ⟨fun _ => h, fun _ => rfl⟩
  · next h => exact ⟨fun hs => (by cases hs), fun hmem => absurd hmem h⟩

theorem start_config (config : ConsensusConfig) (peers : List SocketAddress) (time : ℕ) :
    (GossipConsensus.start config peers time).config = config := by
  rw [GossipConsensus.start]
  split
  · rfl
  · rfl

/-- What a run without discovery keeps. -/
structure Kept (s : PeerRefresh) : Prop where
  idle : s.update = none
  config : s.consensus.config = r.config
  has : Has (members.erase r.node) s.consensus.peerTable

variable {r}

theorem Kept.step {s s' : PeerRefresh} {a : RefreshAction} (h : r.Kept s)
    (ha : a.isStart = false) (hstep : s.step a = some s') : r.Kept s' := by
  cases hcall : a.isCall with
  | true =>
    obtain ⟨hupdate, hkeys⟩ := step_call hcall hstep
    refine ⟨hupdate.trans h.idle, (step_config hstep).trans h.config, ?_⟩
    intro peer
    rw [hkeys]
    exact h.has peer
  | false =>
    -- without an update there is nothing to resume
    cases a with
    | resume =>
      obtain ⟨u, hu, -⟩ := step_resume hstep
      exact absurd (h.idle.symm.trans hu) (Option.some_ne_none u).symm
    | start now newPeers order => cases ha
    | seen p now => cases hcall
    | associate p id => cases hcall
    | liveness now => cases hcall

variable (r)

theorem kept : r.Kept r.final := by
  refine exec_invariant (I := fun _ s => r.Kept s) ?_ (h := [])
    (meets_of_forall_mem r.noDiscovery) r.ends
    ⟨rfl, start_config r.config r.peers r.startedAt, r.has_start⟩
  intro h s a s' hok hstep hkept
  exact hkept.step hok hstep

theorem hears (hlong : Stale r.config.quorumCheckWindow r.now r.startedAt) :
    Heard group (Stale r.config.quorumCheckWindow r.now) r.final.consensus.peerTable := by
  have hstart : Heard group (Stale r.config.quorumCheckWindow r.now)
      (GossipConsensus.start r.config r.peers r.startedAt).peerTable := by
    intro peer state hfind
    rw [find_start _ _ r.loaded] at hfind
    split at hfind
    · obtain rfl := Option.some.inj hfind
      exact .inr hlong
    · cases hfind
  have hlocal : ∀ a ∈ r.calls, ∀ s, Local group (Stale r.config.quorumCheckWindow r.now) s a := by
    intro a ha s
    cases a with
    | seen peer time => exact r.heard peer time ha
    | start now newPeers order => cases r.noDiscovery _ ha
    | associate peer id => trivial
    | liveness now => trivial
    | resume => trivial
  have hend : r.final.Hears group (Stale r.config.quorumCheckWindow r.now) := by
    refine exec_invariant (I := fun _ s => Hears group (Stale r.config.quorumCheckWindow r.now) s)
      ?_ (h := []) (meets_of_forall_mem hlocal) r.ends ⟨hstart, fun u hu => by cases hu⟩
    intro h s a s' hok hstep hhears
    exact hhears.step (hok s) hstep
  exact hend.table

theorem quorumRequired_final (hgroup : group ⊆ members) :
    r.final.consensus.quorumRequired =
      min (⌊(members.card : ℚ) * r.config.quorumThreshold⌋₊ + 1) members.card := by
  have hcard : (members.erase r.node).card + 1 = members.card :=
    Finset.card_erase_add_one (hgroup r.node_mem)
  rw [quorumRequired_eq r.kept.has, hcard, r.kept.config]

theorem recentlySeenNodes_final (hlong : Stale r.config.quorumCheckWindow r.now r.startedAt) :
    r.final.consensus.recentlySeenNodes r.now ≤ group.card := by
  have hheard := r.hears hlong
  rw [← r.kept.config] at hheard
  have hseen := recentlySeenNodes_le r.kept.has hheard
  have hsub : group ∩ members.erase r.node ⊆ group.erase r.node := by
    intro peer hpeer
    obtain ⟨hmem, hother⟩ := Finset.mem_inter.mp hpeer
    exact Finset.mem_erase.mpr ⟨(Finset.mem_erase.mp hother).1, hmem⟩
  have hcard := Finset.card_le_card hsub
  have hself := Finset.card_erase_add_one r.node_mem
  omega

/-- The required nodes exist, and the margin of the warning does not wrap. -/
def SoundMargin : Prop :=
  r.final.consensus.quorumRequired ≤ members.card ∧
    (r.quorumState = .HEALTHY →
      r.final.consensus.quorumRequired ≤ r.final.consensus.recentlySeenNodes r.now)

theorem soundMargin (hgroup : group ⊆ members) : r.SoundMargin := by
  refine ⟨?_, quorumState_checkQuorum_iff.mp⟩
  rw [r.quorumRequired_final hgroup]
  exact Nat.min_le_right _ _

theorem required_le_card (hgroup : group ⊆ members)
    (hlong : Stale r.config.quorumCheckWindow r.now r.startedAt)
    (hhealthy : r.quorumState = .HEALTHY) :
    min (⌊(members.card : ℚ) * r.config.quorumThreshold⌋₊ + 1) members.card ≤ group.card := by
  rw [← r.quorumRequired_final hgroup]
  exact (quorumState_checkQuorum_iff.mp hhealthy).trans (r.recentlySeenNodes_final hlong)

end StaticRun

section StaticSplit

variable {members A B : Finset SocketAddress}

/-- A majority of more than half is in at most one of two disjoint groups. -/
theorem not_both_majorities {N a b : ℕ} {τ : ℚ} (hτ : 1 / 2 ≤ τ) (hpos : 0 < N) (hsum : a + b ≤ N)
    (ha : min (⌊(N : ℚ) * τ⌋₊ + 1) N ≤ a) (hb : min (⌊(N : ℚ) * τ⌋₊ + 1) N ≤ b) : False := by
  have hfloor : (N : ℚ) * τ < ⌊(N : ℚ) * τ⌋₊ + 1 := Nat.lt_floor_add_one _
  have hhalf : (N : ℚ) * (1 / 2) ≤ N * τ := mul_le_mul_of_nonneg_left hτ (Nat.cast_nonneg N)
  have hlt : N < 2 * (⌊(N : ℚ) * τ⌋₊ + 1) := by
    have hlt' : (N : ℚ) < 2 * (⌊(N : ℚ) * τ⌋₊ + 1) := by linarith
    exact_mod_cast hlt'
  omega

/-- **Static lists and two groups.** Nodes of two disjoint groups that hear only from their
own group within the check window are not both `HEALTHY`, if each has been running for longer
than the window. No node ever requires more nodes than there are, and one that is `HEALTHY`
has seen at least as many as it requires. -/
theorem static_split_one_healthy (hA : A ⊆ members) (hB : B ⊆ members) (hdisjoint : Disjoint A B)
    {τ : ℚ} (hτ : 1 / 2 ≤ τ) (rA : StaticRun members A) (rB : StaticRun members B)
    (hτA : rA.config.quorumThreshold = τ) (hτB : rB.config.quorumThreshold = τ) :
    (Stale rA.config.quorumCheckWindow rA.now rA.startedAt →
      Stale rB.config.quorumCheckWindow rB.now rB.startedAt →
      ¬(rA.quorumState = .HEALTHY ∧ rB.quorumState = .HEALTHY)) ∧
    rA.SoundMargin ∧ rB.SoundMargin := by
  refine ⟨?_, rA.soundMargin hA, rB.soundMargin hB⟩
  rintro hlongA hlongB ⟨hhealthyA, hhealthyB⟩
  have ha := rA.required_le_card hA hlongA hhealthyA
  have hb := rB.required_le_card hB hlongB hhealthyB
  rw [hτA] at ha
  rw [hτB] at hb
  have hpos : 0 < members.card := Finset.card_pos.mpr ⟨rA.node, hA rA.node_mem⟩
  have hsum : A.card + B.card ≤ members.card := by
    rw [← Finset.card_union_of_disjoint hdisjoint]
    exact Finset.card_le_card (Finset.union_subset hA hB)
  exact not_both_majorities hτ hpos hsum ha hb

/-- One of two nodes. It hears nothing and is checked at `now`. -/
def lonely (node other now : ℕ) (h : ({0, 1} : Finset SocketAddress).erase node = {other}) :
    StaticRun {0, 1} {node} where
  node := node
  config := {}
  peers := [other]
  startedAt := 0
  calls := []
  final := { consensus := GossipConsensus.start {} [other] 0 }
  now := now
  node_mem := Finset.mem_singleton_self node
  names := by
    intro peer
    rw [h, Finset.mem_singleton, List.mem_singleton]
  loaded := by
    rw [List.length_singleton]
    decide
  ends := rfl
  noDiscovery := fun a ha => by cases ha
  heard := fun peer time h => by cases h

theorem static_split_one_healthy_two :
    ¬((lonely 0 1 31000 (by decide)).quorumState = .HEALTHY ∧
      (lonely 1 0 31000 (by decide)).quorumState = .HEALTHY) :=
  (static_split_one_healthy (by decide) (by decide) (by decide) (le_refl (1 / 2)) _ _ rfl
    rfl).1 (by decide) (by decide)

/-- Both nodes have just started, and each counts the other as seen. -/
theorem just_started_both_healthy :
    (lonely 0 1 0 (by decide)).quorumState = .HEALTHY ∧
      (lonely 1 0 0 (by decide)).quorumState = .HEALTHY := by
  refine ⟨quorumState_checkQuorum_iff.mpr ?_, quorumState_checkQuorum_iff.mpr ?_⟩
  · exact (Nat.min_le_right _ _).trans (by decide)
  · exact (Nat.min_le_right _ _).trans (by decide)

end StaticSplit

end Ranvier
