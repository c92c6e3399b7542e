import Mathlib.Algebra.Order.Floor.Semiring
import Mathlib.Algebra.Order.Ring.Rat
import Mathlib.Data.Rat.Floor
import Ranvier.Backends
import Ranvier.KeyedMap

/-!
# Peer table and quorum

Shard 0 of a node keeps an entry for each peer: when it was last seen, whether it counts
as alive, and the backend it announced. Datagrams refresh entries, the liveness timer
marks the silent ones dead and counts the peers seen within the check window, and DNS
discovery replaces the table by a new list.

Times are in milliseconds, the settings in seconds. A reading of the clock never lies
before a time that was stored, so differences of times are natural numbers.

* `find_newPeerTable`, `find_newPeerTable_some` — what discovery puts into the table;
* `find_addInitialPeers` — what a node starts with.
-/

namespace Ranvier

/-- `PeerState`. -/
structure PeerState : Type where
  lastSeen : ℕ
  isAlive : Bool := true
  associatedBackend : Option BackendId := none
  deriving DecidableEq, Repr

/-- `_peer_table`. -/
abbrev PeerTable : Type := KeyedMap SocketAddress PeerState

/-- `QuorumState`. -/
inductive QuorumState : Type where
  | HEALTHY
  | DEGRADED
  deriving DecidableEq, Repr

/-- The part of `ClusterConfig` that the consensus module reads. -/
structure ConsensusConfig : Type where
  /-- `gossip_peer_timeout` -/
  gossipPeerTimeout : ℕ := 15
  quorumEnabled : Bool := true
  quorumThreshold : ℚ := 1 / 2
  quorumWarningThreshold : ℕ := 1
  /-- `quorum_check_window` -/
  quorumCheckWindow : ℕ := 30
  failOpenOnQuorumLoss : Bool := false

/-- `GossipConsensus` on shard 0. The last two fields say what was broadcast. -/
structure GossipConsensus : Type where
  config : ConsensusConfig
  peerTable : PeerTable := {}
  quorumState : QuorumState := .HEALTHY
  quorumTransitions : ℕ := 0
  statsClusterPeersAlive : ℕ := 0
  statsPeersRecentlySeen : ℕ := 0
  peerTableOverflow : ℕ := 0
  quorumWarningActive : Bool := false
  failOpenActive : Bool := false
  pruneCallback : Bool := true
  prunes : List BackendId := []
  failOpenBroadcasts : List Bool := []

namespace GossipConsensus

/-- `GossipConsensus::MAX_PEERS`. -/
def maxPeers : ℕ := 1000

/-- `kYieldInterval`. -/
def yieldInterval : ℕ := 128

variable (c : GossipConsensus)

/-! ## Peers -/

/-- `update_peer_seen`. -/
def updatePeerSeen (peer : SocketAddress) (now : ℕ) : GossipConsensus :=
  { c with
    peerTable :=
      c.peerTable.modify peer fun state => { state with lastSeen := now, isAlive := true } }

/-- `associate_backend`. -/
def associateBackend (peer : SocketAddress) (id : BackendId) : GossipConsensus :=
  { c with
    peerTable := c.peerTable.modify peer fun state => { state with associatedBackend := some id } }

/-- The backends of the given entries, for `broadcast_prune`. -/
def prunesOf (states : List PeerState) : List BackendId :=
  if c.pruneCallback then states.filterMap PeerState.associatedBackend else []

/-- The peers that count as alive. -/
def aliveCount (table : PeerTable) : ℕ := table.entries.countP fun e => e.2.isAlive

/-! ## Quorum -/

/-- `quorum_required`. -/
def quorumRequired : ℕ :=
  let totalNodes := c.peerTable.size + 1
  min (⌊(totalNodes : ℚ) * c.config.quorumThreshold⌋₊ + 1) totalNodes

/-- Seen within the check window, in whole seconds. -/
def recentlySeen (now : ℕ) (state : PeerState) : Bool :=
  decide ((now - state.lastSeen) / 1000 ≤ c.config.quorumCheckWindow)

/-- `recently_seen_nodes`: the node itself is always seen. -/
def recentlySeenNodes (now : ℕ) : ℕ :=
  c.peerTable.entries.countP (fun e => c.recentlySeen now e.2) + 1

/-- `is_fail_open_mode`. -/
def isFailOpenMode : Bool :=
  c.config.quorumEnabled && c.config.failOpenOnQuorumLoss && c.quorumState == .DEGRADED

/-- `maybe_broadcast_fail_open`. -/
def maybeBroadcastFailOpen : GossipConsensus :=
  if c.isFailOpenMode = c.failOpenActive then c
  else
    { c with
      failOpenActive := c.isFailOpenMode
      failOpenBroadcasts := c.failOpenBroadcasts ++ [c.isFailOpenMode] }

/-- The state that `check_quorum` finds. -/
def quorumFound (now : ℕ) : QuorumState :=
  if c.quorumRequired ≤ c.recentlySeenNodes now then .HEALTHY else .DEGRADED

/-- The transition in `check_quorum`. -/
def enterQuorumState (newState : QuorumState) : GossipConsensus :=
  if newState = c.quorumState then c
  else
    { c with
      quorumTransitions := c.quorumTransitions + 1
      quorumWarningActive := if newState = .DEGRADED then false else c.quorumWarningActive
      quorumState := newState }

/-- The warning in `check_quorum`; `margin` is a difference of `size_t`. -/
def warnQuorum (recentlySeenNodes required : ℕ) : GossipConsensus :=
  if 0 < c.config.quorumWarningThreshold ∧ c.quorumState = .HEALTHY then
    let margin := recentlySeenNodes - required
    { c with quorumWarningActive := decide (margin ≤ c.config.quorumWarningThreshold) }
  else c

/-- `check_quorum`. -/
def checkQuorum (now : ℕ) : GossipConsensus :=
  (({ c with statsPeersRecentlySeen := c.recentlySeenNodes now - 1 }.enterQuorumState
    (c.quorumFound now)).maybeBroadcastFailOpen).warnQuorum (c.recentlySeenNodes now)
      c.quorumRequired

/-! ## Liveness -/

/-- Alive, but silent for longer than the timeout. -/
def timedOut (now : ℕ) (state : PeerState) : Bool :=
  state.isAlive && decide (c.config.gossipPeerTimeout * 1000 < now - state.lastSeen)

/-- What `check_liveness` does to an entry. -/
def markDead (now : ℕ) (state : PeerState) : PeerState :=
  if c.timedOut now state then { state with isAlive := false } else state

/-- The loop of `check_liveness`. -/
def markSilent (now : ℕ) : GossipConsensus :=
  let table := c.peerTable.map (c.markDead now)
  { c with
    peerTable := table
    prunes := c.prunes ++
      c.prunesOf ((c.peerTable.entries.map Prod.snd).filter fun state => c.timedOut now state)
    statsClusterPeersAlive := aliveCount table }

/-- `check_liveness`. -/
def checkLiveness (now : ℕ) : GossipConsensus :=
  if c.config.quorumEnabled then (c.markSilent now).checkQuorum now else c.markSilent now

/-! ## Lists of peers -/

/-- A new entry. -/
def freshPeer (now : ℕ) : PeerState := { lastSeen := now }

/-- The initial peers in `start`, up to `MAX_PEERS`. -/
def addInitialPeers (now : ℕ) : PeerTable → List SocketAddress → PeerTable
  | table, [] => table
  | table, peer :: peers =>
    if maxPeers ≤ table.size then table
    else addInitialPeers now (table.set peer (freshPeer now)) peers

/-- `start`. -/
def start (config : ConsensusConfig) (initialPeers : List SocketAddress) (now : ℕ) :
    GossipConsensus :=
  let table := addInitialPeers now {} initialPeers
  let c : GossipConsensus :=
    { config, peerTable := table, statsClusterPeersAlive := table.size }
  if config.quorumEnabled then
    { c with
      quorumState :=
        if c.quorumRequired ≤ c.statsClusterPeersAlive + 1 then .HEALTHY else .DEGRADED }
  else c

/-- The first loop of `update_peer_list`: the new table, the peers that were not there
before, and whether the list was too long. -/
def admitPeers (old : PeerTable) (now : ℕ) :
    PeerTable × List SocketAddress → List SocketAddress → (PeerTable × List SocketAddress) × Bool
  | (table, added), [] => ((table, added), false)
  | (table, added), peer :: peers =>
    if maxPeers ≤ table.size then ((table, added), true)
    else
      match old.find peer with
      | some state => admitPeers old now (table.set peer state, added) peers
      | none => admitPeers old now (table.set peer (freshPeer now), added ++ [peer]) peers

/-- The table that `update_peer_list` builds. -/
def newPeerTable (now : ℕ) (newPeers : List SocketAddress) : PeerTable :=
  (admitPeers c.peerTable now ({}, []) newPeers).1.1

/-- `_peer_table_overflow` after the first loop. -/
def countOverflow (now : ℕ) (newPeers : List SocketAddress) : GossipConsensus :=
  if (admitPeers c.peerTable now ({}, []) newPeers).2 then
    { c with peerTableOverflow := c.peerTableOverflow + 1 }
  else c

/-- The end of `update_peer_list`. -/
def replacePeerTable (table : PeerTable) : GossipConsensus :=
  { c with peerTable := table, statsClusterPeersAlive := aliveCount table }

/-- `update_peer_list`, when nothing else runs at its suspension points. -/
def updatePeerList (now : ℕ) (newPeers : List SocketAddress) : GossipConsensus :=
  let table := c.newPeerTable now newPeers
  let removed := c.peerTable.entries.filter fun e => decide (e.1 ∉ table.keys)
  { (c.countOverflow now newPeers).replacePeerTable table with
    prunes := c.prunes ++ c.prunesOf (removed.map Prod.snd) }

/-! ## What the operations leave alone -/

section Frame

variable {c}

@[simp] theorem updatePeerSeen_config (peer : SocketAddress) (now : ℕ) :
    (c.updatePeerSeen peer now).config = c.config := rfl

@[simp] theorem associateBackend_config (peer : SocketAddress) (id : BackendId) :
    (c.associateBackend peer id).config = c.config := rfl

@[simp] theorem enterQuorumState_config (q : QuorumState) :
    (c.enterQuorumState q).config = c.config := by
  rw [enterQuorumState]
  split
  · rfl
  · rfl

@[simp] theorem enterQuorumState_peerTable (q : QuorumState) :
    (c.enterQuorumState q).peerTable = c.peerTable := by
  rw [enterQuorumState]
  split
  · rfl
  · rfl

@[simp] theorem enterQuorumState_quorumState (q : QuorumState) :
    (c.enterQuorumState q).quorumState = q := by
  rw [enterQuorumState]
  split
  · next h => exact h.symm
  · rfl

@[simp] theorem maybeBroadcastFailOpen_config :
    c.maybeBroadcastFailOpen.config = c.config := by
  rw [maybeBroadcastFailOpen]
  split
  · rfl
  · rfl

@[simp] theorem maybeBroadcastFailOpen_peerTable :
    c.maybeBroadcastFailOpen.peerTable = c.peerTable := by
  rw [maybeBroadcastFailOpen]
  split
  · rfl
  · rfl

@[simp] theorem maybeBroadcastFailOpen_quorumState :
    c.maybeBroadcastFailOpen.quorumState = c.quorumState := by
  rw [maybeBroadcastFailOpen]
  split
  · rfl
  · rfl

@[simp] theorem warnQuorum_config (seen required : ℕ) :
    (c.warnQuorum seen required).config = c.config := by
  rw [warnQuorum]
  split
  · rfl
  · rfl

@[simp] theorem warnQuorum_peerTable (seen required : ℕ) :
    (c.warnQuorum seen required).peerTable = c.peerTable := by
  rw [warnQuorum]
  split
  · rfl
  · rfl

@[simp] theorem warnQuorum_quorumState (seen required : ℕ) :
    (c.warnQuorum seen required).quorumState = c.quorumState := by
  rw [warnQuorum]
  split
  · rfl
  · rfl

@[simp] theorem checkQuorum_config (now : ℕ) : (c.checkQuorum now).config = c.config := by
  simp [checkQuorum]

@[simp] theorem checkQuorum_peerTable (now : ℕ) :
    (c.checkQuorum now).peerTable = c.peerTable := by
  simp [checkQuorum]

@[simp] theorem checkQuorum_quorumState (now : ℕ) :
    (c.checkQuorum now).quorumState = c.quorumFound now := by
  simp [checkQuorum]

@[simp] theorem checkLiveness_config (now : ℕ) : (c.checkLiveness now).config = c.config := by
  rw [checkLiveness]
  split
  · rw [checkQuorum_config]
    rfl
  · rfl

@[simp] theorem checkLiveness_peerTable (now : ℕ) :
    (c.checkLiveness now).peerTable = c.peerTable.map (c.markDead now) := by
  rw [checkLiveness]
  split
  · rw [checkQuorum_peerTable]
    rfl
  · rfl

@[simp] theorem countOverflow_config (now : ℕ) (newPeers : List SocketAddress) :
    (c.countOverflow now newPeers).config = c.config := by
  rw [countOverflow]
  split
  · rfl
  · rfl

@[simp] theorem countOverflow_peerTable (now : ℕ) (newPeers : List SocketAddress) :
    (c.countOverflow now newPeers).peerTable = c.peerTable := by
  rw [countOverflow]
  split
  · rfl
  · rfl

@[simp] theorem updatePeerList_config (now : ℕ) (newPeers : List SocketAddress) :
    (c.updatePeerList now newPeers).config = c.config :=
  countOverflow_config now newPeers

@[simp] theorem updatePeerList_peerTable (now : ℕ) (newPeers : List SocketAddress) :
    (c.updatePeerList now newPeers).peerTable = c.newPeerTable now newPeers := rfl

theorem markDead_lastSeen (now : ℕ) (state : PeerState) :
    (c.markDead now state).lastSeen = state.lastSeen := by
  rw [markDead]
  split
  · rfl
  · rfl

end Frame

/-! ## The tables that are built -/

/-- An entry of a list that fits the table. -/
theorem find_admitPeers {old table : PeerTable} {now : ℕ} {added peers : List SocketAddress}
    (hfit : table.size + peers.length ≤ maxPeers) (peer : SocketAddress) :
    (admitPeers old now (table, added) peers).1.1.find peer =
      if peer ∈ peers then some ((old.find peer).getD (freshPeer now)) else table.find peer := by
  induction peers generalizing table added with
  | nil => simp [admitPeers]
  | cons p peers ih =>
    rw [List.length_cons] at hfit
    have hnext : ∀ state : PeerState, (table.set p state).size + peers.length ≤ maxPeers := by
      intro state
      rw [KeyedMap.size_set]
      split
      · omega
      · omega
    rw [admitPeers, if_neg (by omega)]
    cases hold : old.find p with
    | some state =>
      rw [ih (hnext state), KeyedMap.find_set]
      by_cases hp : peer = p
      · subst hp
        simp [hold]
      · simp [hp]
    | none =>
      rw [ih (hnext _), KeyedMap.find_set]
      by_cases hp : peer = p
      · subst hp
        simp [hold]
      · simp [hp]

/-- An entry of the new table is the old one or a fresh one, whatever the length of the
list. -/
theorem find_admitPeers_some {old table : PeerTable} {now : ℕ}
    {added peers : List SocketAddress}
    (htable : ∀ peer state, table.find peer = some state →
      state = (old.find peer).getD (freshPeer now)) {peer : SocketAddress} {state : PeerState}
    (h : (admitPeers old now (table, added) peers).1.1.find peer = some state) :
    state = (old.find peer).getD (freshPeer now) := by
  induction peers generalizing table added with
  | nil => exact htable peer state h
  | cons p peers ih =>
    rw [admitPeers] at h
    split at h
    · exact htable peer state h
    · cases hold : old.find p with
      | some entry =>
        rw [hold] at h
        refine ih (fun q s hq => ?_) h
        rw [KeyedMap.find_set] at hq
        split at hq
        · next heq =>
          obtain rfl := Option.some.inj hq
          rw [heq, hold, Option.getD_some]
        · exact htable q s hq
      | none =>
        rw [hold] at h
        refine ih (fun q s hq => ?_) h
        rw [KeyedMap.find_set] at hq
        split at hq
        · next heq =>
          obtain rfl := Option.some.inj hq
          rw [heq, hold, Option.getD_none]
        · exact htable q s hq

theorem find_newPeerTable_some {now : ℕ} {newPeers : List SocketAddress} {peer : SocketAddress}
    {state : PeerState} (h : (c.newPeerTable now newPeers).find peer = some state) :
    state = (c.peerTable.find peer).getD (freshPeer now) :=
  find_admitPeers_some (fun _ _ hnone => by cases hnone) h

theorem mem_of_find_admitPeers {old table : PeerTable} {now : ℕ}
    {added peers : List SocketAddress} {peer : SocketAddress} {state : PeerState}
    (h : (admitPeers old now (table, added) peers).1.1.find peer = some state) :
    peer ∈ peers ∨ peer ∈ table.keys := by
  induction peers generalizing table added with
  | nil => exact .inr (KeyedMap.mem_keys_of_find h)
  | cons p peers ih =>
    rw [admitPeers] at h
    split at h
    · exact .inr (KeyedMap.mem_keys_of_find h)
    · have hnext : peer ∈ peers ∨ peer = p ∨ peer ∈ table.keys := by
        split at h
        · rw [← KeyedMap.mem_keys_set]
          exact ih h
        · rw [← KeyedMap.mem_keys_set]
          exact ih h
      rw [List.mem_cons]
      tauto

theorem mem_newPeers_of_find {now : ℕ} {newPeers : List SocketAddress} {peer : SocketAddress}
    {state : PeerState} (h : (c.newPeerTable now newPeers).find peer = some state) :
    peer ∈ newPeers := by
  rcases mem_of_find_admitPeers h with hmem | hmem
  · exact hmem
  · cases hmem

theorem find_newPeerTable {now : ℕ} {newPeers : List SocketAddress}
    (hfit : newPeers.length ≤ maxPeers) (peer : SocketAddress) :
    (c.newPeerTable now newPeers).find peer =
      if peer ∈ newPeers then some ((c.peerTable.find peer).getD (freshPeer now)) else none := by
  rw [newPeerTable, find_admitPeers (by rw [KeyedMap.size]; simpa using hfit)]
  rfl

theorem mem_keys_newPeerTable {now : ℕ} {newPeers : List SocketAddress}
    (hfit : newPeers.length ≤ maxPeers) {peer : SocketAddress} :
    peer ∈ (c.newPeerTable now newPeers).keys ↔ peer ∈ newPeers := by
  rw [← KeyedMap.find_isSome_iff, c.find_newPeerTable hfit]
  split
  · next h => exact ⟨fun _ => h, fun _ => rfl⟩
  · next h => exact ⟨fun hs => (by cases hs), fun hmem => absurd hmem h⟩

theorem find_addInitialPeers {table : PeerTable} {now : ℕ} {peers : List SocketAddress}
    (hfit : table.size + peers.length ≤ maxPeers) (peer : SocketAddress) :
    (addInitialPeers now table peers).find peer =
      if peer ∈ peers then some (freshPeer now) else table.find peer := by
  induction peers generalizing table with
  | nil => simp [addInitialPeers]
  | cons p peers ih =>
    rw [List.length_cons] at hfit
    have hnext : (table.set p (freshPeer now)).size + peers.length ≤ maxPeers := by
      rw [KeyedMap.size_set]
      split
      · omega
      · omega
    rw [addInitialPeers, if_neg (by omega), ih hnext, KeyedMap.find_set]
    by_cases hp : peer = p
    · simp [hp]
    · simp [hp]

end GossipConsensus

end Ranvier
