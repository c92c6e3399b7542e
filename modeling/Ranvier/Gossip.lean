import Mathlib.Data.List.AList
import Mathlib.Data.Finset.Erase
import Mathlib.Data.Finset.Insert
import Ranvier.Run
import Ranvier.Types

/-!
# Reliable delivery between gossip nodes

A node numbers the packets it sends to each peer, keeps them until the peer
acknowledges the number and retries them meanwhile; the receiver remembers the
numbers it has seen in a sliding window, acknowledges every packet and acts on
the ones it has not seen.

* `GossipNode` and the protocol functions — one node's state per peer;
* `GossipPair` and `gossipStep` — two nodes and a network that loses, repeats and
  reorders datagrams: every datagram ever sent may arrive at any time, any
  number of times;
* `cleared_was_learned` — an acknowledged announcement has reached the peer's
  route-learn callback, in every run in which **no number is given to the peer
  twice**;
* `cleared_without_learning` — `cleanup_peer_state` restarts the numbers, and
  the peer then acknowledges announcements it never looked at.
-/

namespace Ranvier

/-! ## Packets -/

/-- `RouteAnnouncementPacket::MAX_TOKENS`. -/
def maxAnnouncedTokens : ℕ := 256

/-- What a numbered packet carries. -/
inductive GossipPayload : Type where
  /-- `RouteAnnouncementPacket` -/
  | route (tokens : List TokenId) (backend : BackendId)
  /-- `CacheEvictionPacket` -/
  | eviction (prefixHash : UInt64) (backend : BackendId)
  deriving DecidableEq, Repr

/-- A packet with the sequence number stamped into its header. -/
structure GossipPacket : Type where
  seqNum : UInt32
  payload : GossipPayload
  deriving DecidableEq, Repr

/-- What travels between nodes. -/
inductive GossipDatagram : Type where
  | packet (p : GossipPacket)
  /-- `RouteAckPacket` -/
  | ack (seqNum : UInt32)
  deriving DecidableEq, Repr

/-! ## A node -/

/-- `MAX_PENDING_ACKS`. -/
def maxPendingAcks : UInt64 := 1000

/-- `MAX_DEDUP_PEERS`. -/
def maxDedupPeers : ℕ := 10000

/-- The cluster options that reliable delivery reads. -/
structure GossipConfig : Type where
  gossipReliableDelivery : Bool
  gossipDedupWindow : ℕ
  gossipMaxRetries : ℕ
  /-- milliseconds -/
  gossipAckTimeout : ℕ
  quorumEnabled : Bool
  failOpenOnQuorumLoss : Bool
  acceptGossipOnQuorumLoss : Bool
  rejectRoutesOnQuorumLoss : Bool

/-- `PendingAck`. -/
structure PendingAck : Type where
  packet : GossipPacket
  nextRetry : ℕ
  retryCount : ℕ
  deriving DecidableEq, Repr

/-- `_received_seq_windows` and `_received_seq_sets` of one peer. -/
structure SeqWindow : Type where
  window : List UInt32
  seqSet : Finset UInt32

/-- What a node keeps per peer, and the quorum flags it consults. -/
structure GossipNode (Addr : Type) [DecidableEq Addr] : Type where
  peerAddresses : List Addr
  pendingAcks : AList fun _ : Addr => AList fun _ : UInt32 => PendingAck
  /-- `_stats_pending_acks_count` -/
  pendingAcksCount : UInt64
  peerSeqCounters : AList fun _ : Addr => UInt32
  receivedSeqs : AList fun _ : Addr => SeqWindow
  isDegraded : Bool
  isAcceptingTasks : Bool

/-- What a node does that others can notice. -/
inductive GossipEvent (Addr : Type) : Type where
  /-- a newly numbered packet goes out -/
  | transmit (peer : Addr) (p : GossipPacket)
  /-- any other datagram goes out: a retry, an ACK, an unnumbered packet -/
  | send (peer : Addr) (d : GossipDatagram)
  /-- the route-learn callback is called -/
  | learn (src : Addr) (tokens : List TokenId) (backend : BackendId)
  /-- an announcement is refused because the cluster is degraded -/
  | refuse (src : Addr) (tokens : List TokenId) (backend : BackendId)
  /-- the cache-eviction callback is called -/
  | evict (src : Addr) (prefixHash : UInt64) (backend : BackendId)
  /-- an ACK clears a pending packet -/
  | clear (peer : Addr) (p : GossipPacket)
  deriving DecidableEq, Repr

/-- By its log a node has acted on a packet from `src`: a route was passed to
the route-learn callback, or refused because the node was degraded. -/
def Settled {Addr : Type} (src : Addr) (log : List (GossipEvent Addr)) (p : GossipPacket) : Prop :=
  match p.payload with
  | .route tokens backend => .learn src tokens backend ∈ log ∨ .refuse src tokens backend ∈ log
  | .eviction _ _ => True

section Node

variable {Addr : Type} [DecidableEq Addr]

/-- `next_seq_num`. -/
def nextSeqNum (node : GossipNode Addr) (peer : Addr) : GossipNode Addr × UInt32 :=
  match node.peerSeqCounters.lookup peer with
  | some counter =>
    ({ node with peerSeqCounters := node.peerSeqCounters.insert peer (counter + 1) }, counter + 1)
  | none =>
    -- at capacity the counters of former peers go first
    let counters :=
      if maxDedupPeers ≤ node.peerSeqCounters.keys.length then
        node.peerSeqCounters.keys.foldl
          (fun m a => if a ∈ node.peerAddresses then m else m.erase a) node.peerSeqCounters
      else node.peerSeqCounters
    if maxDedupPeers ≤ counters.keys.length then ({ node with peerSeqCounters := counters }, 0)
    else ({ node with peerSeqCounters := counters.insert peer 1 }, 1)

/-- The pending packets of a peer. -/
def GossipNode.pendingOf (node : GossipNode Addr) (peer : Addr) :
    AList fun _ : UInt32 => PendingAck :=
  (node.pendingAcks.lookup peer).getD ∅

/-- The body of the per-peer loop in `broadcast_route` and
`broadcast_cache_eviction`. -/
def sendReliable (cfg : GossipConfig) (now : ℕ) (payload : GossipPayload) (node : GossipNode Addr)
    (peer : Addr) : GossipNode Addr × List (GossipEvent Addr) :=
  if cfg.gossipReliableDelivery then
    let r := nextSeqNum node peer
    let node := r.1
    let packet : GossipPacket := ⟨r.2, payload⟩
    let node :=
      if maxPendingAcks ≤ node.pendingAcksCount then node
      else
        { node with
          pendingAcks := node.pendingAcks.insert peer
            ((node.pendingOf peer).insert r.2 ⟨packet, now + cfg.gossipAckTimeout, 0⟩)
          pendingAcksCount := node.pendingAcksCount + 1 }
    (node, [.transmit peer packet])
  else (node, [.send peer (.packet ⟨0, payload⟩)])

/-- The loop over the peers. -/
def sendToPeers (cfg : GossipConfig) (now : ℕ) (payload : GossipPayload) :
    List Addr → GossipNode Addr → GossipNode Addr × List (GossipEvent Addr)
  | [], node => (node, [])
  | peer :: peers, node =>
    let r := sendReliable cfg now payload node peer
    let rest := sendToPeers cfg now payload peers r.1
    (rest.1, r.2 ++ rest.2)

/-- `broadcast_route`: the wire carries at most `MAX_TOKENS` tokens. -/
def broadcastRoute (cfg : GossipConfig) (now : ℕ) (tokens : List TokenId) (backend : BackendId)
    (node : GossipNode Addr) : GossipNode Addr × List (GossipEvent Addr) :=
  if !node.isAcceptingTasks then (node, [])
  else if cfg.quorumEnabled && node.isDegraded && !cfg.failOpenOnQuorumLoss &&
      cfg.rejectRoutesOnQuorumLoss then (node, [])
  else
    sendToPeers cfg now (.route (tokens.take maxAnnouncedTokens) backend) node.peerAddresses node

/-- `broadcast_cache_eviction`. -/
def broadcastCacheEviction (cfg : GossipConfig) (now : ℕ) (prefixHash : UInt64)
    (backend : BackendId) (node : GossipNode Addr) : GossipNode Addr × List (GossipEvent Addr) :=
  if !node.isAcceptingTasks then (node, [])
  else sendToPeers cfg now (.eviction prefixHash backend) node.peerAddresses node

/-- `while (seq_window.size() > gossip_dedup_window)` drop the oldest. -/
def slideWindow (gossipDedupWindow : ℕ) : List UInt32 → Finset UInt32 → SeqWindow
  | [], seqSet => ⟨[], seqSet⟩
  | oldest :: window, seqSet =>
    if gossipDedupWindow < (oldest :: window).length then
      slideWindow gossipDedupWindow window (seqSet.erase oldest)
    else ⟨oldest :: window, seqSet⟩

/-- `is_duplicate`: the verdict, and the node with the number noted. -/
def isDuplicate (cfg : GossipConfig) (node : GossipNode Addr) (peer : Addr) (seqNum : UInt32) :
    GossipNode Addr × Bool :=
  match node.receivedSeqs.lookup peer with
  | some w =>
    if seqNum ∈ w.seqSet then (node, true)
    else
      let w := slideWindow cfg.gossipDedupWindow (w.window ++ [seqNum]) (insert seqNum w.seqSet)
      ({ node with receivedSeqs := node.receivedSeqs.insert peer w }, false)
  | none =>
    if maxDedupPeers ≤ node.receivedSeqs.keys.length then (node, false)
    else ({ node with receivedSeqs := node.receivedSeqs.insert peer ⟨[seqNum], {seqNum}⟩ }, false)

/-- `handle_ack`. -/
def handleAck (node : GossipNode Addr) (peer : Addr) (seqNum : UInt32) :
    GossipNode Addr × List (GossipEvent Addr) :=
  match (node.pendingOf peer).lookup seqNum with
  | none => (node, [])
  | some pending =>
    let rest := (node.pendingOf peer).erase seqNum
    ({ node with
       pendingAcks :=
         if rest.entries = [] then node.pendingAcks.erase peer else node.pendingAcks.insert peer rest
       pendingAcksCount := node.pendingAcksCount - 1 }, [.clear peer pending.packet])

/-- The duplicate check, made only under reliable delivery. -/
def checkDuplicate (cfg : GossipConfig) (node : GossipNode Addr) (src : Addr) (seqNum : UInt32) :
    GossipNode Addr × Bool :=
  if cfg.gossipReliableDelivery then isDuplicate cfg node src seqNum else (node, false)

/-- `send_ack`, made only under reliable delivery. -/
def ackEvents (cfg : GossipConfig) (src : Addr) (seqNum : UInt32) : List (GossipEvent Addr) :=
  if cfg.gossipReliableDelivery then [.send src (.ack seqNum)] else []

/-- `handle_packet` on the packets of reliable delivery. -/
def handlePacket (cfg : GossipConfig) (node : GossipNode Addr) (src : Addr) (d : GossipDatagram) :
    GossipNode Addr × List (GossipEvent Addr) :=
  if src ∉ node.peerAddresses then (node, [])
  else
    match d with
    | .ack seqNum => handleAck node src seqNum
    | .packet ⟨seqNum, .eviction prefixHash backend⟩ =>
      let r := checkDuplicate cfg node src seqNum
      if r.2 then (r.1, ackEvents cfg src seqNum)
      else (r.1, ackEvents cfg src seqNum ++ [.evict src prefixHash backend])
    | .packet ⟨seqNum, .route tokens backend⟩ =>
      let r := checkDuplicate cfg node src seqNum
      if r.2 then (r.1, ackEvents cfg src seqNum)
      else if cfg.quorumEnabled && node.isDegraded && !cfg.acceptGossipOnQuorumLoss &&
          cfg.rejectRoutesOnQuorumLoss then
        (r.1, .refuse src tokens backend :: ackEvents cfg src seqNum)
      else (r.1, ackEvents cfg src seqNum ++ [.learn src tokens backend])

/-- `calculate_backoff`. -/
def calculateBackoff (cfg : GossipConfig) (retryCount : ℕ) : ℕ :=
  min (cfg.gossipAckTimeout * 2 ^ min retryCount 3) (cfg.gossipAckTimeout * 8)

/-- One peer's turn in `process_retries`: due packets are sent again, or given
up after `gossip_max_retries`. -/
def retryPeer (cfg : GossipConfig) (now : ℕ) (peer : Addr) (node : GossipNode Addr) :
    GossipNode Addr × List (GossipEvent Addr) :=
  let pending := node.pendingOf peer
  let due := pending.entries.filter fun e => e.2.nextRetry ≤ now
  let toRemove := due.filter fun e => cfg.gossipMaxRetries ≤ e.2.retryCount
  let toRetry := due.filter fun e => e.2.retryCount < cfg.gossipMaxRetries
  let retried := toRetry.foldl (fun m e => m.insert e.1
    ⟨e.2.packet, now + calculateBackoff cfg (e.2.retryCount + 1), e.2.retryCount + 1⟩) pending
  let rest := toRemove.foldl (fun m e => m.erase e.1) retried
  ({ node with
     pendingAcks :=
       if rest.entries = [] then node.pendingAcks.erase peer else node.pendingAcks.insert peer rest
     pendingAcksCount := node.pendingAcksCount - toRemove.length.toUInt64 },
   toRetry.map fun e => .send peer (.packet e.2.packet))

/-- `cleanup_peer_state`. -/
def cleanupPeerState (node : GossipNode Addr) (peer : Addr) : GossipNode Addr :=
  { node with
    pendingAcksCount := node.pendingAcksCount - (node.pendingOf peer).keys.length.toUInt64
    pendingAcks := node.pendingAcks.erase peer
    peerSeqCounters := node.peerSeqCounters.erase peer
    receivedSeqs := node.receivedSeqs.erase peer }

/-- The end of `refresh_peers`: clean up after the peers that are gone, then
take the new list. -/
def refreshPeers (newPeers : List Addr) (node : GossipNode Addr) : GossipNode Addr :=
  let node := (node.peerAddresses.filter fun a => a ∉ newPeers).foldl cleanupPeerState node
  { node with peerAddresses := newPeers }

end Node

/-! ## Two nodes and the network between them -/

/-- The two nodes are told apart by a `Bool`. -/
structure GossipPair (Addr : Type) [DecidableEq Addr] : Type where
  nodes : Bool → GossipNode Addr
  /-- what each node has done, oldest first -/
  log : Bool → List (GossipEvent Addr)

/-- What can happen at a node. -/
inductive GossipAction (Addr : Type) : Type where
  | broadcastRoute (now : ℕ) (tokens : List TokenId) (backend : BackendId)
  | broadcastCacheEviction (now : ℕ) (prefixHash : UInt64) (backend : BackendId)
  /-- a datagram the other node sent arrives, possibly not for the first time -/
  | deliver (d : GossipDatagram)
  /-- a datagram of a third node arrives -/
  | deliverOther (src : Addr) (d : GossipDatagram)
  | retryPeer (now : ℕ) (peer : Addr)
  | refreshPeers (newPeers : List Addr)
  /-- the quorum state changes -/
  | setQuorum (isDegraded isAcceptingTasks : Bool)

/-- The setting of a pair: each node's options and address. -/
structure GossipSetting (Addr : Type) : Type where
  cfg : Bool → GossipConfig
  addr : Bool → Addr

section Pair

variable {Addr : Type} [DecidableEq Addr] (set : GossipSetting Addr)

namespace GossipPair

/-- A datagram went from node `s` to the other one. -/
def WasSent (w : GossipPair Addr) (s : Bool) (d : GossipDatagram) : Prop :=
  .send (set.addr !s) d ∈ w.log s ∨
    ∃ p, .transmit (set.addr !s) p ∈ w.log s ∧ d = .packet p

/-- The packets that node `s` has numbered for the other one. -/
def numbered (w : GossipPair Addr) (s : Bool) : List GossipPacket :=
  (w.log s).filterMap fun
    | .transmit peer p => if peer = set.addr !s then some p else none
    | _ => none

/-- Node `s` is replaced and its log extended. -/
def act (w : GossipPair Addr) (s : Bool)
    (r : GossipNode Addr × List (GossipEvent Addr)) : GossipPair Addr where
  nodes := Function.update w.nodes s r.1
  log := Function.update w.log s (w.log s ++ r.2)

instance (w : GossipPair Addr) (s : Bool) (d : GossipDatagram) : Decidable (w.WasSent set s d) :=
  match d with
  | .ack q =>
    decidable_of_iff (.send (set.addr !s) (.ack q) ∈ w.log s) (by simp [WasSent])
  | .packet p =>
    decidable_of_iff
      (.send (set.addr !s) (.packet p) ∈ w.log s ∨ .transmit (set.addr !s) p ∈ w.log s)
      (by simp [WasSent])

end GossipPair

/-- What an action makes the node do. -/
def nodeStep (cfg : GossipConfig) (other : Addr) (node : GossipNode Addr) :
    GossipAction Addr → GossipNode Addr × List (GossipEvent Addr)
  | .broadcastRoute now tokens backend => broadcastRoute cfg now tokens backend node
  | .broadcastCacheEviction now prefixHash backend =>
    broadcastCacheEviction cfg now prefixHash backend node
  | .deliver d => handlePacket cfg node other d
  | .deliverOther src d => handlePacket cfg node src d
  | .retryPeer now peer => retryPeer cfg now peer node
  | .refreshPeers newPeers => (refreshPeers newPeers node, [])
  | .setQuorum isDegraded isAcceptingTasks =>
    ({ node with isDegraded := isDegraded, isAcceptingTasks := isAcceptingTasks }, [])

/-- Only what was sent can arrive. -/
def gossipEnabled (w : GossipPair Addr) (s : Bool) : GossipAction Addr → Bool
  | .deliver d => w.WasSent set (!s) d
  | .deliverOther src _ => src ≠ set.addr !s
  | _ => true

/-- A step of the pair: an action at node `a.1`. -/
def gossipStep (w : GossipPair Addr) (a : Bool × GossipAction Addr) : Option (GossipPair Addr) :=
  if gossipEnabled set w a.1 a.2 then
    some (w.act a.1 (nodeStep (set.cfg a.1) (set.addr !a.1) (w.nodes a.1) a.2))
  else none

/-- The step gives no packet of node `s` a number that the other node was given
before. -/
def NumbersAreNew (s : Bool) (w : GossipPair Addr) (a : Bool × GossipAction Addr) : Prop :=
  ∀ w', gossipStep set w a = some w' → ((w'.numbered set s).map GossipPacket.seqNum).Nodup

instance (s : Bool) (w : GossipPair Addr) (a : Bool × GossipAction Addr) :
    Decidable (NumbersAreNew set s w a) :=
  match h : gossipStep set w a with
  | none => .isTrue fun w' hw' => by rw [h] at hw'; cases hw'
  | some w' =>
    decidable_of_iff ((w'.numbered set s).map GossipPacket.seqNum).Nodup
      ⟨fun hn w'' hw'' => by rw [h] at hw''; exact Option.some.inj hw'' ▸ hn, fun hn => hn w' h⟩

end Pair

/-! ## What one action does to the state kept for a peer -/

section Specs

variable {Addr : Type} [DecidableEq Addr] {cfg : GossipConfig} {now : ℕ}
  {node : GossipNode Addr} {peer X : Addr}

/-- The numbers a node remembers of a peer. -/
def GossipNode.seenFrom (node : GossipNode Addr) (peer : Addr) : Finset UInt32 :=
  ((node.receivedSeqs.lookup peer).map SeqWindow.seqSet).getD ∅

/-- The pending packets of `X` in `node'` are among those in `node`, up to their
retry bookkeeping, or were numbered by one of the `events`. -/
def PendingFrom (X : Addr) (node node' : GossipNode Addr) (events : List (GossipEvent Addr)) :
    Prop :=
  ∀ q pend', (node'.pendingOf X).lookup q = some pend' →
    (∃ pend, (node.pendingOf X).lookup q = some pend ∧ pend.packet = pend'.packet) ∨
      (pend'.packet.seqNum = q ∧ .transmit X pend'.packet ∈ events)

theorem PendingFrom.of_eq {node' : GossipNode Addr} {events : List (GossipEvent Addr)}
    (h : node'.pendingOf X = node.pendingOf X) : PendingFrom X node node' events := by
  intro q pend' hlook
  rw [h] at hlook
  exact .inl ⟨pend', hlook, rfl⟩

theorem PendingFrom.trans {node₁ node₂ : GossipNode Addr} {ev₁ ev₂ : List (GossipEvent Addr)}
    (h₁ : PendingFrom X node node₁ ev₁) (h₂ : PendingFrom X node₁ node₂ ev₂) :
    PendingFrom X node node₂ (ev₁ ++ ev₂) := by
  intro q pend₂ hlook
  rcases h₂ q pend₂ hlook with ⟨pend₁, hlook₁, hp₁⟩ | ⟨hq, hev⟩
  · rcases h₁ q pend₁ hlook₁ with ⟨pend, hlook₀, hp₀⟩ | ⟨hq, hev⟩
    · exact .inl ⟨pend, hlook₀, hp₀.trans hp₁⟩
    · rw [hp₁] at hq hev
      exact .inr ⟨hq, List.mem_append_left _ hev⟩
  · exact .inr ⟨hq, List.mem_append_right _ hev⟩

@[simp] theorem nextSeqNum_pendingAcks :
    (nextSeqNum node peer).1.pendingAcks = node.pendingAcks := by
  rw [nextSeqNum]
  split
  · rfl
  · dsimp only
    split_ifs <;> rfl

@[simp] theorem nextSeqNum_receivedSeqs :
    (nextSeqNum node peer).1.receivedSeqs = node.receivedSeqs := by
  rw [nextSeqNum]
  split
  · rfl
  · dsimp only
    split_ifs <;> rfl

@[simp] theorem nextSeqNum_pendingOf :
    (nextSeqNum node peer).1.pendingOf X = node.pendingOf X := by
  rw [GossipNode.pendingOf, nextSeqNum_pendingAcks, GossipNode.pendingOf]

theorem sendReliable_pending {payload : GossipPayload} :
    PendingFrom X node (sendReliable cfg now payload node peer).1
      (sendReliable cfg now payload node peer).2 := by
  rw [sendReliable]
  split
  · dsimp only
    split
    · exact .of_eq nextSeqNum_pendingOf
    · intro q pend hlook
      have hpend : (node.pendingOf X).lookup q = some pend ∨
          (X = peer ∧ q = (nextSeqNum node peer).2 ∧
            pend = ⟨⟨(nextSeqNum node peer).2, payload⟩, now + cfg.gossipAckTimeout, 0⟩) := by
        rcases eq_or_ne X peer with rfl | hX
        · simp only [GossipNode.pendingOf, nextSeqNum_pendingAcks, AList.lookup_insert,
            Option.getD_some] at hlook
          rcases eq_or_ne q (nextSeqNum node X).2 with rfl | hq
          · rw [AList.lookup_insert] at hlook
            exact .inr ⟨rfl, rfl, (Option.some.inj hlook).symm⟩
          · rw [AList.lookup_insert_ne hq] at hlook
            exact .inl hlook
        · simp only [GossipNode.pendingOf, nextSeqNum_pendingAcks, AList.lookup_insert_ne hX]
            at hlook
          exact .inl hlook
      rcases hpend with hold | ⟨rfl, rfl, rfl⟩
      · exact .inl ⟨pend, hold, rfl⟩
      · exact .inr ⟨rfl, List.mem_singleton_self _⟩
  · exact .of_eq rfl

@[simp] theorem sendReliable_receivedSeqs {payload : GossipPayload} :
    (sendReliable cfg now payload node peer).1.receivedSeqs = node.receivedSeqs := by
  rw [sendReliable]
  split
  · dsimp only
    split
    · exact nextSeqNum_receivedSeqs
    · exact nextSeqNum_receivedSeqs
  · rfl

/-- A broadcast numbers a packet for each peer, or sends it without a number. -/
theorem sendReliable_events {payload : GossipPayload} {e : GossipEvent Addr}
    (he : e ∈ (sendReliable cfg now payload node peer).2) :
    (cfg.gossipReliableDelivery = true ∧ ∃ p, e = .transmit peer p) ∨
      (cfg.gossipReliableDelivery = false ∧ ∃ p, e = .send peer (.packet p)) := by
  rw [sendReliable] at he
  split at he
  · next h => exact .inl ⟨h, _, List.mem_singleton.mp he⟩
  · next h => exact .inr ⟨by simpa using h, _, List.mem_singleton.mp he⟩

theorem sendToPeers_pending {payload : GossipPayload} {peers : List Addr} :
    PendingFrom X node (sendToPeers cfg now payload peers node).1
      (sendToPeers cfg now payload peers node).2 := by
  induction peers generalizing node with
  | nil => exact .of_eq rfl
  | cons peer peers ih => exact sendReliable_pending.trans ih

@[simp] theorem sendToPeers_receivedSeqs {payload : GossipPayload} {peers : List Addr} :
    (sendToPeers cfg now payload peers node).1.receivedSeqs = node.receivedSeqs := by
  induction peers generalizing node with
  | nil => rfl
  | cons peer peers ih => exact ih.trans sendReliable_receivedSeqs

theorem sendToPeers_events {payload : GossipPayload} {peers : List Addr} {e : GossipEvent Addr}
    (he : e ∈ (sendToPeers cfg now payload peers node).2) :
    (cfg.gossipReliableDelivery = true ∧ ∃ peer p, e = .transmit peer p) ∨
      (cfg.gossipReliableDelivery = false ∧ ∃ peer p, e = .send peer (.packet p)) := by
  induction peers generalizing node with
  | nil => cases he
  | cons peer peers ih =>
    rcases List.mem_append.mp he with he | he
    · rcases sendReliable_events he with ⟨h, p, hp⟩ | ⟨h, p, hp⟩
      · exact .inl ⟨h, peer, p, hp⟩
      · exact .inr ⟨h, peer, p, hp⟩
    · exact ih he

theorem slideWindow_subset {W : ℕ} {window : List UInt32} {seqSet : Finset UInt32} :
    (slideWindow W window seqSet).seqSet ⊆ seqSet := by
  induction window generalizing seqSet with
  | nil => exact Finset.Subset.refl _
  | cons oldest window ih =>
    rw [slideWindow]
    split
    · exact ih.trans (Finset.erase_subset _ _)
    · exact Finset.Subset.refl _

@[simp] theorem isDuplicate_pendingAcks {q : UInt32} :
    (isDuplicate cfg node peer q).1.pendingAcks = node.pendingAcks := by
  rw [isDuplicate]
  split <;> split_ifs <;> rfl

/-- A number is a duplicate only if it was seen before. -/
theorem seenFrom_of_isDuplicate {q : UInt32} (h : (isDuplicate cfg node peer q).2 = true) :
    q ∈ node.seenFrom peer := by
  rw [isDuplicate] at h
  rw [GossipNode.seenFrom]
  split at h
  · next w hw =>
    split_ifs at h with hq
    · rw [hw]
      exact hq
  · split_ifs at h

theorem seenFrom_insert {w : SeqWindow} :
    GossipNode.seenFrom { node with receivedSeqs := node.receivedSeqs.insert peer w } X =
      if X = peer then w.seqSet else node.seenFrom X := by
  simp only [GossipNode.seenFrom]
  split
  · next h => rw [h, AList.lookup_insert, Option.map_some, Option.getD_some]
  · next h => rw [AList.lookup_insert_ne h]

/-- The check notes at most the number itself, and only for its sender. -/
theorem seenFrom_isDuplicate {q q' : UInt32}
    (h : q' ∈ (isDuplicate cfg node peer q).1.seenFrom X) :
    q' ∈ node.seenFrom X ∨ (X = peer ∧ q' = q ∧ (isDuplicate cfg node peer q).2 = false) := by
  rw [isDuplicate] at h ⊢
  split at h
  · next w hw =>
    split_ifs at h ⊢ with hq
    · exact .inl h
    · rw [seenFrom_insert] at h
      split at h
      · next hX =>
        rcases Finset.mem_insert.mp (slideWindow_subset h) with rfl | hold
        · exact .inr ⟨hX, rfl, rfl⟩
        · left
          rw [GossipNode.seenFrom, hX, hw]
          exact hold
      · exact .inl h
  · split_ifs at h ⊢ with hcap
    · exact .inl h
    · rw [seenFrom_insert] at h
      split at h
      · next hX => exact .inr ⟨hX, Finset.mem_singleton.mp h, rfl⟩
      · exact .inl h

@[simp] theorem checkDuplicate_pendingOf {q : UInt32} :
    (checkDuplicate cfg node peer q).1.pendingOf X = node.pendingOf X := by
  rw [checkDuplicate]
  split
  · rw [GossipNode.pendingOf, isDuplicate_pendingAcks, GossipNode.pendingOf]
  · rfl

theorem seenFrom_of_checkDuplicate {q : UInt32} (h : (checkDuplicate cfg node peer q).2 = true) :
    q ∈ node.seenFrom peer := by
  rw [checkDuplicate] at h
  split at h
  · exact seenFrom_of_isDuplicate h
  · cases h

theorem seenFrom_checkDuplicate {q q' : UInt32}
    (h : q' ∈ (checkDuplicate cfg node peer q).1.seenFrom X) :
    q' ∈ node.seenFrom X ∨ (X = peer ∧ q' = q ∧ (checkDuplicate cfg node peer q).2 = false) := by
  rw [checkDuplicate] at h ⊢
  split at h
  · next hr =>
    rw [if_pos hr]
    exact seenFrom_isDuplicate h
  · exact .inl h

omit [DecidableEq Addr] in
theorem mem_ackEvents {src : Addr} {q : UInt32} {e : GossipEvent Addr}
    (he : e ∈ ackEvents cfg src q) : e = .send src (.ack q) := by
  rw [ackEvents] at he
  split at he
  · exact List.mem_singleton.mp he
  · cases he

/-- What receiving the packet `p` from `src` may do: nothing to the pending
packets, note at most its number, acknowledge it for a number seen before or
for a packet acted on now. -/
structure Receipt (src : Addr) (p : GossipPacket) (node : GossipNode Addr)
    (r : GossipNode Addr × List (GossipEvent Addr)) : Prop where
  pending : ∀ X, r.1.pendingOf X = node.pendingOf X
  seen : ∀ X q, q ∈ r.1.seenFrom X →
    q ∈ node.seenFrom X ∨ (X = src ∧ q = p.seqNum ∧ Settled src r.2 p)
  events : ∀ e ∈ r.2,
    (e = .send src (.ack p.seqNum) ∧ (p.seqNum ∈ node.seenFrom src ∨ Settled src r.2 p)) ∨
      (∃ t b, e = .learn src t b) ∨ (∃ t b, e = .refuse src t b) ∨ ∃ h b, e = .evict src h b

/-- A duplicate is acknowledged and dropped. -/
theorem Receipt.of_duplicate {p : GossipPacket} {src : Addr}
    (hdup : (checkDuplicate cfg node src p.seqNum).2 = true) :
    Receipt src p node ((checkDuplicate cfg node src p.seqNum).1, ackEvents cfg src p.seqNum) where
  pending _ := checkDuplicate_pendingOf
  seen X q hq := by
    rcases seenFrom_checkDuplicate hq with hold | ⟨-, -, hnew⟩
    · exact .inl hold
    · rw [hdup] at hnew
      cases hnew
  events e he := .inl ⟨mem_ackEvents he, .inl (seenFrom_of_checkDuplicate hdup)⟩

/-- A new packet is noted, acknowledged and acted on. -/
theorem Receipt.of_new {p : GossipPacket} {src : Addr} {events : List (GossipEvent Addr)}
    (hsettled : Settled src events p)
    (hevents : ∀ e ∈ events, e = .send src (.ack p.seqNum) ∨ (∃ t b, e = .learn src t b) ∨
      (∃ t b, e = .refuse src t b) ∨ ∃ h b, e = .evict src h b) :
    Receipt src p node ((checkDuplicate cfg node src p.seqNum).1, events) where
  pending _ := checkDuplicate_pendingOf
  seen X q hq := by
    rcases seenFrom_checkDuplicate hq with hold | ⟨hX, hq, -⟩
    · exact .inl hold
    · exact .inr ⟨hX, hq, hsettled⟩
  events e he := by
    rcases hevents e he with hack | hother
    · exact .inl ⟨hack, .inr hsettled⟩
    · exact .inr hother

theorem handlePacket_receipt {p : GossipPacket} {src : Addr} :
    Receipt src p node (handlePacket cfg node src (.packet p)) := by
  obtain ⟨q, payload⟩ := p
  -- a duplicate is only acknowledged; a new packet is acted on first or last
  cases payload with
  | eviction prefixHash backend =>
    simp only [handlePacket]
    split
    · exact ⟨fun _ => rfl, fun _ _ h => .inl h, fun _ h => absurd h List.not_mem_nil⟩
    · split
      · next hdup => exact .of_duplicate hdup
      · refine .of_new trivial ?_
        intro e he
        rcases List.mem_append.mp he with he | he
        · exact .inl (mem_ackEvents he)
        · exact .inr (.inr (.inr ⟨_, _, List.mem_singleton.mp he⟩))
  | route tokens backend =>
    simp only [handlePacket]
    split
    · exact ⟨fun _ => rfl, fun _ _ h => .inl h, fun _ h => absurd h List.not_mem_nil⟩
    · split
      · next hdup => exact .of_duplicate hdup
      · split
        · refine .of_new (.inr List.mem_cons_self) ?_
          intro e he
          rcases List.mem_cons.mp he with rfl | he
          · exact .inr (.inr (.inl ⟨_, _, rfl⟩))
          · exact .inl (mem_ackEvents he)
        · refine .of_new (.inl (List.mem_append_right _ List.mem_cons_self)) ?_
          intro e he
          rcases List.mem_append.mp he with he | he
          · exact .inl (mem_ackEvents he)
          · exact .inr (.inl ⟨_, _, List.mem_singleton.mp he⟩)

/-- Replacing a peer's pending packets by some of them, up to bookkeeping. -/
theorem PendingFrom.of_rest {rest : AList fun _ : UInt32 => PendingAck} {count : UInt64}
    (hrest : ∀ q pend', rest.lookup q = some pend' →
      ∃ pend, (node.pendingOf peer).lookup q = some pend ∧ pend.packet = pend'.packet) :
    PendingFrom X node
      { node with
        pendingAcks :=
          if rest.entries = [] then node.pendingAcks.erase peer
          else node.pendingAcks.insert peer rest
        pendingAcksCount := count } [] := by
  intro q pend' hlook
  left
  rcases eq_or_ne X peer with rfl | hX
  · split at hlook
    · simp [GossipNode.pendingOf] at hlook
    · exact hrest q pend' (by simpa [GossipNode.pendingOf] using hlook)
  · refine ⟨pend', ?_, rfl⟩
    split at hlook
    · simpa [GossipNode.pendingOf, AList.lookup_erase_ne hX] using hlook
    · simpa [GossipNode.pendingOf, AList.lookup_insert_ne hX] using hlook

/-- Folding insertions that keep the packet, or erasures, over pending packets
leaves only packets that were pending. -/
theorem lookup_foldl_insert {pending m : AList fun _ : UInt32 => PendingAck}
    {l : List (Sigma fun _ : UInt32 => PendingAck)} {f : PendingAck → PendingAck}
    (hf : ∀ pend, (f pend).packet = pend.packet)
    (hl : ∀ e ∈ l, pending.lookup e.1 = some e.2)
    (hm : ∀ q pend', m.lookup q = some pend' →
      ∃ pend, pending.lookup q = some pend ∧ pend.packet = pend'.packet) :
    ∀ q pend', (l.foldl (fun m e => m.insert e.1 (f e.2)) m).lookup q = some pend' →
      ∃ pend, pending.lookup q = some pend ∧ pend.packet = pend'.packet := by
  induction l generalizing m with
  | nil => exact hm
  | cons e l ih =>
    refine ih (fun e' he' => hl e' (List.mem_cons_of_mem _ he')) ?_
    intro q pend' hlook
    rcases eq_or_ne q e.1 with rfl | hq
    · rw [AList.lookup_insert] at hlook
      refine ⟨e.2, hl e List.mem_cons_self, ?_⟩
      rw [← Option.some.inj hlook, hf]
    · rw [AList.lookup_insert_ne hq] at hlook
      exact hm q pend' hlook

theorem lookup_foldl_erase {pending m : AList fun _ : UInt32 => PendingAck}
    {l : List (Sigma fun _ : UInt32 => PendingAck)}
    (hm : ∀ q pend', m.lookup q = some pend' →
      ∃ pend, pending.lookup q = some pend ∧ pend.packet = pend'.packet) :
    ∀ q pend', (l.foldl (fun m e => m.erase e.1) m).lookup q = some pend' →
      ∃ pend, pending.lookup q = some pend ∧ pend.packet = pend'.packet := by
  induction l generalizing m with
  | nil => exact hm
  | cons e l ih =>
    refine ih ?_
    intro q pend' hlook
    rcases eq_or_ne q e.1 with rfl | hq
    · rw [AList.lookup_erase] at hlook
      cases hlook
    · rw [AList.lookup_erase_ne hq] at hlook
      exact hm q pend' hlook

theorem mem_pending_of_due {pending : AList fun _ : UInt32 => PendingAck}
    {e : Sigma fun _ : UInt32 => PendingAck} (he : e ∈ pending.entries) :
    pending.lookup e.1 = some e.2 :=
  AList.mem_lookup_iff.mpr he

theorem handleAck_pending {q : UInt32} :
    PendingFrom X node (handleAck node peer q).1 (handleAck node peer q).2 := by
  rw [handleAck]
  split
  · exact .of_eq rfl
  · refine PendingFrom.trans (.of_rest ?_) (.of_eq rfl)
    intro q' pend' hlook
    refine ⟨pend', ?_, rfl⟩
    rcases eq_or_ne q' q with rfl | hq
    · rw [AList.lookup_erase] at hlook
      cases hlook
    · rwa [AList.lookup_erase_ne hq] at hlook

theorem handleAck_receivedSeqs {q : UInt32} :
    (handleAck node peer q).1.receivedSeqs = node.receivedSeqs := by
  rw [handleAck]
  split <;> rfl

theorem handleAck_events {q : UInt32} {e : GossipEvent Addr} (he : e ∈ (handleAck node peer q).2) :
    ∃ pend, (node.pendingOf peer).lookup q = some pend ∧ e = .clear peer pend.packet := by
  rw [handleAck] at he
  split at he
  · cases he
  · next pend hpend => exact ⟨pend, hpend, List.mem_singleton.mp he⟩

theorem retryPeer_pending : PendingFrom X node (retryPeer cfg now peer node).1
    (retryPeer cfg now peer node).2 := by
  rw [retryPeer]
  refine PendingFrom.trans (.of_rest ?_) (.of_eq rfl)
  refine lookup_foldl_erase (lookup_foldl_insert (f := fun pend =>
    ⟨pend.packet, now + calculateBackoff cfg (pend.retryCount + 1), pend.retryCount + 1⟩)
    (fun _ => rfl) ?_ ?_)
  · intro e he
    exact mem_pending_of_due (List.mem_of_mem_filter (List.mem_of_mem_filter he))
  · intro q pend hlook
    exact ⟨pend, hlook, rfl⟩

theorem retryPeer_events {e : GossipEvent Addr} (he : e ∈ (retryPeer cfg now peer node).2) :
    ∃ q pend, (node.pendingOf peer).lookup q = some pend ∧
      e = .send peer (.packet pend.packet) := by
  obtain ⟨entry, hentry, rfl⟩ := List.mem_map.mp he
  exact ⟨entry.1, entry.2,
    mem_pending_of_due (List.mem_of_mem_filter (List.mem_of_mem_filter hentry)), rfl⟩

/-- Peers that are cleaned up lose what was kept for them; the others keep it. -/
theorem cleanup_foldl (X : Addr) (node : GossipNode Addr) (peers : List Addr) :
    PendingFrom X node (peers.foldl cleanupPeerState node) [] ∧
      ∀ q, q ∈ (peers.foldl cleanupPeerState node).seenFrom X → q ∈ node.seenFrom X := by
  induction peers generalizing node with
  | nil => exact ⟨.of_eq rfl, fun _ h => h⟩
  | cons peer peers ih =>
    obtain ⟨hpend, hseen⟩ := ih (cleanupPeerState node peer)
    have hone : PendingFrom X node (cleanupPeerState node peer) [] := by
      rcases eq_or_ne X peer with rfl | hX
      · intro q pend hlook
        simp [cleanupPeerState, GossipNode.pendingOf] at hlook
      · refine .of_eq ?_
        simp [cleanupPeerState, GossipNode.pendingOf, AList.lookup_erase_ne hX]
    refine ⟨hone.trans hpend, ?_⟩
    intro q hq
    have hq := hseen q hq
    rcases eq_or_ne X peer with rfl | hX
    · simp [cleanupPeerState, GossipNode.seenFrom] at hq
    · simpa [cleanupPeerState, GossipNode.seenFrom, AList.lookup_erase_ne hX] using hq

/-- **What one action does, seen from a peer `X`** (the other node of the pair):
every pending packet was pending before or is numbered now; a number is noted
only for a packet that is acted on; acknowledgements, retries and clearings
have their cause in the state before. -/
structure StepSpec (cfg : GossipConfig) (X : Addr) (node : GossipNode Addr)
    (a : GossipAction Addr) (r : GossipNode Addr × List (GossipEvent Addr)) : Prop where
  pending : PendingFrom X node r.1 r.2
  seen : ∀ q, q ∈ r.1.seenFrom X → q ∈ node.seenFrom X ∨
    ∃ p, a = .deliver (.packet p) ∧ p.seqNum = q ∧ Settled X r.2 p
  acks : ∀ q, .send X (.ack q) ∈ r.2 →
    ∃ p, a = .deliver (.packet p) ∧ p.seqNum = q ∧ (q ∈ node.seenFrom X ∨ Settled X r.2 p)
  packets : ∀ p, .send X (.packet p) ∈ r.2 → cfg.gossipReliableDelivery = false ∨
    ∃ q pend, (node.pendingOf X).lookup q = some pend ∧ pend.packet = p
  transmits : ∀ p, .transmit X p ∈ r.2 → cfg.gossipReliableDelivery = true
  clears : ∀ p, .clear X p ∈ r.2 → ∃ q pend, a = .deliver (.ack q) ∧
    (node.pendingOf X).lookup q = some pend ∧ pend.packet = p

theorem StepSpec.of_broadcast {payload : GossipPayload} {peers : List Addr}
    {a : GossipAction Addr} :
    StepSpec cfg X node a (sendToPeers cfg now payload peers node) where
  pending := sendToPeers_pending
  seen q hq := by
    rw [GossipNode.seenFrom, sendToPeers_receivedSeqs] at hq
    exact .inl hq
  acks q he := by
    rcases sendToPeers_events he with ⟨-, _, _, h⟩ | ⟨-, _, _, h⟩ <;> cases h
  packets p he := by
    rcases sendToPeers_events he with ⟨-, _, _, h⟩ | ⟨hoff, -⟩
    · cases h
    · exact .inl hoff
  transmits p he := by
    rcases sendToPeers_events he with ⟨hon, -⟩ | ⟨-, _, _, h⟩
    · exact hon
    · cases h
  clears p he := by
    rcases sendToPeers_events he with ⟨-, _, _, h⟩ | ⟨-, _, _, h⟩ <;> cases h

/-- An action that does nothing for `X`. -/
theorem StepSpec.of_quiet {a : GossipAction Addr} {node' : GossipNode Addr}
    (hpend : PendingFrom X node node' [])
    (hseen : ∀ q, q ∈ node'.seenFrom X → q ∈ node.seenFrom X) :
    StepSpec cfg X node a (node', []) where
  pending := hpend
  seen q hq := .inl (hseen q hq)
  acks _ he := absurd he List.not_mem_nil
  packets _ he := absurd he List.not_mem_nil
  transmits _ he := absurd he List.not_mem_nil
  clears _ he := absurd he List.not_mem_nil

theorem StepSpec.of_packet {src : Addr} {p : GossipPacket} {a : GossipAction Addr}
    (ha : X = src → a = .deliver (.packet p)) :
    StepSpec cfg X node a (handlePacket cfg node src (.packet p)) where
  pending := .of_eq (handlePacket_receipt.pending X)
  seen q hq := by
    rcases handlePacket_receipt.seen X q hq with hold | ⟨rfl, rfl, hset⟩
    · exact .inl hold
    · exact .inr ⟨p, ha rfl, rfl, hset⟩
  acks q he := by
    rcases handlePacket_receipt.events _ he with ⟨h, hcause⟩ | ⟨_, _, h⟩ | ⟨_, _, h⟩ | ⟨_, _, h⟩
    · obtain ⟨rfl, hd⟩ := GossipEvent.send.inj h
      obtain rfl := GossipDatagram.ack.inj hd
      exact ⟨p, ha rfl, rfl, hcause⟩
    all_goals cases h
  packets p' he := by
    rcases handlePacket_receipt.events _ he with ⟨h, -⟩ | ⟨_, _, h⟩ | ⟨_, _, h⟩ | ⟨_, _, h⟩ <;>
      cases h
  transmits p' he := by
    rcases handlePacket_receipt.events _ he with ⟨h, -⟩ | ⟨_, _, h⟩ | ⟨_, _, h⟩ | ⟨_, _, h⟩ <;>
      cases h
  clears p' he := by
    rcases handlePacket_receipt.events _ he with ⟨h, -⟩ | ⟨_, _, h⟩ | ⟨_, _, h⟩ | ⟨_, _, h⟩ <;>
      cases h

theorem StepSpec.of_ack {src : Addr} {q : UInt32} {a : GossipAction Addr}
    (ha : X = src → a = .deliver (.ack q)) :
    StepSpec cfg X node a (handlePacket cfg node src (.ack q)) := by
  simp only [handlePacket]
  split
  · exact .of_quiet (.of_eq rfl) fun _ h => h
  · exact {
      pending := handleAck_pending
      seen := fun q' hq => by
        rw [GossipNode.seenFrom, handleAck_receivedSeqs] at hq
        exact .inl hq
      acks := fun q' he => by
        obtain ⟨_, -, h⟩ := handleAck_events he
        cases h
      packets := fun p he => by
        obtain ⟨_, -, h⟩ := handleAck_events he
        cases h
      transmits := fun p he => by
        obtain ⟨_, -, h⟩ := handleAck_events he
        cases h
      clears := fun p he => by
        obtain ⟨pend, hpend, h⟩ := handleAck_events he
        obtain ⟨rfl, rfl⟩ := GossipEvent.clear.inj h
        exact ⟨q, pend, ha rfl, hpend, rfl⟩ }

/-- Every action of a node meets the specification. -/
theorem nodeStep_spec {a : GossipAction Addr}
    (hother : ∀ src d, a = .deliverOther src d → src ≠ X) :
    StepSpec cfg X node a (nodeStep cfg X node a) := by
  cases a with
  | broadcastRoute now tokens backend =>
    rw [nodeStep, broadcastRoute]
    split
    · exact .of_quiet (.of_eq rfl) fun _ h => h
    · split
      · exact .of_quiet (.of_eq rfl) fun _ h => h
      · exact .of_broadcast
  | broadcastCacheEviction now prefixHash backend =>
    rw [nodeStep, broadcastCacheEviction]
    split
    · exact .of_quiet (.of_eq rfl) fun _ h => h
    · exact .of_broadcast
  | deliver d =>
    cases d with
    | packet p => exact .of_packet fun _ => rfl
    | ack q => exact .of_ack fun _ => rfl
  | deliverOther src d =>
    have hne : X ≠ src := fun h => hother src d rfl h.symm
    cases d with
    | packet p => exact .of_packet fun h => absurd h hne
    | ack q => exact .of_ack fun h => absurd h hne
  | retryPeer now peer =>
    -- a retry sends what is pending and nothing else
    exact {
      pending := retryPeer_pending
      seen := fun q hq => .inl hq
      acks := fun q he => by
        obtain ⟨_, _, -, h⟩ := retryPeer_events he
        cases h
      packets := fun p he => by
        obtain ⟨q, pend, hpend, h⟩ := retryPeer_events he
        obtain ⟨rfl, hd⟩ := GossipEvent.send.inj h
        exact .inr ⟨q, pend, hpend, (GossipDatagram.packet.inj hd).symm⟩
      transmits := fun p he => by
        obtain ⟨_, _, -, h⟩ := retryPeer_events he
        cases h
      clears := fun p he => by
        obtain ⟨_, _, -, h⟩ := retryPeer_events he
        cases h }
  | refreshPeers newPeers =>
    -- peers that left lose their state, the others keep it
    obtain ⟨hpend, hseen⟩ :=
      cleanup_foldl X node (node.peerAddresses.filter fun a => a ∉ newPeers)
    exact .of_quiet hpend hseen
  | setQuorum isDegraded isAcceptingTasks => exact .of_quiet (.of_eq rfl) fun _ h => h

end Specs

/-! ## The pair -/

section PairInvariant

variable {Addr : Type} [DecidableEq Addr] {set : GossipSetting Addr}

omit [DecidableEq Addr] in
theorem Settled.mono {src : Addr} {log log' : List (GossipEvent Addr)} {p : GossipPacket}
    (h : Settled src log p) (hlog : ∀ e ∈ log, e ∈ log') : Settled src log' p := by
  rw [Settled] at h ⊢
  cases hp : p.payload with
  | eviction prefixHash backend => trivial
  | route tokens backend =>
    rw [hp] at h
    exact h.imp (hlog _) (hlog _)

theorem mem_numbered {w : GossipPair Addr} {s : Bool} {p : GossipPacket} :
    p ∈ w.numbered set s ↔ .transmit (set.addr !s) p ∈ w.log s := by
  rw [GossipPair.numbered, List.mem_filterMap]
  constructor
  · rintro ⟨e, he, hp⟩
    cases e with
    | transmit peer p' =>
      dsimp only at hp
      split at hp
      · next hpeer =>
        obtain rfl := Option.some.inj hp
        exact hpeer ▸ he
      · cases hp
    | _ => cases hp
  · intro he
    exact ⟨_, he, if_pos rfl⟩

/-- The node `s` numbered a packet with `q` for the other node, and the other
node has acted on it. -/
def Answered (set : GossipSetting Addr) (w : GossipPair Addr) (s : Bool) (q : UInt32) : Prop :=
  ∃ p ∈ w.numbered set s, p.seqNum = q ∧ Settled (set.addr s) (w.log !s) p

/-- The invariant of the direction from node `s` to the other one. -/
structure LinkInv (set : GossipSetting Addr) (w : GossipPair Addr) (s : Bool) : Prop where
  fresh : ((w.numbered set s).map GossipPacket.seqNum).Nodup
  pending : ∀ q pend, ((w.nodes s).pendingOf (set.addr !s)).lookup q = some pend →
    pend.packet.seqNum = q ∧ pend.packet ∈ w.numbered set s
  resent : (set.cfg s).gossipReliableDelivery = true →
    ∀ p, .send (set.addr !s) (.packet p) ∈ w.log s → p ∈ w.numbered set s
  seen : (set.cfg s).gossipReliableDelivery = true →
    ∀ q ∈ (w.nodes !s).seenFrom (set.addr s), Answered set w s q
  acks : (set.cfg s).gossipReliableDelivery = true →
    ∀ q, .send (set.addr s) (.ack q) ∈ w.log !s → Answered set w s q
  reliable : ∀ p ∈ w.numbered set s, (set.cfg s).gossipReliableDelivery = true
  cleared : ∀ p, .clear (set.addr !s) p ∈ w.log s → Settled (set.addr s) (w.log !s) p

section Act

variable {w : GossipPair Addr} {s : Bool} {r : GossipNode Addr × List (GossipEvent Addr)}

@[simp] theorem act_nodes_self : (w.act s r).nodes s = r.1 := Function.update_self ..

@[simp] theorem act_nodes_other : (w.act s r).nodes (!s) = w.nodes !s :=
  Function.update_of_ne (Bool.not_ne_self s) ..

@[simp] theorem act_log_self : (w.act s r).log s = w.log s ++ r.2 := Function.update_self ..

@[simp] theorem act_log_other : (w.act s r).log (!s) = w.log !s :=
  Function.update_of_ne (Bool.not_ne_self s) ..

end Act

/-- A step is an action of one node; what is delivered was sent before. -/
theorem gossipStep_cases {w w' : GossipPair Addr} {n : Bool} {a : GossipAction Addr}
    (h : gossipStep set w (n, a) = some w') :
    w' = w.act n (nodeStep (set.cfg n) (set.addr !n) (w.nodes n) a) ∧
      (∀ d, a = .deliver d → w.WasSent set (!n) d) ∧
      StepSpec (set.cfg n) (set.addr !n) (w.nodes n) a
        (nodeStep (set.cfg n) (set.addr !n) (w.nodes n) a) := by
  rw [gossipStep] at h
  split at h
  · next henabled =>
    refine ⟨(Option.some.inj h).symm, ?_, nodeStep_spec ?_⟩
    · rintro d rfl
      simpa [gossipEnabled] using henabled
    · rintro src d rfl
      simpa [gossipEnabled] using henabled
  · cases h

theorem Answered.mono {w w' : GossipPair Addr} {s : Bool} {q : UInt32} (h : Answered set w s q)
    (hown : ∀ e ∈ w.log s, e ∈ w'.log s) (hother : ∀ e ∈ w.log !s, e ∈ w'.log !s) :
    Answered set w' s q := by
  obtain ⟨p, hp, hq, hset⟩ := h
  exact ⟨p, mem_numbered.mpr (hown _ (mem_numbered.mp hp)), hq, hset.mono hother⟩

/-- The sender's own actions keep the invariant. -/
theorem LinkInv.step_sender {w w' : GossipPair Addr} {s : Bool} {a : GossipAction Addr}
    (hstep : gossipStep set w (s, a) = some w')
    (hfresh : ((w'.numbered set s).map GossipPacket.seqNum).Nodup) (hinv : LinkInv set w s) :
    LinkInv set w' s := by
  obtain ⟨rfl, hsent, hspec⟩ := gossipStep_cases hstep
  generalize nodeStep (set.cfg s) (set.addr !s) (w.nodes s) a = r at hfresh hspec ⊢
  have hown : ∀ e ∈ w.log s, e ∈ (w.act s r).log s := by
    intro e he
    rw [act_log_self]
    exact List.mem_append_left _ he
  have hother : ∀ e ∈ w.log !s, e ∈ (w.act s r).log !s := by
    intro e he
    rwa [act_log_other]
  have hnum : ∀ p ∈ w.numbered set s, p ∈ (w.act s r).numbered set s := by
    intro p hp
    exact mem_numbered.mpr (hown _ (mem_numbered.mp hp))
  refine ⟨hfresh, ?_, ?_, ?_, ?_, ?_, ?_⟩
  · intro q pend hlook
    rw [act_nodes_self] at hlook
    rcases hspec.pending q pend hlook with ⟨pend₀, hlook₀, hp⟩ | ⟨hq, he⟩
    · obtain ⟨hq, hmem⟩ := hinv.pending q pend₀ hlook₀
      rw [hp] at hq hmem
      exact ⟨hq, hnum _ hmem⟩
    · refine ⟨hq, mem_numbered.mpr ?_⟩
      rw [act_log_self]
      exact List.mem_append_right _ he
  · intro hrel p he
    rw [act_log_self] at he
    rcases List.mem_append.mp he with he | he
    · exact hnum p (hinv.resent hrel p he)
    · rcases hspec.packets p he with hoff | ⟨q, pend, hlook, rfl⟩
      · rw [hrel] at hoff
        cases hoff
      · exact hnum _ (hinv.pending q pend hlook).2
  · intro hrel q hq
    rw [act_nodes_other] at hq
    exact (hinv.seen hrel q hq).mono hown hother
  · intro hrel q he
    rw [act_log_other] at he
    exact (hinv.acks hrel q he).mono hown hother
  · intro p hp
    rw [mem_numbered, act_log_self] at hp
    rcases List.mem_append.mp hp with he | he
    · exact hinv.reliable p (mem_numbered.mpr he)
    · exact hspec.transmits p he
  · intro p he
    rw [act_log_self] at he
    rw [act_log_other]
    rcases List.mem_append.mp he with he | he
    · exact hinv.cleared p he
    · -- the ACK was sent for some packet under this number, and there is only one
      obtain ⟨q, pend, rfl, hlook, rfl⟩ := hspec.clears p he
      obtain ⟨hq, hmem⟩ := hinv.pending q pend hlook
      have hack : .send (set.addr s) (.ack q) ∈ w.log !s := by
        rcases hsent _ rfl with h | ⟨p', -, h⟩
        · rwa [Bool.not_not] at h
        · cases h
      obtain ⟨p', hmem', hq', hset⟩ := hinv.acks (hinv.reliable _ hmem) q hack
      have heq : p' = pend.packet :=
        List.inj_on_of_nodup_map hinv.fresh hmem' hmem (hq'.trans hq.symm)
      exact heq ▸ hset

/-- So do the receiver's. -/
theorem LinkInv.step_receiver {w w' : GossipPair Addr} {s : Bool} {a : GossipAction Addr}
    (hstep : gossipStep set w (!s, a) = some w') (hinv : LinkInv set w s) :
    LinkInv set w' s := by
  obtain ⟨rfl, hsent, hspec⟩ := gossipStep_cases hstep
  generalize nodeStep (set.cfg !s) (set.addr !!s) (w.nodes !s) a = r at hspec ⊢
  rw [Bool.not_not] at hspec
  have hlog : (w.act (!s) r).log s = w.log s := by
    have h := act_log_other (w := w) (s := !s) (r := r)
    rwa [Bool.not_not] at h
  have hnodes : (w.act (!s) r).nodes s = w.nodes s := by
    have h := act_nodes_other (w := w) (s := !s) (r := r)
    rwa [Bool.not_not] at h
  have hnum : (w.act (!s) r).numbered set s = w.numbered set s := by
    rw [GossipPair.numbered, GossipPair.numbered, hlog]
  have hown : ∀ e ∈ w.log s, e ∈ (w.act (!s) r).log s := by
    intro e he
    rwa [hlog]
  have hother : ∀ e ∈ w.log !s, e ∈ (w.act (!s) r).log !s := by
    intro e he
    rw [act_log_self]
    exact List.mem_append_left _ he
  -- a delivered packet is one the sender numbered, once it numbers its packets
  have hdelivered : (set.cfg s).gossipReliableDelivery = true → ∀ p, a = .deliver (.packet p) →
      p ∈ w.numbered set s := by
    intro hrel p ha
    have hwas := hsent _ ha
    rw [GossipPair.WasSent, Bool.not_not] at hwas
    rcases hwas with h | ⟨p', h, heq⟩
    · exact hinv.resent hrel p h
    · rw [GossipDatagram.packet.inj heq]
      exact mem_numbered.mpr h
  have hanswered : (set.cfg s).gossipReliableDelivery = true → ∀ p, a = .deliver (.packet p) →
      Settled (set.addr s) r.2 p → Answered set (w.act (!s) r) s p.seqNum := by
    intro hrel p ha hset
    refine ⟨p, hnum ▸ hdelivered hrel p ha, rfl, hset.mono ?_⟩
    intro e he
    rw [act_log_self]
    exact List.mem_append_right _ he
  refine ⟨?_, ?_, ?_, ?_, ?_, ?_, ?_⟩
  · rw [hnum]
    exact hinv.fresh
  · rw [hnum, hnodes]
    exact hinv.pending
  · rw [hnum, hlog]
    exact hinv.resent
  · intro hrel q hq
    rw [act_nodes_self] at hq
    rcases hspec.seen q hq with hold | ⟨p, ha, rfl, hset⟩
    · exact (hinv.seen hrel q hold).mono hown hother
    · exact hanswered hrel p ha hset
  · intro hrel q he
    rw [act_log_self] at he
    rcases List.mem_append.mp he with he | he
    · exact (hinv.acks hrel q he).mono hown hother
    · obtain ⟨p, ha, rfl, hseen | hset⟩ := hspec.acks q he
      · exact (hinv.seen hrel _ hseen).mono hown hother
      · exact hanswered hrel p ha hset
  · rw [hnum]
    exact hinv.reliable
  · intro p he
    rw [hlog] at he
    exact (hinv.cleared p he).mono hother

/-- Two nodes that know nothing of each other yet. -/
structure GossipPair.Start (set : GossipSetting Addr) (w : GossipPair Addr) : Prop where
  log : ∀ s, w.log s = []
  pending : ∀ s, (w.nodes s).pendingOf (set.addr !s) = ∅
  seen : ∀ s, (w.nodes s).seenFrom (set.addr !s) = ∅

theorem LinkInv.of_start {w : GossipPair Addr} (h : w.Start set) (s : Bool) :
    LinkInv set w s := by
  have hseen : (w.nodes !s).seenFrom (set.addr s) = ∅ := by
    have := h.seen !s
    rwa [Bool.not_not] at this
  refine ⟨?_, ?_, ?_, ?_, ?_, ?_, ?_⟩
  all_goals simp [GossipPair.numbered, h.log, h.pending, hseen]

/-- **Acknowledged means learned.** Take two nodes that start without knowledge
of each other, and any run of broadcasts, retries, quorum changes, peer-list
changes and deliveries (lost, repeated, reordered) in which node `s` never
numbers two packets for the other node alike. Whenever an ACK clears a pending
announcement of `s`, the other node has passed its tokens and backend to the
route-learn callback, or refused it because it was degraded. -/
theorem cleared_was_learned {set : GossipSetting Addr} {w₀ w : GossipPair Addr}
    {acts : List (Bool × GossipAction Addr)} (s : Bool) (hstart : w₀.Start set)
    (hnew : Meets (gossipStep set) (NumbersAreNew set s) w₀ acts)
    (hexec : exec (gossipStep set) w₀ acts = some w) (q : UInt32)
    (tokens : List TokenId) (backend : BackendId)
    (hclear : .clear (set.addr !s) ⟨q, .route tokens backend⟩ ∈ w.log s) :
    .learn (set.addr s) tokens backend ∈ w.log (!s) ∨
      .refuse (set.addr s) tokens backend ∈ w.log (!s) := by
  have hinv : LinkInv set w s := by
    refine exec_invariant (I := fun _ w => LinkInv set w s) (h := []) ?_ hnew hexec
      (.of_start hstart s)
    rintro - w ⟨n, a⟩ w' hok hstep hinv
    obtain rfl | rfl : n = s ∨ n = !s := by
      cases n <;> cases s <;> simp
    · exact hinv.step_sender hstep (hok w' hstep)
    · exact hinv.step_receiver hstep
  exact hinv.cleared _ hclear

end PairInvariant

/-! ## Numbers that restart -/

/-- Two nodes at the addresses 1 and 2 with the default options. -/
def gossipSetting : GossipSetting ℕ where
  cfg := fun _ => ⟨true, 1000, 3, 100, false, false, false, false⟩
  addr := fun s => if s then 2 else 1

/-- Each node knows the other's address and nothing else. -/
def gossipStart : GossipPair ℕ where
  nodes := fun s => ⟨[if s then 1 else 2], ∅, 0, ∅, ∅, false, true⟩
  log := fun _ => []

/-- Node 1 announces a route, and the acknowledgement returns. -/
def announced : List (Bool × GossipAction ℕ) :=
  [(false, .broadcastRoute 0 [5] 7), (true, .deliver (.packet ⟨1, .route [5] 7⟩)),
    (false, .deliver (.ack 1))]

/-- Afterwards discovery replaces node 2 by another peer and lists it again
later; the next announcement gets the number 1 once more. -/
def announcedAgain : List (Bool × GossipAction ℕ) :=
  announced ++ [(false, GossipAction.refreshPeers [3]), (false, .refreshPeers [3, 2]),
    (false, .broadcastRoute 0 [6] 9), (true, .deliver (.packet ⟨1, .route [6] 9⟩)),
    (false, .deliver (.ack 1))]

theorem gossipStart_start : gossipStart.Start gossipSetting where
  log _ := rfl
  pending s := by cases s <;> rfl
  seen s := by cases s <;> rfl

/-- The second announcement is acknowledged and cleared, yet node 2 neither
learned nor refused it. -/
theorem cleared_without_learning :
    ∃ w, exec (gossipStep gossipSetting) gossipStart announcedAgain = some w ∧
      gossipStart.Start gossipSetting ∧
      .clear 2 ⟨1, .route [6] 9⟩ ∈ w.log false ∧
      .learn 1 [6] 9 ∉ w.log true ∧ .refuse 1 [6] 9 ∉ w.log true := by
  refine ⟨_, exec_eq_some_getD (by decide), gossipStart_start, ?_⟩
  decide

theorem cleared_was_learned_announced :
    ∃ w, exec (gossipStep gossipSetting) gossipStart announced = some w ∧
      (.learn 1 [5] 7 ∈ w.log true ∨ .refuse 1 [5] 7 ∈ w.log true) := by
  have hsome : (exec (gossipStep gossipSetting) gossipStart announced).isSome := by decide
  have hexec := exec_eq_some_getD hsome
  refine ⟨_, hexec, ?_⟩
  exact cleared_was_learned false gossipStart_start (by decide) hexec 1 [5] 7
    (by decide)

end Ranvier
