import Ranvier.Gossip
import Ranvier.MapTotal

/-!
# The counter of pending acknowledgements

`_stats_pending_acks_count` is kept by hand beside the per-peer maps: it is written
where a packet becomes pending, where an acknowledgement or a retry pass removes one,
and where a peer's state or everything is cleared. A retry pass goes through the peers
with an iterator and yields after each `kYieldInterval` of them, and whatever else the
node does may then happen before it goes on.

* `AckState`, `AckState.step` — a node with the retry passes that are suspended;
* `Balanced` — the **invariant**: the counter is the number of pending packets;
* `pending_count_kept` — it holds in every run in which no packet gets the number of a
  packet that is still pending, and no pass goes on from an entry that was erased or
  moved meanwhile;
* `pending_count_drifts` — numbers start over after 2³² packets.
-/

namespace Ranvier

open MapTotal

section Definitions

variable {Addr : Type} [DecidableEq Addr]

/-! ## Retry passes -/

/-- One peer's turn in `process_retries`: due packets are sent again, or given up after
`gossip_max_retries`. The peer's entry stays, even if nothing is left in it. -/
def visitPeer (cfg : GossipConfig) (now : ℕ) (node : GossipNode Addr) (peer : Addr) :
    GossipNode Addr :=
  let pending := node.pendingOf peer
  let due := pending.entries.filter fun e => e.2.nextRetry ≤ now
  let toRemove := due.filter fun e => cfg.gossipMaxRetries ≤ e.2.retryCount
  let toRetry := due.filter fun e => e.2.retryCount < cfg.gossipMaxRetries
  let retried := toRetry.foldl (fun m e => m.insert e.1
    ⟨e.2.packet, now + calculateBackoff cfg (e.2.retryCount + 1), e.2.retryCount + 1⟩) pending
  { node with
    pendingAcks := node.pendingAcks.insert peer (toRemove.foldl (fun m e => m.erase e.1) retried)
    pendingAcksCount := node.pendingAcksCount - toRemove.length.toUInt64 }

/-- The end of `process_retries`: entries without packets go. -/
def dropEmptyEntries (node : GossipNode Addr) : GossipNode Addr :=
  { node with
    pendingAcks := node.pendingAcks.keys.foldl
      (fun m peer => if ((m.lookup peer).getD ∅).entries = [] then m.erase peer else m)
      node.pendingAcks }

/-- `clear_pending_acks`, and what `stop` does to them. -/
def clearPendingAcks (node : GossipNode Addr) : GossipNode Addr :=
  { node with pendingAcks := ∅, pendingAcksCount := 0 }

/-- A suspended `process_retries`. -/
structure RetryPass (Addr : Type) : Type where
  now : ℕ
  peersProcessed : ℕ
  /-- the entry its iterator points to -/
  peer : Addr
  /-- the entry has been neither erased nor moved by a rehash -/
  valid : Bool

/-- A node and the retry passes that are suspended. -/
structure AckState (Addr : Type) [DecidableEq Addr] : Type where
  node : GossipNode Addr
  passes : List (RetryPass Addr) := []

/-- What can happen. A hash map lists its entries in an order of its own and may rehash
when it gets a new one, so the peers a pass visits and the rehashes come with the
action; `wreck` is what a pass leaves behind that goes on with a bad iterator. -/
inductive AckAction (Addr : Type) [DecidableEq Addr] : Type where
  | broadcastRoute (now : ℕ) (tokens : List TokenId) (backend : BackendId) (rehash : Bool)
  | broadcastCacheEviction (now : ℕ) (prefixHash : UInt64) (backend : BackendId) (rehash : Bool)
  | receive (src : Addr) (d : GossipDatagram)
  | processRetries (now : ℕ) (visited : List Addr) (yields : Bool)
  | resumeRetries (pass : ℕ) (visited : List Addr) (yields : Bool) (wreck : GossipNode Addr)
  | cleanupPeerState (peer : Addr)
  | refreshPeers (newPeers : List Addr)
  | clearPendingAcks
  | setQuorum (isDegraded isAcceptingTasks : Bool)

namespace AckState

/-- The node changes; iterators to entries that are gone or moved are bad from now on. -/
def become (s : AckState Addr) (node : GossipNode Addr) (rehash : Bool) : AckState Addr where
  node := node
  passes := s.passes.map fun pass =>
    { pass with
      valid := pass.valid && decide (pass.peer ∈ node.pendingAcks) &&
        !(rehash && node.pendingAcks.keys.any fun peer => peer ∉ s.node.pendingAcks.keys) }

/-- A pass visits peers and then yields, or has come to the end of the map. -/
def visit (cfg : GossipConfig) (now peersProcessed : ℕ) (visited : List Addr) (yields : Bool)
    (s : AckState Addr) : Option (AckState Addr) :=
  if visited.Nodup ∧ ∀ peer ∈ visited, peer ∈ s.node.pendingAcks then
    let node := visited.foldl (visitPeer cfg now) s.node
    let processed := peersProcessed + visited.length
    if yields then
      match visited.getLast? with
      | some peer =>
        if processed % kYieldInterval = 0 then
          some { node := node, passes := s.passes ++ [⟨now, processed, peer, true⟩] }
        else none
      | none => none
    else some (s.become (dropEmptyEntries node) false)
  else none

/-- One action, if it can happen. -/
def step (cfg : GossipConfig) (s : AckState Addr) : AckAction Addr → Option (AckState Addr)
  | .broadcastRoute now tokens backend rehash =>
    some (s.become (broadcastRoute cfg now tokens backend s.node).1 rehash)
  | .broadcastCacheEviction now prefixHash backend rehash =>
    some (s.become (broadcastCacheEviction cfg now prefixHash backend s.node).1 rehash)
  | .receive src d => some (s.become (handlePacket cfg s.node src d).1 false)
  | .processRetries now visited yields => visit cfg now 0 visited yields s
  | .resumeRetries i visited yields wreck =>
    match s.passes[i]? with
    | none => none
    | some pass =>
      let s := { s with passes := s.passes.eraseIdx i }
      if pass.valid then visit cfg pass.now pass.peersProcessed visited yields s
      else some { s with node := wreck }
  | .cleanupPeerState peer => some (s.become (Ranvier.cleanupPeerState s.node peer) false)
  | .refreshPeers newPeers => some (s.become (Ranvier.refreshPeers newPeers s.node) false)
  | .clearPendingAcks => some (s.become (Ranvier.clearPendingAcks s.node) false)
  | .setQuorum isDegraded isAcceptingTasks =>
    some (s.become
      { s.node with isDegraded := isDegraded, isAcceptingTasks := isAcceptingTasks } false)

end AckState

/-! ## Conditions -/

/-- No packet that becomes pending in the loop over the peers gets the number of a packet
that is pending already. -/
def NumbersFree (cfg : GossipConfig) (now : ℕ) (payload : GossipPayload) :
    List Addr → GossipNode Addr → Prop
  | [], _ => True
  | peer :: peers, node =>
    (cfg.gossipReliableDelivery = true → node.pendingAcksCount < maxPendingAcks →
      (node.pendingOf peer).lookup (nextSeqNum node peer).2 = none) ∧
      NumbersFree cfg now payload peers (sendReliable cfg now payload node peer).1

/-- The broadcast of a route is not refused. -/
def routeGoesOut (cfg : GossipConfig) (node : GossipNode Addr) : Bool :=
  node.isAcceptingTasks && !(cfg.quorumEnabled && node.isDegraded && !cfg.failOpenOnQuorumLoss &&
    cfg.rejectRoutesOnQuorumLoss)

/-- What a step needs to keep the counter right. -/
def AckState.Orderly (cfg : GossipConfig) (s : AckState Addr) : AckAction Addr → Prop
  | .broadcastRoute now tokens backend _ =>
    routeGoesOut cfg s.node = true →
      NumbersFree cfg now (.route (tokens.take maxAnnouncedTokens) backend) s.node.peerAddresses
        s.node
  | .broadcastCacheEviction now prefixHash backend _ =>
    s.node.isAcceptingTasks = true →
      NumbersFree cfg now (.eviction prefixHash backend) s.node.peerAddresses s.node
  | .resumeRetries i _ _ _ => ∀ pass, s.passes[i]? = some pass → pass.valid = true
  | _ => True

/-- The number of pending packets of all peers. -/
def pendingTotal (node : GossipNode Addr) : ℕ :=
  total (fun _ pending => pending.keys.length) node.pendingAcks

/-- The counter is the number of pending packets, and there are not too many. -/
structure Balanced (node : GossipNode Addr) : Prop where
  count : node.pendingAcksCount.toNat = pendingTotal node
  cap : pendingTotal node ≤ maxPendingAcks.toNat

end Definitions

/-! ## One node -/

section Node

variable {Addr : Type} [DecidableEq Addr] {cfg : GossipConfig} {now : ℕ}
  {node node' : GossipNode Addr} {peer : Addr}

/-- The pending packets of one peer, and those of the others. -/
theorem pendingTotal_eq (node : GossipNode Addr) (peer : Addr) :
    pendingTotal node = (node.pendingOf peer).keys.length +
      total (fun _ pending => pending.keys.length) (node.pendingAcks.erase peer) := by
  rw [pendingTotal, total_eq_weightAt_add node.pendingAcks peer, GossipNode.pendingOf]
  cases hlookup : node.pendingAcks.lookup peer with
  | some pending => rw [weightAt_of_lookup hlookup, Option.getD_some]
  | none => rw [weightAt_of_none hlookup, Option.getD_none, AList.keys_empty, List.length_nil]

theorem Balanced.of_same (h : Balanced node) (hpending : node'.pendingAcks = node.pendingAcks)
    (hcount : node'.pendingAcksCount = node.pendingAcksCount) : Balanced node' := by
  have htotal : pendingTotal node' = pendingTotal node := by
    rw [pendingTotal, hpending, pendingTotal]
  exact ⟨by rw [hcount, htotal, h.count], by rw [htotal]; exact h.cap⟩

/-- The packets of a peer get fewer, and the counter goes down by as many. -/
theorem Balanced.replace (h : Balanced node) (peer : Addr)
    (rest : AList fun _ : UInt32 => PendingAck) (n : ℕ)
    (hpending : node'.pendingAcks = node.pendingAcks.insert peer rest ∨
      rest = ∅ ∧ node'.pendingAcks = node.pendingAcks.erase peer)
    (hcount : node'.pendingAcksCount = node.pendingAcksCount - n.toUInt64)
    (hrest : rest.keys.length + n = (node.pendingOf peer).keys.length) : Balanced node' := by
  have hsplit := pendingTotal_eq node peer
  have htotal : pendingTotal node' + n = pendingTotal node := by
    rcases hpending with hinsert | ⟨rfl, herase⟩
    · rw [pendingTotal, hinsert, total_insert]
      omega
    · rw [AList.keys_empty, List.length_nil] at hrest
      rw [pendingTotal, herase]
      omega
  have hcap : pendingTotal node ≤ 1000 := h.cap
  have hn : n.toUInt64.toNat = n := by
    rw [Nat.toUInt64_eq, UInt64.toNat_ofNat']
    omega
  have hle : n.toUInt64 ≤ node.pendingAcksCount := by
    rw [UInt64.le_iff_toNat_le, hn, h.count]
    omega
  constructor
  · rw [hcount, UInt64.toNat_sub_of_le _ _ hle, hn, h.count]
    omega
  · exact (by omega : pendingTotal node' ≤ 1000)

@[simp] theorem nextSeqNum_pendingAcksCount :
    (nextSeqNum node peer).1.pendingAcksCount = node.pendingAcksCount := by
  rw [nextSeqNum]
  split
  · rfl
  · dsimp only
    split_ifs <;> rfl

/-- A packet that becomes pending under a free number is counted once. -/
theorem Balanced.sendReliable {payload : GossipPayload} (h : Balanced node)
    (hfree : cfg.gossipReliableDelivery = true → node.pendingAcksCount < maxPendingAcks →
      (node.pendingOf peer).lookup (nextSeqNum node peer).2 = none) :
    Balanced (sendReliable cfg now payload node peer).1 := by
  rw [Ranvier.sendReliable]
  split
  · next hreliable =>
    dsimp only
    split
    · exact h.of_same nextSeqNum_pendingAcks nextSeqNum_pendingAcksCount
    · next hroom =>
      rw [nextSeqNum_pendingAcksCount, UInt64.not_le] at hroom
      have hnew := hfree hreliable hroom
      have hcount : node.pendingAcksCount.toNat < 1000 := UInt64.lt_iff_toNat_lt.mp hroom
      have hsplit := pendingTotal_eq node peer
      have hbefore := h.count
      have htotal : ∀ (node' : GossipNode Addr) (pend : PendingAck),
          node'.pendingAcks = node.pendingAcks.insert peer
            ((node.pendingOf peer).insert (nextSeqNum node peer).2 pend) →
          pendingTotal node' = pendingTotal node + 1 := by
        intro node' pend hpending
        rw [pendingTotal, hpending, total_insert, length_keys_insert_of_none hnew]
        omega
      constructor
      · rw [htotal _ _ (by rw [nextSeqNum_pendingAcks, nextSeqNum_pendingOf])]
        change ((nextSeqNum node peer).1.pendingAcksCount + 1).toNat = _
        rw [nextSeqNum_pendingAcksCount, UInt64.toNat_add, hbefore]
        change (pendingTotal node + 1) % 2 ^ 64 = _
        omega
      · rw [htotal _ _ (by rw [nextSeqNum_pendingAcks, nextSeqNum_pendingOf])]
        exact (by omega : pendingTotal node + 1 ≤ 1000)
  · exact h

theorem Balanced.sendToPeers {payload : GossipPayload} {peers : List Addr} (h : Balanced node)
    (hfree : NumbersFree cfg now payload peers node) :
    Balanced (sendToPeers cfg now payload peers node).1 := by
  induction peers generalizing node with
  | nil => exact h
  | cons peer peers ih => exact ih (h.sendReliable hfree.1) hfree.2

theorem broadcastRoute_eq (tokens : List TokenId) (backend : BackendId) :
    broadcastRoute cfg now tokens backend node =
      if routeGoesOut cfg node then
        sendToPeers cfg now (.route (tokens.take maxAnnouncedTokens) backend) node.peerAddresses
          node
      else (node, []) := by
  rw [broadcastRoute, routeGoesOut]
  cases node.isAcceptingTasks with
  | false => rfl
  | true =>
    rw [Bool.true_and, if_neg (by simp)]
    split
    · next hrefused => rw [hrefused]; rfl
    · next hrefused => rw [Bool.not_eq_true] at hrefused; rw [hrefused]; rfl

theorem Balanced.handleAck {seqNum : UInt32} (h : Balanced node) :
    Balanced (handleAck node peer seqNum).1 := by
  rw [Ranvier.handleAck]
  split
  · exact h
  · next pending hpending =>
    refine h.replace peer ((node.pendingOf peer).erase seqNum) 1 ?_ rfl
      (length_keys_erase_of_lookup hpending)
    by_cases hempty : ((node.pendingOf peer).erase seqNum).entries = []
    · exact .inr ⟨AList.ext hempty, if_pos hempty⟩
    · exact .inl (if_neg hempty)

/-- A received packet that is not an acknowledgement leaves what is pending alone. -/
theorem Balanced.handlePacket {src : Addr} {d : GossipDatagram} (h : Balanced node) :
    Balanced (handlePacket cfg node src d).1 := by
  have hchecked : ∀ q, Balanced (checkDuplicate cfg node src q).1 := by
    intro q
    rw [checkDuplicate]
    split
    · refine h.of_same isDuplicate_pendingAcks ?_
      rw [isDuplicate]
      split <;> split_ifs <;> rfl
    · exact h
  rw [Ranvier.handlePacket.eq_def]
  split
  · exact h
  · split
    · exact h.handleAck
    · dsimp only
      split <;> exact hchecked _
    · dsimp only
      split_ifs <;> exact hchecked _

/-- Giving the retried packets a new time keeps their numbers. -/
theorem keys_retried_perm {m : AList fun _ : UInt32 => PendingAck}
    {due : List (Sigma fun _ : UInt32 => PendingAck)} {f : PendingAck → PendingAck}
    (hdue : ∀ e ∈ due, e.1 ∈ m) :
    (due.foldl (fun m e => m.insert e.1 (f e.2)) m).keys.Perm m.keys := by
  induction due generalizing m with
  | nil => exact .refl _
  | cons e due ih =>
    have hfirst : (m.insert e.1 (f e.2)).keys.Perm m.keys := by
      rw [AList.keys_insert]
      exact (List.perm_cons_erase (hdue e List.mem_cons_self)).symm
    refine (ih fun e' he' => ?_).trans hfirst
    exact (AList.mem_insert m).mpr (.inr (hdue e' (List.mem_cons_of_mem _ he')))

/-- Each packet given up is one less. -/
theorem length_keys_removed {m : AList fun _ : UInt32 => PendingAck}
    {due : List (Sigma fun _ : UInt32 => PendingAck)} (hdue : ∀ e ∈ due, e.1 ∈ m)
    (hnodup : (due.map Sigma.fst).Nodup) :
    (due.foldl (fun m e => m.erase e.1) m).keys.length + due.length = m.keys.length := by
  induction due generalizing m with
  | nil => rfl
  | cons e due ih =>
    obtain ⟨hfresh, hnodup⟩ := List.nodup_cons.mp hnodup
    have hfirst := hdue e List.mem_cons_self
    obtain ⟨pend, hpend⟩ := Option.isSome_iff_exists.mp (AList.lookup_isSome.mpr hfirst)
    have hrest : ∀ e' ∈ due, e'.1 ∈ m.erase e.1 := by
      intro e' he'
      refine AList.mem_erase.mpr ⟨fun heq => hfresh ?_, hdue e' (List.mem_cons_of_mem _ he')⟩
      exact heq ▸ List.mem_map_of_mem he'
    have hlength := length_keys_erase_of_lookup hpend
    have := ih hrest hnodup
    rw [List.foldl_cons, List.length_cons]
    omega

/-- One peer's turn in a retry pass. -/
theorem Balanced.visitPeer (h : Balanced node) : Balanced (visitPeer cfg now node peer) := by
  rw [Ranvier.visitPeer]
  set due := (node.pendingOf peer).entries.filter fun e => decide (e.2.nextRetry ≤ now)
  have hkeys : ∀ {p : (Sigma fun _ : UInt32 => PendingAck) → Bool}, ∀ e ∈ due.filter p,
      e.1 ∈ node.pendingOf peer := by
    intro p e he
    have hmem := List.mem_of_mem_filter (List.mem_of_mem_filter he)
    exact AList.mem_keys.mpr (List.mem_map_of_mem hmem)
  have hperm := keys_retried_perm (f := fun pend =>
      ⟨pend.packet, now + calculateBackoff cfg (pend.retryCount + 1), pend.retryCount + 1⟩)
    (hkeys (p := fun e => decide (e.2.retryCount < cfg.gossipMaxRetries)))
  have hnodup : ((due.filter fun e => decide (cfg.gossipMaxRetries ≤ e.2.retryCount)).map
      Sigma.fst).Nodup :=
    (node.pendingOf peer).keys_nodup.sublist
      ((List.filter_sublist.trans List.filter_sublist).map Sigma.fst)
  refine h.replace peer _ _ (.inl rfl) rfl ?_
  rw [length_keys_removed (fun e he => AList.mem_keys.mpr (hperm.symm.subset ?_)) hnodup,
    hperm.length_eq]
  exact AList.mem_keys.mp (hkeys e he)

theorem Balanced.visitPeers {visited : List Addr} (h : Balanced node) :
    Balanced (visited.foldl (Ranvier.visitPeer cfg now) node) := by
  induction visited generalizing node with
  | nil => exact h
  | cons peer visited ih => exact ih h.visitPeer

/-- An entry without packets weighs nothing. -/
theorem Balanced.dropEmptyEntries (h : Balanced node) : Balanced (dropEmptyEntries node) := by
  have hkept : ∀ (peers : List Addr) (m : AList fun _ : Addr => AList fun _ : UInt32 => PendingAck),
      total (fun _ pending => pending.keys.length) (peers.foldl (fun m peer =>
        if ((m.lookup peer).getD ∅).entries = [] then m.erase peer else m) m) =
          total (fun _ pending => pending.keys.length) m := by
    intro peers
    induction peers with
    | nil => exact fun _ => rfl
    | cons peer peers ih =>
      intro m
      rw [List.foldl_cons, ih]
      split
      · next hempty =>
        refine total_erase_of_weightless ?_
        cases hlookup : m.lookup peer with
        | none => exact weightAt_of_none hlookup
        | some pending =>
          rw [hlookup, Option.getD_some] at hempty
          rw [weightAt_of_lookup hlookup, AList.keys, hempty, List.keys_nil, List.length_nil]
      · rfl
  have htotal : pendingTotal (Ranvier.dropEmptyEntries node) = pendingTotal node := hkept _ _
  exact ⟨by rw [htotal]; exact h.count, by rw [htotal]; exact h.cap⟩

theorem Balanced.cleanupPeerState (h : Balanced node) :
    Balanced (cleanupPeerState node peer) :=
  h.replace peer ∅ _ (.inr ⟨rfl, rfl⟩) rfl (Nat.zero_add _)

theorem Balanced.refreshPeers {newPeers : List Addr} (h : Balanced node) :
    Balanced (refreshPeers newPeers node) := by
  have hcleaned : ∀ (peers : List Addr) (node : GossipNode Addr), Balanced node →
      Balanced (peers.foldl Ranvier.cleanupPeerState node) := by
    intro peers
    induction peers with
    | nil => exact fun _ h => h
    | cons peer peers ih => exact fun _ h => ih _ h.cleanupPeerState
  exact (hcleaned _ node h).of_same rfl rfl

theorem balanced_clearPendingAcks : Balanced (clearPendingAcks node) :=
  ⟨rfl, Nat.zero_le _⟩

end Node

/-! ## Runs -/

section Runs

variable {Addr : Type} [DecidableEq Addr] {cfg : GossipConfig} {s s' : AckState Addr}

theorem Balanced.visit {now processed : ℕ} {visited : List Addr} {yields : Bool}
    (h : Balanced s.node) (hvisit : s.visit cfg now processed visited yields = some s') :
    Balanced s'.node := by
  rw [AckState.visit] at hvisit
  split at hvisit
  · dsimp only at hvisit
    split at hvisit
    · split at hvisit
      · split at hvisit
        · obtain rfl := Option.some.inj hvisit
          exact h.visitPeers
        · cases hvisit
      · cases hvisit
    · obtain rfl := Option.some.inj hvisit
      exact h.visitPeers.dropEmptyEntries
  · cases hvisit

/-- One step. -/
theorem Balanced.step {a : AckAction Addr} (h : Balanced s.node) (hok : s.Orderly cfg a)
    (hstep : s.step cfg a = some s') : Balanced s'.node := by
  cases a with
  | broadcastRoute now tokens backend rehash =>
    obtain rfl := Option.some.inj hstep
    change Balanced (broadcastRoute cfg now tokens backend s.node).1
    rw [broadcastRoute_eq]
    split
    · next hout => exact h.sendToPeers (hok hout)
    · exact h
  | broadcastCacheEviction now prefixHash backend rehash =>
    obtain rfl := Option.some.inj hstep
    change Balanced (broadcastCacheEviction cfg now prefixHash backend s.node).1
    rw [broadcastCacheEviction]
    split
    · exact h
    · next haccepting => exact h.sendToPeers (hok (by simpa using haccepting))
  | receive src d =>
    obtain rfl := Option.some.inj hstep
    exact h.handlePacket
  | processRetries now visited yields => exact h.visit hstep
  | resumeRetries i visited yields wreck =>
    rw [AckState.step] at hstep
    split at hstep
    · cases hstep
    · next pass hpass =>
      have hsame : Balanced ({ s with passes := s.passes.eraseIdx i } : AckState Addr).node := h
      dsimp only at hstep
      rw [if_pos (hok pass hpass)] at hstep
      exact hsame.visit hstep
  | cleanupPeerState peer =>
    obtain rfl := Option.some.inj hstep
    exact h.cleanupPeerState
  | refreshPeers newPeers =>
    obtain rfl := Option.some.inj hstep
    exact h.refreshPeers
  | clearPendingAcks =>
    obtain rfl := Option.some.inj hstep
    exact balanced_clearPendingAcks
  | setQuorum isDegraded isAcceptingTasks =>
    obtain rfl := Option.some.inj hstep
    exact h.of_same rfl rfl

/-- **The counter is right.** Take a node with nothing pending, and any run of broadcasts,
received packets, retry passes with their yields, clean-ups and clears in which no packet
that becomes pending gets the number of a packet that is pending already, and no retry pass
goes on from an entry that was erased or moved while it was suspended. Then the counter is
the number of entries in the per-peer maps, and at most `MAX_PENDING_ACKS`. -/
theorem pending_count_kept {start : AckState Addr} {as : List (AckAction Addr)}
    (hempty : start.node.pendingAcks = ∅) (hzero : start.node.pendingAcksCount = 0)
    (hmeets : Meets (AckState.step cfg) (AckState.Orderly cfg) start as)
    (hexec : exec (AckState.step cfg) start as = some s) :
    s.node.pendingAcksCount.toNat = pendingTotal s.node ∧
      s.node.pendingAcksCount ≤ maxPendingAcks := by
  have hstart : Balanced start.node := by
    have htotal : pendingTotal start.node = 0 := by
      rw [pendingTotal, hempty, total_empty]
    refine ⟨by rw [htotal, hzero]; rfl, ?_⟩
    rw [htotal]
    exact Nat.zero_le _
  have hbalanced : Balanced s.node :=
    exec_invariant (I := fun _ s => Balanced s.node) (h := [])
      (fun hok hstep hinv => hinv.step hok hstep) hmeets hexec hstart
  refine ⟨hbalanced.count, ?_⟩
  rw [UInt64.le_iff_toNat_le, hbalanced.count]
  exact hbalanced.cap

end Runs

/-! ## Numbers that come round -/

/-- Reliable delivery with the default options. -/
def reliableOptions : GossipConfig := ⟨true, 1000, 3, 500, false, false, false, false⟩

/-- A node with one peer, to which it has sent nothing. -/
def onePeer : AckState ℕ where
  node := ⟨[2], ∅, 0, ∅, ∅, false, true⟩

theorem pending_count_kept_announced :
    ∃ s, exec (AckState.step reliableOptions) onePeer
        [.broadcastRoute 0 [5] 7 false, .processRetries 500 [2] false, .broadcastRoute 1 [6] 7 false,
          .receive 2 (.ack 1)] = some s ∧
      s.node.pendingAcksCount.toNat = pendingTotal s.node ∧
      s.node.pendingAcksCount ≤ maxPendingAcks := by
  have hsome : (exec (AckState.step reliableOptions) onePeer
      [.broadcastRoute 0 [5] 7 false, .processRetries 500 [2] false, .broadcastRoute 1 [6] 7 false,
        .receive 2 (.ack 1)]).isSome := by
    decide
  have hexec := exec_eq_some_getD hsome
  refine ⟨_, hexec, pending_count_kept rfl rfl ?_ hexec⟩
  refine ⟨fun _ => ⟨fun _ _ => rfl, trivial⟩, trivial, fun _ => ⟨fun _ _ => ?_, trivial⟩, trivial,
    trivial⟩
  decide

/-- The packet that is never acknowledged. -/
def lonePacket : PendingAck := ⟨⟨1, .route [5] 7⟩, 500, 0⟩

/-- The first packet is pending, and the peer's counter stands at `c`. -/
def countedTo (c : UInt32) : AckState ℕ where
  node := ⟨[2], .singleton 2 (.singleton 1 lonePacket), 1, .singleton 2 c, ∅, false, true⟩

/-- Another announcement goes out and is acknowledged. -/
theorem countedTo_next (c : UInt32) (h : c ≠ 0) :
    exec (AckState.step reliableOptions) (countedTo c)
      [.broadcastRoute 0 [5] 7 false, .receive 2 (.ack (c + 1))] = some (countedTo (c + 1)) := by
  have hne : c + 1 ≠ 1 := by simpa using h
  have hfresh : c + 1 ∉ (AList.singleton 1 lonePacket : AList fun _ : UInt32 => PendingAck) := by
    rw [AList.mem_keys, AList.keys_singleton, List.mem_singleton]
    exact hne
  let sent : AckState ℕ :=
    { node := ⟨[2], .singleton 2 ((AList.singleton 1 lonePacket).insert (c + 1)
        ⟨⟨c + 1, .route [5] 7⟩, 500, 0⟩), 2, .singleton 2 (c + 1), ∅, false, true⟩ }
  have hsent : AckState.step reliableOptions (countedTo c) (.broadcastRoute 0 [5] 7 false) =
      some sent := rfl
  have hlookup : (sent.node.pendingOf 2).lookup (c + 1) = some ⟨⟨c + 1, .route [5] 7⟩, 500, 0⟩ :=
    AList.lookup_insert _
  have hrest : (sent.node.pendingOf 2).erase (c + 1) = .singleton 1 lonePacket := by
    have hentries := congrArg (List.kerase (c + 1))
      (AList.entries_insert_of_notMem (b := ⟨⟨c + 1, .route [5] 7⟩, 500, 0⟩) hfresh)
    exact AList.ext (hentries.trans (List.kerase_cons_eq rfl))
  have hacked : handleAck sent.node 2 (c + 1) = ((countedTo (c + 1)).node,
      [.clear 2 ⟨c + 1, .route [5] 7⟩]) := by
    rw [handleAck, hlookup]
    dsimp only
    have hleft : (AList.singleton 1 lonePacket : AList fun _ : UInt32 => PendingAck).entries ≠ [] :=
      List.cons_ne_nil _ _
    have hone : sent.node.pendingAcksCount - 1 = 1 := (by decide : (2 : UInt64) - 1 = 1)
    rw [hrest, if_neg hleft, hone]
    rfl
  have hreceived : AckState.step reliableOptions sent (.receive 2 (.ack (c + 1))) =
      some (countedTo (c + 1)) := by
    rw [AckState.step, handlePacket, if_neg (not_not.mpr List.mem_cons_self), hacked]
    rfl
  rw [exec, hsent]
  dsimp only
  rw [exec, hreceived]
  rfl

/-- The counter reaches every number but 1 a second time. -/
theorem countedTo_reached (n : ℕ) (h : n < 2 ^ 32) :
    ∃ as, exec (AckState.step reliableOptions) (countedTo 1) as =
      some (countedTo (1 + n.toUInt32)) := by
  induction n with
  | zero => exact ⟨[], rfl⟩
  | succ n ih =>
    obtain ⟨as, has⟩ := ih (by omega)
    have hne : 1 + n.toUInt32 ≠ 0 := by
      intro heq
      have hnat := congrArg UInt32.toNat heq
      rw [UInt32.toNat_add, Nat.toUInt32_eq, UInt32.toNat_ofNat'] at hnat
      change (1 + n % 2 ^ 32) % 2 ^ 32 = 0 at hnat
      omega
    have hnext : 1 + n.toUInt32 + 1 = 1 + (n + 1).toUInt32 := by
      rw [Nat.toUInt32_eq, Nat.toUInt32_eq, UInt32.ofNat_add, UInt32.add_assoc]
      rfl
    refine ⟨as ++ [.broadcastRoute 0 [5] 7 false, .receive 2 (.ack (1 + n.toUInt32 + 1))], ?_⟩
    rw [exec_append has, countedTo_next _ hne, hnext]

/-- One announcement stays unacknowledged while 2³² - 1 others go out and are acknowledged.
The next one gets its number and replaces it in the map, but is counted as another. -/
theorem pending_count_drifts :
    ¬∀ (cfg : GossipConfig) (start s : AckState ℕ) (as : List (AckAction ℕ)),
      start.node.pendingAcks = ∅ → start.node.pendingAcksCount = 0 → start.passes = [] →
        start.node.peerAddresses.length ≤ 256 → exec (AckState.step cfg) start as = some s →
          s.node.pendingAcksCount.toNat = pendingTotal s.node := by
  intro hclaim
  have hfirst : exec (AckState.step reliableOptions) onePeer [.broadcastRoute 0 [5] 7 false] =
      some (countedTo 1) := by
    rfl
  obtain ⟨as, has⟩ := countedTo_reached (2 ^ 32 - 1) (by omega)
  have hzero : (1 : UInt32) + (2 ^ 32 - 1 : ℕ).toUInt32 = 0 := by decide
  rw [hzero] at has
  have hlast : (AckState.step reliableOptions (countedTo 0) (.broadcastRoute 0 [5] 7 false)).map
      (fun s => (s.node.pendingAcksCount.toNat, pendingTotal s.node)) = some (2, 1) := by
    decide
  obtain ⟨s, hs, hcounts⟩ := Option.map_eq_some_iff.mp hlast
  obtain ⟨hcount, htotal⟩ := Prod.mk.inj hcounts
  have hexec : exec (AckState.step reliableOptions) onePeer
      ([.broadcastRoute 0 [5] 7 false] ++ (as ++ [.broadcastRoute 0 [5] 7 false])) = some s := by
    rw [exec_append hfirst, exec_append has, exec, hs]
    rfl
  have heq := hclaim reliableOptions onePeer s _ rfl rfl rfl (by decide) hexec
  omega

end Ranvier
