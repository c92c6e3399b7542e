import Ranvier.Consensus
import Ranvier.Gossip
import Ranvier.GossipTransport
import Ranvier.StatePackets

/-!
# Incoming gossip datagrams

A datagram passes the check of its source, the lockdown, the update of the peer's liveness
and the decryption before its packet is looked at. The liveness is updated before anything
is decrypted, so under mTLS whoever can send from the address of a peer keeps it alive.

* `handlePacket_of_not_decrypts` — what a datagram without a plaintext does;
* `undecrypted_unaffected_iff` — when it does nothing.
-/

namespace Ranvier

/-- What a packet makes the node do. -/
inductive PacketEvent : Type where
  /-- a packet of reliable delivery -/
  | reliable (e : GossipEvent SocketAddress)
  /-- `_cache_state_callback` -/
  | cacheState (p : CacheStatePacket)
  /-- `_hot_prefix_digest_callback` -/
  | hotPrefixDigest (p : HotPrefixDigestPacket)
  /-- `_extension_callback` -/
  | extension (payload : List UInt8)
  /-- `_node_state_callback` -/
  | nodeState (p : NodeStatePacket)
  deriving DecidableEq

/-- What `handle_packet` works on. The events are the callbacks made and the packets that
reliable delivery sends. -/
structure GossipReceiver (Ssl : Type) : Type where
  config : GossipConfig
  transport : GossipTransport Ssl
  consensus : GossipConsensus
  node : GossipNode SocketAddress
  events : List PacketEvent := []

namespace GossipReceiver

variable {Ssl : Type} (o : OpenSsl Ssl) (r : GossipReceiver Ssl)

/-- A callback is made. -/
def notify (e : PacketEvent) : GossipReceiver Ssl := { r with events := r.events ++ [e] }

/-- `associate_backend` for an announcement that is learned. -/
def associate (src : SocketAddress) (c : GossipConsensus) :
    GossipEvent SocketAddress → GossipConsensus
  | .learn _ _ backend => c.associateBackend src backend
  | _ => c

/-- A packet of reliable delivery. -/
def deliver (src : SocketAddress) (d : GossipDatagram) : GossipReceiver Ssl :=
  let out := Ranvier.handlePacket r.config
    { r.node with isDegraded := r.consensus.quorumState == .DEGRADED } src d
  { r with
    node := out.1
    consensus := out.2.foldl (associate src) r.consensus
    events := r.events ++ out.2.map .reliable }

/-- `GossipPacketType::HEARTBEAT`. -/
def heartbeatType : UInt8 := 0x02

/-- `handle_packet` from the type of the packet on. A packet of an unknown type and one that
cannot be read are counted and ignored. -/
def dispatch (src : SocketAddress) (bytes : List UInt8) : GossipReceiver Ssl :=
  match bytes with
  | [] => r
  | ty :: _ =>
    if ty = heartbeatType then r
    else if ty = CacheStatePacket.packetType then
      ((CacheStatePacket.deserialize bytes).map fun p => r.notify (.cacheState p)).getD r
    else if ty = HotPrefixDigestPacket.packetType then
      ((HotPrefixDigestPacket.deserialize bytes).map fun p => r.notify (.hotPrefixDigest p)).getD r
    else if ty = ExtensionPacket.packetType then
      ((ExtensionPacket.deserialize bytes).map fun p => r.notify (.extension p.payload)).getD r
    else if ty = NodeStatePacket.packetType then
      ((NodeStatePacket.deserialize bytes).map fun p => r.notify (.nodeState p)).getD r
    else if ty = CacheEvictionPacket.packetType then
      ((CacheEvictionPacket.deserialize bytes).map fun p =>
        r.deliver src (.packet ⟨p.seqNum, .eviction p.prefixHash p.backendId.toInt⟩)).getD r
    else if ty = RouteAckPacket.packetType then
      ((RouteAckPacket.deserialize bytes).map fun p => r.deliver src (.ack p.seqNum)).getD r
    else if ty = RouteAnnouncementPacket.packetType then
      ((RouteAnnouncementPacket.deserialize bytes).map fun p =>
        r.deliver src (.packet ⟨p.seqNum, .route p.tokens p.backendId⟩)).getD r
    else r

/-- `handle_packet` behind the lockdown. -/
def handleAdmitted (src : SocketAddress) (data : List UInt8) (now : ℕ) : GossipReceiver Ssl :=
  let r := { r with consensus := r.consensus.updatePeerSeen src now }
  if r.transport.isDtlsEnabled then
    match r.transport.decrypt o src data with
    | (none, transport) => { r with transport }
    | (some plaintext, transport) => { r with transport }.dispatch src plaintext
  else r.dispatch src data

/-- `handle_packet`. -/
def handlePacket (src : SocketAddress) (data : List UInt8) (now : ℕ) : GossipReceiver Ssl :=
  if src ∈ r.node.peerAddresses then
    let d := r.transport.shouldDropMtlsLockdown o src data
    if d.1 then { r with transport := d.2 }
    else { r with transport := d.2 }.handleAdmitted o src data now
  else r

/-- Peers, quorum, acknowledgements, routes and topology are as before. -/
structure Unaffected (r r' : GossipReceiver Ssl) : Prop where
  peers : ∀ peer, r'.consensus.peerTable.find peer = r.consensus.peerTable.find peer
  quorum : r'.consensus.quorumState = r.consensus.quorumState
  acks : r'.node = r.node
  events : r'.events = r.events

variable {o r} {src : SocketAddress} {data : List UInt8} {now : ℕ}

/-- Behind the lockdown a datagram without a plaintext has made its peer seen, and done
nothing else but handshaking. -/
theorem handleAdmitted_of_not_decrypts (henabled : r.transport.isDtlsEnabled)
    (hnot : ¬r.transport.Decrypts o src data) :
    r.handleAdmitted o src data now =
      { r with
        consensus := r.consensus.updatePeerSeen src now
        transport := (r.transport.decrypt o src data).2 } := by
  have hnone : (r.transport.decrypt o src data).1 = none := by
    rw [← Option.not_isSome_iff_eq_none, GossipTransport.decrypt_isSome_iff henabled]
    exact hnot
  rw [handleAdmitted]
  simp only [henabled, if_true]
  split
  · next h => rw [h]
  · next h =>
    rw [h] at hnone
    cases hnone

/-- The datagram comes from a peer and passes the lockdown. -/
def Admitted (r : GossipReceiver Ssl) (src : SocketAddress) (data : List UInt8) : Prop :=
  src ∈ r.node.peerAddresses ∧ r.transport.isDtlsEnabled ∧
    (GossipTransport.isDtlsHandshakePacket data ∨ ∃ session, r.transport.Established src session)

/-- A datagram that is not admitted does nothing but try to find a session. -/
theorem handlePacket_of_not_admitted (hmtls : r.transport.config.mtlsEnabled)
    (hout : ¬r.Admitted src data) :
    ∃ transport, r.handlePacket o src data now = { r with transport } := by
  by_cases hsrc : src ∈ r.node.peerAddresses
  · cases hdrop : (r.transport.shouldDropMtlsLockdown o src data).1 with
    | true =>
      refine ⟨(r.transport.shouldDropMtlsLockdown o src data).2, ?_⟩
      rw [handlePacket, if_pos hsrc]
      simp only [hdrop, if_true]
    | false =>
      have hpass := (GossipTransport.shouldDropMtlsLockdown_iff hmtls src data).mp hdrop
      exact absurd ⟨hsrc, hpass⟩ hout
  · refine ⟨r.transport, ?_⟩
    rw [handlePacket, if_neg hsrc]

/-- **A datagram that is admitted and not decrypted makes its peer seen.** -/
theorem handlePacket_of_not_decrypts (hmtls : r.transport.config.mtlsEnabled)
    (hin : r.Admitted src data) (hnot : ¬r.transport.Decrypts o src data) :
    r.handlePacket o src data now =
      { r with
        consensus := r.consensus.updatePeerSeen src now
        transport := (r.transport.decrypt o src data).2 } := by
  obtain ⟨hsrc, hpass⟩ := hin
  have hkept := (GossipTransport.shouldDropMtlsLockdown_iff (o := o) hmtls src data).mpr hpass
  have hsame := GossipTransport.shouldDropMtlsLockdown_transport src data hkept
  rw [handlePacket, if_pos hsrc]
  simp only [hkept, hsame]
  exact handleAdmitted_of_not_decrypts hpass.1 hnot

/-- **Datagrams that are not decrypted.** Under mTLS such a datagram changes no peer's last-seen
time or liveness, no quorum state and nothing of routes, acknowledgements and topology exactly
if it is not admitted, or its peer has no entry in the table or one that was already seen at
this very time. -/
theorem undecrypted_unaffected_iff (hmtls : r.transport.config.mtlsEnabled)
    (hnot : ¬r.transport.Decrypts o src data) :
    Unaffected r (r.handlePacket o src data now) ↔
      ¬r.Admitted src data ∨ ∀ state, r.consensus.peerTable.find src = some state →
        state.lastSeen = now ∧ state.isAlive := by
  by_cases hin : r.Admitted src data
  · have hseen : ∀ peer, (r.handlePacket o src data now).consensus.peerTable.find peer =
        if peer = src then (r.consensus.peerTable.find peer).map fun state =>
          { state with lastSeen := now, isAlive := true }
        else r.consensus.peerTable.find peer := by
      intro peer
      rw [handlePacket_of_not_decrypts hmtls hin hnot]
      exact KeyedMap.find_modify src _ peer
    constructor
    · intro h
      refine .inr fun state hfind => ?_
      have hsame := h.peers src
      rw [hseen, if_pos rfl, hfind, Option.map_some, Option.some.injEq] at hsame
      rw [← hsame]
      exact ⟨rfl, rfl⟩
    · rintro (hout | hfresh)
      · exact absurd hin hout
      · refine ⟨fun peer => ?_, ?_, ?_, ?_⟩
        · rw [hseen]
          split
          · next hpeer =>
            subst hpeer
            cases hfind : r.consensus.peerTable.find peer with
            | none => rfl
            | some state =>
              obtain ⟨htime, halive⟩ := hfresh state hfind
              cases state
              simp_all
          · rfl
        · rw [handlePacket_of_not_decrypts hmtls hin hnot]
          rfl
        · rw [handlePacket_of_not_decrypts hmtls hin hnot]
        · rw [handlePacket_of_not_decrypts hmtls hin hnot]
  · obtain ⟨transport, htransport⟩ :
        ∃ transport, r.handlePacket o src data now = { r with transport } :=
      handlePacket_of_not_admitted hmtls hin
    rw [htransport]
    exact ⟨fun _ => .inl hin, fun _ => ⟨fun _ => rfl, rfl, rfl, rfl⟩⟩

/-- A node under mTLS whose peer 7 was last seen at time 0 and has no session. -/
def guarded : GossipReceiver Unit where
  config := ⟨true, 1000, 3, 500, false, false, false, false⟩
  transport :=
    { config :=
        { tls := { enabled := true, certPath := "node.pem", keyPath := "node.key", caPath := "ca.pem" }
          mtlsEnabled := true }
      dtlsContext := some { enabled := true, initialized := true } }
  consensus := { config := {}, peerTable := KeyedMap.set {} 7 { lastSeen := 0, isAlive := false } }
  node := ⟨[7], ∅, 0, ∅, ∅, false, true⟩

theorem guarded_not_decrypts (data : List UInt8) :
    ¬guarded.transport.Decrypts .waiting 7 data := by
  rintro ⟨session, ⟨ctx, hctx, -, hfind, -⟩, -⟩
  obtain rfl := Option.some.inj hctx
  cases hfind

/-- A heartbeat in plain text is dropped. -/
theorem undecrypted_unaffected_iff_heartbeat :
    Unaffected guarded (guarded.handlePacket .waiting 7 [0x02, 0x02] 20000) := by
  refine (undecrypted_unaffected_iff rfl (guarded_not_decrypts _)).mpr (.inl ?_)
  rintro ⟨-, -, hhandshake | ⟨session, ctx, hctx, -, hfind, -⟩⟩
  · cases hhandshake
  · obtain rfl := Option.some.inj hctx
    cases hfind

/-- Thirteen bytes that begin like a handshake record, from the address of a dead peer: the
peer is alive again and was seen just now. -/
theorem forged_record_keeps_alive :
    ¬guarded.transport.Decrypts .waiting 7 (22 :: 0xFE :: List.replicate 11 0) ∧
      guarded.consensus.peerTable.find 7 = some { lastSeen := 0, isAlive := false } ∧
      (guarded.handlePacket .waiting 7 (22 :: 0xFE :: List.replicate 11 0)
        20000).consensus.peerTable.find 7 = some { lastSeen := 20000, isAlive := true } :=
  ⟨guarded_not_decrypts _, by decide, by decide⟩

end GossipReceiver

end Ranvier
