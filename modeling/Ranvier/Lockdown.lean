import Ranvier.GossipTransport
import Ranvier.Run

/-!
# What the lockdown leaves behind

The lockdown drops a datagram of a peer without an established session. It finds out by asking
for the session of the peer, and a session that does not exist is created then, as that of a
server. A handshake with the peer that starts later finds it.

* `dropDatagram` — the lockdown, on a datagram that it drops;
* `Unnoticed` — every handshake that starts afterwards takes the same course as without the
  datagrams;
* `unnoticed_iff` — they are unnoticed exactly if none of them was from a peer without a session
  while there was room for one.
-/

namespace Ranvier

/-- What a handshake consists of for a node: it is to start one, or a datagram comes in. -/
inductive TransportInput : Type where
  | initiateHandshake (peer : SocketAddress)
  | datagram (peer : SocketAddress) (data : List UInt8)
  deriving DecidableEq, Repr

namespace TransportInput

/-- The peer of the handshake. -/
def peer : TransportInput → SocketAddress
  | .initiateHandshake peer => peer
  | .datagram peer _ => peer

/-- The node starts a handshake, or the peer does, with a record that passes for one. -/
def Starts : TransportInput → Prop
  | .initiateHandshake _ => True
  | .datagram _ data => GossipTransport.isDtlsHandshakePacket data

end TransportInput

/-- With another count of rejected sessions. -/
def DtlsContext.rejecting {Ssl : Type} (n : ℕ) (ctx : DtlsContext Ssl) : DtlsContext Ssl :=
  { ctx with sessionsRejected := n }

namespace GossipTransport

variable {Ssl : Type} (o : OpenSsl Ssl) (t : GossipTransport Ssl)

/-- The transport's part of `handle_packet`. -/
def receive (peer : SocketAddress) (data : List UInt8) : GossipTransport Ssl :=
  let d := t.shouldDropMtlsLockdown o peer data
  if d.1 then d.2
  else if d.2.isDtlsEnabled then (d.2.decrypt o peer data).2
  else d.2

/-- What becomes of an input. -/
def handle : TransportInput → GossipTransport Ssl
  | .initiateHandshake peer => t.initiateHandshake o peer
  | .datagram peer data => t.receive o peer data

/-- What becomes of inputs, one after the other. -/
def handleAll (inputs : List TransportInput) : GossipTransport Ssl :=
  inputs.foldl (fun t input => t.handle o input) t

/-- The lockdown drops a datagram. -/
def dropDatagram (d : SocketAddress × List UInt8) : Option (GossipTransport Ssl) :=
  let r := t.shouldDropMtlsLockdown o d.1 d.2
  if r.1 then some r.2 else none

/-- The session of a peer. -/
def sessionOf (peer : SocketAddress) : Option (DtlsSession Ssl) :=
  t.dtlsContext.bind fun ctx => ctx.sessions.find peer

/-- How far a handshake is: the role and the state of the session, and what the peer was sent. -/
def course (peer : SocketAddress) : Option (Bool × DtlsSessionState) × List Datagram :=
  ((t.sessionOf peer).map fun s => (s.isServer, s.state), t.sent.filter fun d => d.peer = peer)

/-- Every handshake that the node or a peer starts takes the same course in both, whatever
follows its start. -/
def Unnoticed (t t' : GossipTransport Ssl) : Prop :=
  ∀ start : TransportInput, start.Starts → ∀ later : List TransportInput,
    (t'.handleAll o (start :: later)).course start.peer =
      (t.handleAll o (start :: later)).course start.peer

/-- To ask for the session of the peer is to create one. -/
def Creates (peer : SocketAddress) : Prop :=
  ∃ ctx, t.dtlsContext = some ctx ∧ ctx.isEnabled ∧ ctx.sessions.find peer = none ∧
    ctx.sessions.size < DtlsContext.maxSessions ∧ (o.create true).isSome

/-! ## The count of rejected sessions

A session that is rejected leaves a trace in a counter that no part of a handshake reads. -/

/-- With another count of rejected sessions. -/
def rejecting (n : ℕ) : GossipTransport Ssl :=
  { t with dtlsContext := t.dtlsContext.map (DtlsContext.rejecting n) }

variable {o t}

theorem getOrCreateSession_rejecting (n : ℕ) (ctx : DtlsContext Ssl) (peer : SocketAddress)
    (isServer : Bool) :
    ∃ m, (ctx.rejecting n).getOrCreateSession o peer isServer =
      ((ctx.getOrCreateSession o peer isServer).1,
        (ctx.getOrCreateSession o peer isServer).2.rejecting m) := by
  have hsessions : (ctx.rejecting n).sessions = ctx.sessions := rfl
  rw [DtlsContext.getOrCreateSession, DtlsContext.getOrCreateSession, hsessions]
  cases ctx.sessions.find peer with
  | some session => exact ⟨n, rfl⟩
  | none =>
    dsimp only
    by_cases hfull : DtlsContext.maxSessions ≤ ctx.sessions.size
    · rw [if_pos hfull, if_pos hfull]
      exact ⟨n + 1, rfl⟩
    · rw [if_neg hfull, if_neg hfull]
      cases o.create isServer with
      | some ssl => exact ⟨n, rfl⟩
      | none => exact ⟨n, rfl⟩

theorem dtlsContext_rejecting_none (n : ℕ) (h : t.dtlsContext = none) :
    (t.rejecting n).dtlsContext = none := by
  rw [rejecting, h]
  rfl

theorem dtlsContext_rejecting_some {ctx : DtlsContext Ssl} (n : ℕ) (h : t.dtlsContext = some ctx) :
    (t.rejecting n).dtlsContext = some (ctx.rejecting n) := by
  rw [rejecting, h]
  rfl

theorem exists_eq_rejecting (t : GossipTransport Ssl) : ∃ n, t = t.rejecting n := by
  obtain ⟨config, channel, _ | ctx, sent, encryptions⟩ := t
  · exact ⟨0, rfl⟩
  · exact ⟨ctx.sessionsRejected, rfl⟩

theorem rejecting_rejecting (n m : ℕ) : (t.rejecting n).rejecting m = t.rejecting m := by
  obtain ⟨config, channel, _ | ctx, sent, encryptions⟩ := t
  · rfl
  · rfl

theorem isDtlsEnabled_rejecting (n : ℕ) : (t.rejecting n).isDtlsEnabled = t.isDtlsEnabled := by
  rw [isDtlsEnabled, isDtlsEnabled, rejecting]
  cases t.dtlsContext <;> rfl

theorem sendPacketAsync_rejecting (n : ℕ) (d : Datagram) :
    (t.rejecting n).sendPacketAsync d = (t.sendPacketAsync d).rejecting n := by
  rw [sendPacketAsync, sendPacketAsync, apply_ite (rejecting · n)]
  rfl

theorem shouldDropMtlsLockdown_rejecting (n : ℕ) (peer : SocketAddress) (data : List UInt8) :
    ∃ m, (t.rejecting n).shouldDropMtlsLockdown o peer data =
      ((t.shouldDropMtlsLockdown o peer data).1,
        (t.shouldDropMtlsLockdown o peer data).2.rejecting m) := by
  have hconfig : (t.rejecting n).config = t.config := rfl
  rw [shouldDropMtlsLockdown, shouldDropMtlsLockdown, hconfig]
  by_cases hmtls : t.config.mtlsEnabled
  · rw [if_pos hmtls, if_pos hmtls]
    cases hctx : t.dtlsContext with
    | none =>
      rw [dtlsContext_rejecting_none n hctx]
      exact ⟨n, rfl⟩
    | some ctx =>
      have henabled : (ctx.rejecting n).isEnabled = ctx.isEnabled := rfl
      obtain ⟨m, hm⟩ := getOrCreateSession_rejecting (o := o) n ctx peer true
      rw [dtlsContext_rejecting_some n hctx]
      dsimp only
      rw [henabled, hm]
      by_cases hup : ctx.isEnabled
      · rw [if_pos hup, if_pos hup]
        split
        · exact ⟨n, rfl⟩
        · exact ⟨m, rfl⟩
      · rw [if_neg hup, if_neg hup]
        exact ⟨n, rfl⟩
  · rw [if_neg hmtls, if_neg hmtls]
    exact ⟨n, rfl⟩

theorem answerHandshake_rejecting (n m : ℕ) (ctx : DtlsContext Ssl) (peer : SocketAddress)
    (session : DtlsSession Ssl) (data : List UInt8) :
    (t.rejecting n).answerHandshake o (ctx.rejecting m) peer session data =
      (t.answerHandshake o ctx peer session data).rejecting m := by
  simp only [answerHandshake]
  split
  · rfl
  · exact sendPacketAsync_rejecting
      (t := { t with dtlsContext := some (ctx.setSession peer _) }) m _

theorem decryptData_rejecting (n m : ℕ) (ctx : DtlsContext Ssl) (peer : SocketAddress)
    (session : DtlsSession Ssl) (data : List UInt8) :
    ((t.rejecting n).decryptData o (ctx.rejecting m) peer session data).2 =
      (t.decryptData o ctx peer session data).2.rejecting m := by
  simp only [decryptData]
  cases (session.decrypt o data).1.1 with
  | WANT_READ =>
    exact sendPacketAsync_rejecting
      (t := { t with dtlsContext := some (ctx.setSession peer _) }) m _
  | SUCCESS | WANT_WRITE | ERROR | HANDSHAKE_NEEDED | CLOSED => rfl

theorem decrypt_rejecting (n : ℕ) (peer : SocketAddress) (data : List UInt8) :
    ∃ m, ((t.rejecting n).decrypt o peer data).2 = (t.decrypt o peer data).2.rejecting m := by
  cases hctx : t.dtlsContext with
  | none =>
    rw [decrypt, decrypt, hctx, dtlsContext_rejecting_none n hctx]
    exact ⟨n, rfl⟩
  | some ctx =>
    have henabled : (ctx.rejecting n).isEnabled = ctx.isEnabled := rfl
    obtain ⟨m, hm⟩ := getOrCreateSession_rejecting (o := o) n ctx peer true
    rw [decrypt, decrypt, hctx, dtlsContext_rejecting_some n hctx]
    dsimp only
    rw [henabled, hm]
    split
    · rcases ctx.getOrCreateSession o peer true with ⟨_ | session, ctx'⟩
      · exact ⟨m, rfl⟩
      · dsimp only
        split
        · exact ⟨m, decryptData_rejecting n m ctx' peer session data⟩
        · exact ⟨m, answerHandshake_rejecting n m ctx' peer session data⟩
    · exact ⟨n, rfl⟩

theorem initiateHandshake_rejecting (n : ℕ) (peer : SocketAddress) :
    ∃ m, (t.rejecting n).initiateHandshake o peer = (t.initiateHandshake o peer).rejecting m := by
  cases hctx : t.dtlsContext with
  | none =>
    rw [initiateHandshake, initiateHandshake, hctx, dtlsContext_rejecting_none n hctx]
    exact ⟨n, rfl⟩
  | some ctx =>
    have hchannel : (t.rejecting n).channel = t.channel := rfl
    obtain ⟨m, hm⟩ := getOrCreateSession_rejecting (o := o) n ctx peer false
    rw [initiateHandshake, initiateHandshake, hctx, dtlsContext_rejecting_some n hctx]
    dsimp only
    rw [hchannel, hm]
    split
    · rcases ctx.getOrCreateSession o peer false with ⟨_ | session, ctx'⟩
      · exact ⟨m, rfl⟩
      · dsimp only
        split
        · exact ⟨m, sendPacketAsync_rejecting
            (t := { t with dtlsContext := some (ctx'.setSession peer _) }) m _⟩
        · exact ⟨m, rfl⟩
    · exact ⟨n, rfl⟩

theorem receive_rejecting (n : ℕ) (peer : SocketAddress) (data : List UInt8) :
    ∃ m, (t.rejecting n).receive o peer data = (t.receive o peer data).rejecting m := by
  obtain ⟨m, hm⟩ := shouldDropMtlsLockdown_rejecting (o := o) (t := t) n peer data
  rw [receive, receive, hm]
  dsimp only
  rw [isDtlsEnabled_rejecting]
  split
  · exact ⟨m, rfl⟩
  · split
    · exact decrypt_rejecting m peer data
    · exact ⟨m, rfl⟩

theorem handle_rejecting (n : ℕ) (input : TransportInput) :
    ∃ m, (t.rejecting n).handle o input = (t.handle o input).rejecting m := by
  cases input with
  | initiateHandshake peer => exact initiateHandshake_rejecting n peer
  | datagram peer data => exact receive_rejecting n peer data

theorem handleAll_rejecting (n : ℕ) (inputs : List TransportInput) :
    ∃ m, (t.rejecting n).handleAll o inputs = (t.handleAll o inputs).rejecting m := by
  induction inputs generalizing t n with
  | nil => exact ⟨n, rfl⟩
  | cons input inputs ih =>
    obtain ⟨m, hm⟩ := handle_rejecting (o := o) (t := t) n input
    rw [handleAll, handleAll, List.foldl_cons, List.foldl_cons, hm]
    exact ih m

theorem sessionOf_rejecting (n : ℕ) (peer : SocketAddress) :
    (t.rejecting n).sessionOf peer = t.sessionOf peer := by
  rw [sessionOf, sessionOf, rejecting]
  cases t.dtlsContext <;> rfl

theorem course_rejecting (n : ℕ) (peer : SocketAddress) :
    (t.rejecting n).course peer = t.course peer := by
  rw [course, course, sessionOf_rejecting]
  rfl

theorem unnoticed_rejecting (n : ℕ) : Unnoticed o t (t.rejecting n) := by
  intro start _ later
  obtain ⟨m, hm⟩ := handleAll_rejecting (o := o) (t := t) n (start :: later)
  rw [hm, course_rejecting]

theorem creates_rejecting (n : ℕ) (peer : SocketAddress) :
    (t.rejecting n).Creates o peer ↔ t.Creates o peer := by
  rw [Creates, Creates]
  cases hctx : t.dtlsContext with
  | none => simp [dtlsContext_rejecting_none n hctx]
  | some ctx =>
    simp [dtlsContext_rejecting_some n hctx, DtlsContext.rejecting, DtlsContext.isEnabled]

/-! ## What a dropped datagram does -/

variable {t' : GossipTransport Ssl} {peer : SocketAddress} {data : List UInt8}

theorem dropDatagram_eq_some (h : t.dropDatagram o (peer, data) = some t') :
    t' = (t.shouldDropMtlsLockdown o peer data).2 ∧
      (t.shouldDropMtlsLockdown o peer data).1 = true := by
  rw [dropDatagram] at h
  dsimp only at h
  split at h
  · next hdrop => exact ⟨(Option.some.inj h).symm, hdrop⟩
  · cases h

/-- What becomes of the sessions when one is asked for. -/
theorem getOrCreateSession_cases (ctx : DtlsContext Ssl) (peer : SocketAddress) (isServer : Bool) :
    (¬(ctx.sessions.find peer = none ∧ ctx.sessions.size < DtlsContext.maxSessions ∧
        (o.create isServer).isSome) ∧
      ∃ n, (ctx.getOrCreateSession o peer isServer).2 = ctx.rejecting n) ∨
    ((ctx.sessions.find peer = none ∧ ctx.sessions.size < DtlsContext.maxSessions ∧
        (o.create isServer).isSome) ∧
      ∃ ssl,
        (ctx.getOrCreateSession o peer isServer).2 = ctx.setSession peer { ssl, isServer }) := by
  rw [DtlsContext.getOrCreateSession]
  cases hfind : ctx.sessions.find peer with
  | some session => exact .inl ⟨by simp, ctx.sessionsRejected, rfl⟩
  | none =>
    dsimp only
    by_cases hfull : DtlsContext.maxSessions ≤ ctx.sessions.size
    · rw [if_pos hfull]
      exact .inl ⟨fun h => absurd h.2.1 (not_lt.mpr hfull), _, rfl⟩
    · rw [if_neg hfull]
      cases hcreate : o.create isServer with
      | some ssl => exact .inr ⟨⟨rfl, not_le.mp hfull, rfl⟩, ssl, rfl⟩
      | none => exact .inl ⟨by simp, ctx.sessionsRejected, rfl⟩

/-- It creates a session, or counts a rejection at most. -/
theorem dropDatagram_cases (hmtls : t.config.mtlsEnabled)
    (h : t.dropDatagram o (peer, data) = some t') :
    (¬t.Creates o peer ∧ ∃ n, t' = t.rejecting n) ∨
      (t.Creates o peer ∧ ∃ ctx ssl, t.dtlsContext = some ctx ∧
        t' = { t with dtlsContext := some (ctx.setSession peer { ssl, isServer := true }) }) := by
  obtain ⟨rfl, hdrop⟩ := dropDatagram_eq_some h
  rw [shouldDropMtlsLockdown, if_pos hmtls] at hdrop ⊢
  cases hctx : t.dtlsContext with
  | none =>
    refine .inl ⟨?_, exists_eq_rejecting t⟩
    rintro ⟨ctx, hsome, -⟩
    cases hctx.symm.trans hsome
  | some ctx =>
    rw [hctx] at hdrop
    have hcreates : t.Creates o peer ↔ ctx.isEnabled ∧ ctx.sessions.find peer = none ∧
        ctx.sessions.size < DtlsContext.maxSessions ∧ (o.create true).isSome := by
      rw [Creates, hctx]
      simp
    rw [hcreates]
    dsimp only at hdrop ⊢
    by_cases hup : ctx.isEnabled
    · rw [if_pos hup] at hdrop ⊢
      split at hdrop
      · cases hdrop
      · next hrecord =>
        rw [if_neg hrecord]
        rcases getOrCreateSession_cases (o := o) ctx peer true with
          ⟨hnot, n, hn⟩ | ⟨hcreate, ssl, hssl⟩
        · refine .inl ⟨fun h => hnot h.2, n, ?_⟩
          rw [hn, rejecting, hctx]
          rfl
        · refine .inr ⟨⟨hup, hcreate⟩, ctx, ssl, rfl, ?_⟩
          rw [hssl]
    · rw [if_neg hup]
      exact .inl ⟨fun h => hup h.1, exists_eq_rejecting t⟩

theorem config_dropDatagram (hmtls : t.config.mtlsEnabled)
    (h : t.dropDatagram o (peer, data) = some t') : t'.config = t.config := by
  rcases dropDatagram_cases hmtls h with ⟨-, n, rfl⟩ | ⟨-, ctx, ssl, -, rfl⟩
  · rfl
  · rfl

/-- A session stays. -/
theorem sessionOf_dropDatagram {session : DtlsSession Ssl} {q : SocketAddress}
    (hmtls : t.config.mtlsEnabled) (h : t.dropDatagram o (peer, data) = some t')
    (hsession : t.sessionOf q = some session) : t'.sessionOf q = some session := by
  rcases dropDatagram_cases hmtls h with ⟨-, n, rfl⟩ | ⟨hcreates, ctx, ssl, hctx, rfl⟩
  · rw [sessionOf_rejecting, hsession]
  · obtain ⟨ctx', hctx', -, hfind, -⟩ := hcreates
    obtain rfl : ctx = ctx' := Option.some.inj (hctx.symm.trans hctx')
    rw [sessionOf, hctx, Option.bind_some] at hsession
    have hne : q ≠ peer := by
      rintro rfl
      cases hsession.symm.trans hfind
    rw [sessionOf, Option.bind_some, DtlsContext.setSession, KeyedMap.find_set, if_neg hne]
    exact hsession

/-- Where nothing was created, only rejections were counted. -/
theorem rejecting_of_not_creates {ds : List (SocketAddress × List UInt8)}
    (hmtls : t.config.mtlsEnabled) (hdrops : exec (dropDatagram o) t ds = some t')
    (hnone : ∀ d ∈ ds, ¬t.Creates o d.1) : ∃ n, t' = t.rejecting n := by
  induction ds generalizing t with
  | nil =>
    obtain rfl := Option.some.inj hdrops
    exact exists_eq_rejecting t
  | cons d ds ih =>
    obtain ⟨u, hu, hrest⟩ := exec_cons hdrops
    rw [List.forall_mem_cons] at hnone
    rcases dropDatagram_cases hmtls hu with ⟨-, n, rfl⟩ | ⟨hcreates, -⟩
    · obtain ⟨m, rfl⟩ := @ih (t.rejecting n) hmtls hrest
        fun d hd => (creates_rejecting n d.1).not.mpr (hnone.2 d hd)
      exact ⟨m, rejecting_rejecting n m⟩
    · exact absurd hcreates hnone.1

theorem sessionOf_drops {ds : List (SocketAddress × List UInt8)} {session : DtlsSession Ssl}
    {q : SocketAddress} (hmtls : t.config.mtlsEnabled)
    (hdrops : exec (dropDatagram o) t ds = some t') (hsession : t.sessionOf q = some session) :
    t'.sessionOf q = some session := by
  induction ds generalizing t with
  | nil =>
    obtain rfl := Option.some.inj hdrops
    exact hsession
  | cons d ds ih =>
    obtain ⟨u, hu, hrest⟩ := exec_cons hdrops
    have hmtls' : u.config.mtlsEnabled := (config_dropDatagram hmtls hu).symm ▸ hmtls
    exact ih hmtls' hrest (sessionOf_dropDatagram hmtls hu hsession)

/-- Where one was created, a peer has the session of a server that it did not have before. -/
theorem exists_server_of_creates {ds : List (SocketAddress × List UInt8)}
    (hmtls : t.config.mtlsEnabled) (hdrops : exec (dropDatagram o) t ds = some t')
    (hcreates : ¬∀ d ∈ ds, ¬t.Creates o d.1) :
    ∃ q session, t.sessionOf q = none ∧ t'.sessionOf q = some session ∧ session.isServer := by
  induction ds generalizing t with
  | nil => exact absurd (fun d hd => absurd hd List.not_mem_nil) hcreates
  | cons d ds ih =>
    obtain ⟨u, hu, hrest⟩ := exec_cons hdrops
    have hmtls' : u.config.mtlsEnabled := (config_dropDatagram hmtls hu).symm ▸ hmtls
    rcases dropDatagram_cases hmtls hu with ⟨hnot, n, rfl⟩ | ⟨hfirst, ctx, ssl, hctx, rfl⟩
    · have hlater : ¬∀ d ∈ ds, ¬(t.rejecting n).Creates o d.1 := by
        intro hnone
        refine hcreates (List.forall_mem_cons.mpr ⟨hnot, fun d hd => ?_⟩)
        exact (creates_rejecting n d.1).not.mp (hnone d hd)
      obtain ⟨q, session, hq, hq'⟩ := ih hmtls' hrest hlater
      exact ⟨q, session, sessionOf_rejecting n q ▸ hq, hq'⟩
    · refine ⟨d.1, { ssl, isServer := true }, ?_, sessionOf_drops hmtls' hrest ?_, rfl⟩
      · obtain ⟨ctx', hctx', -, hfind, -⟩ := hfirst
        rw [sessionOf, hctx', Option.bind_some, hfind]
      · rw [sessionOf, Option.bind_some, DtlsContext.setSession, KeyedMap.find_set, if_pos rfl]

/-! ## A handshake that the node starts -/

theorem isServer_handshake (session : DtlsSession Ssl) :
    (session.handshake o).2.isServer = session.isServer := by
  rw [DtlsSession.handshake]
  split <;> rfl

theorem sessionOf_sendPacketAsync (d : Datagram) :
    (t.sendPacketAsync d).sessionOf peer = t.sessionOf peer := by
  rw [sendPacketAsync]
  split <;> rfl

/-- What the handshake has made of the session. -/
theorem sessionOf_initiateHandshake {ctx ctx' : DtlsContext Ssl} {session : DtlsSession Ssl}
    (hctx : t.dtlsContext = some ctx) (hchannel : t.channel)
    (hsession : ctx.getOrCreateSession o peer false = (some session, ctx')) :
    (t.initiateHandshake o peer).sessionOf peer = some (session.initiateHandshake o).2 := by
  have hset : ∀ t : GossipTransport Ssl, ∀ session, { t with
      dtlsContext := some (ctx'.setSession peer session) }.sessionOf peer = some session := by
    intro t session
    rw [sessionOf, Option.bind_some, DtlsContext.setSession, KeyedMap.find_set, if_pos rfl]
  rw [initiateHandshake, hctx]
  dsimp only
  rw [if_pos hchannel, hsession]
  dsimp only
  split
  · rw [sessionOf_sendPacketAsync, hset]
  · rw [hset]

/-- It gets a session that is the client's, if it gets one. -/
theorem sessionOf_initiateHandshake_of_none (h : t.sessionOf peer = none) :
    ∀ session ∈ (t.initiateHandshake o peer).sessionOf peer, session.isServer = false := by
  intro session hmem
  cases hctx : t.dtlsContext with
  | none =>
    rw [initiateHandshake, hctx, h] at hmem
    cases hmem
  | some ctx =>
    have hfind : ctx.sessions.find peer = none := by
      rwa [sessionOf, hctx, Option.bind_some] at h
    by_cases hchannel : t.channel
    · by_cases hfull : DtlsContext.maxSessions ≤ ctx.sessions.size
      · rw [initiateHandshake, hctx] at hmem
        simp [hchannel, DtlsContext.getOrCreateSession, hfind, hfull, sessionOf] at hmem
      · cases hcreate : o.create false with
        | none =>
          rw [initiateHandshake, hctx] at hmem
          simp [hchannel, DtlsContext.getOrCreateSession, hfind, hfull, hcreate, sessionOf] at hmem
        | some ssl =>
          have hnew : ctx.getOrCreateSession o peer false =
              (some { ssl, isServer := false },
                ctx.setSession peer { ssl, isServer := false }) := by
            rw [DtlsContext.getOrCreateSession, hfind]
            dsimp only
            rw [if_neg hfull, hcreate]
            rfl
          rw [sessionOf_initiateHandshake hctx hchannel hnew] at hmem
          obtain rfl := Option.some.inj hmem
          exact isServer_handshake _
    · rw [initiateHandshake, hctx] at hmem
      dsimp only at hmem
      rw [if_neg hchannel, h] at hmem
      cases hmem

/-- It leaves the session of a server as it is. -/
theorem sessionOf_initiateHandshake_of_server {session : DtlsSession Ssl}
    (h : t.sessionOf peer = some session) (hserver : session.isServer) :
    (t.initiateHandshake o peer).sessionOf peer = some session := by
  obtain ⟨ctx, hctx, hfind⟩ := Option.bind_eq_some_iff.mp h
  have hrefused : (session.initiateHandshake o).2 = session := by
    rw [DtlsSession.initiateHandshake, if_pos hserver]
  by_cases hchannel : t.channel
  · have hfound := DtlsContext.getOrCreateSession_of_find (o := o) false hfind
    rw [sessionOf_initiateHandshake hctx hchannel hfound, hrefused]
  · rw [initiateHandshake, hctx]
    dsimp only
    rw [if_neg hchannel, h]

/-- **What is dropped is noticed if it was from a peer without a session.** Under mTLS the lockdown
drops some datagrams, one after the other. Every handshake that the node or a peer starts
afterwards takes the course that it would have taken without them, exactly if none of them came
from a peer that had no session, while DTLS was up and had room for one more. -/
theorem unnoticed_iff {ds : List (SocketAddress × List UInt8)} (hmtls : t.config.mtlsEnabled)
    (hdrops : exec (dropDatagram o) t ds = some t') :
    Unnoticed o t t' ↔ ∀ d ∈ ds, ¬t.Creates o d.1 := by
  constructor
  · intro hunnoticed
    by_contra hcreates
    obtain ⟨q, session, hnone, hserver, hrole⟩ := exists_server_of_creates hmtls hdrops hcreates
    have hcourse : (t'.initiateHandshake o q).course q = (t.initiateHandshake o q).course q :=
      hunnoticed (.initiateHandshake q) trivial []
    have hroles := congrArg Prod.fst hcourse
    rw [course, course, sessionOf_initiateHandshake_of_server hserver hrole] at hroles
    obtain ⟨session', hsession', heq⟩ := Option.map_eq_some_iff.mp hroles.symm
    have hclient := sessionOf_initiateHandshake_of_none hnone session' hsession'
    rw [Prod.mk.injEq, hclient, hrole] at heq
    cases heq.1
  · intro hnone
    obtain ⟨n, rfl⟩ := rejecting_of_not_creates hmtls hdrops hnone
    exact unnoticed_rejecting n

/-- A client opens with a hello and waits, a server waits. -/
def greeting : OpenSsl (Bool × List UInt8) where
  create := fun isServer => some (isServer, [])
  bioWrite := fun _ ssl => some ssl
  doHandshake := fun ssl =>
    (.wantRead, if ssl.1 then ssl else (ssl.1, 22 :: 0xFE :: List.replicate 11 0))
  write := fun _ ssl => (.wantRead, ssl)
  read := fun ssl => ((.wantRead, []), ssl)
  drain := fun ssl => (ssl.2, (ssl.1, []))

/-- A node under mTLS that has no session yet. -/
def lockedDown : GossipTransport (Bool × List UInt8) where
  config := { tls := { enabled := true }, mtlsEnabled := true }
  dtlsContext := some { enabled := true, initialized := true }

/-- A heartbeat that is not encrypted. -/
def plainHeartbeat : List UInt8 := [2, 2, 0, 0]

/-- The node has started its handshake when the plain heartbeat comes. -/
theorem unnoticed_iff_started :
    ∃ t', exec (dropDatagram greeting) (lockedDown.initiateHandshake greeting 5)
        [(5, plainHeartbeat)] = some t' ∧
      Unnoticed greeting (lockedDown.initiateHandshake greeting 5) t' := by
  have hsome : (exec (dropDatagram greeting) (lockedDown.initiateHandshake greeting 5)
      [(5, plainHeartbeat)]).isSome := by decide +kernel
  refine ⟨_, exec_eq_some_getD hsome, ?_⟩
  refine (unnoticed_iff (by decide +kernel) (exec_eq_some_getD hsome)).mpr ?_
  rw [List.forall_mem_singleton]
  rintro ⟨ctx, hctx, -, hnone, -⟩
  have hsession : ((lockedDown.initiateHandshake greeting 5).sessionOf 5).isSome := by
    decide +kernel
  dsimp only at hnone
  rw [sessionOf, hctx, Option.bind_some, hnone] at hsession
  cases hsession

/-- The plain heartbeat comes first: then the node cannot start a handshake any more. -/
theorem plainHeartbeat_noticed :
    ∃ t', exec (dropDatagram greeting) lockedDown [(5, plainHeartbeat)] = some t' ∧
      ((lockedDown.initiateHandshake greeting 5).course 5).1 = some (false, .HANDSHAKING) ∧
      ((lockedDown.initiateHandshake greeting 5).course 5).2.length = 1 ∧
      (t'.initiateHandshake greeting 5).course 5 = (some (true, .NEW), []) ∧
      ¬Unnoticed greeting lockedDown t' := by
  have hsome : (exec (dropDatagram greeting) lockedDown [(5, plainHeartbeat)]).isSome := by
    decide +kernel
  refine ⟨_, exec_eq_some_getD hsome, by decide +kernel, by decide +kernel, by decide +kernel, ?_⟩
  intro h
  have hcourse := h (.initiateHandshake 5) trivial []
  revert hcourse
  decide +kernel

end GossipTransport

end Ranvier
