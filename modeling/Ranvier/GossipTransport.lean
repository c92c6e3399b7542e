import Ranvier.Dtls

/-!
# The gossip transport

The UDP channel and the DTLS context of a node: how it starts, what the lockdown lets through
and what becomes of an incoming datagram.

* `shouldDropMtlsLockdown_iff` — which datagrams the lockdown refuses;
* `decrypt_isSome_iff` — under DTLS only an established session gives a plaintext.
-/

namespace Ranvier

/-- The part of `GossipTlsConfig` that the transport and its validation read. -/
structure GossipTlsConfig : Type where
  enabled : Bool := false
  certPath : String := ""
  keyPath : String := ""
  caPath : String := ""
  /-- seconds -/
  certReloadInterval : ℤ := 300
  allowPlaintextFallback : Bool := false

/-- The part of `ClusterConfig` that the transport reads. -/
structure TransportConfig : Type where
  tls : GossipTlsConfig := {}
  mtlsEnabled : Bool := false

/-- The cluster TLS checks of the config loader. -/
def TransportConfig.validate (config : TransportConfig) : Option String :=
  if config.tls.enabled && config.tls.certPath.isEmpty then
    some "cluster.tls.cert_path is required when gossip TLS is enabled"
  else if config.tls.enabled && config.tls.keyPath.isEmpty then
    some "cluster.tls.key_path is required when gossip TLS is enabled"
  else if config.tls.enabled && config.tls.caPath.isEmpty then
    some "cluster.tls.ca_path is required when gossip TLS is enabled (needed for peer verification)"
  else if config.tls.enabled && decide (config.tls.certReloadInterval < 0) then
    some "cluster.tls.cert_reload_interval must be non-negative"
  else if config.mtlsEnabled && !config.tls.enabled then
    some "cluster.mtls_enabled requires cluster.tls.enabled to be true"
  else none

/-- With mTLS a valid configuration has TLS. -/
theorem TransportConfig.tls_enabled {config : TransportConfig} (h : config.validate = none)
    (hmtls : config.mtlsEnabled) : config.tls.enabled := by
  cases htls : config.tls.enabled with
  | true => rfl
  | false =>
    simp only [validate, htls, hmtls] at h
    cases h

/-- What is given to the UDP channel: a gossip packet as it goes over the wire, or bytes of a
handshake. -/
structure Datagram : Type where
  peer : SocketAddress
  bytes : List UInt8
  payload : Option (List UInt8)
  deriving DecidableEq, Repr

/-- A call of `DtlsSession::encrypt`. -/
structure Encryption (Ssl : Type) : Type where
  peer : SocketAddress
  session : DtlsSession Ssl
  plaintext : List UInt8

/-- `GossipTransport`. The last two fields say what it did. -/
structure GossipTransport (Ssl : Type) : Type where
  config : TransportConfig
  /-- `_channel` is open -/
  channel : Bool := true
  dtlsContext : Option (DtlsContext Ssl) := none
  sent : List Datagram := []
  encryptions : List (Encryption Ssl) := []

namespace GossipTransport

variable {Ssl : Type} (o : OpenSsl Ssl) (t : GossipTransport Ssl)

/-- `is_dtls_enabled`. -/
def isDtlsEnabled : Bool := t.dtlsContext.any DtlsContext.isEnabled

/-- `start` with `initialize_dtls`, given the error of `DtlsContext::initialize`. -/
def start (config : TransportConfig) (initError : Option String) :
    Except String (GossipTransport Ssl) :=
  if config.tls.enabled then
    match initError with
    | none => .ok { config, dtlsContext := some { enabled := true, initialized := true } }
    | some err =>
      if config.tls.allowPlaintextFallback then .ok { config }
      else .error ("DTLS initialization failed: " ++ err)
  else .ok { config }

/-! ## Receiving -/

/-- `DTLS_RECORD_HEADER_SIZE`. -/
def dtlsRecordHeaderSize : ℕ := 13

/-- `is_dtls_handshake_packet`: change cipher spec, alert or handshake. -/
def isDtlsHandshakePacket (data : List UInt8) : Bool :=
  if data.length < dtlsRecordHeaderSize then false
  else
    match data with
    | contentType :: version :: _ =>
      (contentType == 20 || contentType == 21 || contentType == 22) && version == 0xFE
    | _ => false

/-- `should_drop_mtls_lockdown`; looking for the session creates it. -/
def shouldDropMtlsLockdown (peer : SocketAddress) (data : List UInt8) :
    Bool × GossipTransport Ssl :=
  if t.config.mtlsEnabled then
    match t.dtlsContext with
    | none => (true, t)
    | some ctx =>
      if ctx.isEnabled then
        if isDtlsHandshakePacket data then (false, t)
        else
          let r := ctx.getOrCreateSession o peer true
          (!r.1.any DtlsSession.isEstablished, { t with dtlsContext := some r.2 })
      else (true, t)
  else (false, t)

/-- `send_packet_async`. -/
def sendPacketAsync (d : Datagram) : GossipTransport Ssl :=
  if t.channel && !d.bytes.isEmpty then { t with sent := t.sent ++ [d] } else t

/-- The handshake part of `decrypt`. -/
def answerHandshake (ctx : DtlsContext Ssl) (peer : SocketAddress) (session : DtlsSession Ssl)
    (data : List UInt8) : GossipTransport Ssl :=
  let r := session.continueHandshake o data
  if r.1.1 = .ERROR then
    { t with dtlsContext := some ((ctx.setSession peer r.2).removeSession peer) }
  else
    { t with dtlsContext := some (ctx.setSession peer r.2) }.sendPacketAsync
      ⟨peer, r.1.2, none⟩

/-- The part of `decrypt` for an established session. -/
def decryptData (ctx : DtlsContext Ssl) (peer : SocketAddress) (session : DtlsSession Ssl)
    (data : List UInt8) : Option (List UInt8) × GossipTransport Ssl :=
  let r := session.decrypt o data
  match r.1.1 with
  | .SUCCESS => (some r.1.2, { t with dtlsContext := some (ctx.setSession peer r.2) })
  | .WANT_READ =>
    let r' := r.2.continueHandshake o data
    (none, { t with dtlsContext := some (ctx.setSession peer r'.2) }.sendPacketAsync
      ⟨peer, r'.1.2, none⟩)
  | _ => (none, { t with dtlsContext := some (ctx.setSession peer r.2) })

/-- `decrypt`. -/
def decrypt (peer : SocketAddress) (data : List UInt8) :
    Option (List UInt8) × GossipTransport Ssl :=
  match t.dtlsContext with
  | none => (some data, t)
  | some ctx =>
    if ctx.isEnabled then
      match ctx.getOrCreateSession o peer true with
      | (none, ctx) => (none, { t with dtlsContext := some ctx })
      | (some session, ctx) =>
        if session.isEstablished then t.decryptData o ctx peer session data
        else (none, t.answerHandshake o ctx peer session data)
    else (some data, t)

/-- `initiate_handshake`. -/
def initiateHandshake (peer : SocketAddress) : GossipTransport Ssl :=
  match t.dtlsContext with
  | none => t
  | some ctx =>
    if t.channel then
      match ctx.getOrCreateSession o peer false with
      | (none, ctx) => { t with dtlsContext := some ctx }
      | (some session, ctx) =>
        let r := session.initiateHandshake o
        let t := { t with dtlsContext := some (ctx.setSession peer r.2) }
        if r.1.1 = .WANT_READ then t.sendPacketAsync ⟨peer, r.1.2, none⟩ else t
    else t

/-! ### The lockdown -/

variable {o t}

/-- The session of the peer, if it is established. -/
def Established (t : GossipTransport Ssl) (peer : SocketAddress) (session : DtlsSession Ssl) :
    Prop :=
  ∃ ctx, t.dtlsContext = some ctx ∧ ctx.isEnabled ∧ ctx.sessions.find peer = some session ∧
    session.isEstablished

theorem isDtlsEnabled_iff : t.isDtlsEnabled ↔ ∃ ctx, t.dtlsContext = some ctx ∧ ctx.isEnabled := by
  rw [isDtlsEnabled, Option.any_eq_true]

theorem Established.isDtlsEnabled {peer : SocketAddress} {session : DtlsSession Ssl}
    (h : t.Established peer session) : t.isDtlsEnabled := by
  obtain ⟨ctx, hctx, henabled, -⟩ := h
  exact isDtlsEnabled_iff.mpr ⟨ctx, hctx, henabled⟩

/-- The lockdown lets through what looks like a handshake and what comes from a peer with an
established session. -/
theorem shouldDropMtlsLockdown_iff (hmtls : t.config.mtlsEnabled) (peer : SocketAddress)
    (data : List UInt8) :
    (t.shouldDropMtlsLockdown o peer data).1 = false ↔
      t.isDtlsEnabled ∧ (isDtlsHandshakePacket data ∨ ∃ session, t.Established peer session) := by
  rw [shouldDropMtlsLockdown, if_pos hmtls]
  cases hctx : t.dtlsContext with
  | none =>
    refine ⟨fun h => (by cases h), ?_⟩
    rintro ⟨henabled, -⟩
    rw [isDtlsEnabled, hctx] at henabled
    cases henabled
  | some ctx =>
    have hsome : t.isDtlsEnabled ↔ ctx.isEnabled := by
      rw [isDtlsEnabled, hctx, Option.any_some]
    rw [hsome]
    by_cases henabled : ctx.isEnabled
    · simp only [henabled, if_true, true_and]
      by_cases hhandshake : isDtlsHandshakePacket data
      · simp [hhandshake]
      · simp only [hhandshake]
        have hpointer : (ctx.getOrCreateSession o peer true).1.any DtlsSession.isEstablished ↔
            ∃ session, t.Established peer session := by
          rw [Option.any_eq_true]
          constructor
          · rintro ⟨session, hsession, hestablished⟩
            exact ⟨session, ctx, hctx, henabled, DtlsContext.find_of_isEstablished hsession hestablished,
              hestablished⟩
          · rintro ⟨session, ctx', hctx', -, hfind, hestablished⟩
            obtain rfl : ctx = ctx' := Option.some.inj (hctx.symm.trans hctx')
            refine ⟨session, ?_, hestablished⟩
            rw [DtlsContext.getOrCreateSession_of_find true hfind]
        rw [← hpointer]
        simp
    · simp [henabled]

/-- What passes the lockdown has created no session. -/
theorem shouldDropMtlsLockdown_transport (peer : SocketAddress) (data : List UInt8)
    (h : (t.shouldDropMtlsLockdown o peer data).1 = false) :
    (t.shouldDropMtlsLockdown o peer data).2 = t := by
  rw [shouldDropMtlsLockdown] at h ⊢
  by_cases hmtls : t.config.mtlsEnabled
  · rw [if_pos hmtls] at h ⊢
    cases hctx : t.dtlsContext with
    | none => rfl
    | some ctx =>
      rw [hctx] at h
      by_cases henabled : ctx.isEnabled
      · simp only [henabled, if_true] at h ⊢
        by_cases hhandshake : isDtlsHandshakePacket data
        · rw [if_pos hhandshake]
        · rw [if_neg hhandshake] at h ⊢
          obtain ⟨session, hsession, hestablished⟩ : ∃ session,
              (ctx.getOrCreateSession o peer true).1 = some session ∧ session.isEstablished := by
            simpa [Option.any_eq_true] using h
          have hfind := DtlsContext.find_of_isEstablished hsession hestablished
          rw [DtlsContext.getOrCreateSession_of_find true hfind]
          cases t
          cases hctx
          rfl
      · simp [henabled] at h
  · rw [if_neg hmtls]

/-- A datagram is decrypted by the established session of its peer. -/
def Decrypts (o : OpenSsl Ssl) (t : GossipTransport Ssl) (peer : SocketAddress)
    (data : List UInt8) : Prop :=
  ∃ session, t.Established peer session ∧ (session.decrypt o data).1.1 = .SUCCESS

/-- Under DTLS only such a datagram has a plaintext. -/
theorem decrypt_isSome_iff (henabled : t.isDtlsEnabled) (peer : SocketAddress)
    (data : List UInt8) : (t.decrypt o peer data).1.isSome ↔ t.Decrypts o peer data := by
  obtain ⟨ctx, hctx, hctxEnabled⟩ := isDtlsEnabled_iff.mp henabled
  constructor
  · intro h
    rw [decrypt, hctx] at h
    simp only [hctxEnabled, if_true] at h
    split at h
    · cases h
    · next session ctx' hsession =>
      split at h
      · next hestablished =>
        have hfind : ctx.sessions.find peer = some session :=
          DtlsContext.find_of_isEstablished (congrArg Prod.fst hsession) hestablished
        refine ⟨session, ⟨ctx, hctx, hctxEnabled, hfind, hestablished⟩, ?_⟩
        rw [decryptData] at h
        split at h
        · next hsuccess => exact hsuccess
        · cases h
        · cases h
      · cases h
  · rintro ⟨session, ⟨ctx', hctx', -, hfind, hestablished⟩, hsuccess⟩
    obtain rfl : ctx = ctx' := Option.some.inj (hctx.symm.trans hctx')
    rw [decrypt, hctx]
    simp only [hctxEnabled, if_true]
    rw [DtlsContext.getOrCreateSession_of_find true hfind]
    simp [hestablished, decryptData, hsuccess]

end GossipTransport

end Ranvier
