import Ranvier.GossipTransport
import Ranvier.Run

/-!
# What the transport sends

Gossip packets go to the UDP channel in plain text while there is no DTLS context, and
otherwise as what an established session makes of them. A send may be suspended before and
after its encryption, and a broadcast to many peers is encrypted as one batch; in between
sessions come and go, certificates are reloaded and the transport may be stopped. A retry is
a send of its own.

* `Wrapped` — bytes that an established session has made of a packet;
* `Sound.step` — what was sent and what waits to be sent is wrapped, while the channel is open
  only under DTLS;
* `payloads_encrypted_iff` — when no packet leaves in plain text.
-/

namespace Ranvier

/-- A send or a batch that is suspended. -/
inductive SendJob : Type where
  /-- `send` waits for its offloaded encryption -/
  | encrypting (peer : SocketAddress) (payload : List UInt8)
  /-- `send` goes on with what was encrypted, or with nothing -/
  | sending (peer : SocketAddress) (payload encrypted : List UInt8)
  /-- the batch of a large `broadcast` waits for its turn -/
  | batching (peers : List SocketAddress) (payload : List UInt8)
  /-- it yields between its datagrams -/
  | flushing (packets : List (SocketAddress × List UInt8)) (payload : List UInt8)

/-- The transport and what is suspended. -/
structure TransportRun (Ssl : Type) : Type where
  transport : GossipTransport Ssl
  jobs : List SendJob := []

/-- What can happen. `offload` is the decision of the crypto offloader. -/
inductive TransportAction : Type where
  | send (peer : SocketAddress) (payload : List UInt8) (offload : Bool)
  | broadcast (peers : List SocketAddress) (payload : List UInt8) (offload : Bool)
  /-- a suspended job goes on -/
  | resume (i : ℕ)
  /-- a datagram arrives -/
  | receive (peer : SocketAddress) (data : List UInt8)
  | initiateHandshake (peer : SocketAddress)
  /-- `cleanup_idle_sessions` finds these idle -/
  | cleanup (peers : List SocketAddress)
  /-- `check_and_reload_certs` clears the sessions -/
  | reloadCerts
  /-- `stop` closes the channel -/
  | stop
  /-- and later releases the DTLS context -/
  | release

namespace GossipTransport

variable {Ssl : Type} (o : OpenSsl Ssl) (t : GossipTransport Ssl)

/-- A datagram is given to the channel. -/
def give (d : Datagram) : GossipTransport Ssl := { t with sent := t.sent ++ [d] }

/-- `DtlsSession::encrypt` on the session of a peer. -/
def encryptWith (ctx : DtlsContext Ssl) (peer : SocketAddress) (session : DtlsSession Ssl)
    (payload : List UInt8) : (DtlsResult × List UInt8) × GossipTransport Ssl :=
  let r := session.encrypt o payload
  (r.1,
    { t with
      dtlsContext := some (ctx.setSession peer r.2)
      encryptions := t.encryptions ++ [⟨peer, session, payload⟩] })

/-- `encrypt_with_timing` and the offloaded closure: an established session of the peer is
looked for and encrypts; otherwise the result is empty. -/
def encryptFor (peer : SocketAddress) (payload : List UInt8) :
    List UInt8 × GossipTransport Ssl :=
  match t.dtlsContext with
  | none => ([], t)
  | some ctx =>
    if ctx.isEnabled then
      match ctx.getOrCreateSession o peer false with
      | (none, ctx) => ([], { t with dtlsContext := some ctx })
      | (some session, ctx) =>
        if session.isEstablished then
          let r := { t with dtlsContext := some ctx }.encryptWith o ctx peer session payload
          (if r.1.1 = .SUCCESS then r.1.2 else [], r.2)
        else ([], { t with dtlsContext := some ctx })
    else ([], t)

/-- The loop of the batch. -/
def encryptBatch (payload : List UInt8) :
    GossipTransport Ssl → List SocketAddress →
      List (SocketAddress × List UInt8) × GossipTransport Ssl
  | t, [] => ([], t)
  | t, peer :: peers =>
    let r := t.encryptFor o peer payload
    let rest := encryptBatch payload r.2 peers
    (if r.1.isEmpty then rest.1 else (peer, r.1) :: rest.1, rest.2)

/-- The session of a peer that `send` finds established. -/
def canSend (peer : SocketAddress) : Bool × GossipTransport Ssl :=
  match t.dtlsContext with
  | none => (false, t)
  | some ctx =>
    let r := ctx.getOrCreateSession o peer false
    (r.1.any DtlsSession.isEstablished, { t with dtlsContext := some r.2 })

variable {o t}

/-- An established session of the peer has made these bytes of the packet. -/
def Wrapped (o : OpenSsl Ssl) (t : GossipTransport Ssl) (peer : SocketAddress)
    (payload bytes : List UInt8) : Prop :=
  ∃ e ∈ t.encryptions, e.peer = peer ∧ e.plaintext = payload ∧ e.session.isEstablished ∧
    (e.session.encrypt o payload).1 = (.SUCCESS, bytes)

/-- What an operation of the transport may do: it forgets no encryption and sends no packet
that is not wrapped. -/
structure Careful (o : OpenSsl Ssl) (t t' : GossipTransport Ssl) : Prop where
  channel : t'.channel = t.channel
  enabled : t'.isDtlsEnabled = t.isDtlsEnabled
  encryptions : t.encryptions ⊆ t'.encryptions
  sent : ∀ d ∈ t'.sent, d ∈ t.sent ∨ ∀ payload ∈ d.payload, Wrapped o t' d.peer payload d.bytes

theorem Wrapped.mono {t' : GossipTransport Ssl} {peer : SocketAddress} {payload bytes : List UInt8}
    (h : Wrapped o t peer payload bytes) (hsub : t.encryptions ⊆ t'.encryptions) :
    Wrapped o t' peer payload bytes := by
  obtain ⟨e, he, hspec⟩ := h
  exact ⟨e, hsub he, hspec⟩

theorem Careful.refl (t : GossipTransport Ssl) : Careful o t t :=
  ⟨rfl, rfl, List.Subset.refl _, fun _ h => .inl h⟩

theorem Careful.trans {t₁ t₂ : GossipTransport Ssl} (h₁ : Careful o t t₁)
    (h₂ : Careful o t₁ t₂) : Careful o t t₂ := by
  refine ⟨h₂.channel.trans h₁.channel, h₂.enabled.trans h₁.enabled,
    List.Subset.trans h₁.encryptions h₂.encryptions, ?_⟩
  intro d hd
  rcases h₂.sent d hd with hd₁ | hwrapped
  · rcases h₁.sent d hd₁ with hd₀ | hwrapped
    · exact .inl hd₀
    · exact .inr fun payload hpayload => (hwrapped payload hpayload).mono h₂.encryptions
  · exact .inr hwrapped

/-- A change of the sessions. -/
theorem careful_context {ctx ctx' : DtlsContext Ssl} (hctx : t.dtlsContext = some ctx)
    (henabled : ctx'.isEnabled = ctx.isEnabled) :
    Careful o t { t with dtlsContext := some ctx' } := by
  refine ⟨rfl, ?_, List.Subset.refl _, fun _ h => .inl h⟩
  rw [isDtlsEnabled, isDtlsEnabled, hctx, Option.any_some, Option.any_some, henabled]

/-- A packet that is wrapped, or bytes of a handshake, may be sent. -/
theorem careful_give {d : Datagram} (h : ∀ payload ∈ d.payload, Wrapped o t d.peer payload d.bytes) :
    Careful o t (t.give d) := by
  refine ⟨rfl, rfl, List.Subset.refl _, ?_⟩
  intro d' hd'
  rcases List.mem_append.mp hd' with hd' | hd'
  · exact .inl hd'
  · obtain rfl := List.mem_singleton.mp hd'
    exact .inr h

theorem careful_sendPacketAsync {d : Datagram}
    (h : ∀ payload ∈ d.payload, Wrapped o t d.peer payload d.bytes) :
    Careful o t (t.sendPacketAsync d) := by
  rw [sendPacketAsync]
  split
  · exact careful_give h
  · exact Careful.refl t

theorem careful_handshake (t : GossipTransport Ssl) (peer : SocketAddress) (bytes : List UInt8) :
    Careful o t (t.sendPacketAsync ⟨peer, bytes, none⟩) :=
  careful_sendPacketAsync fun payload hpayload => by cases hpayload

theorem careful_canSend (peer : SocketAddress) : Careful o t (t.canSend o peer).2 := by
  rw [canSend]
  cases hctx : t.dtlsContext with
  | none => exact Careful.refl t
  | some ctx => exact careful_context hctx (DtlsContext.getOrCreateSession_isEnabled peer false)

theorem careful_encryptWith {ctx ctx' : DtlsContext Ssl} {peer : SocketAddress}
    {session : DtlsSession Ssl} {payload : List UInt8} (hctx : t.dtlsContext = some ctx)
    (henabled : ctx'.isEnabled = ctx.isEnabled) :
    Careful o t ({ t with dtlsContext := some ctx' }.encryptWith o ctx' peer session payload).2 := by
  refine ⟨rfl, ?_, List.subset_append_left _ _, fun _ h => .inl h⟩
  rw [isDtlsEnabled, isDtlsEnabled, hctx, Option.any_some]
  exact henabled

/-- **Encrypting for a peer** gives nothing, or what its established session made. -/
theorem encryptFor_spec (peer : SocketAddress) (payload : List UInt8) :
    Careful o t (t.encryptFor o peer payload).2 ∧
      ((t.encryptFor o peer payload).1 ≠ [] →
        Wrapped o (t.encryptFor o peer payload).2 peer payload (t.encryptFor o peer payload).1) := by
  rw [encryptFor]
  split
  · exact ⟨Careful.refl t, fun h => absurd rfl h⟩
  · next ctx hctx =>
    split
    · split
      · next ctx' hsession =>
        exact ⟨careful_context hctx (DtlsContext.isEnabled_of_getOrCreateSession hsession),
          fun h => absurd rfl h⟩
      · next session ctx' hsession =>
        have hkept := DtlsContext.isEnabled_of_getOrCreateSession hsession
        split
        · next hestablished =>
          refine ⟨careful_encryptWith hctx hkept, ?_⟩
          intro hsome
          refine ⟨⟨peer, session, payload⟩, List.mem_append_right _ (List.mem_singleton_self _), rfl,
            rfl, hestablished, ?_⟩
          by_cases hsuccess : (session.encrypt o payload).1.1 = .SUCCESS
          · show (session.encrypt o payload).1 = (.SUCCESS,
              if (session.encrypt o payload).1.1 = .SUCCESS then (session.encrypt o payload).1.2 else [])
            rw [if_pos hsuccess, ← hsuccess]
          · exact absurd (if_neg hsuccess) hsome
        · exact ⟨careful_context hctx hkept, fun h => absurd rfl h⟩
    · exact ⟨Careful.refl t, fun h => absurd rfl h⟩

/-- The batch, peer by peer. -/
theorem encryptBatch_spec (payload : List UInt8) (t : GossipTransport Ssl)
    (peers : List SocketAddress) :
    Careful o t (encryptBatch o payload t peers).2 ∧
      ∀ p ∈ (encryptBatch o payload t peers).1,
        Wrapped o (encryptBatch o payload t peers).2 p.1 payload p.2 := by
  induction peers generalizing t with
  | nil => exact ⟨Careful.refl t, fun p hp => by cases hp⟩
  | cons peer peers ih =>
    obtain ⟨hcareful, hwrapped⟩ := encryptFor_spec (o := o) (t := t) peer payload
    obtain ⟨hrest, hwrappedRest⟩ := ih (t.encryptFor o peer payload).2
    refine ⟨hcareful.trans hrest, ?_⟩
    intro p hp
    rw [encryptBatch] at hp
    simp only at hp
    split at hp
    · exact hwrappedRest p hp
    · next hsome =>
      rcases List.mem_cons.mp hp with rfl | hp
      · exact (hwrapped (by simpa using hsome)).mono hrest.encryptions
      · exact hwrappedRest p hp

theorem careful_answerHandshake {ctx ctx' : DtlsContext Ssl} {peer : SocketAddress}
    {session : DtlsSession Ssl} {data : List UInt8} (hctx : t.dtlsContext = some ctx)
    (henabled : ctx'.isEnabled = ctx.isEnabled) :
    Careful o t (t.answerHandshake o ctx' peer session data) := by
  rw [answerHandshake]
  have hcontext : Careful o t { t with
      dtlsContext := some (ctx'.setSession peer (session.continueHandshake o data).2) } :=
    careful_context hctx henabled
  split
  · exact careful_context hctx henabled
  · exact hcontext.trans (careful_handshake _ peer _)

theorem careful_decryptData {ctx ctx' : DtlsContext Ssl} {peer : SocketAddress}
    {session : DtlsSession Ssl} {data : List UInt8} (hctx : t.dtlsContext = some ctx)
    (henabled : ctx'.isEnabled = ctx.isEnabled) :
    Careful o t (t.decryptData o ctx' peer session data).2 := by
  rw [decryptData]
  have hcontext : Careful o t { t with dtlsContext := some (ctx'.setSession peer
      ((session.decrypt o data).2.continueHandshake o data).2) } :=
    careful_context hctx henabled
  split
  · exact careful_context hctx henabled
  · exact hcontext.trans (careful_handshake _ peer _)
  · exact careful_context hctx henabled

theorem careful_decrypt (peer : SocketAddress) (data : List UInt8) :
    Careful o t (t.decrypt o peer data).2 := by
  rw [decrypt]
  split
  · exact Careful.refl t
  · next ctx hctx =>
    split
    · split
      · next ctx' hsession =>
        exact careful_context hctx (DtlsContext.isEnabled_of_getOrCreateSession hsession)
      · next session ctx' hsession =>
        have hkept := DtlsContext.isEnabled_of_getOrCreateSession hsession
        split
        · exact careful_decryptData hctx hkept
        · exact careful_answerHandshake hctx hkept
    · exact Careful.refl t

theorem careful_initiateHandshake (peer : SocketAddress) :
    Careful o t (t.initiateHandshake o peer) := by
  rw [initiateHandshake]
  split
  · exact Careful.refl t
  · next ctx hctx =>
    split
    · split
      · next ctx' hsession =>
        exact careful_context hctx (DtlsContext.isEnabled_of_getOrCreateSession hsession)
      · next session ctx' hsession =>
        have hkept := DtlsContext.isEnabled_of_getOrCreateSession hsession
        have hcontext : Careful o t { t with
            dtlsContext := some (ctx'.setSession peer (session.initiateHandshake o).2) } :=
          careful_context hctx hkept
        simp only
        split
        · exact hcontext.trans (careful_handshake _ peer _)
        · exact hcontext
    · exact Careful.refl t

end GossipTransport

namespace TransportRun

variable {Ssl : Type} (o : OpenSsl Ssl) (r : TransportRun Ssl)

/-- `CRYPTO_OFFLOAD_PEER_THRESHOLD`. -/
def cryptoOffloadPeerThreshold : ℕ := 10

/-- `send` up to its first suspension. -/
def send (payload : List UInt8) (offload : Bool) (peer : SocketAddress) : TransportRun Ssl :=
  if r.transport.channel then
    if r.transport.isDtlsEnabled then
      let found := r.transport.canSend o peer
      if found.1 then
        if offload then
          { r with transport := found.2, jobs := r.jobs ++ [.encrypting peer payload] }
        else
          let out := found.2.encryptFor o peer payload
          { r with transport := out.2, jobs := r.jobs ++ [.sending peer payload out.1] }
      else { r with transport := found.2 }
    else { r with transport := r.transport.give ⟨peer, payload, some payload⟩ }
  else r

/-- `broadcast` up to its first suspension. -/
def broadcast (peers : List SocketAddress) (payload : List UInt8) (offload : Bool) :
    TransportRun Ssl :=
  if r.transport.channel then
    if r.transport.isDtlsEnabled && decide (cryptoOffloadPeerThreshold < peers.length) then
      { r with jobs := r.jobs ++ [.batching peers payload] }
    else peers.foldl (fun r peer => r.send o payload offload peer) r
  else r

/-- A job goes on up to its next suspension. -/
def proceed (t : GossipTransport Ssl) : SendJob → GossipTransport Ssl × Option SendJob
  | .encrypting peer payload =>
    let out := t.encryptFor o peer payload
    (out.2, some (.sending peer payload out.1))
  | .sending peer payload encrypted =>
    if encrypted.isEmpty || !t.channel then (t, none)
    else (t.give ⟨peer, encrypted, some payload⟩, none)
  | .batching peers payload =>
    if t.isDtlsEnabled then
      let out := t.encryptBatch o payload peers
      (out.2, some (.flushing out.1 payload))
    else (t, none)
  | .flushing [] _ => (t, none)
  | .flushing ((peer, encrypted) :: packets) payload =>
    if t.channel then
      (t.sendPacketAsync ⟨peer, encrypted, some payload⟩, some (.flushing packets payload))
    else (t, none)

/-- One step. -/
def step : TransportAction → Option (TransportRun Ssl)
  | .send peer payload offload => some (r.send o payload offload peer)
  | .broadcast peers payload offload => some (r.broadcast o peers payload offload)
  | .resume i =>
    (r.jobs[i]?).map fun job =>
      let out := proceed o r.transport job
      { transport := out.1, jobs := r.jobs.eraseIdx i ++ out.2.toList }
  | .receive peer data => some { r with transport := (r.transport.decrypt o peer data).2 }
  | .initiateHandshake peer => some { r with transport := r.transport.initiateHandshake o peer }
  | .cleanup peers =>
    some { r with transport := { r.transport with
      dtlsContext :=
        r.transport.dtlsContext.map fun ctx => peers.foldl DtlsContext.removeSession ctx } }
  | .reloadCerts =>
    some { r with transport := { r.transport with
      dtlsContext := r.transport.dtlsContext.map fun ctx => { ctx with sessions := {} } } }
  | .stop => some { r with transport := { r.transport with channel := false } }
  | .release =>
    if r.transport.channel then none
    else some { r with transport := { r.transport with dtlsContext := none } }

/-! ## Runs -/

open GossipTransport

/-- What a suspended job holds is wrapped. -/
def JobWrapped (o : OpenSsl Ssl) (t : GossipTransport Ssl) : SendJob → Prop
  | .encrypting _ _ | .batching _ _ => True
  | .sending peer payload encrypted => encrypted ≠ [] → Wrapped o t peer payload encrypted
  | .flushing packets payload => ∀ p ∈ packets, Wrapped o t p.1 payload p.2

/-- Every packet given to the channel is the output of an established session. -/
def SentWrapped (o : OpenSsl Ssl) (t : GossipTransport Ssl) : Prop :=
  ∀ d ∈ t.sent, ∀ payload ∈ d.payload, Wrapped o t d.peer payload d.bytes

/-- So is what waits; and the channel is open only under DTLS. -/
structure Sound (o : OpenSsl Ssl) (r : TransportRun Ssl) : Prop where
  sent : SentWrapped o r.transport
  jobs : ∀ job ∈ r.jobs, JobWrapped o r.transport job
  secured : r.transport.channel → r.transport.isDtlsEnabled

variable {o r}

theorem JobWrapped.mono {t t' : GossipTransport Ssl} {job : SendJob} (h : JobWrapped o t job)
    (hsub : t.encryptions ⊆ t'.encryptions) : JobWrapped o t' job := by
  cases job with
  | encrypting peer payload => trivial
  | batching peers payload => trivial
  | sending peer payload encrypted => exact fun hsome => (h hsome).mono hsub
  | flushing packets payload => exact fun p hp => (h p hp).mono hsub

/-- A careful operation that leaves wrapped jobs behind. -/
theorem Sound.careful {t : GossipTransport Ssl} {jobs : List SendJob} (h : Sound o r)
    (hcareful : Careful o r.transport t)
    (hjobs : ∀ job ∈ jobs, job ∈ r.jobs ∨ JobWrapped o t job) : Sound o ⟨t, jobs⟩ := by
  refine ⟨?_, ?_, ?_⟩
  · intro d hd payload hpayload
    rcases hcareful.sent d hd with hd | hwrapped
    · exact (h.sent d hd payload hpayload).mono hcareful.encryptions
    · exact hwrapped payload hpayload
  · intro job hjob
    rcases hjobs job hjob with hold | hwrapped
    · exact (h.jobs job hold).mono hcareful.encryptions
    · exact hwrapped
  · show t.channel → t.isDtlsEnabled
    rw [hcareful.channel, hcareful.enabled]
    exact h.secured

theorem Sound.transport {t : GossipTransport Ssl} (h : Sound o r)
    (hcareful : Careful o r.transport t) : Sound o { r with transport := t } :=
  h.careful hcareful fun _ hjob => .inl hjob

theorem Sound.addJob {t : GossipTransport Ssl} {job : SendJob} (h : Sound o r)
    (hcareful : Careful o r.transport t) (hjob : JobWrapped o t job) :
    Sound o { transport := t, jobs := r.jobs ++ [job] } := by
  refine h.careful hcareful fun job' hjob' => ?_
  rcases List.mem_append.mp hjob' with hjob' | hjob'
  · exact .inl hjob'
  · obtain rfl := List.mem_singleton.mp hjob'
    exact .inr hjob

theorem Sound.send (h : Sound o r) (payload : List UInt8) (offload : Bool)
    (peer : SocketAddress) : Sound o (r.send o payload offload peer) := by
  rw [TransportRun.send]
  split
  · next hopen =>
    rw [if_pos (h.secured hopen)]
    have hfound := careful_canSend (o := o) (t := r.transport) peer
    simp only
    split
    · split
      · exact h.addJob hfound trivial
      · obtain ⟨hcareful, hwrapped⟩ :=
          encryptFor_spec (o := o) (t := (r.transport.canSend o peer).2) peer payload
        exact h.addJob (hfound.trans hcareful) hwrapped
    · exact h.transport hfound
  · exact h

theorem Sound.sendAll (h : Sound o r) (payload : List UInt8) (offload : Bool)
    (peers : List SocketAddress) :
    Sound o (peers.foldl (fun r peer => r.send o payload offload peer) r) := by
  induction peers generalizing r with
  | nil => exact h
  | cons peer peers ih => exact ih (h.send payload offload peer)

theorem Sound.broadcast (h : Sound o r) (peers : List SocketAddress) (payload : List UInt8)
    (offload : Bool) : Sound o (r.broadcast o peers payload offload) := by
  rw [TransportRun.broadcast]
  split
  · split
    · exact h.addJob (Careful.refl _) trivial
    · exact h.sendAll payload offload peers
  · exact h

/-- A job that goes on is careful and leaves a wrapped job behind. -/
theorem proceed_spec {t : GossipTransport Ssl} {job : SendJob} (h : JobWrapped o t job) :
    Careful o t (proceed o t job).1 ∧
      ∀ job' ∈ (proceed o t job).2, JobWrapped o (proceed o t job).1 job' := by
  cases job with
  | encrypting peer payload =>
    obtain ⟨hcareful, hwrapped⟩ := encryptFor_spec (o := o) (t := t) peer payload
    refine ⟨hcareful, fun job' hjob' => ?_⟩
    obtain rfl := Option.some.inj hjob'
    exact hwrapped
  | sending peer payload encrypted =>
    rw [proceed]
    split
    · exact ⟨Careful.refl t, fun job' hjob' => by cases hjob'⟩
    · next hsome =>
      refine ⟨careful_give ?_, fun job' hjob' => by cases hjob'⟩
      intro payload' hpayload'
      obtain rfl := Option.some.inj hpayload'
      have hboth : encrypted ≠ [] ∧ t.channel := by simpa using hsome
      exact h hboth.1
  | batching peers payload =>
    rw [proceed]
    split
    · obtain ⟨hcareful, hwrapped⟩ := encryptBatch_spec (o := o) payload t peers
      refine ⟨hcareful, fun job' hjob' => ?_⟩
      obtain rfl := Option.some.inj hjob'
      exact hwrapped
    · exact ⟨Careful.refl t, fun job' hjob' => by cases hjob'⟩
  | flushing packets payload =>
    cases packets with
    | nil => exact ⟨Careful.refl t, fun job' hjob' => by cases hjob'⟩
    | cons p packets =>
      rw [proceed]
      split
      · have hcareful : Careful o t (t.sendPacketAsync ⟨p.1, p.2, some payload⟩) := by
          refine careful_sendPacketAsync fun payload' hpayload' => ?_
          obtain rfl := Option.some.inj hpayload'
          exact h p List.mem_cons_self
        refine ⟨hcareful, fun job' hjob' => ?_⟩
        obtain rfl := Option.some.inj hjob'
        exact fun p' hp' => (h p' (List.mem_cons_of_mem p hp')).mono hcareful.encryptions
      · exact ⟨Careful.refl t, fun job' hjob' => by cases hjob'⟩

theorem removeSessions_isEnabled (peers : List SocketAddress) (ctx : DtlsContext Ssl) :
    (peers.foldl DtlsContext.removeSession ctx).isEnabled = ctx.isEnabled := by
  induction peers generalizing ctx with
  | nil => rfl
  | cons peer peers ih => exact ih (ctx.removeSession peer)

/-- What the timers do to the sessions. -/
theorem careful_map_context {t : GossipTransport Ssl} {f : DtlsContext Ssl → DtlsContext Ssl}
    (hf : ∀ ctx, (f ctx).isEnabled = ctx.isEnabled) :
    Careful o t { t with dtlsContext := t.dtlsContext.map f } := by
  refine ⟨rfl, ?_, List.Subset.refl _, fun _ h => .inl h⟩
  rw [isDtlsEnabled, isDtlsEnabled]
  cases t.dtlsContext with
  | none => rfl
  | some ctx => exact hf ctx

/-- **One step keeps every packet wrapped.** -/
theorem Sound.step {a : TransportAction} {r' : TransportRun Ssl} (h : Sound o r)
    (hstep : r.step o a = some r') : Sound o r' := by
  cases a with
  | send peer payload offload =>
    obtain rfl := Option.some.inj hstep
    exact h.send payload offload peer
  | broadcast peers payload offload =>
    obtain rfl := Option.some.inj hstep
    exact h.broadcast peers payload offload
  | resume i =>
    obtain ⟨job, hjob, rfl⟩ := Option.map_eq_some_iff.mp hstep
    obtain ⟨hcareful, hwrapped⟩ := proceed_spec (h.jobs job (List.mem_of_getElem? hjob))
    refine h.careful hcareful fun job' hjob' => ?_
    rcases List.mem_append.mp hjob' with hjob' | hjob'
    · exact .inl (List.eraseIdx_subset hjob')
    · exact .inr (hwrapped job' (Option.mem_toList.mp hjob'))
  | receive peer data =>
    obtain rfl := Option.some.inj hstep
    exact h.transport (careful_decrypt peer data)
  | initiateHandshake peer =>
    obtain rfl := Option.some.inj hstep
    exact h.transport (careful_initiateHandshake peer)
  | cleanup peers =>
    obtain rfl := Option.some.inj hstep
    exact h.transport (careful_map_context (removeSessions_isEnabled peers))
  | reloadCerts =>
    obtain rfl := Option.some.inj hstep
    exact h.transport (careful_map_context fun _ => rfl)
  | stop =>
    obtain rfl := Option.some.inj hstep
    exact ⟨h.sent, h.jobs, fun hopen => by cases hopen⟩
  | release =>
    rw [TransportRun.step] at hstep
    split at hstep
    · cases hstep
    · next hclosed =>
      obtain rfl := Option.some.inj hstep
      exact ⟨h.sent, h.jobs, fun hopen => absurd hopen hclosed⟩

/-- Every run of a transport that has started sends packets only as the output of an
established session. -/
def NeverPlaintext (o : OpenSsl Ssl) (config : TransportConfig) (initError : Option String) :
    Prop :=
  ∀ t as r, GossipTransport.start config initError = .ok t →
    exec (TransportRun.step o) { transport := t } as = some r → SentWrapped o r.transport

/-- **Packets under mTLS.** With a valid configuration that enforces mTLS no packet ever leaves
in plain text exactly if DTLS was initialised or the fallback to plain text is not allowed. -/
theorem payloads_encrypted_iff {config : TransportConfig} (hvalid : config.validate = none)
    (hmtls : config.mtlsEnabled) (initError : Option String) :
    NeverPlaintext o config initError ↔
      initError = none ∨ config.tls.allowPlaintextFallback = false := by
  have htls := TransportConfig.tls_enabled hvalid hmtls
  constructor
  · intro hnever
    cases hinit : initError with
    | none => exact .inl rfl
    | some err =>
      right
      rw [hinit] at hnever
      by_contra hallow
      rw [Bool.not_eq_false] at hallow
      -- the transport has fallen back, and its first packet is sent as it is
      have hstart : GossipTransport.start config (some err) =
          .ok ({ config } : GossipTransport Ssl) := by
        rw [GossipTransport.start, if_pos htls]
        simp only [hallow, if_true]
      obtain ⟨e, he, -⟩ := hnever _ [.send 0 [] false] _ hstart rfl ⟨0, [], some []⟩
        (List.mem_singleton_self _) [] rfl
      cases he
  · rintro hcond t as r hstart hexec
    have hsecured : t.isDtlsEnabled ∧ t.sent = [] := by
      cases initError with
      | none =>
        rw [GossipTransport.start, if_pos htls] at hstart
        cases hstart
        exact ⟨rfl, rfl⟩
      | some err =>
        have hdeny := hcond.resolve_left (Option.some_ne_none err)
        rw [GossipTransport.start, if_pos htls] at hstart
        simp only [hdeny] at hstart
        cases hstart
    have hbegin : Sound o { transport := t } := by
      refine ⟨fun d hd => ?_, fun job hjob => (by cases hjob), fun _ => hsecured.1⟩
      rw [hsecured.2] at hd
      cases hd
    exact (exec_induction (I := fun _ r => Sound o r) (fun hstep h => h.step hstep) (h := []) hexec
      hbegin).sent

/-- A valid configuration with mTLS and the fallback. -/
def lenient : TransportConfig where
  tls :=
    { enabled := true
      certPath := "node.pem"
      keyPath := "node.key"
      caPath := "ca.pem"
      allowPlaintextFallback := true }
  mtlsEnabled := true

theorem payloads_encrypted_iff_lenient : NeverPlaintext .waiting lenient none :=
  (payloads_encrypted_iff (by decide) rfl none).mpr (.inl rfl)

/-- The certificate cannot be read, and a heartbeat goes to peer 7 as it is. -/
theorem heartbeat_in_plaintext :
    lenient.validate = none ∧ lenient.mtlsEnabled ∧
      ¬NeverPlaintext .waiting lenient (some "Failed to read certificate file node.pem") := by
  refine ⟨by decide, rfl, fun hnever => ?_⟩
  obtain ⟨e, he, -⟩ := hnever { config := lenient } [.send 7 [0x02, 0x02] false] _ rfl rfl
    ⟨7, [0x02, 0x02], some [0x02, 0x02]⟩ (List.mem_singleton_self _) [0x02, 0x02] rfl
  cases he

end TransportRun

end Ranvier
