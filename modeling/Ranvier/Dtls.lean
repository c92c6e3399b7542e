import Ranvier.Backends
import Ranvier.KeyedMap

/-!
# DTLS sessions

A session drives OpenSSL through memory buffers: what arrives is written into one, what is
to be sent is drained from the other. OpenSSL is not part of the repository; a connection is
an abstract state with the calls that a session makes on it.

* `isEnabled_of_getOrCreateSession` — looking for a session leaves DTLS enabled or not;
* `find_of_isEstablished` — a session that was just created is not established.
-/

namespace Ranvier

/-- `DtlsResult`. -/
inductive DtlsResult : Type where
  | SUCCESS
  | WANT_READ
  | WANT_WRITE
  | ERROR
  | HANDSHAKE_NEEDED
  | CLOSED
  deriving DecidableEq, Repr

/-- `DtlsSessionState`. -/
inductive DtlsSessionState : Type where
  | NEW
  | HANDSHAKING
  | ESTABLISHED
  | ERROR
  | CLOSED
  deriving DecidableEq, Repr

/-- What `SSL_get_error` says about a call. -/
inductive SslOutcome : Type where
  | done
  | wantRead
  | wantWrite
  | zeroReturn
  | failed
  deriving DecidableEq, Repr

/-- The calls on a connection. -/
structure OpenSsl (Ssl : Type) : Type where
  /-- `SSL_new` and the role -/
  create : Bool → Option Ssl
  /-- `BIO_write` into the read buffer, if it takes anything -/
  bioWrite : List UInt8 → Ssl → Option Ssl
  /-- `SSL_do_handshake` -/
  doHandshake : Ssl → SslOutcome × Ssl
  /-- `SSL_write` -/
  write : List UInt8 → Ssl → SslOutcome × Ssl
  /-- `SSL_read` -/
  read : Ssl → (SslOutcome × List UInt8) × Ssl
  /-- `BIO_read` of all that is in the write buffer -/
  drain : Ssl → List UInt8 × Ssl

/-- A connection without a peer: it discards what arrives and waits for more. -/
def OpenSsl.waiting : OpenSsl Unit where
  create := fun _ => some ()
  bioWrite := fun _ ssl => some ssl
  doHandshake := fun ssl => (.wantRead, ssl)
  write := fun _ ssl => (.wantRead, ssl)
  read := fun ssl => ((.wantRead, []), ssl)
  drain := fun ssl => ([], ssl)

/-- `DtlsSession`. -/
structure DtlsSession (Ssl : Type) : Type where
  ssl : Ssl
  state : DtlsSessionState := .NEW
  isServer : Bool

namespace DtlsSession

variable {Ssl : Type} (o : OpenSsl Ssl) (s : DtlsSession Ssl)

/-- `is_established`. -/
def isEstablished : Bool := s.state == .ESTABLISHED

/-- `set_error`. -/
def setError : DtlsSession Ssl := { s with state := .ERROR }

/-- `encrypt`: the result, what was written, and the session. -/
def encrypt (plaintext : List UInt8) : (DtlsResult × List UInt8) × DtlsSession Ssl :=
  if s.state = .ESTABLISHED then
    match o.write plaintext s.ssl with
    | (.done, ssl) => ((.SUCCESS, (o.drain ssl).1), { s with ssl := (o.drain ssl).2 })
    | (.wantRead, ssl) | (.wantWrite, ssl) => ((.WANT_WRITE, []), { s with ssl })
    | (.zeroReturn, ssl) | (.failed, ssl) => ((.ERROR, []), { s with ssl }.setError)
  else ((.HANDSHAKE_NEEDED, []), s)

/-- `SSL_do_handshake` and what follows. -/
def handshake : (DtlsResult × List UInt8) × DtlsSession Ssl :=
  match o.doHandshake s.ssl with
  | (.done, ssl) =>
    ((.SUCCESS, (o.drain ssl).1), { s with ssl := (o.drain ssl).2, state := .ESTABLISHED })
  | (.wantRead, ssl) | (.wantWrite, ssl) =>
    ((.WANT_READ, (o.drain ssl).1), { s with ssl := (o.drain ssl).2, state := .HANDSHAKING })
  | (.zeroReturn, ssl) | (.failed, ssl) => ((.ERROR, []), { s with ssl }.setError)

/-- `initiate_handshake`. -/
def initiateHandshake : (DtlsResult × List UInt8) × DtlsSession Ssl :=
  if s.isServer then ((.ERROR, []), s) else s.handshake o

/-- `continue_handshake`. -/
def continueHandshake (data : List UInt8) : (DtlsResult × List UInt8) × DtlsSession Ssl :=
  if data = [] then s.handshake o
  else
    match o.bioWrite data s.ssl with
    | some ssl => { s with ssl }.handshake o
    | none => ((.ERROR, []), s.setError)

/-- `decrypt`. What a handshake it continues has to send is lost. -/
def decrypt (ciphertext : List UInt8) : (DtlsResult × List UInt8) × DtlsSession Ssl :=
  match o.bioWrite ciphertext s.ssl with
  | none => ((.ERROR, []), s.setError)
  | some ssl =>
    if s.state = .ESTABLISHED then
      match o.read ssl with
      | ((.done, plaintext), ssl) => ((.SUCCESS, plaintext), { s with ssl })
      | ((.wantRead, _), ssl) => ((.WANT_READ, []), { s with ssl })
      | ((.zeroReturn, _), ssl) => ((.CLOSED, []), { s with ssl, state := .CLOSED })
      | ((.wantWrite, _), ssl) | ((.failed, _), ssl) => ((.ERROR, []), { s with ssl }.setError)
    else
      let r := { s with ssl }.continueHandshake o []
      ((r.1.1, []), r.2)

end DtlsSession

/-- `DtlsContext`, without the certificates. -/
structure DtlsContext (Ssl : Type) : Type where
  enabled : Bool
  initialized : Bool
  sessions : KeyedMap SocketAddress (DtlsSession Ssl) := {}
  sessionsRejected : ℕ := 0

namespace DtlsContext

variable {Ssl : Type} (o : OpenSsl Ssl) (ctx : DtlsContext Ssl)

/-- `MAX_SESSIONS`. -/
def maxSessions : ℕ := 10000

/-- `is_enabled`. -/
def isEnabled : Bool := ctx.enabled && ctx.initialized

/-- `get_or_create_session`. -/
def getOrCreateSession (peer : SocketAddress) (isServer : Bool) :
    Option (DtlsSession Ssl) × DtlsContext Ssl :=
  match ctx.sessions.find peer with
  | some session => (some session, ctx)
  | none =>
    if maxSessions ≤ ctx.sessions.size then
      (none, { ctx with sessionsRejected := ctx.sessionsRejected + 1 })
    else
      match o.create isServer with
      | some ssl =>
        (some { ssl, isServer }, { ctx with sessions := ctx.sessions.set peer { ssl, isServer } })
      | none => (none, ctx)

/-- The session behind a pointer has changed. -/
def setSession (peer : SocketAddress) (session : DtlsSession Ssl) : DtlsContext Ssl :=
  { ctx with sessions := ctx.sessions.set peer session }

/-- `remove_session`. -/
def removeSession (peer : SocketAddress) : DtlsContext Ssl :=
  { ctx with sessions := ctx.sessions.erase peer }

variable {o ctx}

theorem getOrCreateSession_isEnabled (peer : SocketAddress) (isServer : Bool) :
    (ctx.getOrCreateSession o peer isServer).2.isEnabled = ctx.isEnabled := by
  rw [getOrCreateSession]
  split
  · rfl
  · split
    · rfl
    · split
      · rfl
      · rfl

theorem isEnabled_of_getOrCreateSession {ctx' : DtlsContext Ssl} {peer : SocketAddress}
    {isServer : Bool} {session : Option (DtlsSession Ssl)}
    (h : ctx.getOrCreateSession o peer isServer = (session, ctx')) :
    ctx'.isEnabled = ctx.isEnabled := by
  have hkept : (ctx.getOrCreateSession o peer isServer).2.isEnabled = ctx.isEnabled :=
    getOrCreateSession_isEnabled peer isServer
  rw [h] at hkept
  exact hkept

/-- An established session was there before. -/
theorem find_of_isEstablished {peer : SocketAddress} {isServer : Bool} {session : DtlsSession Ssl}
    (h : (ctx.getOrCreateSession o peer isServer).1 = some session)
    (hestablished : session.isEstablished) : ctx.sessions.find peer = some session := by
  rw [getOrCreateSession] at h
  split at h
  · next hfind => exact hfind.trans h
  · split at h
    · cases h
    · split at h
      · obtain rfl := Option.some.inj h
        cases hestablished
      · cases h

theorem getOrCreateSession_of_find {peer : SocketAddress} {session : DtlsSession Ssl}
    (isServer : Bool) (h : ctx.sessions.find peer = some session) :
    ctx.getOrCreateSession o peer isServer = (some session, ctx) := by
  rw [getOrCreateSession, h]

end DtlsContext

end Ranvier
