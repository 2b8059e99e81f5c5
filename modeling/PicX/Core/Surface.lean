import PicX.Core.File

/-!
# Surfaces (`pic-x-transport`, `pic-x-admin`)

From `surface.rs`, `gate.rs` and `material.rs` of the one, `service.rs` and `authorization.rs` of
the other. A surface is a listener on an address, with or without TLS, and the layers between a
request and the handlers. A request carries the identity of the peer when the handshake demanded a
certificate.

* `Listener.start`: the address is parsed and bound; an allow list in the settings becomes a gate.
* `AdminService.serving`: under mutual TLS the handlers stand behind the authorisation policy.
-/

namespace PicX.Core

/-! ## Transport material -/

/-- A path against the working directory; an absolute one stands for itself. -/
def resolvePath (workingDir path : String) : String :=
  if path.toList.head? = some '/' then path else join workingDir path

def TlsSettings.resolvedIn (workingDir : String) (tls : TlsSettings) : TlsSettings :=
  { tls with
    certificate := resolvePath workingDir tls.certificate
    key := resolvePath workingDir tls.key
    clientCa := tls.clientCa.map (resolvePath workingDir)
    crl := tls.crl.map (resolvePath workingDir) }

def DEFAULT_WORKING_DIR : String := ".volume"

def Config.workingDirectory (c : Config) : String := c.workingDir.getD DEFAULT_WORKING_DIR

def Config.resolvedTls (c : Config) (tls : Option TlsSettings) : Option TlsSettings :=
  tls.map fun tls =>
    { tls.resolvedIn c.workingDirectory with
      reload := if c.tlsReload then some c.tlsReloadInterval else none }

/-- The client certificates a handshake asks for (`material::build`). -/
inductive ClientAuth where
  | none
  /-- Signed by this authority, and not on this revocation list. -/
  | required (clientCa : String) (crl : Option String)
  deriving DecidableEq, Repr

def clientAuth (tls : TlsSettings) : ClientAuth :=
  match tls.clientCa with
  | some clientCa => .required clientCa tls.crl
  | none => .none

/-! ## Listeners -/

/-- A listener being described, before it is bound. -/
structure Listening where
  address : String
  tls : Option TlsSettings

/-- A listener that is up: where it is bound, what its handshake asks for, and the peers its gate
answers when it has one. -/
structure Surface where
  bound : Net.SocketAddr
  clientAuth : ClientAuth
  gate : Option (List AllowedPeer)
  deriving DecidableEq, Repr

/-- The gate over the handlers: an empty list means the handshake is the whole decision. -/
def gateOf (allow : List AllowedPeer) : Option (List AllowedPeer) :=
  if allow.isEmpty then none else some allow

/-- What a listener needs of the system: the port a bound socket got, and the reading of the
transport material. -/
structure Transport where
  bind : Net.SocketAddr → Result Nat
  material : TlsSettings → Result Unit

/-- The address with the port it was bound at. -/
def Net.SocketAddr.withPort (port : Nat) : Net.SocketAddr → Net.SocketAddr
  | .v4 ip _ => .v4 ip port
  | .v6 ip _ scopeId => .v6 ip port scopeId

/-- Binds the address and starts serving. -/
def Listening.start (t : Transport) (listening : Listening) : Result Surface :=
  match Net.SocketAddr.parse listening.address with
  | none => withContext s!"reading the listen address `{listening.address}`"
      (bail "invalid socket address syntax")
  | some parsed => do
    let port ← withContext "binding" (t.bind parsed)
    let _ ← match listening.tls with
      | some settings => t.material settings
      | none => .ok ()
    pure
      { bound := Net.SocketAddr.withPort port parsed
        clientAuth := (listening.tls.map clientAuth).getD .none
        gate := gateOf ((listening.tls.map (·.allow)).getD []) }

/-! ## The administrative surface -/

/-- Who may administer this deployment. -/
structure Authorization where
  allowed : List AllowedPeer
  development : Bool
  deriving DecidableEq, Repr

/-- An empty list admits everyone the authority signed, and only in development. -/
def Authorization.permits (policy : Authorization) : Option PeerIdentity → Bool
  | none => false
  | some peer =>
    if policy.allowed.isEmpty then policy.development else peer.isAllowedBy policy.allowed

/-- What becomes of a request. -/
inductive Answer where
  /-- The protected handler ran. -/
  | handled
  /-- `PERMISSION_DENIED`. -/
  | refused
  /-- `UNAVAILABLE`: the record of the request could not be written. -/
  | unrecordable
  deriving DecidableEq, Repr

/-- Refuses every request the policy does not permit. A permitted one runs only after `recorded`
says that the trail has it. -/
def Authorization.authorize (policy : Authorization) (peer : Option PeerIdentity)
    (recorded : Bool) : Answer :=
  if policy.permits peer then if recorded then .handled else .unrecordable else .refused

/-- The layers between a request on the administrative surface and its handlers. -/
structure AdminService where
  /-- The policy, when the surface demands a client certificate. -/
  policy : Option Authorization
  /-- The gate of the listener. -/
  gate : Option (List AllowedPeer)
  deriving DecidableEq, Repr

/-- The routes, behind the policy when the surface demands a client certificate. -/
def AdminService.serving (c : Config) (secured : Option TlsSettings) : Option Authorization :=
  if secured.any TlsSettings.isMutual then some ⟨c.adminAllow, c.developmentMode⟩ else none

/-- Answers a request: the gate stands outside the policy, the policy outside the handlers. -/
def AdminService.answer (s : AdminService) (peer : Option PeerIdentity) (recorded : Bool) :
    Answer :=
  let inner := match s.policy with
    | some policy => policy.authorize peer recorded
    | none => .handled
  match s.gate with
  | none => inner
  | some allow => if peer.any (·.isAllowedBy allow) then inner else .refused

/-- Starts the surface when an address is configured. -/
def AdminService.start (t : Transport) (c : Config) : Result (Option (Surface × AdminService)) :=
  match c.adminAddr with
  | none => .ok none
  | some configured => do
    let secured := c.resolvedTls c.adminTls
    let surface ← withContext "starting the administrative surface"
      (Listening.start t ⟨configured, secured⟩)
    pure (some (surface, ⟨AdminService.serving c secured, surface.gate⟩))

end PicX.Core
