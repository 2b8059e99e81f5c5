import PicX.Core.Values

/-!
# The configuration and its layers (`pic-x-core/src/config.rs`)

A configuration is assembled from defaults, build metadata, the file, the environment and the
command line. Each layer is a list of pairs of a setting and its text; `applyPairs` applies one
layer and `fromLayers` the three of them in order.

* `settingsOf`: what one layer gives a setting; an empty text gives nothing.
* `Settings.read`: a setting's value, or the one it had.
* `tlsOf`: the TLS material of one surface, out of one layer's settings.
-/

namespace PicX.Core

/-! ## Settings -/

def SETTING_VERSION : String := "PIC_X_VERSION"
def SETTING_COPYRIGHT_YEAR : String := "PIC_X_COPYRIGHT_YEAR"
def SETTING_COPYRIGHT_HOLDER : String := "PIC_X_COPYRIGHT_HOLDER"
def SETTING_WORKING_DIR : String := "PIC_X_WORKING_DIR"
def SETTING_AUTOGENERATE : String := "PIC_X_AUTOGENERATE"
def SETTING_DEVELOPMENT_MODE : String := "PIC_X_DEVELOPMENT_MODE"
def SETTING_ISSUER : String := "PIC_X_ISSUER"
def SETTING_PUBLIC_PATH_PREFIX : String := "PIC_X_PUBLIC_PATH_PREFIX"
def SETTING_PUBLIC_HTTP_ADDR : String := "PIC_X_PUBLIC_HTTP_ADDR"
def SETTING_TELEMETRY_ADDR : String := "PIC_X_TELEMETRY_ADDR"
def SETTING_ADMIN_ADDR : String := "PIC_X_ADMIN_ADDR"
def SETTING_PUBLIC_TLS_CERT : String := "PIC_X_PUBLIC_TLS_CERT"
def SETTING_PUBLIC_TLS_KEY : String := "PIC_X_PUBLIC_TLS_KEY"
def SETTING_PUBLIC_TLS_CLIENT_CA : String := "PIC_X_PUBLIC_TLS_CLIENT_CA"
def SETTING_PUBLIC_TLS_CRL : String := "PIC_X_PUBLIC_TLS_CRL"
def SETTING_PUBLIC_TLS_MIN_VERSION : String := "PIC_X_PUBLIC_TLS_MIN_VERSION"
def SETTING_PUBLIC_TLS_ALLOW : String := "PIC_X_PUBLIC_TLS_ALLOW"
def SETTING_PUBLIC_DISCLOSE_BUILD : String := "PIC_X_PUBLIC_DISCLOSE_BUILD"
def SETTING_ADMIN_TLS_CERT : String := "PIC_X_ADMIN_TLS_CERT"
def SETTING_ADMIN_TLS_KEY : String := "PIC_X_ADMIN_TLS_KEY"
def SETTING_ADMIN_TLS_CLIENT_CA : String := "PIC_X_ADMIN_TLS_CLIENT_CA"
def SETTING_ADMIN_TLS_CRL : String := "PIC_X_ADMIN_TLS_CRL"
def SETTING_ADMIN_TLS_MIN_VERSION : String := "PIC_X_ADMIN_TLS_MIN_VERSION"
def SETTING_ADMIN_ALLOW : String := "PIC_X_ADMIN_ALLOW"
def SETTING_TELEMETRY_TLS_CERT : String := "PIC_X_TELEMETRY_TLS_CERT"
def SETTING_TELEMETRY_TLS_KEY : String := "PIC_X_TELEMETRY_TLS_KEY"
def SETTING_TELEMETRY_TLS_MIN_VERSION : String := "PIC_X_TELEMETRY_TLS_MIN_VERSION"
def SETTING_TLS_RELOAD : String := "PIC_X_TLS_RELOAD"
def SETTING_TLS_RELOAD_INTERVAL : String := "PIC_X_TLS_RELOAD_INTERVAL"
def SETTING_LIMITS_CONNECTIONS : String := "PIC_X_LIMITS_CONNECTIONS"
def SETTING_LIMITS_CONNECTIONS_PER_PEER : String := "PIC_X_LIMITS_CONNECTIONS_PER_PEER"
def SETTING_LIMITS_PEER_EXEMPT : String := "PIC_X_LIMITS_PEER_EXEMPT"
def SETTING_LIMITS_CONNECTION_LIFETIME : String := "PIC_X_LIMITS_CONNECTION_LIFETIME"
def SETTING_LIMITS_WRITE_STALL_TIMEOUT : String := "PIC_X_LIMITS_WRITE_STALL_TIMEOUT"
def SETTING_LIMITS_CONCURRENT_REQUESTS : String := "PIC_X_LIMITS_CONCURRENT_REQUESTS"
def SETTING_LIMITS_REQUEST_TIMEOUT : String := "PIC_X_LIMITS_REQUEST_TIMEOUT"
def SETTING_LIMITS_HANDSHAKE_TIMEOUT : String := "PIC_X_LIMITS_HANDSHAKE_TIMEOUT"
def SETTING_LIMITS_HEADER_TIMEOUT : String := "PIC_X_LIMITS_HEADER_TIMEOUT"
def SETTING_LIMITS_BODY_BYTES : String := "PIC_X_LIMITS_BODY_BYTES"
def SETTING_LIMITS_HEADER_BYTES : String := "PIC_X_LIMITS_HEADER_BYTES"
def SETTING_LOG_LEVEL : String := "PIC_X_LOG_LEVEL"
def SETTING_LOG_FORMAT : String := "PIC_X_LOG_FORMAT"
def SETTING_SHUTDOWN_TIMEOUT : String := "PIC_X_SHUTDOWN_TIMEOUT"
def SETTING_SECRETS_PROVIDER : String := "PIC_X_SECRETS_PROVIDER"
def SETTING_SECRETS_DIRECTORY : String := "PIC_X_SECRETS_DIRECTORY"
def SETTING_SECRETS_ENV_PREFIX : String := "PIC_X_SECRETS_ENV_PREFIX"
def SETTING_AUDIT_PSEUDONYM_ENABLED : String := "PIC_X_AUDIT_PSEUDONYM_ENABLED"
def SETTING_AUDIT_PSEUDONYM_KEY_REF : String := "PIC_X_AUDIT_PSEUDONYM_KEY_REF"
def SETTING_AUDIT_PSEUDONYM_KEY_VERSION : String := "PIC_X_AUDIT_PSEUDONYM_KEY_VERSION"
def SETTING_AUDIT_SINK : String := "PIC_X_AUDIT_SINK"
def SETTING_AUDIT_DIRECTORY : String := "PIC_X_AUDIT_DIRECTORY"
def SETTING_AUDIT_RETENTION : String := "PIC_X_AUDIT_RETENTION"
def SETTING_KEYS_ENABLED : String := "PIC_X_KEYS_ENABLED"
def SETTING_KEYS_DIRECTORY : String := "PIC_X_KEYS_DIRECTORY"
def SETTING_KEYS_PUBLISH_AHEAD : String := "PIC_X_KEYS_PUBLISH_AHEAD"
def SETTING_KEYS_ROTATE_EVERY : String := "PIC_X_KEYS_ROTATE_EVERY"
def SETTING_KEYS_RETAIN : String := "PIC_X_KEYS_RETAIN"
def SETTING_KEYS_MAINTENANCE_INTERVAL : String := "PIC_X_KEYS_MAINTENANCE_INTERVAL"

/-! ## The configuration -/

/-- Everything a listener needs to serve over TLS. -/
structure TlsSettings where
  certificate : String
  key : String
  clientCa : Option String
  crl : Option String
  allow : List AllowedPeer
  minVersion : TlsVersion
  reload : Option Nat
  deriving DecidableEq, Repr

def TlsSettings.new (certificate key : String) : TlsSettings :=
  { certificate, key, clientCa := none, crl := none, allow := [], minVersion := .v1_3,
    reload := none }

/-- Whether a client certificate is demanded. -/
def TlsSettings.isMutual (tls : TlsSettings) : Bool := tls.clientCa.isSome

/-- The bounds every surface serves within, durations in seconds. -/
structure Limits where
  connections : Nat := 1024
  connectionsPerPeer : Nat := 256
  peerExempt : List PeerBlock := []
  concurrentRequests : Nat := 256
  requestTimeout : Nat := 30
  handshakeTimeout : Nat := 10
  headerTimeout : Nat := 10
  bodyBytes : Nat := 1024 * 1024
  headerBytes : Nat := 64 * 1024
  connectionLifetime : Option Nat := none
  writeStallTimeout : Nat := 30
  deriving DecidableEq, Repr

/-- The name of a secret, as configuration refers to it. -/
structure SecretRef where
  name : String
  deriving DecidableEq, Repr

/-- One realm, each field its own value or the server's. -/
structure RealmConfig where
  name : String
  mountPath : String
  issuer : Option String
  listed : Bool
  tokenKeysEnabled : Bool
  tokenKeysPublishAhead : Nat
  tokenKeysRotateEvery : Nat
  tokenKeysRetain : Nat
  tokenLifetime : Nat
  tokenInitialExpiryPolicy : Realm.TokenInitialExpiryPolicy
  keyCacheStaleFor : Nat
  tokenSigningAlgorithm : String
  operationsKeysEnabled : Bool
  operationsKeysPublishAhead : Nat
  operationsKeysRotateEvery : Nat
  operationsKeysRetain : Nat
  auditDestination : AuditDestination
  auditRetention : Nat
  auditPseudonymEnabled : Bool
  auditPseudonymKeyRef : Option SecretRef
  auditPseudonymKeyVersion : String
  secretsProvider : SecretProvider
  secretsEnvPrefix : String
  exchangeProfiles : List Realm.ExchangeProfileConfig
  trustedAttesters : List Realm.TrustedAttesterConfig
  deriving DecidableEq, Repr

/-- Build-time values that participate in runtime configuration. -/
structure BuildSettings where
  version : String
  commit : String
  copyrightYear : String
  copyrightHolder : String
  deriving DecidableEq, Repr

/-- Runtime settings, durations in seconds. `declaredValues` is a map from the extra settings this
build understands. -/
structure Config where
  version : String := "0.0.0"
  commit : String := "unknown"
  copyrightYear : String := "0000"
  copyrightHolder : String := "PIC-X"
  workingDir : Option String := none
  autogenerate : Bool := false
  developmentMode : Bool := false
  discloseBuild : Bool := true
  issuer : Option String := none
  publicPathPrefix : String := ""
  publicHttpAddr : Option String := none
  telemetryAddr : Option String := none
  adminAddr : Option String := none
  adminAllow : List AllowedPeer := []
  logLevel : LogLevel := .info
  logFormat : LogFormat := .json
  publicTls : Option TlsSettings := none
  adminTls : Option TlsSettings := none
  telemetryTls : Option TlsSettings := none
  tlsReload : Bool := true
  tlsReloadInterval : Nat := 30
  limits : Limits := {}
  shutdownTimeout : Nat := 30
  secretsProvider : SecretProvider := .none
  secretsDirectory : Option String := none
  secretsEnvPrefix : String := "PIC_X_SECRET"
  auditDestination : AuditDestination := .tracing
  auditDirectory : Option String := none
  auditRetention : Nat := 90 * 24 * 60 * 60
  auditPseudonymEnabled : Bool := false
  auditPseudonymKeyRef : Option SecretRef := none
  auditPseudonymKeyVersion : String := "v1"
  keysEnabled : Bool := false
  keysDirectory : Option String := none
  keysPublishAhead : Nat := 60 * 60
  keysRotateEvery : Nat := 30 * 24 * 60 * 60
  keysRetain : Nat := 365 * 24 * 60 * 60
  keysMaintenanceInterval : Nat := 60
  /-- The lifecycle settings some layer stated, as opposed to defaulted. -/
  keysLifecycleDeclared : List String := []
  realms : List RealmConfig := []
  declared : List String := []
  declaredValues : String → Option String := fun _ => none

/-! ## Layers -/

/-- What a layer says, in the order it says it. -/
abbrev Pairs := List (String × String)

/-- What a layer gives each setting. -/
abbrev Settings := String → Option String

/-- The inputs a configuration is assembled from, in the order they overwrite one another. -/
structure Layers where
  file : Pairs := []
  environment : Pairs := []
  commandLine : Pairs := []

/-- The last non-empty text a layer gives a setting; an empty one means it was not supplied. -/
def settingsOf (inputs : Pairs) : Settings := fun key =>
  ((inputs.filter fun pair => pair.2 ≠ "").reverse.find? fun pair => pair.1 = key).map Prod.snd

/-- A setting read as its type where the layer gives it, and as it was before where it does not. -/
def Settings.read {α : Type} (settings : Settings) (key : String) (parse : String → Result α)
    (previous : α) : Result α :=
  match settings key with
  | some value => withContext s!"reading {key}" (parse value)
  | none => .ok previous

/-- A setting that is kept as it was written, where `keep` puts it. -/
def Settings.keep {α : Type} (settings : Settings) (key : String) (keep : String → α)
    (previous : α) : α := ((settings key).map keep).getD previous

/-! ## One layer -/

/-- The setting names one surface's TLS block reads, beyond the certificate and key. -/
structure TlsKeys where
  clientCa : Option String
  crl : Option String
  allow : Option String
  minVersion : String

/-- The peers a surface that has such a setting answers. -/
def Settings.allowed (settings : Settings) : Option String → Result (List AllowedPeer)
  | some allowKey => settings.read allowKey parseAllowed []
  | none => .ok []

/-- The TLS material of one surface. A layer that gives neither certificate nor key leaves the
material of the layers before it; one that gives both builds it anew. -/
def tlsOf (settings : Settings) (certKey keyKey : String) (keys : TlsKeys)
    (previous : Option TlsSettings) : Result (Option TlsSettings) :=
  match settings certKey, settings keyKey with
  | some certificate, some key => do
    let allow ← settings.allowed keys.allow
    let minVersion ← settings.read keys.minVersion TlsVersion.parse .v1_3
    pure (some
      { TlsSettings.new certificate key with
        clientCa := keys.clientCa.bind settings
        crl := keys.crl.bind settings
        allow
        minVersion })
  | none, none => .ok previous
  | some _, none => bail s!"{certKey} is set but {keyKey} is not"
  | none, some _ => bail s!"{keyKey} is set but {certKey} is not"

def PUBLIC_TLS_KEYS : TlsKeys where
  clientCa := some SETTING_PUBLIC_TLS_CLIENT_CA
  crl := some SETTING_PUBLIC_TLS_CRL
  allow := some SETTING_PUBLIC_TLS_ALLOW
  minVersion := SETTING_PUBLIC_TLS_MIN_VERSION

/-- The administrative surface's peers are `admin.allow`, beside its address. -/
def ADMIN_TLS_KEYS : TlsKeys where
  clientCa := some SETTING_ADMIN_TLS_CLIENT_CA
  crl := some SETTING_ADMIN_TLS_CRL
  allow := none
  minVersion := SETTING_ADMIN_TLS_MIN_VERSION

/-- Telemetry never demands a certificate. -/
def TELEMETRY_TLS_KEYS : TlsKeys where
  clientCa := none
  crl := none
  allow := none
  minVersion := SETTING_TELEMETRY_TLS_MIN_VERSION

/-- Zero is the documented way to switch this bound off, so it is read as a plain number. -/
def parseConnectionsPerPeer (value : String) : Result Nat :=
  match parseUnsigned (2 ^ 32) (trim value) with
  | some count => .ok count
  | none => bail s!"reading {SETTING_LIMITS_CONNECTIONS_PER_PEER}: `{value}` is not a count"

/-- Address blocks between commas; an entry with nothing in it is skipped. -/
def parsePeerExempt (value : String) : Result (List PeerBlock) :=
  (((split ',' value).map trim).filter (· ≠ "")).mapM fun entry =>
    mapErr (fun error => [s!"reading {SETTING_LIMITS_PEER_EXEMPT}: {error}"])
      (PeerBlock.parse entry)

/-- Zero leaves a connection's lifetime unbounded. -/
def parseConnectionLifetime (value : String) : Result (Option Nat) :=
  (parseDurationAllowZero value).map fun lifetime => if lifetime = 0 then none else some lifetime

/-- Some setting's own words for its errors, without another context. -/
def Settings.readPlain {α : Type} (settings : Settings) (key : String) (parse : String → Result α)
    (previous : α) : Result α :=
  match settings key with
  | some value => parse value
  | none => .ok previous

def Config.applyServer (settings : Settings) (c : Config) : Result Config := do
  let autogenerate ← settings.read SETTING_AUTOGENERATE parseBool c.autogenerate
  let developmentMode ← settings.read SETTING_DEVELOPMENT_MODE parseBool c.developmentMode
  let adminAllow ← settings.read SETTING_ADMIN_ALLOW parseAllowed c.adminAllow
  let logLevel ← settings.read SETTING_LOG_LEVEL LogLevel.parse c.logLevel
  let logFormat ← settings.read SETTING_LOG_FORMAT LogFormat.parse c.logFormat
  let discloseBuild ← settings.read SETTING_PUBLIC_DISCLOSE_BUILD parseBool c.discloseBuild
  pure { c with
    version := settings.keep SETTING_VERSION id c.version
    copyrightYear := settings.keep SETTING_COPYRIGHT_YEAR id c.copyrightYear
    copyrightHolder := settings.keep SETTING_COPYRIGHT_HOLDER id c.copyrightHolder
    workingDir := settings.keep SETTING_WORKING_DIR some c.workingDir
    autogenerate
    developmentMode
    issuer := settings.keep SETTING_ISSUER (fun v => some (trimEndMatches (· = '/') v)) c.issuer
    publicPathPrefix :=
      settings.keep SETTING_PUBLIC_PATH_PREFIX (trimEndMatches (· = '/')) c.publicPathPrefix
    publicHttpAddr := settings.keep SETTING_PUBLIC_HTTP_ADDR some c.publicHttpAddr
    telemetryAddr := settings.keep SETTING_TELEMETRY_ADDR some c.telemetryAddr
    adminAddr := settings.keep SETTING_ADMIN_ADDR some c.adminAddr
    adminAllow
    logLevel
    logFormat
    discloseBuild }

def Config.applyTls (settings : Settings) (c : Config) : Result Config := do
  let publicTls ←
    tlsOf settings SETTING_PUBLIC_TLS_CERT SETTING_PUBLIC_TLS_KEY PUBLIC_TLS_KEYS c.publicTls
  let adminTls ←
    tlsOf settings SETTING_ADMIN_TLS_CERT SETTING_ADMIN_TLS_KEY ADMIN_TLS_KEYS c.adminTls
  let telemetryTls ← tlsOf settings SETTING_TELEMETRY_TLS_CERT SETTING_TELEMETRY_TLS_KEY
    TELEMETRY_TLS_KEYS c.telemetryTls
  let tlsReload ← settings.read SETTING_TLS_RELOAD parseBool c.tlsReload
  let tlsReloadInterval ←
    settings.read SETTING_TLS_RELOAD_INTERVAL parseDuration c.tlsReloadInterval
  pure { c with publicTls, adminTls, telemetryTls, tlsReload, tlsReloadInterval }

def Limits.apply (settings : Settings) (l : Limits) : Result Limits := do
  let connections ← settings.read SETTING_LIMITS_CONNECTIONS parseCount l.connections
  let connectionsPerPeer ← settings.readPlain SETTING_LIMITS_CONNECTIONS_PER_PEER
    parseConnectionsPerPeer l.connectionsPerPeer
  let peerExempt ← settings.readPlain SETTING_LIMITS_PEER_EXEMPT parsePeerExempt l.peerExempt
  let connectionLifetime ←
    settings.read SETTING_LIMITS_CONNECTION_LIFETIME parseConnectionLifetime l.connectionLifetime
  let writeStallTimeout ←
    settings.read SETTING_LIMITS_WRITE_STALL_TIMEOUT parseDuration l.writeStallTimeout
  let concurrentRequests ←
    settings.read SETTING_LIMITS_CONCURRENT_REQUESTS parseCount l.concurrentRequests
  let requestTimeout ← settings.read SETTING_LIMITS_REQUEST_TIMEOUT parseDuration l.requestTimeout
  let handshakeTimeout ←
    settings.read SETTING_LIMITS_HANDSHAKE_TIMEOUT parseDuration l.handshakeTimeout
  let headerTimeout ← settings.read SETTING_LIMITS_HEADER_TIMEOUT parseDuration l.headerTimeout
  let bodyBytes ← settings.read SETTING_LIMITS_BODY_BYTES parseBytes l.bodyBytes
  let headerBytes ← settings.read SETTING_LIMITS_HEADER_BYTES parseBytes l.headerBytes
  pure { l with
    connections, connectionsPerPeer, peerExempt, concurrentRequests, requestTimeout,
    handshakeTimeout, headerTimeout, bodyBytes, headerBytes, connectionLifetime,
    writeStallTimeout }

def Config.applyRecords (settings : Settings) (c : Config) : Result Config := do
  let shutdownTimeout ← settings.read SETTING_SHUTDOWN_TIMEOUT parseDuration c.shutdownTimeout
  let secretsProvider ←
    settings.read SETTING_SECRETS_PROVIDER SecretProvider.parse c.secretsProvider
  let auditPseudonymEnabled ←
    settings.read SETTING_AUDIT_PSEUDONYM_ENABLED parseBool c.auditPseudonymEnabled
  let auditDestination ←
    settings.read SETTING_AUDIT_SINK AuditDestination.parse c.auditDestination
  let auditRetention ← settings.read SETTING_AUDIT_RETENTION parseDuration c.auditRetention
  pure { c with
    shutdownTimeout
    secretsProvider
    secretsDirectory := settings.keep SETTING_SECRETS_DIRECTORY some c.secretsDirectory
    secretsEnvPrefix := settings.keep SETTING_SECRETS_ENV_PREFIX id c.secretsEnvPrefix
    auditPseudonymEnabled
    auditPseudonymKeyRef :=
      settings.keep SETTING_AUDIT_PSEUDONYM_KEY_REF (fun v => some ⟨v⟩) c.auditPseudonymKeyRef
    auditPseudonymKeyVersion :=
      settings.keep SETTING_AUDIT_PSEUDONYM_KEY_VERSION id c.auditPseudonymKeyVersion
    auditDestination
    auditDirectory := settings.keep SETTING_AUDIT_DIRECTORY some c.auditDirectory
    auditRetention }

/-- A lifecycle setting a layer gives is a stated one. -/
def declare (settings : Settings) (key : String) (declared : List String) : List String :=
  if (settings key).isSome then declared.insert key else declared

def Config.applyKeys (settings : Settings) (c : Config) : Result Config := do
  let keysEnabled ← settings.read SETTING_KEYS_ENABLED parseBool c.keysEnabled
  let keysPublishAhead ←
    settings.read SETTING_KEYS_PUBLISH_AHEAD parseDuration c.keysPublishAhead
  let keysRotateEvery ← settings.read SETTING_KEYS_ROTATE_EVERY parseDuration c.keysRotateEvery
  let keysRetain ← settings.read SETTING_KEYS_RETAIN parseDuration c.keysRetain
  let keysMaintenanceInterval ←
    settings.read SETTING_KEYS_MAINTENANCE_INTERVAL parseDuration c.keysMaintenanceInterval
  pure { c with
    keysEnabled
    keysDirectory := settings.keep SETTING_KEYS_DIRECTORY some c.keysDirectory
    keysPublishAhead
    keysRotateEvery
    keysRetain
    keysMaintenanceInterval
    keysLifecycleDeclared :=
      declare settings SETTING_KEYS_RETAIN (declare settings SETTING_KEYS_ROTATE_EVERY
        (declare settings SETTING_KEYS_PUBLISH_AHEAD c.keysLifecycleDeclared)) }

/-- The settings this build declared, as they were written. -/
def Config.applyDeclared (settings : Settings) (c : Config) : Config :=
  { c with declaredValues := fun key =>
      if key ∈ c.declared then settings.keep key some (c.declaredValues key)
      else c.declaredValues key }

/-- Applies one layer: a setting it does not give stays as it was. -/
def Config.applyPairs (inputs : Pairs) (c : Config) : Result Config := do
  let settings := settingsOf inputs
  let c ← c.applyServer settings
  let c ← c.applyTls settings
  let limits ← c.limits.apply settings
  let c ← { c with limits }.applyRecords settings
  let c ← c.applyKeys settings
  pure (c.applyDeclared settings)

/-! ## All layers -/

def Config.applyBuildSettings (build : BuildSettings) (c : Config) : Config :=
  { c with
    version := build.version
    commit := build.commit
    copyrightYear := build.copyrightYear
    copyrightHolder := build.copyrightHolder }

/-- A layer's value that cannot be read as its type is an error, also when a later layer would
overwrite it. -/
def Config.fromLayers (build : BuildSettings) (declared : List String) (layers : Layers) :
    Result Config := do
  let c := Config.applyBuildSettings build { declared }
  let c ← c.applyPairs layers.file
  let c ← c.applyPairs layers.environment
  c.applyPairs layers.commandLine

/-- A declared setting's effective text. -/
def Config.setting (c : Config) (key : String) : Option String := c.declaredValues key

end PicX.Core
