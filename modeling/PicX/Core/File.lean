import PicX.Core.Realms

/-!
# The configuration file (`pic-x-core/src/config_file.rs`)

The sections of the file as it is parsed, the realm files of the directory it may name, and what
it contributes: flat settings (`ConfigFile.settings`) and realms (`ConfigFile.realmInputs`). The
values are kept as text; the configuration reads them as types.

* `gatherRealmsFrom`: the one-realm files, appended to the realms declared inline.
* `load`: a document as a configuration, with nothing in the layers above it.
-/

namespace PicX.Core

/-! ## Sections -/

structure TlsSection where
  cert : Option String := none
  allow : Option (List String) := none
  key : Option String := none
  clientCa : Option String := none
  crl : Option String := none
  minVersion : Option String := none
  deriving DecidableEq, Repr

structure PublicSection where
  http : Option String := none
  discloseBuild : Option String := none
  url : Option String := none
  pathPrefix : Option String := none
  tls : TlsSection := {}
  deriving DecidableEq, Repr

/-- No client authority, on purpose. -/
structure TelemetryTlsSection where
  cert : Option String := none
  key : Option String := none
  minVersion : Option String := none
  deriving DecidableEq, Repr

structure TelemetrySection where
  addr : Option String := none
  tls : TelemetryTlsSection := {}
  deriving DecidableEq, Repr

structure AdminSection where
  addr : Option String := none
  tls : TlsSection := {}
  allow : List String := []
  deriving DecidableEq, Repr

structure TransportSection where
  reload : Option String := none
  reloadInterval : Option String := none
  deriving DecidableEq, Repr

structure LimitsSection where
  connections : Option String := none
  connectionsPerPeer : Option String := none
  peerExempt : Option (List String) := none
  connectionLifetime : Option String := none
  writeStallTimeout : Option String := none
  concurrentRequests : Option String := none
  requestTimeout : Option String := none
  handshakeTimeout : Option String := none
  headerTimeout : Option String := none
  bodyBytes : Option String := none
  headerBytes : Option String := none
  deriving DecidableEq, Repr

structure LogSection where
  level : Option String := none
  format : Option String := none
  deriving DecidableEq, Repr

structure ShutdownSection where
  timeout : Option String := none
  deriving DecidableEq, Repr

structure KeysSection where
  enabled : Option String := none
  directory : Option String := none
  publishAhead : Option String := none
  rotateEvery : Option String := none
  retain : Option String := none
  maintenanceInterval : Option String := none
  deriving DecidableEq, Repr

structure PseudonymSection where
  enabled : Option String := none
  keyRef : Option String := none
  keyVersion : Option String := none
  deriving DecidableEq, Repr

structure AuditSection where
  sink : Option String := none
  directory : Option String := none
  retention : Option String := none
  pseudonym : PseudonymSection := {}
  deriving DecidableEq, Repr

structure SecretsSection where
  provider : Option String := none
  directory : Option String := none
  envPrefix : Option String := none
  deriving DecidableEq, Repr

structure OperationsSection where
  keys : KeysSection := {}
  audit : AuditSection := {}
  secrets : SecretsSection := {}
  deriving DecidableEq, Repr

/-! ## Realm sections -/

structure RealmKeysSection where
  enabled : Option String := none
  publishAhead : Option String := none
  rotateEvery : Option String := none
  retain : Option String := none
  deriving DecidableEq, Repr

structure RealmAuditSection where
  sink : Option String := none
  retention : Option String := none
  pseudonym : PseudonymSection := {}
  deriving DecidableEq, Repr

structure RealmSecretsSection where
  provider : Option String := none
  envPrefix : Option String := none
  deriving DecidableEq, Repr

structure RealmOperationsSection where
  keys : RealmKeysSection := {}
  audit : RealmAuditSection := {}
  secrets : RealmSecretsSection := {}
  deriving DecidableEq, Repr

structure ExchangeTokenValidationSection where
  allowedAlgorithms : List String := []
  requireExpiration : Option Bool := none
  requireTokenType : Option String := none
  deriving DecidableEq, Repr

structure ExchangeProfileSourceSection where
  tokenType : String
  format : String
  issuer : String
  discoveryUrl : Option String := none
  audience : String
  validation : ExchangeTokenValidationSection := {}
  deriving DecidableEq, Repr

/-- A claim mapping has the shape of the mapping it becomes (`ClaimMappingSection`), and a
privilege rule that of the rule. -/
structure ExchangeProfileClaimsSection where
  identityContext : List (String × Realm.ClaimMapping) := []
  scopes : Realm.ClaimMapping
  deriving DecidableEq, Repr

structure ExchangeProfileSection where
  id : String
  source : ExchangeProfileSourceSection
  claims : ExchangeProfileClaimsSection
  privileges : Realm.ExchangeProfilePrivileges
  onUnmatchedScope : Option String := none
  deriving DecidableEq, Repr

/-- One realm as the file declares it. Only its name is required. -/
structure RealmSection where
  name : String
  tokenLifetime : Option String := none
  tokenInitialExpiryPolicy : Option String := none
  keyCacheStaleFor : Option String := none
  tokenSigningAlgorithm : Option String := none
  issuer : Option String := none
  listed : Option String := none
  keys : RealmKeysSection := {}
  operations : RealmOperationsSection := {}
  exchangeProfiles : List ExchangeProfileSection := []
  attesters : List Realm.TrustedAttesterConfig := []
  deriving DecidableEq, Repr

def ExchangeProfileSection.toInput (p : ExchangeProfileSection) : Realm.ExchangeProfileConfig where
  id := p.id
  source :=
    { tokenType := p.source.tokenType
      format := p.source.format
      issuer := p.source.issuer
      discoveryUrl := p.source.discoveryUrl
      audience := p.source.audience
      validation :=
        { allowedAlgorithms := p.source.validation.allowedAlgorithms
          requireExpiration := p.source.validation.requireExpiration.getD false
          requireTokenType := p.source.validation.requireTokenType } }
  claims :=
    { identityContext := p.claims.identityContext
      scopes := p.claims.scopes }
  privileges := p.privileges
  onUnmatchedScope := p.onUnmatchedScope.getD Realm.EXCHANGE_ON_UNMATCHED_SCOPE_REJECT

def RealmSection.toInput (r : RealmSection) : RealmInput where
  name := r.name
  issuer := r.issuer
  listed := r.listed
  tokenKeysEnabled := r.keys.enabled
  tokenKeysPublishAhead := r.keys.publishAhead
  tokenKeysRotateEvery := r.keys.rotateEvery
  tokenKeysRetain := r.keys.retain
  operationsKeysEnabled := r.operations.keys.enabled
  operationsKeysPublishAhead := r.operations.keys.publishAhead
  operationsKeysRotateEvery := r.operations.keys.rotateEvery
  operationsKeysRetain := r.operations.keys.retain
  auditSink := r.operations.audit.sink
  auditRetention := r.operations.audit.retention
  auditPseudonymEnabled := r.operations.audit.pseudonym.enabled
  auditPseudonymKeyRef := r.operations.audit.pseudonym.keyRef
  auditPseudonymKeyVersion := r.operations.audit.pseudonym.keyVersion
  secretsProvider := r.operations.secrets.provider
  secretsEnvPrefix := r.operations.secrets.envPrefix
  tokenLifetime := r.tokenLifetime
  tokenInitialExpiryPolicy := r.tokenInitialExpiryPolicy
  keyCacheStaleFor := r.keyCacheStaleFor
  tokenSigningAlgorithm := r.tokenSigningAlgorithm
  exchangeProfiles := r.exchangeProfiles.map ExchangeProfileSection.toInput
  trustedAttesters := r.attesters

/-! ## The file -/

structure ConfigFile where
  workingDir : Option String := none
  autogenerate : Option String := none
  developmentMode : Option String := none
  publicHttp : PublicSection := {}
  telemetry : TelemetrySection := {}
  admin : AdminSection := {}
  tls : TransportSection := {}
  limits : LimitsSection := {}
  log : LogSection := {}
  shutdown : ShutdownSection := {}
  operations : OperationsSection := {}
  realms : List RealmSection := []
  realmsFrom : Option String := none
  deriving DecidableEq, Repr

/-- A list as one setting whose value has separators in it; an empty list is no setting. -/
def joined (separator : String) (entries : List String) : Option String :=
  if entries = [] then none else some (joinWith separator entries)

/-- Every setting the file can define, with what it says of it. -/
def ConfigFile.candidates (f : ConfigFile) : List (String × Option String) :=
  [(SETTING_WORKING_DIR, f.workingDir),
    (SETTING_AUTOGENERATE, f.autogenerate),
    (SETTING_DEVELOPMENT_MODE, f.developmentMode),
    (SETTING_ISSUER, f.publicHttp.url),
    (SETTING_ADMIN_ALLOW, joined "\n" f.admin.allow),
    (SETTING_TLS_RELOAD, f.tls.reload),
    (SETTING_TLS_RELOAD_INTERVAL, f.tls.reloadInterval),
    (SETTING_LIMITS_CONNECTIONS, f.limits.connections),
    (SETTING_LIMITS_CONNECTIONS_PER_PEER, f.limits.connectionsPerPeer),
    (SETTING_LIMITS_PEER_EXEMPT, f.limits.peerExempt.bind (joined ",")),
    (SETTING_LIMITS_CONNECTION_LIFETIME, f.limits.connectionLifetime),
    (SETTING_LIMITS_WRITE_STALL_TIMEOUT, f.limits.writeStallTimeout),
    (SETTING_LIMITS_CONCURRENT_REQUESTS, f.limits.concurrentRequests),
    (SETTING_LIMITS_REQUEST_TIMEOUT, f.limits.requestTimeout),
    (SETTING_LIMITS_HANDSHAKE_TIMEOUT, f.limits.handshakeTimeout),
    (SETTING_LIMITS_HEADER_TIMEOUT, f.limits.headerTimeout),
    (SETTING_LIMITS_HEADER_BYTES, f.limits.headerBytes),
    (SETTING_LIMITS_BODY_BYTES, f.limits.bodyBytes),
    (SETTING_PUBLIC_TLS_CRL, f.publicHttp.tls.crl),
    (SETTING_PUBLIC_TLS_ALLOW, f.publicHttp.tls.allow.bind (joined "\n")),
    (SETTING_PUBLIC_DISCLOSE_BUILD, f.publicHttp.discloseBuild),
    (SETTING_ADMIN_TLS_CRL, f.admin.tls.crl),
    (SETTING_AUDIT_SINK, f.operations.audit.sink),
    (SETTING_AUDIT_DIRECTORY, f.operations.audit.directory),
    (SETTING_AUDIT_RETENTION, f.operations.audit.retention),
    (SETTING_KEYS_ENABLED, f.operations.keys.enabled),
    (SETTING_KEYS_DIRECTORY, f.operations.keys.directory),
    (SETTING_KEYS_PUBLISH_AHEAD, f.operations.keys.publishAhead),
    (SETTING_KEYS_ROTATE_EVERY, f.operations.keys.rotateEvery),
    (SETTING_KEYS_RETAIN, f.operations.keys.retain),
    (SETTING_KEYS_MAINTENANCE_INTERVAL, f.operations.keys.maintenanceInterval),
    (SETTING_PUBLIC_PATH_PREFIX, f.publicHttp.pathPrefix),
    (SETTING_PUBLIC_HTTP_ADDR, f.publicHttp.http),
    (SETTING_TELEMETRY_ADDR, f.telemetry.addr),
    (SETTING_ADMIN_ADDR, f.admin.addr),
    (SETTING_LOG_LEVEL, f.log.level),
    (SETTING_PUBLIC_TLS_CERT, f.publicHttp.tls.cert),
    (SETTING_PUBLIC_TLS_KEY, f.publicHttp.tls.key),
    (SETTING_PUBLIC_TLS_CLIENT_CA, f.publicHttp.tls.clientCa),
    (SETTING_PUBLIC_TLS_MIN_VERSION, f.publicHttp.tls.minVersion),
    (SETTING_ADMIN_TLS_CERT, f.admin.tls.cert),
    (SETTING_ADMIN_TLS_KEY, f.admin.tls.key),
    (SETTING_ADMIN_TLS_CLIENT_CA, f.admin.tls.clientCa),
    (SETTING_ADMIN_TLS_MIN_VERSION, f.admin.tls.minVersion),
    (SETTING_TELEMETRY_TLS_CERT, f.telemetry.tls.cert),
    (SETTING_TELEMETRY_TLS_KEY, f.telemetry.tls.key),
    (SETTING_TELEMETRY_TLS_MIN_VERSION, f.telemetry.tls.minVersion),
    (SETTING_LOG_FORMAT, f.log.format),
    (SETTING_SHUTDOWN_TIMEOUT, f.shutdown.timeout),
    (SETTING_SECRETS_PROVIDER, f.operations.secrets.provider),
    (SETTING_SECRETS_DIRECTORY, f.operations.secrets.directory),
    (SETTING_SECRETS_ENV_PREFIX, f.operations.secrets.envPrefix),
    (SETTING_AUDIT_PSEUDONYM_ENABLED, f.operations.audit.pseudonym.enabled),
    (SETTING_AUDIT_PSEUDONYM_KEY_REF, f.operations.audit.pseudonym.keyRef),
    (SETTING_AUDIT_PSEUDONYM_KEY_VERSION, f.operations.audit.pseudonym.keyVersion)]

/-- The settings this file actually defines, as the configuration-file layer. -/
def ConfigFile.settings (f : ConfigFile) : Pairs :=
  f.candidates.filterMap fun (key, value) => value.map fun value => (key, value)

/-- The realms this file declares, in the file's order. -/
def ConfigFile.realmInputs (f : ConfigFile) : List RealmInput := f.realms.map RealmSection.toInput

/-! ## Realm files -/

/-- One entry of the realms directory, with what reading it as a realm gives. -/
structure DirEntry where
  name : String
  isFile : Bool
  realm : Result RealmSection

/-- A file's name before and after its last dot (`Path::file_stem`, `Path::extension`). -/
def stemAndExtension (name : String) : String × Option String :=
  match rsplitOnce '.' name with
  | some (stem, extension) => if stem = "" then (name, none) else (stem, some extension)
  | none => (name, none)

def DirEntry.isHidden (e : DirEntry) : Bool := e.name.toList.head? == some '.'

def DirEntry.isRealmFile (e : DirEntry) : Bool :=
  e.isFile &&
    ((stemAndExtension e.name).2 == some "yml" || (stemAndExtension e.name).2 == some "yaml")

/-- The directory relative to the configuration file's own; an absolute one stands for itself. -/
def realmsDirectory (parent named : String) : String :=
  if named.toList.head? = some '/' then named else join parent named

/-- Reads one realm file; it is named after its realm, and its name is not taken. -/
def gatherRealm (directory : String) (realms : List RealmSection) (e : DirEntry) :
    Result (List RealmSection) := do
  let path := join directory e.name
  let realm ← withContext s!"parsing the realm file {path}" e.realm
  if realm.name ≠ (stemAndExtension e.name).1 then
    bail (s!"the realm file {path} declares a realm named `{realm.name}`: a realm file is named " ++
      "after its realm, so the directory listing is the realm listing")
  else if realms.any (·.name = realm.name) then
    bail (s!"the realm file {path} declares `{realm.name}` again: a realm name has to be " ++
      "unique, because it is what decides whose keys sign and whose trail records")
  else pure (realms ++ [realm])

/-- The visible entries, each of which has to be a realm file, in the order of their names. -/
def visibleFiles (directory : String) (entries : List DirEntry) : Result (List DirEntry) := do
  let files ← (entries.filter (!·.isHidden)).mapM fun e =>
    if e.isRealmFile then pure e
    else bail (s!"the realms directory {directory} contains `{e.name}`, which is not a realm " ++
      "file: every visible entry is one realm, `<name>.yml`")
  pure (files.mergeSort fun a b => a.name ≤ b.name)

/-- Reads the one-realm files of the directory the file names, appending each to its realms. The
check on `admin.tls.allow` stands here, behind the name of a directory. -/
def ConfigFile.gatherRealmsFrom (readDir : String → Result (List DirEntry)) (parent : String)
    (f : ConfigFile) : Result ConfigFile :=
  match f.realmsFrom with
  | none => .ok f
  | some named => do
    let directory := realmsDirectory parent named
    let entries ← withContext s!"reading the realms directory {directory}" (readDir directory)
    let files ← visibleFiles directory entries
    let realms ← files.foldlM (gatherRealm directory) f.realms
    if f.admin.tls.allow.any (· ≠ []) then
      bail ("`admin.tls.allow` is not read: the administrative surface's peers are listed under " ++
        "`admin.allow`")
    else pure { f with realms }

/-! ## A document as a configuration -/

/-- What the file is loaded in: a build, the settings it declares, the directory of the file and
the other directories of the volume. -/
structure Deployment where
  build : BuildSettings
  declared : List String
  upper : Uppercase
  parent : String
  /-- The directories that can be read, with what is in them. -/
  directories : List (String × List DirEntry)

def Deployment.readDir (d : Deployment) (directory : String) : Result (List DirEntry) :=
  match d.directories.find? (·.1 = directory) with
  | some (_, entries) => .ok entries
  | none => bail "No such file or directory (os error 2)"

/-- The configuration of a file and the layers above it. -/
def Deployment.config (d : Deployment) (f : ConfigFile) (environment commandLine : Pairs) :
    Result Config := do
  let f ← f.gatherRealmsFrom d.readDir d.parent
  let c ← Config.fromLayers d.build d.declared { file := f.settings, environment, commandLine }
  c.withRealms d.upper f.realmInputs

end PicX.Core
