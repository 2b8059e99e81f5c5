import PicX.Core.Settings

/-!
# Layering

Every setting is one key, read as one type, and kept in one place of the configuration
(`Setting.field`); the TLS settings of a listener share one block. This module says what a layer
does to each of them, and what the three layers leave:

* `applyPairs_gives`: a layer changes a setting outside the TLS blocks exactly when it gives it.
* `applyPairs_tls`: a layer that gives a listener's certificate and key replaces its whole block.
* `layering`: **every setting has the value the last layer that gives it gives**, exactly when the
  layer each TLS block comes from agrees with the last layer on every setting of the block.
-/

namespace PicX.Core

/-! ## The table of settings -/

/-- Where a setting is given, how it is read and where it is kept. -/
structure Field where
  Value : Type
  key : String
  parse : String → Result Value
  get : Config → Value

/-- The typed settings outside the TLS blocks. -/
inductive Setting where
  | version | copyrightYear | copyrightHolder | workingDir | autogenerate | developmentMode
  | issuer | publicPathPrefix | publicHttpAddr | telemetryAddr | adminAddr | adminAllow
  | logLevel | logFormat | discloseBuild | tlsReload | tlsReloadInterval
  | connections | connectionsPerPeer | peerExempt | connectionLifetime | writeStallTimeout
  | concurrentRequests | requestTimeout | handshakeTimeout | headerTimeout | bodyBytes | headerBytes
  | shutdownTimeout | secretsProvider | secretsDirectory | secretsEnvPrefix
  | auditPseudonymEnabled | auditPseudonymKeyRef | auditPseudonymKeyVersion
  | auditSink | auditDirectory | auditRetention
  | keysEnabled | keysDirectory | keysPublishAhead | keysRotateEvery | keysRetain
  | keysMaintenanceInterval
  deriving DecidableEq, Repr

def Setting.field : Setting → Field
  | .version => ⟨_, SETTING_VERSION, .ok, (·.version)⟩
  | .copyrightYear => ⟨_, SETTING_COPYRIGHT_YEAR, .ok, (·.copyrightYear)⟩
  | .copyrightHolder => ⟨_, SETTING_COPYRIGHT_HOLDER, .ok, (·.copyrightHolder)⟩
  | .workingDir => ⟨_, SETTING_WORKING_DIR, fun v => .ok (some v), (·.workingDir)⟩
  | .autogenerate => ⟨_, SETTING_AUTOGENERATE, parseBool, (·.autogenerate)⟩
  | .developmentMode => ⟨_, SETTING_DEVELOPMENT_MODE, parseBool, (·.developmentMode)⟩
  | .issuer => ⟨_, SETTING_ISSUER, fun v => .ok (some (trimEndMatches (· = '/') v)), (·.issuer)⟩
  | .publicPathPrefix =>
    ⟨_, SETTING_PUBLIC_PATH_PREFIX, fun v => .ok (trimEndMatches (· = '/') v), (·.publicPathPrefix)⟩
  | .publicHttpAddr => ⟨_, SETTING_PUBLIC_HTTP_ADDR, fun v => .ok (some v), (·.publicHttpAddr)⟩
  | .telemetryAddr => ⟨_, SETTING_TELEMETRY_ADDR, fun v => .ok (some v), (·.telemetryAddr)⟩
  | .adminAddr => ⟨_, SETTING_ADMIN_ADDR, fun v => .ok (some v), (·.adminAddr)⟩
  | .adminAllow => ⟨_, SETTING_ADMIN_ALLOW, parseAllowed, (·.adminAllow)⟩
  | .logLevel => ⟨_, SETTING_LOG_LEVEL, LogLevel.parse, (·.logLevel)⟩
  | .logFormat => ⟨_, SETTING_LOG_FORMAT, LogFormat.parse, (·.logFormat)⟩
  | .discloseBuild => ⟨_, SETTING_PUBLIC_DISCLOSE_BUILD, parseBool, (·.discloseBuild)⟩
  | .tlsReload => ⟨_, SETTING_TLS_RELOAD, parseBool, (·.tlsReload)⟩
  | .tlsReloadInterval => ⟨_, SETTING_TLS_RELOAD_INTERVAL, parseDuration, (·.tlsReloadInterval)⟩
  | .connections => ⟨_, SETTING_LIMITS_CONNECTIONS, parseCount, (·.limits.connections)⟩
  | .connectionsPerPeer => ⟨_, SETTING_LIMITS_CONNECTIONS_PER_PEER, parseConnectionsPerPeer,
      (·.limits.connectionsPerPeer)⟩
  | .peerExempt => ⟨_, SETTING_LIMITS_PEER_EXEMPT, parsePeerExempt, (·.limits.peerExempt)⟩
  | .connectionLifetime => ⟨_, SETTING_LIMITS_CONNECTION_LIFETIME, parseConnectionLifetime,
      (·.limits.connectionLifetime)⟩
  | .writeStallTimeout =>
    ⟨_, SETTING_LIMITS_WRITE_STALL_TIMEOUT, parseDuration, (·.limits.writeStallTimeout)⟩
  | .concurrentRequests =>
    ⟨_, SETTING_LIMITS_CONCURRENT_REQUESTS, parseCount, (·.limits.concurrentRequests)⟩
  | .requestTimeout => ⟨_, SETTING_LIMITS_REQUEST_TIMEOUT, parseDuration, (·.limits.requestTimeout)⟩
  | .handshakeTimeout =>
    ⟨_, SETTING_LIMITS_HANDSHAKE_TIMEOUT, parseDuration, (·.limits.handshakeTimeout)⟩
  | .headerTimeout => ⟨_, SETTING_LIMITS_HEADER_TIMEOUT, parseDuration, (·.limits.headerTimeout)⟩
  | .bodyBytes => ⟨_, SETTING_LIMITS_BODY_BYTES, parseBytes, (·.limits.bodyBytes)⟩
  | .headerBytes => ⟨_, SETTING_LIMITS_HEADER_BYTES, parseBytes, (·.limits.headerBytes)⟩
  | .shutdownTimeout => ⟨_, SETTING_SHUTDOWN_TIMEOUT, parseDuration, (·.shutdownTimeout)⟩
  | .secretsProvider => ⟨_, SETTING_SECRETS_PROVIDER, SecretProvider.parse, (·.secretsProvider)⟩
  | .secretsDirectory => ⟨_, SETTING_SECRETS_DIRECTORY, fun v => .ok (some v), (·.secretsDirectory)⟩
  | .secretsEnvPrefix => ⟨_, SETTING_SECRETS_ENV_PREFIX, .ok, (·.secretsEnvPrefix)⟩
  | .auditPseudonymEnabled =>
    ⟨_, SETTING_AUDIT_PSEUDONYM_ENABLED, parseBool, (·.auditPseudonymEnabled)⟩
  | .auditPseudonymKeyRef =>
    ⟨_, SETTING_AUDIT_PSEUDONYM_KEY_REF, fun v => .ok (some ⟨v⟩), (·.auditPseudonymKeyRef)⟩
  | .auditPseudonymKeyVersion =>
    ⟨_, SETTING_AUDIT_PSEUDONYM_KEY_VERSION, .ok, (·.auditPseudonymKeyVersion)⟩
  | .auditSink => ⟨_, SETTING_AUDIT_SINK, AuditDestination.parse, (·.auditDestination)⟩
  | .auditDirectory => ⟨_, SETTING_AUDIT_DIRECTORY, fun v => .ok (some v), (·.auditDirectory)⟩
  | .auditRetention => ⟨_, SETTING_AUDIT_RETENTION, parseDuration, (·.auditRetention)⟩
  | .keysEnabled => ⟨_, SETTING_KEYS_ENABLED, parseBool, (·.keysEnabled)⟩
  | .keysDirectory => ⟨_, SETTING_KEYS_DIRECTORY, fun v => .ok (some v), (·.keysDirectory)⟩
  | .keysPublishAhead => ⟨_, SETTING_KEYS_PUBLISH_AHEAD, parseDuration, (·.keysPublishAhead)⟩
  | .keysRotateEvery => ⟨_, SETTING_KEYS_ROTATE_EVERY, parseDuration, (·.keysRotateEvery)⟩
  | .keysRetain => ⟨_, SETTING_KEYS_RETAIN, parseDuration, (·.keysRetain)⟩
  | .keysMaintenanceInterval =>
    ⟨_, SETTING_KEYS_MAINTENANCE_INTERVAL, parseDuration, (·.keysMaintenanceInterval)⟩

/-! ## One layer and a setting -/

/-- A value was read from the layer's text where there is one, and is the previous one where there
is none. -/
def Gives {α : Type} (given : Option String) (parse : String → Result α) (previous next : α) :
    Prop :=
  match given with
  | some value => parse value = .ok next
  | none => next = previous

section

variable {α : Type} {settings : Settings} {key : String} {parse : String → Result α}
  {previous next : α}

theorem read_ok : settings.read key parse previous = .ok next ↔
    Gives (settings key) parse previous next := by
  unfold Settings.read Gives
  cases settings key with
  | some value => exact withContext_ok
  | none => exact pure_ok.trans eq_comm

theorem readPlain_ok : settings.readPlain key parse previous = .ok next ↔
    Gives (settings key) parse previous next := by
  unfold Settings.readPlain Gives
  cases settings key with
  | some value => exact Iff.rfl
  | none => exact pure_ok.trans eq_comm

theorem keep_gives (keep : String → α) :
    Gives (settings key) (fun v => .ok (keep v)) previous (settings.keep key keep previous) := by
  unfold Settings.keep Gives
  cases settings key <;> rfl

end

/-- The parts of the configuration a layer is applied to one after the other. -/
inductive Part where
  | server
  | transport
  | limits
  | records
  | keys
  deriving DecidableEq, Repr

def Setting.part : Setting → Part
  | .version | .copyrightYear | .copyrightHolder | .workingDir | .autogenerate | .developmentMode
  | .issuer | .publicPathPrefix | .publicHttpAddr | .telemetryAddr | .adminAddr | .adminAllow
  | .logLevel | .logFormat | .discloseBuild => .server
  | .tlsReload | .tlsReloadInterval => .transport
  | .connections | .connectionsPerPeer | .peerExempt | .connectionLifetime | .writeStallTimeout
  | .concurrentRequests | .requestTimeout | .handshakeTimeout | .headerTimeout | .bodyBytes
  | .headerBytes => .limits
  | .shutdownTimeout | .secretsProvider | .secretsDirectory | .secretsEnvPrefix
  | .auditPseudonymEnabled | .auditPseudonymKeyRef | .auditPseudonymKeyVersion
  | .auditSink | .auditDirectory | .auditRetention => .records
  | .keysEnabled | .keysDirectory | .keysPublishAhead | .keysRotateEvery | .keysRetain
  | .keysMaintenanceInterval => .keys

/-! ## Listeners -/

inductive Listener where
  | publicHttp
  | admin
  | telemetry
  deriving DecidableEq, Repr

def Listener.certKey : Listener → String
  | .publicHttp => SETTING_PUBLIC_TLS_CERT
  | .admin => SETTING_ADMIN_TLS_CERT
  | .telemetry => SETTING_TELEMETRY_TLS_CERT

def Listener.keyKey : Listener → String
  | .publicHttp => SETTING_PUBLIC_TLS_KEY
  | .admin => SETTING_ADMIN_TLS_KEY
  | .telemetry => SETTING_TELEMETRY_TLS_KEY

def Listener.keys : Listener → TlsKeys
  | .publicHttp => PUBLIC_TLS_KEYS
  | .admin => ADMIN_TLS_KEYS
  | .telemetry => TELEMETRY_TLS_KEYS

def Config.tls (c : Config) : Listener → Option TlsSettings
  | .publicHttp => c.publicTls
  | .admin => c.adminTls
  | .telemetry => c.telemetryTls

/-- Where a setting of a TLS block is given, for the listeners that have it, how it is read and
what it is of the listener's material. -/
structure TlsField where
  Value : Type
  key : Listener → Option String
  parse : String → Result Value
  get : Option TlsSettings → Value

/-- The settings of a TLS block. -/
inductive TlsSetting where
  | certificate
  | key
  | clientCa
  | crl
  | allow
  | minVersion
  deriving DecidableEq, Repr

def TlsSetting.field : TlsSetting → TlsField
  | .certificate => ⟨_, fun l => some l.certKey, fun v => .ok (some v), Option.map (·.certificate)⟩
  | .key => ⟨_, fun l => some l.keyKey, fun v => .ok (some v), Option.map (·.key)⟩
  | .clientCa => ⟨_, (·.keys.clientCa), fun v => .ok (some v), fun tls => tls.bind (·.clientCa)⟩
  | .crl => ⟨_, (·.keys.crl), fun v => .ok (some v), fun tls => tls.bind (·.crl)⟩
  | .allow => ⟨_, (·.keys.allow), parseAllowed, fun tls => (tls.map (·.allow)).getD []⟩
  | .minVersion => ⟨_, fun l => some l.keys.minVersion, TlsVersion.parse,
      fun tls => (tls.map (·.minVersion)).getD .v1_3⟩

/-! ## One layer, part by part -/

/-- One part was read from the layer, and no other was touched. -/
structure Applies (part : Part) (settings : Settings) (c c' : Config) : Prop where
  reads : ∀ k : Setting, k.part = part →
    Gives (settings k.field.key) k.field.parse (k.field.get c) (k.field.get c')
  others : ∀ k : Setting, k.part ≠ part → k.field.get c' = k.field.get c
  tls : part ≠ .transport → c'.tls = c.tls
  declared : c'.declared = c.declared
  values : c'.declaredValues = c.declaredValues

variable {c c' : Config} {inputs : Pairs} {settings : Settings}

theorem applyServer_applies (h : c.applyServer settings = .ok c') :
    Applies .server settings c c' := by
  simp only [Config.applyServer, bind_ok, pure_ok] at h
  obtain ⟨_, hautogenerate, _, hdevelopment, _, hallow, _, hlevel, _, hformat, _, hdisclose,
    rfl⟩ := h
  refine ⟨fun k hk => ?_, fun k hk => ?_, fun hp => funext fun l => by cases l <;> rfl, rfl, rfl⟩
  · cases k <;> dsimp only [Setting.field]
    case autogenerate => exact read_ok.mp hautogenerate
    case developmentMode => exact read_ok.mp hdevelopment
    case adminAllow => exact read_ok.mp hallow
    case logLevel => exact read_ok.mp hlevel
    case logFormat => exact read_ok.mp hformat
    case discloseBuild => exact read_ok.mp hdisclose
    case version | copyrightYear | copyrightHolder | workingDir | issuer | publicPathPrefix
        | publicHttpAddr | telemetryAddr | adminAddr => exact keep_gives _
    all_goals exact absurd hk (by decide)
  · cases k <;> first
      | rfl
      | exact absurd rfl hk

theorem applyTls_applies (h : c.applyTls settings = .ok c') :
    Applies .transport settings c c' := by
  simp only [Config.applyTls, bind_ok, pure_ok] at h
  obtain ⟨_, -, _, -, _, -, _, hreload, _, hinterval, rfl⟩ := h
  refine ⟨fun k hk => ?_, fun k hk => ?_, fun hp => absurd rfl hp, rfl, rfl⟩
  · cases k <;> dsimp only [Setting.field]
    case tlsReload => exact read_ok.mp hreload
    case tlsReloadInterval => exact read_ok.mp hinterval
    all_goals exact absurd hk (by decide)
  · cases k <;> first
      | rfl
      | exact absurd rfl hk

theorem applyLimits_applies {limits : Limits} (h : c.limits.apply settings = .ok limits) :
    Applies .limits settings c { c with limits } := by
  simp only [Limits.apply, bind_ok, pure_ok] at h
  obtain ⟨_, hconnections, _, hpeer, _, hexempt, _, hlifetime, _, hstall, _, hconcurrent, _,
    hrequest, _, hhandshake, _, hheader, _, hbody, _, hbytes, rfl⟩ := h
  refine ⟨fun k hk => ?_, fun k hk => ?_, fun hp => funext fun l => by cases l <;> rfl, rfl, rfl⟩
  · cases k <;> dsimp only [Setting.field]
    case connections => exact read_ok.mp hconnections
    case connectionsPerPeer => exact readPlain_ok.mp hpeer
    case peerExempt => exact readPlain_ok.mp hexempt
    case connectionLifetime => exact read_ok.mp hlifetime
    case writeStallTimeout => exact read_ok.mp hstall
    case concurrentRequests => exact read_ok.mp hconcurrent
    case requestTimeout => exact read_ok.mp hrequest
    case handshakeTimeout => exact read_ok.mp hhandshake
    case headerTimeout => exact read_ok.mp hheader
    case bodyBytes => exact read_ok.mp hbody
    case headerBytes => exact read_ok.mp hbytes
    all_goals exact absurd hk (by decide)
  · cases k <;> first
      | rfl
      | exact absurd rfl hk

theorem applyRecords_applies (h : c.applyRecords settings = .ok c') :
    Applies .records settings c c' := by
  simp only [Config.applyRecords, bind_ok, pure_ok] at h
  obtain ⟨_, hshutdown, _, hprovider, _, hpseudonym, _, hsink, _, hretention, rfl⟩ := h
  refine ⟨fun k hk => ?_, fun k hk => ?_, fun hp => funext fun l => by cases l <;> rfl, rfl, rfl⟩
  · cases k <;> dsimp only [Setting.field]
    case shutdownTimeout => exact read_ok.mp hshutdown
    case secretsProvider => exact read_ok.mp hprovider
    case auditPseudonymEnabled => exact read_ok.mp hpseudonym
    case auditSink => exact read_ok.mp hsink
    case auditRetention => exact read_ok.mp hretention
    case secretsDirectory | secretsEnvPrefix | auditPseudonymKeyRef | auditPseudonymKeyVersion
        | auditDirectory => exact keep_gives _
    all_goals exact absurd hk (by decide)
  · cases k <;> first
      | rfl
      | exact absurd rfl hk

theorem applyKeys_applies (h : c.applyKeys settings = .ok c') : Applies .keys settings c c' := by
  simp only [Config.applyKeys, bind_ok, pure_ok] at h
  obtain ⟨_, henabled, _, hahead, _, hrotate, _, hretain, _, hinterval, rfl⟩ := h
  refine ⟨fun k hk => ?_, fun k hk => ?_, fun hp => funext fun l => by cases l <;> rfl, rfl, rfl⟩
  · cases k <;> dsimp only [Setting.field]
    case keysEnabled => exact read_ok.mp henabled
    case keysPublishAhead => exact read_ok.mp hahead
    case keysRotateEvery => exact read_ok.mp hrotate
    case keysRetain => exact read_ok.mp hretain
    case keysMaintenanceInterval => exact read_ok.mp hinterval
    case keysDirectory => exact keep_gives _
    all_goals exact absurd hk (by decide)
  · cases k <;> first
      | rfl
      | exact absurd rfl hk

theorem applyDeclared_get (c : Config) (k : Setting) :
    k.field.get (c.applyDeclared settings) = k.field.get c := by
  cases k <;> rfl

/-- A layer changes a setting outside the TLS blocks exactly when it gives it. -/
theorem applyPairs_gives (h : c.applyPairs inputs = .ok c') (k : Setting) :
    Gives (settingsOf inputs k.field.key) k.field.parse (k.field.get c) (k.field.get c') := by
  simp only [Config.applyPairs, bind_ok, pure_ok] at h
  obtain ⟨c₁, hserver, c₂, htls, limits, hlimits, c₃, hrecords, c₄, hkeys, rfl⟩ := h
  rw [applyDeclared_get]
  have h₁ := applyServer_applies hserver
  have h₂ := applyTls_applies htls
  have h₃ := applyLimits_applies hlimits
  have h₄ := applyRecords_applies hrecords
  have h₅ := applyKeys_applies hkeys
  -- the part the setting belongs to reads it; the parts before and after leave it alone
  cases hp : k.part
  case server =>
    rw [h₅.others k (by simp [hp]), h₄.others k (by simp [hp]), h₃.others k (by simp [hp]),
      h₂.others k (by simp [hp])]
    exact h₁.reads k hp
  case transport =>
    rw [h₅.others k (by simp [hp]), h₄.others k (by simp [hp]), h₃.others k (by simp [hp]),
      ← h₁.others k (by simp [hp])]
    exact h₂.reads k hp
  case limits =>
    rw [h₅.others k (by simp [hp]), h₄.others k (by simp [hp]), ← h₁.others k (by simp [hp]),
      ← h₂.others k (by simp [hp])]
    exact h₃.reads k hp
  case records =>
    rw [h₅.others k (by simp [hp]), ← h₁.others k (by simp [hp]), ← h₂.others k (by simp [hp]),
      ← h₃.others k (by simp [hp])]
    exact h₄.reads k hp
  case keys =>
    rw [← h₁.others k (by simp [hp]), ← h₂.others k (by simp [hp]), ← h₃.others k (by simp [hp]),
      ← h₄.others k (by simp [hp])]
    exact h₅.reads k hp

/-- A layer that gives a listener's certificate and key replaces its whole block. -/
theorem applyPairs_tls (h : c.applyPairs inputs = .ok c') (l : Listener) :
    tlsOf (settingsOf inputs) l.certKey l.keyKey l.keys (c.tls l) = .ok (c'.tls l) := by
  simp only [Config.applyPairs, bind_ok, pure_ok] at h
  obtain ⟨c₁, hserver, c₂, htls, limits, hlimits, c₃, hrecords, c₄, hkeys, rfl⟩ := h
  have hbefore := (applyServer_applies hserver).tls (by decide)
  have hlimited := (applyLimits_applies hlimits).tls (by decide)
  have hrecorded := (applyRecords_applies hrecords).tls (by decide)
  have hkept := (applyKeys_applies hkeys).tls (by decide)
  have hafter : (c₄.applyDeclared (settingsOf inputs)).tls l = c₂.tls l := by
    rw [← hlimited, ← hrecorded, ← hkept]
    cases l <;> rfl
  rw [hafter, ← hbefore]
  simp only [Config.applyTls, bind_ok, pure_ok] at htls
  obtain ⟨_, hpublic, _, hadmin, _, htelemetry, _, -, _, -, rfl⟩ := htls
  cases l
  · exact hpublic
  · exact hadmin
  · exact htelemetry

theorem applyPairs_declared (h : c.applyPairs inputs = .ok c') :
    c'.declared = c.declared ∧ ∀ key ∈ c.declared,
      c'.declaredValues key = (settingsOf inputs key).or (c.declaredValues key) := by
  simp only [Config.applyPairs, bind_ok, pure_ok] at h
  obtain ⟨c₁, hserver, c₂, htls, limits, hlimits, c₃, hrecords, c₄, hkeys, rfl⟩ := h
  have h₁ := applyServer_applies hserver
  have h₂ := applyTls_applies htls
  have h₃ := applyLimits_applies hlimits
  have h₄ := applyRecords_applies hrecords
  have h₅ := applyKeys_applies hkeys
  have hdeclared : c₄.declared = c.declared := by
    rw [h₅.declared, h₄.declared, h₃.declared, h₂.declared, h₁.declared]
  have hvalues : c₄.declaredValues = c.declaredValues := by
    rw [h₅.values, h₄.values, h₃.values, h₂.values, h₁.values]
  refine ⟨hdeclared, ?_⟩
  intro key hkey
  simp only [Config.applyDeclared, hdeclared, hvalues, if_pos hkey, Settings.keep]
  cases settingsOf inputs key <;> rfl

/-! ## A TLS block -/

/-- The layer gives the listener neither a certificate nor a key and its block stays, or it gives
both and every setting of the block is what this layer says. -/
theorem tlsOf_cases {l : Listener} {previous next : Option TlsSettings}
    (h : tlsOf settings l.certKey l.keyKey l.keys previous = .ok next) :
    (settings l.certKey = none ∧ next = previous) ∨
    ((settings l.certKey).isSome ∧ ∀ (k : TlsSetting) (key : String), k.field.key l = some key →
      Gives (settings key) k.field.parse (k.field.get none) (k.field.get next)) := by
  unfold tlsOf at h
  split at h
  · next certificate key hcert hkey =>
    right
    refine ⟨by rw [hcert]; rfl, ?_⟩
    simp only [bind_ok, pure_ok] at h
    obtain ⟨allow, hallow, minVersion, hmin, rfl⟩ := h
    intro k name hk
    cases k <;> dsimp only [TlsSetting.field] at hk ⊢
    case certificate =>
      cases hk
      rw [hcert]
      rfl
    case key =>
      cases hk
      rw [hkey]
      rfl
    case clientCa =>
      rw [Option.bind_some, hk, Option.bind_some]
      cases settings name <;> rfl
    case crl =>
      rw [Option.bind_some, hk, Option.bind_some]
      cases settings name <;> rfl
    case allow =>
      rw [hk] at hallow
      exact read_ok.mp hallow
    case minVersion =>
      cases hk
      exact read_ok.mp hmin
  · next hcert hkey => exact Or.inl ⟨hcert, (Except.ok.inj h).symm⟩
  · cases h
  · cases h

/-! ## All layers -/

/-- What the last layer that gives a setting gives it. -/
def Layers.last (layers : Layers) (key : String) : Option String :=
  (settingsOf layers.commandLine key).or
    ((settingsOf layers.environment key).or (settingsOf layers.file key))

/-- What the last layer that gives a listener's certificate gives each setting; nothing when no
layer gives one. -/
def Layers.block (layers : Layers) (l : Listener) : Settings :=
  if (settingsOf layers.commandLine l.certKey).isSome then settingsOf layers.commandLine
  else if (settingsOf layers.environment l.certKey).isSome then settingsOf layers.environment
  else if (settingsOf layers.file l.certKey).isSome then settingsOf layers.file
  else fun _ => none

/-- The configuration before any layer is applied. -/
def Config.initial (build : BuildSettings) (declared : List String) : Config :=
  Config.applyBuildSettings build { declared }

/-- Every setting has the value the last layer that gives it gives, and its default where none
does. -/
structure LastWins (build : BuildSettings) (declared : List String) (layers : Layers)
    (c : Config) : Prop where
  settings : ∀ k : Setting, Gives (layers.last k.field.key) k.field.parse
    (k.field.get (Config.initial build declared)) (k.field.get c)
  tls : ∀ (l : Listener) (k : TlsSetting) (key : String), k.field.key l = some key →
    Gives (layers.last key) k.field.parse (k.field.get none) (k.field.get (c.tls l))
  declared : ∀ key ∈ declared, c.setting key = layers.last key

/-- A setting of a TLS block as a layer's text gives it. -/
def TlsField.reading (f : TlsField) (given : Option String) : Result f.Value :=
  match given with
  | some value => f.parse value
  | none => .ok (f.get none)

/-- The layer the listener's certificate comes from says the same of every setting of its block as
the last layer that says anything of it. -/
def Layers.Agree (layers : Layers) (l : Listener) : Prop :=
  ∀ (k : TlsSetting) (key : String), k.field.key l = some key →
    k.field.reading (layers.block l key) = k.field.reading (layers.last key)

theorem Gives.trans {α : Type} {first second : Option String} {parse : String → Result α}
    {x y z : α} (h : Gives first parse x y) (h' : Gives second parse y z) :
    Gives (second.or first) parse x z := by
  cases second with
  | some value => exact h'
  | none =>
    have hz : z = y := h'
    rw [hz]
    exact h

theorem reading_eq_ok {f : TlsField} {given : Option String} {v : f.Value} :
    f.reading given = .ok v ↔ Gives given f.parse (f.get none) v := by
  unfold TlsField.reading Gives
  cases given with
  | some value => exact Iff.rfl
  | none => exact pure_ok.trans eq_comm

section

variable {build : BuildSettings} {declared : List String} {layers : Layers}

theorem fromLayers_ok (h : Config.fromLayers build declared layers = .ok c) : ∃ c₁ c₂,
    (Config.initial build declared).applyPairs layers.file = .ok c₁ ∧
      c₁.applyPairs layers.environment = .ok c₂ ∧ c₂.applyPairs layers.commandLine = .ok c := by
  simp only [Config.fromLayers, bind_ok] at h
  obtain ⟨c₁, hfile, c₂, henvironment, hcommand⟩ := h
  exact ⟨c₁, c₂, hfile, henvironment, hcommand⟩

/-- Outside the TLS blocks the last layer that gives a setting decides it. -/
theorem fromLayers_gives (h : Config.fromLayers build declared layers = .ok c) (k : Setting) :
    Gives (layers.last k.field.key) k.field.parse (k.field.get (Config.initial build declared))
      (k.field.get c) := by
  obtain ⟨c₁, c₂, hfile, henvironment, hcommand⟩ := fromLayers_ok h
  exact ((applyPairs_gives hfile k).trans (applyPairs_gives henvironment k)).trans
    (applyPairs_gives hcommand k)

theorem fromLayers_declared (h : Config.fromLayers build declared layers = .ok c) :
    ∀ key ∈ declared, c.setting key = layers.last key := by
  obtain ⟨c₁, c₂, hfile, henvironment, hcommand⟩ := fromLayers_ok h
  intro key hkey
  obtain ⟨hd₁, hv₁⟩ := applyPairs_declared hfile
  obtain ⟨hd₂, hv₂⟩ := applyPairs_declared henvironment
  obtain ⟨hd₃, hv₃⟩ := applyPairs_declared hcommand
  have hkey₁ : key ∈ c₁.declared := by rw [hd₁]; exact hkey
  have hkey₂ : key ∈ c₂.declared := by rw [hd₂]; exact hkey₁
  rw [Config.setting, hv₃ key hkey₂, hv₂ key hkey₁, hv₁ key hkey]
  simp [Layers.last, Config.initial, Config.applyBuildSettings]

/-- A listener's TLS block is what one layer says: the last one that gives its certificate. -/
theorem fromLayers_tls (h : Config.fromLayers build declared layers = .ok c) (l : Listener)
    (k : TlsSetting) {key : String} (hk : k.field.key l = some key) :
    Gives (layers.block l key) k.field.parse (k.field.get none) (k.field.get (c.tls l)) := by
  obtain ⟨c₁, c₂, hfile, henvironment, hcommand⟩ := fromLayers_ok h
  unfold Layers.block
  rcases tlsOf_cases (applyPairs_tls hcommand l) with ⟨hcert, htls⟩ | ⟨hcert, hall⟩
  · rw [hcert, htls, if_neg (by simp)]
    rcases tlsOf_cases (applyPairs_tls henvironment l) with ⟨hcert, htls⟩ | ⟨hcert, hall⟩
    · rw [hcert, htls, if_neg (by simp)]
      rcases tlsOf_cases (applyPairs_tls hfile l) with ⟨hcert, htls⟩ | ⟨hcert, hall⟩
      · rw [hcert, htls, if_neg (by simp)]
        cases l <;> rfl
      · rw [if_pos hcert]
        exact hall k key hk
    · rw [if_pos hcert]
      exact hall k key hk
  · rw [if_pos hcert]
    exact hall k key hk

theorem block_of_file (layers : Layers) (l : Listener)
    (hcommand : settingsOf layers.commandLine l.certKey = none)
    (henvironment : settingsOf layers.environment l.certKey = none)
    (hfile : (settingsOf layers.file l.certKey).isSome) :
    layers.block l = settingsOf layers.file := by
  rw [Layers.block, hcommand, henvironment, if_neg (by simp), if_neg (by simp), if_pos hfile]

/-- **Layering.** Every setting has the value the last layer that gives it gives, exactly when the
layer each listener's certificate comes from agrees with the last layer on the settings of the
listener's TLS block. -/
theorem layering (h : Config.fromLayers build declared layers = .ok c) :
    LastWins build declared layers c ↔ ∀ l, layers.Agree l := by
  constructor
  · intro hwins l k key hk
    have hblock := reading_eq_ok.mpr (fromLayers_tls h l k hk)
    have hlast := reading_eq_ok.mpr (hwins.tls l k key hk)
    rw [hblock, hlast]
  · intro hagree
    refine ⟨fromLayers_gives h, ?_, fromLayers_declared h⟩
    intro l k key hk
    have hblock := reading_eq_ok.mpr (fromLayers_tls h l k hk)
    rw [hagree l k key hk] at hblock
    exact reading_eq_ok.mp hblock

end

/-! ## A certificate renewed from the environment -/

/-- A build with nothing of its own to say. -/
def testBuild : BuildSettings := ⟨"1.0.0", "unknown", "2022", "PIC-X"⟩

/-- A public listener with mutual TLS. -/
def mutualFile : Pairs :=
  [(SETTING_PUBLIC_TLS_CERT, "tls/server.pem"), (SETTING_PUBLIC_TLS_KEY, "tls/server.key"),
    (SETTING_PUBLIC_TLS_CLIENT_CA, "tls/clients.pem")]

/-- A new certificate and key, and nothing else. -/
def renewedEnvironment : Pairs :=
  [(SETTING_PUBLIC_TLS_CERT, "tls/renewed.pem"), (SETTING_PUBLIC_TLS_KEY, "tls/renewed.key")]

/-- The file's client authority with them. -/
def renewedWhole : Pairs :=
  renewedEnvironment ++ [(SETTING_PUBLIC_TLS_CLIENT_CA, "tls/clients.pem")]

theorem renewedWhole_agrees (l : Listener) :
    ({ file := mutualFile, environment := renewedWhole } : Layers).Agree l := by
  intro k key hk
  refine congrArg _ ?_
  cases l <;> cases k <;> cases hk <;> decide +kernel

/-- The environment overrides the certificate, and the last layer wins throughout. -/
theorem layering_mutual : ∃ c,
    Config.fromLayers testBuild [] { file := mutualFile, environment := renewedWhole } = .ok c ∧
      LastWins testBuild [] { file := mutualFile, environment := renewedWhole } c ∧
      c.publicTls.map (·.certificate) = some "tls/renewed.pem" := by
  have hok : ((Config.fromLayers testBuild []
      { file := mutualFile, environment := renewedWhole }).toOption.map fun c =>
        c.publicTls.map (·.certificate)) = some (some "tls/renewed.pem") := by decide +kernel
  cases h : Config.fromLayers testBuild []
      { file := mutualFile, environment := renewedWhole } with
  | ok c =>
    rw [h] at hok
    exact ⟨c, rfl, (layering h).mpr renewedWhole_agrees, Option.some.inj hok⟩
  | error e => rw [h] at hok; cases hok

/-- The file's client authority is gone from the configuration. -/
theorem renewed_certificate_drops_client_ca : ∃ c,
    Config.fromLayers testBuild []
      { file := mutualFile, environment := renewedEnvironment } = .ok c ∧
    ¬ LastWins testBuild [] { file := mutualFile, environment := renewedEnvironment } c := by
  have hca : ((Config.fromLayers testBuild []
      { file := mutualFile, environment := renewedEnvironment }).toOption.map fun c =>
        c.publicTls.bind (·.clientCa)) = some none := by decide +kernel
  have hlast : ({ file := mutualFile, environment := renewedEnvironment } : Layers).last
      SETTING_PUBLIC_TLS_CLIENT_CA = some "tls/clients.pem" := by decide +kernel
  cases h : Config.fromLayers testBuild []
      { file := mutualFile, environment := renewedEnvironment } with
  | error e => rw [h] at hca; cases hca
  | ok c =>
    refine ⟨c, rfl, ?_⟩
    intro hwins
    have hgives := hwins.tls .publicHttp .clientCa SETTING_PUBLIC_TLS_CLIENT_CA rfl
    rw [hlast] at hgives
    rw [h] at hca
    have hnone : c.publicTls.bind (·.clientCa) = none := Option.some.inj hca
    have hsome : some "tls/clients.pem" = c.publicTls.bind (·.clientCa) := Except.ok.inj hgives
    rw [hnone] at hsome
    cases hsome

end PicX.Core
