import Mathlib.Data.List.Nodup
import PicX.Core.Surface

/-!
# Validation (`pic-x-core/src/config.rs`, `tls.rs`)

`Config.validate` runs after every layer has been applied and says whether the configuration can
start a server. The checks stop at the first that fails.

* `Usable`: what validation asks of a realm: a usable name, and rings whose windows overlap.
* `validate_checked`, `validate_realms`: what an accepted configuration passed.
-/

namespace PicX.Core

/-- Stops with a message when the condition holds. -/
def refuse (p : Prop) [Decidable p] (message : String) : Result Unit :=
  if p then bail message else .ok ()

theorem refuse_ok {p : Prop} [Decidable p] {message : String} {u : Unit} :
    refuse p message = .ok u ↔ ¬ p := by
  by_cases h : p <;> simp [refuse, bail, h]

/-- A check of what is configured; nothing to check where nothing is. -/
def ifSome {α : Type} (value : Option α) (check : α → Result Unit) : Result Unit :=
  match value with
  | some a => check a
  | none => .ok ()

/-- A check of what is switched on. -/
def ifEnabled (enabled : Bool) (check : Result Unit) : Result Unit :=
  if enabled then check else .ok ()

/-- `str::starts_with`. -/
def startsWith (p s : String) : Bool := (stripPrefix p s).isSome

/-! ## Transport material -/

/-- Every file the settings name has to be there. -/
def TlsSettings.validateIn (isFile : String → Bool) (workingDir : String) (tls : TlsSettings) :
    Result Unit := do
  refuse (tls.crl.isSome ∧ tls.clientCa = none)
    ("a revocation list is configured but no client authority is: there is nothing to check " ++
      "against it, so no client would ever be refused by it")
  [("certificate", some tls.certificate), ("private key", some tls.key),
    ("client CA", tls.clientCa), ("revocation list", tls.crl)].forM fun (what, path) =>
    ifSome path fun path => refuse (isFile (resolvePath workingDir path) = false)
      s!"the TLS {what} {resolvePath workingDir path} is not a readable file"

/-! ## Addresses and identities -/

/-- The addresses that are configured, with what they are called. -/
def Config.declaredAddresses (c : Config) : List (String × String) :=
  [("public", c.publicHttpAddr), ("telemetry", c.telemetryAddr), ("admin", c.adminAddr)].filterMap
    fun (label, addr) => addr.map fun addr => (label, addr)

/-- Refuses a client-facing URL that is not https, outside development. -/
def Config.requirePublicHttps (c : Config) (url field : String) : Result Unit :=
  if c.developmentMode ∨ startsWith "https://" url then .ok ()
  else bail (s!"the {field} {url} is not https: it is a public identity clients are told to " ++
    "trust and fetch their verification keys from, so it must use https (RFC 8414). Put it " ++
    "behind something that terminates TLS and state the https URL here, or say " ++
    "`development_mode: true` for a local run")

/-- The host a listen address names, as it is written. -/
def hostOf (address : String) : String :=
  let host := match rsplitOnce ':' address with
    | some (host, _) => host
    | none => address
  trimEndMatches (· = ']') (trimStartMatches (· = '[') (trim host))

/-- Whether an address can only be reached from this host, by what was written. -/
def isLoopback (address : String) : Bool :=
  let host := hostOf address
  host == "localhost" || host == "::1" || startsWith "127." host

/-! ## Development and administration -/

/-- Refuses the conveniences of development to a deployment that has not said it is one. -/
def Config.validateDevelopment (c : Config) : Result Unit :=
  refuse (c.autogenerate ∧ ¬ c.developmentMode)
    ("generating missing material is only offered in development: set `development_mode: true` " ++
      "if this is one, or supply the material this deployment is missing")

/-- Refuses an administrative surface that anybody can reach and nobody has been named for. -/
def Config.validateAdminAccess (c : Config) : Result Unit :=
  match c.adminAddr with
  | none => .ok ()
  | some address =>
    if c.adminTls.any TlsSettings.isMutual then
      refuse (c.adminAllow.isEmpty ∧ ¬ c.developmentMode)
        ("the administrative surface demands a client certificate but names nobody: list the " ++
          "peers that may administer it under `admin.allow`, because a certificate authority " ++
          "signs every client it was built for and mutual TLS alone would admit all of them")
    else refuse (¬ (isLoopback address ∨ c.developmentMode))
      (s!"the administrative surface is bound to {address}, which is reachable from outside " ++
        "this host, and demands no client certificate: set `admin.tls.client_ca`, bind it to a " ++
        "loopback address, or say `development_mode: true`")

/-! ## Key lifecycles -/

/-- How long a verifier may keep the key set, in seconds. -/
def KEY_SET_MAX_AGE : Nat := 300

/-- The overlap rules of a key lifecycle, for whoever owns it. -/
def Config.checkKeyLifecycle (c : Config) (publishAhead rotateEvery retain : Nat) (who : String) :
    Result Unit := do
  refuse (rotateEvery ≤ publishAhead)
    (s!"for {who}, a key would be replaced after {rotateEvery}s but is only published " ++
      s!"{publishAhead}s before it signs: it would never get a turn")
  refuse (retain < rotateEvery)
    (s!"for {who}, a retired key is kept for {retain}s but keys are replaced every " ++
      s!"{rotateEvery}s, which leaves signatures made in between with no published key to " ++
      "verify against")
  refuse (publishAhead < KEY_SET_MAX_AGE ∧ ¬ c.developmentMode)
    (s!"for {who}, a key would start signing {publishAhead}s after it is published, but the key " ++
      s!"set is served with a cache of {KEY_SET_MAX_AGE}s: every verifier holding a cached copy " ++
      s!"would reject the signatures made in between. Publish it at least {KEY_SET_MAX_AGE}s ahead")

/-- The operations ring's lifecycle has to have been stated by some layer. -/
def Config.validateKeyLifecycle (c : Config) : Result Unit :=
  if c.keysEnabled = false then .ok ()
  else do
    [(SETTING_KEYS_PUBLISH_AHEAD, "publish_ahead"), (SETTING_KEYS_ROTATE_EVERY, "rotate_every"),
      (SETTING_KEYS_RETAIN, "retain")].forM fun (setting, field) =>
      refuse (setting ∉ c.keysLifecycleDeclared)
        (s!"the operations keys are enabled but `operations.keys.{field}` is not set: a " ++
          "signing-key lifecycle has to be stated, this build does not default one")
    c.checkKeyLifecycle c.keysPublishAhead c.keysRotateEvery c.keysRetain "the server"

/-! ## Realms -/

/-- A realm's name becomes a URL path segment and a directory. -/
def isRealmName (name : String) : Bool :=
  name ≠ "" ∧ (utf8 name).length ≤ 40 ∧
    name.toList.all (fun c => c.isLower || c.isDigit || c == '-') ∧
    name.toList.head? ≠ some '-' ∧ name.toList.getLast? ≠ some '-'

/-- Attestation issuer metadata, after the attesters whose ids have been seen. -/
def Config.validateTrustedAttesters (c : Config) (realm : String) (seen : List String) :
    List Realm.TrustedAttesterConfig → Result Unit
  | [] => .ok ()
  | attester :: rest => do
    let id := trim attester.id
    refuse (id = "") s!"the realm `{realm}` declares an attester with an empty id"
    refuse (id ∈ seen) s!"the realm `{realm}` declares the attester `{id}` twice"
    refuse (trim attester.issuer = "")
      s!"the attester `{id}` in realm `{realm}` has an empty issuer"
    refuse (trim attester.jwksUri = "")
      s!"the attester `{id}` in realm `{realm}` has an empty jwks_uri"
    c.requirePublicHttps attester.issuer s!"issuer of attester `{id}` in realm `{realm}`"
    c.requirePublicHttps attester.jwksUri s!"jwks_uri of attester `{id}` in realm `{realm}`"
    refuse (attester.proofTypes = [])
      s!"the attester `{id}` in realm `{realm}` declares no proof types"
    refuse ("sd-jwt" ∉ attester.proofTypes)
      s!"the attester `{id}` in realm `{realm}` does not support Profile 0.2 proof type `sd-jwt`"
    refuse (attester.formats = []) s!"the attester `{id}` in realm `{realm}` declares no formats"
    refuse ("sd-jwt" ∉ attester.formats)
      s!"the attester `{id}` in realm `{realm}` does not publish Profile 0.2 format `sd-jwt`"
    c.validateTrustedAttesters realm (id :: seen) rest

/-- Whether a mapping states something here. -/
def isStated (value : Option String) : Bool := value.any (trim · ≠ "")

/-- The privilege rules of a profile, after those whose names and priorities have been seen. -/
def validatePrivilegeRules (realm id : String) (names : List String) (priorities : List Int) :
    List Realm.PrivilegeRule → Result Unit
  | [] => .ok ()
  | rule :: rest => do
    refuse (trim rule.name = "")
      s!"an exchange profile rule in `{id}` of realm `{realm}` has an empty name"
    refuse (rule.name ∈ names)
      s!"the exchange profile `{id}` in realm `{realm}` declares rule `{rule.name}` twice"
    refuse (rule.priority ∈ priorities)
      (s!"the exchange profile `{id}` in realm `{realm}` reuses priority {rule.priority}; rules " ++
        "with equal priority have unspecified order")
    refuse (trim rule.pattern = "")
      (s!"the exchange profile `{id}` in realm `{realm}` has an empty pattern for rule " ++
        s!"`{rule.name}`")
    [("scope", rule.emit.scope), ("operation", rule.emit.operation),
      ("resource_type", rule.emit.resourceType), ("resource_id", rule.emit.resourceId)].forM
      fun (field, template) => refuse (trim template = "")
        (s!"the exchange profile `{id}` in realm `{realm}` emits an empty `{field}` from rule " ++
          s!"`{rule.name}`")
    validatePrivilegeRules realm id (rule.name :: names) (rule.priority :: priorities) rest

def validateExchangeSource (realm id : String) (source : Realm.ExchangeProfileSource) :
    Result Unit := do
  refuse (source.tokenType ≠ Realm.EXCHANGE_SOURCE_OAUTH_ACCESS_TOKEN)
    (s!"the exchange profile `{id}` in realm `{realm}` has unsupported source token type " ++
      s!"`{source.tokenType}`; this build supports `{Realm.EXCHANGE_SOURCE_OAUTH_ACCESS_TOKEN}` " ++
      "for initialization")
  refuse (source.format ≠ Realm.EXCHANGE_SOURCE_FORMAT_JWT)
    (s!"the exchange profile `{id}` in realm `{realm}` has unsupported source format " ++
      s!"`{source.format}`; this build supports `{Realm.EXCHANGE_SOURCE_FORMAT_JWT}`")
  refuse (trim source.issuer = "")
    s!"the exchange profile `{id}` in realm `{realm}` has an empty source issuer"
  refuse (trim source.audience = "")
    s!"the exchange profile `{id}` in realm `{realm}` has an empty source audience"
  refuse (source.validation.allowedAlgorithms = [])
    s!"the exchange profile `{id}` in realm `{realm}` declares no allowed source JWT algorithms"
  refuse (source.validation.requireExpiration = false)
    (s!"the exchange profile `{id}` in realm `{realm}` must require expiration on incoming " ++
      "access tokens")
  refuse (isStated source.validation.requireTokenType = false)
    s!"the exchange profile `{id}` in realm `{realm}` must require an explicit source JWT `typ`"

def validateExchangeClaims (realm id : String) (claims : Realm.ExchangeProfileClaims) :
    Result Unit := do
  claims.identityContext.forM fun (claim, mapping) =>
    refuse (isStated mapping.from? = isStated mapping.value)
      (s!"the identity-context mapping `{claim}` in exchange profile `{id}` of realm `{realm}` " ++
        "must declare exactly one of `from` or `value`")
  refuse (claims.scopes.from?.getD "" = "")
    s!"the exchange profile `{id}` in realm `{realm}` must map `claims.scopes.from`"
  refuse (claims.scopes.valueType ≠ some "set")
    s!"the exchange profile `{id}` in realm `{realm}` must map `claims.scopes.type: set`"

def validateExchangeProfiles (realm : String) (seen : List String) :
    List Realm.ExchangeProfileConfig → Result Unit
  | [] => .ok ()
  | profile :: rest => do
    let id := trim profile.id
    refuse (id = "") s!"the realm `{realm}` declares an exchange profile with an empty id"
    refuse (id ∈ seen) s!"the realm `{realm}` declares the exchange profile `{id}` twice"
    validateExchangeSource realm id profile.source
    validateExchangeClaims realm id profile.claims
    refuse (profile.privileges.source ≠ "scopes")
      (s!"the exchange profile `{id}` in realm `{realm}` has unsupported privileges source " ++
        s!"`{profile.privileges.source}`; use `scopes`")
    refuse (profile.privileges.rules = [])
      s!"the exchange profile `{id}` in realm `{realm}` declares no privilege rules"
    validatePrivilegeRules realm id [] [] profile.privileges.rules
    refuse (profile.onUnmatchedScope ≠ Realm.EXCHANGE_ON_UNMATCHED_SCOPE_REJECT)
      (s!"the exchange profile `{id}` in realm `{realm}` has unsupported on_unmatched_scope " ++
        s!"`{profile.onUnmatchedScope}`; use `{Realm.EXCHANGE_ON_UNMATCHED_SCOPE_REJECT}`")
    validateExchangeProfiles realm (id :: seen) rest

def Config.validateRealm (c : Config) (realm : RealmConfig) : Result Unit := do
  let name := realm.name
  refuse (isRealmName name = false)
    (s!"the realm name `{name}` is not usable: a name becomes a URL path and a directory, so it " ++
      "must be 1 to 40 characters of lowercase letters, digits and internal hyphens — nothing else")
  ifSome realm.issuer fun issuer => c.requirePublicHttps issuer s!"issuer of the realm `{name}`"
  ifEnabled realm.operationsKeysEnabled
    (c.checkKeyLifecycle realm.operationsKeysPublishAhead realm.operationsKeysRotateEvery
      realm.operationsKeysRetain s!"the operations ring of the realm `{name}`")
  ifEnabled realm.tokenKeysEnabled
    (c.checkKeyLifecycle realm.tokenKeysPublishAhead realm.tokenKeysRotateEvery
      realm.tokenKeysRetain s!"the token ring of the realm `{name}`")
  refuse (realm.auditPseudonymEnabled ∧ realm.secretsProvider = .none)
    (s!"the realm `{name}` enables audit pseudonymisation but resolves secrets from nowhere: " ++
      "give it a `secrets.provider`, or turn its pseudonymisation off")
  refuse (realm.auditPseudonymEnabled ∧ realm.auditPseudonymKeyRef = none)
    (s!"the realm `{name}` enables audit pseudonymisation but names no secret: set " ++
      "`audit.pseudonym.key_ref`")
  validateExchangeProfiles name [] realm.exchangeProfiles
  c.validateTrustedAttesters name [] realm.trustedAttesters

/-- The realms after those whose names have been seen. -/
def Config.validateRealmsFrom (c : Config) (seen : List String) : List RealmConfig → Result Unit
  | [] => .ok ()
  | realm :: rest => do
    refuse (realm.name ∈ seen)
      (s!"two realms are named `{realm.name}`: a realm name has to be unique, because it is " ++
        "what decides whose keys sign and whose trail records")
    c.validateRealm realm
    c.validateRealmsFrom (realm.name :: seen) rest

def Config.validateRealms (c : Config) : Result Unit := c.validateRealmsFrom [] c.realms

/-! ## The whole -/

/-- Pseudonymisation that is turned on has to have a key. -/
def Config.validatePseudonym (c : Config) : Result Unit :=
  if c.auditPseudonymEnabled = false then .ok ()
  else do
    refuse (c.secretsProvider = .none)
      ("audit pseudonymisation is enabled but no secret provider is configured: the key is " ++
        "named by `audit.pseudonym.key_ref` and has to be resolved from somewhere")
    refuse (c.auditPseudonymKeyRef = none)
      ("audit pseudonymisation is enabled but names no secret: set `audit.pseudonym.key_ref` to " ++
        "the name of the key in the secret store")
    refuse (trim c.auditPseudonymKeyVersion = "")
      "the audit pseudonymisation key version is empty"

/-- Checks that the assembled configuration can start a server. -/
def Config.validate (isFile : String → Bool) (c : Config) : Result Unit := do
  refuse (c.publicTls.any fun tls => ¬ tls.allow.isEmpty ∧ tls.clientCa = none)
    ("the public surface names peers it answers but demands no client certificate: an allow " ++
      "list with no identity to check is a list nothing can satisfy — set " ++
      "`public.tls.client_ca`, or remove `public.tls.allow`")
  refuse (c.publicHttpAddr = none)
    ("the configuration defines no public listen address: set `public.http`, or pass " ++
      "--public-http-addr")
  c.declaredAddresses.forM fun (label, addr) =>
    refuse (trim addr = "") s!"the {label} listen address is empty"
  ifSome c.issuer fun issuer => c.requirePublicHttps issuer "issuer"
  refuse (c.publicPathPrefix ≠ "" ∧ startsWith "/" c.publicPathPrefix = false)
    s!"the public path prefix {c.publicPathPrefix} does not start with a slash"
  [("public", c.publicTls), ("admin", c.adminTls), ("telemetry", c.telemetryTls)].forM
    fun (surface, tls) => ifSome tls fun tls =>
      withContext s!"validating the {surface} TLS material"
        (tls.validateIn isFile c.workingDirectory)
  c.validateDevelopment
  c.validateAdminAccess
  c.validateKeyLifecycle
  c.validateRealms
  c.validatePseudonym

/-! ## What an accepted configuration passed -/

/-- A key lifecycle whose windows overlap. -/
structure Overlaps (publishAhead rotateEvery retain : Nat) : Prop where
  turn : publishAhead < rotateEvery
  kept : rotateEvery ≤ retain

theorem checkKeyLifecycle_ok {c : Config} {publishAhead rotateEvery retain : Nat} {who : String}
    {u : Unit} (h : c.checkKeyLifecycle publishAhead rotateEvery retain who = .ok u) :
    Overlaps publishAhead rotateEvery retain := by
  obtain ⟨_, hturn, h⟩ := bind_ok.mp h
  obtain ⟨_, hkept, _⟩ := bind_ok.mp h
  exact ⟨Nat.lt_of_not_le (refuse_ok.mp hturn), Nat.le_of_not_lt (refuse_ok.mp hkept)⟩

theorem ifEnabled_ok {enabled : Bool} {check : Result Unit} {u : Unit} :
    ifEnabled enabled check = .ok u ↔ (enabled = true → check = .ok u) := by
  cases enabled <;> simp [ifEnabled]

/-- What validation asks of a realm's name and of its rings. -/
structure Usable (realm : RealmConfig) : Prop where
  name : isRealmName realm.name = true
  operations : realm.operationsKeysEnabled = true → Overlaps realm.operationsKeysPublishAhead
    realm.operationsKeysRotateEvery realm.operationsKeysRetain
  token : realm.tokenKeysEnabled = true →
    Overlaps realm.tokenKeysPublishAhead realm.tokenKeysRotateEvery realm.tokenKeysRetain

theorem validateRealm_ok {c : Config} {realm : RealmConfig} {u : Unit}
    (h : c.validateRealm realm = .ok u) : Usable realm := by
  obtain ⟨_, hname, h⟩ := bind_ok.mp h
  obtain ⟨_, _, h⟩ := bind_ok.mp h
  obtain ⟨_, hoperations, h⟩ := bind_ok.mp h
  obtain ⟨_, htoken, _⟩ := bind_ok.mp h
  refine ⟨by simpa using refuse_ok.mp hname, ?_, ?_⟩
  · intro henabled
    exact checkKeyLifecycle_ok (ifEnabled_ok.mp hoperations henabled)
  · intro henabled
    exact checkKeyLifecycle_ok (ifEnabled_ok.mp htoken henabled)

/-- A check that refuses what it has seen, entry by entry, leaves distinct entries. -/
theorem nodup_of_seen {σ κ : Type} {key : σ → κ} (check : List κ → List σ → Prop)
    (hstep : ∀ seen a rest, check seen (a :: rest) → key a ∉ seen ∧ check (key a :: seen) rest)
    {seen : List κ} {l : List σ} (h : check seen l) :
    (∀ a ∈ l, key a ∉ seen) ∧ (l.map key).Nodup := by
  induction l generalizing seen with
  | nil => exact ⟨by simp, List.nodup_nil⟩
  | cons a rest ih =>
    obtain ⟨hseen, hrest⟩ := hstep seen a rest h
    obtain ⟨hall, hnodup⟩ := ih hrest
    constructor
    · intro b hb
      rcases List.mem_cons.mp hb with rfl | hb
      · exact hseen
      · exact fun hmem => hall b hb (List.mem_cons_of_mem _ hmem)
    · rw [List.map_cons, List.nodup_cons]
      refine ⟨?_, hnodup⟩
      intro hmem
      obtain ⟨b, hb, heq⟩ := List.mem_map.mp hmem
      exact hall b hb (heq ▸ List.mem_cons_self)

theorem validateRealmsFrom_ok {c : Config} {seen : List String} {realms : List RealmConfig}
    {u : Unit} (h : c.validateRealmsFrom seen realms = .ok u) :
    (∀ realm ∈ realms, c.validateRealm realm = .ok ()) ∧ (realms.map (·.name)).Nodup := by
  refine ⟨?_, (nodup_of_seen
    (fun seen realms => c.validateRealmsFrom seen realms = .ok u) ?_ h).2⟩
  · induction realms generalizing seen with
    | nil => simp
    | cons realm rest ih =>
      obtain ⟨_, _, h⟩ := bind_ok.mp h
      obtain ⟨_, hrealm, hrest⟩ := bind_ok.mp h
      intro other hother
      rcases List.mem_cons.mp hother with rfl | hother
      · exact hrealm
      · exact ih hrest other hother
  · intro seen realm rest hcheck
    obtain ⟨_, hseen, hcheck⟩ := bind_ok.mp hcheck
    obtain ⟨_, _, hrest⟩ := bind_ok.mp hcheck
    exact ⟨refuse_ok.mp hseen, hrest⟩

/-- The checks of an accepted configuration that later results rest on. -/
structure Checked (c : Config) : Prop where
  adminAccess : c.validateAdminAccess = .ok ()
  realms : c.validateRealms = .ok ()
  pseudonym : c.validatePseudonym = .ok ()

theorem validate_checked {isFile : String → Bool} {c : Config} {u : Unit}
    (h : c.validate isFile = .ok u) : Checked c := by
  obtain ⟨_, _, h⟩ := bind_ok.mp h
  obtain ⟨_, _, h⟩ := bind_ok.mp h
  obtain ⟨_, _, h⟩ := bind_ok.mp h
  obtain ⟨_, _, h⟩ := bind_ok.mp h
  obtain ⟨_, _, h⟩ := bind_ok.mp h
  obtain ⟨_, _, h⟩ := bind_ok.mp h
  obtain ⟨_, _, h⟩ := bind_ok.mp h
  obtain ⟨_, hadmin, h⟩ := bind_ok.mp h
  obtain ⟨_, _, h⟩ := bind_ok.mp h
  obtain ⟨_, hrealms, hpseudonym⟩ := bind_ok.mp h
  exact ⟨hadmin, hrealms, hpseudonym⟩

/-- The realms of an accepted configuration are usable and told apart by their names. -/
theorem validate_realms {isFile : String → Bool} {c : Config} {u : Unit}
    (h : c.validate isFile = .ok u) :
    (∀ realm ∈ c.realms, Usable realm) ∧ (c.realms.map (·.name)).Nodup := by
  obtain ⟨hall, hnodup⟩ := validateRealmsFrom_ok (validate_checked h).realms
  exact ⟨fun realm hrealm => validateRealm_ok (hall realm hrealm), hnodup⟩

/-- The exchange profiles and the attesters of an accepted realm passed their checks. -/
theorem validateRealm_sources {c : Config} {realm : RealmConfig} {u : Unit}
    (h : c.validateRealm realm = .ok u) :
    validateExchangeProfiles realm.name [] realm.exchangeProfiles = .ok () ∧
      c.validateTrustedAttesters realm.name [] realm.trustedAttesters = .ok () := by
  obtain ⟨_, _, h⟩ := bind_ok.mp h
  obtain ⟨_, _, h⟩ := bind_ok.mp h
  obtain ⟨_, _, h⟩ := bind_ok.mp h
  obtain ⟨_, _, h⟩ := bind_ok.mp h
  obtain ⟨_, _, h⟩ := bind_ok.mp h
  obtain ⟨_, _, h⟩ := bind_ok.mp h
  obtain ⟨_, hprofiles, hattesters⟩ := bind_ok.mp h
  exact ⟨hprofiles, hattesters⟩

theorem validateTrustedAttesters_nodup {c : Config} {realm : String} {seen : List String}
    {attesters : List Realm.TrustedAttesterConfig} {u : Unit}
    (h : c.validateTrustedAttesters realm seen attesters = .ok u) :
    (attesters.map (·.id)).Nodup := by
  refine List.Nodup.of_map trim ?_
  rw [List.map_map]
  refine (nodup_of_seen
    (fun seen attesters => c.validateTrustedAttesters realm seen attesters = .ok u) ?_ h).2
  intro seen attester rest hcheck
  obtain ⟨_, _, hcheck⟩ := bind_ok.mp hcheck
  obtain ⟨_, hseen, hcheck⟩ := bind_ok.mp hcheck
  obtain ⟨_, _, hcheck⟩ := bind_ok.mp hcheck
  obtain ⟨_, _, hcheck⟩ := bind_ok.mp hcheck
  obtain ⟨_, _, hcheck⟩ := bind_ok.mp hcheck
  obtain ⟨_, _, hcheck⟩ := bind_ok.mp hcheck
  obtain ⟨_, _, hcheck⟩ := bind_ok.mp hcheck
  obtain ⟨_, _, hcheck⟩ := bind_ok.mp hcheck
  obtain ⟨_, _, hcheck⟩ := bind_ok.mp hcheck
  obtain ⟨_, _, hrest⟩ := bind_ok.mp hcheck
  exact ⟨refuse_ok.mp hseen, hrest⟩

theorem validateExchangeProfiles_nodup {realm : String} {seen : List String}
    {profiles : List Realm.ExchangeProfileConfig} {u : Unit}
    (h : validateExchangeProfiles realm seen profiles = .ok u) :
    (profiles.map (·.id)).Nodup := by
  refine List.Nodup.of_map trim ?_
  rw [List.map_map]
  refine (nodup_of_seen
    (fun seen profiles => validateExchangeProfiles realm seen profiles = .ok u) ?_ h).2
  intro seen profile rest hcheck
  obtain ⟨_, _, hcheck⟩ := bind_ok.mp hcheck
  obtain ⟨_, hseen, hcheck⟩ := bind_ok.mp hcheck
  obtain ⟨_, _, hcheck⟩ := bind_ok.mp hcheck
  obtain ⟨_, _, hcheck⟩ := bind_ok.mp hcheck
  obtain ⟨_, _, hcheck⟩ := bind_ok.mp hcheck
  obtain ⟨_, _, hcheck⟩ := bind_ok.mp hcheck
  obtain ⟨_, _, hcheck⟩ := bind_ok.mp hcheck
  obtain ⟨_, _, hrest⟩ := bind_ok.mp hcheck
  exact ⟨refuse_ok.mp hseen, hrest⟩

theorem validatePrivilegeRules_nodup {realm id : String} {names : List String}
    {priorities : List Int} {rules : List Realm.PrivilegeRule} {u : Unit}
    (h : validatePrivilegeRules realm id names priorities rules = .ok u) :
    (rules.map (·.priority)).Nodup := by
  refine (nodup_of_seen (fun priorities rules =>
    ∃ names, validatePrivilegeRules realm id names priorities rules = .ok u) ?_ ⟨names, h⟩).2
  intro seen rule rest ⟨names, hcheck⟩
  obtain ⟨_, _, hcheck⟩ := bind_ok.mp hcheck
  obtain ⟨_, _, hcheck⟩ := bind_ok.mp hcheck
  obtain ⟨_, hpriority, hcheck⟩ := bind_ok.mp hcheck
  obtain ⟨_, _, hcheck⟩ := bind_ok.mp hcheck
  obtain ⟨_, _, hrest⟩ := bind_ok.mp hcheck
  exact ⟨refuse_ok.mp hpriority, rule.name :: names, hrest⟩

/-- The rules of an accepted profile are told apart by their priorities, and a scope that none of
them takes is rejected. -/
theorem validateExchangeProfiles_rules {realm : String} {seen : List String}
    {profiles : List Realm.ExchangeProfileConfig} {u : Unit}
    (h : validateExchangeProfiles realm seen profiles = .ok u) :
    ∀ profile ∈ profiles, (profile.privileges.rules.map (·.priority)).Nodup ∧
      profile.onUnmatchedScope = Realm.EXCHANGE_ON_UNMATCHED_SCOPE_REJECT := by
  induction profiles generalizing seen with
  | nil => simp
  | cons profile rest ih =>
    obtain ⟨_, _, h⟩ := bind_ok.mp h
    obtain ⟨_, _, h⟩ := bind_ok.mp h
    obtain ⟨_, _, h⟩ := bind_ok.mp h
    obtain ⟨_, _, h⟩ := bind_ok.mp h
    obtain ⟨_, _, h⟩ := bind_ok.mp h
    obtain ⟨_, _, h⟩ := bind_ok.mp h
    obtain ⟨_, hrules, h⟩ := bind_ok.mp h
    obtain ⟨_, hunmatched, hrest⟩ := bind_ok.mp h
    intro profile' hprofile'
    rcases List.mem_cons.mp hprofile' with rfl | hprofile'
    · exact ⟨validatePrivilegeRules_nodup hrules, not_not.mp (refuse_ok.mp hunmatched)⟩
    · exact ih hrest profile' hprofile'

/-- An accepted configuration that pseudonymises names the version of its key. -/
theorem validate_keyVersion {isFile : String → Bool} {c : Config} {u : Unit}
    (h : c.validate isFile = .ok u) (henabled : c.auditPseudonymEnabled = true) :
    trim c.auditPseudonymKeyVersion ≠ "" := by
  have hpseudonym := (validate_checked h).pseudonym
  unfold Config.validatePseudonym at hpseudonym
  rw [if_neg (by simp [henabled])] at hpseudonym
  obtain ⟨_, _, hpseudonym⟩ := bind_ok.mp hpseudonym
  obtain ⟨_, _, hpseudonym⟩ := bind_ok.mp hpseudonym
  exact refuse_ok.mp hpseudonym

end PicX.Core
