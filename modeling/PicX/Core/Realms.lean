import PicX.Core.Settings

/-!
# Realms (`pic-x-core/src/config.rs`, `realm.rs`)

A realm declares overrides as text; `resolveRealm` reads them against the server's values. What a
realm does not state it inherits, except the lifecycle of its token keys and the lifetime of its
tokens, which a realm that signs has to state.
-/

namespace PicX.Core

/-- What a realm declared, before it is resolved against the server's values. -/
structure RealmInput where
  name : String
  issuer : Option String := none
  listed : Option String := none
  tokenKeysEnabled : Option String := none
  tokenKeysPublishAhead : Option String := none
  tokenKeysRotateEvery : Option String := none
  tokenKeysRetain : Option String := none
  operationsKeysEnabled : Option String := none
  operationsKeysPublishAhead : Option String := none
  operationsKeysRotateEvery : Option String := none
  operationsKeysRetain : Option String := none
  auditSink : Option String := none
  auditRetention : Option String := none
  auditPseudonymEnabled : Option String := none
  auditPseudonymKeyRef : Option String := none
  auditPseudonymKeyVersion : Option String := none
  secretsProvider : Option String := none
  secretsEnvPrefix : Option String := none
  tokenLifetime : Option String := none
  tokenInitialExpiryPolicy : Option String := none
  keyCacheStaleFor : Option String := none
  tokenSigningAlgorithm : Option String := none
  exchangeProfiles : List Realm.ExchangeProfileConfig := []
  trustedAttesters : List Realm.TrustedAttesterConfig := []
  deriving DecidableEq, Repr

/-- `str::to_uppercase`: what each character becomes. On ASCII it is the letter's upper case. -/
structure Uppercase where
  upper : Char → List Char
  ascii : ∀ c : Char, c.toNat < 128 → upper c = [c.toUpper]

def Uppercase.apply (u : Uppercase) (s : String) : String :=
  String.ofList (s.toList.flatMap u.upper)

/-- What upper-casing does to a text of ASCII characters. -/
def asciiUppercase : Uppercase := ⟨fun c => [c.toUpper], fun _ _ => rfl⟩

/-- `str::replace` of single characters. -/
def replaceChars (p : Char → Bool) (with_ : Char) (s : String) : String :=
  String.ofList (s.toList.map fun c => if p c then with_ else c)

/-- A value the realm states, or what it is without one. -/
def stated {α : Type} (value : Option String) (context : String) (parse : String → Result α)
    (otherwise : Result α) : Result α :=
  match value with
  | some value => withContext context (parse value)
  | none => otherwise

/-- A duration of the token keys, which a realm that signs has to state. -/
def requireToken (name : String) (tokenKeysEnabled : Bool) (value : Option String)
    (field : String) : Result Nat :=
  stated value s!"reading `keys.{field}` for the realm `{name}`" parseDuration
    (if tokenKeysEnabled then
      bail (s!"the realm `{name}` signs tokens but declares no `keys.{field}`: a signing-key " ++
        "lifecycle has to be stated, this build does not default one. Set the realm's " ++
        "`keys.publish_ahead`, `keys.rotate_every` and `keys.retain`, or `keys.enabled: false` " ++
        "if it issues nothing")
    else .ok 0)

def resolveTokenSigningAlgorithm (name : String) : Option String → Result String
  | none => .ok "EdDSA"
  | some "EdDSA" => .ok "EdDSA"
  | some "ES256" => .ok "ES256"
  | some other => bail
      (s!"the realm `{name}` names the signing algorithm `{other}`, which this build cannot " ++
        "produce: use `EdDSA` or `ES256`")

/-- The environment prefix of a realm that states none: the server's, suffixed with the realm. -/
def realmEnvPrefix (u : Uppercase) (serverPrefix name : String) : String :=
  serverPrefix ++ "_" ++ replaceChars (· = '-') '_' (u.apply name)

/-- One realm's overrides against the server's values. -/
def Config.resolveRealm (u : Uppercase) (c : Config) (input : RealmInput) : Result RealmConfig := do
  let name := input.name
  let listed ← stated input.listed s!"reading `listed` for the realm `{name}`" parseBool (.ok false)
  let secretsProvider ← stated input.secretsProvider
    s!"reading the secrets provider for the realm `{name}`" SecretProvider.parse
    (.ok c.secretsProvider)
  let auditDestination ← stated input.auditSink s!"reading the audit sink for the realm `{name}`"
    AuditDestination.parse (.ok c.auditDestination)
  let tokenKeysEnabled ← stated input.tokenKeysEnabled
    s!"reading `keys.enabled` for the realm `{name}`" parseBool (.ok true)
  let tokenKeysPublishAhead ←
    requireToken name tokenKeysEnabled input.tokenKeysPublishAhead "publish_ahead"
  let tokenKeysRotateEvery ←
    requireToken name tokenKeysEnabled input.tokenKeysRotateEvery "rotate_every"
  let tokenKeysRetain ← requireToken name tokenKeysEnabled input.tokenKeysRetain "retain"
  let tokenLifetime ← stated input.tokenLifetime
    s!"the realm `{name}` has an invalid `token_lifetime`" parseDuration
    (if tokenKeysEnabled then
      bail (s!"the realm `{name}` issues tokens but declares no `token_lifetime`: how long " ++
        "issued authority stays valid is a deployment decision, and this build does not default " ++
        "one. Set the realm's `token_lifetime`, or `keys.enabled: false` if it issues nothing")
    else .ok 0)
  let tokenInitialExpiryPolicy ← stated input.tokenInitialExpiryPolicy
    s!"the realm `{name}` has an invalid `token_initial_expiry_policy`"
    parseTokenInitialExpiryPolicy (.ok .later)
  let keyCacheStaleFor ← stated input.keyCacheStaleFor
    s!"the realm `{name}` has an invalid `key_cache_stale_for`" parseDurationAllowZero (.ok 3600)
  let tokenSigningAlgorithm ← resolveTokenSigningAlgorithm name input.tokenSigningAlgorithm
  -- the operations ring inherits the shared block unless the realm overrides it
  let operationsKeysEnabled ← stated input.operationsKeysEnabled
    s!"reading `operations.keys.enabled` for the realm `{name}`" parseBool (.ok c.keysEnabled)
  let operationsKeysPublishAhead ← stated input.operationsKeysPublishAhead
    s!"reading `operations.keys.publish_ahead` for the realm `{name}`" parseDuration
    (.ok c.keysPublishAhead)
  let operationsKeysRotateEvery ← stated input.operationsKeysRotateEvery
    s!"reading `operations.keys.rotate_every` for the realm `{name}`" parseDuration
    (.ok c.keysRotateEvery)
  let operationsKeysRetain ← stated input.operationsKeysRetain
    s!"reading `operations.keys.retain` for the realm `{name}`" parseDuration (.ok c.keysRetain)
  let auditRetention ← stated input.auditRetention
    s!"reading `audit.retention` for the realm `{name}`" parseDuration (.ok c.auditRetention)
  let auditPseudonymEnabled ← stated input.auditPseudonymEnabled
    s!"reading `audit.pseudonym.enabled` for the realm `{name}`" parseBool
    (.ok c.auditPseudonymEnabled)
  pure {
    name
    mountPath := s!"/realms/{name}"
    -- the realm's own issuer, or the deployment's public base and its path
    issuer := input.issuer.or
      (c.issuer.map fun base => trimEndMatches (· = '/') base ++ "/realms/" ++ name)
    listed
    tokenKeysEnabled
    tokenKeysPublishAhead
    tokenKeysRotateEvery
    tokenKeysRetain
    tokenLifetime
    tokenInitialExpiryPolicy
    keyCacheStaleFor
    tokenSigningAlgorithm
    operationsKeysEnabled
    operationsKeysPublishAhead
    operationsKeysRotateEvery
    operationsKeysRetain
    auditDestination
    auditRetention
    auditPseudonymEnabled
    auditPseudonymKeyRef := (input.auditPseudonymKeyRef.map SecretRef.mk).or c.auditPseudonymKeyRef
    auditPseudonymKeyVersion := input.auditPseudonymKeyVersion.getD c.auditPseudonymKeyVersion
    secretsProvider
    secretsEnvPrefix := input.secretsEnvPrefix.getD (realmEnvPrefix u c.secretsEnvPrefix name)
    exchangeProfiles := input.exchangeProfiles
    trustedAttesters := input.trustedAttesters }

/-- Attaches the realms this deployment hosts. -/
def Config.withRealms (u : Uppercase) (c : Config) (realms : List RealmInput) : Result Config := do
  let realms ← realms.mapM (c.resolveRealm u)
  pure { c with realms }

end PicX.Core
