import Mathlib
import PicX.Core.Secrets
import PicX.Server.Witness

/-!
# Composing the pseudonymisers (`app.rs`, `main.rs`, `secrets.rs`)

What `serve` does with a configuration between its validation and the host: it resolves the
server's pseudonymisation key, checks its version against the volume, and does the same for every
realm. The server's key is measured on the way; a realm's is taken as it is.

* `compose` — the part of `serve` up to the host.
* `compose_ok` — the pseudonymisers in force, and the keys they came from.
* `pseudonymisation_strength` — when all of them are strong.
-/

namespace PicX.Server

open PicX.Core

/-! ## Secret stores -/

/-- Why a file could not be read. -/
inductive ReadError where
  | notFound
  | permissionDenied
  | other (cause : String)

/-- What a deployment finds outside: files, the environment, and the witnesses of the volume. -/
structure Outside where
  configFile : String
  isFile : String → Bool
  read : String → Except ReadError Bytes
  /-- Whether anybody but its owner may write a file. -/
  writable : String → Bool
  /-- A variable of the environment, when it is set and is text. -/
  environment : String → Option String
  witnesses : String → Option String
  upper : Uppercase
  /-- How the rest of what `serve` assembles for the server turns out: its ring and its trail. -/
  assembled : Result Unit
  /-- The same for a realm. -/
  realmAssembled : RealmConfig → Result Unit

/-- `SecretError`. -/
inductive SecretError where
  | notFound (reference : String)
  | denied (reference : String)
  | unavailable (cause : String)

/-- The error and what caused it. -/
def SecretError.chain : SecretError → Error
  | .notFound reference => [s!"no secret named `{reference}`"]
  | .denied reference => [s!"access to the secret `{reference}` was denied"]
  | .unavailable cause => [s!"the secret store is unavailable: {cause}", cause]

/-- A secret store answers references with material. -/
structure SecretStore where
  name : String
  resolve : SecretRef → Except SecretError Bytes

/-- Resolves a reference, naming what it was for when it fails. -/
def SecretStore.resolveFor (store : SecretStore) (reference : SecretRef) (context : String) :
    Result Bytes :=
  withContext context (mapErr SecretError.chain (store.resolve reference))

/-- Drops the newline a file ends with. -/
def trimTrailingNewline (material : Bytes) : Bytes :=
  let material := if material.getLast? = some 10 then material.dropLast else material
  if material.getLast? = some 13 then material.dropLast else material

/-- The path a reference resolves to; nothing for one that tries to leave the directory. -/
def pathOf (directory : String) (reference : SecretRef) : Option String :=
  let name := reference.name
  if name = "" ∨ ['.', '.'] <:+: name.toList ∨ '/' ∈ name.toList ∨ '\\' ∈ name.toList then none
  else some (join directory name)

variable (o : Outside)

def directorySecretStore (directory : String) : SecretStore where
  name := "directory"
  resolve reference :=
    match pathOf directory reference with
    | none => .error (.denied reference.name)
    | some path =>
      if o.writable path then .error (.denied reference.name)
      else match o.read path with
        | .ok material => .ok (trimTrailingNewline material)
        | .error .notFound => .error (.notFound reference.name)
        | .error .permissionDenied => .error (.denied reference.name)
        | .error (.other cause) => .error (.unavailable cause)

def environmentSecretStore (store : EnvironmentSecretStore) : SecretStore where
  name := "environment"
  resolve reference :=
    match o.environment (store.variableOf o.upper reference) with
    | some material => .ok (utf8 material)
    | none => .error (.notFound reference.name)

/-! ## Directories -/

def DEFAULT_SECRETS_SUBDIRECTORY : String := "operations/secrets"

def secretsDirectory (c : Config) : String :=
  resolvePath c.workingDirectory (c.secretsDirectory.getD DEFAULT_SECRETS_SUBDIRECTORY)

def realmSecretsDirectory (c : Config) (realm : String) : String :=
  resolvePath c.workingDirectory s!"realms/{realm}/operations/secrets"

/-! ## The server's pseudonymiser -/

/-- The shortest key a pseudonymiser is built from. -/
def MINIMUM_KEY_LENGTH : Nat := 16

/-- The store the configuration names. -/
def secretStoreFor (c : Config) : Option SecretStore :=
  match c.secretsProvider with
  | .none => none
  | .directory => some (directorySecretStore o (secretsDirectory c))
  | .environment => some (environmentSecretStore o c.secretStore)

/-- Builds the privacy policy the configuration asks for. -/
def pseudonymizerFor (c : Config) (secrets : Option SecretStore) :
    Result (Option HmacPseudonymizer) :=
  if !c.auditPseudonymEnabled then .ok none
  else do
    let reference ← okOr c.auditPseudonymKeyRef
      ["audit pseudonymisation is enabled but names no secret"]
    let secrets ← okOr secrets
      ["audit pseudonymisation is enabled but this build resolved no secret store"]
    let key ← secrets.resolveFor reference ("resolving the audit pseudonymisation key " ++
      s!"`{reference.name}` from the {secrets.name} secret store")
    refuse (key.length < MINIMUM_KEY_LENGTH) (s!"the secret `{reference.name}` is shorter than " ++
      s!"{MINIMUM_KEY_LENGTH} bytes, which is too short to derive pseudonyms from")
    pure (some ⟨key, c.auditPseudonymKeyVersion⟩)

/-! ## A realm's pseudonymiser -/

/-- The store a realm resolves its key from. -/
def realmStore (c : Config) (realm : RealmConfig) : Result SecretStore :=
  match realm.secretsProvider with
  | .directory => .ok (directorySecretStore o (realmSecretsDirectory c realm.name))
  | .environment => .ok (environmentSecretStore o realm.secretStore)
  | .none => bail s!"the realm `{realm.name}` pseudonymises but resolves secrets from nowhere"

/-- The key a realm resolves. -/
def realmKey (c : Config) (realm : RealmConfig) : Result Bytes := do
  let reference ← okOr realm.auditPseudonymKeyRef
    ["audit pseudonymisation is enabled but names no secret"]
  let store ← realmStore o c realm
  store.resolveFor reference (s!"resolving the pseudonymisation key `{reference.name}` for the " ++
    s!"realm `{realm.name}`")

/-- The pseudonymiser of `build_realm`. -/
def realmPseudonymizer (c : Config) (realm : RealmConfig) : Result (Option HmacPseudonymizer) :=
  if !realm.auditPseudonymEnabled then .ok none
  else do
    let key ← realmKey o c realm
    pure (some ⟨key, realm.auditPseudonymKeyVersion⟩)

/-- A realm, as far as its pseudonyms go. -/
structure BuiltRealm where
  name : String
  pseudonymizer : Option HmacPseudonymizer
  deriving DecidableEq, Repr

def buildRealm (c : Config) (realm : RealmConfig) : Result BuiltRealm :=
  withContext s!"assembling the realm `{realm.name}`" do
    o.realmAssembled realm
    let pseudonymizer ← realmPseudonymizer o c realm
    pure { name := realm.name, pseudonymizer }

/-! ## The composition -/

/-- What the host is given, as far as pseudonyms go. -/
structure Composition where
  pseudonymizer : Option HmacPseudonymizer
  realms : List BuiltRealm
  deriving DecidableEq, Repr

/-- The pseudonymisers in force. -/
def Composition.pseudonymizers (composition : Composition) : List HmacPseudonymizer :=
  composition.pseudonymizer.toList ++ composition.realms.filterMap BuiltRealm.pseudonymizer

def witnessPath (c : Config) : String :=
  resolvePath c.workingDirectory "operations/state/audit-pseudonym-versions"

def realmWitnessPath (c : Config) (realm : String) : String :=
  resolvePath c.workingDirectory s!"realms/{realm}/operations/state/audit-pseudonym-versions"

variable (hmac : Bytes → Bytes → Bytes)

/-- Whether a pseudonymiser passes the check of the volume. -/
def checkWitness (path : String) (p : Option HmacPseudonymizer) : Result Unit :=
  match checkAt hmac path p (o.witnesses path) with
  | .ok _ => .ok ()
  | .error e => bail e

/-- `serve`, from the validation to the host. -/
def compose (c : Config) : Result Composition := do
  withContext s!"validating the configuration loaded from {o.configFile}" (c.validate o.isFile)
  let pseudonymizer ← pseudonymizerFor c (secretStoreFor o c)
  checkWitness o hmac (witnessPath c) pseudonymizer
  o.assembled
  let realms ← c.realms.mapM (buildRealm o c)
  realms.forM fun realm =>
    withContext s!"checking the pseudonymisation key of the realm `{realm.name}`"
      (checkWitness o hmac (realmWitnessPath c realm.name) realm.pseudonymizer)
  pure { pseudonymizer, realms }

/-! ## What was composed -/

/-- A pseudonymiser nobody reverses by trying keys, whose tokens say which key made them. -/
def Strong (p : HmacPseudonymizer) : Prop :=
  MINIMUM_KEY_LENGTH ≤ p.key.length ∧ trim p.keyVersion ≠ ""

variable {o hmac} {c : Config} {realm : RealmConfig}

/-- The server's pseudonymiser is made from a key that was measured. -/
theorem pseudonymizerFor_ok {secrets : Option SecretStore} {p : HmacPseudonymizer}
    (h : pseudonymizerFor c secrets = .ok (some p)) :
    c.auditPseudonymEnabled = true ∧ MINIMUM_KEY_LENGTH ≤ p.key.length ∧
      p.keyVersion = c.auditPseudonymKeyVersion := by
  unfold pseudonymizerFor at h
  split_ifs at h with hoff
  · cases h
  · obtain ⟨reference, -, h⟩ := bind_ok.mp h
    obtain ⟨store, -, h⟩ := bind_ok.mp h
    obtain ⟨key, -, h⟩ := bind_ok.mp h
    obtain ⟨_, hlength, h⟩ := bind_ok.mp h
    cases Option.some.inj (pure_ok.mp h)
    exact ⟨by simpa using hoff, Nat.le_of_not_lt (refuse_ok.mp hlength), rfl⟩

/-- A realm's pseudonymiser is made from the key its store has. -/
theorem buildRealm_ok {built : BuiltRealm} (h : buildRealm o c realm = .ok built) :
    (realm.auditPseudonymEnabled = false ∧ built.pseudonymizer = none) ∨
    (realm.auditPseudonymEnabled = true ∧ ∃ key, realmKey o c realm = .ok key ∧
      built.pseudonymizer = some ⟨key, realm.auditPseudonymKeyVersion⟩) := by
  obtain ⟨_, -, h⟩ := bind_ok.mp (withContext_ok.mp h)
  obtain ⟨p, hp, h⟩ := bind_ok.mp h
  cases pure_ok.mp h
  unfold realmPseudonymizer at hp
  split_ifs at hp with hoff
  · cases hp
    exact Or.inl ⟨by simpa using hoff, rfl⟩
  · obtain ⟨key, hkey, hp⟩ := bind_ok.mp hp
    cases pure_ok.mp hp
    exact Or.inr ⟨by simpa using hoff, key, hkey, rfl⟩

theorem compose_ok {composition : Composition} (h : compose o hmac c = .ok composition) :
    c.validate o.isFile = .ok () ∧
    pseudonymizerFor c (secretStoreFor o c) = .ok composition.pseudonymizer ∧
    c.realms.mapM (buildRealm o c) = .ok composition.realms := by
  obtain ⟨_, hvalid, h⟩ := bind_ok.mp h
  obtain ⟨p, hp, h⟩ := bind_ok.mp h
  obtain ⟨_, -, h⟩ := bind_ok.mp h
  obtain ⟨_, -, h⟩ := bind_ok.mp h
  obtain ⟨realms, hrealms, h⟩ := bind_ok.mp h
  obtain ⟨_, -, h⟩ := bind_ok.mp h
  cases pure_ok.mp h
  exact ⟨withContext_ok.mp hvalid, hp, hrealms⟩

theorem server_strong {composition : Composition} (h : compose o hmac c = .ok composition)
    {p : HmacPseudonymizer} (hp : composition.pseudonymizer = some p) : Strong p := by
  obtain ⟨hvalid, hserver, -⟩ := compose_ok h
  rw [hp] at hserver
  obtain ⟨henabled, hlength, hversion⟩ := pseudonymizerFor_ok hserver
  exact ⟨hlength, hversion ▸ validate_keyVersion hvalid henabled⟩

/-- **Pseudonymisation strength.** For every configuration and every content of the secret stores
that `serve` takes as far as the host: all pseudonymisers in force are strong exactly when every
realm that pseudonymises resolves a key of at least `MINIMUM_KEY_LENGTH` bytes and states a key
version that is not blank. -/
theorem pseudonymisation_strength {composition : Composition}
    (h : compose o hmac c = .ok composition) :
    (∀ p ∈ composition.pseudonymizers, Strong p) ↔
      ∀ realm ∈ c.realms, realm.auditPseudonymEnabled = true →
        ∀ key, realmKey o c realm = .ok key →
          MINIMUM_KEY_LENGTH ≤ key.length ∧ trim realm.auditPseudonymKeyVersion ≠ "" := by
  obtain ⟨-, -, hrealms⟩ := compose_ok h
  constructor
  · intro hstrong realm hrealm henabled key hkey
    obtain ⟨built, hbuilt, hbuild⟩ := mem_mapM_left hrealms hrealm
    rcases buildRealm_ok hbuild with ⟨hoff, -⟩ | ⟨-, key', hkey', hp⟩
    · simp [henabled] at hoff
    · cases hkey.symm.trans hkey'
      refine hstrong ⟨key, realm.auditPseudonymKeyVersion⟩ (List.mem_append_right _ ?_)
      exact List.mem_filterMap.mpr ⟨built, hbuilt, hp⟩
  · intro hkeys p hp
    rcases List.mem_append.mp hp with hserver | hofRealm
    · exact server_strong h (Option.mem_toList.mp hserver)
    · obtain ⟨built, hbuilt, hp⟩ := List.mem_filterMap.mp hofRealm
      obtain ⟨realm, hrealm, hbuild⟩ := mem_mapM_right hrealms hbuilt
      rcases buildRealm_ok hbuild with ⟨-, hnone⟩ | ⟨henabled, key, hkey, hsome⟩
      · simp [hnone] at hp
      · cases Option.some.inj (hp.symm.trans hsome)
        exact hkeys realm hrealm henabled key hkey

/-! ## A realm with a key of its own -/

/-- HMAC-SHA256 of the witness input under a key of sixteen bytes and under one of three. -/
def realmHmac (key : Bytes) (_ : Bytes) : Bytes :=
  if key = utf8 "a key of sixteen" then
    [96, 197, 90, 205, 48, 120, 5, 150, 98, 255, 227, 245, 59, 58, 105, 222, 92, 209, 222, 209, 214,
      49, 185, 128, 246, 178, 98, 248, 234, 101, 184, 147]
  else if key = utf8 "abc" then
    [158, 173, 17, 140, 42, 7, 136, 137, 177, 182, 8, 60, 172, 203, 155, 225, 22, 46, 16, 60, 57,
      207, 81, 207, 179, 56, 244, 61, 235, 59, 66, 106]
  else []

/-- One realm that signs nothing and pseudonymises under the secret `subjects`. -/
def pseudonymisingFile : ConfigFile where
  publicHttp := { http := some "0.0.0.0:8080" }
  realms := [
    { name := "acme"
      keys := { enabled := some "false" }
      operations :=
        { audit := { pseudonym := { enabled := some "true", keyRef := some "subjects" } }
          secrets := { provider := some "environment" } } }]

/-- A fresh volume, and an environment with this secret in it. -/
def secretInEnvironment (secret : String) : Outside where
  configFile := "pic-x.yaml"
  isFile _ := true
  read _ := .error .notFound
  writable _ := false
  environment name := if name = "PIC_X_SECRET_ACME_SUBJECTS" then some secret else none
  witnesses _ := none
  upper := asciiUppercase
  assembled := .ok ()
  realmAssembled _ := .ok ()

/-- What is composed of that file with this secret in the environment. -/
def composedWith (secret : String) : Option Composition :=
  (testDeployment.config pseudonymisingFile [] []).toOption.bind fun c =>
    (compose (secretInEnvironment secret) realmHmac c).toOption

theorem composedWith_some {secret : String} {composition : Composition}
    (h : composedWith secret = some composition) :
    ∃ c, testDeployment.config pseudonymisingFile [] [] = .ok c ∧
      compose (secretInEnvironment secret) realmHmac c = .ok composition := by
  obtain ⟨c, hc, h⟩ := Option.bind_eq_some_iff.mp h
  exact ⟨c, toOption_eq_some.mp hc, toOption_eq_some.mp h⟩

theorem pseudonymisation_strength_sixteen : ∃ c composition,
    compose (secretInEnvironment "a key of sixteen") realmHmac c = .ok composition ∧
    composition.pseudonymizers = [⟨utf8 "a key of sixteen", "v1"⟩] ∧
    ((∀ p ∈ composition.pseudonymizers, Strong p) ↔
      ∀ realm ∈ c.realms, realm.auditPseudonymEnabled = true →
        ∀ key, realmKey (secretInEnvironment "a key of sixteen") c realm = .ok key →
          MINIMUM_KEY_LENGTH ≤ key.length ∧ trim realm.auditPseudonymKeyVersion ≠ "") := by
  have hrun : composedWith "a key of sixteen" =
      some ⟨none, [⟨"acme", some ⟨utf8 "a key of sixteen", "v1"⟩⟩]⟩ := by
    decide +kernel
  obtain ⟨c, -, h⟩ := composedWith_some hrun
  exact ⟨c, _, h, rfl, pseudonymisation_strength h⟩

/-- A realm pseudonymises under a key of three bytes, and `serve` reaches the host. -/
theorem realm_key_of_three_bytes : ∃ c composition p,
    testDeployment.config pseudonymisingFile [] [] = .ok c ∧
    compose (secretInEnvironment "abc") realmHmac c = .ok composition ∧
    p ∈ composition.pseudonymizers ∧ p.key.length < MINIMUM_KEY_LENGTH := by
  have hrun : composedWith "abc" = some ⟨none, [⟨"acme", some ⟨utf8 "abc", "v1"⟩⟩]⟩ := by
    decide +kernel
  obtain ⟨c, hc, h⟩ := composedWith_some hrun
  refine ⟨c, _, ⟨utf8 "abc", "v1"⟩, hc, h, List.mem_singleton_self _, ?_⟩
  decide

end PicX.Server
