import PicX.Core.Leaves

/-!
# The leaves of a realm

Everything a realm declares in the file, as a slot of its section: its name, the texts that are
read against the server's values (`RealmSetting.field`), and the leaves of its exchange profiles and
attesters, which are kept as they were written.

* `resolveRealm_reads`: a text a realm states is what the resolved realm has.
* `RealmLeaf.told`: **whatever a realm declares, some other value resolves differently**.
-/

namespace PicX.Core

/-! ## Exchange profiles and attesters -/

inductive MappingLeaf where
  | from_
  | value
  | valueType
  | encoding
  deriving DecidableEq, Repr

def MappingLeaf.slot : MappingLeaf → Slot Realm.ClaimMapping
  | .from_ => .optional (·.from?) (fun v m => { m with from? := v }) fun _ => rfl
  | .value => .optional (·.value) (fun v m => { m with value := v }) fun _ => rfl
  | .valueType => .optional (·.valueType) (fun v m => { m with valueType := v }) fun _ => rfl
  | .encoding => .optional (·.encoding) (fun v m => { m with encoding := v }) fun _ => rfl

inductive RuleLeaf where
  | name
  | priority
  | pattern
  | scope
  | operation
  | resourceType
  | resourceId
  deriving DecidableEq, Repr

def RuleLeaf.slot : RuleLeaf → Slot Realm.PrivilegeRule
  | .name => .field (·.name) (fun v r => { r with name := v }) fun _ => rfl
  | .priority => .field (·.priority) (fun v r => { r with priority := v }) fun _ => rfl
  | .pattern => .field (·.pattern) (fun v r => { r with pattern := v }) fun _ => rfl
  | .scope => .field (·.emit.scope) (fun v r => { r with emit := { r.emit with scope := v } })
      fun _ => rfl
  | .operation => .field (·.emit.operation)
      (fun v r => { r with emit := { r.emit with operation := v } }) fun _ => rfl
  | .resourceType => .field (·.emit.resourceType)
      (fun v r => { r with emit := { r.emit with resourceType := v } }) fun _ => rfl
  | .resourceId => .field (·.emit.resourceId)
      (fun v r => { r with emit := { r.emit with resourceId := v } }) fun _ => rfl

inductive ProfileLeaf where
  | id
  | tokenType
  | format
  | issuer
  | discoveryUrl
  | audience
  | allowedAlgorithms
  | requireExpiration
  | requireTokenType
  | identityContext (i : Nat) (leaf : MappingLeaf)
  | scopes (leaf : MappingLeaf)
  | privilegesSource
  | rule (i : Nat) (leaf : RuleLeaf)
  | onUnmatchedScope
  deriving DecidableEq, Repr

def ProfileLeaf.slot : ProfileLeaf → Slot ExchangeProfileSection
  | .id => .field (·.id) (fun v p => { p with id := v }) fun _ => rfl
  | .tokenType => source (.field (·.tokenType) (fun v s => { s with tokenType := v }) fun _ => rfl)
  | .format => source (.field (·.format) (fun v s => { s with format := v }) fun _ => rfl)
  | .issuer => source (.field (·.issuer) (fun v s => { s with issuer := v }) fun _ => rfl)
  | .discoveryUrl =>
    source (.optional (·.discoveryUrl) (fun v s => { s with discoveryUrl := v }) fun _ => rfl)
  | .audience => source (.field (·.audience) (fun v s => { s with audience := v }) fun _ => rfl)
  | .allowedAlgorithms => source (.field (·.validation.allowedAlgorithms)
      (fun v s => { s with validation := { s.validation with allowedAlgorithms := v } })
      fun _ => rfl)
  | .requireExpiration => source (.optional (·.validation.requireExpiration)
      (fun v s => { s with validation := { s.validation with requireExpiration := v } })
      fun _ => rfl)
  | .requireTokenType => source (.optional (·.validation.requireTokenType)
      (fun v s => { s with validation := { s.validation with requireTokenType := v } })
      fun _ => rfl)
  | .identityContext i leaf =>
    ((leaf.slot.inside Prod.snd (fun m entry => (entry.1, m)) fun _ => rfl).nth i).inside
      (·.claims.identityContext)
      (fun v p => { p with claims := { p.claims with identityContext := v } }) fun _ => rfl
  | .scopes leaf => leaf.slot.inside (·.claims.scopes)
      (fun v p => { p with claims := { p.claims with scopes := v } }) fun _ => rfl
  | .privilegesSource => .field (·.privileges.source)
      (fun v p => { p with privileges := { p.privileges with source := v } }) fun _ => rfl
  | .rule i leaf => (leaf.slot.nth i).inside (·.privileges.rules)
      (fun v p => { p with privileges := { p.privileges with rules := v } }) fun _ => rfl
  | .onUnmatchedScope =>
    .optional (·.onUnmatchedScope) (fun v p => { p with onUnmatchedScope := v }) fun _ => rfl
where
  source (slot : Slot ExchangeProfileSourceSection) : Slot ExchangeProfileSection :=
    slot.inside (·.source) (fun s p => { p with source := s }) fun _ => rfl

inductive AttesterLeaf where
  | id
  | issuer
  | jwksUri
  | proofTypes
  | formats
  deriving DecidableEq, Repr

def AttesterLeaf.slot : AttesterLeaf → Slot Realm.TrustedAttesterConfig
  | .id => .field (·.id) (fun v a => { a with id := v }) fun _ => rfl
  | .issuer => .field (·.issuer) (fun v a => { a with issuer := v }) fun _ => rfl
  | .jwksUri => .field (·.jwksUri) (fun v a => { a with jwksUri := v }) fun _ => rfl
  | .proofTypes => .field (·.proofTypes) (fun v a => { a with proofTypes := v }) fun _ => rfl
  | .formats => .field (·.formats) (fun v a => { a with formats := v }) fun _ => rfl

theorem a_ne_b : "a" ≠ "b" := by decide

theorem MappingLeaf.shows (leaf : MappingLeaf) :
    leaf.slot.Shows fun mapping : Realm.ClaimMapping => mapping := by
  cases leaf
  case from_ => exact Slot.shows_of _ a_ne_b (fun mapping => mapping.from?) fun _ _ => rfl
  case value => exact Slot.shows_of _ a_ne_b (fun mapping => mapping.value) fun _ _ => rfl
  case valueType => exact Slot.shows_of _ a_ne_b (fun mapping => mapping.valueType) fun _ _ => rfl
  case encoding => exact Slot.shows_of _ a_ne_b (fun mapping => mapping.encoding) fun _ _ => rfl

theorem RuleLeaf.shows (leaf : RuleLeaf) :
    leaf.slot.Shows fun rule : Realm.PrivilegeRule => rule := by
  have hne : (0 : Int) ≠ 1 := by decide
  cases leaf
  case name => exact Slot.shows_of _ a_ne_b (fun rule => some rule.name) fun _ _ => rfl
  case priority => exact Slot.shows_of _ hne (fun rule => some rule.priority) fun _ _ => rfl
  case pattern => exact Slot.shows_of _ a_ne_b (fun rule => some rule.pattern) fun _ _ => rfl
  case scope => exact Slot.shows_of _ a_ne_b (fun rule => some rule.emit.scope) fun _ _ => rfl
  case operation =>
    exact Slot.shows_of _ a_ne_b (fun rule => some rule.emit.operation) fun _ _ => rfl
  case resourceType =>
    exact Slot.shows_of _ a_ne_b (fun rule => some rule.emit.resourceType) fun _ _ => rfl
  case resourceId =>
    exact Slot.shows_of _ a_ne_b (fun rule => some rule.emit.resourceId) fun _ _ => rfl

theorem AttesterLeaf.shows (leaf : AttesterLeaf) :
    leaf.slot.Shows fun attester : Realm.TrustedAttesterConfig => attester := by
  have hne : ["a"] ≠ ["b"] := by decide
  cases leaf
  case id => exact Slot.shows_of _ a_ne_b (fun attester => some attester.id) fun _ _ => rfl
  case issuer => exact Slot.shows_of _ a_ne_b (fun attester => some attester.issuer) fun _ _ => rfl
  case jwksUri =>
    exact Slot.shows_of _ a_ne_b (fun attester => some attester.jwksUri) fun _ _ => rfl
  case proofTypes =>
    exact Slot.shows_of _ hne (fun attester => some attester.proofTypes) fun _ _ => rfl
  case formats => exact Slot.shows_of _ hne (fun attester => some attester.formats) fun _ _ => rfl

/-- A leaf of an exchange profile can be seen in what the profile becomes. -/
theorem ProfileLeaf.shows (leaf : ProfileLeaf) :
    leaf.slot.Shows ExchangeProfileSection.toInput := by
  have hlists : ["a"] ≠ ["b"] := by decide
  have hflags : true ≠ false := by decide
  cases leaf
  case id => exact Slot.shows_of _ a_ne_b (fun p => some p.id) fun _ _ => rfl
  case tokenType => exact Slot.shows_of _ a_ne_b (fun p => some p.source.tokenType) fun _ _ => rfl
  case format => exact Slot.shows_of _ a_ne_b (fun p => some p.source.format) fun _ _ => rfl
  case issuer => exact Slot.shows_of _ a_ne_b (fun p => some p.source.issuer) fun _ _ => rfl
  case discoveryUrl => exact Slot.shows_of _ a_ne_b (fun p => p.source.discoveryUrl) fun _ _ => rfl
  case audience => exact Slot.shows_of _ a_ne_b (fun p => some p.source.audience) fun _ _ => rfl
  case allowedAlgorithms =>
    exact Slot.shows_of _ hlists (fun p => some p.source.validation.allowedAlgorithms)
      fun _ _ => rfl
  case requireExpiration =>
    exact Slot.shows_of _ hflags (fun p => some p.source.validation.requireExpiration)
      fun _ _ => rfl
  case requireTokenType =>
    exact Slot.shows_of _ a_ne_b (fun p => p.source.validation.requireTokenType) fun _ _ => rfl
  case identityContext i leaf =>
    have hentry : (leaf.slot.inside Prod.snd (fun m entry => (entry.1, m))
        fun _ => rfl).Shows (fun entry : String × Realm.ClaimMapping => entry) :=
      leaf.shows.inside Prod.snd fun _ _ => rfl
    exact (hentry.nth i).inside (fun p => p.claims.identityContext.map fun entry => entry)
      fun _ _ => rfl
  case scopes leaf => exact leaf.shows.inside (fun p => p.claims.scopes) fun _ _ => rfl
  case privilegesSource =>
    exact Slot.shows_of _ a_ne_b (fun p => some p.privileges.source) fun _ _ => rfl
  case rule i leaf =>
    exact (leaf.shows.nth i).inside (fun p => p.privileges.rules.map fun rule => rule)
      fun _ _ => rfl
  case onUnmatchedScope =>
    exact Slot.shows_of _ a_ne_b (fun p => some p.onUnmatchedScope) fun _ _ => rfl

/-! ## The texts of a realm -/

/-- Where a realm states a text, how it is read and where the resolved realm keeps it. -/
structure RealmField where
  Value : Type
  given : RealmInput → Option String
  parse : String → Result Value
  get : RealmConfig → Value

inductive RealmSetting where
  | tokenLifetime | tokenInitialExpiryPolicy | keyCacheStaleFor | tokenSigningAlgorithm
  | issuer | listed
  | tokenKeysEnabled | tokenKeysPublishAhead | tokenKeysRotateEvery | tokenKeysRetain
  | operationsKeysEnabled | operationsKeysPublishAhead | operationsKeysRotateEvery
  | operationsKeysRetain
  | auditSink | auditRetention
  | auditPseudonymEnabled | auditPseudonymKeyRef | auditPseudonymKeyVersion
  | secretsProvider | secretsEnvPrefix
  deriving DecidableEq, Repr

def RealmSetting.field : RealmSetting → RealmField
  | .tokenLifetime => ⟨_, (·.tokenLifetime), parseDuration, (·.tokenLifetime)⟩
  | .tokenInitialExpiryPolicy => ⟨_, (·.tokenInitialExpiryPolicy), parseTokenInitialExpiryPolicy,
      (·.tokenInitialExpiryPolicy)⟩
  | .keyCacheStaleFor => ⟨_, (·.keyCacheStaleFor), parseDurationAllowZero, (·.keyCacheStaleFor)⟩
  -- one of two names, kept as it was written
  | .tokenSigningAlgorithm => ⟨_, (·.tokenSigningAlgorithm), .ok, (·.tokenSigningAlgorithm)⟩
  | .issuer => ⟨_, (·.issuer), fun v => .ok (some v), (·.issuer)⟩
  | .listed => ⟨_, (·.listed), parseBool, (·.listed)⟩
  | .tokenKeysEnabled => ⟨_, (·.tokenKeysEnabled), parseBool, (·.tokenKeysEnabled)⟩
  | .tokenKeysPublishAhead =>
    ⟨_, (·.tokenKeysPublishAhead), parseDuration, (·.tokenKeysPublishAhead)⟩
  | .tokenKeysRotateEvery => ⟨_, (·.tokenKeysRotateEvery), parseDuration, (·.tokenKeysRotateEvery)⟩
  | .tokenKeysRetain => ⟨_, (·.tokenKeysRetain), parseDuration, (·.tokenKeysRetain)⟩
  | .operationsKeysEnabled => ⟨_, (·.operationsKeysEnabled), parseBool, (·.operationsKeysEnabled)⟩
  | .operationsKeysPublishAhead =>
    ⟨_, (·.operationsKeysPublishAhead), parseDuration, (·.operationsKeysPublishAhead)⟩
  | .operationsKeysRotateEvery =>
    ⟨_, (·.operationsKeysRotateEvery), parseDuration, (·.operationsKeysRotateEvery)⟩
  | .operationsKeysRetain => ⟨_, (·.operationsKeysRetain), parseDuration, (·.operationsKeysRetain)⟩
  | .auditSink => ⟨_, (·.auditSink), AuditDestination.parse, (·.auditDestination)⟩
  | .auditRetention => ⟨_, (·.auditRetention), parseDuration, (·.auditRetention)⟩
  | .auditPseudonymEnabled => ⟨_, (·.auditPseudonymEnabled), parseBool, (·.auditPseudonymEnabled)⟩
  | .auditPseudonymKeyRef =>
    ⟨_, (·.auditPseudonymKeyRef), fun v => .ok (some ⟨v⟩), (·.auditPseudonymKeyRef)⟩
  | .auditPseudonymKeyVersion =>
    ⟨_, (·.auditPseudonymKeyVersion), .ok, (·.auditPseudonymKeyVersion)⟩
  | .secretsProvider => ⟨_, (·.secretsProvider), SecretProvider.parse, (·.secretsProvider)⟩
  | .secretsEnvPrefix => ⟨_, (·.secretsEnvPrefix), .ok, (·.secretsEnvPrefix)⟩

/-- Where the realm's section states the text. -/
def RealmSetting.entry : RealmSetting → Entry RealmSection
  | .tokenLifetime =>
    .plain (·.tokenLifetime) (fun v r => { r with tokenLifetime := v }) fun _ => rfl
  | .tokenInitialExpiryPolicy => .plain (·.tokenInitialExpiryPolicy)
      (fun v r => { r with tokenInitialExpiryPolicy := v }) fun _ => rfl
  | .keyCacheStaleFor =>
    .plain (·.keyCacheStaleFor) (fun v r => { r with keyCacheStaleFor := v }) fun _ => rfl
  | .tokenSigningAlgorithm =>
    .plain (·.tokenSigningAlgorithm) (fun v r => { r with tokenSigningAlgorithm := v }) fun _ => rfl
  | .issuer => .plain (·.issuer) (fun v r => { r with issuer := v }) fun _ => rfl
  | .listed => .plain (·.listed) (fun v r => { r with listed := v }) fun _ => rfl
  | .tokenKeysEnabled => tokenKeys (·.enabled) (fun v s => { s with enabled := v }) fun _ => rfl
  | .tokenKeysPublishAhead =>
    tokenKeys (·.publishAhead) (fun v s => { s with publishAhead := v }) fun _ => rfl
  | .tokenKeysRotateEvery =>
    tokenKeys (·.rotateEvery) (fun v s => { s with rotateEvery := v }) fun _ => rfl
  | .tokenKeysRetain => tokenKeys (·.retain) (fun v s => { s with retain := v }) fun _ => rfl
  | .operationsKeysEnabled =>
    operationsKeys (·.enabled) (fun v s => { s with enabled := v }) fun _ => rfl
  | .operationsKeysPublishAhead =>
    operationsKeys (·.publishAhead) (fun v s => { s with publishAhead := v }) fun _ => rfl
  | .operationsKeysRotateEvery =>
    operationsKeys (·.rotateEvery) (fun v s => { s with rotateEvery := v }) fun _ => rfl
  | .operationsKeysRetain =>
    operationsKeys (·.retain) (fun v s => { s with retain := v }) fun _ => rfl
  | .auditSink => audit (·.sink) (fun v s => { s with sink := v }) fun _ => rfl
  | .auditRetention => audit (·.retention) (fun v s => { s with retention := v }) fun _ => rfl
  | .auditPseudonymEnabled => audit (·.pseudonym.enabled)
      (fun v s => { s with pseudonym := { s.pseudonym with enabled := v } }) fun _ => rfl
  | .auditPseudonymKeyRef => audit (·.pseudonym.keyRef)
      (fun v s => { s with pseudonym := { s.pseudonym with keyRef := v } }) fun _ => rfl
  | .auditPseudonymKeyVersion => audit (·.pseudonym.keyVersion)
      (fun v s => { s with pseudonym := { s.pseudonym with keyVersion := v } }) fun _ => rfl
  | .secretsProvider => secrets (·.provider) (fun v s => { s with provider := v }) fun _ => rfl
  | .secretsEnvPrefix => secrets (·.envPrefix) (fun v s => { s with envPrefix := v }) fun _ => rfl
where
  tokenKeys (get : RealmKeysSection → Option String)
      (set : Option String → RealmKeysSection → RealmKeysSection) (h : ∀ s, set (get s) s = s) :
      Entry RealmSection :=
    (Entry.plain get set h).inside (·.keys) (fun s r => { r with keys := s }) fun _ => rfl
  operationsKeys (get : RealmKeysSection → Option String)
      (set : Option String → RealmKeysSection → RealmKeysSection) (h : ∀ s, set (get s) s = s) :
      Entry RealmSection :=
    (Entry.plain get set h).inside (·.operations.keys)
      (fun s r => { r with operations := { r.operations with keys := s } }) fun _ => rfl
  audit (get : RealmAuditSection → Option String)
      (set : Option String → RealmAuditSection → RealmAuditSection) (h : ∀ s, set (get s) s = s) :
      Entry RealmSection :=
    (Entry.plain get set h).inside (·.operations.audit)
      (fun s r => { r with operations := { r.operations with audit := s } }) fun _ => rfl
  secrets (get : RealmSecretsSection → Option String)
      (set : Option String → RealmSecretsSection → RealmSecretsSection)
      (h : ∀ s, set (get s) s = s) : Entry RealmSection :=
    (Entry.plain get set h).inside (·.operations.secrets)
      (fun s r => { r with operations := { r.operations with secrets := s } }) fun _ => rfl

theorem RealmSetting.entry_full (k : RealmSetting) : k.entry.Full := by
  cases k <;> exact Entry.plain_full

/-- What a text is set to is what the realm states. -/
theorem RealmSetting.entry_given (k : RealmSetting) (v : k.entry.slot.Value) (r : RealmSection) :
    k.field.given (k.entry.slot.set v r).toInput = k.entry.text v := by
  cases k <;> rfl

theorem RealmSetting.parse_discerns (k : RealmSetting) : Discerns k.field.parse := by
  cases k <;> dsimp only [RealmSetting.field]
  case listed | tokenKeysEnabled | operationsKeysEnabled | auditPseudonymEnabled =>
    exact parseBool_discerns
  case tokenLifetime | tokenKeysPublishAhead | tokenKeysRotateEvery | tokenKeysRetain
      | operationsKeysPublishAhead | operationsKeysRotateEvery | operationsKeysRetain
      | auditRetention => exact parseDuration_discerns
  case tokenInitialExpiryPolicy | keyCacheStaleFor | auditSink | secretsProvider =>
    exact discerns_of_refused "!" (by decide) (by decide +kernel)
  case issuer | auditPseudonymKeyRef => exact discerns_of_kept (fun v => some _) (by decide)
  all_goals exact discerns_of_kept id (by decide)

theorem stated_ok {α : Type} {given : Option String} {context value : String}
    {parse : String → Result α} {otherwise : Result α} {a : α} (hgiven : given = some value)
    (h : stated given context parse otherwise = .ok a) : parse value = .ok a := by
  rw [hgiven] at h
  exact withContext_ok.mp h

theorem resolveTokenSigningAlgorithm_ok {name value algorithm : String} {given : Option String}
    (hgiven : given = some value) (h : resolveTokenSigningAlgorithm name given = .ok algorithm) :
    value = algorithm := by
  subst hgiven
  unfold resolveTokenSigningAlgorithm at h
  split at h
  · next hnone => cases hnone
  · next heq => exact (Option.some.inj heq).trans (Except.ok.inj h)
  · next heq => exact (Option.some.inj heq).trans (Except.ok.inj h)
  · cases h

/-- A text a realm states is what the resolved realm has. -/
theorem resolveRealm_reads {u : Uppercase} {c : Config} {input : RealmInput} {realm : RealmConfig}
    (h : c.resolveRealm u input = .ok realm) (k : RealmSetting) {value : String}
    (hgiven : k.field.given input = some value) :
    k.field.parse value = .ok (k.field.get realm) := by
  simp only [Config.resolveRealm, bind_ok, pure_ok] at h
  obtain ⟨_, hlisted, _, hprovider, _, hsink, _, htokenEnabled, _, htokenAhead, _, htokenRotate,
    _, htokenRetain, _, hlifetime, _, hpolicy, _, hstale, _, halgorithm, _, henabled, _, hahead,
    _, hrotate, _, hretain, _, hretention, _, hpseudonym, rfl⟩ := h
  cases k <;> dsimp only [RealmSetting.field] at hgiven ⊢
  case tokenLifetime => exact stated_ok hgiven hlifetime
  case tokenInitialExpiryPolicy => exact stated_ok hgiven hpolicy
  case keyCacheStaleFor => exact stated_ok hgiven hstale
  case tokenSigningAlgorithm => rw [resolveTokenSigningAlgorithm_ok hgiven halgorithm]
  case issuer => rw [hgiven, Option.some_or]
  case listed => exact stated_ok hgiven hlisted
  case tokenKeysEnabled => exact stated_ok hgiven htokenEnabled
  case tokenKeysPublishAhead => exact stated_ok hgiven htokenAhead
  case tokenKeysRotateEvery => exact stated_ok hgiven htokenRotate
  case tokenKeysRetain => exact stated_ok hgiven htokenRetain
  case operationsKeysEnabled => exact stated_ok hgiven henabled
  case operationsKeysPublishAhead => exact stated_ok hgiven hahead
  case operationsKeysRotateEvery => exact stated_ok hgiven hrotate
  case operationsKeysRetain => exact stated_ok hgiven hretain
  case auditSink => exact stated_ok hgiven hsink
  case auditRetention => exact stated_ok hgiven hretention
  case auditPseudonymEnabled => exact stated_ok hgiven hpseudonym
  case auditPseudonymKeyRef => rw [hgiven, Option.map_some, Option.some_or]
  case auditPseudonymKeyVersion => rw [hgiven, Option.getD_some]
  case secretsProvider => exact stated_ok hgiven hprovider
  case secretsEnvPrefix => rw [hgiven, Option.getD_some]

/-- The profiles and the attesters of a realm are kept, and so is its name. -/
theorem resolveRealm_keeps {u : Uppercase} {c : Config} {input : RealmInput} {realm : RealmConfig}
    (h : c.resolveRealm u input = .ok realm) :
    realm.name = input.name ∧ realm.exchangeProfiles = input.exchangeProfiles ∧
      realm.trustedAttesters = input.trustedAttesters := by
  simp only [Config.resolveRealm, bind_ok, pure_ok] at h
  obtain ⟨_, -, _, -, _, -, _, -, _, -, _, -, _, -, _, -, _, -, _, -, _, -, _, -, _, -, _, -, _, -,
    _, -, _, -, rfl⟩ := h
  exact ⟨rfl, rfl, rfl⟩

/-! ## A realm -/

inductive RealmLeaf where
  | name
  | setting (k : RealmSetting)
  | profile (i : Nat) (leaf : ProfileLeaf)
  | attester (i : Nat) (leaf : AttesterLeaf)
  deriving DecidableEq, Repr

def RealmLeaf.slot : RealmLeaf → Slot RealmSection
  | .name => .field (·.name) (fun v r => { r with name := v }) fun _ => rfl
  | .setting k => k.entry.slot
  | .profile i leaf => (leaf.slot.nth i).inside (·.exchangeProfiles)
      (fun v r => { r with exchangeProfiles := v }) fun _ => rfl
  | .attester i leaf => (leaf.slot.nth i).inside (·.attesters)
      (fun v r => { r with attesters := v }) fun _ => rfl

/-- Two values of the leaf never resolve to the same realm. -/
def Told (slot : Slot RealmSection) : Prop :=
  ∃ v v' : slot.Value, ∀ (r : RealmSection) (u : Uppercase) (c c' : Config) (realm : RealmConfig),
    (slot.get r).isSome → c.resolveRealm u (slot.set v r).toInput = .ok realm →
      c'.resolveRealm u (slot.set v' r).toInput ≠ .ok realm

/-- What can be seen in the part of a realm that is kept is told. -/
theorem told_of_shows {α : Type} {slot : Slot RealmSection} (view : RealmInput → α)
    (kept : RealmConfig → α) (h : slot.Shows fun r => view r.toInput)
    (hkept : ∀ (u : Uppercase) (c : Config) (input : RealmInput) (realm : RealmConfig),
      c.resolveRealm u input = .ok realm → kept realm = view input) : Told slot := by
  obtain ⟨v, v', hne⟩ := h
  refine ⟨v, v', fun r u c c' realm hsome hv hv' => hne r hsome ?_⟩
  exact (hkept _ _ _ _ hv).symm.trans (hkept _ _ _ _ hv')

/-- **Nothing a realm declares is lost**: whatever leaf of its section it is, two values of it
never resolve to the same realm, whatever the server's values are. -/
theorem RealmLeaf.told (leaf : RealmLeaf) (hvalue : Nonempty leaf.slot.Value) :
    Told leaf.slot := by
  cases leaf with
  | name =>
    refine told_of_shows RealmInput.name RealmConfig.name ?_ ?_
    · exact Slot.shows_of _ a_ne_b some fun _ _ => rfl
    · exact fun u c input realm h => (resolveRealm_keeps h).1
  | setting k =>
    obtain ⟨t, t', -, -, hne⟩ := k.parse_discerns
    obtain ⟨v, hv⟩ := k.entry_full hvalue t
    obtain ⟨v', hv'⟩ := k.entry_full hvalue t'
    refine ⟨v, v', fun r u c c' realm _ h h' => hne (k.field.get realm) ?_ ?_⟩
    · exact resolveRealm_reads h k ((k.entry_given v r).trans hv)
    · exact resolveRealm_reads h' k ((k.entry_given v' r).trans hv')
  | profile i leaf =>
    refine told_of_shows RealmInput.exchangeProfiles RealmConfig.exchangeProfiles ?_ ?_
    · rw [RealmLeaf.slot]
      exact (leaf.shows.nth i).inside (fun profiles => profiles) fun _ _ => rfl
    · exact fun u c input realm h => (resolveRealm_keeps h).2.1
  | attester i leaf =>
    refine told_of_shows RealmInput.trustedAttesters RealmConfig.trustedAttesters ?_ ?_
    · rw [RealmLeaf.slot]
      exact (leaf.shows.nth i).inside (List.map fun attester => attester) fun _ _ => rfl
    · exact fun u c input realm h => (resolveRealm_keeps h).2.2

end PicX.Core
