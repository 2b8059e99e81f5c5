import PicX.Base.LastGood
import PicX.Core.Validate
import PicX.Realm.Algorithms

/-!
# The keys of attesters and identity providers (`attester_keys.rs`, `idp_keys.rs`)

A realm holds the published key sets of the attesters it trusts and of the identity providers it
exchanges tokens from, in two caches. A refresh goes through the configured sources in turn, and a
lookup never fetches. Both caches keep what `LastGood` keeps, under the id of each source.

Instants are counted in nanoseconds. The lock of a cache is not modelled: each turn of a refresh
takes it once, and so does each lookup.

* `AttesterKeyCache`, `IdpKeyCache` — the two caches, over one turn and one lookup they share.
* `lookup_turns` — after any turns, the entry of a source is what its own history left.
* `key_caches_answer` — what a lookup answers, read off the history of its source alone.
-/

namespace PicX.Realm

open PicX LastGood

def NANOS_PER_SEC : Nat := 1000000000

/-! ## Key sets -/

/-- A key that may verify a signature, and carries no private half. -/
def usable (jwk : Value) : Bool :=
  ((jwk.getStr "use").all fun usage => usage = "sig") && (jwk.get "d").isNone

/-- Reads a JWKS document, keeping only the keys usable for signature verification. -/
def parseKeySet (c : Crates) (body : Bytes) : Except String (List Value) := do
  let document ← mapErr (fun _ => "the attester key set is not JSON") (c.valueFromSlice body)
  let keys ← okOr ((document.get "keys").bind Value.asArray)
    "the attester key set has no `keys` array"
  pure (keys.filter usable)

/-- One fetch of a refresh, or why it failed. -/
abbrev Fetch := String → Except String Bytes

/-- Where OpenID Connect discovery is fetched from for a provider. -/
def ExchangeProfileSource.discoveryBase (source : ExchangeProfileSource) : String :=
  source.discoveryUrl.getD source.issuer

/-- Discovery, then the key set. -/
def fetchProviderKeys (c : Crates) (fetch : Fetch) (discoveryBase issuer : String) :
    Except String (List Value) := do
  let discoveryUri := trimEndMatches (· = '/') discoveryBase ++ "/.well-known/openid-configuration"
  let body ← mapErr (fun _ => "fetching " ++ discoveryUri) (fetch discoveryUri)
  let document ← mapErr (fun _ => "the discovery document is not JSON") (c.valueFromSlice body)
  let declared ← okOr (document.getStr "issuer") "the discovery document has no `issuer`"
  ensure (trimEndMatches (· = '/') declared = trimEndMatches (· = '/') issuer)
    ("the discovery document declares issuer `" ++ declared ++ "`, not `" ++ issuer ++ "`")
  let jwksUri ← okOr (document.getStr "jwks_uri") "the discovery document has no `jwks_uri`"
  let body ← mapErr (fun _ => "fetching " ++ jwksUri) (fetch jwksUri)
  parseKeySet c body

/-! ## The two caches -/

/-- The key set of one source; its value are the keys. -/
abbrev CacheEntry := Held (List Value)

/-- One source's turn in a refresh: which source, when its fetch came back, and with what. -/
structure Turn where
  source : Nat
  now : Nat
  fetch : Fetch

/-- What a turn does to the entry of its source. A failure never clears what is held. -/
def settleTurn (id : String) (now : Nat) (outcome : Except String (List Value))
    (entries : Map CacheEntry) : Map CacheEntry :=
  match outcome with
  | .ok keys => entries.insert id { value := keys, fetchedAt := now, failedSince := none }
  | .error _ => match entries.lookup id with
    | some entry =>
      if entry.failedSince.isNone then entries.insert id { entry with failedSince := some now }
      else entries
    | none => entries

/-- The keys held for one source, unless they have been stale for too long. -/
def serve (source : String) (staleFor now : Nat) (held : Option CacheEntry) :
    Except String (List Value) := do
  let entry ← okOr held ("no key set has been fetched yet for the " ++ source)
  match entry.failedSince with
  | none => pure entry.value
  | some failedSince =>
    ensure (¬staleFor < now - failedSince)
      ("the cached key set for the " ++ source ++ " has been stale for " ++
        toString ((now - failedSince) / NANOS_PER_SEC) ++
        "s after refresh failures; the last successful fetch was " ++
        toString ((now - entry.fetchedAt) / NANOS_PER_SEC) ++ "s ago")
    pure entry.value

section Sources

variable {σ : Type} (id : σ → String) (answer : σ → Fetch → Except String (List Value))
  (sources : List σ)

/-- The turn of a configured source; there is none past the last one. -/
def takeTurn (turn : Turn) (entries : Map CacheEntry) : Map CacheEntry :=
  match sources[turn.source]? with
  | some source => settleTurn (id source) turn.now (answer source turn.fetch) entries
  | none => entries

/-- The turns one after the other. -/
def takeTurns (turns : List Turn) (entries : Map CacheEntry) : Map CacheEntry :=
  turns.foldl (fun entries turn => takeTurn id answer sources turn entries) entries

/-- The turns of one whole refresh, in the order of the configuration. -/
def refreshTurns (now : Nat → Nat) (fetch : Nat → Fetch) : List Turn :=
  (List.range sources.length).map fun i => ⟨i, now i, fetch i⟩

end Sources

/-- The attester key sets of a realm. -/
structure AttesterKeyCache where
  attesters : List TrustedAttesterConfig
  serveStaleFor : Nat
  entries : Map CacheEntry

/-- The identity-provider key sets of a realm, by exchange profile. -/
structure IdpKeyCache where
  profiles : List ExchangeProfileConfig
  serveStaleFor : Nat
  entries : Map CacheEntry

variable (c : Crates)

namespace AttesterKeyCache

def withStaleFor (attesters : List TrustedAttesterConfig) (serveStaleFor : Nat) :
    AttesterKeyCache :=
  { attesters, serveStaleFor, entries := ∅ }

def answer (attester : TrustedAttesterConfig) (fetch : Fetch) : Except String (List Value) := do
  let body ← fetch attester.jwksUri
  parseKeySet c body

def take (cache : AttesterKeyCache) (turns : List Turn) : AttesterKeyCache :=
  { cache with entries := takeTurns (·.id) (answer c) cache.attesters turns cache.entries }

/-- Fetches every configured attester's key set. -/
def refresh (cache : AttesterKeyCache) (now : Nat → Nat) (fetch : Nat → Fetch) : AttesterKeyCache :=
  cache.take c (refreshTurns cache.attesters now fetch)

def keysFor (cache : AttesterKeyCache) (now : Nat) (attesterId : String) :
    Except String (List Value) := do
  ensure (∃ attester ∈ cache.attesters, attester.id = attesterId)
    ("the attester `" ++ attesterId ++ "` is not configured for this realm")
  serve ("attester `" ++ attesterId ++ "`") cache.serveStaleFor now
    (cache.entries.lookup attesterId)

end AttesterKeyCache

namespace IdpKeyCache

def withStaleFor (profiles : List ExchangeProfileConfig) (serveStaleFor : Nat) : IdpKeyCache :=
  { profiles, serveStaleFor, entries := ∅ }

def answer (profile : ExchangeProfileConfig) (fetch : Fetch) : Except String (List Value) :=
  fetchProviderKeys c fetch profile.source.discoveryBase profile.source.issuer

def take (cache : IdpKeyCache) (turns : List Turn) : IdpKeyCache :=
  { cache with entries := takeTurns (·.id) (answer c) cache.profiles turns cache.entries }

/-- Fetches every configured provider's key set through OpenID Connect discovery. -/
def refresh (cache : IdpKeyCache) (now : Nat → Nat) (fetch : Nat → Fetch) : IdpKeyCache :=
  cache.take c (refreshTurns cache.profiles now fetch)

def keysFor (cache : IdpKeyCache) (now : Nat) (profileId : String) : Except String (List Value) :=
  serve ("exchange profile `" ++ profileId ++ "`") cache.serveStaleFor now
    (cache.entries.lookup profileId)

end IdpKeyCache

/-! ## Each source on its own -/

/-- The attempts at one source, in time: when each ended, and the usable keys when it succeeded. -/
def historyOf {σ : Type} (answer : σ → Fetch → Except String (List Value)) (source : σ) (i : Nat)
    (turns : List Turn) : List (Nat × Option (List Value)) :=
  (turns.filter fun turn => turn.source = i).map fun turn =>
    (turn.now, (answer source turn.fetch).toOption)

theorem lookup_settleTurn {id other : String} {now : Nat} {outcome : Except String (List Value)}
    {entries : Map CacheEntry} :
    (settleTurn id now outcome entries).lookup other =
      if other = id then observe now outcome.toOption (entries.lookup id)
      else entries.lookup other := by
  have hinsert : ∀ entry : CacheEntry, (entries.insert id entry).lookup other =
      if other = id then some entry else entries.lookup other := by
    intro entry
    by_cases h : other = id
    · rw [if_pos h, h, Finmap.lookup_insert]
    · rw [if_neg h, Finmap.lookup_insert_of_ne _ h]
  have hsame : ∀ held, entries.lookup id = held →
      entries.lookup other = if other = id then held else entries.lookup other := by
    intro held hheld
    by_cases h : other = id
    · rw [if_pos h, h, hheld]
    · rw [if_neg h]
  cases outcome with
  | ok keys => exact hinsert _
  | error e =>
    unfold settleTurn
    cases hheld : entries.lookup id with
    | none => exact hsame none hheld
    | some entry =>
      obtain ⟨keys, fetchedAt, failedSince⟩ := entry
      cases failedSince with
      | none => exact hinsert _
      | some t => exact hsame _ hheld

section Sources

variable {σ : Type} {id : σ → String} {answer : σ → Fetch → Except String (List Value)}
  {sources : List σ} {source : σ} {i : Nat} {turns : List Turn}

/-- **After any turns, the entry of a source is what its own history left.** -/
theorem lookup_turns (hdistinct : (sources.map id).Nodup) (hsource : sources[i]? = some source) :
    (takeTurns id answer sources turns ∅).lookup (id source) =
      heldAfter (historyOf answer source i turns) := by
  induction turns using List.reverseRecOn with
  | nil => rfl
  | append_singleton turns turn ih =>
    have hturn : takeTurns id answer sources (turns ++ [turn]) ∅ =
        takeTurn id answer sources turn (takeTurns id answer sources turns ∅) := by
      rw [takeTurns, List.foldl_append]
      rfl
    rw [hturn, historyOf, List.filter_append, List.map_append]
    by_cases hplace : turn.source = i
    · have hlast : ([turn].filter fun turn => turn.source = i) = [turn] := by simp [hplace]
      rw [hlast, takeTurn, hplace, hsource, List.map_singleton, heldAfter_concat]
      dsimp only
      rw [lookup_settleTurn, if_pos rfl, ih]
      rfl
    · have hlast : ([turn].filter fun turn => turn.source = i) = [] := by simp [hplace]
      rw [hlast, List.map_nil, List.append_nil, takeTurn]
      cases hother : sources[turn.source]? with
      | none => exact ih
      | some other =>
        -- Another source has another id, so its turn leaves this entry alone.
        have hid : id source ≠ id other := by
          intro heq
          refine hplace ((List.getElem?_inj ?_ hdistinct).mp ?_)
          · simpa using (List.getElem?_eq_some_iff.mp hother).1
          · rw [List.getElem?_map, List.getElem?_map, hother, hsource, Option.map_some,
              Option.map_some, heq]
        dsimp only
        rw [lookup_settleTurn, if_neg hid]
        exact ih

end Sources

/-! ## What a lookup answers -/

/-- More than `staleFor` has passed since the first of these failures. -/
def Overdue (staleFor now : Nat) (failures : List (Nat × Option (List Value))) : Prop :=
  ∃ first ∈ failures.head?, staleFor < now - first.1

theorem serve_ok {source : String} {staleFor now : Nat} {held : Option CacheEntry}
    {keys : List Value} : serve source staleFor now held = .ok keys ↔
      ∃ entry, held = some entry ∧ entry.value = keys ∧
        ∀ t, entry.failedSince = some t → ¬staleFor < now - t := by
  unfold serve
  rw [bind_ok]
  refine exists_congr fun entry => ?_
  rw [okOr_ok]
  refine and_congr_right fun _ => ?_
  cases entry.failedSince with
  | none => simp [pure_ok]
  | some t =>
    simp only [bind_ok, ensure_ok, pure_ok, Option.some.injEq, forall_eq']
    constructor
    · intro h
      obtain ⟨_, hfresh, hkeys⟩ := h
      exact ⟨hkeys, hfresh⟩
    · intro h
      exact ⟨(), h.2, h.1⟩

/-- A lookup answers with the keys of the last success of this history, and fails exactly when
there was none or the failures after it have gone on for too long. -/
structure Answers (staleFor now : Nat) (history : List (Nat × Option (List Value)))
    (answer : Except String (List Value)) : Prop where
  keys : ∀ keys, answer = .ok keys ↔
    ∃ time later, LastSuccess history keys time later ∧ ¬Overdue staleFor now later
  fails : (∀ keys, answer ≠ .ok keys) ↔
    (∀ attempt ∈ history, attempt.2 = none) ∨
      ∃ keys time later, LastSuccess history keys time later ∧ Overdue staleFor now later

theorem serve_answers (source : String) (staleFor now : Nat)
    (history : List (Nat × Option (List Value))) :
    Answers staleFor now history (serve source staleFor now (heldAfter history)) := by
  have hoverdue : ∀ later : List (Nat × Option (List Value)),
      (∀ t, later.head?.map Prod.fst = some t → ¬staleFor < now - t) ↔
        ¬Overdue staleFor now later := by
    intro later
    cases later with
    | nil => simp [Overdue]
    | cons first rest => simp [Overdue]
  have hkeys : ∀ keys, serve source staleFor now (heldAfter history) = .ok keys ↔
      ∃ time later, LastSuccess history keys time later ∧ ¬Overdue staleFor now later := by
    intro keys
    rw [serve_ok]
    constructor
    · intro ⟨entry, hheld, hvalue, hfresh⟩
      obtain ⟨later, hlast, hsince⟩ := heldAfter_eq_some.mp hheld
      rw [hsince, hoverdue] at hfresh
      exact ⟨entry.fetchedAt, later, hvalue ▸ hlast, hfresh⟩
    · intro ⟨time, later, hlast, hfresh⟩
      exact ⟨_, hlast.held, rfl, (hoverdue later).mpr hfresh⟩
  refine ⟨hkeys, ?_⟩
  constructor
  · intro hfails
    cases hheld : heldAfter history with
    | none => exact Or.inl (heldAfter_eq_none.mp hheld)
    | some entry =>
      obtain ⟨later, hlast, -⟩ := heldAfter_eq_some.mp hheld
      refine Or.inr ⟨entry.value, entry.fetchedAt, later, hlast, ?_⟩
      by_contra hfresh
      exact hfails entry.value ((hkeys _).mpr ⟨_, _, hlast, hfresh⟩)
  · intro hcause keys hok
    obtain ⟨time, later, hlast, hfresh⟩ := (hkeys keys).mp hok
    rcases hcause with hnone | ⟨keys', time', later', hlast', hover⟩
    · cases (heldAfter_eq_none.mpr hnone).symm.trans hlast.held
    · have heq : later.head?.map Prod.fst = later'.head?.map Prod.fst :=
        congrArg Held.failedSince (Option.some.inj (hlast.held.symm.trans hlast'.held))
      rw [← hoverdue, heq, hoverdue] at hfresh
      exact hfresh hover

/-- Lookups in two caches agree when their sources have the same history. -/
theorem Answers.alike {staleFor now : Nat} {history : List (Nat × Option (List Value))}
    {answer answer' : Except String (List Value)} (h : Answers staleFor now history answer)
    (h' : Answers staleFor now history answer') : answer.toOption = answer'.toOption := by
  apply Option.ext
  intro keys
  rw [toOption_eq_some, toOption_eq_some, h.keys, h'.keys]

theorem AttesterKeyCache.answers {attesters : List TrustedAttesterConfig} {staleFor now i : Nat}
    {attester : TrustedAttesterConfig} {turns : List Turn}
    (hdistinct : (attesters.map (·.id)).Nodup) (hi : attesters[i]? = some attester) :
    Answers staleFor now (historyOf (answer c) attester i turns)
      (((withStaleFor attesters staleFor).take c turns).keysFor now attester.id) := by
  have hconfigured : ∃ a ∈ ((withStaleFor attesters staleFor).take c turns).attesters,
      a.id = attester.id := ⟨attester, List.mem_of_getElem? hi, rfl⟩
  have hserve : ((withStaleFor attesters staleFor).take c turns).keysFor now attester.id =
      serve ("attester `" ++ attester.id ++ "`") staleFor now
        (heldAfter (historyOf (answer c) attester i turns)) := by
    rw [← lookup_turns hdistinct hi]
    unfold keysFor
    rw [ensure, if_pos hconfigured]
    rfl
  rw [hserve]
  exact serve_answers _ _ _ _

theorem IdpKeyCache.answers {profiles : List ExchangeProfileConfig} {staleFor now i : Nat}
    {profile : ExchangeProfileConfig} {turns : List Turn}
    (hdistinct : (profiles.map (·.id)).Nodup) (hi : profiles[i]? = some profile) :
    Answers staleFor now (historyOf (answer c) profile i turns)
      (((withStaleFor profiles staleFor).take c turns).keysFor now profile.id) := by
  have hserve : ((withStaleFor profiles staleFor).take c turns).keysFor now profile.id =
      serve ("exchange profile `" ++ profile.id ++ "`") staleFor now
        (heldAfter (historyOf (answer c) profile i turns)) := by
    rw [← lookup_turns hdistinct hi]
    rfl
  rw [hserve]
  exact serve_answers _ _ _ _

/-- The attester cache of a realm, before its first refresh. -/
def attesterKeys (realm : Core.RealmConfig) : AttesterKeyCache :=
  .withStaleFor realm.trustedAttesters (realm.keyCacheStaleFor * NANOS_PER_SEC)

/-- The identity-provider cache of a realm, before its first refresh. -/
def idpKeys (realm : Core.RealmConfig) : IdpKeyCache :=
  .withStaleFor realm.exchangeProfiles (realm.keyCacheStaleFor * NANOS_PER_SEC)

/-- **Key caches.** In a realm that validation accepts, and after any turns of any refreshes, a
lookup of a configured source answers with the usable keys of the last success of that source, and
fails exactly when it never succeeded or has been failing for longer than the keys may be stale.
The two caches answer alike on the same history. -/
theorem key_caches_answer {config : Core.Config} {realm : Core.RealmConfig}
    (hvalid : config.validateRealm realm = .ok ()) (turns turns' : List Turn) (now : Nat) :
    (∀ i attester, realm.trustedAttesters[i]? = some attester →
      Answers (realm.keyCacheStaleFor * NANOS_PER_SEC) now
        (historyOf (AttesterKeyCache.answer c) attester i turns)
        (((attesterKeys realm).take c turns).keysFor now attester.id)) ∧
    (∀ j profile, realm.exchangeProfiles[j]? = some profile →
      Answers (realm.keyCacheStaleFor * NANOS_PER_SEC) now
        (historyOf (IdpKeyCache.answer c) profile j turns')
        (((idpKeys realm).take c turns').keysFor now profile.id)) ∧
    ∀ i attester j profile, realm.trustedAttesters[i]? = some attester →
      realm.exchangeProfiles[j]? = some profile →
      historyOf (AttesterKeyCache.answer c) attester i turns =
        historyOf (IdpKeyCache.answer c) profile j turns' →
      (((attesterKeys realm).take c turns).keysFor now attester.id).toOption =
        (((idpKeys realm).take c turns').keysFor now profile.id).toOption := by
  obtain ⟨hprofiles, hattesters⟩ := Core.validateRealm_sources hvalid
  have hattester : ∀ i attester, realm.trustedAttesters[i]? = some attester →
      Answers (realm.keyCacheStaleFor * NANOS_PER_SEC) now
        (historyOf (AttesterKeyCache.answer c) attester i turns)
        (((attesterKeys realm).take c turns).keysFor now attester.id) :=
    fun i attester hi =>
      AttesterKeyCache.answers c (Core.validateTrustedAttesters_nodup hattesters) hi
  have hprofile : ∀ j profile, realm.exchangeProfiles[j]? = some profile →
      Answers (realm.keyCacheStaleFor * NANOS_PER_SEC) now
        (historyOf (IdpKeyCache.answer c) profile j turns')
        (((idpKeys realm).take c turns').keysFor now profile.id) :=
    fun j profile hj =>
      IdpKeyCache.answers c (Core.validateExchangeProfiles_nodup hprofiles) hj
  refine ⟨hattester, hprofile, ?_⟩
  intro i attester j profile hi hj hsame
  exact (hattester i attester hi).alike (hsame ▸ hprofile j profile hj)

/-! ### An outage -/

/-- A realm with one identity provider and one attester, whose keys may be stale for ten minutes. -/
def acme (profile : ExchangeProfileConfig) : Core.RealmConfig where
  name := "acme"
  mountPath := "/realms/acme"
  issuer := none
  listed := true
  tokenKeysEnabled := true
  tokenKeysPublishAhead := 3600
  tokenKeysRotateEvery := 604800
  tokenKeysRetain := 2592000
  tokenLifetime := 3600
  tokenInitialExpiryPolicy := .later
  keyCacheStaleFor := 600
  tokenSigningAlgorithm := "EdDSA"
  operationsKeysEnabled := false
  operationsKeysPublishAhead := 0
  operationsKeysRotateEvery := 0
  operationsKeysRetain := 0
  auditDestination := .tracing
  auditRetention := 7776000
  auditPseudonymEnabled := false
  auditPseudonymKeyRef := none
  auditPseudonymKeyVersion := ""
  secretsProvider := .none
  secretsEnvPrefix := ""
  exchangeProfiles := [profile]
  trustedAttesters := [testAttester]

/-- A server with that realm. -/
def acmeConfig (profile : ExchangeProfileConfig) : Core.Config :=
  { publicHttpAddr := some "127.0.0.1:8080", realms := [acme profile] }

theorem acme_valid : (acmeConfig testProfile).validateRealm (acme testProfile) = .ok () := by
  decide +kernel

/-- The document the attester serves: its key, and one for encryption. -/
def keySetText : String :=
  "\x7b\"keys\":[\x7b\"crv\":\"Ed25519\",\"kid\":\"attester-1\",\"kty\":\"OKP\",\"x\":\"11qYAYKxCrfVS_7TyWQHOg7hcvPapiMlrwIaaPcHURo\"\x7d,\x7b\"crv\":\"X25519\",\"kty\":\"OKP\",\"use\":\"enc\"\x7d]\x7d"

def keySetValue : Value :=
  .object [("keys", .array [attesterJwk,
    .object [("crv", .string "X25519"), ("kty", .string "OKP"), ("use", .string "enc")]])]

/-- The crates, as far as this document asks them. -/
def keySetCrates : Crates :=
  { testCrates with
    valueFromSlice bytes :=
      if bytes = utf8 keySetText then .ok keySetValue else .error "expected value" }

/-- A refresh that succeeds at the start, and one ten seconds later that fails. -/
def outage : List Turn :=
  [⟨0, 0, fun _ => .ok (utf8 keySetText)⟩,
    ⟨0, 10 * NANOS_PER_SEC, fun _ => .error "connection refused"⟩]

theorem outage_history : historyOf (AttesterKeyCache.answer keySetCrates) testAttester 0 outage =
    [(0, some [attesterJwk]), (10 * NANOS_PER_SEC, none)] := by
  have hkeys : (keySetValue.get "keys").bind Value.asArray = some [attesterJwk,
      .object [("crv", .string "X25519"), ("kty", .string "OKP"), ("use", .string "enc")]] := by
    simp [keySetValue, Value.get_object, Value.asArray]
  have hattester : usable attesterJwk = true := by
    simp [usable, attesterJwk, Value.getStr, Value.get_object]
  have hencryption : usable (.object [("crv", .string "X25519"), ("kty", .string "OKP"),
      ("use", .string "enc")]) = false := by
    simp [usable, Value.getStr, Value.get_object, Value.asStr]
  have hparse : parseKeySet keySetCrates (utf8 keySetText) = .ok [attesterJwk] := by
    simp only [parseKeySet, bind_ok, mapErr_ok, okOr_ok, pure_ok]
    refine ⟨keySetValue, by simp [keySetCrates], _, hkeys, ?_⟩
    simp [hattester, hencryption]
  have hanswer :
      AttesterKeyCache.answer keySetCrates testAttester (fun _ => .ok (utf8 keySetText)) =
        .ok [attesterJwk] := bind_ok.mpr ⟨_, rfl, hparse⟩
  simp only [historyOf, outage, List.filter_cons, List.filter_nil, decide_true, if_true,
    List.map_cons, List.map_nil, hanswer]
  rfl

/-- The attester's keys are served up to the last instant of the ten minutes, and not after it. -/
theorem key_caches_answer_outage :
    ((attesterKeys (acme testProfile)).take keySetCrates outage).keysFor (610 * NANOS_PER_SEC)
      testAttester.id = .ok [attesterJwk] ∧
    ∀ keys, ((attesterKeys (acme testProfile)).take keySetCrates outage).keysFor
      (610 * NANOS_PER_SEC + 1) testAttester.id ≠ .ok keys := by
  have hlast : LastSuccess [(0, some [attesterJwk]), (10 * NANOS_PER_SEC, none)] [attesterJwk] 0
      [(10 * NANOS_PER_SEC, none)] := ⟨⟨[], rfl⟩, by simp⟩
  have hanswers : ∀ now, Answers ((acme testProfile).keyCacheStaleFor * NANOS_PER_SEC) now
      [(0, some [attesterJwk]), (10 * NANOS_PER_SEC, none)]
      (((attesterKeys (acme testProfile)).take keySetCrates outage).keysFor now
        testAttester.id) := by
    intro now
    have h := (key_caches_answer keySetCrates acme_valid outage [] now).1 0 testAttester rfl
    rwa [outage_history] at h
  constructor
  · refine ((hanswers _).keys _).mpr ⟨0, _, hlast, ?_⟩
    simp [Overdue, acme, NANOS_PER_SEC]
  · refine (hanswers _).fails.mpr (Or.inr ⟨_, 0, _, hlast, ?_⟩)
    simp [Overdue, acme, NANOS_PER_SEC]

end PicX.Realm
