import PicX.Realm.KeyCaches
import PicX.Realm.Lineage

/-!
# What a token is issued on (`service.rs`, `exchange.rs`)

While a realm answers requests for tokens, a background task goes through its sources again and
again: each turn fetches the key set of one attester or of one identity provider, and a request
comes in between any two turns. A request that is answered was vouched for by a signature, of the
provider on the access token or of the attester on the evidence of the candidate.

* `Caches.take` — one turn of a refresh of either cache.
* `Standing` — the keys of a source that count at some time.
* `Vouched` — a signature behind a token, under a key that counts.
* `issued_under_standing_keys` — **every token is vouched for by a key its source published last.**
-/

namespace PicX.Realm

open PicX ExchangeError Program LastGood

/-! ## The caches of a realm while it serves -/

/-- One source's turn in a refresh of either cache. -/
inductive Refresh where
  | attester (turn : Turn)
  | provider (turn : Turn)

/-- The two caches of a realm. -/
structure Caches where
  attesterKeys : AttesterKeyCache
  idpKeys : IdpKeyCache

def Caches.take (c : Crates) (caches : Caches) : Refresh → Caches
  | .attester turn => { caches with attesterKeys := caches.attesterKeys.take c [turn] }
  | .provider turn => { caches with idpKeys := caches.idpKeys.take c [turn] }

/-- The caches of a realm after these turns, from its start on. -/
def cachesAfter (c : Crates) (realm : Core.RealmConfig) (refreshes : List Refresh) : Caches :=
  refreshes.foldl (Caches.take c) { attesterKeys := attesterKeys realm, idpKeys := idpKeys realm }

/-- The turns of the attesters among these. -/
def attesterTurns (refreshes : List Refresh) : List Turn :=
  refreshes.filterMap fun
    | .attester turn => some turn
    | .provider _ => none

/-- The turns of the identity providers among these. -/
def providerTurns (refreshes : List Refresh) : List Turn :=
  refreshes.filterMap fun
    | .attester _ => none
    | .provider turn => some turn

/-- A request that finds the caches like this. -/
def Request.reading (request : Request) (caches : Caches) (now : Nat) : Request :=
  { request with idpKeys := caches.idpKeys.keysFor now
                 attesterKeys := caches.attesterKeys.keysFor now }

/-- The endpoint is that of the realm, as far as it decides who is trusted. -/
structure Fronts (endpoint : TokenEndpoint) (realm : Core.RealmConfig) : Prop where
  exchangeProfiles : endpoint.exchangeProfiles = realm.exchangeProfiles
  trustedAttesters : endpoint.trustedAttesters = realm.trustedAttesters

variable {c : Crates} {realm : Core.RealmConfig} {refreshes : List Refresh}

/-- The turns of one cache do nothing to the other. -/
theorem cachesAfter_eq : cachesAfter c realm refreshes =
    { attesterKeys := (attesterKeys realm).take c (attesterTurns refreshes)
      idpKeys := (idpKeys realm).take c (providerTurns refreshes) } := by
  induction refreshes using List.reverseRecOn with
  | nil => rfl
  | append_singleton refreshes refresh ih =>
    rw [cachesAfter, List.foldl_append, ← cachesAfter, ih]
    cases refresh with
    | attester turn =>
      simp [Caches.take, attesterTurns, providerTurns, AttesterKeyCache.take, takeTurns]
    | provider turn =>
      simp [Caches.take, attesterTurns, providerTurns, IdpKeyCache.take, takeTurns]

/-! ## The keys that count -/

/-- The keys of the last success in this history, unless what came after has failed for too long. -/
def Standing (staleFor now : Nat) (history : List (Nat × Option (List Value))) (keys : List Value) :
    Prop :=
  ∃ time later, LastSuccess history keys time later ∧ ¬Overdue staleFor now later

theorem parseKeySet_usable {body : Bytes} {keys : List Value} (h : parseKeySet c body = .ok keys) :
    ∀ jwk ∈ keys, usable jwk = true := by
  simp only [parseKeySet, bind_ok, pure_ok] at h
  obtain ⟨_, -, _, -, rfl⟩ := h
  exact fun jwk hjwk => (List.mem_filter.mp hjwk).2

/-- A key set was parsed, and holds only usable keys. -/
theorem Standing.usable {σ : Type} {answer : σ → Fetch → Except String (List Value)} {source : σ}
    {i staleFor now : Nat} {turns : List Turn} {keys : List Value}
    (hparsed : ∀ fetch keys, answer source fetch = .ok keys → ∃ body, parseKeySet c body = .ok keys)
    (h : Standing staleFor now (historyOf answer source i turns) keys) :
    ∀ jwk ∈ keys, Realm.usable jwk = true := by
  obtain ⟨time, later, ⟨⟨earlier, hhistory⟩, -⟩, -⟩ := h
  have hmem : (time, some keys) ∈ historyOf answer source i turns := by simp [hhistory]
  obtain ⟨turn, -, heq⟩ := List.mem_map.mp hmem
  have hanswer : (answer source turn.fetch).toOption = some keys := congrArg Prod.snd heq
  obtain ⟨body, hbody⟩ := hparsed _ _ (toOption_eq_some.mp hanswer)
  exact parseKeySet_usable hbody

theorem AttesterKeyCache.answer_parsed (attester : TrustedAttesterConfig) (fetch : Fetch)
    (keys : List Value) (h : answer c attester fetch = .ok keys) :
    ∃ body, parseKeySet c body = .ok keys := by
  simp only [answer, bind_ok] at h
  obtain ⟨body, -, hkeys⟩ := h
  exact ⟨body, hkeys⟩

theorem IdpKeyCache.answer_parsed (profile : ExchangeProfileConfig) (fetch : Fetch)
    (keys : List Value) (h : answer c profile fetch = .ok keys) :
    ∃ body, parseKeySet c body = .ok keys := by
  simp only [answer, fetchProviderKeys, bind_ok] at h
  obtain ⟨_, -, _, -, _, -, _, -, _, -, body, -, hkeys⟩ := h
  exact ⟨body, hkeys⟩

/-! ## What vouches for a token -/

variable {A : Type} (p : Pic A)

/-- Behind a token there is a signature of the source it goes back to, under a key that is fit to
verify signatures and that the source published last: of the provider on the access token, or of
the attester on the evidence of the candidate. -/
inductive Vouched (realm : Core.RealmConfig) (refreshes : List Refresh) (now : Nat) (body : Bytes) :
    Prop
  | provider {token : String} {form : Map String} {jwt : DecodedJwt} {j : Nat}
      {profile : ExchangeProfileConfig} {keys : List Value} {jwk : Value} {alg : String} :
      grantOf p body = .ok (.initial token form) → DecodedJwt.decode p.toCrates token = .ok jwt →
      realm.exchangeProfiles[j]? = some profile →
      jwt.claimString "iss" = some profile.source.issuer →
      jwt.audienceContains profile.source.audience = true →
      Standing (realm.keyCacheStaleFor * NANOS_PER_SEC) now
        (historyOf (IdpKeyCache.answer p.toCrates) profile j (providerTurns refreshes)) keys →
      jwk ∈ keys → usable jwk = true → jwt.headerString "alg" = some alg →
      sourceKeyVerifies p.toCrates alg jwt jwk = true → Vouched realm refreshes now body
  | attester {token : String} {candidate : Candidate A} {presentation : Presentation} {i : Nat}
      {attester : TrustedAttesterConfig} {keys : List Value} {jwk : Value} {alg : String} :
      grantOf p body = .ok (.advancement token) → decodeCandidate p token = .ok candidate →
      presentation.Splits candidate.transition.proofOfRelationship.evidence →
      Decodes p.toCrates presentation.header presentation.headerValue →
      Decodes p.toCrates presentation.payload presentation.payloadValue →
      realm.trustedAttesters[i]? = some attester →
      presentation.payloadValue.get "iss" = some (.string attester.issuer) →
      Standing (realm.keyCacheStaleFor * NANOS_PER_SEC) now
        (historyOf (AttesterKeyCache.answer p.toCrates) attester i (attesterTurns refreshes)) keys →
      jwk ∈ keys → usable jwk = true → presentation.headerValue.get "alg" = some (.string alg) →
      SignedUnder p.toCrates alg (presentation.header ++ "." ++ presentation.payload)
        presentation.signature jwk →
      Vouched realm refreshes now body

variable {p} {config : Core.Config} {endpoint : TokenEndpoint} {request : Request} {now : Nat}
  {body : Bytes}

/-- An initial exchange goes back to the signature of the provider. -/
theorem Vouched.of_initialise (hvalid : config.validateRealm realm = .ok ())
    (hfronts : Fronts endpoint realm) {token : String} {form : Map String} {i : Initialized A}
    (hgrant : grantOf p body = .ok (.initial token form))
    (h : initialise p endpoint (request.reading (cachesAfter p.toCrates realm refreshes) now) token
      form = .ok i) : Vouched p realm refreshes now body := by
  unfold initialise at h
  simp only [bind_ok] at h
  obtain ⟨_, -, _, -, jwt, hjwt, profile, hprofile, _, hsource, -⟩ := h
  obtain ⟨hpresentable, jwk, keys, alg, hkeys, halg, hfind⟩ := validateSourceJwt_ok.mp hsource
  obtain ⟨j, hj⟩ : ∃ j, realm.exchangeProfiles[j]? = some profile := by
    rw [← hfronts.exchangeProfiles]
    exact List.mem_iff_getElem?.mp (List.mem_of_find?_eq_some (okOr_ok.mp hprofile))
  have hanswers : Answers (realm.keyCacheStaleFor * NANOS_PER_SEC) now
      (historyOf (IdpKeyCache.answer p.toCrates) profile j (providerTurns refreshes))
      (((idpKeys realm).take p.toCrates (providerTurns refreshes)).keysFor now profile.id) :=
    IdpKeyCache.answers p.toCrates
      (Core.validateExchangeProfiles_nodup (Core.validateRealm_sources hvalid).1) hj
  rw [Request.reading, cachesAfter_eq] at hkeys
  have hstanding := (hanswers.keys keys).mp hkeys
  have hpublished : jwk ∈ keys := (List.mem_filter.mp (List.mem_of_find?_eq_some hfind)).1
  exact .provider hgrant hjwt hj hpresentable.issuer hpresentable.audience hstanding hpublished
    (Standing.usable (IdpKeyCache.answer_parsed profile) hstanding jwk hpublished) halg
    (List.find?_some hfind)

/-- With nothing remembered, evidence is accepted only when it is validated. -/
theorem validated_fresh {v : SdJwtProfileValidator} {por : ProofOfRelationship}
    {processed : ProcessedProfileEvidence} {accepted : Option Accepted}
    (h : validateAndRemember c v por none = (.ok processed, accepted)) :
    ∃ key jwk, validateEvidenceWithKey c v por = .ok (key, processed, jwk) := by
  have hnone : cachedFor none por.evidence = none := rfl
  unfold validateAndRemember at h
  rw [hnone] at h
  dsimp only at h
  split at h
  · cases h
  · rename_i key processed' jwk hvalidated
    cases h
    exact ⟨key, jwk, hvalidated⟩

/-- A candidate that passes its preflight goes back to the signature of the attester. -/
theorem Vouched.of_preflight (hvalid : config.validateRealm realm = .ok ())
    (hfronts : Fronts endpoint realm) {token : String} {time : Int} {m : CandidateMetadata}
    {accepted : Option Accepted} (hgrant : grantOf p body = .ok (.advancement token))
    (h : preflight p endpoint (request.reading (cachesAfter p.toCrates realm refreshes) now) token
      time = (.ok m, accepted)) : Vouched p realm refreshes now body := by
  unfold preflight preflightCandidateKeyMetadata at h
  split at h
  · cases h
  rename_i candidate hcandidate
  split at h
  · cases h
  split at h
  · cases h
  rename_i processed accepted' hvalidated
  obtain ⟨key, jwk, hevidence⟩ := validated_fresh hvalidated
  obtain ⟨presentation, hsplits, hsound, -⟩ := evidence_parts hevidence
  obtain ⟨attester, hattester, hissuer, -, -, keys, hkeys, jwk', hpublished, alg, halg, hsigned⟩ :=
    hsound.signed
  obtain ⟨i, hi⟩ : ∃ i, realm.trustedAttesters[i]? = some attester := by
    rw [← hfronts.trustedAttesters]
    exact List.mem_iff_getElem?.mp hattester
  have hanswers : Answers (realm.keyCacheStaleFor * NANOS_PER_SEC) now
      (historyOf (AttesterKeyCache.answer p.toCrates) attester i (attesterTurns refreshes))
      (((attesterKeys realm).take p.toCrates (attesterTurns refreshes)).keysFor now attester.id) :=
    AttesterKeyCache.answers p.toCrates
      (Core.validateTrustedAttesters_nodup (Core.validateRealm_sources hvalid).2) hi
  rw [profileEvidence, Request.reading, cachesAfter_eq] at hkeys
  have hstanding := (hanswers.keys keys).mp hkeys
  exact .attester hgrant hcandidate hsplits hsound.header hsound.payload hi hissuer hstanding
    hpublished (Standing.usable (AttesterKeyCache.answer_parsed attester) hstanding jwk' hpublished)
    halg hsigned

/-- **Every token is vouched for by a key its source published last.** In a realm that validation
accepts, after any turns of the refreshes of its sources, in any order, a request is answered with a
token only if the provider signed its access token, or the attester its evidence, with a key of the
last key set that was fetched from there, and the fetches since then have not failed for longer than
keys may be stale. -/
theorem issued_under_standing_keys (hvalid : config.validateRealm realm = .ok ())
    (hfronts : Fronts endpoint realm) (refreshes : List Refresh) (now : Nat) {f : Nat → Outcome}
    {trail trail' : Trail} {response : TokenExchangeResponse}
    (h : exchange p endpoint (request.reading (cachesAfter p.toCrates realm refreshes) now) body f
      trail = .ok response trail') : Vouched p realm refreshes now body := by
  suffices hspec : WP (exchange p endpoint (request.reading (cachesAfter p.toCrates realm refreshes)
      now) body) f (fun _ _ => Vouched p realm refreshes now body) (fun _ _ => True)
      (fun _ => True) trail from hspec.ok h
  unfold exchange
  rw [wp_bind]
  refine WP.ofExcept (fun grant hgrant => ?_) fun _ _ => trivial
  cases grant with
  | initial token form =>
    exact wp_exchangeInitial (fun _ _ => trivial) fun i hi =>
      wp_recorded fun _ => .of_initialise hvalid hfronts hgrant hi
  | advancement token =>
    refine wp_advance (fun _ _ => trivial) (fun _ _ _ _ => ?_) (fun _ _ _ _ _ => trivial)
      fun time keys issued id hsettles _ => wp_recorded fun _ => ?_
    · exact wp_reject (fun _ _ _ => trivial) fun _ => trivial
    · obtain ⟨signer, m, accepted, id', -, hpre, -⟩ := hsettles
      exact .of_preflight hvalid hfronts hgrant hpre

/-! ### A provider that publishes its key -/

section Published

set_option maxRecDepth 2000

def discoveryUri : String := "https://idp.example.com/.well-known/openid-configuration"

def providerKeysUri : String := "https://idp.example.com/keys"

def discoveryText : String :=
  "\x7b\"issuer\":\"https://idp.example.com\",\"jwks_uri\":\"https://idp.example.com/keys\"\x7d"

def discoveryValue : Value :=
  .object [("issuer", .string "https://idp.example.com"), ("jwks_uri", .string providerKeysUri)]

def providerKeysText : String :=
  "\x7b\"keys\":[\x7b\"crv\":\"Ed25519\",\"kty\":\"OKP\",\"x\":\"_FHNjmIYoaONpH7QAjDwWAgW7RO6MwOsXeuRFUiQgCU\"\x7d]\x7d"

def providerKeysValue : Value := .object [("keys", .array [idpJwk])]

/-- The two documents of the provider. -/
def providerFetch : Fetch := fun uri =>
  if uri = discoveryUri then .ok (utf8 discoveryText)
  else if uri = providerKeysUri then .ok (utf8 providerKeysText)
  else .error "not found"

/-- The protocol, with a reader of JSON that knows these documents. -/
def fetchedPic : Pic Unit :=
  { testPic with
    valueFromSlice := fun bytes =>
      if bytes = utf8 discoveryText then .ok discoveryValue
      else if bytes = utf8 providerKeysText then .ok providerKeysValue
      else testPic.valueFromSlice bytes }

theorem fetchedPic_reads {text : String} (h : text ≠ discoveryText) (h' : text ≠ providerKeysText) :
    fetchedPic.valueFromSlice (utf8 text) = testPic.valueFromSlice (utf8 text) := by
  simp [fetchedPic, utf8_injective.ne h, utf8_injective.ne h']

theorem provider_answer :
    IdpKeyCache.answer fetchedPic.toCrates testProfile providerFetch = .ok [idpJwk] := by
  have huri : trimEndMatches (· = '/') testProfile.source.discoveryBase ++
      "/.well-known/openid-configuration" = discoveryUri := by decide +kernel
  have htexts : providerKeysText ≠ discoveryText := by decide +kernel
  have hissuer : discoveryValue.getStr "issuer" = some testProfile.source.issuer := by
    simp [discoveryValue, Value.getStr, Value.get_object, Value.asStr, testProfile]
  have hkeysUri : discoveryValue.getStr "jwks_uri" = some providerKeysUri := by
    simp [discoveryValue, Value.getStr, Value.get_object, Value.asStr]
  have hother : providerKeysUri ≠ discoveryUri := by decide +kernel
  have hkeys : (providerKeysValue.get "keys").bind Value.asArray = some [idpJwk] := by
    simp [providerKeysValue, Value.get_object, Value.asArray]
  have husable : usable idpJwk = true := by
    simp [usable, idpJwk, Value.getStr, Value.get_object]
  simp only [IdpKeyCache.answer, fetchProviderKeys, huri, parseKeySet, bind_ok, mapErr_ok, okOr_ok,
    ensure_ok, pure_ok]
  refine ⟨utf8 discoveryText, by simp [providerFetch], discoveryValue, by simp [fetchedPic],
    testProfile.source.issuer, hissuer, (), rfl, providerKeysUri, hkeysUri, utf8 providerKeysText,
    by simp [providerFetch, hother], providerKeysValue,
    by simp [fetchedPic, utf8_injective.ne htexts], [idpJwk], hkeys, ?_⟩
  simp [husable]

/-- The realm after its provider was asked once, at the start. -/
def askedOnce : List Refresh := [.provider ⟨0, 0, providerFetch⟩]

theorem askedOnce_history : historyOf (IdpKeyCache.answer fetchedPic.toCrates) testProfile 0
    (providerTurns askedOnce) = [(0, some [idpJwk])] := by
  have hturns : providerTurns askedOnce = [⟨0, 0, providerFetch⟩] := rfl
  rw [hturns, historyOf, List.filter_cons_of_pos (by simp), List.filter_nil, List.map_singleton,
    provider_answer]
  rfl

theorem askedOnce_keys :
    (cachesAfter fetchedPic.toCrates (acme testProfile) askedOnce).idpKeys.keysFor 0
      testProfile.id = .ok [idpJwk] := by
  have hanswers : Answers ((acme testProfile).keyCacheStaleFor * NANOS_PER_SEC) 0
      (historyOf (IdpKeyCache.answer fetchedPic.toCrates) testProfile 0 (providerTurns askedOnce))
      (((idpKeys (acme testProfile)).take fetchedPic.toCrates (providerTurns askedOnce)).keysFor 0
        testProfile.id) := IdpKeyCache.answers fetchedPic.toCrates (by simp [acme]) rfl
  rw [cachesAfter_eq]
  refine (hanswers.keys [idpJwk]).mpr ⟨0, [], ⟨⟨[], ?_⟩, by simp⟩, by simp [Overdue]⟩
  rw [askedOnce_history]
  rfl

/-- The request of the first token, at a realm that asked its provider. -/
def askedRequest : Request :=
  testRequest.reading (cachesAfter fetchedPic.toCrates (acme testProfile) askedOnce) 0

theorem decode_fetched : DecodedJwt.decode fetchedPic.toCrates accessToken = .ok accessJwt := by
  have h1 : accessSegment ≠ edDSASegment := by decide +kernel
  have h2 : accessSignatureSegment ≠ edDSASegment := by decide +kernel
  have h3 : accessSignatureSegment ≠ accessSegment := by decide +kernel
  have h4 : utf8 accessText ≠ utf8 edDSAText := utf8_injective.ne (by decide +kernel)
  have hheader : fetchedPic.valueFromSlice (utf8 edDSAText) = .ok (accessHeader "EdDSA") := by
    rw [fetchedPic_reads (by decide +kernel) (by decide +kernel)]
    simp [testPic, realmCrates]
  have hpayload : fetchedPic.valueFromSlice (utf8 accessText) = .ok accessValue := by
    rw [fetchedPic_reads (by decide +kernel) (by decide +kernel)]
    simp [testPic, realmCrates, h4]
  exact decode_of_segments split_accessToken (by simp [fetchedPic, testPic, realmCrates]) hheader
    (by simp [fetchedPic, testPic, realmCrates, h1]) hpayload
    (by simp [fetchedPic, testPic, realmCrates, h2, h3])

theorem source_fetched : validateSourceJwt fetchedPic.toCrates askedRequest.idpKeys
    (askedRequest.clock 0) accessJwt testProfile = .ok () := by
  have hidp : fetchedPic.publicKeyFromJwk idpJwk = .ok idpKey := by
    simp [fetchedPic, testPic, realmCrates]
  have hkey : idpKey (utf8 accessJwt.signingInput) accessJwt.signature = true := by
    simp [idpKey, accessJwt]
  have halg : accessJwt.headerString "alg" = some "EdDSA" := by
    simp [DecodedJwt.headerString, accessJwt, accessHeader, Value.getStr, Value.get_object,
      Value.asStr]
  have hkid : accessJwt.headerString "kid" = none := by
    simp [DecodedJwt.headerString, accessJwt, accessHeader, Value.getStr, Value.get_object]
  refine validateSourceJwt_ok.mpr ⟨accessToken_presentable rfl rfl (by simp [testProfile]), idpJwk,
    [idpJwk], "EdDSA", askedOnce_keys, halg, ?_⟩
  simp [candidateKeys, hkid, idpJwk_verifies hidp hkey]

theorem expiry_fetched :
    proposalExpiry fetchedPic.toCrates proposalSegment 1786700800 = .ok (some 1786704400) := by
  have h1 : proposalSegment ≠ edDSASegment := by decide +kernel
  have h2 : proposalSegment ≠ accessSegment := by decide +kernel
  have h3 : proposalSegment ≠ accessSignatureSegment := by decide +kernel
  have h4 : utf8 proposalText ≠ utf8 edDSAText := utf8_injective.ne (by decide +kernel)
  have h5 : utf8 proposalText ≠ utf8 accessText := utf8_injective.ne (by decide +kernel)
  have hread : fetchedPic.valueFromSlice (utf8 proposalText) = .ok proposalValue := by
    rw [fetchedPic_reads (by decide +kernel) (by decide +kernel)]
    simp [testPic, realmCrates, h4, h5]
  simp only [proposalExpiry, bind_ok, mapErr_ok]
  refine ⟨utf8 proposalText, by simp [fetchedPic, testPic, realmCrates, h1, h2, h3], proposalValue,
    hread, ?_⟩
  simp [proposalValue, Value.get_object, Value.asI64, Number.asI64, okOr, ensure,
    MAX_REQUESTED_LIFETIME, checkedAddI64, bind_ok]
  exact ⟨3600, rfl, by decide, rfl⟩

theorem initialise_fetched {signer : ArtifactSigner}
    (hsigner : realmTokenSigner testKeys "EdDSA" = .ok signer)
    (hpca : (signer.sign 0 [0]).isOk = true) (htoken : (signer.sign 1 (utf8 "first")).isOk = true) :
    initialise fetchedPic testRealm askedRequest accessToken (ofMembers initialForm) =
      .ok firstInitialized := by
  have hproposal : (ofMembers initialForm).lookup "continuity_proposal" = some proposalSegment := by
    simp [ofMembers, lookup_insertAll, initialForm]
  have htype : (ofMembers initialForm).lookup "continuity_proposal_type" = none := by
    simp [ofMembers, lookup_insertAll, initialForm]
  have hnonempty : proposalSegment.isEmpty = false := by decide +kernel
  have hprofile : selectInitialProfile testRealm.exchangeProfiles accessJwt = .ok testProfile := by
    have h : Presentable (.ok 1786700800) accessJwt testProfile :=
      accessToken_presentable rfl rfl (by simp [testProfile])
    simp [selectInitialProfile, testRealm, h.issuer, h.audience, okOr]
    rfl
  have hsub : accessJwt.claimString "sub" = some "alice" := by
    rw [DecodedJwt.claimString, claimAtPath_of_notMem (by decide)]
    simp [accessJwt, accessValue, Value.get_object, Value.asStr]
  obtain ⟨mapped, hmapped⟩ : ∃ mapped,
      mapAuthority fetchedPic.toCrates testProfile accessValue = .ok mapped := ⟨_, rfl⟩
  simp only [initialise, bind_ok, pure_ok, mapErr_ok, ensure_ok, okOr_ok]
  refine ⟨proposalSegment, require_of_lookup hproposal hnonempty, (), by simp [htype],
    accessJwt, decode_fetched, testProfile, hprofile, (), source_fetched, mapped, hmapped,
    ⟨ofMembers [("corporation", .one "ACME")]⟩, by simp [fetchedPic, testPic], (), rfl, [7], rfl,
    lineageId, ?_, 1786700800, rfl, 1786704400, ?_, testKeys, rfl, signer, hsigner,
    ⟨"first", [0], firstCheckpoint⟩, ?_, ?_⟩
  · have hbytes : askedRequest.lineageBytes = some lineageBytes := rfl
    simp [newLineageId, hbytes, fetchedPic, testPic, realmCrates, okOr]
  · simp only [initialExpiry, bind_ok]
    exact ⟨_, expiry_fetched, rfl⟩
  · rw [hsub]
    exact if_pos ⟨rfl, rfl, hpca, htoken⟩
  · rw [hsub]
    rfl

theorem grantOf_fetched (body : Bytes) : grantOf fetchedPic body = grantOf testPic body := by
  have htype : fetchedPic.TOKEN_TYPE_PIC = testPic.TOKEN_TYPE_PIC := rfl
  unfold grantOf
  rw [htype]

theorem exchange_fetched :
    exchange fetchedPic testRealm askedRequest (utf8 (formBody initialForm)) (fun _ => .done) [] =
      .ok (tokenResponse fetchedPic firstInitialized.issued)
        [⟨initializedEvent firstInitialized, true⟩] := by
  rw [exchange_initial ((grantOf_fetched _).trans grantOf_initial)]
  exact exchangeInitial_done (@initialise_fetched _ rfl rfl rfl) rfl

/-- The provider published its key once, and a token is issued on it. -/
theorem issued_under_standing_keys_first :
    Vouched fetchedPic (acme testProfile) askedOnce 0 (utf8 (formBody initialForm)) :=
  issued_under_standing_keys acme_valid ⟨rfl, rfl⟩ askedOnce 0 exchange_fetched

end Published

end PicX.Realm
