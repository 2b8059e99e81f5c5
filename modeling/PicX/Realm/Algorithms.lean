import PicX.Realm.Presentation
import PicX.Realm.Source

/-!
# The algorithm of an access token

A key that was read from a JWK runs one algorithm: RSA keys run `RS256`, and the keys of the `pic`
crate the algorithm of their kind. The evidence path takes a key only when that algorithm is the
one the header names (`algorithmMatches`). The access-token path compares the header with the
`alg` member of the key, which a key need not have and which need not agree with its kind.

* `validateSourceJwt_ok` — when an access token is accepted.
* `Labelled` — the keys that are tried for a header are of the kind it names.
* `source_algorithm_bound` — **for these headers and key sets, and for no others, every accepted
  token was verified with the algorithm of its header.**
-/

namespace PicX.Realm

open ExchangeError

variable {c : Crates} {keysFor : String → Except String (List Value)}
  {reading : Except String Nat} {jwt : DecodedJwt} {profile : ExchangeProfileConfig}

/-- The checks of the header and of the claims. -/
structure Presentable (reading : Except String Nat) (jwt : DecodedJwt)
    (profile : ExchangeProfileConfig) : Prop where
  allowed : ∃ alg ∈ profile.source.validation.allowedAlgorithms, jwt.headerString "alg" = some alg
  tokenType : validateTokenType jwt profile.source.validation.requireTokenType = .ok ()
  issuer : jwt.claimString "iss" = some profile.source.issuer
  audience : jwt.audienceContains profile.source.audience = true
  expiration :
    validateExpiration jwt reading profile.source.validation.requireExpiration = .ok ()

/-- The key that verifies a token: the first of those its `kid` selects that is published for the
algorithm of the header, or for none, and under which the signature is valid. -/
def VerifiedBy (c : Crates) (keysFor : String → Except String (List Value)) (jwt : DecodedJwt)
    (profile : ExchangeProfileConfig) (jwk : Value) : Prop :=
  ∃ published alg, keysFor profile.id = .ok published ∧ jwt.headerString "alg" = some alg ∧
    (candidateKeys (jwt.headerString "kid") published).find? (sourceKeyVerifies c alg jwt) =
      some jwk

theorem VerifiedBy.unique {jwk jwk' : Value} (h : VerifiedBy c keysFor jwt profile jwk)
    (h' : VerifiedBy c keysFor jwt profile jwk') : jwk = jwk' := by
  obtain ⟨published, alg, hkeys, halg, hfind⟩ := h
  obtain ⟨published', alg', hkeys', halg', hfind'⟩ := h'
  obtain rfl := Except.ok.inj (hkeys.symm.trans hkeys')
  obtain rfl := Option.some.inj (halg.symm.trans halg')
  exact Option.some.inj (hfind.symm.trans hfind')

theorem verifySourceSignature_ok {u : Unit} :
    verifySourceSignature c keysFor jwt profile = .ok u ↔
      ∃ jwk, VerifiedBy c keysFor jwt profile jwk := by
  simp only [verifySourceSignature, bind_ok, mapErr_ok, okOr_ok, ensure_ok]
  constructor
  · rintro ⟨published, hkeys, alg, halg, _, _, hany⟩
    obtain ⟨jwk, hfind⟩ := Option.isSome_iff_exists.mp (List.find?_isSome.mpr
      (List.any_eq_true.mp hany))
    exact ⟨jwk, published, alg, hkeys, halg, hfind⟩
  · rintro ⟨jwk, published, alg, hkeys, halg, hfind⟩
    have hmem := List.mem_of_find?_eq_some hfind
    exact ⟨published, hkeys, alg, halg, (), List.ne_nil_of_mem hmem,
      List.any_eq_true.mpr ⟨jwk, hmem, List.find?_some hfind⟩⟩

/-- When an access token is accepted. -/
theorem validateSourceJwt_ok {u : Unit} :
    validateSourceJwt c keysFor reading jwt profile = .ok u ↔
      Presentable reading jwt profile ∧ ∃ jwk, VerifiedBy c keysFor jwt profile jwk := by
  simp only [validateSourceJwt, bind_ok, okOr_ok, ensure_ok, verifySourceSignature_ok]
  constructor
  · rintro ⟨alg, halg, _, hallowed, _, htyp, _, hiss, _, haud, _, hexp, hverified⟩
    exact ⟨⟨⟨alg, hallowed, halg⟩, htyp, hiss, haud, hexp⟩, hverified⟩
  · rintro ⟨⟨⟨alg, hallowed, halg⟩, htyp, hiss, haud, hexp⟩, hverified⟩
    exact ⟨alg, halg, (), hallowed, (), htyp, (), hiss, (), haud, (), hexp, hverified⟩

/-- The algorithm of the header is allowed, and it is the one of the kind of key the token was
verified with, which is the one that key runs. -/
def AlgorithmBound (c : Crates) (keysFor : String → Except String (List Value)) (jwt : DecodedJwt)
    (profile : ExchangeProfileConfig) : Prop :=
  ∃ jwk alg, VerifiedBy c keysFor jwt profile jwk ∧ jwt.headerString "alg" = some alg ∧
    alg ∈ profile.source.validation.allowedAlgorithms ∧ expectedJoseAlgorithm c jwk = some alg

/-! ## Key sets -/

/-- The keys that are tried for a header, with an `alg` that is the one of the header or none, and
can be read at all, are of the kind of that algorithm. -/
def Labelled (c : Crates) (keysFor : String → Except String (List Value)) (jwt : DecodedJwt)
    (profile : ExchangeProfileConfig) : Prop :=
  ∀ published, keysFor profile.id = .ok published →
    ∀ jwk ∈ candidateKeys (jwt.headerString "kid") published,
      jwk.getStr "alg" = none ∨ jwk.getStr "alg" = jwt.headerString "alg" →
      (∃ key, verificationKeyFromJwk c jwk = .ok key) →
      expectedJoseAlgorithm c jwk = jwt.headerString "alg"

/-- Every key that can be read verifies a signature of the text that no key of another kind does. -/
def KindsApart (c : Crates) (published : List Value) (text : String) : Prop :=
  ∀ jwk ∈ published, ∀ key, verificationKeyFromJwk c jwk = .ok key →
    ∃ signature, key (utf8 text) signature = true ∧
      ∀ jwk' ∈ published, ∀ key', verificationKeyFromJwk c jwk' = .ok key' →
        key' (utf8 text) signature = true →
          expectedJoseAlgorithm c jwk' = expectedJoseAlgorithm c jwk

theorem sourceKeyVerifies_iff {alg : String} {jwk : Value} :
    sourceKeyVerifies c alg jwt jwk = true ↔
      (jwk.getStr "alg" = none ∨ jwk.getStr "alg" = some alg) ∧
        ∃ key, verificationKeyFromJwk c jwk = .ok key ∧
          key (utf8 jwt.signingInput) jwt.signature = true := by
  unfold sourceKeyVerifies
  cases jwk.getStr "alg" with
  | none => cases verificationKeyFromJwk c jwk <;> simp
  | some named =>
    by_cases hnamed : named = alg
    · cases verificationKeyFromJwk c jwk <;> simp [hnamed]
    · simp [hnamed]

/-- The key that verifies a token is one that its header selects. -/
theorem VerifiedBy.verifies {jwk : Value} (h : VerifiedBy c keysFor jwt profile jwk) :
    ∃ published alg, keysFor profile.id = .ok published ∧ jwt.headerString "alg" = some alg ∧
      jwk ∈ candidateKeys (jwt.headerString "kid") published ∧
        sourceKeyVerifies c alg jwt jwk = true := by
  obtain ⟨published, alg, hkeys, halg, hfind⟩ := h
  exact ⟨published, alg, hkeys, halg, List.mem_of_find?_eq_some hfind, List.find?_some hfind⟩

/-- With such keys the algorithm of every accepted token is bound. -/
theorem bound_of_labelled (jwt : DecodedJwt) (hlabelled : Labelled c keysFor jwt profile)
    (h : validateSourceJwt c keysFor reading jwt profile = .ok ()) :
    AlgorithmBound c keysFor jwt profile := by
  obtain ⟨hpresentable, jwk, hverified⟩ := validateSourceJwt_ok.mp h
  obtain ⟨alg, hallowed, halg⟩ := hpresentable.allowed
  obtain ⟨published, alg', hkeys, halg', hmem, hverifies⟩ := hverified.verifies
  obtain rfl := Option.some.inj (halg.symm.trans halg')
  obtain ⟨hmember, key, hread, -⟩ := sourceKeyVerifies_iff.mp hverifies
  rw [← halg] at hmember
  have hkind := hlabelled published hkeys jwk hmem hmember ⟨key, hread⟩
  exact ⟨jwk, alg, hverified, halg, hallowed, hkind.trans halg⟩

/-- A key of another kind verifies a token whose algorithm is not bound. -/
theorem unbound_of_not_labelled
    (hapart : ∀ published, keysFor profile.id = .ok published →
      KindsApart c published jwt.signingInput)
    (hpresentable : Presentable reading jwt profile) (h : ¬Labelled c keysFor jwt profile) :
    ∃ signature,
      validateSourceJwt c keysFor reading { jwt with signature } profile = .ok () ∧
        ¬AlgorithmBound c keysFor { jwt with signature } profile := by
  unfold Labelled at h
  push Not at h
  obtain ⟨published, hkeys, jwk, hmem, hmember, ⟨key, hread⟩, hkind⟩ := h
  obtain ⟨alg, hallowed, halg⟩ := hpresentable.allowed
  have hpublished : ∀ {jwk}, jwk ∈ candidateKeys (jwt.headerString "kid") published →
      jwk ∈ published := fun hin => (List.mem_filter.mp hin).1
  obtain ⟨signature, hsigned, hothers⟩ := hapart published hkeys jwk (hpublished hmem) key hread
  have hverifies : sourceKeyVerifies c alg { jwt with signature } jwk = true := by
    rw [halg] at hmember
    exact sourceKeyVerifies_iff.mpr ⟨hmember, key, hread, hsigned⟩
  -- The key that is found first need not be this one, but is of its kind.
  obtain ⟨found, hfound⟩ := Option.isSome_iff_exists.mp
    (List.find?_isSome.mpr ⟨jwk, hmem, hverifies⟩)
  have hby : VerifiedBy c keysFor { jwt with signature } profile found :=
    ⟨published, alg, hkeys, halg, hfound⟩
  obtain ⟨-, key', hread', hsigned'⟩ := sourceKeyVerifies_iff.mp (List.find?_some hfound)
  have hsame := hothers found (hpublished (List.mem_of_find?_eq_some hfound)) key' hread' hsigned'
  refine ⟨signature, validateSourceJwt_ok.mpr ⟨?_, found, hby⟩, ?_⟩
  · exact ⟨hpresentable.allowed, hpresentable.tokenType, hpresentable.issuer,
      hpresentable.audience, hpresentable.expiration⟩
  · rintro ⟨jwk', alg', hby', halg', -, hkind'⟩
    obtain rfl := hby.unique hby'
    exact hkind (hsame.symm.trans (hkind'.trans halg'.symm))

/-- **When the algorithm of an accepted token is bound.** It is for every token whose header the key
set is labelled for. And where keys of different kinds do not verify the same signature of a token,
with a header and claims that pass the checks of the profile it is for every signature exactly when
the key set is labelled for the header. -/
theorem source_algorithm_bound (c : Crates) (keysFor : String → Except String (List Value))
    (reading : Except String Nat) (jwt : DecodedJwt) (profile : ExchangeProfileConfig) :
    (Labelled c keysFor jwt profile → validateSourceJwt c keysFor reading jwt profile = .ok () →
      AlgorithmBound c keysFor jwt profile) ∧
    ((∀ published, keysFor profile.id = .ok published →
        KindsApart c published jwt.signingInput) →
      Presentable reading jwt profile →
        ((∀ signature, validateSourceJwt c keysFor reading { jwt with signature } profile = .ok () →
            AlgorithmBound c keysFor { jwt with signature } profile) ↔
          Labelled c keysFor jwt profile)) := by
  refine ⟨bound_of_labelled jwt, fun hapart hpresentable => ⟨fun hbound => ?_, ?_⟩⟩
  · by_contra hnot
    obtain ⟨signature, haccepted, hunbound⟩ := unbound_of_not_labelled hapart hpresentable hnot
    exact hunbound (hbound signature haccepted)
  · intro hlabelled signature
    exact bound_of_labelled { jwt with signature } hlabelled

/-! ### A token of one identity provider -/

section AccessToken

set_option maxRecDepth 2000

/-- The claims of an access token, and the segment that holds them. -/
def accessValue : Value :=
  .object [("aud", .string "pic-x"), ("exp", .number (.posInt 1786704300)),
    ("iss", .string "https://idp.example.com"), ("scope", .string "storage:save"),
    ("sub", .string "alice")]

def accessSegment : String :=
  "eyJhdWQiOiJwaWMteCIsImV4cCI6MTc4NjcwNDMwMCwiaXNzIjoiaHR0cHM6Ly9pZHAuZXhhbXBsZS5jb20iLCJzY29wZSI6InN0b3JhZ2U6c2F2ZSIsInN1YiI6ImFsaWNlIn0"

/-- A header that names an algorithm. -/
def accessHeader (alg : String) : Value := .object [("alg", .string alg), ("typ", .string "at+jwt")]

/-- The segments of `accessHeader "EdDSA"` and of `accessHeader "RS256"`. -/
def edDSASegment : String := "eyJhbGciOiJFZERTQSIsInR5cCI6ImF0K2p3dCJ9"

def rs256Segment : String := "eyJhbGciOiJSUzI1NiIsInR5cCI6ImF0K2p3dCJ9"

/-- The Ed25519 signatures under the third test key of RFC 8032. -/
def edDSASignature : Bytes :=
  [132, 110, 176, 78, 235, 92, 119, 18, 11, 246, 154, 106, 102, 198, 93, 134, 197, 243, 45,
   160, 121, 130, 255, 189, 76, 215, 225, 254, 226, 220, 114, 139, 164, 114, 211, 250, 99, 7,
   6, 34, 83, 148, 49, 110, 26, 167, 101, 182, 187, 212, 28, 76, 153, 88, 99, 240, 130, 165,
   60, 140, 132, 96, 249, 2]

def rs256Signature : Bytes :=
  [250, 255, 81, 52, 90, 130, 218, 167, 55, 223, 246, 5, 138, 31, 193, 224, 144, 60, 103, 123,
   67, 216, 16, 245, 99, 160, 73, 230, 221, 237, 143, 245, 71, 175, 222, 185, 118, 48, 81, 106,
   102, 33, 183, 102, 172, 52, 56, 113, 169, 116, 60, 241, 69, 226, 133, 126, 113, 240, 184,
   142, 61, 197, 231, 8]

/-- The key the provider publishes, without an `alg`. -/
def idpJwk : Value :=
  .object [("crv", .string "Ed25519"), ("kty", .string "OKP"),
    ("x", .string "_FHNjmIYoaONpH7QAjDwWAgW7RO6MwOsXeuRFUiQgCU")]

def idpKey : ArtifactVerifier := fun data signature =>
  (data = utf8 (edDSASegment ++ "." ++ accessSegment) && signature = edDSASignature) ||
    (data = utf8 (rs256Segment ++ "." ++ accessSegment) && signature = rs256Signature)

/-- The crates, as far as this token asks them. -/
def idpCrates : Crates :=
  { testCrates with
    publicKeyFromJwk := fun jwk =>
      if jwk.getStr "x" = idpJwk.getStr "x" then .ok idpKey else testCrates.publicKeyFromJwk jwk }

/-- A profile that allows the two algorithms. -/
def testProfile : ExchangeProfileConfig where
  id := "acme-idp"
  source :=
    { tokenType := EXCHANGE_SOURCE_OAUTH_ACCESS_TOKEN, format := EXCHANGE_SOURCE_FORMAT_JWT,
      issuer := "https://idp.example.com", discoveryUrl := none, audience := "pic-x",
      validation := { allowedAlgorithms := ["EdDSA", "RS256"], requireExpiration := true,
                      requireTokenType := some "at+jwt" } }
  claims :=
    { identityContext := []
      scopes := { from? := some "scope", value := none, valueType := some "set",
                  encoding := some "space-delimited" } }
  privileges :=
    { source := "scopes"
      rules := [{ name := "save", priority := 1, pattern := "^storage:save$",
                  emit := { scope := "storage:save", operation := "save",
                            resourceType := "storage", resourceId := "*" } }] }
  onUnmatchedScope := EXCHANGE_ON_UNMATCHED_SCOPE_REJECT

/-- The token with a header that names `RS256`, signed with the Ed25519 key. -/
def mislabelled : DecodedJwt where
  header := accessHeader "RS256"
  payload := accessValue
  signingInput := rs256Segment ++ "." ++ accessSegment
  signature := rs256Signature

theorem claimAtPath_of_notMem {value : Value} {path : String} (h : '.' ∉ path.toList) :
    claimAtPath value path = value.get path := by
  rw [claimAtPath, split_of_notMem h, List.foldlM_cons]
  cases value.get path <;> rfl

/-- The header and the claims of the test token pass the checks of the test profile. -/
theorem accessToken_presentable {alg : String}
    (hheader : jwt.header = accessHeader alg) (hpayload : jwt.payload = accessValue)
    (halg : alg ∈ testProfile.source.validation.allowedAlgorithms) :
    Presentable (.ok 1786700800) jwt testProfile := by
  have hnow : unixNow (.ok 1786700800) = .ok 1786700800 := rfl
  constructor
  · exact ⟨alg, halg, by simp [DecodedJwt.headerString, hheader, accessHeader, Value.getStr,
      Value.get_object, Value.asStr]⟩
  · simp [validateTokenType, testProfile, DecodedJwt.headerString, hheader, accessHeader,
      Value.getStr, Value.get_object, Value.asStr, okOr, ensure, bind_ok]
  · rw [DecodedJwt.claimString, claimAtPath_of_notMem (by decide), hpayload]
    simp [accessValue, Value.get_object, Value.asStr, testProfile]
  · rw [DecodedJwt.audienceContains, claimAtPath_of_notMem (by decide), hpayload]
    simp [accessValue, Value.get_object, testProfile]
  · have hexp : jwt.claimI64 "exp" = some 1786704300 := by
      rw [DecodedJwt.claimI64, claimAtPath_of_notMem (by decide), hpayload]
      simp [accessValue, Value.get_object, Value.asI64, Number.asI64]
    simp [validateExpiration, testProfile, hexp, hnow, okOr, ensure, bind_ok]

theorem idpJwk_read (hidp : c.publicKeyFromJwk idpJwk = .ok idpKey) :
    verificationKeyFromJwk c idpJwk = .ok idpKey := by
  simp only [verificationKeyFromJwk, bind_ok, ensure_ok]
  refine ⟨(), by simp [idpJwk, Value.get_object], ?_⟩
  rw [if_neg (by simp [Value.getStr, idpJwk, Value.get_object, Value.asStr]), hidp]

theorem idpJwk_alg : idpJwk.getStr "alg" = none := by
  simp [Value.getStr, idpJwk, Value.get_object]

/-- The provider's key verifies a token it signed. -/
theorem idpJwk_verifies {alg : String} (hidp : c.publicKeyFromJwk idpJwk = .ok idpKey)
    (hkey : idpKey (utf8 jwt.signingInput) jwt.signature = true) :
    sourceKeyVerifies c alg jwt idpJwk = true :=
  sourceKeyVerifies_iff.mpr ⟨Or.inl idpJwk_alg, idpKey, idpJwk_read hidp, hkey⟩

theorem idpCrates_key : idpCrates.publicKeyFromJwk idpJwk = .ok idpKey := by simp [idpCrates]

theorem idpJwk_kind : expectedJoseAlgorithm idpCrates idpJwk = some "EdDSA" := by
  simp [expectedJoseAlgorithm, Value.getStr, idpJwk, Value.get_object, Value.asStr, idpCrates,
    testCrates, Except.toOption]

theorem headerString_accessHeader (jwt : DecodedJwt) {alg : String}
    (hheader : jwt.header = accessHeader alg) :
    jwt.headerString "alg" = some alg ∧ jwt.headerString "kid" = none := by
  simp [DecodedJwt.headerString, hheader, accessHeader, Value.getStr, Value.get_object,
    Value.asStr]

/-- A token whose header names `RS256` is accepted under an Ed25519 key that is published without
an `alg`. -/
theorem mislabelled_accepted :
    ¬(validateSourceJwt idpCrates (fun _ => .ok [idpJwk]) (.ok 1786700800) mislabelled testProfile =
        .ok () →
      AlgorithmBound idpCrates (fun _ => .ok [idpJwk]) mislabelled testProfile) := by
  obtain ⟨halg, hkid⟩ := headerString_accessHeader mislabelled rfl
  have hkey : idpKey (utf8 mislabelled.signingInput) mislabelled.signature = true := by
    simp [idpKey, mislabelled]
  have hverified : VerifiedBy idpCrates (fun _ => .ok [idpJwk]) mislabelled testProfile idpJwk :=
    ⟨[idpJwk], "RS256", rfl, halg,
      by simp [candidateKeys, hkid, idpJwk_verifies idpCrates_key hkey]⟩
  have hpresentable : Presentable (.ok 1786700800) mislabelled testProfile :=
    accessToken_presentable rfl rfl (by simp [testProfile])
  intro hbound
  obtain ⟨jwk, alg, hverified', halg', -, hkind'⟩ :=
    hbound (validateSourceJwt_ok.mpr ⟨hpresentable, idpJwk, hverified⟩)
  obtain rfl := hverified.unique hverified'
  rw [idpJwk_kind] at hkind'
  rw [halg] at halg'
  exact absurd (hkind'.trans halg'.symm) (by decide)

/-- The token with a header that names the algorithm of the key. -/
def labelled : DecodedJwt where
  header := accessHeader "EdDSA"
  payload := accessValue
  signingInput := edDSASegment ++ "." ++ accessSegment
  signature := edDSASignature

theorem idpJwk_kindsApart : KindsApart idpCrates [idpJwk] mislabelled.signingInput := by
  intro jwk hjwk key hread
  obtain rfl := List.mem_singleton.mp hjwk
  obtain rfl := Except.ok.inj (hread.symm.trans (idpJwk_read idpCrates_key))
  refine ⟨rs256Signature, by simp [idpKey, mislabelled], ?_⟩
  intro jwk' hjwk' _ _ _
  rw [List.mem_singleton.mp hjwk']

/-- The key set is labelled for the one header, and not for the other. -/
theorem source_algorithm_bound_edDSA :
    AlgorithmBound idpCrates (fun _ => .ok [idpJwk]) labelled testProfile ∧
    ¬∀ signature,
      validateSourceJwt idpCrates (fun _ => .ok [idpJwk]) (.ok 1786700800)
          { mislabelled with signature } testProfile = .ok () →
        AlgorithmBound idpCrates (fun _ => .ok [idpJwk]) { mislabelled with signature }
          testProfile := by
  obtain ⟨halg, hkid⟩ := headerString_accessHeader labelled rfl
  constructor
  · refine (source_algorithm_bound idpCrates (fun _ => .ok [idpJwk]) (.ok 1786700800) labelled
      testProfile).1 ?_ ?_
    · rintro published hkeys jwk hjwk - -
      obtain rfl := Except.ok.inj hkeys
      obtain rfl := List.mem_singleton.mp (List.mem_filter.mp hjwk).1
      rw [halg, idpJwk_kind]
    · have hkey : idpKey (utf8 labelled.signingInput) labelled.signature = true := by
        simp [idpKey, labelled]
      refine validateSourceJwt_ok.mpr
        ⟨accessToken_presentable rfl rfl (by simp [testProfile]), idpJwk, [idpJwk], "EdDSA", rfl,
          halg, ?_⟩
      simp [candidateKeys, hkid, idpJwk_verifies idpCrates_key hkey]
  · have hapart : ∀ published, (Except.ok [idpJwk] : Except String (List Value)) = .ok published →
        KindsApart idpCrates published mislabelled.signingInput := by
      rintro published ⟨⟩
      exact idpJwk_kindsApart
    have hexact := (source_algorithm_bound idpCrates (fun _ => .ok [idpJwk]) (.ok 1786700800)
      mislabelled testProfile).2 hapart
    rw [hexact (accessToken_presentable rfl rfl (by simp [testProfile]))]
    obtain ⟨halg', hkid'⟩ := headerString_accessHeader mislabelled rfl
    intro hlabelled
    have hkind := hlabelled [idpJwk] rfl idpJwk (by simp [candidateKeys, hkid'])
      (Or.inl idpJwk_alg) ⟨idpKey, idpJwk_read idpCrates_key⟩
    rw [idpJwk_kind, halg'] at hkind
    exact absurd hkind (by decide)

end AccessToken

end PicX.Realm
