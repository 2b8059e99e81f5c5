import PicX.Base.Fallible
import PicX.Realm.Crates
import PicX.Realm.Profile

/-!
# Executor-profile evidence (`por.rs`)

An SD-JWT presentation is `<issuer-signed JWT>~<disclosure>~...~`. Validation finds the attester
its issuer names, verifies the issuer's signature, merges the disclosed claims into the signed
ones and reads the workload key the credential binds.

A validator remembers the last presentation it accepted. That state is passed in and handed back
by `validate` and `validateAndRemember`; a lock that was poisoned is not modelled.
-/

namespace PicX.Realm

open PicX

/-- The SD-JWT digest algorithm Profile 0.2 accepts. -/
def SD_ALG_SHA_256 : String := "sha-256"

def MAX_EVIDENCE_BYTES : Nat := 64 * 1024

def MAX_DISCLOSURES : Nat := 128

/-- Tolerance for clock skew between the attester and this realm, in seconds. -/
def CLOCK_SKEW_SECONDS : Int := 60

/-- What a validated presentation disclosed. -/
structure ProcessedProfileEvidence where
  attesterId : String
  issuer : String
  claims : Map Value

/-- A presentation a validator already accepted. -/
structure Accepted where
  evidence : Bytes
  jwk : Value
  processed : ProcessedProfileEvidence

/-- What a validator is made of: the attesters of the realm, where their keys come from, and the
time. -/
structure SdJwtProfileValidator where
  attesters : List TrustedAttesterConfig
  keysFor : String → Except String (List Value)
  now : Int

def reject (description : String) : RejectReason := .porRejected description

variable (c : Crates)

def base64url (bytes : Bytes) : String := c.base64urlEncode bytes

def b64urlDecode (value : String) : Option Bytes := (c.base64urlDecode value).toOption

/-! ## The issuer-signed part -/

def splitPresentation (presentation : String) : Except RejectReason (String × List String) := do
  ensure (presentation.toList.getLast? = some '~') (reject
    "the SD-JWT presentation does not end with `~`; a Key Binding JWT is not used in Profile 0.2")
  let segments := split '~' presentation
  let issuerSigned ← okOr (segments.head?.filter fun value => !value.isEmpty)
    (reject "the SD-JWT presentation has no issuer-signed JWT")
  let disclosures := segments.tail.filter fun value => !value.isEmpty
  ensure (disclosures.length ≤ MAX_DISCLOSURES)
    (reject "the SD-JWT presentation carries too many disclosures")
  pure (issuerSigned, disclosures)

def decodeJson (segment label : String) : Except RejectReason Value := do
  let bytes ← okOr (b64urlDecode c segment)
    (.porRejected ("the SD-JWT " ++ label ++ " is not base64url"))
  mapErr (fun _ => .porRejected ("the SD-JWT " ++ label ++ " is not JSON")) (c.valueFromSlice bytes)

def decodeJwsSegments (jws : String) : Except RejectReason (Value × Value) :=
  match split '.' jws with
  | [header, payload, _] => do
    let header ← decodeJson c header "header"
    let payload ← decodeJson c payload "payload"
    pure (header, payload)
  | _ => .error (reject "the issuer-signed SD-JWT is not a compact JWS")

/-- The bytes the issuer signed, and the signature. -/
def jwsSignatureParts (jws : String) : Except RejectReason (Bytes × Bytes) :=
  match split '.' jws with
  | [header, payload, signature] => do
    let signature ← okOr (b64urlDecode c signature)
      (reject "the SD-JWT signature is not unpadded base64url")
    pure (utf8 (header ++ "." ++ payload), signature)
  | _ => .error (reject "the issuer-signed SD-JWT is not a compact JWS")

/-! ## RSA keys -/

def derLength (length : Nat) : Bytes :=
  if length < 0x80 then [UInt8.ofNat length]
  else
    let bytes := (List.range 8).map fun i => UInt8.ofNat (length >>> (8 * (7 - i)))
    let significant := match bytes.dropWhile (· = 0) with
      | [] => [0]
      | rest => rest
    UInt8.ofNat (0x80 ||| significant.length) :: significant

/-- A DER integer: no leading zeroes but the one that keeps a high bit positive. -/
def derInteger (value : Bytes) : Bytes :=
  let value := value.dropWhile (· = 0)
  let content := if value.head?.any (fun byte => byte &&& 0x80 ≠ 0) then 0 :: value else value
  0x02 :: (derLength content.length ++ content)

/-- `RSAPublicKey`, a sequence of the modulus and the exponent. -/
def derRsaPublicKey (modulus exponent : Bytes) : Bytes :=
  let body := derInteger modulus ++ derInteger exponent
  0x30 :: (derLength body.length ++ body)

/-- The DER of an RSA key, from its JWK modulus and exponent. -/
def rsaKeyFromJwk (jwk : Value) : Except String Bytes := do
  let modulus ← okOr (jwk.getStr "n") "the RSA JWK has no `n`"
  let exponent ← okOr (jwk.getStr "e") "the RSA JWK has no `e`"
  let modulus ← okOr (b64urlDecode c modulus) "`n` is not base64url"
  let exponent ← okOr (b64urlDecode c exponent) "`e` is not base64url"
  ensure (256 ≤ modulus.length)
    ("the RSA key is " ++ toString (modulus.length * 8) ++ " bits; 2048 is the minimum")
  pure (derRsaPublicKey modulus exponent)

/-! ## Verification keys -/

/-- A verification key for a JWS this deployment reads but the PIC profile does not define. -/
def verificationKeyFromJwk (jwk : Value) : Except String ArtifactVerifier := do
  ensure (jwk.get "d" |>.isNone) "the JWK carries a private key component"
  if jwk.getStr "kty" = some "RSA" then
    let key ← rsaKeyFromJwk c jwk
    pure (c.rsaVerify key)
  else c.publicKeyFromJwk jwk

/-- The JOSE algorithm a key of this shape produces, RSA included. -/
def expectedJoseAlgorithm (jwk : Value) : Option String :=
  if jwk.getStr "kty" = some "RSA" then some "RS256"
  else (c.expectedAlgorithmsForJwk jwk).toOption.map ExpectedAlgorithms.jose

def algorithmMatches (algorithm : String) (jwk : Value) : Bool :=
  (expectedJoseAlgorithm c jwk).any fun expected => expected = algorithm

/-- Whether the signature verifies under this key, used with this algorithm. -/
def keyVerifies (algorithm : String) (signingInput signature : Bytes) (jwk : Value) : Bool :=
  algorithmMatches c algorithm jwk &&
    match verificationKeyFromJwk c jwk with
    | .ok key => key signingInput signature
    | .error _ => false

def verifyIssuerSignature (issuerSigned : String) (header : Value)
    (attester : TrustedAttesterConfig) (keysFor : String → Except String (List Value)) :
    Except RejectReason Unit := do
  let algorithm ← okOr (header.getStr "alg") (reject "the SD-JWT header has no `alg`")
  ensure (algorithm ≠ "none") (reject "the SD-JWT declares `alg: none`")
  let keyId := header.getStr "kid"
  let (signingInput, signature) ← jwsSignatureParts c issuerSigned
  let candidates ← mapErr (fun error => .porRejected
    ("the key set of attester `" ++ attester.id ++ "` is unavailable: " ++ error))
    (keysFor attester.id)
  ensure (candidates ≠ [])
    (.porRejected ("attester `" ++ attester.id ++ "` published no verification keys"))
  -- A `kid` narrows the candidates; without one, every published key is tried.
  let selected := candidates.filter fun jwk => match keyId with
    | some wanted => jwk.getStr "kid" = some wanted
    | none => true
  ensure (selected ≠ [])
    (.porRejected ("attester `" ++ attester.id ++ "` published no key matching `kid`"))
  ensure (selected.any (keyVerifies c algorithm signingInput signature))
    (.porRejected ("the SD-JWT issuer signature does not verify against the key set of " ++
      "attester `" ++ attester.id ++ "`"))

/-! ## Disclosures -/

/-- The digests a credential commits to. -/
def committed (payload : Value) : List String :=
  (((payload.get "_sd").bind Value.asArray).map fun values => values.filterMap Value.asStr).getD []

/-- Everything except the SD-JWT machinery is always disclosed. -/
def signedClaims (payload : Value) : Map Value :=
  (payload.asObject.map fun object => (object.erase "_sd").erase "_sd_alg").getD ∅

def digestOf (disclosure : String) : String := base64url c (c.sha256 (utf8 disclosure))

/-- The claim of an object-property disclosure `[salt, name, value]`. -/
def disclosedClaim (disclosure : String) : Except RejectReason (String × Value) := do
  let decoded ← okOr (b64urlDecode c disclosure) (reject "a disclosure is not unpadded base64url")
  let parts ← okOr ((c.valueFromSlice decoded).toOption.bind Value.asArray)
    (reject "a disclosure is not a JSON array")
  match parts with
  | [_, name, value] => do
    let name ← okOr name.asStr (reject "a disclosure claim name is not a string")
    ensure (¬("_sd".toList.isPrefixOf name.toList ∨ name = "..."))
      (reject "a disclosure uses a reserved claim name")
    pure (name, value)
  | _ => .error (reject "a disclosure is not a [salt, name, value] object-property disclosure")

/-- The loop over the presented disclosures, with the digests used so far. -/
def mergeDisclosures (digests : List String) :
    List String → List String → Map Value → Except RejectReason (Map Value)
  | [], _, claims => pure claims
  | disclosure :: rest, used, claims => do
    let computed := digestOf c disclosure
    ensure (computed ∈ digests)
      (reject "a presented disclosure is not committed in the credential `_sd`")
    ensure (computed ∉ used) (reject "a disclosure digest was presented twice")
    let (name, value) ← disclosedClaim c disclosure
    ensure (name ∉ claims) (reject "a disclosure would overwrite an existing claim")
    mergeDisclosures digests rest (computed :: used) (claims.insert name value)

/-- Reconstructs the Processed SD-JWT Payload from the presented Disclosures. -/
def processDisclosures (payload : Value) (disclosures : List String) :
    Except RejectReason (Map Value) :=
  mergeDisclosures c (committed payload) disclosures [] (signedClaims payload)

/-! ## The whole validation -/

def validateValidityClaims (payload : Value) (now : Int) : Except RejectReason Unit := do
  let expiry ← okOr ((payload.get "exp").bind Value.asI64)
    (reject "the SD-JWT has no numeric `exp` claim")
  ensure (¬now - CLOCK_SKEW_SECONDS ≥ expiry)
    (reject "the SD-JWT executor-profile evidence is expired")
  ensure (¬((payload.get "nbf").bind Value.asI64).any fun notBefore =>
      now + CLOCK_SKEW_SECONDS < notBefore)
    (reject "the SD-JWT executor-profile evidence is not yet valid")
  ensure (¬((payload.get "iat").bind Value.asI64).any fun issuedAt =>
      now + CLOCK_SKEW_SECONDS < issuedAt)
    (reject "the SD-JWT executor-profile evidence is issued in the future")

/-- The digest algorithm, which is SHA-256 when the credential does not say. -/
def validateSdAlg (payload : Value) : Except RejectReason Unit :=
  match payload.getStr "_sd_alg" with
  | some other =>
    ensure (other = SD_ALG_SHA_256) (.porRejected ("unsupported `_sd_alg` `" ++ other ++ "`"))
  | none => pure ()

/-- The key a credential binds. -/
def cnfJwk (payload : Value) : Option Value := (payload.get "cnf").bind fun cnf => cnf.get "jwk"

/-- A workload verifier from the JWK of a credential. -/
def rebuildWorkloadKey (jwk : Value) : Except RejectReason ArtifactVerifier :=
  mapErr (fun error => .porRejected ("`cnf.jwk` is unusable: " ++ error)) (c.publicKeyFromJwk jwk)

/-- The workload verification key the credential binds through `cnf.jwk`. -/
def workloadKeyFromCnf (payload : Value) : Except RejectReason ArtifactVerifier := do
  let jwk ← okOr (cnfJwk payload)
    (reject "the SD-JWT does not bind a workload key through `cnf.jwk`")
  rebuildWorkloadKey c jwk

def validateEvidenceWithKey (v : SdJwtProfileValidator) (por : ProofOfRelationship) :
    Except RejectReason (ArtifactVerifier × ProcessedProfileEvidence × Value) := do
  ensure (por.evidence.length ≤ MAX_EVIDENCE_BYTES)
    (reject "proof_of_relationship.evidence is too large")
  let presentation ← okOr (fromUtf8 por.evidence)
    (reject "proof_of_relationship.evidence is not UTF-8")
  let (issuerSigned, disclosures) ← splitPresentation presentation
  let (header, payload) ← decodeJwsSegments c issuerSigned
  -- Trust first: an issuer this realm never configured is rejected before any signature check.
  let issuer ← okOr (payload.getStr "iss") (reject "the SD-JWT has no `iss` claim")
  let attester ← okOr (v.attesters.find? fun candidate => candidate.issuer = issuer)
    (.porRejected ("issuer `" ++ issuer ++ "` is not a trusted attester of this realm"))
  ensure ("sd-jwt" ∈ attester.proofTypes)
    (.porRejected ("attester `" ++ attester.id ++ "` is not configured for proof type `sd-jwt`"))
  verifyIssuerSignature c issuerSigned header attester v.keysFor
  validateSdAlg payload
  validateValidityClaims payload v.now
  let claims ← processDisclosures c payload disclosures
  let jwk ← okOr (cnfJwk payload)
    (reject "the SD-JWT does not bind a workload key through `cnf.jwk`")
  let workloadKey ← workloadKeyFromCnf c payload
  pure (workloadKey, { attesterId := attester.id, issuer, claims }, jwk)

/-! ## Remembering an accepted presentation -/

/-- The cached answer for exactly these evidence bytes. -/
def cachedFor (accepted : Option Accepted) (evidence : Bytes) : Option Accepted :=
  accepted.filter fun entry => entry.evidence = evidence

/-- Validates evidence for settlement, with the state afterwards. -/
def validate (v : SdJwtProfileValidator) (por : ProofOfRelationship) (accepted : Option Accepted) :
    Except RejectReason ArtifactVerifier × Option Accepted :=
  match cachedFor accepted por.evidence with
  | some cached => (rebuildWorkloadKey c cached.jwk, accepted)
  | none => match validateEvidenceWithKey c v por with
    | .error e => (.error e, accepted)
    | .ok (verifier, processed, jwk) =>
      (.ok verifier, some { evidence := por.evidence, jwk, processed })

/-- Validates and records the presentation, so a later identical validation is free. -/
def validateAndRemember (v : SdJwtProfileValidator) (por : ProofOfRelationship)
    (accepted : Option Accepted) :
    Except RejectReason ProcessedProfileEvidence × Option Accepted :=
  match cachedFor accepted por.evidence with
  | some cached => (.ok cached.processed, accepted)
  | none => match validateEvidenceWithKey c v por with
    | .error e => (.error e, accepted)
    | .ok (_, processed, jwk) =>
      (.ok processed, some { evidence := por.evidence, jwk, processed })

end PicX.Realm
