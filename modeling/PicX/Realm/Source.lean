import PicX.Realm.Mapping
import PicX.Realm.Por

/-!
# Which access tokens are accepted (`exchange.rs`)

The exchange profile an access token belongs to is found by its issuer and audience. The header
and the claims are checked against the profile first, the signature last, against the key set the
identity provider publishes.
-/

namespace PicX.Realm

open PicX ExchangeError

variable (c : Crates)

/-- The time in seconds, from a reading of the clock. -/
def unixNow (reading : Except String Nat) : Except ExchangeError Int :=
  mapErr (fun error => serverError ("system clock is before Unix epoch: " ++ error))
    (toI64 <$> reading)

def selectInitialProfile (profiles : List ExchangeProfileConfig) (jwt : DecodedJwt) :
    Except ExchangeError ExchangeProfileConfig :=
  okOr (profiles.find? fun profile =>
      profile.source.tokenType = EXCHANGE_SOURCE_OAUTH_ACCESS_TOKEN &&
        jwt.claimString "iss" = some profile.source.issuer &&
        jwt.audienceContains profile.source.audience)
    (invalidGrant
      "no exchange profile accepts this token issuer and audience in the selected realm")

/-- The published keys a token's `kid` names, or all of them when it names none. -/
def candidateKeys (keyId : Option String) (published : List Value) : List Value :=
  published.filter fun jwk => match keyId with
    | some wanted => jwk.getStr "kid" = some wanted
    | none => true

/-- One round of the loop over the candidates: whether this key accepts the token. -/
def sourceKeyVerifies (algorithm : String) (jwt : DecodedJwt) (jwk : Value) : Bool :=
  if (jwk.getStr "alg").any fun published => published ≠ algorithm then false
  else match verificationKeyFromJwk c jwk with
    | .error _ => false
    | .ok key => key (utf8 jwt.signingInput) jwt.signature

/-- Verifies the access token against the key set its identity provider publishes. -/
def verifySourceSignature (keysFor : String → Except String (List Value)) (jwt : DecodedJwt)
    (profile : ExchangeProfileConfig) : Except ExchangeError Unit := do
  let published ← mapErr (fun error => temporarilyUnavailable
    ("the key set of the identity provider for exchange profile `" ++ profile.id ++
      "` is unavailable: " ++ error)) (keysFor profile.id)
  let algorithm ← okOr (jwt.headerString "alg")
    (invalidGrant "source access token header has no `alg`")
  let candidates := candidateKeys (jwt.headerString "kid") published
  ensure (candidates ≠ [])
    (invalidGrant "no published identity-provider key matches the token `kid`")
  ensure (candidates.any (sourceKeyVerifies c algorithm jwt)) (invalidGrant
    "the source access token signature does not verify against the identity provider key set")

/-- The `typ` of the header, when the profile requires one. -/
def validateTokenType (jwt : DecodedJwt) : Option String → Except ExchangeError Unit
  | none => pure ()
  | some required => do
    let typ ← okOr (jwt.headerString "typ")
      (invalidGrant "source access token header has no `typ`")
    ensure (typ = required) (invalidGrant
      ("source access token typ `" ++ typ ++ "` does not match required `" ++ required ++ "`"))

/-- The expiry of the token, when the profile requires one. -/
def validateExpiration (jwt : DecodedJwt) (reading : Except String Nat) :
    Bool → Except ExchangeError Unit
  | false => pure ()
  | true => do
    let exp ← okOr (jwt.claimI64 "exp") (invalidGrant "source access token has no numeric `exp`")
    let now ← unixNow reading
    ensure (¬exp ≤ now) (invalidGrant "source access token is expired")

def validateSourceJwt (keysFor : String → Except String (List Value)) (reading : Except String Nat)
    (jwt : DecodedJwt) (profile : ExchangeProfileConfig) : Except ExchangeError Unit := do
  let alg ← okOr (jwt.headerString "alg") (invalidGrant "source access token header has no `alg`")
  ensure (alg ∈ profile.source.validation.allowedAlgorithms) (invalidGrant
    ("source access token algorithm `" ++ alg ++ "` is not allowed by exchange profile `" ++
      profile.id ++ "`"))
  validateTokenType jwt profile.source.validation.requireTokenType
  ensure (jwt.claimString "iss" = some profile.source.issuer)
    (invalidGrant "source access token issuer does not match the exchange profile")
  ensure (jwt.audienceContains profile.source.audience)
    (invalidGrant "source access token audience does not match the exchange profile")
  validateExpiration jwt reading profile.source.validation.requireExpiration
  verifySourceSignature c keysFor jwt profile

end PicX.Realm
