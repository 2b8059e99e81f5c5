import PicX.Audit.Event
import PicX.Base.Program
import PicX.Realm.Conformance
import PicX.Realm.Source

/-!
# The token endpoint (`exchange.rs`)

A request is an initial exchange of an access token or the advancement of a candidate PIC Token.
Either ends with a token, after one audit record, or with an error. The only thing a request does
to the world is to write audit records, so a request is a program over the trail of the records it
tried to write, and the outside decides how each write turns out.

`Request` is what a request finds: the clock, the randomness and the key sets it reads. The clock
is read at most twice.
-/

namespace PicX.Realm

open ExchangeError
open PicX.Audit (AuditEvent Subject)

/-! ## The realm and what a request finds -/

/-- The parts of a realm a token endpoint reads. `tokenLifetime` is in whole seconds. -/
structure TokenEndpoint where
  name : String
  issuer : Option String
  mountPath : String
  exchangeProfiles : List ExchangeProfileConfig
  trustedAttesters : List TrustedAttesterConfig
  tokenLifetime : Nat
  tokenInitialExpiryPolicy : TokenInitialExpiryPolicy
  tokenSigningAlgorithm : String
  tokenKeys : Option KeyManager

/-- What one request finds. -/
structure Request where
  /-- The readings of the clock, in seconds, or why there is none. -/
  clock : Nat → Except String Nat
  challenge : Option Bytes
  lineageBytes : Option Bytes
  idpKeys : String → Except String (List Value)
  attesterKeys : String → Except String (List Value)

/-- An RFC 8693 response. -/
structure TokenExchangeResponse where
  accessToken : String
  issuedTokenType : String
  tokenType : String
  deriving DecidableEq, Repr

def GRANT_TOKEN_EXCHANGE : String := "urn:ietf:params:oauth:grant-type:token-exchange"

def TOKEN_TYPE_N_A : String := "N_A"

/-! ## The realm's signer -/

/-- The algorithm a realm is configured with. -/
def signingAlgorithm : String → Except ExchangeError SigningAlgorithm
  | "EdDSA" => pure .edDSA
  | "ES256" => pure .es256
  | other => .error (serverError
      ("the realm is configured to sign with `" ++ other ++ "`, which this build cannot produce"))

/-- A signature of the ring, refused when the ring no longer signs as it was announced. -/
def checkSignature (kid jose : String) (answer : Except KeyError Signature) :
    Except CoseError Bytes := do
  let signature ← mapErr (fun error => CoseError.invalidKey error.display) answer
  ensure (signature.algorithm = jose) (.algorithmMismatch jose signature.algorithm)
  ensure (signature.keyId = kid) (.invalidKey "active signing key changed while signing")
  pure signature.bytes

/-- `RealmTokenSigner`: announces the key that was active when it was made. -/
def realmTokenSigner (keys : KeyManager) (jose : String) : Except ExchangeError ArtifactSigner := do
  let algorithm ← signingAlgorithm jose
  let kid ← mapErr (fun error : KeyError => temporarilyUnavailable
    ("the realm token-signing key ring is not ready: " ++ error.display)) keys.activeKeyId
  pure { kid, coseAlgorithm := algorithm, jwsAlgorithm := jose,
         sign := fun n data => checkSignature kid jose (keys.sign n data) }

def TokenEndpoint.keys (realm : TokenEndpoint) : Except ExchangeError KeyManager :=
  okOr realm.tokenKeys
    (temporarilyUnavailable "the selected realm has no token-signing key ring")

/-- The issuer a token names. -/
def TokenEndpoint.iss (realm : TokenEndpoint) : String := realm.issuer.getD realm.mountPath

/-! ## Preflight -/

structure CandidateMetadata where
  lineageId : Option String
  expiresAt : Int
  proposedPosition : Nat
  deriving DecidableEq, Repr

variable {A : Type} (p : Pic A)

def requireCoseAlgorithm (label : String) (actual : Option SigningAlgorithm)
    (expected : SigningAlgorithm) : Except ExchangeError Unit :=
  match actual with
  | some actual =>
    if actual = expected then pure ()
    else .error (invalidGrant (label ++ " COSE algorithm `" ++ p.displayAlgorithm actual ++
      "` does not match executor-profile key algorithm `" ++ p.displayAlgorithm expected ++ "`"))
  | none => .error (invalidGrant (label ++ " COSE has no supported signing algorithm"))

def requireMatchingCoseKid : Option String → Option String → Except ExchangeError Unit
  | some continuity, some transition =>
    if continuity = transition then pure ()
    else .error (invalidGrant ("candidate Continuity COSE kid `" ++ continuity ++
      "` does not match Transition COSE kid `" ++ transition ++ "`"))
  | none, _ => .error (invalidGrant "candidate Continuity COSE has no `kid`")
  | _, none => .error (invalidGrant "candidate Transition COSE has no `kid`")

/-- The artifacts a candidate carries, before any signature of theirs is checked. -/
structure Candidate (A : Type) where
  decoded : DecodedToken
  continuityCose : Cose PicContinuityPayload
  continuity : PicContinuityPayload
  transitionCose : Cose PicTransitionPayload
  transition : PicTransitionPayload
  predecessor : PicPcaPayload A

/-- The first half of `preflight_candidate_key_metadata`: taking a candidate apart. -/
def decodeCandidate (candidateToken : String) : Except ExchangeError (Candidate A) := do
  let decoded ← mapErr (fun error => invalidGrant
    ("the candidate PIC Token JWT cannot be decoded: " ++ error)) (p.decodeToken candidateToken)
  let continuityBytes ← mapErr (fun error => invalidGrant
    ("the candidate PIC Token JWT root cannot be decoded: " ++ error)) (p.rootBytes decoded.claims)
  let continuityCose ← mapErr (fun error => invalidGrant
    ("the candidate Continuity COSE cannot be decoded: " ++ error))
    (p.continuityFromBytes continuityBytes)
  let continuity ← mapErr (fun error => invalidGrant
    ("the candidate Continuity COSE payload cannot be decoded: " ++ error))
    continuityCose.payloadUnverified
  let transitionBytes ← mapErr (fun error => invalidGrant
    ("the candidate Continuity does not carry exactly one transition: " ++ error))
    continuity.candidateTransition
  let transitionCose ← mapErr (fun error => invalidGrant
    ("the candidate Transition COSE cannot be decoded: " ++ error))
    (p.transitionFromBytes transitionBytes)
  let transition ← mapErr (fun error => invalidGrant
    ("the candidate Transition COSE payload cannot be decoded: " ++ error))
    transitionCose.payloadUnverified
  let predecessorCose ← mapErr (fun error => invalidGrant
    ("the candidate predecessor PCA COSE cannot be decoded: " ++ error))
    (p.pcaFromBytes continuity.pca)
  let predecessor ← mapErr (fun error => invalidGrant
    ("the candidate predecessor PCA payload cannot be decoded: " ++ error))
    predecessorCose.payloadUnverified
  pure { decoded, continuityCose, continuity, transitionCose, transition, predecessor }

/-- The lineage a candidate claims against the one its predecessor names. -/
def requireLineage (predecessor claimed : Option String) : Except ExchangeError Unit :=
  match predecessor with
  | none => pure ()
  | some expected =>
    match claimed with
    | some actual =>
      if actual = expected then pure ()
      else .error (invalidGrant
        "candidate PIC Token JWT jti does not match predecessor PCA lineage_id")
    | none => .error (invalidGrant
        "candidate PIC Token JWT has no jti matching predecessor PCA lineage_id")

/-- The expiry a candidate claims against the one its predecessor carries. -/
def requireExpiry (expiresAt : Int) : Option Int → Except ExchangeError Unit
  | some exp =>
    if exp = expiresAt then pure ()
    else .error (invalidGrant
      "candidate PIC Token JWT exp does not match predecessor PCA expiration")
  | none => .error (invalidGrant
      "candidate PIC Token JWT has no exp matching predecessor PCA expiration")

/-- What is required of a candidate once its executor-profile evidence is accepted. -/
def checkCandidate (candidate : Candidate A) (processed : ProcessedProfileEvidence) :
    Except ExchangeError CandidateMetadata := do
  let jwk ← okOr ((processed.claims.lookup "cnf").bind fun cnf => cnf.get "jwk")
    (invalidGrant "the accepted executor-profile evidence did not expose `cnf.jwk`")
  let expected ← mapErr (fun error => invalidGrant
    ("the executor-profile evidence `cnf.jwk` is unusable: " ++ error))
    (p.expectedAlgorithmsForJwk jwk)
  ensure (candidate.decoded.alg = expected.jose) (invalidGrant
    ("candidate PIC Token JWT algorithm `" ++ candidate.decoded.alg ++
      "` does not match executor-profile key algorithm `" ++ expected.jose ++ "`"))
  let coseAlgorithm ← okOr expected.cose
    (invalidGrant "the executor-profile workload key cannot verify PIC COSE signatures")
  requireCoseAlgorithm p "candidate Continuity" candidate.continuityCose.algorithm coseAlgorithm
  requireCoseAlgorithm p "candidate Transition" candidate.transitionCose.algorithm coseAlgorithm
  requireMatchingCoseKid candidate.continuityCose.kid candidate.transitionCose.kid
  -- A transition has to move the challenge state; sibling branches are intentional.
  ensure (candidate.transition.nextChallenge ≠ candidate.transition.previousChallenge)
    (invalidGrant "the transition next_challenge repeats the challenge it answers")
  requireLineage candidate.predecessor.lineageId candidate.decoded.claims.jti
  let expiresAt ← okOr candidate.predecessor.expiresAt
    (invalidGrant "the candidate predecessor checkpoint has no absolute expiration")
  requireExpiry expiresAt candidate.decoded.claims.exp
  pure { lineageId := candidate.predecessor.lineageId, expiresAt,
         proposedPosition := candidate.transition.position }

/-- Reads a candidate before it is settled; the validator remembers the evidence it accepted. -/
def preflightCandidateKeyMetadata (v : SdJwtProfileValidator) (candidateToken : String)
    (accepted : Option Accepted) :
    Except ExchangeError CandidateMetadata × Option Accepted :=
  match decodeCandidate p candidateToken with
  | .error e => (.error e, accepted)
  | .ok candidate =>
    if candidate.transition.proofOfRelationship.porType ≠ p.acceptedType then
      (.error (invalidGrant ("proof_of_relationship.type must be `" ++ p.acceptedType ++ "`")),
        accepted)
    else match validateAndRemember p.toCrates v candidate.transition.proofOfRelationship
        accepted with
      | (.error error, accepted) => (.error (invalidGrant
          ("the executor-profile evidence was rejected: " ++ p.displayReject error)), accepted)
      | (.ok processed, accepted) => (checkCandidate p candidate processed, accepted)

/-! ## Audit records -/

/-- A record the endpoint tried to write, and whether it was written. -/
structure Attempt where
  event : AuditEvent
  written : Bool
  deriving DecidableEq, Repr

/-- The records tried so far, the first one first. -/
abbrev Trail := List Attempt

/-- A request: the `n`-th write of the trail turns out as the outside decides. -/
abbrev Exchange := Program Nat Trail ExchangeError

/-- Writes one record, and refuses the exchange if it cannot be written. -/
def record (event : AuditEvent) : Exchange Unit := do
  let trail ← Program.get
  Program.perform trail.length
    (fun trail => .ok () (trail ++ [⟨event, true⟩]))
    (fun _ reason trail => .error (serverError
      ("the exchange was not recorded, so no token was issued: " ++ reason))
      (trail ++ [⟨event, false⟩]))

/-- The record of a candidate that was refused. -/
def rejectedEvent (realm : TokenEndpoint) (lineageId : Option String) (position : Option Nat) :
    AuditEvent :=
  let event := (match lineageId with
    | some id => (AuditEvent.continuity "pic.exchange.rejected" id).withContinuityId id
    | none => AuditEvent.anonymous "pic.exchange.rejected").on realm.name
  match position with
  | some position => event.atContinuityPosition position
  | none => event

def recordAdvancementRejected (realm : TokenEndpoint) (lineageId : Option String)
    (position : Option Nat) :
    Exchange Unit :=
  record (rejectedEvent realm lineageId position)

/-! ## Initial exchange -/

/-- A token that was issued, with the profile and the subject it is recorded under. -/
structure Initialized (A : Type) where
  issued : IssuedPicToken A
  profile : ExchangeProfileConfig
  sub : Option String
  lineageId : String

def newLineageId (bytes : Option Bytes) : Except ExchangeError String := do
  let bytes ← okOr bytes (serverError "could not generate a lineage identifier")
  pure (p.base64urlEncode bytes)

/-- The part of `exchange_initial` before its record: everything that can refuse the request. -/
def initialise (realm : TokenEndpoint) (request : Request) (accessToken : String)
    (form : Map String) :
    Except ExchangeError (Initialized A) := do
  let proposalValue ← require form "continuity_proposal"
  ensure (¬(form.lookup "continuity_proposal_type").any fun value =>
      value ≠ p.PROPOSAL_TYPE_CONTINUITY_INITIAL) (invalidRequest
    ("continuity_proposal_type must be `" ++ p.PROPOSAL_TYPE_CONTINUITY_INITIAL ++ "`"))
  let jwt ← DecodedJwt.decode p.toCrates accessToken
  let profile ← selectInitialProfile realm.exchangeProfiles jwt
  validateSourceJwt p.toCrates request.idpKeys (request.clock 0) jwt profile
  let mapped ← mapAuthority p.toCrates profile jwt.payload
  let proposal ← mapErr (fun error => invalidRequest ("invalid continuity_proposal: " ++ error))
    (p.fromContinuityProposal proposalValue)
  let authority ← mapErr (fun error => invalidGrant ("invalid derived authority: " ++ error))
    (p.fromLogical ⟨mapped.identityContext, mapped.invariants, proposal.executionContract⟩)
  let challenge ← okOr request.challenge (serverError "could not generate the next challenge")
  let lineageId ← newLineageId p request.lineageBytes
  let now ← unixNow (request.clock 1)
  let expiry ← initialExpiry p.toCrates proposalValue (jwt.claimI64 "exp") now realm.tokenLifetime
    realm.tokenInitialExpiryPolicy
  let checkpoint : PicPcaPayload A :=
    { position := 0, contextOfAuthority := authority, nextChallenge := challenge,
      lineageId := some lineageId, expiresAt := some expiry }
  let keys ← realm.keys
  let signer ← realmTokenSigner keys realm.tokenSigningAlgorithm
  let context : SettlementContext :=
    { iss := realm.iss, sub := jwt.claimString "sub", aud := none, iat := some now,
      exp := some expiry, jti := some lineageId }
  let issued ← mapErr (fun error => serverError ("could not issue PIC Token JWT: " ++ error))
    (p.issueSettled checkpoint signer context)
  pure { issued, profile, sub := jwt.claimString "sub", lineageId }

/-- The record of a new lineage. -/
def initializedEvent (i : Initialized A) : AuditEvent :=
  (((AuditEvent.new "pic.exchange.initialized"
    ((i.sub.map Subject.principal).getD .anonymous)).on i.profile.id).withContinuityId
      i.lineageId).atContinuityPosition i.issued.checkpoint.position

def tokenResponse (issued : IssuedPicToken A) : TokenExchangeResponse :=
  { accessToken := issued.token, issuedTokenType := p.TOKEN_TYPE_PIC, tokenType := TOKEN_TYPE_N_A }

/-- Exchanges an access token for the first token of a lineage. -/
def exchangeInitial (realm : TokenEndpoint) (request : Request) (accessToken : String)
    (form : Map String) : Exchange TokenExchangeResponse := do
  let initialized ← Program.ofExcept (initialise p realm request accessToken form)
  record (initializedEvent initialized)
  pure (tokenResponse p initialized.issued)

/-! ## Advancement -/

/-- The realm's side of settlement: its checkpoints, the evidence it accepts, its policy and its
key. Revocation is not configured, and request binding is not available at this boundary. -/
def settlementAuthority (keys : KeyManager) (v : SdJwtProfileValidator) (signer : ArtifactSigner) :
    SettlementAuthority A (Option Accepted) where
  isCurrentCheckpoint := isCurrentCheckpoint p keys
  validate := validate p.toCrates v
  isRevoked := fun _ _ => false
  conformance := fun checkpoint _ accepted => (reason p accepted checkpoint).isOk
  requestBinding := fun _ => true
  realm := signer

/-- The evidence validator of a request. -/
def profileEvidence (realm : TokenEndpoint) (request : Request) (now : Int) :
    SdJwtProfileValidator :=
  { attesters := realm.trustedAttesters, keysFor := request.attesterKeys, now }

/-- What a settled token says around its checkpoint. -/
def advanceContext (realm : TokenEndpoint) (now : Int) (m : CandidateMetadata)
    (lineageId : String) :
    SettlementContext :=
  { iss := realm.iss, sub := none, aud := none, iat := some now, exp := some m.expiresAt,
    jti := some lineageId }

/-- The record of a candidate that was settled. -/
def advancedEvent (realm : TokenEndpoint) (lineageId : String) (issued : IssuedPicToken A) :
    AuditEvent :=
  (((AuditEvent.continuity "pic.exchange.advanced" lineageId).on realm.name).withContinuityId
    lineageId).atContinuityPosition issued.checkpoint.position

/-- Validates a workload-signed candidate and checkpoints it into the next token. -/
def advance (realm : TokenEndpoint) (request : Request) (candidateToken : String) :
    Exchange TokenExchangeResponse := do
  let now ← Program.ofExcept (unixNow (request.clock 0))
  let keys ← Program.ofExcept realm.keys
  let signer ← Program.ofExcept (realmTokenSigner keys realm.tokenSigningAlgorithm)
  let v := profileEvidence realm request now
  match preflightCandidateKeyMetadata p v candidateToken none with
  | (.error error, _) => do
    recordAdvancementRejected realm none none
    Program.throw error
  | (.ok metadata, accepted) =>
    match metadata.lineageId with
    | none => do
      recordAdvancementRejected realm none (some metadata.proposedPosition)
      Program.throw (invalidGrant "the candidate predecessor checkpoint has no lineage identifier")
    | some lineageId =>
      if metadata.expiresAt ≤ now then do
        recordAdvancementRejected realm (some lineageId) (some metadata.proposedPosition)
        Program.throw (invalidGrant "the candidate predecessor checkpoint is expired")
      else
        -- The settled token inherits the absolute expiry of the checkpoint it advances.
        match (p.settle (settlementAuthority p keys v signer) candidateToken
            (advanceContext realm now metadata lineageId) accepted).1 with
        | .error error => do
          recordAdvancementRejected realm (some lineageId) (some metadata.proposedPosition)
          Program.throw (invalidGrant ("the candidate was rejected: " ++ p.displayReject error))
        | .ok issued => do
          let lineageId ← Program.ofExcept (okOr issued.checkpoint.lineageId
            (serverError "the settled checkpoint has no lineage identifier to audit"))
          record (advancedEvent realm lineageId issued)
          pure (tokenResponse p issued)

/-! ## The endpoint -/

/-- What a request asks for. -/
inductive Grant where
  | initial (accessToken : String) (form : Map String)
  | advancement (candidateToken : String)

/-- The part of `exchange` before it starts either flow. -/
def grantOf (body : Bytes) : Except ExchangeError Grant := do
  let form ← parseForm body
  let grant ← require form "grant_type"
  ensure (grant = GRANT_TOKEN_EXCHANGE)
    (invalidRequest ("unsupported grant_type `" ++ grant ++ "`"))
  ensure (¬(form.lookup "requested_token_type").any fun value => value ≠ p.TOKEN_TYPE_PIC)
    (invalidTarget ("requested_token_type must be `" ++ p.TOKEN_TYPE_PIC ++ "`"))
  let subjectTokenType ← require form "subject_token_type"
  let subjectToken ← require form "subject_token"
  if subjectTokenType = OAUTH_ACCESS_TOKEN_TYPE then pure (.initial subjectToken form)
  else if subjectTokenType = p.TOKEN_TYPE_PIC then do
    ensure (¬("continuity_proposal" ∈ form ∨ "continuity_proposal_type" ∈ form)) (invalidRequest
      "Profile 0.2 PIC-to-PIC advancement omits continuity_proposal")
    pure (.advancement subjectToken)
  else .error (unsupportedTokenType
    ("unsupported subject_token_type `" ++ subjectTokenType ++ "`"))

/-- `TokenEndpoint::exchange`. -/
def exchange (realm : TokenEndpoint) (request : Request) (body : Bytes) :
    Exchange TokenExchangeResponse := do
  match ← Program.ofExcept (grantOf p body) with
  | .initial accessToken form => exchangeInitial p realm request accessToken form
  | .advancement candidateToken => advance p realm request candidateToken

end PicX.Realm
