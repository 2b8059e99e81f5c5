import PicX.Base.Value
import PicX.Keys.Core

/-!
# What a realm takes from other crates

The protocol itself is the `pic` crate: its artifacts, how a token is issued and how a candidate
is settled. `base64`, `serde_json`, `ring` and `regex` are the other crates on the path of a
request. None of them is part of the repository, so their functions are the fields of `Crates` and
of `Pic`, over a type `A` for the authority map of a checkpoint. The errors of these crates stand
for the text they display.

A `Cose` is what a program can ask of a signed artifact it decoded. Signing can fail and its
answer can change between two calls, because the ring is read each time: a signer answers the
`n`-th signature of a request.
-/

namespace PicX.Realm

open PicX

/-! ## Keys and signatures -/

/-- A key that checks a signature over some data. -/
abbrev ArtifactVerifier := Bytes → Bytes → Bool

inductive SigningAlgorithm where
  | edDSA
  | es256
  | es384
  deriving DecidableEq, Repr

inductive CoseError where
  | invalidKey (cause : String)
  | algorithmMismatch (expected got : String)
  | verificationFailed
  deriving DecidableEq, Repr

/-- Why settlement refuses a candidate. -/
inductive RejectReason where
  | porRejected (description : String)
  /-- A reason of the protocol crate's own. -/
  | protocol (description : String)
  deriving DecidableEq, Repr

/-- What a key of some shape produces. -/
structure ExpectedAlgorithms where
  jose : String
  cose : Option SigningAlgorithm
  deriving DecidableEq, Repr

/-- A signer of artifacts: what it announces, and its answer to the `n`-th call. -/
structure ArtifactSigner where
  kid : String
  coseAlgorithm : SigningAlgorithm
  jwsAlgorithm : String
  sign : Nat → Bytes → Except CoseError Bytes

/-! ## Authority -/

inductive AuthorityValue where
  | one (value : String)
  | many (values : List String)
  deriving DecidableEq, Repr

/-- One executable privilege. -/
structure Invariant where
  scope : String
  operation : String
  resourceType : String
  resourceId : String
  deriving DecidableEq, Repr

structure LogicalAuthority where
  identityContext : Option (Map AuthorityValue)
  invariants : List Invariant
  executionContract : Map AuthorityValue

/-- An entry of a denormalised contract. -/
inductive TupleValue where
  | text (value : String)
  | membership (value : Bool)
  deriving DecidableEq, Repr

structure InitialContinuityProposal where
  executionContract : Map AuthorityValue

/-! ## Artifacts -/

/-- A checkpoint: how far a lineage has come, and under which authority. -/
structure PicPcaPayload (A : Type) where
  position : Nat
  contextOfAuthority : A
  nextChallenge : Bytes
  lineageId : Option String
  expiresAt : Option Int
  deriving DecidableEq, Repr

/-- Executor-profile evidence, under the wire name of the profile. -/
structure ProofOfRelationship where
  porType : String
  evidence : Bytes
  deriving DecidableEq, Repr

structure PicTransitionPayload where
  position : Nat
  proofOfRelationship : ProofOfRelationship
  previousChallenge : Bytes
  nextChallenge : Bytes
  deriving DecidableEq, Repr

structure PicContinuityPayload where
  /-- The checkpoint at the root, as it was signed. -/
  pca : Bytes
  /-- The one transition of a candidate, or why there is not exactly one. -/
  candidateTransition : Except String Bytes

/-- A signed artifact that was decoded. -/
structure Cose (π : Type) where
  algorithm : Option SigningAlgorithm
  kid : Option String
  payloadUnverified : Except String π
  /-- Whether a check of the signed bytes and the signature passes. -/
  verifyWith : (Bytes → Bytes → Except CoseError Unit) → Except CoseError Unit

/-- The claims of a PIC Token that a realm reads. -/
structure PicTokenClaims where
  jti : Option String
  exp : Option Int
  iat : Option Int
  root : String
  deriving DecidableEq, Repr

structure DecodedToken where
  alg : String
  claims : PicTokenClaims
  deriving DecidableEq, Repr

/-! ## Settlement -/

/-- What the JWT around a checkpoint says. -/
structure SettlementContext where
  iss : String
  sub : Option String
  aud : Option String
  iat : Option Int
  exp : Option Int
  jti : Option String
  deriving DecidableEq, Repr

structure IssuedPicToken (A : Type) where
  token : String
  pcaBytes : Bytes
  checkpoint : PicPcaPayload A

/-- The deployment's side of settlement. Evidence is validated by a procedure that keeps a state
`σ`, which the conformance policy reads. -/
structure SettlementAuthority (A σ : Type) where
  isCurrentCheckpoint : Bytes → Bool
  validate : ProofOfRelationship → σ → Except RejectReason ArtifactVerifier × σ
  isRevoked : PicPcaPayload A → Bytes → Bool
  conformance : PicPcaPayload A → PicTransitionPayload → σ → Bool
  requestBinding : PicTransitionPayload → Bool
  realm : ArtifactSigner

/-! ## The crates -/

/-- `base64`, `serde_json`, `ring` and `regex`, and of the `pic` crate its readers of keys and the
order of its invariants. -/
structure Crates where
  /-- `URL_SAFE_NO_PAD.encode`. -/
  base64urlEncode : Bytes → String
  /-- `URL_SAFE_NO_PAD.decode`. -/
  base64urlDecode : String → Except String Bytes
  valueFromSlice : Bytes → Except String Value
  valueToString : Value → String
  sha256 : Bytes → Bytes
  /-- `RSA_PKCS1_2048_8192_SHA256`, by the DER of the key. -/
  rsaVerify : Bytes → ArtifactVerifier
  publicKeyFromJwk : Value → Except String ArtifactVerifier
  expectedAlgorithmsForJwk : Value → Except String ExpectedAlgorithms
  /-- A pattern that was compiled gives the named groups of a text it matches. -/
  regexNew : String → Except String (String → Option (String → Option String))
  /-- `Ord` of `Invariant`. -/
  invariantOrder : LinearOrder Invariant

/-- The `pic` crate, over the authority map `A`. -/
structure Pic (A : Type) extends Crates where
  TOKEN_TYPE_PIC : String
  PROPOSAL_TYPE_CONTINUITY_INITIAL : String
  /-- The evidence a validator accepts when it does not say. -/
  acceptedType : String
  displayReject : RejectReason → String
  displayAlgorithm : SigningAlgorithm → String
  fromContinuityProposal : String → Except String InitialContinuityProposal
  fromLogical : LogicalAuthority → Except String A
  /-- The entries of the execution contract of an authority, in their order. -/
  executionContract : A → List (String × TupleValue)
  decodeToken : String → Except String DecodedToken
  rootBytes : PicTokenClaims → Except String Bytes
  continuityFromBytes : Bytes → Except String (Cose PicContinuityPayload)
  transitionFromBytes : Bytes → Except String (Cose PicTransitionPayload)
  pcaFromBytes : Bytes → Except String (Cose (PicPcaPayload A))
  issueSettled : PicPcaPayload A → ArtifactSigner → SettlementContext →
    Except String (IssuedPicToken A)
  settle : {σ : Type} → SettlementAuthority A σ → String → SettlementContext → σ →
    Except RejectReason (IssuedPicToken A) × σ

end PicX.Realm
