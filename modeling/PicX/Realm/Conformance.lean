import PicX.Realm.Por

/-!
# Trusted checkpoints and contract conformance (`checkpoints.rs`, `conformance.rs`)

A checkpoint is the realm's when a key the realm still publishes verifies its signature. A
workload conforms to a checkpoint when the claims it disclosed satisfy every entry of the
checkpoint's execution contract.
-/

namespace PicX.Realm

open PicX

/-- The realm's token ring, as one request sees it. -/
structure KeyManager where
  activeKeyId : Except KeyError String
  publicKeys : Except KeyError (List Jwk)
  /-- The answer to the `n`-th signature of the request. -/
  sign : Nat → Bytes → Except KeyError Signature

/-! ## Checkpoints -/

/-- An optional text as JSON. -/
def optionalString : Option String → Value
  | some s => .string s
  | none => .null

/-- Whether a published key verifies a checkpoint. -/
def verifies {π : Type} (c : Crates) (cose : Cose π) (jwk : Jwk) : Bool :=
  match c.publicKeyFromJwk (.object [("kty", .string jwk.kty), ("crv", optionalString jwk.crv),
      ("x", .string jwk.x), ("y", optionalString jwk.y)]) with
  | .error _ => false
  | .ok key => (cose.verifyWith fun data signature =>
      if key data signature then .ok () else .error .verificationFailed).isOk

/-- Accepts a checkpoint when this realm's own signature verifies over it. -/
def isCurrentCheckpoint {A : Type} (p : Pic A) (keys : KeyManager) (exactPcaBytes : Bytes) : Bool :=
  match p.pcaFromBytes exactPcaBytes with
  | .error _ => false
  | .ok cose => match keys.publicKeys with
    | .error _ => false
    | .ok published =>
      (published.filter fun jwk => cose.kid.all fun kid => jwk.kid = kid).any
        (verifies p.toCrates cose)

/-! ## Conformance -/

/-- Why a transition failed conformance. -/
inductive Mismatch where
  | missing (key required : String)
  | contradicts (key required disclosed : String)
  | saysNothing
  deriving DecidableEq, Repr

variable (c : Crates)

/-- A text, or a collection with that text in it. -/
def matchesText (disclosed : Value) (required : String) : Bool :=
  match disclosed with
  | .string value => value = required
  | .array values => values.any fun item => item.asStr = some required
  | _ => false

def containsMember (disclosed : Value) (required : String) : Bool := matchesText disclosed required

def render : Value → String
  | .string text => text
  | other => c.valueToString other

/-- One entry of the contract against the disclosed claims. -/
def checkEntry (claims : Map Value) (key : String) : TupleValue → Except Mismatch Unit
  | .text required => do
    let disclosed ← okOr (claims.lookup key) (.missing key required)
    ensure (matchesText disclosed required) (.contradicts key required (render c disclosed))
  | .membership _ =>
    match splitOnce ':' key with
    | none => .error (.missing key "membership")
    | some (name, required) => do
      let disclosed ← okOr (claims.lookup name) (.missing name required)
      ensure (containsMember disclosed required) (.contradicts name required (render c disclosed))

/-- Whether the disclosed claims satisfy every entry. -/
def checkContract (claims : Map Value) : List (String × TupleValue) → Except Mismatch Unit
  | [] => pure ()
  | (key, value) :: rest => do
    checkEntry c claims key value
    checkContract claims rest

/-- The conformance of the workload whose evidence was accepted last. -/
def reason {A : Type} (p : Pic A) (accepted : Option Accepted) (checkpoint : PicPcaPayload A) :
    Except Mismatch Unit :=
  match accepted with
  | none => .error .saysNothing
  | some entry => checkContract p.toCrates entry.processed.claims
      (p.executionContract checkpoint.contextOfAuthority)

end PicX.Realm
