import PicX.Base.Text

/-!
# Keys and signatures (`pic-x-core/src/keys.rs`)

Where a key is in its life, the form it is published in, a signature, and the report of one pass
of the lifecycle.
-/

namespace PicX

/-- Where a key is in its life. -/
inductive KeyState where
  /-- In the key set, not signing yet. -/
  | published
  /-- Signing. -/
  | active
  /-- In the key set, no longer signing. -/
  | retired
  /-- In the key set for verification only, without its private half. -/
  | archived
  deriving DecidableEq, Repr

/-- One public key in the form a client fetches it. -/
structure Jwk where
  kid : String
  kty : String
  crv : Option String
  x : String
  y : Option String
  alg : String
  usage : String
  deriving DecidableEq, Repr

/-- An Edwards-curve public key. -/
def Jwk.okp (kid curve algorithm x : String) : Jwk :=
  { kid, kty := "OKP", crv := some curve, x, y := none, alg := algorithm, usage := "sig" }

/-- An elliptic-curve public key. -/
def Jwk.ec (kid curve algorithm x y : String) : Jwk :=
  { kid, kty := "EC", crv := some curve, x, y := some y, alg := algorithm, usage := "sig" }

/-- A signature, and the name of the key a verifier needs to check it. -/
structure Signature where
  keyId : String
  algorithm : String
  bytes : Bytes
  deriving DecidableEq, Repr

/-- What one pass of the lifecycle did. -/
structure Maintenance where
  published : Nat
  activated : Nat
  retired : Nat
  archived : Nat
  forgotten : Nat
  deriving DecidableEq, Repr

/-- A pass that did nothing. -/
def Maintenance.default : Maintenance := ⟨0, 0, 0, 0, 0⟩

/-- Whether anything changed. -/
def Maintenance.isEmpty (m : Maintenance) : Bool :=
  m.published = 0 && m.activated = 0 && m.retired = 0 && m.archived = 0 && m.forgotten = 0

/-- What can go wrong with a key, with the cause as the text a reader sees. -/
inductive KeyError where
  | notReady (detail : String)
  | unavailable (cause : String)
  | backend (cause : String)
  deriving DecidableEq, Repr

def KeyError.display : KeyError → String
  | .notReady detail => "no key is signing yet: " ++ detail
  | .unavailable cause => "the key store is unavailable: " ++ cause
  | .backend cause => "the key store failed: " ++ cause

end PicX
