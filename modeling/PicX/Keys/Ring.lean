import Mathlib.Algebra.Group.Nat.Defs
import Mathlib.Data.List.AList
import Mathlib.Data.List.MinMax
import PicX.Base.Program
import PicX.Keys.Core
import PicX.Keys.Encoding

/-!
# The key ring (`keys.rs`)

`DirectoryKeyManager` as a program over a world: what `ring.json` says, the private key files, the
parsed keys a process holds in memory, and how often the random source was drawn from. As for the
audit sink, every operation on the file system is an `Op` whose outcome is decided from outside.

The ring file stands for the value it describes, which is what `serde_json` reads back from the
text it wrote; its staged copy is written and never read. Policies count whole seconds, as the
configuration reads them. The locks are not modelled: calls are taken one after the other.
-/

namespace PicX.Keys

open PicX Program Encoding

def CURVE : String := "Ed25519"

def ALGORITHM : String := "EdDSA"

def P256_CURVE : String := "P-256"

def P256_ALGORITHM : String := "ES256"

def PEM_LABEL : String := "PRIVATE KEY"

def RING_FILE : String := "ring.json"

/-! ## Numbers -/

/-- The largest `u64`. -/
def U64_MAX : Nat := 2 ^ 64 - 1

/-- `u64::saturating_add`. -/
def saturatingAdd (a b : Nat) : Nat := min (a + b) U64_MAX

/-! ## Data -/

/-- Which signature algorithm a ring produces. -/
inductive RingAlgorithm where
  | ed25519
  | es256
  deriving DecidableEq, Repr

/-- The JOSE `alg` a signature names. -/
def RingAlgorithm.jose : RingAlgorithm → String
  | .ed25519 => ALGORITHM
  | .es256 => P256_ALGORITHM

/-- How long each key spends in each state, in seconds. -/
structure KeyPolicy where
  publishAhead : Nat
  rotateEvery : Nat
  retain : Nat
  verifyRetain : Nat
  deriving DecidableEq, Repr

/-- One key, and where it is in its life. -/
structure Entry where
  kid : String
  state : KeyState
  algorithm : RingAlgorithm
  publicKey : String
  createdAt : Nat
  activatedAt : Option Nat
  retiredAt : Option Nat
  deriving DecidableEq, Repr

/-- The state of the whole ring, as it is written to disk. -/
structure Ring where
  version : Nat
  keys : List Entry
  deriving DecidableEq, Repr

def Ring.default : Ring := { version := 0, keys := [] }

/-- A private key that was read, with its public half. -/
structure SigningPair where
  algorithm : RingAlgorithm
  pkcs8 : Bytes
  publicKey : Bytes
  deriving DecidableEq, Repr

/-- What the ring takes from the `ring` crate. A draw of the random source has a number. -/
structure Crates where
  sha256 : Bytes → Bytes
  generatePkcs8 : RingAlgorithm → Nat → Bytes
  /-- The public half of a PKCS#8 document, or why it cannot be read. -/
  fromPkcs8 : RingAlgorithm → Bytes → Except String Bytes
  signEd25519 : Bytes → Bytes → Bytes
  signEs256 : Bytes → Nat → Bytes → Bytes

/-- A manager over the keys in `directory`. -/
structure DirectoryKeyManager where
  directory : String
  policy : KeyPolicy
  algorithm : RingAlgorithm
  deriving DecidableEq, Repr

/-- What a manager acts on. -/
structure World where
  /-- What `ring.json` says, when it is there. -/
  ring : Option Ring
  /-- The private key files, by the key they are named after. -/
  pems : AList (fun _ : String => Bytes)
  /-- The parsed private keys in memory. -/
  signers : AList (fun _ : String => SigningPair)
  /-- How often the random source was drawn from. -/
  drawn : Nat

/-- The operations of a manager. A pass creates at most one key of each kind. -/
inductive Op where
  | readRing
  | readRingAgain
  | createDir (signing : Bool)
  | restrictDir (signing : Bool)
  | generate (signing : Bool)
  | createKey (signing : Bool)
  | writeKey (signing : Bool)
  | restrictKey (signing : Bool)
  | readKey
  | drawEntropy
  | removeKey (kid : String)
  | stageRing
  | replaceRing
  deriving DecidableEq, Repr

abbrev Action (α : Type) := Program Op World KeyError α

variable (c : Crates) (m : DirectoryKeyManager)

def DirectoryKeyManager.ringPath : String := join m.directory RING_FILE

def DirectoryKeyManager.keyPath (kid : String) : String := join m.directory (kid ++ ".pem")

/-- An operation that leaves the world as it is. -/
def check (o : Op) (refuse : String → KeyError) : Action Unit :=
  perform o (fun w => .ok () w) (fun _ reason w => .error (refuse reason) w)

def restrict (o : Op) (path : String) : Action Unit :=
  check o fun reason => .backend ("restricting " ++ path ++ ": " ++ reason)

/-! ## Names -/

/-- Splits a SEC1 uncompressed P-256 point into the two coordinates a JWK publishes. -/
def splitP256Point (publicKey : String) : String × String :=
  match fromBase64url publicKey with
  | none => ("", "")
  | some point =>
    if point.length ≠ 65 ∨ point.head? ≠ some 4 then ("", "")
    else (base64url ((point.drop 1).take 32), base64url ((point.drop 33).take 32))

/-- The members RFC 7638 requires of a key, in lexicographic order and without whitespace. -/
def canonical (algorithm : RingAlgorithm) (publicKey : String) : String :=
  match algorithm with
  | .ed25519 =>
    "\x7b\"crv\":\"" ++ CURVE ++ "\",\"kty\":\"OKP\",\"x\":\"" ++ publicKey ++ "\"\x7d"
  | .es256 =>
    let (x, y) := splitP256Point publicKey
    "\x7b\"crv\":\"" ++ P256_CURVE ++ "\",\"kty\":\"EC\",\"x\":\"" ++ x ++ "\",\"y\":\"" ++ y ++
      "\"\x7d"

/-- The thumbprint of a public key, which is what names it. -/
def thumbprint (algorithm : RingAlgorithm) (publicKey : String) : String :=
  base64url (c.sha256 (utf8 (canonical algorithm publicKey)))

/-- A key in the form a client fetches it. -/
def Entry.toJwk (e : Entry) : Jwk :=
  match e.algorithm with
  | .ed25519 => Jwk.okp e.kid CURVE ALGORITHM e.publicKey
  | .es256 =>
    let (x, y) := splitP256Point e.publicKey
    Jwk.ec e.kid P256_CURVE P256_ALGORITHM x y

/-! ## Reading and writing -/

/-- Reads the ring, treating a directory with nothing in it as an empty one. -/
def readRing (o : Op) : Action Ring :=
  perform o (fun w => .ok (w.ring.getD .default) w)
    (fun _ reason w => .error (.unavailable reason) w)

/-- Replaces the ring file, so a reader sees one whole version or the other. -/
def writeRing (ring : Ring) : Action Unit := do
  check .stageRing fun reason => .backend ("writing " ++ m.ringPath ++ ".tmp: " ++ reason)
  perform .replaceRing (fun w => .ok () { w with ring := some ring })
    (fun _ reason w => .error (.backend ("replacing " ++ m.ringPath ++ ": " ++ reason)) w)

/-- `fs::write` of a private key. -/
def writeKey (signing : Bool) (kid : String) (text : Bytes) : Action Unit := do
  let refuse (reason : String) : KeyError :=
    .backend ("writing " ++ m.keyPath kid ++ ": " ++ reason)
  perform (.createKey signing) (fun w => .ok () { w with pems := w.pems.insert kid [] })
    (fun _ reason w => .error (refuse reason) w)
  perform (.writeKey signing) (fun w => .ok () { w with pems := w.pems.insert kid text })
    (fun n reason w => .error (refuse reason) { w with pems := w.pems.insert kid (text.take n) })

/-- The next document of the random source. -/
def generate (signing : Bool) : Action Bytes :=
  perform (.generate signing)
    (fun w => .ok (c.generatePkcs8 m.algorithm w.drawn) { w with drawn := w.drawn + 1 })
    (fun _ reason w => .error (.backend ("generating a key: " ++ reason)) w)

/-- The entry of a key that has just been created. -/
def newEntry (now : Nat) (signing : Bool) (publicKey : Bytes) : Entry where
  kid := thumbprint c m.algorithm (base64url publicKey)
  state := if signing then .active else .published
  algorithm := m.algorithm
  publicKey := base64url publicKey
  createdAt := now
  activatedAt := if signing then some now else none
  retiredAt := none

/-- Creates a key and writes its private half, returning the entry that describes it. -/
def create (now : Nat) (signing : Bool) : Action Entry := do
  check (.createDir signing) fun reason =>
    .backend ("creating " ++ m.directory ++ ": " ++ reason)
  restrict (.restrictDir signing) m.directory
  let pkcs8 ← generate c m signing
  match c.fromPkcs8 m.algorithm pkcs8 with
  | .error e => throw (.backend ("reading a key: " ++ e))
  | .ok publicKey =>
    let entry := newEntry c m now signing publicKey
    writeKey m signing entry.kid (utf8 (pem PEM_LABEL pkcs8))
    restrict (.restrictKey signing) (m.keyPath entry.kid)
    pure entry

/-- Forgets a key entirely: the cached signer, and the file. -/
def forget (kid : String) : Action Unit := do
  modify fun w => { w with signers := w.signers.erase kid }
  perform (.removeKey kid) (fun w => .ok () { w with pems := w.pems.erase kid })
    (fun _ reason w => .error (.backend ("removing the key `" ++ kid ++ "`: " ++ reason)) w)

/-! ## Publishing and signing -/

def publicKeys : Action (List Jwk) := do
  let ring ← readRing .readRing
  pure (ring.keys.map Entry.toJwk)

def activeKeyId : Action String := do
  let ring ← readRing .readRing
  match ring.keys.find? fun e => e.state = .active with
  | some e => pure e.kid
  | none => throw (.notReady ("no key in " ++ m.directory ++ " is active yet"))

/-- The text of the private half of `kid`. -/
def readKey (kid : String) : Action String :=
  perform .readKey
    (fun w => match w.pems.lookup kid with
      | none => .error (.notReady ("the ring names the key `" ++ kid ++ "` but " ++ m.keyPath kid ++
          " is not there")) w
      | some bytes => match fromUtf8 bytes with
        | none => .error (.unavailable "stream did not contain valid UTF-8") w
        | some text => .ok text w)
    (fun _ reason w => .error (.unavailable reason) w)

/-- Parses the private half of `kid`, under the algorithm its entry names. -/
def parseKey (kid text : String) : Action SigningPair :=
  match fromPem text with
  | none => throw (.backend (m.keyPath kid ++ " is not a PEM private key"))
  | some pkcs8 => do
    let ring ← readRing .readRingAgain
    let algorithm := ((ring.keys.find? fun e => e.kid = kid).map Entry.algorithm).getD m.algorithm
    match c.fromPkcs8 algorithm pkcs8 with
    | .error e => throw (.backend ("reading a key: " ++ e))
    | .ok publicKey =>
      let pair : SigningPair := { algorithm, pkcs8, publicKey }
      modify fun w => { w with signers := w.signers.insert kid pair }
      pure pair

/-- The parsed private key for `kid`, read the first time it is asked for. -/
def signer (kid : String) : Action SigningPair := do
  let w ← get
  match w.signers.lookup kid with
  | some pair => pure pair
  | none => do
    let text ← readKey m kid
    parseKey c m kid text

/-- Ed25519 needs no entropy; ECDSA draws some for each signature. -/
def SigningPair.sign (pair : SigningPair) (payload : Bytes) : Action Bytes :=
  match pair.algorithm with
  | .ed25519 => pure (c.signEd25519 pair.pkcs8 payload)
  | .es256 =>
    perform .drawEntropy
      (fun w => .ok (c.signEs256 pair.pkcs8 w.drawn payload) { w with drawn := w.drawn + 1 })
      (fun _ reason w => .error (.backend ("signing: " ++ reason)) w)

/-- Signs `payload` under the active key. -/
def sign (payload : Bytes) : Action Signature := do
  let keyId ← activeKeyId m
  let pair ← signer c m keyId
  let bytes ← pair.sign c payload
  pure { keyId, algorithm := pair.algorithm.jose, bytes }

/-! ## The stages of a pass -/

/-- The keys a pass works on, and what it has done to them so far. -/
structure Pass where
  keys : List Entry
  report : Maintenance
  deriving DecidableEq, Repr

/-- An entry that stops signing. -/
def Entry.retire (now : Nat) (e : Entry) : Entry :=
  { e with state := .retired, retiredAt := some now }

/-- An entry that starts signing. -/
def Entry.activate (now : Nat) (e : Entry) : Entry :=
  { e with state := .active, activatedAt := some now }

/-- Every key that signs stops signing. -/
def retireActive (now : Nat) (keys : List Entry) : List Entry :=
  keys.map fun e => if e.state = .active then e.retire now else e

def countActive (keys : List Entry) : Nat := keys.countP fun e => e.state = .active

/-- The first entry called `kid` starts signing. -/
def activateKey (now : Nat) (kid : String) : List Entry → List Entry
  | [] => []
  | e :: rest => if e.kid = kid then e.activate now :: rest else e :: activateKey now kid rest

def Pass.retireActive (now : Nat) (p : Pass) : Pass where
  keys := Keys.retireActive now p.keys
  report := { p.report with retired := p.report.retired + countActive p.keys }

def Pass.activateKey (now : Nat) (kid : String) (p : Pass) : Pass where
  keys := Keys.activateKey now kid p.keys
  report := { p.report with
    activated := p.report.activated + if p.keys.any (fun e => e.kid = kid) then 1 else 0 }

/-- A key that signs at once is put on the ring. -/
def Pass.pushActive (e : Entry) (p : Pass) : Pass where
  keys := p.keys ++ [e]
  report := { p.report with
    published := p.report.published + 1, activated := p.report.activated + 1 }

/-- A ring with nothing in it: the first key signs at once. -/
def bootstrap (now : Nat) (p : Pass) : Action Pass :=
  if p.keys.isEmpty then do
    let e ← create c m now true
    pure (p.pushActive e)
  else pure p

def activeIsCurrent (keys : List Entry) : Bool :=
  keys.any fun e => e.state = .active ∧ e.algorithm = m.algorithm

/-- A change of algorithm: a key of the new kind signs now. -/
def migrate (now : Nat) (p : Pass) : Action Pass :=
  if !activeIsCurrent m p.keys && !p.keys.isEmpty then do
    let p := p.retireActive now
    let e ← create c m now true
    pure (p.pushActive e)
  else pure p

/-- The published key that is due to take over: the oldest, and the first of those. -/
def dueKey (now : Nat) (keys : List Entry) : Option String :=
  ((keys.filter fun e => e.state = .published ∧
    saturatingAdd e.createdAt m.policy.publishAhead ≤ now).argmin Entry.createdAt).map Entry.kid

/-- Every published key whose window has passed takes over, one round of the loop for each unit of
`fuel`; `none` when the loop is still going. -/
def catchUp (now : Nat) : Nat → Pass → Option Pass
  | 0, _ => none
  | fuel + 1, p =>
    match dueKey m now p.keys with
    | none => some p
    | some kid => catchUp now fuel ((p.retireActive now).activateKey now kid)

/-- The loop, run for one round more than there are keys. A loop that goes on after that goes on
for ever, and nothing comes after it. -/
def catchUpAll (now : Nat) (p : Pass) : Action Pass :=
  match catchUp m now (p.keys.length + 1) p with
  | some p' => pure p'
  | none => fun _ w => .crash w

/-- Whether the key that signs is to be replaced within `publish_ahead`. -/
def successorDue (now : Nat) (keys : List Entry) : Bool :=
  ((keys.find? fun e => e.state = .active).bind Entry.activatedAt).any fun activated =>
    saturatingAdd activated m.policy.rotateEvery - m.policy.publishAhead ≤ now

/-- Whether a successor is already on the ring. -/
def waiting (keys : List Entry) : Bool := keys.any fun e => e.state = .published

/-- The successor is created before the incumbent is due to stop. -/
def succeed (now : Nat) (p : Pass) : Action Pass :=
  if successorDue m now p.keys && !waiting p.keys then do
    let e ← create c m now false
    pure { keys := p.keys ++ [e],
           report := { p.report with published := p.report.published + 1 } }
  else pure p

/-! ## Ageing -/

/-- How long the public half stays published. -/
def KeyPolicy.verifyRetained (p : KeyPolicy) : Nat := max p.verifyRetain p.retain

def KeyPolicy.hasArchivePhase (p : KeyPolicy) : Bool := p.retain < p.verifyRetained

/-- A retired key whose private half is no longer kept. -/
def retentionOver (now : Nat) (e : Entry) : Bool :=
  e.state = .retired ∧ e.retiredAt.any fun t => saturatingAdd t m.policy.retain ≤ now

/-- An archived key that nothing has to be verified with any more. -/
def archiveOver (now : Nat) (e : Entry) : Bool :=
  e.state = .archived ∧ e.retiredAt.any fun t => saturatingAdd t m.policy.verifyRetained ≤ now

def toArchive (now : Nat) (keys : List Entry) : List String :=
  (keys.filter fun e => m.policy.hasArchivePhase && retentionOver m now e).map Entry.kid

def toForget (now : Nat) (keys : List Entry) : List String :=
  (keys.filter fun e => (!m.policy.hasArchivePhase && retentionOver m now e) ||
    archiveOver m now e).map Entry.kid

/-- The private half of every key in the list goes. -/
def forgetAll : List String → Action Unit
  | [] => pure ()
  | kid :: rest => do
    forget kid
    forgetAll rest

/-- An entry after the two-stage end of its life: without its private half, or gone. -/
def agedEntry (archiving forgetting : List String) (e : Entry) : Option Entry :=
  let e := if e.kid ∈ archiving then { e with state := .archived } else e
  if e.kid ∈ forgetting then none else some e

def aged (now : Nat) (keys : List Entry) : List Entry :=
  keys.filterMap (agedEntry (toArchive m now keys) (toForget m now keys))

def Pass.aged (now : Nat) (p : Pass) : Pass where
  keys := Keys.aged m now p.keys
  report := { p.report with
    archived := p.report.archived + p.keys.countP fun e => e.kid ∈ toArchive m now p.keys
    forgotten := p.report.forgotten + (toForget m now p.keys).length }

/-- The end of a key's life. -/
def age (now : Nat) (p : Pass) : Action Pass := do
  forgetAll (toArchive m now p.keys ++ toForget m now p.keys)
  pure (p.aged m now)

/-- Moves every key that is due to its next state, creating and forgetting keys as the policy
says. -/
def maintain (now : Nat) : Action Maintenance := do
  let ring ← readRing .readRing
  let p ← bootstrap c m now { keys := ring.keys, report := .default }
  let p ← migrate c m now p
  let p ← catchUpAll m now p
  let p ← succeed c m now p
  let p ← age m now p
  if !p.report.isEmpty then writeRing m { ring with keys := p.keys } else pure ()
  pure p.report

/-! ## Runs -/

/-- What can be asked of a manager; `restart` puts a new one over the same directory. -/
inductive Call where
  | maintain
  | sign (payload : Bytes)
  | restart

/-- One call: on which manager, at which reading of its clock, and how each operation turns out. -/
structure Step where
  manager : DirectoryKeyManager
  now : Nat
  call : Call
  outcome : Op → Outcome

/-- What a process that died leaves: the memory is gone. -/
def afterwards {α : Type} : Ending World KeyError α → World
  | .ok _ w | .error _ w => w
  | .crash w => { w with signers := ∅ }

/-- The world after a call. -/
def Step.run (s : Step) (w : World) : World :=
  match s.call with
  | .maintain => afterwards (Keys.maintain c s.manager s.now s.outcome w)
  | .sign payload => afterwards (Keys.sign c s.manager payload s.outcome w)
  | .restart => { w with signers := ∅ }

end PicX.Keys
