import PicX.Base.Fallible
import PicX.Base.Net
import PicX.Base.Trim
import PicX.Realm.Profile

/-!
# The values of settings (`pic-x-core/src/{config,logging,peer,limits,tls}.rs`)

Every setting arrives as text and is read as its type here: booleans, durations, counts, sizes,
the names of levels and providers, the peers of an allow list and the address blocks of the
limits. A text that cannot be read is an error that says so.
-/

namespace PicX.Core

/-! ## Errors -/

/-- An error and the contexts around it, the outermost first (`anyhow::Error`). -/
abbrev Error := List String

abbrev Result (α : Type) := Except Error α

def bail {α : Type} (message : String) : Result α := .error [message]

/-- `Context::with_context`. -/
def withContext {α : Type} (context : String) : Result α → Result α := mapErr (context :: ·)

theorem withContext_ok {α : Type} {context : String} {x : Result α} {a : α} :
    withContext context x = .ok a ↔ x = .ok a := mapErr_ok

/-! ## Words -/

inductive LogLevel where
  | error
  | warn
  | info
  | debug
  | trace
  deriving DecidableEq, Repr

def LogLevel.parse (value : String) : Result LogLevel :=
  match toAsciiLowercase (trim value) with
  | "error" => .ok .error
  | "warn" | "warning" => .ok .warn
  | "info" => .ok .info
  | "debug" => .ok .debug
  | "trace" => .ok .trace
  | other => bail s!"`{other}` is not a log level: expected one of error, warn, info, debug, trace"

inductive LogFormat where
  | json
  | terminal
  deriving DecidableEq, Repr

def LogFormat.parse (value : String) : Result LogFormat :=
  match toAsciiLowercase (trim value) with
  | "json" => .ok .json
  | "terminal" | "text" | "pretty" => .ok .terminal
  | other => bail s!"`{other}` is not a log format: expected one of json, terminal"

/-- Where secret material is resolved from. -/
inductive SecretProvider where
  | none
  | directory
  | environment
  deriving DecidableEq, Repr

def SecretProvider.parse (value : String) : Result SecretProvider :=
  match toAsciiLowercase (trim value) with
  | "none" | "" => .ok .none
  | "directory" | "dir" | "file" => .ok .directory
  | "environment" | "env" => .ok .environment
  | other =>
    bail s!"`{other}` is not a secret provider: expected one of none, directory, environment"

inductive AuditDestination where
  | tracing
  | file
  deriving DecidableEq, Repr

def AuditDestination.parse (value : String) : Result AuditDestination :=
  match toAsciiLowercase (trim value) with
  | "tracing" | "log" | "" => .ok .tracing
  | "file" | "directory" => .ok .file
  | other => bail s!"`{other}` is not an audit destination: expected one of tracing, file"

/-- The lowest protocol version a listener will accept. -/
inductive TlsVersion where
  | v1_2
  | v1_3
  deriving DecidableEq, Repr

def TlsVersion.parse (value : String) : Result TlsVersion :=
  match trimStartMatches (fun c => c = 'v' ∨ c = 'V') (trim value) with
  | "1.2" | "1_2" | "12" => .ok .v1_2
  | "1.3" | "1_3" | "13" => .ok .v1_3
  | other => bail s!"`{other}` is not a TLS version: expected one of 1.2, 1.3"

def parseBool (value : String) : Result Bool :=
  match toAsciiLowercase (trim value) with
  | "true" | "yes" | "on" | "1" => .ok true
  | "false" | "no" | "off" | "0" => .ok false
  | other => bail s!"`{other}` is not a boolean: expected true or false"

def parseTokenInitialExpiryPolicy (value : String) : Result Realm.TokenInitialExpiryPolicy :=
  match trim value with
  | "later" => .ok .later
  | "pic" => .ok .pic
  | "oauth" => .ok .oauth
  | other =>
    bail s!"`{other}` is not an initial token expiry policy: expected later, pic or oauth"

/-! ## Numbers -/

/-- A text without its last character, when that is one of these (`str::strip_suffix`). -/
def stripLast (p : Char → Bool) (s : String) : Option String :=
  match s.toList.getLast? with
  | some c => if p c then some (String.ofList s.toList.dropLast) else none
  | none => none

/-- The digits of a text and the unit of the letter after them, a letter of either case; without
a letter the unit is `base`. -/
def unitOf (base : Nat) : List (Char × Nat) → String → String × Nat
  | [], s => (s, base)
  | (letter, unit) :: units, s =>
    match stripLast (fun c => c = letter ∨ c = letter.toUpper) s with
    | some digits => (digits, unit)
    | none => unitOf base units s

/-- A number of seconds, or one of another unit. Zero is refused. -/
def parseDuration (value : String) : Result Nat :=
  let value := trim value
  let (digits, multiplier) :=
    unitOf 1 [('s', 1), ('m', 60), ('h', 60 * 60), ('d', 24 * (60 * 60))] value
  match parseUnsigned (2 ^ 64) (trim digits) with
  | none => bail s!"`{value}` is not a duration: expected something like 30s, 2m, 1h or 90d"
  | some amount =>
    if amount = 0 then bail "a duration of zero leaves no budget at all"
    else if amount * multiplier < 2 ^ 64 then .ok (amount * multiplier)
    else bail s!"`{value}` is longer than any deployment outlives"

def parseDurationAllowZero (value : String) : Result Nat :=
  let trimmed := trim value
  if trimmed ∈ ["0", "0s", "0S", "0m", "0M", "0h", "0H", "0d", "0D"] then .ok 0
  else parseDuration trimmed

/-- A limit that is not zero. -/
def parseCount (value : String) : Result Nat :=
  match parseUnsigned (2 ^ 32) (trim value) with
  | none => bail s!"`{value}` is not a count"
  | some count => if count = 0 then bail "a limit of zero accepts nothing at all" else .ok count

/-- A number of bytes, or one of another unit. Zero is refused. -/
def parseBytes (value : String) : Result Nat :=
  let value := trim value
  let (digits, multiplier) :=
    unitOf 1 [('k', 1024), ('m', 1024 * 1024), ('g', 1024 * 1024 * 1024)] value
  match parseUnsigned (2 ^ 64)
      (trim (trimEndMatches (fun c => c = 'b' ∨ c = 'B') (trim digits))) with
  | none => bail s!"`{value}` is not a size: expected something like 1M, 512k or 4096"
  | some amount =>
    if amount = 0 then bail "a size of zero accepts no request at all"
    else if amount * multiplier < 2 ^ 64 then .ok (amount * multiplier)
    else bail s!"`{value}` is larger than any machine has"

/-! ## Peers -/

/-- What the certificate at the other end of a connection said about its holder. -/
structure PeerIdentity where
  subject : String
  commonName : Option String
  fingerprint : String
  serial : String
  deriving DecidableEq, Repr

/-- One entry of the list of peers a surface answers. -/
inductive AllowedPeer where
  | commonName (name : String)
  | subject (subject : String)
  | fingerprint (fingerprint : String)
  deriving DecidableEq, Repr

def AllowedPeer.matches : AllowedPeer → PeerIdentity → Bool
  | .commonName name, peer => peer.commonName == some name
  | .subject dn, peer => peer.subject == dn
  -- hex, so case is not meaningful
  | .fingerprint digest, peer => toAsciiLowercase peer.fingerprint == toAsciiLowercase digest

/-- An empty list matches nobody. -/
def PeerIdentity.isAllowedBy (peer : PeerIdentity) (allowed : List AllowedPeer) : Bool :=
  allowed.any fun entry => entry.matches peer

/-- Rejects the entry that names nothing at all. -/
def nonEmpty (value : String) : Result String :=
  if trim value = "" then bail "an empty entry names no peer" else .ok (trim value)

/-- An entry that has been trimmed. -/
def AllowedPeer.ofTrimmed (value : String) : Result AllowedPeer :=
  if value = "" then bail "an empty entry names no peer"
  else if let some name := stripPrefix "cn:" value then (nonEmpty name).map .commonName
  else if let some dn := stripPrefix "dn:" value then (nonEmpty dn).map .subject
  else if let some digest := stripPrefix "sha256:" value then
    let digest := String.ofList ((trim digest).toList.filter (· ≠ ':'))
    if (utf8 digest).length ≠ 64 ∨ ¬ digest.toList.all (Net.isDigitOf 16) then
      bail s!"`{digest}` is not a SHA-256 fingerprint: expected 64 hexadecimal characters"
    else .ok (.fingerprint (toAsciiLowercase digest))
  else .ok (.commonName value)

def AllowedPeer.parse (value : String) : Result AllowedPeer := ofTrimmed (trim value)

/-- The list of peers a surface answers, one entry per line. Blank lines are skipped. -/
def parseAllowed (value : String) : Result (List AllowedPeer) :=
  (((textLines value).map trim).filter (· ≠ "")).mapM AllowedPeer.parse

/-! ## Address blocks -/

/-- The width of an address. -/
def addressBits : Net.IpAddr → Nat
  | .v4 _ => 32
  | .v6 _ => 128

/-- One address, or a block of them. Only `parse` makes one. -/
structure PeerBlock where
  address : Net.IpAddr
  width : Nat
  fits : width ≤ addressBits address
  deriving DecidableEq, Repr

/-- What is wrong with something that is not an address or a block of them. -/
def invalidPeerBlock {α : Type} (written detail : String) : Except String α :=
  .error s!"`{written}` is not an address or an address block: {detail}"

def PeerBlock.parse (written : String) : Except String PeerBlock := do
  let written := trim written
  let (address, wide) := match splitOnce '/' written with
    | some (address, wide) => (address, some wide)
    | none => (written, none)
  let some address := Net.IpAddr.parse address
    | invalidPeerBlock written "the address part is not an IP address"
  match wide with
  | none => pure ⟨address, addressBits address, Nat.le_refl _⟩
  | some wide =>
    let some wide := parseUnsigned 256 wide | invalidPeerBlock written "the prefix is not a number"
    if hwide : addressBits address < wide then
      invalidPeerBlock written "the prefix is wider than the address"
    else pure ⟨address, wide, Nat.le_of_not_lt hwide⟩

end PicX.Core
