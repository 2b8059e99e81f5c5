import Mathlib
import PicX.Realm.Crates
import PicX.Realm.Form
import PicX.Realm.Profile

/-!
# From an access token to an authority (`exchange.rs`)

The claims of an access token become the identity context and the invariants of a PIC authority,
as its exchange profile says. Rules are tried by priority, the highest first; each scope takes the
first rule that matches it.
-/

namespace PicX.Realm

open PicX ExchangeError

/-! ## Access tokens -/

/-- An access token that was taken apart. -/
structure DecodedJwt where
  header : Value
  payload : Value
  signingInput : String
  signature : Bytes

/-- Follows a path of member names. -/
def claimAtPath (value : Value) (path : String) : Option Value :=
  (split '.' path).foldlM (fun current segment => current.get segment) value

def decodeJsonSegment (c : Crates) (segment label : String) : Except ExchangeError Value := do
  let bytes ← mapErr (fun error => invalidGrant (label ++ " is not base64url: " ++ error))
    (c.base64urlDecode segment)
  mapErr (fun error => invalidGrant (label ++ " is not JSON: " ++ error)) (c.valueFromSlice bytes)

namespace DecodedJwt

def decode (c : Crates) (token : String) : Except ExchangeError DecodedJwt :=
  match split '.' token with
  | [header, payload, signature] => do
    let headerValue ← decodeJsonSegment c header "source access token header"
    let payloadValue ← decodeJsonSegment c payload "source access token payload"
    let bytes ← mapErr (fun error => invalidGrant
      ("source access token signature is not base64url: " ++ error)) (c.base64urlDecode signature)
    pure { header := headerValue, payload := payloadValue,
           signingInput := header ++ "." ++ payload, signature := bytes }
  | _ => .error (invalidGrant "source access token is not a compact JWS")

def headerString (jwt : DecodedJwt) (name : String) : Option String := jwt.header.getStr name

def claimString (jwt : DecodedJwt) (name : String) : Option String :=
  (claimAtPath jwt.payload name).bind Value.asStr

def claimI64 (jwt : DecodedJwt) (name : String) : Option Int :=
  (claimAtPath jwt.payload name).bind Value.asI64

def audienceContains (jwt : DecodedJwt) (expected : String) : Bool :=
  match claimAtPath jwt.payload "aud" with
  | some (.string value) => value = expected
  | some (.array values) => values.any fun value => value.asStr = some expected
  | _ => false

end DecodedJwt

/-! ## Claims -/

/-- The texts of an array, none of whose items is anything else. -/
def allStrings : List Value → Option (List String)
  | [] => some []
  | value :: rest => value.asStr.bind fun s => (allStrings rest).map (s :: ·)

def mapAuthorityValue (mapping : ClaimMapping) (payload : Value) : Except String AuthorityValue :=
  match mapping.value with
  | some value => pure (.one value)
  | none => do
    let path ← okOr mapping.from? "mapping has no `from` or `value`"
    let value ← okOr (claimAtPath payload path) ("missing `" ++ path ++ "`")
    if mapping.valueType = some "set" then
      match value with
      | .array values => do
        let texts ← okOr (allStrings values) ("`" ++ path ++ "` contains a non-string value")
        pure (.many texts)
      | .string text =>
        if mapping.encoding = some "space-delimited" then pure (.many (splitWhitespace text))
        else pure (.many [text])
      | _ => .error ("`" ++ path ++ "` is not a string or array of strings")
    else do
      let text ← okOr value.asStr ("`" ++ path ++ "` is not a string")
      pure (.one text)

/-- The claims of the identity context, one after the other. -/
def mapIdentityClaims (payload : Value) : List (String × ClaimMapping) → Map AuthorityValue →
    Except ExchangeError (Map AuthorityValue)
  | [], identity => pure identity
  | (key, mapping) :: rest, identity => do
    let value ← mapErr (fun error => invalidGrant
      ("identity-context claim `" ++ key ++ "` could not be mapped: " ++ error))
      (mapAuthorityValue mapping payload)
    mapIdentityClaims payload rest (identity.insert key value)

def mapIdentityContext (profile : ExchangeProfileConfig) (payload : Value) :
    Except ExchangeError (Option (Map AuthorityValue)) := do
  let identity ← mapIdentityClaims payload profile.claims.identityContext ∅
  pure (if identity.keys = ∅ then none else some identity)

def mapScopes (mapping : ClaimMapping) (payload : Value) : Except ExchangeError (List String) := do
  ensure (mapping.valueType = some "set")
    (invalidGrant "claims.scopes must be mapped as `type: set`")
  let path ← okOr mapping.from? (invalidGrant "claims.scopes must map from an upstream claim")
  let source ← okOr (claimAtPath payload path)
    (invalidGrant ("source access token has no `" ++ path ++ "` claim"))
  let scopes ← match source with
    | .string text =>
      if mapping.encoding = some "space-delimited" then pure (splitWhitespace text)
      else pure [text]
    | .array values =>
      okOr (allStrings values)
        (invalidGrant ("`" ++ path ++ "` must contain only string scope values"))
    | _ => .error (invalidGrant ("`" ++ path ++ "` must be a string or array of strings"))
  let scopes := scopes.filter fun scope => !scope.isEmpty
  ensure (scopes ≠ []) (invalidGrant "source access token produced no scopes")
  pure scopes

/-! ## Templates -/

/-- What stands before and after the next place a value goes. -/
def findPlaceholder : List Char → Option (List Char × List Char)
  | [] => none
  | '$' :: '\x7b' :: after => some ([], after)
  | ch :: rest => (findPlaceholder rest).map fun p => (ch :: p.1, p.2)

/-- The rounds of the loop over a template, each of which takes at least a placeholder. -/
def renderFrom (template raw : String) (captures : String → Option String) :
    Nat → List Char → Except ExchangeError (List Char)
  | 0, rest => pure rest
  | fuel + 1, rest =>
    match findPlaceholder rest with
    | none => pure rest
    | some (before, after) =>
      match splitOnce '\x7d' (String.ofList after) with
      | none => .error (invalidRequest
          ("template `" ++ template ++ "` has an unterminated placeholder"))
      | some (name, rest) => do
        let value ← if name = "raw" then pure raw else okOr (captures name) (invalidRequest
          ("template `" ++ template ++ "` references missing capture `" ++ name ++ "`"))
        let rendered ← renderFrom template raw captures fuel rest.toList
        pure (before ++ value.toList ++ rendered)

def renderTemplate (template raw : String) (captures : String → Option String) :
    Except ExchangeError String := do
  let rendered ← renderFrom template raw captures (template.toList.length + 1) template.toList
  pure (String.ofList rendered)

/-! ## Invariants -/

/-- A rule whose pattern was compiled. -/
structure CompiledRule where
  rule : PrivilegeRule
  captures : String → Option (String → Option String)

def compileRules (c : Crates) (profile : ExchangeProfileConfig) :
    List PrivilegeRule → Except ExchangeError (List CompiledRule)
  | [] => pure []
  | rule :: rest => do
    let captures ← mapErr (fun error => invalidRequest ("exchange profile `" ++ profile.id ++
      "` has an invalid rule pattern `" ++ rule.name ++ "`: " ++ error)) (c.regexNew rule.pattern)
    let compiled ← compileRules c profile rest
    pure ({ rule, captures } :: compiled)

def renderInvariant (emit : PrivilegeEmit) (scope : String) (captures : String → Option String) :
    Except ExchangeError Invariant := do
  let scope' ← renderTemplate emit.scope scope captures
  let operation ← renderTemplate emit.operation scope captures
  let resourceType ← renderTemplate emit.resourceType scope captures
  let resourceId ← renderTemplate emit.resourceId scope captures
  pure { scope := scope', operation, resourceType, resourceId }

/-- The first rule that matches a scope, with what it captured. -/
def matchingRule (rules : List CompiledRule) (scope : String) :
    Option (PrivilegeRule × (String → Option String)) :=
  rules.findSome? fun r => (r.captures scope).map fun captures => (r.rule, captures)

/-- Inserts into a sorted set. -/
def insertInvariant (c : Crates) (i : Invariant) (set : List Invariant) : List Invariant :=
  letI := c.invariantOrder
  if i ∈ set then set else set.orderedInsert (· ≤ ·) i

/-- The scopes one after the other, each adding an invariant to the set. -/
def mapScopesToInvariants (c : Crates) (profile : ExchangeProfileConfig)
    (rules : List CompiledRule) : List String → List Invariant →
      Except ExchangeError (List Invariant)
  | [], invariants => pure invariants
  | scope :: rest, invariants =>
    match matchingRule rules scope with
    | some (rule, captures) => do
      let invariant ← renderInvariant rule.emit scope captures
      mapScopesToInvariants c profile rules rest (insertInvariant c invariant invariants)
    | none => do
      ensure (profile.onUnmatchedScope ≠ EXCHANGE_ON_UNMATCHED_SCOPE_REJECT) (invalidGrant
        ("scope `" ++ scope ++ "` is not accepted by exchange profile `" ++ profile.id ++ "`"))
      mapScopesToInvariants c profile rules rest invariants

def mapInvariants (c : Crates) (profile : ExchangeProfileConfig) (scopes : List String) :
    Except ExchangeError (List Invariant) := do
  let rules ← compileRules c profile profile.privileges.rules
  -- Highest priority first; rules of one priority keep their order.
  let rules := rules.insertionSort fun a b => b.rule.priority ≤ a.rule.priority
  let invariants ← mapScopesToInvariants c profile rules scopes []
  ensure (invariants ≠ []) (invalidGrant "the exchange produced no executable authority invariants")
  pure invariants

structure MappedAuthority where
  identityContext : Option (Map AuthorityValue)
  invariants : List Invariant

def mapAuthority (c : Crates) (profile : ExchangeProfileConfig) (payload : Value) :
    Except ExchangeError MappedAuthority := do
  let identityContext ← mapIdentityContext profile payload
  let scopes ← mapScopes profile.claims.scopes payload
  let invariants ← mapInvariants c profile scopes
  pure { identityContext, invariants }

/-! ## Expiry -/

/-- The longest lifetime a proposal may ask for, in seconds. -/
def MAX_REQUESTED_LIFETIME : Int := 365 * 24 * 3600

/-- The absolute expiry a proposal asks for, when it asks for one. -/
def proposalExpiry (c : Crates) (encoded : String) (now : Int) :
    Except ExchangeError (Option Int) := do
  let bytes ← mapErr (fun error => invalidRequest
    ("continuity_proposal is not base64url: " ++ error)) (c.base64urlDecode encoded)
  let document ← mapErr (fun error => invalidRequest ("continuity_proposal is not JSON: " ++ error))
    (c.valueFromSlice bytes)
  match document.get "tokenExpiresAt" with
  | some value => do
    let expiresAt ← okOr (value.asI64.filter fun expiresAt => expiresAt > now) (invalidRequest
      "`tokenExpiresAt` must be a future NumericDate in whole seconds")
    ensure (¬expiresAt - now > MAX_REQUESTED_LIFETIME)
      (invalidRequest "`tokenExpiresAt` is more than a year in the future")
    pure (some expiresAt)
  | none =>
    match document.get "tokenLifetimeSeconds" with
    | none => pure none
    | some value => do
      let seconds ← okOr (value.asI64.filter fun seconds => seconds > 0) (invalidRequest
        "`tokenLifetimeSeconds` must be a positive whole number of seconds")
      ensure (¬seconds > MAX_REQUESTED_LIFETIME)
        (invalidRequest "`tokenLifetimeSeconds` is longer than a year")
      let expiresAt ← okOr (checkedAddI64 now seconds)
        (invalidRequest "`tokenLifetimeSeconds` overflows time")
      pure (some expiresAt)

/-- The absolute expiry of a new lineage. `defaultLifetime` is in whole seconds. -/
def initialExpiry (c : Crates) (encoded : String) (sourceExpiry : Option Int) (now : Int)
    (defaultLifetime : Nat) (policy : TokenInitialExpiryPolicy) : Except ExchangeError Int := do
  let proposed ← proposalExpiry c encoded now
  match proposed with
  | some expiry => pure expiry
  | none => do
    let defaultExpiry ← okOr (checkedAddI64 now (toI64 defaultLifetime))
      (invalidRequest "realm token_lifetime overflows time")
    let expiry := match sourceExpiry with
      | some sourceExpiry => match policy with
        | .later => max sourceExpiry defaultExpiry
        | .pic => defaultExpiry
        | .oauth => sourceExpiry
      | none => defaultExpiry
    ensure (¬expiry ≤ now) (invalidGrant "initial PIC Token expiration is not in the future")
    pure expiry

end PicX.Realm
