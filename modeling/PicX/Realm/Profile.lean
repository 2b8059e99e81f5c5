import PicX.Base.Text

/-!
# Exchange profiles and attesters (`pic-x-core/src/realm.rs`)

An exchange profile says which access tokens a realm accepts and how their claims are mapped; a
trusted attester is an issuer of executor-profile evidence. Both are configuration, and what a
request is decided by.
-/

namespace PicX.Realm

def OAUTH_ACCESS_TOKEN_TYPE : String := "urn:ietf:params:oauth:token-type:access_token"

def EXCHANGE_SOURCE_OAUTH_ACCESS_TOKEN : String := "oauth-access-token"

def EXCHANGE_SOURCE_FORMAT_JWT : String := "jwt"

def EXCHANGE_ON_UNMATCHED_SCOPE_REJECT : String := "reject"

/-- How initial PIC Token expiration is chosen when the source token also has an expiration. -/
inductive TokenInitialExpiryPolicy where
  | later
  | pic
  | oauth
  deriving DecidableEq, Repr

/-- One source or literal mapping from an upstream JWT to a PIC logical value. -/
structure ClaimMapping where
  from? : Option String
  value : Option String
  valueType : Option String
  encoding : Option String
  deriving DecidableEq, Repr

/-- The invariant fields emitted when a scope rule matches. -/
structure PrivilegeEmit where
  scope : String
  operation : String
  resourceType : String
  resourceId : String
  deriving DecidableEq, Repr

/-- A regular-expression rule over an upstream scope value. -/
structure PrivilegeRule where
  name : String
  priority : Int
  pattern : String
  emit : PrivilegeEmit
  deriving DecidableEq, Repr

structure ExchangeProfilePrivileges where
  source : String
  rules : List PrivilegeRule
  deriving DecidableEq, Repr

/-- Claim mappings; the identity context is in the order of its keys. -/
structure ExchangeProfileClaims where
  identityContext : List (String × ClaimMapping)
  scopes : ClaimMapping
  deriving DecidableEq, Repr

/-- Header and claim checks applied before any upstream claim is mapped. -/
structure ExchangeTokenValidation where
  allowedAlgorithms : List String
  requireExpiration : Bool
  requireTokenType : Option String
  deriving DecidableEq, Repr

structure ExchangeProfileSource where
  tokenType : String
  format : String
  issuer : String
  discoveryUrl : Option String
  audience : String
  validation : ExchangeTokenValidation
  deriving DecidableEq, Repr

/-- Validation and mapping rules for one upstream token source. -/
structure ExchangeProfileConfig where
  id : String
  source : ExchangeProfileSource
  claims : ExchangeProfileClaims
  privileges : ExchangeProfilePrivileges
  onUnmatchedScope : String
  deriving DecidableEq, Repr

/-- An issuer trusted for executor-profile evidence in one realm. -/
structure TrustedAttesterConfig where
  id : String
  issuer : String
  jwksUri : String
  proofTypes : List String
  formats : List String
  deriving DecidableEq, Repr

end PicX.Realm
