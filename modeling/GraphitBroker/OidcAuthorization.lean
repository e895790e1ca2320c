import GraphitBroker.OidcTokens

/-!
# Admission of authorization requests

`OidcAuthorizationPolicy::admit` and `revalidate` (`oidc_authorization.rs`): the parameters of a
request are checked against limits, client and policy and are stored in a canonical form, which is
checked again by admitting it once more before it is used. Every loop of the source looks at the
deadline; what it finds there is decided by the environment, by the place of the look.
-/

namespace GraphitBroker

open ExceptList

inductive OidcAuthorizationError where
  | invalidConfiguration
  | invalidLimits
  | invalidRequest
  | invalidClient
  | invalidRedirect
  | invalidScope
  | loginRequired
  | invalidTarget
  | invalidLogin
  | malformedStored
  | readLimitExceeded
  | credential
  | random
  | control (error : ControlError)
  deriving DecidableEq

/-! ### What other crates decide -/

structure UriAuthority where
  userinfo : Option Str
  host : Str
  port : Option Str

structure Uri where
  scheme : Str
  authority : Option UriAuthority
  path : Str
  query : Option Str

structure UriCrates where
  /-- `IriAbsoluteStr::new`. -/
  iri : Str → Option Uri
  /-- `url::Url::parse` succeeds. -/
  url : Str → Bool
  /-- The host parses as an IP address of the loopback. -/
  loopbackIp : Str → Bool
  percentDecode : Str → Bytes
  /-- `ExactUrl::from_str` succeeds; an `ExactUrl` keeps the text it was read from. -/
  exactUrl : Str → Bool
  /-- `Scope::from_str` succeeds. -/
  scope : Str → Bool

/-! ### Requests, clients and policies -/

structure OidcAuthorizationLimits where
  jsonBytes : Nat
  parameterBytes : Nat
  jsonBytes_lt : 0 < jsonBytes ∧ jsonBytes + 1 < 2 ^ 63
  parameterBytes_lt : 0 < parameterBytes ∧ parameterBytes < 2 ^ 63

structure OidcAuthorizationConfiguration where
  cliClientId : Str
  cliRedirectPath : Str
  apiAudience : Str
  acceptedResources : List Str
  dynamicRegistration : Bool
  /-- A `Duration`, in nanoseconds. -/
  authorizationTtl : Nat

structure OidcAuthorizationPolicy where
  cliClientId : Str
  cliRedirect : Str
  apiAudience : Str
  acceptedResources : List Str
  dynamicRegistration : Bool
  ttlMicros : Nat
  limits : OidcAuthorizationLimits

structure OidcAuthorizationInput where
  clientId : Str
  redirectUri : Str
  responseType : Str
  scope : Str
  state : Str
  nonce : Str
  codeChallenge : Str
  codeChallengeMethod : Str
  responseMode : Option Str
  resources : List Str
  prompts : List Str

structure ClientData where
  id : Str
  redirects : List Str
  native : Bool

structure PendingFields where
  format : Str
  phase : Str
  clientId : Str
  apiAudience : Str
  resource : Option Str
  redirectUri : Str
  state : Str
  scopes : List Str
  responseMode : Str
  nonce : Str
  codeChallenge : Str
  codeChallengeMethod : Str
  deriving DecidableEq

inductive OidcAuthorizationResponseMode where
  | query
  | fragment
  | formPost
  deriving DecidableEq

namespace OidcAuthorizationResponseMode

def fromParameter (value : Option Str) : OidcAuthorizationResponseMode :=
  if value = some "fragment".toList then .fragment
  else if value = some "form_post".toList then .formPost
  else .query

def asStr : OidcAuthorizationResponseMode → Str
  | .query => "query".toList
  | .fragment => "fragment".toList
  | .formPost => "form_post".toList

end OidcAuthorizationResponseMode

/-- The places of `admit` that look at the deadline: the loops by their rounds. -/
inductive Look where
  | parameter (round : Nat)
  | resource (round : Nat)
  | scope (round : Nat)
  | sdk (round : Nat)

/-- `guard_original`. -/
def guardOriginal (late : Look → Bool) (look : Look) : Except OidcAuthorizationError Unit :=
  failIf (late look = true) (.control .deadline)

variable (crates : UriCrates)

def validResource (raw : Str) : Bool :=
  decide (byteLen raw ≤ 512) && !raw.isEmpty && !raw.contains (Char.ofNat 0) &&
    (crates.iri raw).isSome && crates.url raw

/-- `OidcClientId::parse`. -/
def parseOidcClientId (value : Str) : Option Str :=
  if safeIdentitySegment value 128 || validChallenge value then some value else none

/-! ### Redirects -/

structure Redirect where
  uri : Uri
  loopback : Bool
  https : Bool

def eqIgnoreAsciiCase (s t : Str) : Bool := toAsciiLowercase s == toAsciiLowercase t

/-- `str::parse::<u16>`. -/
def parseU16 (s : Str) : Option Nat :=
  let digits := (stripPrefix "+".toList s).getD s
  let n := digits.foldl (fun n c => 10 * n + (c.toNat - '0'.toNat)) 0
  if digits.isEmpty || !digits.all Char.isDigit || decide (65535 < n) then none else some n

def bareHost (host : Str) : Str :=
  ((stripPrefix "[".toList host).bind (stripSuffixChar ']')).getD host

def redirect (raw : Str) : Except OidcAuthorizationError Redirect :=
  match crates.iri raw with
  | none => .error .invalidRedirect
  | some uri => do
    failIf (crates.url raw = false) .invalidRedirect
    let https := eqIgnoreAsciiCase uri.scheme "https".toList
    failIf (https = false ∧ eqIgnoreAsciiCase uri.scheme "http".toList = false) .invalidRedirect
    match uri.authority with
    | none => .error .invalidRedirect
    | some auth => do
      failIf (auth.userinfo.isSome ∨ auth.host = []) .invalidRedirect
      match auth.port with
      | none => pure ()
      | some port => failIf (parseU16 port = none ∨ parseU16 port = some 0) .invalidRedirect
      let host := bareHost auth.host
      return {
        uri
        loopback := eqIgnoreAsciiCase host "localhost".toList || crates.loopbackIp host
        https }

def loopbackMatches (requested : Redirect) (raw : Str) : Bool :=
  match redirect crates raw with
  | .error _ => false
  | .ok registered =>
    registered.loopback &&
      crates.percentDecode registered.uri.path == crates.percentDecode requested.uri.path &&
      registered.uri.query.getD [] == requested.uri.query.getD []

def ClientData.admitRedirect (client : ClientData) (raw : Str) :
    Except OidcAuthorizationError Unit := do
  let requested ← redirect crates raw
  let accepted :=
    if client.native && requested.loopback then
      client.redirects.any (loopbackMatches crates requested)
    else !client.native && client.redirects.contains raw
  failIf (accepted = false) .invalidRedirect

/-! ### The policy -/

namespace OidcAuthorizationPolicy

def addResources : List Str → List Str → Except OidcAuthorizationError (List Str)
  | [], accepted => return accepted
  | raw :: rest, accepted => do
    let resource := trim raw
    failIf (validResource crates resource = false) .invalidConfiguration
    addResources rest (if resource ∈ accepted then accepted else accepted ++ [resource])

def new (c : OidcAuthorizationConfiguration) (limits : OidcAuthorizationLimits) :
    Except OidcAuthorizationError OidcAuthorizationPolicy := do
  failIf (safeIdentitySegment c.cliClientId 128 = false ∨
    safeIdentitySegment c.apiAudience 128 = false ∨
    ¬ "/".toList <+: c.cliRedirectPath ∨ '?' ∈ c.cliRedirectPath ∨ '#' ∈ c.cliRedirectPath ∨
    limits.parameterBytes < byteLen c.cliRedirectPath ∨
    c.authorizationTtl < 30 * 10 ^ 9 ∨ 600 * 10 ^ 9 < c.authorizationTtl) .invalidConfiguration
  let cliRedirect := "http://127.0.0.1".toList ++ c.cliRedirectPath
  let _ ← (redirect crates cliRedirect).mapError fun _ => .invalidConfiguration
  let acceptedResources ← addResources crates c.acceptedResources []
  return {
    cliClientId := c.cliClientId
    cliRedirect
    apiAudience := c.apiAudience
    acceptedResources
    dynamicRegistration := c.dynamicRegistration
    ttlMicros := c.authorizationTtl / 1000
    limits }

variable (policy : OidcAuthorizationPolicy) (late : Look → Bool)

/-- The texts that `bound` counts, each with the delimiter that it costs. -/
def counted (input : OidcAuthorizationInput) : List (Str × Nat) :=
  [input.clientId, input.redirectUri, input.responseType, input.scope, input.state, input.nonce,
      input.codeChallenge, input.codeChallengeMethod, input.responseMode.getD []].map (·, 0) ++
    (input.resources ++ input.prompts).map (·, 1)

/-- The loop of `bound`, with `checked_add` on 64 bits. -/
def boundTexts : Nat → List (Str × Nat) → Nat → Except OidcAuthorizationError Unit
  | _, [], _ => return ()
  | round, (text, delimiter) :: rest, total => do
    guardOriginal late (.parameter round)
    failIf (policy.limits.parameterBytes < byteLen text) .invalidRequest
    failIf (2 ^ 64 ≤ total + byteLen text ∨ 2 ^ 64 ≤ total + byteLen text + delimiter)
      .invalidRequest
    let total := total + byteLen text + delimiter
    failIf (policy.limits.parameterBytes < total) .invalidRequest
    boundTexts (round + 1) rest total

def bound (input : OidcAuthorizationInput) : Except OidcAuthorizationError Unit :=
  boundTexts policy late 0 (counted input) 0

def admitResources : Nat → List Str → Option Str → Except OidcAuthorizationError (Option Str)
  | _, [], resource => return resource
  | round, raw :: rest, resource => do
    guardOriginal late (.resource round)
    let value := trim raw
    if value = [] then admitResources (round + 1) rest resource
    else do
      failIf (resource.isSome ∨ validResource crates value = false ∨
        policy.acceptedResources.contains value = false) .invalidTarget
      admitResources (round + 1) rest (some value)

def admitScopes : Nat → List Str → List Str → Except OidcAuthorizationError (List Str)
  | _, [], scopes => return scopes
  | round, scope :: rest, scopes => do
    guardOriginal late (.scope round)
    admitScopes (round + 1) rest
      (if refreshScopes.contains scope && !scopes.contains scope then scopes ++ [scope] else scopes)

/-- `join(" ")`. -/
def joinScopes (scopes : List Str) : Str := " ".toList.intercalate scopes

/-- `drive_sdk`: the authorization machine of the SDK, one look at the deadline a turn. It binds the
redirect, for which the registrar knows only this request's own; it wants the response type `code`,
a scope it can read and a PKCE challenge by S256; the grant it ends with is for this client and
redirect. -/
def driveSdk (input : OidcAuthorizationInput) (scope : Str) :
    Except OidcAuthorizationError Unit := do
  guardOriginal late (.sdk 0)
  failIf (crates.exactUrl input.redirectUri = false) .invalidRequest
  guardOriginal late (.sdk 1)
  failIf (input.responseType ≠ "code".toList ∨ crates.scope scope = false) .invalidRequest
  failIf (input.codeChallengeMethod ≠ "S256".toList) .invalidRequest
  guardOriginal late (.sdk 2)
  guardOriginal late (.sdk 3)

def pendingFormat : Str := "rust-broker-authorization-v1".toList

def pendingPhase : Str := "pending".toList

def authorizedPhase : Str := "authorized".toList

/-- The error for a request with the prompt `none`. -/
def promptError (prompts : List Str) : OidcAuthorizationError :=
  if prompts.length = 1 then .loginRequired else .invalidRequest

/-- `admit`. -/
def admission (input : OidcAuthorizationInput) (client : ClientData) :
    Except OidcAuthorizationError PendingFields := do
  bound policy late input
  failIf (parseOidcClientId input.clientId ≠ some client.id) .invalidClient
  failIf (trim input.state = [] ∨ 512 < byteLen input.state ∨ trim input.nonce = []) .invalidRequest
  failIf (input.prompts.contains "none".toList) (promptError input.prompts)
  failIf (input.codeChallengeMethod ≠ "S256".toList ∨ validChallenge input.codeChallenge = false)
    .invalidRequest
  let resource ← admitResources crates policy late 0 input.resources none
  failIf (input.clientId ≠ policy.cliClientId ∧ resource = none) .invalidTarget
  client.admitRedirect crates input.redirectUri
  let scopes ← admitScopes late 0 ((input.scope.splitOn ' ').filter (!·.isEmpty)) []
  failIf (scopes.contains "openid".toList = false) .invalidScope
  driveSdk crates late input (joinScopes scopes)
  return {
    format := pendingFormat
    phase := pendingPhase
    clientId := input.clientId
    apiAudience := policy.apiAudience
    resource
    redirectUri := input.redirectUri
    state := input.state
    scopes
    responseMode := (OidcAuthorizationResponseMode.fromParameter input.responseMode).asStr
    nonce := input.nonce
    codeChallenge := input.codeChallenge
    codeChallengeMethod := input.codeChallengeMethod }

def storedInput (fields : PendingFields) : OidcAuthorizationInput where
  clientId := fields.clientId
  redirectUri := fields.redirectUri
  responseType := "code".toList
  scope := joinScopes fields.scopes
  state := fields.state
  nonce := fields.nonce
  codeChallenge := fields.codeChallenge
  codeChallengeMethod := fields.codeChallengeMethod
  responseMode := some fields.responseMode
  resources := fields.resource.toList
  prompts := []

def storedError : OidcAuthorizationError → OidcAuthorizationError
  | .control error => .control error
  | _ => .malformedStored

def revalidatePhase (fields : PendingFields) (client : ClientData) (phase : Str) :
    Except OidcAuthorizationError Unit := do
  failIf (fields.format ≠ pendingFormat ∨ fields.phase ≠ phase ∨
    fields.apiAudience ≠ policy.apiAudience) .malformedStored
  let admitted ← (admission crates policy late (storedInput fields) client).mapError storedError
  failIf ({ admitted with phase := phase } ≠ fields) .malformedStored

def revalidate (fields : PendingFields) (client : ClientData) :
    Except OidcAuthorizationError Unit :=
  revalidatePhase crates policy late fields client pendingPhase

def revalidateAuthorized (fields : PendingFields) (client : ClientData) :
    Except OidcAuthorizationError Unit :=
  revalidatePhase crates policy late fields client authorizedPhase

end OidcAuthorizationPolicy

end GraphitBroker
